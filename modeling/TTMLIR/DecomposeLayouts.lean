/-
# Decomposing layout conversions

`TTNNDecomposeLayouts` replaces a `ttnn.to_layout` by a sequence of single steps: move to or
from the device, tilize or untilize, cast, change the memory configuration.  Eight handlers
choose the order of the steps.

* `createLayoutConversionOps` : the handlers, emitting operations with their result layouts;
* `LayoutConverter.convertTensorLayout` : the converter of the runtime, which has the same
  handlers and refuses the conversions that would go through the host;
* `LayoutConverter.convertTensorLayout_eq` : where it does not refuse, it ends in the
  requested descriptor.

Layouts are those of `TTNNLayout`, so a step fails where the layout of its result cannot be
built.
-/
import TTMLIR.TTNNLayout

namespace TTNN

/-! ## Layouts of operands and results -/

/-- The page layout of a tensor. -/
inductive Layout : Type where
  | rowMajor | tile
  deriving DecidableEq, Repr

/-- The block float types, which only exist in tiles. -/
def DataType.isBlockFloat : DataType → Bool
  | .bfpFloat8 | .bfpBFloat8 | .bfpFloat4 | .bfpBFloat4 | .bfpFloat2 | .bfpBFloat2 => true
  | _ => false

/-- `dataTypeToElementType`: the scalar type of a data type, named by its own data type. -/
def dataTypeToElementType : DataType → DataType
  | .bfpFloat8 | .bfpFloat4 | .bfpFloat2 => .float16
  | .bfpBFloat8 | .bfpBFloat4 | .bfpBFloat2 => .bfloat16
  | d => d

/-- The data type of the scalars of an element type. -/
def ElementType.scalarDataType : ElementType → DataType
  | .tile t => dataTypeToElementType t.dataType
  | .scalar d => d

/-- The data type of an element type. -/
def ElementType.dataType : ElementType → DataType
  | .tile t => t.dataType
  | .scalar d => d

/-- The page layout of an element type. -/
def ElementType.layout (e : ElementType) : Layout := if e.isTile then .tile else .rowMajor

/-- `utils::getElementType`. -/
def getElementType (layout : Layout) (dataType : DataType) : ElementType :=
  match layout with
  | .tile => .tile (.get dataType)
  | .rowMajor => .scalar (dataTypeToElementType dataType)

namespace DecomposeLayouts

/-- `LayoutInfo`. -/
structure LayoutInfo : Type where
  bufferType : BufferType
  layoutEnum : Layout
  dataType : DataType
  tensorMemoryLayout : Option TensorMemoryLayout
  shardGrid : List ℕ
  shardShape : List ℕ
  deriving DecidableEq, Repr

/-- `MemoryConfigAttr`. -/
structure MemoryConfigAttr : Type where
  bufferType : BufferType
  shardShape : List ℕ
  tensorMemoryLayout : Option TensorMemoryLayout
  deriving DecidableEq, Repr

namespace LayoutInfo

def createMemoryConfigAttr (i : LayoutInfo) : MemoryConfigAttr :=
  ⟨i.bufferType, i.shardShape, i.tensorMemoryLayout⟩

/-- `isL1Sharded`, only asked where there is a memory layout. -/
def isL1Sharded (i : LayoutInfo) : Bool :=
  match i.tensorMemoryLayout with
  | some m => m.isSharded
  | none => false

def isOnHost (i : LayoutInfo) : Bool := i.bufferType = .systemMemory

def isOnDevice (i : LayoutInfo) : Bool := !i.isOnHost

def isTilized (i : LayoutInfo) : Bool := i.layoutEnum = .tile

end LayoutInfo

/-- `OpsToCreate`. -/
structure OpsToCreate : Type where
  createToDeviceOp : Bool
  createFromDeviceOp : Bool
  createToLayoutOp : Bool
  createDataTypeCastOp : Bool
  createToMemoryConfigOp : Bool
  deriving DecidableEq, Repr

def OpsToCreate.createSomeOp (o : OpsToCreate) : Bool :=
  o.createToLayoutOp || o.createDataTypeCastOp || o.createToDeviceOp || o.createFromDeviceOp
    || o.createToMemoryConfigOp

/-- `ttnn.to_layout`: the shape of the tensor, the layouts of its operand and result, its
attributes, and whether it names a device. -/
structure ToLayoutOp : Type where
  shape : List ℕ
  input : TTNNLayoutAttr
  result : TTNNLayoutAttr
  memoryConfig : Option MemoryConfigAttr
  dtype : Option DataType
  device : Bool

/-- The part of `LayoutInfo` that comes from a layout. -/
def layoutInfo (L : TTNNLayoutAttr) : LayoutInfo where
  bufferType := L.getBufferType
  layoutEnum := L.getElementType.layout
  dataType := L.getElementType.dataType
  tensorMemoryLayout := L.memLayout
  shardGrid := L.grid
  shardShape := L.memref.shape

/-- `getInputOutputLayouts`. -/
def getInputOutputLayouts (op : ToLayoutOp) : Except String (LayoutInfo × LayoutInfo) :=
  match op.memoryConfig, op.dtype with
  | some memoryConfig, some dtype =>
    .ok (layoutInfo op.input,
      { layoutInfo op.result with
        bufferType := memoryConfig.bufferType
        dataType := dtype
        tensorMemoryLayout := memoryConfig.tensorMemoryLayout })
  | none, _ => .error "op.getMemoryConfig().has_value()"
  | _, none => .error "op.getDtype().has_value()"

/-- `determineRequiredOps`. -/
def determineRequiredOps (input output : LayoutInfo) : OpsToCreate :=
  let toDevice := input.bufferType ≠ output.bufferType && input.isOnHost
  { createToDeviceOp := toDevice
    createFromDeviceOp := input.bufferType ≠ output.bufferType && output.isOnHost
    createDataTypeCastOp := input.dataType ≠ output.dataType
    createToLayoutOp := input.layoutEnum ≠ output.layoutEnum
    createToMemoryConfigOp := !toDevice && output.isOnDevice &&
      ((output.tensorMemoryLayout.isSome &&
          input.tensorMemoryLayout ≠ output.tensorMemoryLayout) ||
        (input.bufferType = .dram && output.bufferType = .l1) ||
        (input.bufferType = .l1 && output.bufferType = .dram) ||
        (input.isL1Sharded && output.isL1Sharded && input.shardGrid ≠ output.shardGrid)) }

/-- `isCreationValid`. -/
def isCreationValid (input output : LayoutInfo) (ops : OpsToCreate) : Except String Unit :=
  if !ops.createSomeOp then
    .error "Redundant ttnn::ToLayoutOp - no ttnn layout ops needed, this may be due to the forcing of tile/row major layouts."
  else if ops.createToDeviceOp && ops.createFromDeviceOp then
    .error "Cannot create both ToDeviceOp and FromDeviceOp"
  else if ops.createToMemoryConfigOp && output.bufferType = .systemMemory then
    .error "ToMemoryConfigOp only supported for device output tensors"
  else if input.isOnHost && ops.createFromDeviceOp then
    .error "Unexpected FromDeviceOp on host tensor"
  else if input.isOnDevice && ops.createToDeviceOp then
    .error "Unexpected ToDeviceOp on device tensor"
  else .ok ()

/-- `OpCreationInfo`. -/
structure OpCreationInfo : Type where
  device : Bool
  input : LayoutInfo
  output : LayoutInfo
  opsToCreate : OpsToCreate

def OpCreationInfo.shouldUntilize (info : OpCreationInfo) : Bool :=
  info.opsToCreate.createToLayoutOp && !info.output.isTilized

def OpCreationInfo.shouldTilize (info : OpCreationInfo) : Bool :=
  info.opsToCreate.createToLayoutOp && info.output.isTilized

/-- `canTilizeDataTypeOnDevice`. -/
def canTilizeDataTypeOnDevice (d : DataType) : Bool := d = .bfloat16

/-- `canUntilizeDataTypeOnDevice`. -/
def canUntilizeDataTypeOnDevice (d : DataType) : Bool := d = .bfloat16

/-! ## Emitting operations -/

/-- An operation the decomposition emits, with its attributes. -/
inductive EmittedOp : Type where
  | toDevice (memoryConfig : MemoryConfigAttr)
  | fromDevice
  | toLayout (layout : Layout) (device : Bool)
  | toDType (dtype : DataType)
  | typecast (dtype : DataType)
  | toMemoryConfig (memoryConfig : MemoryConfigAttr)
  deriving DecidableEq, Repr

/-- An emitted operation with the layouts of its operand and its result. -/
structure Emission : Type where
  op : EmittedOp
  operand : TTNNLayoutAttr
  result : TTNNLayoutAttr

/-- `currentInput`, as its layout, and the operations emitted so far. -/
structure Run : Type where
  current : TTNNLayoutAttr
  emitted : List Emission

/-- Emit an operation on the current value. -/
def Run.createOp (run : Run) (op : EmittedOp) (result : TTNNLayoutAttr) : Run :=
  ⟨result, run.emitted ++ [⟨op, run.current, result⟩]⟩

section Create

variable (op : ToLayoutOp) (info : OpCreationInfo)

/-- `createToDeviceOpIfNeeded`. -/
def createToDeviceOpIfNeeded (forceCreate : Bool) (run : Run) : Except String Run :=
  if !info.opsToCreate.createToDeviceOp && !forceCreate then .ok run
  else
    match info.output.tensorMemoryLayout with
    | none => .error "info.output.tensorMemoryLayout.getValue()"
    | some memLayout => do
        let placed ← run.current.withBufferType info.output.bufferType
        let laidOut ← placed.withMemoryLayout memLayout
        let result ← laidOut.withGrid op.shape info.output.shardGrid [(0, -1)]
        return run.createOp (.toDevice info.output.createMemoryConfigAttr) result

/-- `createFromDeviceOpIfNeeded`. -/
def createFromDeviceOpIfNeeded (forceCreate : Bool) (run : Run) : Except String Run :=
  if !info.opsToCreate.createFromDeviceOp && !forceCreate then .ok run
  else do
    let result ← run.current.withBufferType .systemMemory
    return run.createOp .fromDevice result

/-- `createToLayoutOpIfNeeded`. -/
def createToLayoutOpIfNeeded (run : Run) : Except String Run :=
  if !info.opsToCreate.createToLayoutOp then .ok run
  else do
    let elementType := TTNN.getElementType info.output.layoutEnum
      run.current.getElementType.scalarDataType
    let result ← run.current.withElementType elementType op.shape [(0, -1)]
    return run.createOp (.toLayout info.output.layoutEnum
      (run.current.getBufferType ≠ .systemMemory && info.device)) result

/-- `createDataTypeCastingOp`, for either casting operation. -/
def createDataTypeCastingOp (cast : DataType → EmittedOp) (run : Run) : Except String Run := do
  let elementType := TTNN.getElementType run.current.getElementType.layout info.output.dataType
  let result ← run.current.withElementType elementType op.shape [(0, -1)]
  return run.createOp (cast info.output.dataType) result

/-- `createDataTypeCastingOpIfNeeded`. -/
def createDataTypeCastingOpIfNeeded (run : Run) : Except String Run :=
  if !info.opsToCreate.createDataTypeCastOp then .ok run
  else if run.current.getBufferType = .systemMemory then
    createDataTypeCastingOp op info .toDType run
  else if run.current.getElementType.layout ≠ .tile then
    .error "Only tilized tensors are supported for device typecast"
  else createDataTypeCastingOp op info .typecast run

/-- `createToMemoryConfigOpIfNeeded`: the result has the type of the decomposed operation. -/
def createToMemoryConfigOpIfNeeded (run : Run) : Except String Run :=
  if !info.opsToCreate.createToMemoryConfigOp then .ok run
  else .ok (run.createOp (.toMemoryConfig info.output.createMemoryConfigAttr) op.result)

end Create

/-! ## The handlers -/

section Handlers

variable (op : ToLayoutOp) (info : OpCreationInfo) (run : Run)

/-- `handleHostInputNoLayoutNoTypecast`. -/
def handleHostInputNoLayoutNoTypecast : Except String Run := do
  let run ← createToDeviceOpIfNeeded op info false run
  createToMemoryConfigOpIfNeeded op info run

/-- `handleHostInputLayoutNoTypecast`. -/
def handleHostInputLayoutNoTypecast : Except String Run :=
  if info.input.dataType ≠ info.output.dataType then
    .error "Data type should be the same if we're not creating typecast op"
  else if info.output.isOnHost then do
    let run ← createToLayoutOpIfNeeded op info run
    createToMemoryConfigOpIfNeeded op info run
  else if info.shouldUntilize && canUntilizeDataTypeOnDevice info.output.dataType then do
    let run ← createToDeviceOpIfNeeded op info false run
    let run ← createToLayoutOpIfNeeded op info run
    createToMemoryConfigOpIfNeeded op info run
  else if info.shouldUntilize && !canUntilizeDataTypeOnDevice info.output.dataType then do
    let run ← createToLayoutOpIfNeeded op info run
    let run ← createToDeviceOpIfNeeded op info false run
    createToMemoryConfigOpIfNeeded op info run
  else if info.shouldTilize && canTilizeDataTypeOnDevice info.output.dataType then do
    let run ← createToDeviceOpIfNeeded op info false run
    let run ← createToLayoutOpIfNeeded op info run
    createToMemoryConfigOpIfNeeded op info run
  else if info.shouldTilize && !canTilizeDataTypeOnDevice info.output.dataType then do
    let run ← createToLayoutOpIfNeeded op info run
    let run ← createToDeviceOpIfNeeded op info false run
    createToMemoryConfigOpIfNeeded op info run
  else .error "Unreachable code path"

/-- `handleHostInputNoLayoutTypecast`. -/
def handleHostInputNoLayoutTypecast : Except String Run :=
  if info.input.layoutEnum ≠ info.output.layoutEnum then
    .error "Layout should be the same if we're not creating a ToLayoutOp"
  else if info.output.isOnHost then do
    let run ← createDataTypeCastingOpIfNeeded op info run
    createToMemoryConfigOpIfNeeded op info run
  else if !info.output.isTilized then do
    let run ← createDataTypeCastingOpIfNeeded op info run
    let run ← createToDeviceOpIfNeeded op info false run
    createToMemoryConfigOpIfNeeded op info run
  else if info.output.isTilized then do
    let run ← createToDeviceOpIfNeeded op info false run
    let run ← createDataTypeCastingOpIfNeeded op info run
    createToMemoryConfigOpIfNeeded op info run
  else .error "Unreachable code path"

/-- `handleHostInputLayoutTypecast`. -/
def handleHostInputLayoutTypecast : Except String Run :=
  if info.output.isOnHost then do
    let run ← createDataTypeCastingOpIfNeeded op info run
    let run ← createToLayoutOpIfNeeded op info run
    createToMemoryConfigOpIfNeeded op info run
  else if info.shouldUntilize && canUntilizeDataTypeOnDevice info.output.dataType then do
    let run ← createToDeviceOpIfNeeded op info false run
    let run ← createDataTypeCastingOpIfNeeded op info run
    let run ← createToLayoutOpIfNeeded op info run
    createToMemoryConfigOpIfNeeded op info run
  else if info.shouldUntilize && !canUntilizeDataTypeOnDevice info.output.dataType then do
    let run ← createDataTypeCastingOpIfNeeded op info run
    let run ← createToLayoutOpIfNeeded op info run
    let run ← createToDeviceOpIfNeeded op info false run
    createToMemoryConfigOpIfNeeded op info run
  else if info.shouldTilize && canTilizeDataTypeOnDevice info.input.dataType then do
    let run ← createToDeviceOpIfNeeded op info false run
    let run ← createToLayoutOpIfNeeded op info run
    let run ← createDataTypeCastingOpIfNeeded op info run
    createToMemoryConfigOpIfNeeded op info run
  else if info.shouldTilize && canTilizeDataTypeOnDevice info.output.dataType then do
    let run ← createDataTypeCastingOpIfNeeded op info run
    let run ← createToDeviceOpIfNeeded op info false run
    let run ← createToLayoutOpIfNeeded op info run
    createToMemoryConfigOpIfNeeded op info run
  else if info.shouldTilize && !canTilizeDataTypeOnDevice info.input.dataType &&
      !canTilizeDataTypeOnDevice info.output.dataType then do
    let run ← createDataTypeCastingOpIfNeeded op info run
    let run ← createToLayoutOpIfNeeded op info run
    let run ← createToDeviceOpIfNeeded op info false run
    createToMemoryConfigOpIfNeeded op info run
  else .error "Unreachable code path"

/-- `handleHostInputLayoutConversion`. -/
def handleHostInputLayoutConversion : Except String Run :=
  if !info.opsToCreate.createToLayoutOp && !info.opsToCreate.createDataTypeCastOp then
    handleHostInputNoLayoutNoTypecast op info run
  else if info.opsToCreate.createToLayoutOp && !info.opsToCreate.createDataTypeCastOp then
    handleHostInputLayoutNoTypecast op info run
  else if !info.opsToCreate.createToLayoutOp && info.opsToCreate.createDataTypeCastOp then
    handleHostInputNoLayoutTypecast op info run
  else if info.opsToCreate.createToLayoutOp && info.opsToCreate.createDataTypeCastOp then
    handleHostInputLayoutTypecast op info run
  else .error "Unreachable code path"

/-- `handleDeviceInputNoLayoutNoTypecast`. -/
def handleDeviceInputNoLayoutNoTypecast : Except String Run := do
  let run ← createToMemoryConfigOpIfNeeded op info run
  createFromDeviceOpIfNeeded info false run

/-- `handleDeviceInputLayoutNoTypecast`. -/
def handleDeviceInputLayoutNoTypecast : Except String Run :=
  if info.input.dataType ≠ info.output.dataType then
    .error "Data type should be the same if we're not creating typecast op"
  else if info.shouldUntilize && canUntilizeDataTypeOnDevice info.input.dataType then do
    let run ← createToLayoutOpIfNeeded op info run
    let run ← createToMemoryConfigOpIfNeeded op info run
    createFromDeviceOpIfNeeded info false run
  else if info.shouldUntilize && !canUntilizeDataTypeOnDevice info.input.dataType &&
      info.opsToCreate.createFromDeviceOp then do
    let run ← createFromDeviceOpIfNeeded info false run
    createToLayoutOpIfNeeded op info run
  else if info.shouldUntilize && !canUntilizeDataTypeOnDevice info.input.dataType &&
      !info.opsToCreate.createFromDeviceOp then do
    let run ← createFromDeviceOpIfNeeded info true run
    let run ← createToLayoutOpIfNeeded op info run
    createToDeviceOpIfNeeded op info true run
  else if info.shouldTilize && canTilizeDataTypeOnDevice info.input.dataType then do
    let run ← createToLayoutOpIfNeeded op info run
    let run ← createToMemoryConfigOpIfNeeded op info run
    createFromDeviceOpIfNeeded info false run
  else if info.shouldTilize && !canTilizeDataTypeOnDevice info.input.dataType &&
      info.opsToCreate.createFromDeviceOp then do
    let run ← createFromDeviceOpIfNeeded info false run
    createToLayoutOpIfNeeded op info run
  else if info.shouldTilize && !canTilizeDataTypeOnDevice info.input.dataType &&
      !info.opsToCreate.createFromDeviceOp then do
    let run ← createFromDeviceOpIfNeeded info true run
    let run ← createToLayoutOpIfNeeded op info run
    let run ← createToDeviceOpIfNeeded op info true run
    createToMemoryConfigOpIfNeeded op info run
  else .error "Unreachable code path"

/-- `handleDeviceInputNoLayoutTypecast`. -/
def handleDeviceInputNoLayoutTypecast : Except String Run :=
  if info.input.layoutEnum ≠ info.output.layoutEnum then
    .error "Layout should be the same if we're not creating toLayout op"
  else if info.output.isTilized then do
    let run ← createDataTypeCastingOpIfNeeded op info run
    let run ← createToMemoryConfigOpIfNeeded op info run
    createFromDeviceOpIfNeeded info false run
  else if !info.output.isTilized && info.opsToCreate.createFromDeviceOp then do
    let run ← createFromDeviceOpIfNeeded info false run
    createDataTypeCastingOpIfNeeded op info run
  else if !info.output.isTilized && !info.opsToCreate.createFromDeviceOp then do
    let run ← createFromDeviceOpIfNeeded info true run
    let run ← createDataTypeCastingOpIfNeeded op info run
    let run ← createToDeviceOpIfNeeded op info true run
    createToMemoryConfigOpIfNeeded op info run
  else .error "Unreachable code path"

/-- `handleDeviceInputLayoutTypecast`. -/
def handleDeviceInputLayoutTypecast : Except String Run :=
  if info.shouldUntilize && canUntilizeDataTypeOnDevice info.output.dataType then do
    let run ← createDataTypeCastingOpIfNeeded op info run
    let run ← createToLayoutOpIfNeeded op info run
    createFromDeviceOpIfNeeded info false run
  else if info.shouldUntilize && !canUntilizeDataTypeOnDevice info.output.dataType &&
      info.opsToCreate.createFromDeviceOp then do
    let run ← createDataTypeCastingOpIfNeeded op info run
    let run ← createFromDeviceOpIfNeeded info false run
    createToLayoutOpIfNeeded op info run
  else if info.shouldUntilize && !canUntilizeDataTypeOnDevice info.output.dataType &&
      !info.opsToCreate.createFromDeviceOp then do
    let run ← createDataTypeCastingOpIfNeeded op info run
    let run ← createFromDeviceOpIfNeeded info true run
    let run ← createToLayoutOpIfNeeded op info run
    let run ← createToDeviceOpIfNeeded op info true run
    createToMemoryConfigOpIfNeeded op info run
  else if info.shouldTilize && canTilizeDataTypeOnDevice info.input.dataType then do
    let run ← createToLayoutOpIfNeeded op info run
    let run ← createDataTypeCastingOpIfNeeded op info run
    let run ← createToMemoryConfigOpIfNeeded op info run
    createFromDeviceOpIfNeeded info false run
  else if info.shouldTilize && !canTilizeDataTypeOnDevice info.input.dataType &&
      info.opsToCreate.createFromDeviceOp then do
    let run ← createFromDeviceOpIfNeeded info false run
    let run ← createToLayoutOpIfNeeded op info run
    createDataTypeCastingOpIfNeeded op info run
  else if info.shouldTilize && !canTilizeDataTypeOnDevice info.input.dataType &&
      !info.opsToCreate.createFromDeviceOp then do
    let run ← createFromDeviceOpIfNeeded info true run
    let run ← createToLayoutOpIfNeeded op info run
    let run ← createToDeviceOpIfNeeded op info true run
    let run ← createDataTypeCastingOpIfNeeded op info run
    createToMemoryConfigOpIfNeeded op info run
  else .error "Unreachable code path"

/-- `handleDeviceInputLayoutConversion`. -/
def handleDeviceInputLayoutConversion : Except String Run :=
  if !info.opsToCreate.createToLayoutOp && !info.opsToCreate.createDataTypeCastOp then
    handleDeviceInputNoLayoutNoTypecast op info run
  else if info.opsToCreate.createToLayoutOp && !info.opsToCreate.createDataTypeCastOp then
    handleDeviceInputLayoutNoTypecast op info run
  else if !info.opsToCreate.createToLayoutOp && info.opsToCreate.createDataTypeCastOp then
    handleDeviceInputNoLayoutTypecast op info run
  else if info.opsToCreate.createToLayoutOp && info.opsToCreate.createDataTypeCastOp then
    handleDeviceInputLayoutTypecast op info run
  else .error "Unreachable code path"

end Handlers

/-- `createLayoutConversionOps`. -/
def createLayoutConversionOps (op : ToLayoutOp) : Except String Run := do
  let (input, output) ← getInputOutputLayouts op
  let opsToCreate := determineRequiredOps input output
  isCreationValid input output opsToCreate
  if !op.device && !output.isOnHost then .error "Device not specified for device tensor"
  else
    let info : OpCreationInfo := ⟨op.device, input, output, opsToCreate⟩
    let run : Run := ⟨op.input, []⟩
    if input.isOnHost then handleHostInputLayoutConversion op info run
    else handleDeviceInputLayoutConversion op info run

/-! ## The converter of the runtime -/

/-- Where the runtime stores a tensor. -/
inductive StorageType : Type where
  | host | device
  deriving DecidableEq, Repr

/-- `LayoutDesc`. -/
structure LayoutDesc : Type where
  storageType : StorageType
  layout : Layout
  dataType : DataType
  memoryConfig : Option MemoryConfigAttr
  deriving DecidableEq, Repr

namespace LayoutDesc

def isOnHost (d : LayoutDesc) : Bool := d.storageType = .host

def isOnDevice (d : LayoutDesc) : Bool := !d.isOnHost

def isTilized (d : LayoutDesc) : Bool := d.layout = .tile

/-- A memory configuration is there exactly on the device. -/
def WellFormed (d : LayoutDesc) : Prop := d.isOnDevice = d.memoryConfig.isSome

end LayoutDesc

/-- `LayoutConverter`: its two descriptors, and whether there is a target device. -/
structure LayoutConverter : Type where
  inputDesc : LayoutDesc
  outputDesc : LayoutDesc
  targetDevice : Bool

namespace LayoutConverter

section Converter

variable (c : LayoutConverter) (input : LayoutDesc)

def shouldTilize : Bool :=
  c.inputDesc.layout = .rowMajor && c.outputDesc.layout = .tile

def shouldUntilize : Bool :=
  c.inputDesc.layout = .tile && c.outputDesc.layout = .rowMajor

def shouldTypecast : Bool := c.inputDesc.dataType ≠ c.outputDesc.dataType

def shouldToDevice : Bool := c.inputDesc.isOnHost && c.outputDesc.isOnDevice

def shouldToMemoryConfig : Bool :=
  !c.shouldToDevice && c.outputDesc.isOnDevice &&
    c.inputDesc.memoryConfig ≠ c.outputDesc.memoryConfig

def shouldFromDevice : Bool := c.inputDesc.isOnDevice && c.outputDesc.isOnHost

/-- `toLayoutIfNeeded`. -/
def toLayoutIfNeeded : LayoutDesc :=
  if c.shouldTilize then { input with layout := .tile }
  else if c.shouldUntilize then { input with layout := .rowMajor }
  else input

/-- `typecastIfNeeded`: on the host or on the device, the data type is the requested one. -/
def typecastIfNeeded : LayoutDesc :=
  if !c.shouldTypecast then input else { input with dataType := c.outputDesc.dataType }

/-- `toDeviceIfNeeded`. -/
def toDeviceIfNeeded : Except String LayoutDesc :=
  if c.shouldToDevice then
    if c.targetDevice then
      .ok { input with storageType := .device, memoryConfig := c.outputDesc.memoryConfig }
    else .error "targetDevice.has_value()"
  else .ok input

/-- `toMemoryConfigIfNeeded`. -/
def toMemoryConfigIfNeeded : Except String LayoutDesc :=
  if c.shouldToMemoryConfig then
    if c.outputDesc.memoryConfig.isSome then
      .ok { input with memoryConfig := c.outputDesc.memoryConfig }
    else .error "outputDesc.memoryConfig.has_value()"
  else .ok input

/-- `fromDeviceIfNeeded`. -/
def fromDeviceIfNeeded : LayoutDesc :=
  if c.shouldFromDevice then { input with storageType := .host, memoryConfig := none }
  else input

/-- `handleHostInputNoLayoutNoTypecast`. -/
def handleHostInputNoLayoutNoTypecast : Except String LayoutDesc := do
  let out ← c.toDeviceIfNeeded input
  c.toMemoryConfigIfNeeded out

/-- `handleHostInputLayoutNoTypecast`. -/
def handleHostInputLayoutNoTypecast : Except String LayoutDesc :=
  if c.shouldUntilize && canUntilizeDataTypeOnDevice c.outputDesc.dataType then do
    let out ← c.toDeviceIfNeeded input
    c.toMemoryConfigIfNeeded (c.toLayoutIfNeeded out)
  else if c.shouldUntilize && !canUntilizeDataTypeOnDevice c.outputDesc.dataType then do
    let out ← c.toDeviceIfNeeded (c.toLayoutIfNeeded input)
    c.toMemoryConfigIfNeeded out
  else if c.shouldTilize && canTilizeDataTypeOnDevice c.outputDesc.dataType then do
    let out ← c.toDeviceIfNeeded input
    c.toMemoryConfigIfNeeded (c.toLayoutIfNeeded out)
  else if c.shouldTilize && !canTilizeDataTypeOnDevice c.outputDesc.dataType then do
    let out ← c.toDeviceIfNeeded (c.toLayoutIfNeeded input)
    c.toMemoryConfigIfNeeded out
  else .error "Unreachable code path"

/-- `handleHostInputNoLayoutTypecast`. -/
def handleHostInputNoLayoutTypecast : Except String LayoutDesc :=
  if c.outputDesc.layout = .tile then do
    let out ← c.toDeviceIfNeeded input
    c.toMemoryConfigIfNeeded (c.typecastIfNeeded out)
  else if c.outputDesc.layout ≠ .tile then do
    let out ← c.toDeviceIfNeeded (c.typecastIfNeeded input)
    c.toMemoryConfigIfNeeded out
  else .error "Unreachable code path"

/-- `handleHostInputLayoutTypecast`. -/
def handleHostInputLayoutTypecast : Except String LayoutDesc :=
  if c.shouldUntilize && canUntilizeDataTypeOnDevice c.outputDesc.dataType then do
    let out ← c.toDeviceIfNeeded input
    c.toMemoryConfigIfNeeded (c.toLayoutIfNeeded (c.typecastIfNeeded out))
  else if c.shouldUntilize && !canUntilizeDataTypeOnDevice c.outputDesc.dataType then do
    let out ← c.toDeviceIfNeeded (c.toLayoutIfNeeded (c.typecastIfNeeded input))
    c.toMemoryConfigIfNeeded out
  else if c.shouldTilize && canTilizeDataTypeOnDevice c.inputDesc.dataType then do
    let out ← c.toDeviceIfNeeded input
    c.toMemoryConfigIfNeeded (c.typecastIfNeeded (c.toLayoutIfNeeded out))
  else if c.shouldTilize && canTilizeDataTypeOnDevice c.outputDesc.dataType then do
    let out ← c.toDeviceIfNeeded (c.typecastIfNeeded input)
    c.toMemoryConfigIfNeeded (c.toLayoutIfNeeded out)
  else if c.shouldTilize && !canTilizeDataTypeOnDevice c.inputDesc.dataType &&
      !canTilizeDataTypeOnDevice c.outputDesc.dataType then do
    let out ← c.toDeviceIfNeeded (c.toLayoutIfNeeded (c.typecastIfNeeded input))
    c.toMemoryConfigIfNeeded out
  else .error "Unreachable code path"

/-- `convertHostTensorLayout`. -/
def convertHostTensorLayout : Except String LayoutDesc :=
  let shouldToLayout := c.shouldTilize || c.shouldUntilize
  if c.shouldToDevice && !c.targetDevice then .error "Target device must be provided for ToDevice"
  else if !shouldToLayout && !c.shouldTypecast then c.handleHostInputNoLayoutNoTypecast input
  else if shouldToLayout && !c.shouldTypecast then c.handleHostInputLayoutNoTypecast input
  else if !shouldToLayout && c.shouldTypecast then c.handleHostInputNoLayoutTypecast input
  else if shouldToLayout && c.shouldTypecast then c.handleHostInputLayoutTypecast input
  else .error "Unreachable code path"

/-- `handleDeviceInputNoLayoutNoTypecast`. -/
def handleDeviceInputNoLayoutNoTypecast : Except String LayoutDesc := do
  let out ← c.toMemoryConfigIfNeeded input
  return c.fromDeviceIfNeeded out

/-- `handleDeviceInputLayoutNoTypecast`. -/
def handleDeviceInputLayoutNoTypecast : Except String LayoutDesc :=
  if c.shouldUntilize && canUntilizeDataTypeOnDevice c.outputDesc.dataType then do
    let out ← c.toMemoryConfigIfNeeded (c.toLayoutIfNeeded input)
    return c.fromDeviceIfNeeded out
  else if c.shouldUntilize && !canUntilizeDataTypeOnDevice c.outputDesc.dataType &&
      c.shouldFromDevice then
    .ok (c.toLayoutIfNeeded (c.fromDeviceIfNeeded input))
  else if c.shouldUntilize && !canUntilizeDataTypeOnDevice c.outputDesc.dataType &&
      !c.shouldFromDevice then
    .error "Currently to_layout does not support device to device untilize for output data type: "
  else if c.shouldTilize && canTilizeDataTypeOnDevice c.inputDesc.dataType then do
    let out ← c.toMemoryConfigIfNeeded (c.toLayoutIfNeeded input)
    return c.fromDeviceIfNeeded out
  else if c.shouldTilize && !canTilizeDataTypeOnDevice c.inputDesc.dataType &&
      c.shouldFromDevice then
    .ok (c.toLayoutIfNeeded (c.fromDeviceIfNeeded input))
  else if c.shouldTilize && !canTilizeDataTypeOnDevice c.inputDesc.dataType &&
      !c.shouldFromDevice then
    .error "Currently to_layout does not support device to device tilize for input data type: "
  else .error "Unreachable code path"

/-- `handleDeviceInputNoLayoutTypecast`. -/
def handleDeviceInputNoLayoutTypecast : Except String LayoutDesc :=
  if c.inputDesc.isTilized then do
    let out ← c.toMemoryConfigIfNeeded (c.typecastIfNeeded input)
    return c.fromDeviceIfNeeded out
  else if !c.inputDesc.isTilized && c.shouldFromDevice then
    .ok (c.typecastIfNeeded (c.fromDeviceIfNeeded input))
  else if !c.inputDesc.isTilized && !c.shouldFromDevice then
    .error "Currently to_layout does not support device to device typecast for input layout: "
  else .error "Unreachable code path"

/-- `handleDeviceInputLayoutTypecast`. -/
def handleDeviceInputLayoutTypecast : Except String LayoutDesc :=
  if c.shouldUntilize && canUntilizeDataTypeOnDevice c.outputDesc.dataType then do
    let out ← c.toMemoryConfigIfNeeded (c.toLayoutIfNeeded (c.typecastIfNeeded input))
    return c.fromDeviceIfNeeded out
  else if c.shouldUntilize && !canUntilizeDataTypeOnDevice c.outputDesc.dataType &&
      c.shouldFromDevice then
    .ok (c.toLayoutIfNeeded (c.fromDeviceIfNeeded (c.typecastIfNeeded input)))
  else if c.shouldUntilize && !canUntilizeDataTypeOnDevice c.outputDesc.dataType &&
      !c.shouldFromDevice then
    .error "Currently to_layout does not support device to device untilize and typecast for output data type: "
  else if c.shouldTilize && canTilizeDataTypeOnDevice c.inputDesc.dataType then do
    let out ← c.toMemoryConfigIfNeeded (c.typecastIfNeeded (c.toLayoutIfNeeded input))
    return c.fromDeviceIfNeeded out
  else if c.shouldTilize && !canTilizeDataTypeOnDevice c.inputDesc.dataType &&
      c.shouldFromDevice then
    .ok (c.typecastIfNeeded (c.toLayoutIfNeeded (c.fromDeviceIfNeeded input)))
  else if c.shouldTilize && !canTilizeDataTypeOnDevice c.inputDesc.dataType &&
      !c.shouldFromDevice then
    .error "Currently to_layout does not support device to device tilize and typecast for input data type: "
  else .error "Unreachable code path"

/-- `convertDeviceTensorLayout`. -/
def convertDeviceTensorLayout : Except String LayoutDesc :=
  let shouldToLayout := c.shouldTilize || c.shouldUntilize
  if !shouldToLayout && !c.shouldTypecast then c.handleDeviceInputNoLayoutNoTypecast input
  else if shouldToLayout && !c.shouldTypecast then c.handleDeviceInputLayoutNoTypecast input
  else if !shouldToLayout && c.shouldTypecast then c.handleDeviceInputNoLayoutTypecast input
  else if shouldToLayout && c.shouldTypecast then c.handleDeviceInputLayoutTypecast input
  else .error "Unreachable code path"

/-- `convertTensorLayout`, of a tensor that has the input descriptor. -/
def convertTensorLayout : Except String LayoutDesc :=
  if c.inputDesc.isOnHost then c.convertHostTensorLayout c.inputDesc
  else c.convertDeviceTensorLayout c.inputDesc

end Converter

/-! ### Where the converter ends -/

/-- What is settled while the converter runs: the page layout, the data type and the memory
are those of the output once they are settled, and those of the input before. -/
structure Settled (c : LayoutConverter) (layout dataType memory : Bool) (d : LayoutDesc) :
    Prop where
  layout_eq : d.layout = (if layout then c.outputDesc else c.inputDesc).layout
  dataType_eq : d.dataType = (if dataType then c.outputDesc else c.inputDesc).dataType
  storageType_eq : d.storageType = (if memory then c.outputDesc else c.inputDesc).storageType
  memoryConfig_eq : d.memoryConfig = (if memory then c.outputDesc else c.inputDesc).memoryConfig

section Settle

variable {c : LayoutConverter} {layout dataType memory : Bool} {d out : LayoutDesc}

theorem settled_inputDesc (c : LayoutConverter) : c.Settled false false false c.inputDesc :=
  ⟨rfl, rfl, rfl, rfl⟩

theorem Settled.eq_outputDesc (h : c.Settled true true true d) : d = c.outputDesc := by
  obtain ⟨hl, ht, hs, hm⟩ := h
  cases d
  simp_all

theorem Settled.sameLayout (h : c.Settled layout dataType memory d)
    (hskip : (c.shouldTilize || c.shouldUntilize) = false) : c.Settled true dataType memory d := by
  refine ⟨?_, h.dataType_eq, h.storageType_eq, h.memoryConfig_eq⟩
  have hl := h.layout_eq
  unfold shouldTilize shouldUntilize at hskip
  cases layout
  · cases hi : c.inputDesc.layout <;> cases ho : c.outputDesc.layout <;> simp_all
  · exact hl

theorem Settled.sameDataType (h : c.Settled layout dataType memory d)
    (hskip : c.shouldTypecast = false) : c.Settled layout true memory d := by
  refine ⟨h.layout_eq, ?_, h.storageType_eq, h.memoryConfig_eq⟩
  have ht := h.dataType_eq
  have heq : c.inputDesc.dataType = c.outputDesc.dataType := by
    simpa [shouldTypecast] using hskip
  cases dataType
  · exact ht.trans heq
  · exact ht

/-- `toLayoutIfNeeded` settles the page layout. -/
theorem Settled.toLayoutIfNeeded (h : c.Settled false dataType memory d) :
    c.Settled true dataType memory (c.toLayoutIfNeeded d) := by
  unfold LayoutConverter.toLayoutIfNeeded
  split_ifs with htilize huntilize
  · refine ⟨?_, h.dataType_eq, h.storageType_eq, h.memoryConfig_eq⟩
    have ho : c.outputDesc.layout = .tile := by
      simp only [shouldTilize, Bool.and_eq_true, decide_eq_true_eq] at htilize
      exact htilize.2
    exact ho.symm
  · refine ⟨?_, h.dataType_eq, h.storageType_eq, h.memoryConfig_eq⟩
    have ho : c.outputDesc.layout = .rowMajor := by
      simp only [shouldUntilize, Bool.and_eq_true, decide_eq_true_eq] at huntilize
      exact huntilize.2
    exact ho.symm
  · exact h.sameLayout (by simp [htilize, huntilize])

/-- `typecastIfNeeded` settles the data type. -/
theorem Settled.typecastIfNeeded (h : c.Settled layout false memory d) :
    c.Settled layout true memory (c.typecastIfNeeded d) := by
  unfold LayoutConverter.typecastIfNeeded
  split_ifs with hcast
  · exact h.sameDataType (by simpa using hcast)
  · exact ⟨h.layout_eq, rfl, h.storageType_eq, h.memoryConfig_eq⟩

theorem memory_eq_of_host {i o : LayoutDesc} (hi : i.WellFormed) (ho : o.WellFormed)
    (hih : i.isOnHost = true) (hoh : o.isOnHost = true) :
    i.storageType = o.storageType ∧ i.memoryConfig = o.memoryConfig := by
  simp_all [LayoutDesc.WellFormed, LayoutDesc.isOnHost, LayoutDesc.isOnDevice]

theorem Settled.sameMemory (h : c.Settled layout dataType false d)
    (hskip : c.inputDesc.storageType = c.outputDesc.storageType ∧
      c.inputDesc.memoryConfig = c.outputDesc.memoryConfig) :
    c.Settled layout dataType true d :=
  ⟨h.layout_eq, h.dataType_eq, h.storageType_eq.trans hskip.1, h.memoryConfig_eq.trans hskip.2⟩

/-- `toDeviceIfNeeded` settles the memory of a host tensor. -/
theorem Settled.toDeviceIfNeeded (h : c.Settled layout dataType false d)
    (hin : c.inputDesc.WellFormed) (hout : c.outputDesc.WellFormed)
    (hhost : c.inputDesc.isOnHost = true) (hd : c.toDeviceIfNeeded d = .ok out) :
    c.Settled layout dataType true out := by
  unfold LayoutConverter.toDeviceIfNeeded at hd
  split_ifs at hd with hneeded
  · cases hd
    refine ⟨h.layout_eq, h.dataType_eq, ?_, rfl⟩
    simp only [shouldToDevice, LayoutDesc.isOnDevice, LayoutDesc.isOnHost, Bool.and_eq_true,
      Bool.not_eq_true', decide_eq_false_iff_not] at hneeded
    cases hs : c.outputDesc.storageType with
    | host => exact absurd hs hneeded.2
    | device => exact hs.symm
  · cases hd
    refine h.sameMemory (memory_eq_of_host hin hout hhost ?_)
    simpa [shouldToDevice, LayoutDesc.isOnDevice, hhost] using hneeded

/-- On a tensor that came from the host, `toMemoryConfigIfNeeded` has nothing to do. -/
theorem Settled.toMemoryConfigIfNeeded (h : c.Settled layout dataType true d)
    (hhost : c.inputDesc.isOnHost = true) (hd : c.toMemoryConfigIfNeeded d = .ok out) :
    c.Settled layout dataType true out := by
  unfold LayoutConverter.toMemoryConfigIfNeeded at hd
  split_ifs at hd with hneeded
  · simp [shouldToMemoryConfig, shouldToDevice, hhost] at hneeded
  · cases hd
    exact h

/-- `fromDeviceIfNeeded` settles the memory when the output is on the host. -/
theorem Settled.fromDeviceIfNeeded (h : c.Settled layout dataType false d)
    (hout : c.outputDesc.WellFormed) (hneeded : c.shouldFromDevice = true) :
    c.Settled layout dataType true (c.fromDeviceIfNeeded d) := by
  unfold LayoutConverter.fromDeviceIfNeeded
  rw [if_pos hneeded]
  have hhost : c.outputDesc.isOnHost = true := by
    simp only [shouldFromDevice, Bool.and_eq_true] at hneeded
    exact hneeded.2
  simp only [LayoutDesc.WellFormed, LayoutDesc.isOnDevice, hhost] at hout
  refine ⟨h.layout_eq, h.dataType_eq, ?_, ?_⟩
  · exact (of_decide_eq_true hhost).symm
  · exact (Option.not_isSome_iff_eq_none.mp (by simp [← hout])).symm

/-- `toMemoryConfigIfNeeded` and `fromDeviceIfNeeded` settle the memory of a device tensor. -/
theorem Settled.fromDevice_toMemoryConfig (h : c.Settled layout dataType false d)
    (hout : c.outputDesc.WellFormed) (hdevice : c.inputDesc.isOnHost = false)
    (hd : c.toMemoryConfigIfNeeded d = .ok out) :
    c.Settled layout dataType true (c.fromDeviceIfNeeded out) := by
  by_cases hhost : c.outputDesc.isOnHost = true
  · have hskip : c.toMemoryConfigIfNeeded d = .ok d := by
      simp [LayoutConverter.toMemoryConfigIfNeeded, shouldToMemoryConfig, LayoutDesc.isOnDevice,
        hhost]
    rw [hskip] at hd
    cases hd
    exact h.fromDeviceIfNeeded hout
      (by simp [shouldFromDevice, LayoutDesc.isOnDevice, hdevice, hhost])
  · have hskip : c.fromDeviceIfNeeded out = out := by
      simp [LayoutConverter.fromDeviceIfNeeded, shouldFromDevice, hhost]
    have hstorage : c.inputDesc.storageType = c.outputDesc.storageType := by
      simp only [LayoutDesc.isOnHost, decide_eq_false_iff_not, decide_eq_true_eq] at hdevice hhost
      cases hi : c.inputDesc.storageType <;> cases ho : c.outputDesc.storageType <;> simp_all
    rw [hskip]
    unfold LayoutConverter.toMemoryConfigIfNeeded at hd
    split_ifs at hd with hneeded
    · cases hd
      exact ⟨h.layout_eq, h.dataType_eq, h.storageType_eq.trans hstorage, rfl⟩
    · cases hd
      refine h.sameMemory ⟨hstorage, ?_⟩
      simpa [shouldToMemoryConfig, shouldToDevice, LayoutDesc.isOnDevice, hdevice, hhost]
        using hneeded

end Settle

variable {c : LayoutConverter}

/-- **The converter on host tensors.** -/
theorem convertHostTensorLayout_settled (hin : c.inputDesc.WellFormed)
    (hout : c.outputDesc.WellFormed) (hhost : c.inputDesc.isOnHost = true) {d : LayoutDesc}
    (h : c.convertHostTensorLayout c.inputDesc = .ok d) : c.Settled true true true d := by
  have hstart := c.settled_inputDesc
  unfold convertHostTensorLayout at h
  simp only at h
  split_ifs at h with hdevice hnone hlayout hcast hboth
  · -- neither a layout conversion nor a cast
    obtain ⟨out, hto, h⟩ := except_bind_eq_ok.mp h
    simp only [Bool.and_eq_true, Bool.not_eq_true'] at hnone
    exact ((((hstart.sameLayout hnone.1).sameDataType hnone.2).toDeviceIfNeeded hin hout hhost
      hto).toMemoryConfigIfNeeded hhost h)
  · -- only a layout conversion
    simp only [Bool.and_eq_true, Bool.not_eq_true'] at hlayout
    have hstart := hstart.sameDataType hlayout.2
    unfold handleHostInputLayoutNoTypecast at h
    split_ifs at h
    all_goals obtain ⟨out, hto, h⟩ := except_bind_eq_ok.mp h
    · exact ((hstart.toDeviceIfNeeded hin hout hhost hto).toLayoutIfNeeded).toMemoryConfigIfNeeded
        hhost h
    · exact (hstart.toLayoutIfNeeded.toDeviceIfNeeded hin hout hhost hto).toMemoryConfigIfNeeded
        hhost h
    · exact ((hstart.toDeviceIfNeeded hin hout hhost hto).toLayoutIfNeeded).toMemoryConfigIfNeeded
        hhost h
    · exact (hstart.toLayoutIfNeeded.toDeviceIfNeeded hin hout hhost hto).toMemoryConfigIfNeeded
        hhost h
  · -- only a cast
    simp only [Bool.and_eq_true, Bool.not_eq_true'] at hcast
    have hstart := hstart.sameLayout hcast.1
    unfold handleHostInputNoLayoutTypecast at h
    split_ifs at h
    all_goals obtain ⟨out, hto, h⟩ := except_bind_eq_ok.mp h
    · exact ((hstart.toDeviceIfNeeded hin hout hhost hto).typecastIfNeeded).toMemoryConfigIfNeeded
        hhost h
    · exact (hstart.typecastIfNeeded.toDeviceIfNeeded hin hout hhost hto).toMemoryConfigIfNeeded
        hhost h
  · -- both
    unfold handleHostInputLayoutTypecast at h
    split_ifs at h
    all_goals obtain ⟨out, hto, h⟩ := except_bind_eq_ok.mp h
    · exact ((hstart.toDeviceIfNeeded hin hout hhost
        hto).typecastIfNeeded.toLayoutIfNeeded).toMemoryConfigIfNeeded hhost h
    · exact (hstart.typecastIfNeeded.toLayoutIfNeeded.toDeviceIfNeeded hin hout hhost
        hto).toMemoryConfigIfNeeded hhost h
    · exact ((hstart.toDeviceIfNeeded hin hout hhost
        hto).toLayoutIfNeeded.typecastIfNeeded).toMemoryConfigIfNeeded hhost h
    · exact ((hstart.typecastIfNeeded.toDeviceIfNeeded hin hout hhost
        hto).toLayoutIfNeeded).toMemoryConfigIfNeeded hhost h
    · exact (hstart.typecastIfNeeded.toLayoutIfNeeded.toDeviceIfNeeded hin hout hhost
        hto).toMemoryConfigIfNeeded hhost h

/-- **The converter on device tensors.** -/
theorem convertDeviceTensorLayout_settled
    (hout : c.outputDesc.WellFormed) (hdevice : c.inputDesc.isOnHost = false) {d : LayoutDesc}
    (h : c.convertDeviceTensorLayout c.inputDesc = .ok d) : c.Settled true true true d := by
  have hstart := c.settled_inputDesc
  unfold convertDeviceTensorLayout at h
  simp only at h
  split_ifs at h with hnone hlayout hcast hboth
  · -- neither a layout conversion nor a cast
    obtain ⟨out, hmem, h⟩ := except_bind_eq_ok.mp h
    cases h
    simp only [Bool.and_eq_true, Bool.not_eq_true'] at hnone
    exact ((hstart.sameLayout hnone.1).sameDataType hnone.2).fromDevice_toMemoryConfig hout hdevice hmem
  · -- only a layout conversion
    simp only [Bool.and_eq_true, Bool.not_eq_true'] at hlayout
    have hstart := hstart.sameDataType hlayout.2
    unfold handleDeviceInputLayoutNoTypecast at h
    split_ifs at h with hu hu' hu'' ht ht'
    · obtain ⟨out, hmem, h⟩ := except_bind_eq_ok.mp h
      cases h
      exact hstart.toLayoutIfNeeded.fromDevice_toMemoryConfig hout hdevice hmem
    · cases h
      simp only [Bool.and_eq_true] at hu'
      exact (hstart.fromDeviceIfNeeded hout hu'.2).toLayoutIfNeeded
    · obtain ⟨out, hmem, h⟩ := except_bind_eq_ok.mp h
      cases h
      exact hstart.toLayoutIfNeeded.fromDevice_toMemoryConfig hout hdevice hmem
    · cases h
      simp only [Bool.and_eq_true] at ht'
      exact (hstart.fromDeviceIfNeeded hout ht'.2).toLayoutIfNeeded
  · -- only a cast
    simp only [Bool.and_eq_true, Bool.not_eq_true'] at hcast
    have hstart := hstart.sameLayout hcast.1
    unfold handleDeviceInputNoLayoutTypecast at h
    split_ifs at h with ht ht'
    · obtain ⟨out, hmem, h⟩ := except_bind_eq_ok.mp h
      cases h
      exact hstart.typecastIfNeeded.fromDevice_toMemoryConfig hout hdevice hmem
    · cases h
      simp only [Bool.and_eq_true] at ht'
      exact (hstart.fromDeviceIfNeeded hout ht'.2).typecastIfNeeded
  · -- both
    unfold handleDeviceInputLayoutTypecast at h
    split_ifs at h with hu hu' hu'' ht ht'
    · obtain ⟨out, hmem, h⟩ := except_bind_eq_ok.mp h
      cases h
      exact hstart.typecastIfNeeded.toLayoutIfNeeded.fromDevice_toMemoryConfig hout hdevice hmem
    · cases h
      simp only [Bool.and_eq_true] at hu'
      exact (hstart.typecastIfNeeded.fromDeviceIfNeeded hout hu'.2).toLayoutIfNeeded
    · obtain ⟨out, hmem, h⟩ := except_bind_eq_ok.mp h
      cases h
      exact hstart.toLayoutIfNeeded.typecastIfNeeded.fromDevice_toMemoryConfig hout hdevice hmem
    · cases h
      simp only [Bool.and_eq_true] at ht'
      exact ((hstart.fromDeviceIfNeeded hout ht'.2).toLayoutIfNeeded).typecastIfNeeded

/-- **The converter ends in the requested descriptor**, where it does not refuse. -/
theorem convertTensorLayout_eq (hin : c.inputDesc.WellFormed)
    (hout : c.outputDesc.WellFormed) {d : LayoutDesc} (h : c.convertTensorLayout = .ok d) :
    d = c.outputDesc := by
  unfold convertTensorLayout at h
  split_ifs at h with hhost
  · exact (convertHostTensorLayout_settled hin hout hhost h).eq_outputDesc
  · exact (convertDeviceTensorLayout_settled hout (by simpa using hhost) h).eq_outputDesc

end LayoutConverter

end DecomposeLayouts

end TTNN
