/-
# Operand workarounds

`TTNNOperandsWorkaroundsRewriter` converts the operands and results of an operation to the
layouts, memories and data types that its table of workarounds asks for: a `to_layout` before
the operation for each operand, and one after it, back to the type that the result had.

* `applyWorkarounds`, `resultTypeFor` : what a table asks of a type, and the converted type;
* `workaroundInputOperand`, `workaroundOutputOperand`, `matchAndRewrite` : the rewrite;
* `Workable` : the operations for which the rewrite does what it is for;
* `resultTypeFor_eq_ok_iff`, `regular_iff` : when a type is converted, and converted back;
* `step_between` : one application, `Run.between` : all of them;
* `keepsOtherUsers_iff` : runs keep other users of a value as they are, satisfy the tables, report
  what they change and are stable exactly when every operation is workable.
-/
import TTMLIR.DecomposeLayouts
import TTMLIR.SSA

open CollapsedLinear SSA TTNN

namespace OperandWorkarounds

/-! ## Workarounds -/

/-- `TTNNOperandWorkarounds`. -/
structure TTNNOperandWorkarounds : Type where
  tensorLayoutWorkaround : Option Layout
  tensorBufferTypeWorkaround : Option BufferType
  tensorMemoryLayoutWorkaround : Option TensorMemoryLayout
  tensorDataTypeWorkaround : Option DataType
  deriving DecidableEq, Repr

def TTNNOperandWorkarounds.hasAnyWorkaround (w : TTNNOperandWorkarounds) : Bool :=
  w.tensorLayoutWorkaround.isSome || w.tensorBufferTypeWorkaround.isSome ||
    w.tensorMemoryLayoutWorkaround.isSome || w.tensorDataTypeWorkaround.isSome

/-- `TTNNOperandsWorkarounds`: one entry for each operand and each result that is a tensor. -/
structure TTNNOperandsWorkarounds : Type where
  inputOperandWorkarounds : List TTNNOperandWorkarounds
  outputOperandWorkarounds : List TTNNOperandWorkarounds
  deriving DecidableEq, Repr

/-- `WorkaroundResult`. -/
structure WorkaroundResult (α : Type) : Type where
  previousValue : α
  targetValue : α

def WorkaroundResult.isModified {α : Type} [DecidableEq α] (r : WorkaroundResult α) : Bool :=
  r.previousValue ≠ r.targetValue

/-- `WorkaroundResults`. -/
structure WorkaroundResults : Type where
  tensorLayoutResult : WorkaroundResult Layout
  tensorBufferTypeResult : WorkaroundResult BufferType
  tensorMemoryLayoutResult : WorkaroundResult (Option TensorMemoryLayout)
  tensorDataTypeResult : WorkaroundResult DataType

def WorkaroundResults.isModified (r : WorkaroundResults) : Bool :=
  r.tensorLayoutResult.isModified || r.tensorBufferTypeResult.isModified ||
    r.tensorMemoryLayoutResult.isModified || r.tensorDataTypeResult.isModified

/-- `applyWorkarounds`; a target in system memory has no memory layout. -/
def applyWorkarounds (w : TTNNOperandWorkarounds) (L : TTNNLayoutAttr) : WorkaroundResults :=
  let targetBufferType := w.tensorBufferTypeWorkaround.getD L.getBufferType
  let targetMemoryLayout :=
    if w.tensorMemoryLayoutWorkaround.isSome then w.tensorMemoryLayoutWorkaround
    else L.memLayout
  { tensorLayoutResult :=
      ⟨L.getElementType.layout, w.tensorLayoutWorkaround.getD L.getElementType.layout⟩
    tensorBufferTypeResult := ⟨L.getBufferType, targetBufferType⟩
    tensorMemoryLayoutResult :=
      ⟨L.memLayout, if targetBufferType = .systemMemory then none else targetMemoryLayout⟩
    tensorDataTypeResult :=
      ⟨L.getElementType.dataType, w.tensorDataTypeWorkaround.getD L.getElementType.dataType⟩ }

/-! ## Converted types -/

/-- A ranked tensor with its layout; the element type is a scalar. -/
structure RankedTensorType : Type where
  shape : List ℕ
  elementType : DataType
  encoding : TTNNLayoutAttr
  deriving DecidableEq

/-- `TTNNLayoutAttr::withMemoryLayout` of an attribute, which may be null. -/
def withMemoryLayoutAttr (L : TTNNLayoutAttr) (memLayout : Option TensorMemoryLayout) :
    Except String TTNNLayoutAttr := do
  let memref ← buildMemRef (← L.getScalarShardShape) L.getElementType L.getBufferType
  TTNNLayoutAttr.build L.linear L.grid memref memLayout

/-- The type of a value in a layout, a memory and a data type, as `createToLayoutOp` and
`workaroundOutputOperand` build it: the encoding by three derivations, and the element type by
`createRankedTensorTypeWithElementType`, whose own encoding is dropped. -/
def resultTypeFor (T : RankedTensorType) (layout : Layout) (bufferType : BufferType)
    (memLayout : Option TensorMemoryLayout) (dataType : DataType) :
    Except String RankedTensorType := do
  let converted ← T.encoding.withElementType (getElementType layout dataType) T.shape [(0, -1)]
  let moved ← converted.withBufferType bufferType
  let encoding ← withMemoryLayoutAttr moved memLayout
  let _ ← T.encoding.withElementType (.scalar (dataTypeToElementType dataType)) T.shape [(0, -1)]
  .ok ⟨T.shape, dataTypeToElementType dataType, encoding⟩

namespace WorkaroundResults

/-- The type that the workarounds ask for. -/
def targetType (r : WorkaroundResults) (T : RankedTensorType) : Except String RankedTensorType :=
  resultTypeFor T r.tensorLayoutResult.targetValue r.tensorBufferTypeResult.targetValue
    r.tensorMemoryLayoutResult.targetValue r.tensorDataTypeResult.targetValue

/-- The type that `revertOutputLayout` converts to. -/
def previousType (r : WorkaroundResults) (T : RankedTensorType) :
    Except String RankedTensorType :=
  resultTypeFor T r.tensorLayoutResult.previousValue r.tensorBufferTypeResult.previousValue
    r.tensorMemoryLayoutResult.previousValue r.tensorDataTypeResult.previousValue

end WorkaroundResults

/-! ## Functions -/

/-- The operations the pattern tells apart; a `to_layout` may name the device. -/
inductive OpKind : Type where
  | toLayout (device : Bool)
  | other (name : String)
  deriving DecidableEq, Repr

/-- An operation, with the attributes of it that repeat the layout of its result. -/
structure Op : Type where
  id : ℕ
  kind : OpKind
  operands : List Value
  numResults : ℕ
  layout : Option Layout
  dtype : Option DataType
  memoryConfig : Option DecomposeLayouts.MemoryConfigAttr
  deriving DecidableEq

def Op.isToLayout (op : Op) : Bool :=
  match op.kind with
  | .toLayout _ => true
  | .other _ => false

/-- A function of one block, with the types of its tensors, and whether the block has an
operation that gets the device. -/
structure FuncOp : Type where
  ops : List Op
  returns : List Value
  types : Value → Option RankedTensorType
  hasDevice : Bool

/-- An identity that no operation has. -/
def freshId (ops : List Op) : ℕ := ops.foldr (fun op n => max n (op.id + 1)) 0

namespace FuncOp

/-- The operands that are tensors, by position. -/
def tensorOperands (f : FuncOp) (op : Op) : List ℕ :=
  (List.range op.operands.length).filter fun i =>
    (op.operands[i]?.bind f.types).isSome

/-- The results that are tensors, by position. -/
def tensorResults (f : FuncOp) (op : Op) : List ℕ :=
  (List.range op.numResults).filter fun k => (f.types (.opResult op.id k)).isSome

/-- The operand of an operation. -/
def operand (f : FuncOp) (id i : ℕ) : Option Value :=
  (f.ops.find? fun op => op.id = id).bind fun op => op.operands[i]?

/-- The memory config of an operation. -/
def memoryConfig (f : FuncOp) (id : ℕ) : Option DecomposeLayouts.MemoryConfigAttr :=
  (f.ops.find? fun op => op.id = id).bind Op.memoryConfig

end FuncOp

/-! ## The rewrite -/

/-- `createToLayoutOp`: the operation, and its device where it is needed. -/
def createToLayoutOp (fresh : ℕ) (v : Value) (layout : Layout) (bufferType : BufferType)
    (memLayout : Option TensorMemoryLayout) (dataType : DataType) (T : RankedTensorType) : Op where
  id := fresh
  kind := .toLayout (bufferType ≠ .systemMemory)
  operands := [v]
  numResults := 1
  layout := some layout
  dtype := some dataType
  memoryConfig := some ⟨bufferType, T.encoding.memref.shape, memLayout⟩

/-- An operand is converted to a type, by a `to_layout` before its operation. -/
def FuncOp.convertOperand (f : FuncOp) (id i : ℕ) (inputValue : Value) (r : WorkaroundResults)
    (T' : RankedTensorType) : FuncOp :=
  let fresh := freshId f.ops
  let toLayoutOp := createToLayoutOp fresh inputValue r.tensorLayoutResult.targetValue
    r.tensorBufferTypeResult.targetValue r.tensorMemoryLayoutResult.targetValue
    r.tensorDataTypeResult.targetValue T'
  { ops := f.ops.flatMap fun op =>
      if op.id = id then
        [toLayoutOp, { op with operands := op.operands.set i (.opResult fresh 0) }]
      else [op]
    returns := f.returns
    types := Function.update f.types (.opResult fresh 0) (some T')
    hasDevice := f.hasDevice || r.tensorBufferTypeResult.targetValue ≠ .systemMemory }

/-- `workaroundInputOperand` for the operand at a position: the function, and whether it has
changed. -/
def workaroundInputOperand (f : FuncOp) (id i : ℕ) (w : TTNNOperandWorkarounds) :
    Except String (FuncOp × Bool) :=
  match f.operand id i with
  | none => .error "getOperand"
  | some inputValue =>
    match f.types inputValue with
    | none => .error "cast<TypedValue<RankedTensorType>>"
    | some T =>
      let r := applyWorkarounds w T.encoding
      if r.isModified then do
        let T' ← r.targetType T
        .ok (f.convertOperand id i inputValue r T', true)
      else .ok (f, false)

/-- `MemoryConfigAttr::get`: it asserts that the memory layout fits the memory. -/
def MemoryConfigAttr.get (bufferType : BufferType) (shardShape : List ℕ)
    (memLayout : Option TensorMemoryLayout) : Except String DecomposeLayouts.MemoryConfigAttr :=
  match verifyBufferAndMemoryLayout bufferType memLayout with
  | .ok () => .ok ⟨bufferType, shardShape, memLayout⟩
  | .error e => .error e

/-- The `memory_config` attribute of an operation whose result was changed: first its buffer
type, then its memory layout, which has to be there. -/
def updateMemoryConfig (r : WorkaroundResults) :
    Option DecomposeLayouts.MemoryConfigAttr →
      Except String (Option DecomposeLayouts.MemoryConfigAttr)
  | none => .ok none
  | some config => do
      let config ←
        if r.tensorBufferTypeResult.isModified then
          MemoryConfigAttr.get r.tensorBufferTypeResult.targetValue config.shardShape
            config.tensorMemoryLayout
        else .ok config
      if r.tensorMemoryLayoutResult.isModified then
        match r.tensorMemoryLayoutResult.targetValue with
        | none => .error "tensorMemoryLayoutResult.targetValue.value()"
        | some memLayout => do
            let config ← MemoryConfigAttr.get config.bufferType config.shardShape (some memLayout)
            .ok (some config)
      else .ok (some config)

/-- The attributes of an operation whose result was changed. -/
def Op.setAttrs (r : WorkaroundResults) (memoryConfig : Option DecomposeLayouts.MemoryConfigAttr)
    (op : Op) : Op :=
  { op with
    layout := if r.tensorLayoutResult.isModified then
        op.layout.map fun _ => r.tensorLayoutResult.targetValue
      else op.layout
    dtype := if r.tensorDataTypeResult.isModified then
        op.dtype.map fun _ => r.tensorDataTypeResult.targetValue
      else op.dtype
    memoryConfig := memoryConfig }

/-- Uses of a value become uses of another one. -/
def replaceUses (v v' : Value) (w : Value) : Value := if w = v then v' else w

/-- A result gets a type, and `revertOutputLayout` converts it to another one for its users. -/
def FuncOp.convertResult (f : FuncOp) (id k : ℕ) (r : WorkaroundResults)
    (memoryConfig : Option DecomposeLayouts.MemoryConfigAttr) (T' T'' : RankedTensorType) :
    FuncOp :=
  let fresh := freshId f.ops
  let castLayoutOp := createToLayoutOp fresh (.opResult id k) r.tensorLayoutResult.previousValue
    r.tensorBufferTypeResult.previousValue r.tensorMemoryLayoutResult.previousValue
    r.tensorDataTypeResult.previousValue T''
  let replace := replaceUses (.opResult id k) (.opResult fresh 0)
  { ops := f.ops.flatMap fun op =>
      let op' := { op with operands := op.operands.map replace }
      if op.id = id then [op'.setAttrs r memoryConfig, castLayoutOp] else [op']
    returns := f.returns.map replace
    types := Function.update (Function.update f.types (.opResult id k) (some T'))
      (.opResult fresh 0) (some T'')
    hasDevice := f.hasDevice || r.tensorBufferTypeResult.previousValue ≠ .systemMemory }

/-- `workaroundOutputOperand` for a result. -/
def workaroundOutputOperand (f : FuncOp) (id k : ℕ) (w : TTNNOperandWorkarounds) :
    Except String (FuncOp × Bool) :=
  match f.types (.opResult id k) with
  | none => .error "cast<TypedValue<RankedTensorType>>"
  | some T =>
    let r := applyWorkarounds w T.encoding
    if r.isModified then do
      let T' ← r.targetType T
      let memoryConfig ← updateMemoryConfig r (f.memoryConfig id)
      let T'' ← r.previousType T'
      .ok (f.convertResult id k r memoryConfig T' T'', true)
    else .ok (f, false)

/-- The body of the loop over the operands. -/
def inputTurn (f : FuncOp) (id : ℕ) (p : ℕ × TTNNOperandWorkarounds) :
    Except String (FuncOp × Bool) :=
  if p.2.hasAnyWorkaround then workaroundInputOperand f id p.1 p.2 else .ok (f, false)

/-- The loop over the operands: the flag is the one of the last operand. -/
def workaroundInputs (f : FuncOp) (id : ℕ) (modified : Bool) :
    List (ℕ × TTNNOperandWorkarounds) → Except String (FuncOp × Bool)
  | [] => .ok (f, modified)
  | p :: ps => do
      let s ← inputTurn f id p
      workaroundInputs s.1 id s.2 ps

/-- The body of the loop over the results. -/
def outputTurn (f : FuncOp) (id : ℕ) (p : ℕ × TTNNOperandWorkarounds) :
    Except String (FuncOp × Bool) :=
  if p.2.hasAnyWorkaround then workaroundOutputOperand f id p.1 p.2 else .ok (f, false)

/-- The loop over the results: the flag is kept. -/
def workaroundOutputs (f : FuncOp) (id : ℕ) (modified : Bool) :
    List (ℕ × TTNNOperandWorkarounds) → Except String (FuncOp × Bool)
  | [] => .ok (f, modified)
  | p :: ps => do
      let s ← outputTurn f id p
      workaroundOutputs s.1 id (modified || s.2) ps

/-- `TTNNOperandsWorkaroundsRewriter::matchAndRewrite`: the function, and whether the pattern
reports success. -/
def matchAndRewrite (table : ℕ → TTNNOperandsWorkarounds) (f : FuncOp) (op : Op) :
    Except String (FuncOp × Bool) :=
  if op.isToLayout then .ok (f, false)
  else
    let workarounds := table op.id
    let inputs := f.tensorOperands op
    let outputs := f.tensorResults op
    if inputs.length ≠ workarounds.inputOperandWorkarounds.length then
      .error "Iteratees do not have equal length"
    else do
      let s ← workaroundInputs f op.id false (inputs.zip workarounds.inputOperandWorkarounds)
      if outputs.length ≠ workarounds.outputOperandWorkarounds.length then
        .error "Iteratees do not have equal length"
      else workaroundOutputs s.1 op.id s.2 (outputs.zip workarounds.outputOperandWorkarounds)

/-- **Runs of the greedy driver**, with the operations that were visited.  A pattern that
reports no success may still have changed the function. -/
inductive Run (table : ℕ → TTNNOperandsWorkarounds) (f : FuncOp) : List ℕ → FuncOp → Prop where
  | start : Run table f [] f
  | step {ids : List ℕ} {g g' : FuncOp} {op : Op} {modified : Bool} (run : Run table f ids g)
      (mem : op ∈ g.ops) (result : matchAndRewrite table g op = .ok (g', modified)) :
      Run table f (ids ++ [op.id]) g'

/-! ## What the rewrite is for -/

/-- **A type that satisfies the workarounds**; in system memory there is no memory layout to
ask for. -/
structure Satisfies (w : TTNNOperandWorkarounds) (L : TTNNLayoutAttr) : Prop where
  layout : ∀ l, w.tensorLayoutWorkaround = some l → L.getElementType.layout = l
  bufferType : ∀ b, w.tensorBufferTypeWorkaround = some b → L.getBufferType = b
  memoryLayout : ∀ m, w.tensorMemoryLayoutWorkaround = some m →
    L.getBufferType = .systemMemory ∨ L.memLayout = some m
  dataType : ∀ d, w.tensorDataTypeWorkaround = some d → L.getElementType.dataType = d

namespace FuncOp

/-- The operands of an operation with their workarounds. -/
def inputPairs (f : FuncOp) (table : ℕ → TTNNOperandsWorkarounds) (op : Op) :
    List (ℕ × TTNNOperandWorkarounds) :=
  (f.tensorOperands op).zip (table op.id).inputOperandWorkarounds

/-- The results of an operation with their workarounds. -/
def outputPairs (f : FuncOp) (table : ℕ → TTNNOperandsWorkarounds) (op : Op) :
    List (ℕ × TTNNOperandWorkarounds) :=
  (f.tensorResults op).zip (table op.id).outputOperandWorkarounds

/-- An operand that satisfies its workarounds. -/
def InputSatisfied (f : FuncOp) (op : Op) (p : ℕ × TTNNOperandWorkarounds) : Prop :=
  ∀ v T, op.operands[p.1]? = some v → f.types v = some T → Satisfies p.2 T.encoding

/-- A result that satisfies its workarounds. -/
def OutputSatisfied (f : FuncOp) (op : Op) (p : ℕ × TTNNOperandWorkarounds) : Prop :=
  ∀ T, f.types (.opResult op.id p.1) = some T → Satisfies p.2 T.encoding

/-- An operation whose operands and results satisfy their workarounds. -/
structure Satisfied (f : FuncOp) (table : ℕ → TTNNOperandsWorkarounds) (op : Op) : Prop where
  inputs : ∀ p ∈ f.inputPairs table op, f.InputSatisfied op p
  outputs : ∀ p ∈ f.outputPairs table op, f.OutputSatisfied op p

/-- A value that is an argument or a result of an operation. -/
def Defines (f : FuncOp) : Value → Prop
  | .blockArg _ => True
  | .opResult id _ => id ∈ f.ops.map Op.id

/-- A value that an operation or the return reads. -/
def Used (f : FuncOp) (v : Value) : Prop := (∃ op ∈ f.ops, v ∈ op.operands) ∨ v ∈ f.returns

/-- Functions in SSA form. -/
structure SSAForm (f : FuncOp) : Prop where
  nodup : (f.ops.map Op.id).Nodup
  defined : ∀ op ∈ f.ops, ∀ v ∈ op.operands, f.Defines v
  acyclic : ∀ op ∈ f.ops, ∀ k, .opResult op.id k ∉ op.operands
  returns_defined : ∀ v ∈ f.returns, f.Defines v

/-- **Well-formed functions**: in SSA form, with a table that has an entry for each tensor. -/
structure WellFormed (f : FuncOp) (table : ℕ → TTNNOperandsWorkarounds) : Prop where
  ssa : f.SSAForm
  inputs : ∀ op ∈ f.ops, op.isToLayout = false →
    (f.tensorOperands op).length = (table op.id).inputOperandWorkarounds.length
  outputs : ∀ op ∈ f.ops, op.isToLayout = false →
    (f.tensorResults op).length = (table op.id).outputOperandWorkarounds.length

end FuncOp

/-- **What is kept by a run.**  Operations that were visited satisfy their tables and are not
changed again; the others and the return read values of the types they read before; and an
application of the pattern never fails, and reports success where it changes the function. -/
structure Keeps (table : ℕ → TTNNOperandsWorkarounds) (f : FuncOp) (ids : List ℕ) (g : FuncOp) :
    Prop where
  wellFormed : g.WellFormed table
  satisfied : ∀ op ∈ g.ops, op.isToLayout = false → op.id ∈ ids → g.Satisfied table op
  users : ∀ op ∈ f.ops, op.id ∉ ids → ∃ op' ∈ g.ops, op'.id = op.id ∧ op'.kind = op.kind ∧
    op'.operands.map g.types = op.operands.map f.types
  returns : g.returns.map g.types = f.returns.map f.types
  stable : ∀ op ∈ g.ops, op.id ∈ ids → matchAndRewrite table g op = .ok (g, false)
  reported : ∀ op ∈ g.ops, ∃ g' modified, matchAndRewrite table g op = .ok (g', modified) ∧
    (modified = true ∨ g' = g)

/-- **Every run** keeps what it has to. -/
def PassKeeps (table : ℕ → TTNNOperandsWorkarounds) (f : FuncOp) : Prop :=
  ∀ ids g, Run table f ids g → Keeps table f ids g

/-! ## The condition -/

/-- The shard of a tensor with an element type on a grid. -/
structure ShardOf (shape grid : List ℕ) (e : ElementType) (linear : MLIR.AffineMap)
    (shard : List ℕ) : Prop where
  dims : e.isTile → shape ≠ []
  map_eq : collapsedLinearAffineMap (physicalShape e shape) grid [(0, -1)] = some linear
  tiled : e.isTile → 2 ≤ grid.length
  shard_eq : shard.map (fun n : ℕ => (n : ℤ)) =
    List.zipWith ceilDiv (List.zipWith ceilDiv (evalShape linear (physicalShape e shape)) grid)
      (e.extents grid.length)

/-- A tensor that can be laid out on a grid. -/
def Fits (shape grid : List ℕ) (e : ElementType) : Prop :=
  ∃ linear shard, ShardOf shape grid e linear shard

/-- **A conversion that can be made**: from a memory that is not interleaved L1, to a layout
and a data type that fit the grid, and a memory with its memory layout. -/
structure Convertible (shape grid : List ℕ) (bufferType : BufferType)
    (memLayout : Option TensorMemoryLayout) (layout : Layout) (bufferType' : BufferType)
    (memLayout' : Option TensorMemoryLayout) (dataType : DataType) : Prop where
  notInterleaved : ¬ InterleavedL1 bufferType memLayout
  fits : Fits shape grid (getElementType layout dataType)
  fitsScalar : Fits shape grid (.scalar (dataTypeToElementType dataType))
  small : bufferType' = .l1Small ∨ bufferType' = .trace → memLayout ≠ none
  verified : verifyBufferAndMemoryLayout bufferType' memLayout' = .ok ()

/-- A type that the workarounds can be applied to: the conversion can be made, and a data type
that is asked for exists in the page layout. -/
structure Applicable (w : TTNNOperandWorkarounds) (r : WorkaroundResults) (T : RankedTensorType) :
    Prop where
  convertible : Convertible T.shape T.encoding.grid T.encoding.getBufferType T.encoding.memLayout
    r.tensorLayoutResult.targetValue r.tensorBufferTypeResult.targetValue
    r.tensorMemoryLayoutResult.targetValue r.tensorDataTypeResult.targetValue
  representable : ∀ d, w.tensorDataTypeWorkaround = some d →
    r.tensorLayoutResult.targetValue = .rowMajor → d.isBlockFloat = false

/-- A type that can be converted back from the target of the workarounds. -/
def Reverts (r : WorkaroundResults) (T : RankedTensorType) : Prop :=
  Convertible T.shape (T.encoding.gridFor r.tensorBufferTypeResult.targetValue)
    r.tensorBufferTypeResult.targetValue r.tensorMemoryLayoutResult.targetValue
    r.tensorLayoutResult.previousValue r.tensorBufferTypeResult.previousValue
    r.tensorMemoryLayoutResult.previousValue r.tensorDataTypeResult.previousValue

/-- **A type that survives the way there and back**: the layout is the one that is built for its
own data type, in tiles of 32 by 32, and the grid is a single core where the type is moved to or
from DRAM or system memory. -/
structure Regular (r : WorkaroundResults) (T : RankedTensorType) : Prop where
  elementType : T.elementType = dataTypeToElementType T.encoding.getElementType.dataType
  encoding : T.encoding.getElementType =
    getElementType T.encoding.getElementType.layout T.encoding.getElementType.dataType
  shard : ShardOf T.shape T.encoding.grid T.encoding.getElementType T.encoding.linear
    T.encoding.memref.shape
  grid : T.encoding.gridFor r.tensorBufferTypeResult.targetValue = T.encoding.grid ∧
    T.encoding.gridFor r.tensorBufferTypeResult.previousValue = T.encoding.grid

/-- The memory config of an operation after some of its results were changed. -/
def configAfter (f : FuncOp) (id : ℕ) (pairs : List (ℕ × TTNNOperandWorkarounds))
    (config : Option DecomposeLayouts.MemoryConfigAttr) :
    Except String (Option DecomposeLayouts.MemoryConfigAttr) :=
  pairs.foldlM (fun config p =>
    match f.types (.opResult id p.1) with
    | none => .ok config
    | some T => updateMemoryConfig (applyWorkarounds p.2 T.encoding) config) config

/-- **Workable operations**: operands that need it can be converted, results that need it can be
converted there and, for their users, back to what they were; and where an operand needs a
change the last operand or a result does. -/
structure Workable (table : ℕ → TTNNOperandsWorkarounds) (f : FuncOp) (op : Op) : Prop where
  inputs : ∀ p ∈ f.inputPairs table op, ∀ v T, op.operands[p.1]? = some v → f.types v = some T →
    ¬ Satisfies p.2 T.encoding → Applicable p.2 (applyWorkarounds p.2 T.encoding) T
  outputs : ∀ p ∈ f.outputPairs table op, ∀ T, f.types (.opResult op.id p.1) = some T →
    ¬ Satisfies p.2 T.encoding → Applicable p.2 (applyWorkarounds p.2 T.encoding) T ∧
      Reverts (applyWorkarounds p.2 T.encoding) T ∧
      (f.Used (.opResult op.id p.1) → Regular (applyWorkarounds p.2 T.encoding) T)
  config : ∃ config,
    configAfter f op.id (f.outputPairs table op) op.memoryConfig = .ok config
  reported : (∃ p ∈ f.inputPairs table op, ¬ f.InputSatisfied op p) →
    (∃ p, (f.inputPairs table op).getLast? = some p ∧ ¬ f.InputSatisfied op p) ∨
      ∃ p ∈ f.outputPairs table op, ¬ f.OutputSatisfied op p

/-! ## Workarounds of a layout -/

/-- **What is modified** is what does not satisfy the workarounds. -/
theorem isModified_eq_false_iff (w : TTNNOperandWorkarounds) (L : TTNNLayoutAttr) :
    (applyWorkarounds w L).isModified = false ↔ Satisfies w L := by
  have hsystem : L.getBufferType = .systemMemory → L.memLayout = none := by
    intro hb
    have hverified := L.verified
    cases hm : L.memLayout with
    | none => rfl
    | some m =>
      rw [hm, verifyBufferAndMemoryLayout,
        if_pos (show L.memref.memorySpace = .systemMemory from hb)] at hverified
      cases hverified
  obtain ⟨layout, buffer, memory, dataType⟩ := w
  simp only [WorkaroundResults.isModified, WorkaroundResult.isModified, applyWorkarounds,
    Bool.or_eq_false_iff, decide_eq_false_iff_not, not_not, ne_eq]
  constructor
  · rintro ⟨⟨⟨hlayout, hbuffer⟩, hmemory⟩, hdata⟩
    refine ⟨?_, ?_, ?_, ?_⟩
    · rintro l rfl
      exact hlayout
    · rintro b rfl
      exact hbuffer
    · rintro m rfl
      rw [← hbuffer] at hmemory
      by_cases hb : L.getBufferType = .systemMemory
      · exact Or.inl hb
      · rw [if_neg hb] at hmemory
        exact Or.inr hmemory
    · rintro d rfl
      exact hdata
  · rintro ⟨hlayout, hbuffer, hmemory, hdata⟩
    have hbuffer' : buffer.getD L.getBufferType = L.getBufferType := by
      cases buffer with
      | none => rfl
      | some b => exact (hbuffer b rfl).symm
    refine ⟨⟨⟨?_, hbuffer'.symm⟩, ?_⟩, ?_⟩
    · cases layout with
      | none => rfl
      | some l => exact hlayout l rfl
    · rw [hbuffer']
      split_ifs with hb hsome
      · exact hsystem hb
      · obtain ⟨m, rfl⟩ := Option.isSome_iff_exists.mp hsome
        exact (hmemory m rfl).resolve_left hb
      · rfl
    · cases dataType with
      | none => rfl
      | some d => exact hdata d rfl

theorem isModified_iff (w : TTNNOperandWorkarounds) (L : TTNNLayoutAttr) :
    (applyWorkarounds w L).isModified = true ↔ ¬ Satisfies w L := by
  rw [← isModified_eq_false_iff, Bool.not_eq_false]

/-- Without workarounds there is nothing to satisfy. -/
theorem satisfies_of_not_hasAnyWorkaround {w : TTNNOperandWorkarounds} (L : TTNNLayoutAttr)
    (h : w.hasAnyWorkaround = false) : Satisfies w L := by
  simp only [TTNNOperandWorkarounds.hasAnyWorkaround, Bool.or_eq_false_iff,
    Option.isSome_eq_false_iff, Option.isNone_iff_eq_none] at h
  obtain ⟨⟨⟨hlayout, hbuffer⟩, hmemory⟩, hdata⟩ := h
  constructor
  · rw [hlayout]
    exact fun _ h => nomatch h
  · rw [hbuffer]
    exact fun _ h => nomatch h
  · rw [hmemory]
    exact fun _ h => nomatch h
  · rw [hdata]
    exact fun _ h => nomatch h

/-! ## Converted types -/

@[simp] theorem layout_getElementType (layout : Layout) (dataType : DataType) :
    (getElementType layout dataType).layout = layout := by
  cases layout <;> rfl

theorem dataType_getElementType (layout : Layout) (dataType : DataType) :
    (getElementType layout dataType).dataType = dataType ↔
      (layout = .rowMajor → dataType.isBlockFloat = false) := by
  cases layout with
  | tile => exact iff_of_true rfl (fun h => nomatch h)
  | rowMajor => cases dataType <;> decide

variable {shape grid : List ℕ} {m : Option TensorMemoryLayout}

/-- The parts of a layout that is not interleaved in L1. -/
theorem get_eq_ok_iff_shardOf {e : ElementType} {b : BufferType}
    (hi : ¬ InterleavedL1 b m) (L : TTNNLayoutAttr) :
    TTNNLayoutAttr.get shape e b grid m [(0, -1)] = .ok L ↔
      ShardOf shape grid e L.linear L.memref.shape ∧ L.memref.elementType = e ∧
        L.memref.memorySpace = b ∧ L.grid = grid ∧ L.memLayout = m := by
  rw [TTNNLayoutAttr.get_eq_ok_iff]
  constructor
  · rintro ⟨hdims, hlinear, hmemref, hgrid, hm⟩
    obtain ⟨-, hres⟩ := dims_of_collapsed hlinear
    obtain ⟨htwo, he, hb, hshape⟩ := (computedMemref_eq_ok_iff _ e b _ _ _ hres _).mp hmemref
    rw [if_neg hi] at hshape
    exact ⟨⟨fun ht hs => hdims ⟨ht, hs⟩, hlinear, htwo, hshape⟩, he, hb, hgrid, hm⟩
  · rintro ⟨⟨hdims, hlinear, htwo, hshape⟩, he, hb, hgrid, hm⟩
    obtain ⟨-, hres⟩ := dims_of_collapsed hlinear
    refine ⟨fun h => hdims h.1 h.2, hlinear, ?_, hgrid, hm⟩
    refine (computedMemref_eq_ok_iff _ e b _ _ _ hres _).mpr ⟨htwo, he, hb, ?_⟩
    rw [if_neg hi]
    exact hshape

theorem ShardOf.length_shard {e : ElementType} {linear : MLIR.AffineMap}
    {shard : List ℕ} (h : ShardOf shape grid e linear shard) : shard.length = grid.length := by
  have hlen := congrArg List.length h.shard_eq
  obtain ⟨-, hres⟩ := dims_of_collapsed h.map_eq
  rw [List.length_map, List.length_zipWith, List.length_zipWith, evalShape, List.length_map,
    MLIR.AffineMap.eval, List.length_map, hres, min_self, e.length_extents h.tiled,
    min_self] at hlen
  exact hlen

theorem not_interleaved_of_get {d : DataType} {b : BufferType} {L : TTNNLayoutAttr}
    (h : TTNNLayoutAttr.get shape (.scalar d) b grid m [(0, -1)] = .ok L) :
    ¬ InterleavedL1 b m := by
  intro hi
  obtain ⟨-, hlinear, hmemref, -⟩ := (TTNNLayoutAttr.get_eq_ok_iff _ _ _ _ _ _ L).mp h
  obtain ⟨-, hres⟩ := dims_of_collapsed hlinear
  obtain ⟨-, -, -, hshape⟩ := (computedMemref_eq_ok_iff _ _ b _ _ _ hres _).mp hmemref
  rw [if_pos hi] at hshape
  obtain ⟨t, ht, -⟩ := hshape
  cases ht

/-- `withMemoryLayout` builds the old shard on the old grid. -/
theorem withMemoryLayoutAttr_eq (L : TTNNLayoutAttr)
    (h : L.isTiled → 2 ≤ L.memref.shape.length) (m : Option TensorMemoryLayout) :
    withMemoryLayoutAttr L m = TTNNLayoutAttr.build L.linear L.grid L.memref m := by
  have hrebuilt := L.rebuilt_eq h L.getBufferType
  unfold withMemoryLayoutAttr
  obtain ⟨shard, hshard, hbuilt⟩ := except_bind_eq_ok.mp hrebuilt
  rw [hshard]
  change (buildMemRef shard L.getElementType L.getBufferType >>= _) = _
  rw [hbuilt]
  rfl

theorem build_isOk_iff {linear : MLIR.AffineMap} {grid : List ℕ} {memref : MemRefType} :
    (∃ L, TTNNLayoutAttr.build linear grid memref m = .ok L) ↔
      verifyBufferAndMemoryLayout memref.memorySpace m = .ok () := by
  constructor
  · rintro ⟨L, h⟩
    obtain ⟨-, -, rfl, rfl⟩ := (TTNNLayoutAttr.build_eq_ok_iff _ _ _ _ L).mp h
    exact L.verified
  · intro h
    exact ⟨_, TTNNLayoutAttr.build_of_verified _ _ _ _ h⟩

/-- The memory layout that a change of memory sets is there where it has to be. -/
theorem verify_memLayoutFor_iff (L : TTNNLayoutAttr) (b : BufferType) :
    verifyBufferAndMemoryLayout b (L.memLayoutFor b) = .ok () ↔
      (b = .l1Small ∨ b = .trace → L.memLayout ≠ none) := by
  have hsome : ∀ m : TensorMemoryLayout, ∀ b : BufferType, b = .l1Small ∨ b = .trace ∨ b = .l1 →
      verifyBufferAndMemoryLayout b (some m) = .ok () := by
    rintro m b (rfl | rfl | rfl) <;> rfl
  cases b with
  | dram => exact iff_of_true rfl (fun h => by simp at h)
  | systemMemory => exact iff_of_true rfl (fun h => by simp at h)
  | l1 => exact iff_of_true (hsome _ _ (by simp)) (fun h => by simp at h)
  | l1Small =>
    cases hm : L.memLayout with
    | none => simp [TTNNLayoutAttr.memLayoutFor, hm, verifyBufferAndMemoryLayout]
    | some m => simp [TTNNLayoutAttr.memLayoutFor, hm, hsome m .l1Small]
  | trace =>
    cases hm : L.memLayout with
    | none => simp [TTNNLayoutAttr.memLayoutFor, hm, verifyBufferAndMemoryLayout]
    | some m => simp [TTNNLayoutAttr.memLayoutFor, hm, hsome m .trace]

theorem gridFor_congr {L L' : TTNNLayoutAttr} {b : BufferType} (h : L.grid = L'.grid) :
    L.gridFor b = L'.gridFor b := by
  cases b with
  | dram | systemMemory => exact congrArg (fun grid : List ℕ => List.replicate grid.length 1) h
  | l1 | l1Small | trace => exact h

section ResultType

variable {T T' : RankedTensorType} {layout : Layout} {b : BufferType}
  {m : Option TensorMemoryLayout} {d : DataType}

/-- The parts of a converted type. -/
structure ConvertedTo (T : RankedTensorType) (layout : Layout) (b : BufferType)
    (m : Option TensorMemoryLayout) (d : DataType) (T' : RankedTensorType) : Prop where
  shape : T'.shape = T.shape
  elementType : T'.elementType = dataTypeToElementType d
  shard : ShardOf T.shape T.encoding.grid (getElementType layout d) T'.encoding.linear
    T'.encoding.memref.shape
  encoding : T'.encoding.getElementType = getElementType layout d
  bufferType : T'.encoding.getBufferType = b
  grid : T'.encoding.grid = T.encoding.gridFor b
  memLayout : T'.encoding.memLayout = m

/-- **Converted types**: what they are, and when they exist. -/
theorem resultTypeFor_eq_ok_iff : resultTypeFor T layout b m d = .ok T' ↔
      Convertible T.shape T.encoding.grid T.encoding.getBufferType T.encoding.memLayout layout b m
        d ∧ ConvertedTo T layout b m d T' := by
  unfold resultTypeFor TTNNLayoutAttr.withElementType
  simp only [except_bind_eq_ok, Except.ok.injEq]
  constructor
  · rintro ⟨converted, hconverted, moved, hmoved, encoding, hencoding, dropped, hdropped, rfl⟩
    have hi := not_interleaved_of_get hdropped
    obtain ⟨hshard, he, hb, hgrid, hm⟩ := (get_eq_ok_iff_shardOf hi converted).mp hconverted
    obtain ⟨hscalar, -⟩ := (get_eq_ok_iff_shardOf hi dropped).mp hdropped
    have htwo : converted.isTiled → 2 ≤ converted.memref.shape.length := by
      intro ht
      rw [hshard.length_shard]
      exact hshard.tiled (by rw [← he]; exact ht)
    rw [converted.withBufferType_eq htwo] at hmoved
    obtain ⟨hlinear', hgrid', hmemref', hm'⟩ :=
      (TTNNLayoutAttr.build_eq_ok_iff _ _ _ _ moved).mp hmoved
    have htwo' : moved.isTiled → 2 ≤ moved.memref.shape.length := by
      intro ht
      rw [hmemref']
      refine htwo ?_
      rw [TTNNLayoutAttr.isTiled, TTNNLayoutAttr.getElementType, hmemref'] at ht
      exact ht
    rw [withMemoryLayoutAttr_eq moved htwo'] at hencoding
    obtain ⟨hlinear'', hgrid'', hmemref'', hm''⟩ :=
      (TTNNLayoutAttr.build_eq_ok_iff _ _ _ _ encoding).mp hencoding
    have hverify := build_isOk_iff.mp ⟨moved, hmoved⟩
    have hverify' := build_isOk_iff.mp ⟨encoding, hencoding⟩
    rw [hmemref'] at hverify' hmemref''
    refine ⟨⟨hi, ⟨_, _, hshard⟩, ⟨_, _, hscalar⟩, ?_, hverify'⟩, ⟨rfl, rfl, ?_, ?_, ?_, ?_, hm''⟩⟩
    · rw [← hm]
      exact (verify_memLayoutFor_iff converted b).mp hverify
    · show ShardOf _ _ _ encoding.linear encoding.memref.shape
      rw [hlinear'', hlinear', hmemref'']
      exact hshard
    · show encoding.memref.elementType = _
      rw [hmemref'']
      exact he
    · show encoding.memref.memorySpace = _
      rw [hmemref'']
    · show encoding.grid = _
      rw [hgrid'', hgrid', gridFor_congr hgrid]
  · rintro ⟨⟨hi, -, ⟨linear', shard', hscalar⟩, hsmall, hverified⟩, hT'⟩
    obtain ⟨shape', elementType', encoding⟩ := T'
    obtain ⟨rfl, rfl, hshard, he, hb, hgrid, hm⟩ := hT'
    let converted : TTNNLayoutAttr := ⟨encoding.linear, T.encoding.grid,
      ⟨encoding.memref.shape, getElementType layout d, T.encoding.getBufferType⟩,
      T.encoding.memLayout, T.encoding.verified⟩
    have htwo : converted.isTiled → 2 ≤ converted.memref.shape.length := by
      intro ht
      show 2 ≤ encoding.memref.shape.length
      rw [hshard.length_shard]
      exact hshard.tiled ht
    let moved : TTNNLayoutAttr := ⟨encoding.linear, converted.gridFor b,
      ⟨encoding.memref.shape, getElementType layout d, b⟩, converted.memLayoutFor b,
      (verify_memLayoutFor_iff converted b).mpr hsmall⟩
    refine ⟨converted, (get_eq_ok_iff_shardOf hi converted).mpr ⟨hshard, rfl, rfl, rfl, rfl⟩,
      moved, converted.withBufferType_eq_ok htwo b moved.verified, encoding, ?_,
      ⟨linear', T.encoding.grid, ⟨shard', _, T.encoding.getBufferType⟩, T.encoding.memLayout,
        T.encoding.verified⟩,
      (get_eq_ok_iff_shardOf hi _).mpr ⟨hscalar, rfl, rfl, rfl, rfl⟩, rfl⟩
    refine (withMemoryLayoutAttr_eq moved htwo m).trans ?_
    refine (TTNNLayoutAttr.build_eq_ok_iff _ _ _ _ encoding).mpr
      ⟨rfl, hgrid.trans (gridFor_congr rfl), ?_, hm⟩
    exact congrArg₂ (MemRefType.mk encoding.memref.shape) he hb

theorem resultTypeFor_isOk_iff : (∃ T', resultTypeFor T layout b m d = .ok T') ↔
      Convertible T.shape T.encoding.grid T.encoding.getBufferType T.encoding.memLayout layout b m
        d := by
  constructor
  · rintro ⟨T', h⟩
    exact (resultTypeFor_eq_ok_iff.mp h).1
  · intro h
    obtain ⟨linear, shard, hshard⟩ := h.fits
    exact ⟨⟨T.shape, dataTypeToElementType d, ⟨linear, T.encoding.gridFor b,
      ⟨shard, getElementType layout d, b⟩, m, h.verified⟩⟩,
      resultTypeFor_eq_ok_iff.mpr ⟨h, rfl, rfl, hshard, rfl, rfl, rfl, rfl⟩⟩

end ResultType

/-! ## There and back -/

section Workaround

variable {w : TTNNOperandWorkarounds} {T T' : RankedTensorType}

/-- **The target of the workarounds** exists where the conversion can be made, and satisfies the
workarounds where the data type exists in the page layout. -/
theorem satisfies_target_iff (h : (applyWorkarounds w T.encoding).targetType T = .ok T') :
    Satisfies w T'.encoding ↔ ∀ d, w.tensorDataTypeWorkaround = some d →
      (applyWorkarounds w T.encoding).tensorLayoutResult.targetValue = .rowMajor →
        d.isBlockFloat = false := by
  obtain ⟨-, -, -, -, he, hb, -, hm⟩ := resultTypeFor_eq_ok_iff.mp h
  have htarget : ∀ d, w.tensorDataTypeWorkaround = some d →
      (applyWorkarounds w T.encoding).tensorDataTypeResult.targetValue = d := by
    intro d hd
    rw [applyWorkarounds]
    exact congrArg (fun o : Option DataType => o.getD _) hd
  constructor
  · intro hsatisfies d hd hlayout
    have hdata := hsatisfies.dataType d hd
    rw [he, htarget d hd, dataType_getElementType] at hdata
    exact hdata hlayout
  · intro hrepresentable
    constructor
    · intro l hl
      rw [he, layout_getElementType, applyWorkarounds]
      exact congrArg (fun o : Option Layout => o.getD _) hl
    · intro b hb'
      rw [hb, applyWorkarounds]
      exact congrArg (fun o : Option BufferType => o.getD _) hb'
    · intro m hm'
      rw [hb, hm, applyWorkarounds]
      simp only [hm', Option.isSome_some, if_true]
      exact (em _).imp id fun hne => if_neg hne
    · intro d hd
      rw [he, htarget d hd, dataType_getElementType]
      exact hrepresentable d hd

theorem applicable_iff : Applicable w (applyWorkarounds w T.encoding) T ↔
    ∃ T', (applyWorkarounds w T.encoding).targetType T = .ok T' ∧ Satisfies w T'.encoding := by
  constructor
  · intro h
    obtain ⟨T', hT'⟩ := resultTypeFor_isOk_iff.mpr h.convertible
    exact ⟨T', hT', (satisfies_target_iff hT').mpr h.representable⟩
  · rintro ⟨T', hT', hsatisfies⟩
    exact ⟨(resultTypeFor_eq_ok_iff.mp hT').1, (satisfies_target_iff hT').mp hsatisfies⟩

theorem reverts_iff (h : (applyWorkarounds w T.encoding).targetType T = .ok T') :
    Reverts (applyWorkarounds w T.encoding) T ↔
      ∃ T'', (applyWorkarounds w T.encoding).previousType T' = .ok T'' := by
  obtain ⟨-, hshape, -, -, -, hb, hgrid, hm⟩ := resultTypeFor_eq_ok_iff.mp h
  rw [WorkaroundResults.previousType, resultTypeFor_isOk_iff, hshape, hgrid, hb, hm, Reverts]

/-- Grids of single cores stay, whichever memory is moved through. -/
theorem gridFor_gridFor_eq_iff {L L' : TTNNLayoutAttr} {b b' : BufferType}
    (h : L'.grid = L.gridFor b) :
    L.grid = L'.gridFor b' ↔ L.gridFor b = L.grid ∧ L.gridFor b' = L.grid := by
  have hlen : L'.grid.length = L.grid.length := by
    rw [h, TTNNLayoutAttr.length_gridFor]
  constructor
  · intro heq
    by_cases hb' : b' = .dram ∨ b' = .systemMemory
    · have hones : L.grid = List.replicate L.grid.length 1 := by
        rw [← hlen]
        rcases hb' with rfl | rfl <;> exact heq
      have hall : ∀ c : BufferType, L.gridFor c = L.grid := by
        intro c
        cases c with
        | dram | systemMemory => exact hones.symm
        | l1 | l1Small | trace => rfl
      exact ⟨hall b, hall b'⟩
    · have hsame : ∀ M : TTNNLayoutAttr, M.gridFor b' = M.grid := by
        intro M
        cases b' with
        | dram => exact absurd (Or.inl rfl) hb'
        | systemMemory => exact absurd (Or.inr rfl) hb'
        | l1 | l1Small | trace => rfl
      rw [hsame L', h] at heq
      exact ⟨heq.symm, hsame L⟩
  · rintro ⟨hgrid, hgrid'⟩
    rw [gridFor_congr (h.trans hgrid), hgrid']

/-- **The way there and back** ends in the type it started from for regular types. -/
theorem regular_iff (h : (applyWorkarounds w T.encoding).targetType T = .ok T') :
    (applyWorkarounds w T.encoding).previousType T' = .ok T ↔
      Reverts (applyWorkarounds w T.encoding) T ∧ Regular (applyWorkarounds w T.encoding) T := by
  obtain ⟨-, hshape, -, -, -, hb, hgrid, hm⟩ := resultTypeFor_eq_ok_iff.mp h
  rw [WorkaroundResults.previousType, resultTypeFor_eq_ok_iff, hshape, hgrid, hb, hm]
  refine and_congr_right fun _ => ?_
  constructor
  · rintro ⟨-, helementType, hshard, hencoding, -, hback, -⟩
    have hgrids := (gridFor_gridFor_eq_iff hgrid).mp hback
    refine ⟨helementType, hencoding, ?_, hgrids⟩
    rw [hshape, hgrid, hgrids.1] at hshard
    rw [hencoding]
    exact hshard
  · rintro ⟨helementType, hencoding, hshard, hgrids⟩
    refine ⟨hshape.symm, helementType, ?_, hencoding, rfl, (gridFor_gridFor_eq_iff hgrid).mpr hgrids,
      rfl⟩
    rw [hshape, hgrid, hgrids.1]
    rw [hencoding] at hshard
    exact hshard

end Workaround

/-! ## Edits at one operation -/

theorem lt_freshId {ops : List Op} {op : Op} (hop : op ∈ ops) : op.id < freshId ops :=
  SSA.lt_foldr_max Op.id hop

variable {f : FuncOp} {v : Value}

theorem FuncOp.Defines.ne_fresh (h : f.Defines v) (k : ℕ) : v ≠ .opResult (freshId f.ops) k := by
  rintro rfl
  obtain ⟨o, ho, hid⟩ := List.mem_map.mp h
  exact absurd (lt_freshId ho) (by omega)

theorem FuncOp.defines_result {op : Op} (hop : op ∈ f.ops) (k : ℕ) :
    f.Defines (.opResult op.id k) := List.mem_map.mpr ⟨op, hop, rfl⟩

theorem FuncOp.SSAForm.eq_of_id_eq (hf : f.SSAForm) {a b : Op} (ha : a ∈ f.ops)
    (hb : b ∈ f.ops) (h : a.id = b.id) : a = b :=
  List.inj_on_of_nodup_map hf.nodup ha hb h

/-- **An edit at one operation**: the other operations read their operands under a renaming of
the results of that operation, and new operations are conversions. -/
structure Edit (f : FuncOp) (id : ℕ) (rename : Value → Value) (g : FuncOp) : Prop where
  ssa : g.SSAForm
  others : ∀ o ∈ f.ops, o.id ≠ id → { o with operands := o.operands.map rename } ∈ g.ops
  origin : ∀ o' ∈ g.ops, o'.id ≠ id → o'.isToLayout = true ∧ o'.id ∉ f.ops.map Op.id ∨
    ∃ o ∈ f.ops, o.id ≠ id ∧ o' = { o with operands := o.operands.map rename }
  returns : g.returns = f.returns.map rename
  frame : ∀ v, f.Defines v → (∀ k, v ≠ .opResult id k) → rename v = v ∧ g.types v = f.types v
  defines : ∀ v, f.Defines v → g.Defines v
  maps : ∀ v, f.Defines v → g.Defines (rename v)
  used : ∀ v, f.Defines v → (∀ k, v ≠ .opResult id k) → g.Used v → f.Used v
  tensor : ∀ v, f.Defines v → (g.types (rename v)).isSome = (f.types v).isSome

namespace Edit

/-- Nothing is edited. -/
theorem refl (hf : f.SSAForm) (id : ℕ) : Edit f id (fun v => v) f where
  ssa := hf
  others o ho _ := by
    rw [List.map_id']
    exact ho
  origin o ho hid := by
    refine Or.inr ⟨o, ho, hid, ?_⟩
    rw [List.map_id']
  returns := (List.map_id' _).symm
  frame _ _ _ := ⟨rfl, rfl⟩
  defines _ hv := hv
  maps _ hv := hv
  used _ _ _ hv := hv
  tensor _ _ := rfl

/-- Two edits at one operation. -/
theorem trans {f g g' : FuncOp} {id : ℕ} {rename rename' : Value → Value}
    (h : Edit f id rename g) (h' : Edit g id rename' g') :
    Edit f id (fun v => rename' (rename v)) g' where
  ssa := h'.ssa
  others o ho hid := by
    have hmem := h'.others _ (h.others o ho hid) hid
    rw [List.map_map] at hmem
    exact hmem
  origin o' ho' hid := by
    rcases h'.origin o' ho' hid with ⟨hto, hnew⟩ | ⟨o₁, ho₁, hid₁, rfl⟩
    · exact Or.inl ⟨hto, fun hmem => hnew (h.defines (.opResult o'.id 0) hmem)⟩
    · rcases h.origin o₁ ho₁ hid₁ with ⟨hto, hnew⟩ | ⟨o, ho, hid₀, rfl⟩
      · exact Or.inl ⟨hto, hnew⟩
      · refine Or.inr ⟨o, ho, hid₀, ?_⟩
        rw [List.map_map]
        rfl
  returns := by
    rw [h'.returns, h.returns, List.map_map]
    rfl
  frame v hv hne := by
    obtain ⟨hrename, htypes⟩ := h.frame v hv hne
    obtain ⟨hrename', htypes'⟩ := h'.frame v (h.defines v hv) hne
    rw [hrename]
    exact ⟨hrename', htypes'.trans htypes⟩
  defines v hv := h'.defines v (h.defines v hv)
  maps v hv := h'.maps _ (h.maps v hv)
  used v hv hne hused := h.used v hv hne (h'.used v (h.defines v hv) hne hused)
  tensor v hv := (h'.tensor _ (h.maps v hv)).trans (h.tensor v hv)

end Edit

/-- An operation replaced by two, among others that are replaced by one. -/
theorem perm_flatMap {ops : List Op} (hnodup : (ops.map Op.id).Nodup) {op new : Op}
    (hop : op ∈ ops) {F : Op → List Op} {G : Op → Op} (hF : (F op).Perm [new, G op])
    (hG : ∀ o, o.id ≠ op.id → F o = [G o]) : (ops.flatMap F).Perm (new :: ops.map G) := by
  obtain ⟨front, back, rfl⟩ := List.append_of_mem hop
  have hsingle : ∀ l : List Op, (∀ o ∈ l, o.id ≠ op.id) → l.flatMap F = l.map G := by
    intro l hl
    rw [List.map_eq_flatMap]
    exact List.flatMap_congr fun o ho => hG o (hl o ho)
  rw [List.map_append, List.map_cons, List.nodup_middle, List.nodup_cons, List.mem_append,
    not_or] at hnodup
  obtain ⟨⟨hfront, hback⟩, -⟩ := hnodup
  rw [List.flatMap_append, List.flatMap_cons, List.map_append, List.map_cons,
    hsingle front fun o ho heq => hfront (heq ▸ List.mem_map_of_mem ho),
    hsingle back fun o ho heq => hback (heq ▸ List.mem_map_of_mem ho)]
  calc front.map G ++ (F op ++ back.map G)
      _ |>.Perm (front.map G ++ ([new, G op] ++ back.map G)) := (hF.append_right _).append_left _
      _ |>.Perm (new :: (front.map G ++ G op :: back.map G)) := List.perm_middle

section Step

variable {f g : FuncOp} {op op' new : Op} {rename : Value → Value} {u : Value}

/-- The operations after a step: a conversion, and the old ones. -/
def stepped (op op' : Op) (rename : Value → Value) (o : Op) : Op :=
  if o.id = op.id then op' else { o with operands := o.operands.map rename }

/-- **One step is an edit.**  It inserts a conversion of an operand or of a result of an
operation, and the others read the conversion in the place of the result. -/
theorem edit_of_perm (hf : f.SSAForm) (hop : op ∈ f.ops)
    (hops : g.ops.Perm (new :: f.ops.map (stepped op op' rename)))
    (hnew : new.isToLayout = true) (hid : new.id = freshId f.ops) (hreads : new.operands = [u])
    (hu : u ∈ op.operands ∨ ∃ k, u = .opResult op.id k) (hid' : op'.id = op.id)
    (hop' : ∀ v ∈ op'.operands, v ∈ op.operands ∨ v = .opResult (freshId f.ops) 0)
    (hrename : ∀ v, rename v = v ∨
      (∃ k, v = .opResult op.id k) ∧ rename v = .opResult (freshId f.ops) 0)
    (hreturns : g.returns = f.returns.map rename)
    (htypes : ∀ v, f.Defines v → (∀ k, v ≠ .opResult op.id k) → g.types v = f.types v)
    (htensor : ∀ v, f.Defines v → (g.types (rename v)).isSome = (f.types v).isSome) :
    Edit f op.id rename g := by
  have hmem : ∀ o', o' ∈ g.ops ↔ o' = new ∨ ∃ o ∈ f.ops, stepped op op' rename o = o' := by
    intro o'
    rw [hops.mem_iff, List.mem_cons, List.mem_map]
  have hstepped : ∀ o, (stepped op op' rename o).id = o.id := by
    intro o
    rw [stepped]
    split_ifs with heq
    · exact hid'.trans heq.symm
    · rfl
  have hids : (g.ops.map Op.id).Perm (freshId f.ops :: f.ops.map Op.id) := by
    refine (hops.map Op.id).trans ?_
    rw [List.map_cons, hid, List.map_map]
    exact List.Perm.of_eq (congrArg _ (List.map_congr_left fun o _ => hstepped o))
  have hdefines : ∀ v, f.Defines v → g.Defines v := by
    intro v hv
    cases v with
    | blockArg n => trivial
    | opResult id k => exact hids.mem_iff.mpr (List.mem_cons_of_mem _ hv)
  have hfresh : g.Defines (.opResult (freshId f.ops) 0) := hids.mem_iff.mpr List.mem_cons_self
  have hmaps : ∀ v, f.Defines v → g.Defines (rename v) := by
    intro v hv
    rcases hrename v with heq | ⟨-, heq⟩
    · rw [heq]
      exact hdefines v hv
    · rw [heq]
      exact hfresh
  have huDefined : f.Defines u := by
    rcases hu with hu | ⟨k, rfl⟩
    · exact hf.defined op hop u hu
    · exact FuncOp.defines_result hop k
  have hopResult : ∀ k, (Value.opResult op.id k) ≠ .opResult (freshId f.ops) 0 := fun k =>
    (FuncOp.defines_result hop k).ne_fresh 0
  have hnotMem : freshId f.ops ∉ f.ops.map Op.id := by
    intro hmem
    obtain ⟨o, ho, heq⟩ := List.mem_map.mp hmem
    exact absurd (lt_freshId ho) (by omega)
  -- the operands after the step
  have hoperands : ∀ o ∈ f.ops, ∀ v ∈ (stepped op op' rename o).operands,
      (∃ w ∈ o.operands, v = rename w) ∨ v ∈ o.operands ∨ v = .opResult (freshId f.ops) 0 := by
    intro o ho v hv
    rw [stepped] at hv
    split_ifs at hv with heq
    · obtain rfl := hf.eq_of_id_eq ho hop heq
      exact Or.inr (hop' v hv)
    · obtain ⟨w, hw, rfl⟩ := List.mem_map.mp hv
      exact Or.inl ⟨w, hw, rfl⟩
  constructor
  · constructor
    · exact hids.nodup_iff.mpr (List.nodup_cons.mpr ⟨hnotMem, hf.nodup⟩)
    · intro o' ho' v hv
      rcases (hmem o').mp ho' with rfl | ⟨o, ho, rfl⟩
      · rw [hreads] at hv
        rw [List.mem_singleton.mp hv]
        exact hdefines u huDefined
      · rcases hoperands o ho v hv with ⟨w, hw, rfl⟩ | hv | rfl
        · exact hmaps w (hf.defined o ho w hw)
        · exact hdefines v (hf.defined o ho v hv)
        · exact hfresh
    · intro o' ho' k hself
      rcases (hmem o').mp ho' with rfl | ⟨o, ho, rfl⟩
      · rw [hreads] at hself
        rw [hid] at hself
        exact huDefined.ne_fresh k (List.mem_singleton.mp hself).symm
      · have hne : Value.opResult (stepped op op' rename o).id k ≠ .opResult (freshId f.ops) 0 := by
          rw [hstepped]
          exact (FuncOp.defines_result ho k).ne_fresh 0
        rcases hoperands o ho _ hself with ⟨w, hw, heq⟩ | hv | heq
        · rcases hrename w with hw' | ⟨-, hw'⟩
          · rw [hw', hstepped] at heq
            exact hf.acyclic o ho k (heq ▸ hw)
          · exact hne (heq.trans hw')
        · rw [hstepped] at hv
          exact hf.acyclic o ho k hv
        · exact hne heq
    · intro v hv
      rw [hreturns] at hv
      obtain ⟨w, hw, rfl⟩ := List.mem_map.mp hv
      exact hmaps w (hf.returns_defined w hw)
  · intro o ho hne
    refine (hmem _).mpr (Or.inr ⟨o, ho, ?_⟩)
    rw [stepped, if_neg hne]
  · intro o' ho' hne
    rcases (hmem o').mp ho' with rfl | ⟨o, ho, rfl⟩
    · refine Or.inl ⟨hnew, ?_⟩
      rw [hid]
      exact hnotMem
    · rw [hstepped] at hne
      refine Or.inr ⟨o, ho, hne, ?_⟩
      rw [stepped, if_neg hne]
  · exact hreturns
  · intro v hv hne
    refine ⟨?_, htypes v hv hne⟩
    exact (hrename v).resolve_right fun h => absurd h.1 (by rintro ⟨k, rfl⟩; exact hne k rfl)
  · exact hdefines
  · exact hmaps
  · intro v hv hne hused
    -- a value that is read after a renaming was read before it
    have hback : ∀ w, v = rename w → v = w := by
      rintro w rfl
      rcases hrename w with hw | ⟨-, hw⟩
      · exact hw
      · exact absurd hw (hv.ne_fresh 0)
    rcases hused with ⟨o', ho', hv'⟩ | hv'
    · rcases (hmem o').mp ho' with rfl | ⟨o, ho, rfl⟩
      · rw [hreads] at hv'
        obtain rfl := List.mem_singleton.mp hv'
        rcases hu with hu | ⟨k, heq⟩
        · exact Or.inl ⟨op, hop, hu⟩
        · exact absurd heq (hne k)
      · rcases hoperands o ho v hv' with ⟨w, hw, heq⟩ | hv' | heq
        · exact Or.inl ⟨o, ho, (hback w heq).symm ▸ hw⟩
        · exact Or.inl ⟨o, ho, hv'⟩
        · exact absurd heq (hv.ne_fresh 0)
    · rw [hreturns] at hv'
      obtain ⟨w, hw, heq⟩ := List.mem_map.mp hv'
      exact Or.inr ((hback w heq.symm).symm ▸ hw)
  · exact htensor

theorem find?_eq (hf : f.SSAForm) (hop : op ∈ f.ops) :
    (f.ops.find? fun o => o.id = op.id) = some op := by
  cases hfind : f.ops.find? fun o => o.id = op.id with
  | none =>
    have hnone := List.find?_eq_none.mp hfind op hop
    simp at hnone
  | some o =>
    have hid : o.id = op.id := by simpa using List.find?_some hfind
    rw [hf.eq_of_id_eq (List.mem_of_find?_eq_some hfind) hop hid]

variable {i k : ℕ} {r : WorkaroundResults} {T T' T'' : RankedTensorType}
  {config : Option DecomposeLayouts.MemoryConfigAttr}

/-- **A converted operand.** -/
theorem edit_convertOperand (hf : f.SSAForm) (hop : op ∈ f.ops) (hu : op.operands[i]? = some u) :
    Edit f op.id (fun v => v) (f.convertOperand op.id i u r T') ∧
      { op with operands := op.operands.set i (.opResult (freshId f.ops) 0) } ∈
        (f.convertOperand op.id i u r T').ops := by
  set op' : Op := { op with operands := op.operands.set i (.opResult (freshId f.ops) 0) } with hop'
  have htypes : ∀ v, f.Defines v → (f.convertOperand op.id i u r T').types v = f.types v :=
    fun v hv => Function.update_of_ne (hv.ne_fresh 0) _ _
  have hperm : (f.convertOperand op.id i u r T').ops.Perm
      (createToLayoutOp (freshId f.ops) u r.tensorLayoutResult.targetValue
        r.tensorBufferTypeResult.targetValue r.tensorMemoryLayoutResult.targetValue
        r.tensorDataTypeResult.targetValue T' :: f.ops.map (stepped op op' fun v => v)) := by
    refine perm_flatMap hf.nodup hop ?_ ?_
    · simp only [stepped, if_true]
      exact List.Perm.refl _
    · intro o ho
      rw [stepped, if_neg ho, if_neg ho, List.map_id']
  constructor
  · refine edit_of_perm hf hop hperm rfl rfl rfl (Or.inl (List.mem_of_getElem? hu)) rfl ?_
      (fun v => Or.inl rfl) (List.map_id' _).symm (fun v hv _ => htypes v hv)
      (fun v hv => congrArg Option.isSome (htypes v hv))
    intro v hv
    exact (List.mem_or_eq_of_mem_set hv).imp id id
  · refine hperm.mem_iff.mpr (List.mem_cons_of_mem _ (List.mem_map.mpr ⟨op, hop, ?_⟩))
    rw [stepped, if_pos rfl]

/-- **A converted result.** -/
theorem edit_convertResult (hf : f.SSAForm) (hop : op ∈ f.ops)
    (hT : (f.types (.opResult op.id k)).isSome) :
    Edit f op.id (replaceUses (.opResult op.id k) (.opResult (freshId f.ops) 0))
        (f.convertResult op.id k r config T' T'') ∧
      op.setAttrs r config ∈ (f.convertResult op.id k r config T' T'').ops := by
  set rename := replaceUses (.opResult op.id k) (.opResult (freshId f.ops) 0) with hrename
  have hoperands : op.operands.map rename = op.operands := by
    conv_rhs => rw [← List.map_id' op.operands]
    refine List.map_congr_left fun v hv => if_neg ?_
    rintro rfl
    exact hf.acyclic op hop k hv
  have hperm : (f.convertResult op.id k r config T' T'').ops.Perm
      (createToLayoutOp (freshId f.ops) (.opResult op.id k) r.tensorLayoutResult.previousValue
        r.tensorBufferTypeResult.previousValue r.tensorMemoryLayoutResult.previousValue
        r.tensorDataTypeResult.previousValue T'' ::
          f.ops.map (stepped op (op.setAttrs r config) rename)) := by
    refine perm_flatMap hf.nodup hop ?_ ?_
    · simp only [stepped, if_true]
      rw [← hrename, hoperands]
      exact List.Perm.swap _ _ _
    · intro o ho
      rw [stepped, if_neg ho, if_neg ho]
  have hfreshType : (f.convertResult op.id k r config T' T'').types
      (.opResult (freshId f.ops) 0) = some T'' := Function.update_self _ _ _
  have htypes : ∀ v, f.Defines v → v ≠ .opResult op.id k →
      (f.convertResult op.id k r config T' T'').types v = f.types v := by
    intro v hv hne
    exact (Function.update_of_ne (hv.ne_fresh 0) _ _).trans (Function.update_of_ne hne _ _)
  constructor
  · refine edit_of_perm hf hop hperm rfl rfl rfl (Or.inr ⟨k, rfl⟩) rfl (fun v hv => Or.inl hv) ?_
      rfl (fun v hv hne => htypes v hv (hne k)) ?_
    · intro v
      by_cases hv : v = .opResult op.id k
      · exact Or.inr ⟨⟨k, hv⟩, if_pos hv⟩
      · exact Or.inl (if_neg hv)
    · intro v hv
      rw [hrename, replaceUses]
      split_ifs with heq
      · rw [hfreshType, heq, hT]
        rfl
      · rw [htypes v hv heq]
  · refine hperm.mem_iff.mpr (List.mem_cons_of_mem _ (List.mem_map.mpr ⟨op, hop, ?_⟩))
    rw [stepped, if_pos rfl]

end Step

/-! ## The loop over the operands -/

variable {op₁ : Op} {qs : List (ℕ × TTNNOperandWorkarounds)}

section Inputs

variable {f g : FuncOp} {op op' : Op} {i : ℕ} {u : Value} {w : TTNNOperandWorkarounds}
  {T : RankedTensorType} {modified modified' : Bool} {ps : List (ℕ × TTNNOperandWorkarounds)}

theorem inputTurn_of_satisfies (hf : f.SSAForm) (hop : op ∈ f.ops)
    (hu : op.operands[i]? = some u) (hT : f.types u = some T) (h : Satisfies w T.encoding) :
    inputTurn f op.id (i, w) = .ok (f, false) := by
  rw [inputTurn]
  split_ifs
  · have hoperand : f.operand op.id i = some u := by
      rw [FuncOp.operand, find?_eq hf hop]
      exact hu
    simp only [workaroundInputOperand, hoperand, hT, (isModified_eq_false_iff _ _).mpr h,
      Bool.false_eq_true, if_false]
  · rfl

theorem inputTurn_of_not_satisfies (hf : f.SSAForm) (hop : op ∈ f.ops)
    (hu : op.operands[i]? = some u) (hT : f.types u = some T) (h : ¬ Satisfies w T.encoding) :
    inputTurn f op.id (i, w) = (applyWorkarounds w T.encoding).targetType T >>= fun T' =>
      .ok (f.convertOperand op.id i u (applyWorkarounds w T.encoding) T', true) := by
  have hany : w.hasAnyWorkaround = true := by
    by_contra hnone
    exact h (satisfies_of_not_hasAnyWorkaround _ (Bool.not_eq_true _ ▸ hnone))
  have hoperand : f.operand op.id i = some u := by
    rw [FuncOp.operand, find?_eq hf hop]
    exact hu
  rw [inputTurn, if_pos hany]
  simp only [workaroundInputOperand, hoperand, hT, (isModified_iff _ _).mpr h, if_true]

/-- What the loop over operands leaves: only the operands it visits are changed, to types that
the workarounds ask for. -/
structure InputsDone (f : FuncOp) (op : Op) (ps : List (ℕ × TTNNOperandWorkarounds)) (g : FuncOp)
    (op' : Op) : Prop where
  edit : Edit f op.id (fun v => v) g
  mem : op' ∈ g.ops
  same : { op' with operands := op.operands } = op
  types : ∀ v, f.Defines v → g.types v = f.types v
  length : op'.operands.length = op.operands.length
  untouched : ∀ j, j ∉ ps.map Prod.fst → op'.operands[j]? = op.operands[j]?
  done : ∀ p ∈ ps, ∀ v T, op.operands[p.1]? = some v → f.types v = some T →
    ∃ v' T', op'.operands[p.1]? = some v' ∧ g.types v' = some T' ∧
      (Satisfies p.2 T.encoding → T' = T) ∧
        (¬ Satisfies p.2 T.encoding → (applyWorkarounds p.2 T.encoding).targetType T = .ok T')

/-- One turn of the loop. -/
theorem exists_inputTurn (hf : f.SSAForm) (hop : op ∈ f.ops) (hu : op.operands[i]? = some u)
    (hT : f.types u = some T) (h : inputTurn f op.id (i, w) = .ok (g, modified)) :
    (modified = true ↔ ¬ Satisfies w T.encoding) ∧ ∃ op', InputsDone f op [(i, w)] g op' := by
  by_cases hs : Satisfies w T.encoding
  · rw [inputTurn_of_satisfies hf hop hu hT hs] at h
    obtain ⟨rfl, rfl⟩ := Prod.mk.inj (Except.ok.inj h)
    refine ⟨iff_of_false (by decide) (not_not.mpr hs), op, ?_⟩
    exact {
      edit := Edit.refl hf _
      mem := hop
      same := rfl
      types := fun _ _ => rfl
      length := rfl
      untouched := fun _ _ => rfl
      done := by
        intro p hp v T₁ hv hT₁
        obtain rfl := List.mem_singleton.mp hp
        obtain rfl := Option.some.inj (hu.symm.trans hv)
        obtain rfl := Option.some.inj (hT.symm.trans hT₁)
        exact ⟨u, T, hu, hT, fun _ => rfl, fun hns => absurd hs hns⟩ }
  · rw [inputTurn_of_not_satisfies hf hop hu hT hs] at h
    obtain ⟨T', hT', h⟩ := except_bind_eq_ok.mp h
    obtain ⟨rfl, rfl⟩ := Prod.mk.inj (Except.ok.inj h)
    refine ⟨iff_of_true rfl hs,
      { op with operands := op.operands.set i (.opResult (freshId f.ops) 0) }, ?_⟩
    obtain ⟨hedit, hmem⟩ := @edit_convertOperand f op u i (applyWorkarounds w T.encoding) T' hf hop hu
    exact {
      edit := hedit
      mem := hmem
      same := rfl
      types := fun v hv => Function.update_of_ne (hv.ne_fresh 0) _ _
      length := List.length_set
      untouched := by
        intro j hj
        exact List.getElem?_set_ne (fun heq => hj (by simp [heq]))
      done := by
        intro p hp v T₁ hv hT₁
        obtain rfl := List.mem_singleton.mp hp
        obtain rfl := Option.some.inj (hu.symm.trans hv)
        obtain rfl := Option.some.inj (hT.symm.trans hT₁)
        refine ⟨.opResult (freshId f.ops) 0, T', ?_, Function.update_self _ _ _,
          fun hsat => absurd hsat hs, fun _ => hT'⟩
        exact List.getElem?_set_self (List.getElem?_eq_some_iff.mp hu).1 }

theorem InputsDone.id_eq (h : InputsDone f op ps g op') : op'.id = op.id := by
  rw [← h.same]

theorem inputSatisfied_iff {p : ℕ × TTNNOperandWorkarounds} (hu : op.operands[p.1]? = some u)
    (hT : f.types u = some T) : f.InputSatisfied op p ↔ Satisfies p.2 T.encoding := by
  constructor
  · intro h
    exact h u T hu hT
  · intro h v T' hv hT'
    obtain rfl := Option.some.inj (hu.symm.trans hv)
    obtain rfl := Option.some.inj (hT.symm.trans hT')
    exact h

/-- Two parts of the loop, over different operands. -/
theorem InputsDone.append {f₁ : FuncOp}
    (hf : f.SSAForm) (hop : op ∈ f.ops) (h : InputsDone f op ps f₁ op₁)
    (h' : InputsDone f₁ op₁ qs g op') (hdisjoint : ∀ p ∈ ps, p.1 ∉ qs.map Prod.fst)
    (hdisjoint' : ∀ q ∈ qs, q.1 ∉ ps.map Prod.fst) : InputsDone f op (ps ++ qs) g op' := by
  have hedit' := h'.edit
  rw [h.id_eq] at hedit'
  have hdefined : ∀ {j : ℕ} {v : Value}, op.operands[j]? = some v → f.Defines v := fun hv =>
    hf.defined op hop _ (List.mem_of_getElem? hv)
  exact {
    edit := h.edit.trans hedit'
    mem := h'.mem
    same := by
      have hsame' := congrArg (fun o : Op => { o with operands := op.operands }) h'.same
      exact hsame'.trans h.same
    types := fun v hv => (h'.types v (h.edit.defines v hv)).trans (h.types v hv)
    length := h'.length.trans h.length
    untouched := by
      intro j hj
      rw [List.map_append, List.mem_append, not_or] at hj
      exact (h'.untouched j hj.2).trans (h.untouched j hj.1)
    done := by
      intro p hp v T hv hT
      rcases List.mem_append.mp hp with hp | hp
      · obtain ⟨v', T', hv', hT', hsame, hconv⟩ := h.done p hp v T hv hT
        refine ⟨v', T', ?_, ?_, hsame, hconv⟩
        · rw [h'.untouched p.1 (hdisjoint p hp), hv']
        · rw [h'.types v' (h.edit.ssa.defined op₁ h.mem v' (List.mem_of_getElem? hv')), hT']
      · refine h'.done p hp v T ?_ ?_
        · rw [h.untouched p.1 (hdisjoint' p hp), hv]
        · rw [h.types v (hdefined hv), hT] }

/-- The operands that the loop visits are tensors. -/
def Visits (f : FuncOp) (op : Op) (ps : List (ℕ × TTNNOperandWorkarounds)) : Prop :=
  (ps.map Prod.fst).Nodup ∧
    ∀ p ∈ ps, ∃ v T, op.operands[p.1]? = some v ∧ f.types v = some T

/-- The operands left to visit are what they were. -/
theorem Visits.tail {p : ℕ × TTNNOperandWorkarounds} (hf : f.SSAForm) (hop : op ∈ f.ops)
    (hvisits : Visits f op (p :: ps)) {f₁ : FuncOp}
    (h : InputsDone f op [p] f₁ op₁) : Visits f₁ op₁ ps ∧ ∀ q ∈ ps,
      op₁.operands[q.1]? = op.operands[q.1]? := by
  obtain ⟨hnodup, htensors⟩ := hvisits
  rw [List.map_cons, List.nodup_cons] at hnodup
  have hsame : ∀ q ∈ ps, op₁.operands[q.1]? = op.operands[q.1]? := by
    intro q hq
    refine h.untouched q.1 ?_
    rw [List.map_singleton, List.mem_singleton]
    rintro heq
    exact hnodup.1 (heq ▸ List.mem_map_of_mem hq)
  refine ⟨⟨hnodup.2, fun q hq => ?_⟩, hsame⟩
  obtain ⟨v, T, hv, hT⟩ := htensors q (List.mem_cons_of_mem _ hq)
  refine ⟨v, T, (hsame q hq).trans hv, ?_⟩
  rw [h.types v (hf.defined op hop v (List.mem_of_getElem? hv)), hT]

section

variable (hf : f.SSAForm) (hop : op ∈ f.ops) (hvisits : Visits f op ps)

include hf hop hvisits

/-- **The loop over the operands**, and its flag: the one of the last operand. -/
theorem exists_inputsDone (h : workaroundInputs f op.id modified ps = .ok (g, modified')) :
    (modified' = true ↔ match ps.getLast? with
      | none => modified = true
      | some p => ¬ f.InputSatisfied op p) ∧ ∃ op', InputsDone f op ps g op' := by
  induction ps generalizing f op modified with
  | nil =>
    obtain ⟨rfl, rfl⟩ := Prod.mk.inj (Except.ok.inj h)
    refine ⟨Iff.rfl, op, ?_⟩
    exact {
      edit := Edit.refl hf _
      mem := hop
      same := rfl
      types := fun _ _ => rfl
      length := rfl
      untouched := fun _ _ => rfl
      done := fun p hp => nomatch hp }
  | cons p ps ih =>
    rw [workaroundInputs] at h
    obtain ⟨⟨f₁, modified₁⟩, hturn, hrest⟩ := except_bind_eq_ok.mp h
    obtain ⟨v, T, hv, hT⟩ := hvisits.2 p List.mem_cons_self
    obtain ⟨hflag, op₁, hdone⟩ := exists_inputTurn hf hop hv hT hturn
    obtain ⟨hvisits₁, hsame⟩ := hvisits.tail hf hop hdone
    have hrest' : workaroundInputs f₁ op₁.id modified₁ ps = .ok (g, modified') := by
      rw [hdone.id_eq]
      exact hrest
    obtain ⟨hflag', op', hdone'⟩ := ih hdone.edit.ssa hdone.mem hvisits₁ hrest'
    have hnodup := hvisits.1
    rw [List.map_cons, List.nodup_cons] at hnodup
    refine ⟨?_, op', ?_⟩
    · rw [hflag']
      cases hlast : ps.getLast? with
      | none =>
        obtain rfl := List.getLast?_eq_none_iff.mp hlast
        exact hflag.trans (not_congr (inputSatisfied_iff hv hT).symm)
      | some q =>
        have hq : q ∈ ps := List.mem_of_getLast? hlast
        obtain ⟨u, T', hu, hT'⟩ := hvisits.2 q (List.mem_cons_of_mem _ hq)
        have hT₁ : f₁.types u = some T' := by
          rw [hdone.types u (hf.defined op hop u (List.mem_of_getElem? hu)), hT']
        rw [List.getLast?_cons, hlast]
        exact not_congr ((inputSatisfied_iff ((hsame q hq).trans hu) hT₁).trans
          (inputSatisfied_iff hu hT').symm)
    · refine hdone.append hf hop hdone' ?_ ?_
      · intro q hq
        rw [List.mem_singleton.mp hq]
        exact hnodup.1
      · intro q hq
        rw [List.map_singleton, List.mem_singleton]
        rintro heq
        exact hnodup.1 (heq ▸ List.mem_map_of_mem hq)

/-- The loop ends when the operands that need it can be converted. -/
theorem workaroundInputs_isOk
    (h : ∀ p ∈ ps, ∀ v T, op.operands[p.1]? = some v → f.types v = some T →
      ¬ Satisfies p.2 T.encoding → ∃ T', (applyWorkarounds p.2 T.encoding).targetType T = .ok T') :
    ∃ s, workaroundInputs f op.id modified ps = .ok s := by
  induction ps generalizing f op modified with
  | nil => exact ⟨_, rfl⟩
  | cons p ps ih =>
    obtain ⟨v, T, hv, hT⟩ := hvisits.2 p List.mem_cons_self
    have hturn : ∃ s, inputTurn f op.id p = .ok s := by
      by_cases hs : Satisfies p.2 T.encoding
      · exact ⟨_, inputTurn_of_satisfies hf hop hv hT hs⟩
      · obtain ⟨T', hT'⟩ := h p List.mem_cons_self v T hv hT hs
        have heq := inputTurn_of_not_satisfies (i := p.1) (w := p.2) hf hop hv hT hs
        rw [hT'] at heq
        exact ⟨_, heq⟩
    obtain ⟨⟨f₁, modified₁⟩, hturn⟩ := hturn
    obtain ⟨-, op₁, hdone⟩ := exists_inputTurn hf hop hv hT hturn
    obtain ⟨hvisits₁, hsame⟩ := hvisits.tail hf hop hdone
    have hih := @ih f₁ op₁ modified₁ hdone.edit.ssa hdone.mem hvisits₁ ?_
    · obtain ⟨s, hs⟩ := hih
      rw [hdone.id_eq] at hs
      exact ⟨s, except_bind_eq_ok.mpr ⟨_, hturn, hs⟩⟩
    · intro q hq u T' hu hT'
      rw [hsame q hq] at hu
      rw [hdone.types u (hf.defined op hop u (List.mem_of_getElem? hu))] at hT'
      exact h q (List.mem_cons_of_mem _ hq) u T' hu hT'

/-- Nothing is changed where every operand satisfies its workarounds. -/
theorem workaroundInputs_of_satisfied (h : ∀ p ∈ ps, f.InputSatisfied op p) :
    ∃ modified', workaroundInputs f op.id modified ps = .ok (f, modified') := by
  induction ps generalizing modified with
  | nil => exact ⟨modified, rfl⟩
  | cons p ps ih =>
    obtain ⟨v, T, hv, hT⟩ := hvisits.2 p List.mem_cons_self
    have hturn := inputTurn_of_satisfies hf hop hv hT
      ((inputSatisfied_iff hv hT).mp (h p List.mem_cons_self))
    obtain ⟨modified', hrest⟩ := @ih false
      ⟨(List.nodup_cons.mp hvisits.1).2, fun q hq => hvisits.2 q (List.mem_cons_of_mem _ hq)⟩
      fun q hq => h q (List.mem_cons_of_mem _ hq)
    exact ⟨modified', except_bind_eq_ok.mpr ⟨_, hturn, hrest⟩⟩

end

end Inputs

/-! ## The loop over the results -/

section Outputs

variable {f g : FuncOp} {op op' : Op} {k : ℕ} {w : TTNNOperandWorkarounds}
  {T : RankedTensorType} {modified modified' : Bool} {ps : List (ℕ × TTNNOperandWorkarounds)}
  {rename : Value → Value}

theorem updateMemoryConfig_of_not_isModified {r : WorkaroundResults} (h : r.isModified = false)
    (config : Option DecomposeLayouts.MemoryConfigAttr) :
    updateMemoryConfig r config = .ok config := by
  simp only [WorkaroundResults.isModified, Bool.or_eq_false_iff] at h
  cases config with
  | none => rfl
  | some config => simp [updateMemoryConfig, h.1.1.2, h.1.2, bind, Except.bind]

theorem outputTurn_of_satisfies (hT : f.types (.opResult op.id k) = some T)
    (h : Satisfies w T.encoding) : outputTurn f op.id (k, w) = .ok (f, false) := by
  rw [outputTurn]
  split_ifs
  · simp only [workaroundOutputOperand, hT, (isModified_eq_false_iff _ _).mpr h,
      Bool.false_eq_true, if_false]
  · rfl

/-- A result that does not satisfy its workarounds is converted, and converted back. -/
theorem outputTurn_of_not_satisfies (hf : f.SSAForm) (hop : op ∈ f.ops)
    (hT : f.types (.opResult op.id k) = some T) (h : ¬ Satisfies w T.encoding) :
    outputTurn f op.id (k, w) = (do
      let T' ← (applyWorkarounds w T.encoding).targetType T
      let config ← updateMemoryConfig (applyWorkarounds w T.encoding) op.memoryConfig
      let T'' ← (applyWorkarounds w T.encoding).previousType T'
      .ok (f.convertResult op.id k (applyWorkarounds w T.encoding) config T' T'', true)) := by
  have hany : w.hasAnyWorkaround = true := by
    by_contra hnone
    exact h (satisfies_of_not_hasAnyWorkaround _ (Bool.not_eq_true _ ▸ hnone))
  have hconfig : f.memoryConfig op.id = op.memoryConfig := by
    rw [FuncOp.memoryConfig, find?_eq hf hop]
    rfl
  rw [outputTurn, if_pos hany]
  simp only [workaroundOutputOperand, hT, hconfig, (isModified_iff _ _).mpr h, if_true]

/-- What the loop over results leaves: only the results it visits are changed, and their users
see them converted back. -/
structure OutputsDone (f : FuncOp) (op : Op) (ps : List (ℕ × TTNNOperandWorkarounds))
    (rename : Value → Value) (g : FuncOp) (op' : Op) : Prop where
  edit : Edit f op.id rename g
  mem : op' ∈ g.ops
  same : { op' with layout := op.layout, dtype := op.dtype, memoryConfig := op.memoryConfig } = op
  config : configAfter f op.id ps op.memoryConfig = .ok op'.memoryConfig
  kept : ∀ j, rename (.opResult op.id j) = .opResult op.id j ∨
    ∀ k, rename (.opResult op.id j) ≠ .opResult op.id k
  untouched : ∀ j, j ∉ ps.map Prod.fst → rename (.opResult op.id j) = .opResult op.id j ∧
    g.types (.opResult op.id j) = f.types (.opResult op.id j)
  done : ∀ p ∈ ps, ∀ T, f.types (.opResult op.id p.1) = some T →
    (Satisfies p.2 T.encoding → rename (.opResult op.id p.1) = .opResult op.id p.1 ∧
      g.types (.opResult op.id p.1) = some T) ∧
    (¬ Satisfies p.2 T.encoding → ∃ T' T'',
      (applyWorkarounds p.2 T.encoding).targetType T = .ok T' ∧
        (applyWorkarounds p.2 T.encoding).previousType T' = .ok T'' ∧
          g.types (.opResult op.id p.1) = some T' ∧
            g.types (rename (.opResult op.id p.1)) = some T'')

theorem OutputsDone.id_eq (h : OutputsDone f op ps rename g op') : op'.id = op.id := by
  rw [← h.same]

variable {p : ℕ × TTNNOperandWorkarounds}

theorem configAfter_cons (f : FuncOp) (id : ℕ)
    (hT : f.types (.opResult id p.1) = some T) (ps : List (ℕ × TTNNOperandWorkarounds))
    (config : Option DecomposeLayouts.MemoryConfigAttr) :
    configAfter f id (p :: ps) config =
      updateMemoryConfig (applyWorkarounds p.2 T.encoding) config >>= configAfter f id ps := by
  simp only [configAfter, List.foldlM_cons, hT]
  rfl

theorem outputSatisfied_iff (hT : f.types (.opResult op.id p.1) = some T) :
    f.OutputSatisfied op p ↔ Satisfies p.2 T.encoding := by
  constructor
  · intro h
    exact h T hT
  · intro h T' hT'
    obtain rfl := Option.some.inj (hT.symm.trans hT')
    exact h

/-- One turn of the loop. -/
theorem exists_outputTurn (hf : f.SSAForm) (hop : op ∈ f.ops)
    (hT : f.types (.opResult op.id k) = some T)
    (h : outputTurn f op.id (k, w) = .ok (g, modified)) :
    (modified = true ↔ ¬ Satisfies w T.encoding) ∧
      ∃ rename op', OutputsDone f op [(k, w)] rename g op' := by
  by_cases hs : Satisfies w T.encoding
  · rw [outputTurn_of_satisfies hT hs] at h
    obtain ⟨rfl, rfl⟩ := Prod.mk.inj (Except.ok.inj h)
    refine ⟨iff_of_false (by decide) (not_not.mpr hs), fun v => v, op, ?_⟩
    exact {
      edit := Edit.refl hf _
      mem := hop
      same := rfl
      config := by
        rw [configAfter_cons f op.id hT,
          updateMemoryConfig_of_not_isModified ((isModified_eq_false_iff _ _).mpr hs)]
        rfl
      kept := fun _ => Or.inl rfl
      untouched := fun _ _ => ⟨rfl, rfl⟩
      done := by
        intro p hp T₁ hT₁
        obtain rfl := List.mem_singleton.mp hp
        obtain rfl := Option.some.inj (hT.symm.trans hT₁)
        exact ⟨fun _ => ⟨rfl, hT⟩, fun hns => absurd hs hns⟩ }
  · rw [outputTurn_of_not_satisfies hf hop hT hs] at h
    obtain ⟨T', hT', h⟩ := except_bind_eq_ok.mp h
    obtain ⟨config, hconfig, h⟩ := except_bind_eq_ok.mp h
    obtain ⟨T'', hT'', h⟩ := except_bind_eq_ok.mp h
    obtain ⟨rfl, rfl⟩ := Prod.mk.inj (Except.ok.inj h)
    refine ⟨iff_of_true rfl hs, replaceUses (.opResult op.id k) (.opResult (freshId f.ops) 0),
      op.setAttrs (applyWorkarounds w T.encoding) config, ?_⟩
    obtain ⟨hedit, hmem⟩ := @edit_convertResult f op k (applyWorkarounds w T.encoding) T' T''
      config hf hop (by rw [hT]; rfl)
    have hne : ∀ j, Value.opResult op.id j ≠ .opResult (freshId f.ops) 0 := fun j =>
      (FuncOp.defines_result hop j).ne_fresh 0
    exact {
      edit := hedit
      mem := hmem
      same := rfl
      config := by
        rw [configAfter_cons f op.id hT, hconfig]
        rfl
      kept := by
        intro j
        rw [replaceUses]
        split_ifs
        · exact Or.inr fun k' => (hne k').symm
        · exact Or.inl rfl
      untouched := by
        intro j hj
        have hjk : Value.opResult op.id j ≠ .opResult op.id k := by
          rintro heq
          exact hj (by simp [(Value.opResult.inj heq).2])
        exact ⟨if_neg hjk,
          (Function.update_of_ne (hne j) _ _).trans (Function.update_of_ne hjk _ _)⟩
      done := by
        intro p hp T₁ hT₁
        obtain rfl := List.mem_singleton.mp hp
        obtain rfl := Option.some.inj (hT.symm.trans hT₁)
        refine ⟨fun hsat => absurd hsat hs, fun _ => ⟨T', T'', hT', hT'', ?_, ?_⟩⟩
        · exact (Function.update_of_ne (hne k) _ _).trans (Function.update_self _ _ _)
        · rw [replaceUses, if_pos rfl]
          exact Function.update_self _ _ _ }

variable {f₁ : FuncOp}

theorem configAfter_congr {id : ℕ}
    (h : ∀ p ∈ ps, f₁.types (.opResult id p.1) = f.types (.opResult id p.1))
    (config : Option DecomposeLayouts.MemoryConfigAttr) :
    configAfter f₁ id ps config = configAfter f id ps config := by
  induction ps generalizing config with
  | nil => rfl
  | cons p ps ih =>
    unfold configAfter at ih ⊢
    rw [List.foldlM_cons, List.foldlM_cons, h p List.mem_cons_self]
    refine congrArg (fun k => _ >>= k) (funext fun c => ?_)
    exact ih (fun q hq => h q (List.mem_cons_of_mem _ hq)) c

theorem configAfter_append {id : ℕ}
    (h : ∀ q ∈ qs, f₁.types (.opResult id q.1) = f.types (.opResult id q.1))
    (config : Option DecomposeLayouts.MemoryConfigAttr) :
    configAfter f id (ps ++ qs) config = configAfter f id ps config >>= configAfter f₁ id qs := by
  rw [configAfter, List.foldlM_append]
  refine congrArg (fun k => configAfter f id ps config >>= k) (funext fun c => ?_)
  exact (configAfter_congr h c).symm

/-- Two parts of the loop, over different results. -/
theorem OutputsDone.append {rename' : Value → Value} (hop : op ∈ f.ops)
    (h : OutputsDone f op ps rename f₁ op₁) (h' : OutputsDone f₁ op₁ qs rename' g op')
    (hdisjoint : ∀ p ∈ ps, p.1 ∉ qs.map Prod.fst) (hdisjoint' : ∀ q ∈ qs, q.1 ∉ ps.map Prod.fst) :
    OutputsDone f op (ps ++ qs) (fun v => rename' (rename v)) g op' := by
  obtain ⟨hedit', hmem', hsame', hconfig', hkept', huntouched', hdone'⟩ := h'
  rw [h.id_eq] at hedit' hconfig' hkept' huntouched' hdone'
  have hqs : ∀ q ∈ qs, f₁.types (.opResult op.id q.1) = f.types (.opResult op.id q.1) :=
    fun q hq => (h.untouched q.1 (hdisjoint' q hq)).2
  -- what a renamed result is, when the second part does not visit it
  have hrename : ∀ j, (rename (.opResult op.id j) = .opResult op.id j → j ∉ qs.map Prod.fst) →
      rename' (rename (.opResult op.id j)) = rename (.opResult op.id j) ∧
        g.types (rename (.opResult op.id j)) = f₁.types (rename (.opResult op.id j)) := by
    intro j hj
    rcases h.kept j with heq | hne
    · rw [heq]
      exact huntouched' j (hj heq)
    · exact hedit'.frame _ (h.edit.maps _ (FuncOp.defines_result hop j)) hne
  exact {
    edit := h.edit.trans hedit'
    mem := hmem'
    same := by
      have hsame := congrArg (fun o : Op => { o with
        layout := op.layout, dtype := op.dtype, memoryConfig := op.memoryConfig }) hsame'
      exact hsame.trans h.same
    config := by
      rw [configAfter_append hqs, h.config]
      exact hconfig'
    kept := by
      intro j
      rcases h.kept j with heq | hne
      · rw [heq]
        exact hkept' j
      · rw [(hrename j fun heq => absurd heq (hne j)).1]
        exact Or.inr hne
    untouched := by
      intro j hj
      rw [List.map_append, List.mem_append, not_or] at hj
      obtain ⟨heq, htypes⟩ := h.untouched j hj.1
      rw [heq]
      exact ⟨(huntouched' j hj.2).1, ((huntouched' j hj.2).2).trans htypes⟩
    done := by
      intro p hp T hT
      rcases List.mem_append.mp hp with hp | hp
      · obtain ⟨hsat, hconv⟩ := h.done p hp T hT
        obtain ⟨hsame, htypes⟩ := huntouched' p.1 (hdisjoint p hp)
        obtain ⟨hsame', htypes'⟩ := hrename p.1 fun _ => hdisjoint p hp
        rw [htypes, hsame', htypes']
        exact ⟨hsat, hconv⟩
      · obtain ⟨heq, htypes⟩ := h.untouched p.1 (hdisjoint' p hp)
        rw [heq]
        exact hdone' p hp T (htypes.trans hT) }

/-- The results that the loop visits are tensors. -/
def VisitsResults (f : FuncOp) (id : ℕ) (ps : List (ℕ × TTNNOperandWorkarounds)) : Prop :=
  (ps.map Prod.fst).Nodup ∧ ∀ p ∈ ps, ∃ T, f.types (.opResult id p.1) = some T

/-- The results left to visit are what they were. -/
theorem VisitsResults.tail (hvisits : VisitsResults f op.id (p :: ps))
    (h : OutputsDone f op [p] rename f₁ op₁) : VisitsResults f₁ op.id ps ∧
      ∀ q ∈ ps, f₁.types (.opResult op.id q.1) = f.types (.opResult op.id q.1) := by
  obtain ⟨hnodup, htensors⟩ := hvisits
  rw [List.map_cons, List.nodup_cons] at hnodup
  have hsame : ∀ q ∈ ps, f₁.types (.opResult op.id q.1) = f.types (.opResult op.id q.1) := by
    intro q hq
    refine (h.untouched q.1 ?_).2
    rw [List.map_singleton, List.mem_singleton]
    rintro heq
    exact hnodup.1 (heq ▸ List.mem_map_of_mem hq)
  refine ⟨⟨hnodup.2, fun q hq => ?_⟩, hsame⟩
  rw [hsame q hq]
  exact htensors q (List.mem_cons_of_mem _ hq)

/-- **The loop over the results**, and its flag: that some result was changed, or the one before
the loop. -/
theorem exists_outputsDone (hf : f.SSAForm) (hop : op ∈ f.ops) (hvisits : VisitsResults f op.id ps)
    (h : workaroundOutputs f op.id modified ps = .ok (g, modified')) :
    (modified' = true ↔ modified = true ∨ ∃ p ∈ ps, ¬ f.OutputSatisfied op p) ∧
      ∃ rename op', OutputsDone f op ps rename g op' := by
  induction ps generalizing f op modified with
  | nil =>
    obtain ⟨rfl, rfl⟩ := Prod.mk.inj (Except.ok.inj h)
    refine ⟨by simp, fun v => v, op, ?_⟩
    exact {
      edit := Edit.refl hf _
      mem := hop
      same := rfl
      config := rfl
      kept := fun _ => Or.inl rfl
      untouched := fun _ _ => ⟨rfl, rfl⟩
      done := fun p hp => nomatch hp }
  | cons p ps ih =>
    obtain ⟨⟨f₁, modified₁⟩, hturn, hrest⟩ := except_bind_eq_ok.mp h
    obtain ⟨T, hT⟩ := hvisits.2 p List.mem_cons_self
    obtain ⟨hflag, rename, op₁, hdone⟩ := exists_outputTurn hf hop hT hturn
    obtain ⟨hvisits₁, hsame⟩ := hvisits.tail hdone
    have hrest' : workaroundOutputs f₁ op₁.id (modified || modified₁) ps = .ok (g, modified') := by
      rw [hdone.id_eq]
      exact hrest
    rw [← hdone.id_eq] at hvisits₁
    obtain ⟨hflag', rename', op', hdone'⟩ := ih hdone.edit.ssa hdone.mem hvisits₁ hrest'
    have hnodup := hvisits.1
    rw [List.map_cons, List.nodup_cons] at hnodup
    have hrest_iff : (∃ q ∈ ps, ¬ f₁.OutputSatisfied op₁ q) ↔
        ∃ q ∈ ps, ¬ f.OutputSatisfied op q := by
      refine exists_congr fun q => and_congr_right fun hq => not_congr ?_
      rw [FuncOp.OutputSatisfied, FuncOp.OutputSatisfied, hdone.id_eq, hsame q hq]
    refine ⟨?_, fun v => rename' (rename v), op', ?_⟩
    · rw [hflag', hrest_iff, Bool.or_eq_true, hflag, ← outputSatisfied_iff hT, or_assoc]
      refine or_congr_right ?_
      simp only [List.mem_cons, exists_eq_or_imp]
    · refine hdone.append hop hdone' ?_ ?_
      · intro q hq
        rw [List.mem_singleton.mp hq]
        exact hnodup.1
      · intro q hq
        rw [List.map_singleton, List.mem_singleton]
        rintro heq
        exact hnodup.1 (heq ▸ List.mem_map_of_mem hq)

/-- The loop ends when the results that need it can be converted there and back. -/
theorem workaroundOutputs_isOk (hf : f.SSAForm) (hop : op ∈ f.ops)
    (hvisits : VisitsResults f op.id ps)
    (h : ∀ p ∈ ps, ∀ T, f.types (.opResult op.id p.1) = some T → ¬ Satisfies p.2 T.encoding →
      ∃ T' T'', (applyWorkarounds p.2 T.encoding).targetType T = .ok T' ∧
        (applyWorkarounds p.2 T.encoding).previousType T' = .ok T'')
    (hconfig : ∃ config, configAfter f op.id ps op.memoryConfig = .ok config) :
    ∃ s, workaroundOutputs f op.id modified ps = .ok s := by
  induction ps generalizing f op modified with
  | nil => exact ⟨_, rfl⟩
  | cons p ps ih =>
    obtain ⟨T, hT⟩ := hvisits.2 p List.mem_cons_self
    obtain ⟨config, hconfig⟩ := hconfig
    rw [configAfter_cons f op.id hT] at hconfig
    obtain ⟨config₁, hconfig₁, hconfig⟩ := except_bind_eq_ok.mp hconfig
    have hturn : ∃ s, outputTurn f op.id p = .ok s := by
      by_cases hs : Satisfies p.2 T.encoding
      · exact ⟨_, outputTurn_of_satisfies hT hs⟩
      · obtain ⟨T', T'', hT', hT''⟩ := h p List.mem_cons_self T hT hs
        have heq := outputTurn_of_not_satisfies (k := p.1) (w := p.2) hf hop hT hs
        exact ⟨_, heq.trans (except_bind_eq_ok.mpr ⟨T', hT', except_bind_eq_ok.mpr
          ⟨config₁, hconfig₁, except_bind_eq_ok.mpr ⟨T'', hT'', rfl⟩⟩⟩)⟩
    obtain ⟨⟨f₁, modified₁⟩, hturn⟩ := hturn
    obtain ⟨-, rename, op₁, hdone⟩ := exists_outputTurn hf hop hT hturn
    obtain ⟨hvisits₁, hsame⟩ := hvisits.tail hdone
    have hid := hdone.id_eq
    have hih := @ih f₁ op₁ (modified || modified₁) hdone.edit.ssa hdone.mem (hid.symm ▸ hvisits₁)
      ?_ ?_
    · obtain ⟨s, hs⟩ := hih
      rw [hid] at hs
      exact ⟨s, except_bind_eq_ok.mpr ⟨_, hturn, hs⟩⟩
    · intro q hq T' hT'
      rw [hid, hsame q hq] at hT'
      exact h q (List.mem_cons_of_mem _ hq) T' hT'
    · have hafter := hdone.config
      rw [configAfter_cons f op.id hT, hconfig₁] at hafter
      obtain rfl : config₁ = op₁.memoryConfig := Except.ok.inj hafter
      refine ⟨config, ?_⟩
      rw [hid, configAfter_congr hsame]
      exact hconfig

/-- Nothing is changed where every result satisfies its workarounds. -/
theorem workaroundOutputs_of_satisfied (hvisits : VisitsResults f op.id ps)
    (h : ∀ p ∈ ps, f.OutputSatisfied op p) :
    workaroundOutputs f op.id modified ps = .ok (f, modified) := by
  induction ps with
  | nil => rfl
  | cons p ps ih =>
    obtain ⟨T, hT⟩ := hvisits.2 p List.mem_cons_self
    have hturn := outputTurn_of_satisfies (w := p.2) hT
      ((outputSatisfied_iff hT).mp (h p List.mem_cons_self))
    refine except_bind_eq_ok.mpr ⟨_, hturn, ?_⟩
    rw [Bool.or_false]
    exact ih ⟨(List.nodup_cons.mp hvisits.1).2, fun q hq => hvisits.2 q (List.mem_cons_of_mem _ hq)⟩
      fun q hq => h q (List.mem_cons_of_mem _ hq)

end Outputs

/-! ## One application of the pattern -/

section Match

variable {table : ℕ → TTNNOperandsWorkarounds} {f g : FuncOp} {op op' : Op}
  {modified : Bool} {rename : Value → Value}

/-- The entries of a zipped list of positions. -/
theorem map_fst_zip_nodup {α : Type} {l : List ℕ} {ws : List α} (hl : l.Nodup) :
    ((l.zip ws).map Prod.fst).Nodup := by
  induction l generalizing ws with
  | nil => exact List.nodup_nil
  | cons i l ih =>
    cases ws with
    | nil => exact List.nodup_nil
    | cons w ws =>
      rw [List.nodup_cons] at hl
      refine List.nodup_cons.mpr ⟨?_, ih hl.2⟩
      intro hmem
      obtain ⟨p, hp, heq⟩ := List.mem_map.mp hmem
      have hin := (List.of_mem_zip (a := p.1) (b := p.2) hp).1
      rw [show p.1 = i from heq] at hin
      exact hl.1 hin

theorem visits_inputPairs (table : ℕ → TTNNOperandsWorkarounds) (f : FuncOp) (op : Op) :
    Visits f op (f.inputPairs table op) := by
  refine ⟨map_fst_zip_nodup (List.nodup_range.filter _), fun p hp => ?_⟩
  have hmem := (List.of_mem_zip (a := p.1) (b := p.2) hp).1
  rw [FuncOp.tensorOperands, List.mem_filter, Option.isSome_iff_exists] at hmem
  obtain ⟨-, T, hT⟩ := hmem
  obtain ⟨v, hv, hT⟩ := Option.bind_eq_some_iff.mp hT
  exact ⟨v, T, hv, hT⟩

theorem visits_outputPairs (table : ℕ → TTNNOperandsWorkarounds) (f : FuncOp) (op : Op) :
    VisitsResults f op.id (f.outputPairs table op) := by
  refine ⟨map_fst_zip_nodup (List.nodup_range.filter _), fun p hp => ?_⟩
  have hmem := (List.of_mem_zip (a := p.1) (b := p.2) hp).1
  rw [FuncOp.tensorResults, List.mem_filter, Option.isSome_iff_exists] at hmem
  exact hmem.2

theorem matchAndRewrite_eq (hf : f.WellFormed table) (hop : op ∈ f.ops)
    (hkind : op.isToLayout = false) :
    matchAndRewrite table f op = (workaroundInputs f op.id false (f.inputPairs table op) >>=
      fun s => workaroundOutputs s.1 op.id s.2 (f.outputPairs table op)) := by
  have hinputs := hf.inputs op hop hkind
  have houtputs := hf.outputs op hop hkind
  rw [matchAndRewrite, hkind, if_neg (by decide)]
  simp only [hinputs, houtputs, ne_eq, not_true_eq_false, if_false]
  rfl

/-- **What an application leaves**: the operands and the results that need it are converted. -/
structure MatchDone (table : ℕ → TTNNOperandsWorkarounds) (f : FuncOp) (op : Op)
    (rename : Value → Value) (g : FuncOp) (op' : Op) : Prop where
  edit : Edit f op.id rename g
  mem : op' ∈ g.ops
  id_eq : op'.id = op.id
  kind_eq : op'.kind = op.kind
  numResults_eq : op'.numResults = op.numResults
  config : configAfter f op.id (f.outputPairs table op) op.memoryConfig = .ok op'.memoryConfig
  length : op'.operands.length = op.operands.length
  untouched : ∀ j, j ∉ (f.inputPairs table op).map Prod.fst → op'.operands[j]? = op.operands[j]?
  inputs : ∀ p ∈ f.inputPairs table op, ∀ v T, op.operands[p.1]? = some v → f.types v = some T →
    ∃ v' T', op'.operands[p.1]? = some v' ∧ g.types v' = some T' ∧
      (Satisfies p.2 T.encoding → T' = T) ∧
        (¬ Satisfies p.2 T.encoding → (applyWorkarounds p.2 T.encoding).targetType T = .ok T')
  untouchedResults : ∀ j, j ∉ (f.outputPairs table op).map Prod.fst →
    rename (.opResult op.id j) = .opResult op.id j ∧
      g.types (.opResult op.id j) = f.types (.opResult op.id j)
  outputs : ∀ p ∈ f.outputPairs table op, ∀ T, f.types (.opResult op.id p.1) = some T →
    (Satisfies p.2 T.encoding → rename (.opResult op.id p.1) = .opResult op.id p.1 ∧
      g.types (.opResult op.id p.1) = some T) ∧
    (¬ Satisfies p.2 T.encoding → ∃ T' T'',
      (applyWorkarounds p.2 T.encoding).targetType T = .ok T' ∧
        (applyWorkarounds p.2 T.encoding).previousType T' = .ok T'' ∧
          g.types (.opResult op.id p.1) = some T' ∧
            g.types (rename (.opResult op.id p.1)) = some T'')

/-- **One application**, and its flag. -/
theorem exists_matchDone (hf : f.WellFormed table) (hop : op ∈ f.ops)
    (hkind : op.isToLayout = false) (h : matchAndRewrite table f op = .ok (g, modified)) :
    (modified = true ↔ (∃ p, (f.inputPairs table op).getLast? = some p ∧ ¬ f.InputSatisfied op p) ∨
        ∃ p ∈ f.outputPairs table op, ¬ f.OutputSatisfied op p) ∧
      ∃ rename op', MatchDone table f op rename g op' := by
  rw [matchAndRewrite_eq hf hop hkind] at h
  obtain ⟨⟨f₁, modified₁⟩, hinputs, houtputs⟩ := except_bind_eq_ok.mp h
  obtain ⟨hflag₁, op₁, hdone₁⟩ :=
    exists_inputsDone hf.ssa hop (visits_inputPairs table f op) hinputs
  have hid := hdone₁.id_eq
  have hresults : ∀ k, f₁.types (.opResult op.id k) = f.types (.opResult op.id k) := fun k =>
    hdone₁.types _ (FuncOp.defines_result hop k)
  have hvisits : VisitsResults f₁ op₁.id (f.outputPairs table op) := by
    refine ⟨(visits_outputPairs table f op).1, fun p hp => ?_⟩
    rw [hid, hresults]
    exact (visits_outputPairs table f op).2 p hp
  have houtputs' : workaroundOutputs f₁ op₁.id modified₁ (f.outputPairs table op) =
      .ok (g, modified) := by
    rw [hid]
    exact houtputs
  obtain ⟨hflag, rename, op', hdone⟩ := exists_outputsDone hdone₁.edit.ssa hdone₁.mem hvisits houtputs'
  obtain ⟨hedit, hmem, hsame, hconfig, hkept, huntouched, houts⟩ := hdone
  rw [hid] at hedit hconfig huntouched houts
  have hoperands : op'.operands = op₁.operands := by
    rw [← hsame]
  refine ⟨?_, rename, op', ?_⟩
  · rw [hflag, hflag₁]
    refine or_congr ?_ (exists_congr fun p => and_congr_right fun _ => not_congr ?_)
    · cases hlast : (f.inputPairs table op).getLast? with
      | none => simp
      | some p => simp
    · rw [FuncOp.OutputSatisfied, FuncOp.OutputSatisfied, hid, hresults]
  · exact {
      edit := hdone₁.edit.trans hedit
      mem := hmem
      id_eq := by
        rw [← hid, ← hsame]
      kind_eq := by
        rw [← hdone₁.same, ← hsame]
      numResults_eq := by
        rw [← hdone₁.same, ← hsame]
      config := by
        rw [← hconfig, configAfter_congr fun p _ => hresults p.1, ← hdone₁.same]
      length := by
        rw [hoperands]
        exact hdone₁.length
      untouched := by
        rw [hoperands]
        exact hdone₁.untouched
      inputs := by
        intro p hp v T hv hT
        obtain ⟨v', T', hv', hT', hrest⟩ := hdone₁.done p hp v T hv hT
        refine ⟨v', T', by rw [hoperands, hv'], ?_, hrest⟩
        have hmem' := List.mem_of_getElem? hv'
        rw [(hedit.frame v' (hdone₁.edit.ssa.defined op₁ hdone₁.mem v' hmem') ?_).2, hT']
        rintro k rfl
        rw [← hid] at hmem'
        exact hdone₁.edit.ssa.acyclic op₁ hdone₁.mem k hmem'
      untouchedResults := by
        intro j hj
        obtain ⟨heq, htypes⟩ := huntouched j hj
        exact ⟨heq, htypes.trans (hresults j)⟩
      outputs := fun p hp T hT => houts p hp T ((hresults p.1).trans hT) }

theorem tensorOperands_congr (hlen : op'.operands.length = op.operands.length)
    (h : ∀ i : ℕ, (op'.operands[i]?.bind g.types).isSome = (op.operands[i]?.bind f.types).isSome) :
    g.tensorOperands op' = f.tensorOperands op := by
  rw [FuncOp.tensorOperands, FuncOp.tensorOperands, hlen]
  exact List.filter_congr fun i _ => h i

theorem tensorResults_congr (hid : op'.id = op.id) (hnum : op'.numResults = op.numResults)
    (h : ∀ k, (g.types (.opResult op.id k)).isSome = (f.types (.opResult op.id k)).isSome) :
    g.tensorResults op' = f.tensorResults op := by
  rw [FuncOp.tensorResults, FuncOp.tensorResults, hid, hnum]
  exact List.filter_congr fun k _ => h k

section

variable (hf : f.SSAForm) (hop : op ∈ f.ops) (h : MatchDone table f op rename g op')

include hf hop h

theorem MatchDone.types_untouched {j : ℕ} (hj : j ∉ (f.inputPairs table op).map Prod.fst) :
    op'.operands[j]?.bind g.types = op.operands[j]?.bind f.types := by
  rw [h.untouched j hj]
  cases hv : op.operands[j]? with
  | none => rfl
  | some v =>
    have hmem := List.mem_of_getElem? hv
    refine (h.edit.frame v (hf.defined op hop v hmem) ?_).2
    rintro k rfl
    exact hf.acyclic op hop k hmem

/-- The rewritten operation reads and gives tensors where the operation did. -/
theorem MatchDone.tensors_eq :
    g.tensorOperands op' = f.tensorOperands op ∧ g.tensorResults op' = f.tensorResults op := by
  constructor
  · refine tensorOperands_congr h.length fun i => ?_
    by_cases hi : i ∈ (f.inputPairs table op).map Prod.fst
    · obtain ⟨p, hp, rfl⟩ := List.mem_map.mp hi
      obtain ⟨v, T, hv, hT⟩ := (visits_inputPairs table f op).2 p hp
      obtain ⟨v', T', hv', hT', -⟩ := h.inputs p hp v T hv hT
      rw [hv, hv', Option.bind_some, Option.bind_some, hT, hT']
      rfl
    · rw [h.types_untouched hf hop hi]
  · refine tensorResults_congr h.id_eq h.numResults_eq fun k => ?_
    by_cases hk : k ∈ (f.outputPairs table op).map Prod.fst
    · obtain ⟨p, hp, rfl⟩ := List.mem_map.mp hk
      obtain ⟨T, hT⟩ := (visits_outputPairs table f op).2 p hp
      obtain ⟨hsat, hconv⟩ := h.outputs p hp T hT
      rw [hT]
      by_cases hs : Satisfies p.2 T.encoding
      · rw [(hsat hs).2]
      · obtain ⟨T', -, -, -, hT', -⟩ := hconv hs
        rw [hT']
        rfl
    · rw [(h.untouchedResults k hk).2]

theorem MatchDone.pairs_eq : g.inputPairs table op' = f.inputPairs table op ∧
      g.outputPairs table op' = f.outputPairs table op := by
  obtain ⟨hinputs, houtputs⟩ := h.tensors_eq hf hop
  rw [FuncOp.inputPairs, FuncOp.outputPairs, hinputs, houtputs, h.id_eq]
  exact ⟨rfl, rfl⟩

/-- **The rewritten operation satisfies its table** exactly when the workarounds can be applied
to what did not satisfy them. -/
theorem MatchDone.satisfied_iff : g.Satisfied table op' ↔
      (∀ p ∈ f.inputPairs table op, ∀ v T, op.operands[p.1]? = some v → f.types v = some T →
        ¬ Satisfies p.2 T.encoding → Applicable p.2 (applyWorkarounds p.2 T.encoding) T) ∧
      ∀ p ∈ f.outputPairs table op, ∀ T, f.types (.opResult op.id p.1) = some T →
        ¬ Satisfies p.2 T.encoding → Applicable p.2 (applyWorkarounds p.2 T.encoding) T := by
  obtain ⟨hinputs, houtputs⟩ := h.pairs_eq hf hop
  constructor
  · rintro ⟨hins, houts⟩
    rw [hinputs] at hins
    rw [houtputs] at houts
    constructor
    · intro p hp v T hv hT hs
      obtain ⟨v', T', hv', hT', -, hconv⟩ := h.inputs p hp v T hv hT
      exact applicable_iff.mpr ⟨T', hconv hs, hins p hp v' T' hv' hT'⟩
    · intro p hp T hT hs
      obtain ⟨T', T'', htarget, -, hT', -⟩ := (h.outputs p hp T hT).2 hs
      refine applicable_iff.mpr ⟨T', htarget, houts p hp T' ?_⟩
      rw [h.id_eq, hT']
  · rintro ⟨hins, houts⟩
    constructor
    · rw [hinputs]
      intro p hp v₁ T₁ hv₁ hT₁
      obtain ⟨v, T, hv, hT⟩ := (visits_inputPairs table f op).2 p hp
      obtain ⟨v', T', hv', hT', hsat, hconv⟩ := h.inputs p hp v T hv hT
      obtain rfl := Option.some.inj (hv'.symm.trans hv₁)
      obtain rfl := Option.some.inj (hT'.symm.trans hT₁)
      by_cases hs : Satisfies p.2 T.encoding
      · rw [hsat hs]
        exact hs
      · obtain ⟨T'', htarget, hsatisfies⟩ := applicable_iff.mp (hins p hp v T hv hT hs)
        obtain rfl := Except.ok.inj ((hconv hs).symm.trans htarget)
        exact hsatisfies
    · rw [houtputs]
      intro p hp T₁ hT₁
      rw [h.id_eq] at hT₁
      obtain ⟨T, hT⟩ := (visits_outputPairs table f op).2 p hp
      obtain ⟨hsat, hconv⟩ := h.outputs p hp T hT
      by_cases hs : Satisfies p.2 T.encoding
      · obtain rfl := Option.some.inj ((hsat hs).2.symm.trans hT₁)
        exact hs
      · obtain ⟨T', -, htarget, -, hT', -⟩ := hconv hs
        obtain rfl := Option.some.inj (hT'.symm.trans hT₁)
        obtain ⟨T'', htarget', hsatisfies⟩ := applicable_iff.mp (houts p hp T hT hs)
        obtain rfl := Except.ok.inj (htarget.symm.trans htarget')
        exact hsatisfies

end

/-- The pattern changes nothing where the table is satisfied. -/
theorem matchAndRewrite_of_satisfied (hf : f.WellFormed table) (hop : op ∈ f.ops)
    (h : op.isToLayout = false → f.Satisfied table op) :
    matchAndRewrite table f op = .ok (f, false) := by
  cases hkind : op.isToLayout with
  | true => rw [matchAndRewrite, if_pos hkind]
  | false =>
    obtain ⟨hins, houts⟩ := h hkind
    obtain ⟨modified, hinputs⟩ := @workaroundInputs_of_satisfied f op false _ hf.ssa hop
      (visits_inputPairs table f op) hins
    have houtputs := @workaroundOutputs_of_satisfied f op modified _
      (visits_outputPairs table f op) houts
    have heq : matchAndRewrite table f op = .ok (f, modified) := by
      rw [matchAndRewrite_eq hf hop hkind]
      exact except_bind_eq_ok.mpr ⟨_, hinputs, houtputs⟩
    have hflag := (exists_matchDone hf hop hkind heq).1
    have hfalse : modified = false := by
      refine Bool.eq_false_iff.mpr fun htrue => ?_
      rcases hflag.mp htrue with ⟨p, hp, hns⟩ | ⟨p, hp, hns⟩
      · exact hns (hins p (List.mem_of_getLast? hp))
      · exact hns (houts p hp)
    rw [heq, hfalse]

/-- The pattern succeeds on workable operations. -/
theorem matchAndRewrite_isOk (hf : f.WellFormed table) (hop : op ∈ f.ops)
    (h : op.isToLayout = false → Workable table f op) :
    ∃ s, matchAndRewrite table f op = .ok s := by
  cases hkind : op.isToLayout with
  | true => exact ⟨_, if_pos hkind⟩
  | false =>
    have hw := h hkind
    obtain ⟨⟨f₁, modified₁⟩, hinputs⟩ := @workaroundInputs_isOk f op false _ hf.ssa hop
      (visits_inputPairs table f op) fun p hp v T hv hT hs =>
        (applicable_iff.mp (hw.inputs p hp v T hv hT hs)).imp fun _ h => h.1
    obtain ⟨-, op₁, hdone₁⟩ := exists_inputsDone hf.ssa hop (visits_inputPairs table f op) hinputs
    have hresults : ∀ k, f₁.types (.opResult op.id k) = f.types (.opResult op.id k) := fun k =>
      hdone₁.types _ (FuncOp.defines_result hop k)
    have hid := hdone₁.id_eq
    have houtputs := @workaroundOutputs_isOk f₁ op₁ modified₁ (f.outputPairs table op)
      hdone₁.edit.ssa hdone₁.mem ?_ ?_ ?_
    · obtain ⟨s, hs⟩ := houtputs
      rw [hid] at hs
      refine ⟨s, ?_⟩
      rw [matchAndRewrite_eq hf hop hkind]
      exact except_bind_eq_ok.mpr ⟨_, hinputs, hs⟩
    · refine ⟨(visits_outputPairs table f op).1, fun p hp => ?_⟩
      rw [hid, hresults]
      exact (visits_outputPairs table f op).2 p hp
    · intro p hp T hT hs
      rw [hid, hresults] at hT
      obtain ⟨happlicable, hreverts, -⟩ := hw.outputs p hp T hT hs
      obtain ⟨T', hT', -⟩ := applicable_iff.mp happlicable
      obtain ⟨T'', hT''⟩ := (reverts_iff hT').mp hreverts
      exact ⟨T', T'', hT', hT''⟩
    · obtain ⟨config, hconfig⟩ := hw.config
      refine ⟨config, ?_⟩
      rw [hid, configAfter_congr fun p _ => hresults p.1, ← hconfig, ← hdone₁.same]

/-- **Users see the types they saw**: a result of a workable operation that is read is converted
back to what it was. -/
theorem MatchDone.types_rename (h : MatchDone table f op rename g op') (hw : Workable table f op)
    (hv : f.Defines v) (hused : f.Used v) : g.types (rename v) = f.types v := by
  by_cases hres : ∃ k, v = .opResult op.id k
  · obtain ⟨k, rfl⟩ := hres
    by_cases hk : k ∈ (f.outputPairs table op).map Prod.fst
    · obtain ⟨p, hp, rfl⟩ := List.mem_map.mp hk
      obtain ⟨T, hT⟩ := (visits_outputPairs table f op).2 p hp
      obtain ⟨hsat, hconv⟩ := h.outputs p hp T hT
      by_cases hs : Satisfies p.2 T.encoding
      · obtain ⟨heq, htypes⟩ := hsat hs
        rw [heq, htypes, hT]
      · obtain ⟨T', T'', htarget, hprevious, -, hT''⟩ := hconv hs
        obtain ⟨-, hreverts, hregular⟩ := hw.outputs p hp T hT hs
        have hback := (regular_iff htarget).mpr ⟨hreverts, hregular hused⟩
        rw [hT'', hT, Except.ok.inj (hprevious.symm.trans hback)]
    · obtain ⟨heq, htypes⟩ := h.untouchedResults k hk
      rw [heq, htypes]
  · obtain ⟨heq, htypes⟩ := h.edit.frame v hv fun k hk => hres ⟨k, hk⟩
    rw [heq, htypes]

end Match

/-! ## The other operations -/

/-- **An operation that is seen as it was**: it reads and gives values of the same types. -/
structure View (f : FuncOp) (o : Op) (g : FuncOp) (o' : Op) : Prop where
  id_eq : o'.id = o.id
  kind_eq : o'.kind = o.kind
  numResults_eq : o'.numResults = o.numResults
  memoryConfig_eq : o'.memoryConfig = o.memoryConfig
  operands : o'.operands.map g.types = o.operands.map f.types
  results : ∀ k, g.types (.opResult o.id k) = f.types (.opResult o.id k)
  used : ∀ k, g.Used (.opResult o.id k) → f.Used (.opResult o.id k)

namespace View

variable {table : ℕ → TTNNOperandsWorkarounds} {f g g' : FuncOp} {o o' o'' : Op}

theorem refl (f : FuncOp) (o : Op) : View f o f o :=
  ⟨rfl, rfl, rfl, rfl, rfl, fun _ => rfl, fun _ h => h⟩

theorem trans (h : View f o g o') (h' : View g o' g' o'') : View f o g' o'' where
  id_eq := h'.id_eq.trans h.id_eq
  kind_eq := h'.kind_eq.trans h.kind_eq
  numResults_eq := h'.numResults_eq.trans h.numResults_eq
  memoryConfig_eq := h'.memoryConfig_eq.trans h.memoryConfig_eq
  operands := h'.operands.trans h.operands
  results k := by
    have hresults := h'.results k
    rw [h.id_eq] at hresults
    exact hresults.trans (h.results k)
  used k hused := by
    have hused' := h'.used k
    rw [h.id_eq] at hused'
    exact h.used k (hused' hused)

theorem length_eq (h : View f o g o') : o'.operands.length = o.operands.length := by
  have hlen := congrArg List.length h.operands
  rwa [List.length_map, List.length_map] at hlen

/-- The type of an operand. -/
theorem type_operand (h : View f o g o') (i : ℕ) :
    o'.operands[i]?.bind g.types = o.operands[i]?.bind f.types := by
  have hmap := congrArg (fun l : List (Option RankedTensorType) => l[i]?) h.operands
  simp only [List.getElem?_map] at hmap
  cases hv : o'.operands[i]? with
  | none =>
    rw [hv] at hmap
    rw [Option.map_eq_none_iff.mp hmap.symm]
    rfl
  | some v =>
    rw [hv] at hmap
    obtain ⟨u, hu, heq⟩ := Option.map_eq_some_iff.mp hmap.symm
    rw [hu]
    exact heq.symm

theorem isToLayout_eq (h : View f o g o') : o'.isToLayout = o.isToLayout := by
  rw [Op.isToLayout, Op.isToLayout, h.kind_eq]

theorem tensors_eq (h : View f o g o') :
    g.tensorOperands o' = f.tensorOperands o ∧ g.tensorResults o' = f.tensorResults o :=
  ⟨tensorOperands_congr h.length_eq fun i => congrArg Option.isSome (h.type_operand i),
    tensorResults_congr h.id_eq h.numResults_eq fun k => congrArg Option.isSome (h.results k)⟩

theorem pairs_eq (table : ℕ → TTNNOperandsWorkarounds) (h : View f o g o') :
    g.inputPairs table o' = f.inputPairs table o ∧
      g.outputPairs table o' = f.outputPairs table o := by
  rw [FuncOp.inputPairs, FuncOp.outputPairs, h.tensors_eq.1, h.tensors_eq.2, h.id_eq]
  exact ⟨rfl, rfl⟩

theorem exists_operand (h : View f o g o') {i : ℕ} {T : RankedTensorType}
    (hv : o'.operands[i]? = some v) (hT : g.types v = some T) :
    ∃ u, o.operands[i]? = some u ∧ f.types u = some T := by
  have htype := h.type_operand i
  rw [hv, Option.bind_some, hT] at htype
  exact Option.bind_eq_some_iff.mp htype.symm

theorem inputSatisfied_iff (h : View f o g o') (p : ℕ × TTNNOperandWorkarounds) :
    g.InputSatisfied o' p ↔ f.InputSatisfied o p := by
  constructor
  · intro hsat u T hu hT
    have htype := h.type_operand p.1
    rw [hu, Option.bind_some, hT] at htype
    obtain ⟨v, hv, hT'⟩ := Option.bind_eq_some_iff.mp htype
    exact hsat v T hv hT'
  · intro hsat v T hv hT
    obtain ⟨u, hu, hT'⟩ := h.exists_operand hv hT
    exact hsat u T hu hT'

theorem outputSatisfied_iff (h : View f o g o') (p : ℕ × TTNNOperandWorkarounds) :
    g.OutputSatisfied o' p ↔ f.OutputSatisfied o p := by
  rw [FuncOp.OutputSatisfied, FuncOp.OutputSatisfied, h.id_eq, h.results]

theorem satisfied (h : View f o g o') (hsat : f.Satisfied table o) : g.Satisfied table o' := by
  obtain ⟨hinputs, houtputs⟩ := h.pairs_eq table
  constructor
  · rw [hinputs]
    exact fun p hp => (h.inputSatisfied_iff p).mpr (hsat.inputs p hp)
  · rw [houtputs]
    exact fun p hp => (h.outputSatisfied_iff p).mpr (hsat.outputs p hp)

/-- An operation that is seen as it was is workable when it was. -/
theorem workable (h : View f o g o') (hw : Workable table f o) : Workable table g o' := by
  obtain ⟨hinputs, houtputs⟩ := h.pairs_eq table
  constructor
  · rw [hinputs]
    intro p hp v T hv hT
    obtain ⟨u, hu, hT'⟩ := h.exists_operand hv hT
    exact hw.inputs p hp u T hu hT'
  · rw [houtputs]
    intro p hp T hT hs
    rw [h.id_eq, h.results] at hT
    obtain ⟨happlicable, hreverts, hregular⟩ := hw.outputs p hp T hT hs
    refine ⟨happlicable, hreverts, fun hused => hregular ?_⟩
    rw [h.id_eq] at hused
    exact h.used p.1 hused
  · obtain ⟨config, hconfig⟩ := hw.config
    refine ⟨config, ?_⟩
    rw [houtputs, h.id_eq, h.memoryConfig_eq, configAfter_congr fun p _ => h.results p.1, hconfig]
  · rw [hinputs, houtputs]
    simp only [h.inputSatisfied_iff, h.outputSatisfied_iff]
    exact hw.reported

end View

/-! ## Runs -/

section Run

variable {table : ℕ → TTNNOperandsWorkarounds} {f g : FuncOp} {op op' : Op} {modified : Bool}
  {rename : Value → Value}

/-- Operations other than the one that is edited are seen as they were. -/
theorem Edit.view (h : Edit f op.id rename g) (hf : f.SSAForm)
    (hkept : ∀ v, f.Defines v → f.Used v → g.types (rename v) = f.types v) {o : Op}
    (ho : o ∈ f.ops) (hne : o.id ≠ op.id) :
    View f o g { o with operands := o.operands.map rename } := by
  have hother : ∀ k j, Value.opResult o.id k ≠ .opResult op.id j := fun k j heq =>
    hne (Value.opResult.inj heq).1
  constructor
  · rfl
  · rfl
  · rfl
  · rfl
  · rw [List.map_map]
    exact List.map_congr_left fun v hv => hkept v (hf.defined o ho v hv) (Or.inl ⟨o, ho, hv⟩)
  · exact fun k => (h.frame _ (FuncOp.defines_result ho k) (hother k)).2
  · exact fun k => h.used _ (FuncOp.defines_result ho k) (hother k)

/-- **What holds between the steps of a run** from a function whose operations are workable. -/
structure Between (table : ℕ → TTNNOperandsWorkarounds) (f : FuncOp) (ids : List ℕ)
    (g : FuncOp) : Prop where
  wellFormed : g.WellFormed table
  workable : ∀ o ∈ g.ops, o.isToLayout = false → Workable table g o
  satisfied : ∀ o ∈ g.ops, o.isToLayout = false → o.id ∈ ids → g.Satisfied table o
  users : ∀ o ∈ f.ops, o.id ∉ ids → ∃ o' ∈ g.ops, View f o g o'
  origin : ∀ o' ∈ g.ops, o'.isToLayout = false →
    ∃ o ∈ f.ops, o.isToLayout = false ∧ o.id = o'.id
  returns : g.returns.map g.types = f.returns.map f.types

/-- An operation that satisfies its table is workable. -/
theorem workable_of_satisfied (h : f.Satisfied table op) : Workable table f op := by
  constructor
  · intro p hp v T hv hT hs
    exact absurd (h.inputs p hp v T hv hT) hs
  · intro p hp T hT hs
    exact absurd (h.outputs p hp T hT) hs
  · refine ⟨op.memoryConfig, ?_⟩
    have hall : ∀ ps : List (ℕ × TTNNOperandWorkarounds),
        (∀ p ∈ ps, ∃ T, f.types (.opResult op.id p.1) = some T ∧ Satisfies p.2 T.encoding) →
          ∀ c, configAfter f op.id ps c = .ok c := by
      intro ps hps c
      induction ps with
      | nil => rfl
      | cons p ps ih =>
        obtain ⟨T, hT, hs⟩ := hps p List.mem_cons_self
        rw [configAfter_cons f op.id hT,
          updateMemoryConfig_of_not_isModified ((isModified_eq_false_iff _ _).mpr hs)]
        exact ih fun q hq => hps q (List.mem_cons_of_mem _ hq)
    refine hall _ (fun p hp => ?_) _
    obtain ⟨T, hT⟩ := (visits_outputPairs table f op).2 p hp
    exact ⟨T, hT, h.outputs p hp T hT⟩
  · rintro ⟨p, hp, hns⟩
    exact absurd (h.inputs p hp) hns

/-- **One step of a run.** -/
theorem step_between (hf : f.WellFormed table)
    (hworkable : ∀ o ∈ f.ops, o.isToLayout = false → Workable table f o) (hop : op ∈ f.ops)
    (h : matchAndRewrite table f op = .ok (g, modified)) : Between table f [op.id] g := by
  cases hkind : op.isToLayout with
  | true =>
    rw [matchAndRewrite, if_pos hkind] at h
    obtain ⟨rfl, rfl⟩ := Prod.mk.inj (Except.ok.inj h)
    refine ⟨hf, hworkable, ?_, fun o ho _ => ⟨o, ho, View.refl f o⟩,
      fun o ho hto => ⟨o, ho, hto, rfl⟩, rfl⟩
    intro o ho hto hid
    obtain rfl := hf.ssa.eq_of_id_eq ho hop (List.mem_singleton.mp hid)
    rw [hkind] at hto
    cases hto
  | false =>
    obtain ⟨-, rename, op', hdone⟩ := exists_matchDone hf hop hkind h
    have hw := hworkable op hop hkind
    have hedit := hdone.edit
    have hkept : ∀ v, f.Defines v → f.Used v → g.types (rename v) = f.types v :=
      fun v hv hused => hdone.types_rename hw hv hused
    have hsatisfied : g.Satisfied table op' := by
      refine (hdone.satisfied_iff hf.ssa hop).mpr ⟨hw.inputs, fun p hp T hT hs => ?_⟩
      exact (hw.outputs p hp T hT hs).1
    -- an operation is the rewritten one, a conversion, or one that is seen as it was
    have horigin : ∀ o' ∈ g.ops, o'.isToLayout = false →
        o' = op' ∨ o'.id ≠ op.id ∧ ∃ o ∈ f.ops, View f o g o' := by
      intro o' ho' hto
      by_cases hid : o'.id = op.id
      · exact Or.inl (hedit.ssa.eq_of_id_eq ho' hdone.mem (hid.trans hdone.id_eq.symm))
      · rcases hedit.origin o' ho' hid with ⟨hto', -⟩ | ⟨o, ho, hne, rfl⟩
        · rw [hto'] at hto
          cases hto
        · exact Or.inr ⟨hid, o, ho, hedit.view hf.ssa hkept ho hne⟩
    constructor
    · refine ⟨hedit.ssa, ?_, ?_⟩
      · intro o' ho' hto
        rcases horigin o' ho' hto with rfl | ⟨-, o, ho, hview⟩
        · rw [(hdone.tensors_eq hf.ssa hop).1, hdone.id_eq]
          exact hf.inputs op hop hkind
        · rw [hview.tensors_eq.1, hview.id_eq]
          exact hf.inputs o ho (hview.isToLayout_eq ▸ hto)
      · intro o' ho' hto
        rcases horigin o' ho' hto with rfl | ⟨-, o, ho, hview⟩
        · rw [(hdone.tensors_eq hf.ssa hop).2, hdone.id_eq]
          exact hf.outputs op hop hkind
        · rw [hview.tensors_eq.2, hview.id_eq]
          exact hf.outputs o ho (hview.isToLayout_eq ▸ hto)
    · intro o' ho' hto
      rcases horigin o' ho' hto with rfl | ⟨-, o, ho, hview⟩
      · exact workable_of_satisfied hsatisfied
      · exact hview.workable (hworkable o ho (hview.isToLayout_eq ▸ hto))
    · intro o' ho' hto hid
      rcases horigin o' ho' hto with rfl | ⟨hne, -⟩
      · exact hsatisfied
      · exact absurd (List.mem_singleton.mp hid) hne
    · intro o ho hid
      have hne : o.id ≠ op.id := fun heq => hid (List.mem_singleton.mpr heq)
      exact ⟨_, hedit.others o ho hne, hedit.view hf.ssa hkept ho hne⟩
    · intro o' ho' hto
      rcases horigin o' ho' hto with rfl | ⟨-, o, ho, hview⟩
      · exact ⟨op, hop, hkind, hdone.id_eq.symm⟩
      · exact ⟨o, ho, hview.isToLayout_eq ▸ hto, hview.id_eq.symm⟩
    · rw [hedit.returns, List.map_map]
      exact List.map_congr_left fun v hv => hkept v (hf.ssa.returns_defined v hv) (Or.inr hv)

/-- **Runs** from a function whose operations are workable. -/
theorem Run.between {ids : List ℕ} (run : Run table f ids g) (hf : f.WellFormed table)
    (hworkable : ∀ o ∈ f.ops, o.isToLayout = false → Workable table f o) :
    Between table f ids g := by
  induction run with
  | start =>
    exact ⟨hf, hworkable, fun _ _ _ h => (nomatch h), fun o ho _ => ⟨o, ho, View.refl f o⟩,
      fun o ho hto => ⟨o, ho, hto, rfl⟩, rfl⟩
  | @step ids g g' op modified _ mem result ih =>
    have hstep := step_between ih.wellFormed ih.workable mem result
    refine ⟨hstep.wellFormed, hstep.workable, ?_, ?_, ?_, hstep.returns.trans ih.returns⟩
    · intro o' ho' hto hid
      by_cases hop : o'.id = op.id
      · exact hstep.satisfied o' ho' hto (List.mem_singleton.mpr hop)
      · -- it satisfied its table before the step
        have hid' : o'.id ∈ ids := by
          rcases List.mem_append.mp hid with hid | hid
          · exact hid
          · exact absurd (List.mem_singleton.mp hid) hop
        obtain ⟨o, ho, -, heq⟩ := hstep.origin o' ho' hto
        obtain ⟨o'', ho'', hview⟩ := hstep.users o ho (by simpa [heq] using hop)
        obtain rfl := hstep.wellFormed.ssa.eq_of_id_eq ho'' ho' (hview.id_eq.trans heq)
        exact hview.satisfied (ih.satisfied o ho (hview.isToLayout_eq ▸ hto) (heq.symm ▸ hid'))
    · intro o ho hid
      rw [List.mem_append, List.mem_singleton, not_or] at hid
      obtain ⟨o₁, ho₁, hview⟩ := ih.users o ho hid.1
      obtain ⟨o', ho', hview'⟩ := hstep.users o₁ ho₁ (by simpa [hview.id_eq] using hid.2)
      exact ⟨o', ho', hview.trans hview'⟩
    · intro o' ho' hto
      obtain ⟨o₁, ho₁, hto₁, heq₁⟩ := hstep.origin o' ho' hto
      obtain ⟨o, ho, hto₀, heq⟩ := ih.origin o₁ ho₁ hto₁
      exact ⟨o, ho, hto₀, heq.trans heq₁⟩

/-- An application to a workable operation reports what it changes. -/
theorem reported_of_workable (hf : f.WellFormed table) (hop : op ∈ f.ops)
    (hw : op.isToLayout = false → Workable table f op)
    (h : matchAndRewrite table f op = .ok (g, modified)) : modified = true ∨ g = f := by
  by_cases hsat : op.isToLayout = false → f.Satisfied table op
  · rw [matchAndRewrite_of_satisfied hf hop hsat] at h
    exact Or.inr (Prod.mk.inj (Except.ok.inj h)).1.symm
  · rw [Classical.not_imp] at hsat
    obtain ⟨hkind, hsat⟩ := hsat
    refine Or.inl ((exists_matchDone hf hop hkind h).1.mpr ?_)
    by_cases hins : ∀ p ∈ f.inputPairs table op, f.InputSatisfied op p
    · by_contra hnone
      rw [not_or, not_exists, not_exists] at hnone
      exact hsat ⟨hins, fun p hp => not_not.mp fun hns => hnone.2 p ⟨hp, hns⟩⟩
    · simp only [not_forall] at hins
      obtain ⟨p, hp, hns⟩ := hins
      exact (hw hkind).reported ⟨p, hp, hns⟩

theorem Between.keeps {ids : List ℕ} (h : Between table f ids g) : Keeps table f ids g where
  wellFormed := h.wellFormed
  satisfied := h.satisfied
  users o ho hid := by
    obtain ⟨o', ho', hview⟩ := h.users o ho hid
    exact ⟨o', ho', hview.id_eq, hview.kind_eq, hview.operands⟩
  returns := h.returns
  stable o ho hid := matchAndRewrite_of_satisfied h.wellFormed ho fun hto => h.satisfied o ho hto hid
  reported o ho := by
    obtain ⟨⟨g', modified⟩, hresult⟩ := matchAndRewrite_isOk h.wellFormed ho (h.workable o ho)
    exact ⟨g', modified, hresult, reported_of_workable h.wellFormed ho (h.workable o ho) hresult⟩

/-- A user that reads a renamed value of the type it had. -/
theorem type_rename_of_used (hf : f.SSAForm) (hop : op ∈ f.ops)
    (hkeeps : Keeps table f [op.id] g) (hedit : Edit f op.id rename g) {k : ℕ}
    (hused : f.Used (.opResult op.id k)) :
    g.types (rename (.opResult op.id k)) = f.types (.opResult op.id k) := by
  rcases hused with ⟨o, ho, hmem⟩ | hmem
  · have hne : o.id ≠ op.id := by
      rintro heq
      obtain rfl := hf.eq_of_id_eq ho hop heq
      exact hf.acyclic o ho k hmem
    obtain ⟨o', ho', hid, -, hoperands⟩ := hkeeps.users o ho (by simpa using hne)
    obtain rfl := hedit.ssa.eq_of_id_eq ho' (hedit.others o ho hne) hid
    rw [List.map_map] at hoperands
    exact List.map_inj_left.mp hoperands _ hmem
  · have hreturns := hkeeps.returns
    rw [hedit.returns, List.map_map] at hreturns
    exact List.map_inj_left.mp hreturns _ hmem

/-- Operations of a function that is kept by every run are workable. -/
theorem PassKeeps.workable (h : PassKeeps table f) (hop : op ∈ f.ops)
    (hkind : op.isToLayout = false) : Workable table f op := by
  have hstart := h [] f .start
  have hf := hstart.wellFormed
  obtain ⟨g, modified, hresult, hreported⟩ := hstart.reported op hop
  have hkeeps : Keeps table f [op.id] g := h _ g (.step .start hop hresult)
  obtain ⟨hflag, rename, op', hdone⟩ := exists_matchDone hf hop hkind hresult
  have hto : op'.isToLayout = false := by
    rw [← hkind, Op.isToLayout, Op.isToLayout, hdone.kind_eq]
  have hsatisfied := hkeeps.satisfied op' hdone.mem hto (by simp [hdone.id_eq])
  obtain ⟨hins, houts⟩ := (hdone.satisfied_iff hf.ssa hop).mp hsatisfied
  refine ⟨hins, ?_, ⟨_, hdone.config⟩, ?_⟩
  · intro p hp T hT hs
    obtain ⟨T', T'', htarget, hprevious, -, hT''⟩ := (hdone.outputs p hp T hT).2 hs
    have hreverts := (reverts_iff htarget).mpr ⟨T'', hprevious⟩
    refine ⟨houts p hp T hT hs, hreverts, fun hused => ?_⟩
    have htype := type_rename_of_used hf.ssa hop hkeeps hdone.edit hused
    rw [hT'', hT, Option.some.injEq] at htype
    rw [htype] at hprevious
    exact ((regular_iff htarget).mp hprevious).2
  · rintro ⟨p, hp, hns⟩
    refine hflag.mp (hreported.resolve_right ?_)
    rintro rfl
    obtain rfl := hf.ssa.eq_of_id_eq hdone.mem hop hdone.id_eq
    exact hns (hsatisfied.inputs p hp)

/-- **The pass**: every run satisfies the tables of the operations it visits, keeps the types
that the others read, is stable and reports what it changes, exactly when the function is well
formed and every operation with a table is workable. -/
theorem keepsOtherUsers_iff (table : ℕ → TTNNOperandsWorkarounds) (f : FuncOp) :
    PassKeeps table f ↔ f.WellFormed table ∧
      ∀ op ∈ f.ops, op.isToLayout = false → Workable table f op := by
  constructor
  · intro h
    exact ⟨(h [] f .start).wellFormed, fun op hop hkind => h.workable hop hkind⟩
  · rintro ⟨hf, hworkable⟩ ids g run
    exact (run.between hf hworkable).keeps

end Run

/-! ## An embedding -/

/-- `createEmbeddingOpOperandsWorkarounds`. -/
def createEmbeddingOpOperandsWorkarounds : TTNNOperandsWorkarounds where
  inputOperandWorkarounds :=
    [⟨some .rowMajor, none, none, some .uint32⟩, ⟨none, none, none, some .bfloat16⟩]
  outputOperandWorkarounds := [⟨none, none, none, some .bfloat16⟩]

/-- A tensor of 64 by 64 in tiles, in DRAM. -/
def tiledType (dataType : DataType) : RankedTensorType :=
  ⟨[64, 64], dataTypeToElementType dataType,
    ⟨⟨2, 0, [.dim 0, .dim 1]⟩, [1, 1], ⟨[2, 2], getElementType .tile dataType, .dram⟩,
      some .interleaved, rfl⟩⟩

/-- An embedding of indices in tiles. -/
def embedding : FuncOp where
  ops := [⟨0, .other "ttnn.embedding", [.blockArg 0, .blockArg 1], 1, none, none, none⟩]
  returns := [.opResult 0 0]
  types := fun v => some (tiledType (if v = .blockArg 0 then .uint32 else .bfloat16))
  hasDevice := true

/-- The table of the embedding. -/
def embeddingTable : ℕ → TTNNOperandsWorkarounds := fun _ => createEmbeddingOpOperandsWorkarounds

theorem wellFormed_embedding : embedding.WellFormed embeddingTable := by
  refine ⟨⟨by decide, ?_, ?_, ?_⟩, ?_, ?_⟩
  · intro op hop v hv
    obtain rfl := List.mem_singleton.mp hop
    fin_cases hv <;> trivial
  · intro op hop k
    obtain rfl := List.mem_singleton.mp hop
    simp
  · intro v hv
    obtain rfl := List.mem_singleton.mp hv
    exact List.mem_cons_self
  · intro op hop _
    obtain rfl := List.mem_singleton.mp hop
    rfl
  · intro op hop _
    obtain rfl := List.mem_singleton.mp hop
    rfl

/-- **A change that is not reported**: the indices are converted to row major, and the pattern
reports the weights, which are not. -/
theorem not_passKeeps_embedding :
    embedding.WellFormed embeddingTable ∧ ¬ PassKeeps embeddingTable embedding := by
  refine ⟨wellFormed_embedding, fun h => ?_⟩
  have hw := h.workable List.mem_cons_self rfl
  have hbf16 : Satisfies ⟨none, none, none, some .bfloat16⟩ (tiledType .bfloat16).encoding :=
    (isModified_eq_false_iff _ _).mp rfl
  have hindices : ¬ Satisfies ⟨some .rowMajor, none, none, some .uint32⟩
      (tiledType .uint32).encoding := (isModified_iff _ _).mp rfl
  rcases hw.reported ⟨(0, ⟨some .rowMajor, none, none, some .uint32⟩), List.mem_cons_self,
    fun hs => hindices (hs (.blockArg 0) _ rfl rfl)⟩ with ⟨p, hp, hns⟩ | ⟨p, hp, hns⟩
  · obtain rfl : ((1, ⟨none, none, none, some .bfloat16⟩) : ℕ × TTNNOperandWorkarounds) = p :=
      Option.some.inj hp
    refine hns fun v T hv hT => ?_
    obtain rfl := Option.some.inj hv
    obtain rfl := Option.some.inj hT
    exact hbf16
  · obtain rfl : p = (0, ⟨none, none, none, some .bfloat16⟩) := List.mem_singleton.mp hp
    refine hns fun T hT => ?_
    obtain rfl := Option.some.inj hT
    exact hbf16

end OperandWorkarounds
