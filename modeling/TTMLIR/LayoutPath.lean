/-
# The path of a layout conversion

Every handler of `TTNNDecomposeLayouts` takes a path of single steps.  A step looks only at
the element type and the place of the tensor (its memory, memory layout and grid), so the
handlers are settled by following these through each path.

* `Step`, `exec` : the five steps, as the pass emits them;
* `path` : the steps of a conversion, in order;
* `createLayoutConversionOps_eq` : the handlers take the steps of the path;
* `Spot.next`, `Spot.Can` : what a step does, and when its result layout can be built;
* `execAll_spec` : a path is taken to its end when every layout along it can be built.

An untilize on device that also casts forgets the memory configuration, so it ends where it
started.
-/
import TTMLIR.DecomposeLayouts

namespace TTNN

namespace DecomposeLayouts

/-! ## Requests -/

/-- The place of a tensor. -/
structure Place : Type where
  bufferType : BufferType
  memLayout : Option TensorMemoryLayout
  grid : List ℕ
  deriving DecidableEq, Repr

/-- The element type of a tensor and its place. -/
structure Spot : Type where
  elementType : ElementType
  place : Place
  deriving DecidableEq, Repr

/-- The spot of a layout. -/
def spotOf (L : TTNNLayoutAttr) : Spot :=
  ⟨L.getElementType, L.getBufferType, L.memLayout, L.grid⟩

/-- The same buffer type, memory layout, page layout, data type and grid. -/
def Spot.Same (s t : Spot) : Prop :=
  s.elementType.layout = t.elementType.layout ∧
    s.elementType.dataType = t.elementType.dataType ∧ s.place = t.place

/-- The host place of a device tensor: `withBufferType` resets its grid. -/
def Place.onHost (p : Place) : Place :=
  ⟨.systemMemory, none, List.replicate p.grid.length 1⟩

/-- A `ttnn.to_layout` as its builders make it: its attributes are those of its result type,
the shard of a tiled tensor has two dimensions, and there are no block float scalars. -/
structure ToLayoutOp.WellFormed (op : ToLayoutOp) : Prop where
  memoryConfig : op.memoryConfig = some (layoutInfo op.result).createMemoryConfigAttr
  dtype : op.dtype = some op.result.getElementType.dataType
  tiled : op.input.isTiled → 2 ≤ op.input.memref.shape.length
  result_tiled : op.result.isTiled → 2 ≤ op.result.memref.shape.length
  input_scalar : op.input.getElementType.layout = .rowMajor →
    op.input.getElementType.dataType.isBlockFloat = false
  result_scalar : op.result.getElementType.layout = .rowMajor →
    op.result.getElementType.dataType.isBlockFloat = false

/-- What the decomposition is told about an operation. -/
def ToLayoutOp.info (op : ToLayoutOp) : OpCreationInfo :=
  ⟨op.device, layoutInfo op.input, layoutInfo op.result,
    determineRequiredOps (layoutInfo op.input) (layoutInfo op.result)⟩

/-- The operation that `isCreationValid` accepts. -/
def ToLayoutOp.CreationValid (op : ToLayoutOp) : Prop :=
  isCreationValid op.info.input op.info.output op.info.opsToCreate = .ok ()

/-- What an emitted operation asks of its operand. -/
def Emission.MeetsPrecondition (e : Emission) : Prop :=
  match e.op with
  | .toDevice _ => e.operand.getBufferType = .systemMemory
  | .fromDevice => e.operand.getBufferType ≠ .systemMemory
  | .toLayout _ _ => e.operand.getBufferType ≠ .systemMemory →
      e.operand.getElementType.dataType = .bfloat16
  | .toDType _ => e.operand.getBufferType = .systemMemory
  | .typecast _ => e.operand.getBufferType ≠ .systemMemory ∧
      e.operand.getElementType.layout = .tile
  | .toMemoryConfig _ => e.operand.getBufferType ≠ .systemMemory

/-- The descriptor of a layout at run time. -/
def descOf (L : TTNNLayoutAttr) : LayoutDesc where
  storageType := if L.getBufferType = .systemMemory then .host else .device
  layout := L.getElementType.layout
  dataType := L.getElementType.dataType
  memoryConfig := if L.getBufferType = .systemMemory then none
    else some (layoutInfo L).createMemoryConfigAttr

/-! ## Steps -/

/-- A step of a conversion. -/
inductive Step : Type where
  | toDevice | fromDevice | toLayout | cast | toMemoryConfig
  deriving DecidableEq, Repr

/-- The step an emitted operation takes. -/
def EmittedOp.step : EmittedOp → Step
  | .toDevice _ => .toDevice
  | .fromDevice => .fromDevice
  | .toLayout _ _ => .toLayout
  | .toDType _ => .cast
  | .typecast _ => .cast
  | .toMemoryConfig _ => .toMemoryConfig

/-- Emit one step. -/
def exec (op : ToLayoutOp) : Step → Run → Except String Run
  | .toDevice => createToDeviceOpIfNeeded op op.info true
  | .fromDevice => createFromDeviceOpIfNeeded op.info true
  | .toLayout => createToLayoutOpIfNeeded op op.info
  | .cast => createDataTypeCastingOpIfNeeded op op.info
  | .toMemoryConfig => createToMemoryConfigOpIfNeeded op op.info

/-- Emit the steps of a path. -/
def execAll (op : ToLayoutOp) : List Step → Run → Except String Run
  | [], run => .ok run
  | step :: steps, run => do
      let run ← exec op step run
      execAll op steps run

section Path

variable (op : ToLayoutOp)

/-- The conversion changes the page layout. -/
def ToLayoutOp.changesLayout : Bool := op.info.opsToCreate.createToLayoutOp

/-- The conversion changes the data type. -/
def ToLayoutOp.casts : Bool := op.info.opsToCreate.createDataTypeCastOp

/-- The conversion needs a memory configuration. -/
def ToLayoutOp.configures : Bool := op.info.opsToCreate.createToMemoryConfigOp

/-- The result is in tiles. -/
def ToLayoutOp.tilized : Bool := op.info.output.isTilized

/-- The input has the data type that is tilized and untilized on device. -/
def ToLayoutOp.inputOnDevice : Bool := canTilizeDataTypeOnDevice op.info.input.dataType

/-- The result has the data type that is tilized and untilized on device. -/
def ToLayoutOp.resultOnDevice : Bool := canTilizeDataTypeOnDevice op.info.output.dataType

/-- The steps from host to host. -/
def hostToHost : List Step :=
  (if op.casts then [.cast] else []) ++ (if op.changesLayout then [.toLayout] else [])

/-- The steps from host to device. -/
def hostToDevice : List Step :=
  if op.changesLayout then
    if op.casts then
      if op.tilized then
        if op.inputOnDevice then [.toDevice, .toLayout, .cast]
        else if op.resultOnDevice then [.cast, .toDevice, .toLayout]
        else [.cast, .toLayout, .toDevice]
      else if op.resultOnDevice then [.toDevice, .cast, .toLayout]
      else [.cast, .toLayout, .toDevice]
    else if op.resultOnDevice then [.toDevice, .toLayout] else [.toLayout, .toDevice]
  else if op.casts then
    if op.tilized then [.toDevice, .cast] else [.cast, .toDevice]
  else [.toDevice]

/-- The steps from device to host. -/
def deviceToHost : List Step :=
  if op.changesLayout then
    if op.casts then
      if op.tilized then
        if op.inputOnDevice then [.toLayout, .cast, .fromDevice]
        else [.fromDevice, .toLayout, .cast]
      else if op.resultOnDevice then [.cast, .toLayout, .fromDevice]
      else [.cast, .fromDevice, .toLayout]
    else if op.inputOnDevice then [.toLayout, .fromDevice] else [.fromDevice, .toLayout]
  else if op.casts then
    if op.tilized then [.cast, .fromDevice] else [.fromDevice, .cast]
  else [.fromDevice]

/-- The memory configuration at the end, where the conversion needs one. -/
def configuration : List Step := if op.configures then [.toMemoryConfig] else []

/-- The steps from device to device.  An untilize through the host ends with the move to the
device, and an untilize on device after a cast ends with the untilize. -/
def deviceToDevice : List Step :=
  if op.changesLayout then
    if op.casts then
      if op.tilized then
        if op.inputOnDevice then [Step.toLayout, .cast] ++ configuration op
        else [Step.fromDevice, .toLayout, .toDevice, .cast] ++ configuration op
      else if op.resultOnDevice then [.cast, .toLayout]
      else [Step.cast, .fromDevice, .toLayout, .toDevice] ++ configuration op
    else if op.inputOnDevice then [Step.toLayout] ++ configuration op
    else if op.tilized then [Step.fromDevice, .toLayout, .toDevice] ++ configuration op
    else [.fromDevice, .toLayout, .toDevice]
  else if op.casts then
    if op.tilized then [Step.cast] ++ configuration op
    else [Step.fromDevice, .cast, .toDevice] ++ configuration op
  else configuration op

/-- The path of a conversion. -/
def path : List Step :=
  if op.info.input.isOnHost then
    if op.info.output.isOnHost then hostToHost op else hostToDevice op
  else if op.info.output.isOnHost then deviceToHost op else deviceToDevice op

end Path

/-! ## The handlers take the path -/

section Handlers

variable {op : ToLayoutOp}

/-- The operations of a conversion between tensors in system memory, or not. -/
theorem flags_of_direction (op : ToLayoutOp) :
    op.info.opsToCreate.createToDeviceOp = (op.info.input.isOnHost && !op.info.output.isOnHost) ∧
      op.info.opsToCreate.createFromDeviceOp
        = (!op.info.input.isOnHost && op.info.output.isOnHost) := by
  have hin : op.info.input.isOnHost = decide (op.info.input.bufferType = .systemMemory) := rfl
  have hout : op.info.output.isOnHost = decide (op.info.output.bufferType = .systemMemory) := rfl
  have hdevice : op.info.opsToCreate.createToDeviceOp
      = (decide (op.info.input.bufferType ≠ op.info.output.bufferType)
        && op.info.input.isOnHost) := rfl
  have hhost : op.info.opsToCreate.createFromDeviceOp
      = (decide (op.info.input.bufferType ≠ op.info.output.bufferType)
        && op.info.output.isOnHost) := rfl
  rw [hdevice, hhost, hin, hout]
  cases op.info.input.bufferType <;> cases op.info.output.bufferType <;> decide

theorem bind_ok {α : Type} (x : Except String α) : (x >>= fun a => Except.ok a) = x := bind_pure x

theorem ok_bind {α β : Type} (a : α) (f : α → Except String β) : (Except.ok a >>= f) = f a := rfl

theorem createToDeviceOpIfNeeded_false (run : Run) : createToDeviceOpIfNeeded op op.info false run
      = if op.info.opsToCreate.createToDeviceOp then exec op .toDevice run else .ok run := by
  unfold exec createToDeviceOpIfNeeded
  cases op.info.opsToCreate.createToDeviceOp <;> rfl

theorem createFromDeviceOpIfNeeded_false (run : Run) : createFromDeviceOpIfNeeded op.info false run
      = if op.info.opsToCreate.createFromDeviceOp then exec op .fromDevice run else .ok run := by
  unfold exec createFromDeviceOpIfNeeded
  cases op.info.opsToCreate.createFromDeviceOp <;> rfl

theorem createToMemoryConfigOpIfNeeded_eq (run : Run) :
    createToMemoryConfigOpIfNeeded op op.info run = execAll op (configuration op) run := by
  unfold configuration
  split_ifs with hconf
  · exact (bind_ok _).symm
  · have hconf' : op.info.opsToCreate.createToMemoryConfigOp = false := Bool.eq_false_iff.mpr hconf
    rw [createToMemoryConfigOpIfNeeded, hconf']
    rfl

theorem exec_fold (run : Run) :
    createToDeviceOpIfNeeded op op.info true run = exec op .toDevice run ∧
      createFromDeviceOpIfNeeded op.info true run = exec op .fromDevice run ∧
      createToLayoutOpIfNeeded op op.info run = exec op .toLayout run ∧
      createDataTypeCastingOpIfNeeded op op.info run = exec op .cast run :=
  ⟨rfl, rfl, rfl, rfl⟩

theorem handler_questions (op : ToLayoutOp) :
    op.info.shouldUntilize = (op.changesLayout && !op.tilized) ∧
      op.info.shouldTilize = (op.changesLayout && op.tilized) ∧
      op.info.opsToCreate.createToLayoutOp = op.changesLayout ∧
      op.info.opsToCreate.createDataTypeCastOp = op.casts ∧
      op.info.output.isTilized = op.tilized ∧
      canTilizeDataTypeOnDevice op.info.input.dataType = op.inputOnDevice ∧
      canUntilizeDataTypeOnDevice op.info.input.dataType = op.inputOnDevice ∧
      canTilizeDataTypeOnDevice op.info.output.dataType = op.resultOnDevice ∧
      canUntilizeDataTypeOnDevice op.info.output.dataType = op.resultOnDevice :=
  ⟨rfl, rfl, rfl, rfl, rfl, rfl, rfl, rfl, rfl⟩

theorem kept_iff (op : ToLayoutOp) :
    (op.info.input.dataType ≠ op.info.output.dataType ↔ op.casts = true) ∧
      (op.info.input.layoutEnum ≠ op.info.output.layoutEnum ↔ op.changesLayout = true) :=
  ⟨decide_eq_true_iff.symm, decide_eq_true_iff.symm⟩

theorem configuration_of_host (hin : op.info.input.isOnHost = true) : configuration op = [] := by
  obtain ⟨htd, -⟩ := flags_of_direction op
  have hconf : op.configures = (!op.info.opsToCreate.createToDeviceOp &&
      op.info.output.isOnDevice && _) := rfl
  rw [hin, Bool.true_and] at htd
  have hnone : op.configures = false := by
    rw [hconf, htd]
    unfold LayoutInfo.isOnDevice
    cases op.info.output.isOnHost <;> rfl
  rw [configuration, hnone]
  rfl

theorem configuration_of_toHost (hout : op.info.output.isOnHost = true) :
    configuration op = [] := by
  have hconf : op.configures = (!op.info.opsToCreate.createToDeviceOp &&
      op.info.output.isOnDevice && _) := rfl
  have hnone : op.configures = false := by
    rw [hconf, LayoutInfo.isOnDevice, hout]
    cases op.info.opsToCreate.createToDeviceOp <;> rfl
  rw [configuration, hnone]
  rfl

/-- **From the host.**  The four handlers take the path: in every case, on both sides, the
same steps. -/
theorem handleHostInputLayoutConversion_eq (hin : op.info.input.isOnHost = true) (run : Run) :
    handleHostInputLayoutConversion op op.info run = execAll op (path op) run := by
  obtain ⟨htd, -⟩ := flags_of_direction op
  obtain ⟨hu, ht, hl, hc, hout, hit, -, hot, hou⟩ := handler_questions op
  obtain ⟨hdt, hlayout⟩ := kept_iff op
  have hconf := configuration_of_host hin
  unfold handleHostInputLayoutConversion handleHostInputNoLayoutNoTypecast
    handleHostInputLayoutNoTypecast handleHostInputNoLayoutTypecast handleHostInputLayoutTypecast
  simp only [path, hin, hostToHost, hostToDevice, createToDeviceOpIfNeeded_false,
    createToMemoryConfigOpIfNeeded_eq, hu, ht, hl, hc, hout, hit, hot, hou, hdt, hlayout, htd,
    hconf, (exec_fold _).2.2.1, (exec_fold _).2.2.2]
  cases op.info.output.isOnHost <;> cases op.changesLayout <;> cases op.casts <;>
    simp [execAll, bind_ok]
  all_goals cases op.tilized <;> cases op.inputOnDevice <;> cases op.resultOnDevice <;>
      simp [execAll, bind_ok]

/-- **From the device.**  The four handlers take the path. -/
theorem handleDeviceInputLayoutConversion_eq (hin : op.info.input.isOnHost = false) (run : Run) :
    handleDeviceInputLayoutConversion op op.info run = execAll op (path op) run := by
  obtain ⟨-, hfd⟩ := flags_of_direction op
  obtain ⟨hu, ht, hl, hc, hout, hit, hiu, -, hou⟩ := handler_questions op
  obtain ⟨hdt, hlayout⟩ := kept_iff op
  rw [hin, Bool.not_false, Bool.true_and] at hfd
  unfold handleDeviceInputLayoutConversion handleDeviceInputNoLayoutNoTypecast
    handleDeviceInputLayoutNoTypecast handleDeviceInputNoLayoutTypecast
    handleDeviceInputLayoutTypecast
  simp only [path, hin, deviceToHost, deviceToDevice, createFromDeviceOpIfNeeded_false,
    createToMemoryConfigOpIfNeeded_eq, hu, ht, hl, hc, hout, hit, hiu, hou, hdt, hlayout, hfd,
    exec_fold]
  cases hhost : op.info.output.isOnHost with
  | true =>
    rw [configuration_of_toHost hhost]
    cases op.changesLayout <;> cases op.casts <;> cases op.tilized <;>
      cases op.inputOnDevice <;> cases op.resultOnDevice <;> simp [execAll, bind_ok, ok_bind]
  | false =>
    cases op.changesLayout <;> cases op.casts <;> cases op.tilized <;>
      cases op.inputOnDevice <;> cases op.resultOnDevice <;> simp [execAll, bind_ok]

/-- **The pass takes the path**, once it has a device for a device tensor. -/
theorem createLayoutConversionOps_eq (hop : op.WellFormed) (hvalid : op.CreationValid) :
    createLayoutConversionOps op
      = if !op.device && !op.info.output.isOnHost then
          .error "Device not specified for device tensor"
        else execAll op (path op) ⟨op.input, []⟩ := by
  have hlayouts : getInputOutputLayouts op = .ok (op.info.input, op.info.output) := by
    rw [getInputOutputLayouts, hop.memoryConfig, hop.dtype]
    rfl
  unfold createLayoutConversionOps
  rw [hlayouts, ok_bind]
  simp only
  have hvalid' : isCreationValid op.info.input op.info.output
      (determineRequiredOps op.info.input op.info.output) = .ok () := hvalid
  rw [hvalid', ok_bind]
  split_ifs with hdevice hin
  · rfl
  · exact handleHostInputLayoutConversion_eq hin _
  · exact handleDeviceInputLayoutConversion_eq (Bool.eq_false_iff.mpr hin) _

end Handlers

/-! ## What a step does -/

/-- The element type after a layout conversion: the data type is that of the scalars. -/
def ToLayoutOp.relaid (op : ToLayoutOp) (e : ElementType) : ElementType :=
  TTNN.getElementType op.info.output.layoutEnum e.scalarDataType

/-- The element type after a cast. -/
def ToLayoutOp.recast (op : ToLayoutOp) (e : ElementType) : ElementType :=
  TTNN.getElementType e.layout op.info.output.dataType

/-- The spot after a step. -/
def Spot.next (op : ToLayoutOp) (s : Spot) : Step → Spot
  | .toDevice => ⟨s.elementType, (spotOf op.result).place⟩
  | .fromDevice => ⟨s.elementType, s.place.onHost⟩
  | .toLayout => ⟨op.relaid s.elementType, s.place⟩
  | .cast => ⟨op.recast s.elementType, s.place⟩
  | .toMemoryConfig => spotOf op.result

/-- The layout of a tensor at a spot can be built. -/
def Spot.Built (tensorShape : List ℕ) (s : Spot) : Prop :=
  ∃ L, TTNNLayoutAttr.get tensorShape s.elementType s.place.bufferType s.place.grid
    s.place.memLayout [(0, -1)] = .ok L

/-- A host tensor can be moved to this memory: the result gets a memory layout on the way. -/
def Movable (b : BufferType) : Prop := b = .dram ∨ b = .l1

instance (b : BufferType) : Decidable (Movable b) := inferInstanceAs (Decidable (_ ∨ _))

/-- The result of a step can be laid out. -/
def Spot.Can (op : ToLayoutOp) (s : Spot) : Step → Prop
  | .toDevice => Movable op.result.getBufferType ∧ (s.next op .toDevice).Built op.shape
  | .toLayout => (s.next op .toLayout).Built op.shape
  | .cast => (s.next op .cast).Built op.shape
  | .fromDevice | .toMemoryConfig => True

/-- The operand of a step is where, and what, it has to be, and the conversion asks for it. -/
def Spot.Meets (op : ToLayoutOp) (s : Spot) : Step → Prop
  | .toDevice => s.place.bufferType = .systemMemory ∧ op.info.output.isOnHost = false
  | .fromDevice => s.place.bufferType ≠ .systemMemory
  | .toLayout => op.changesLayout ∧
      (s.place.bufferType ≠ .systemMemory → s.elementType.dataType = .bfloat16)
  | .cast => op.casts ∧ (s.place.bufferType ≠ .systemMemory → s.elementType.layout = .tile)
  | .toMemoryConfig => op.configures ∧ s.place.bufferType ≠ .systemMemory

/-- The spot at the end of a path. -/
def Spot.nextAll (op : ToLayoutOp) : Spot → List Step → Spot
  | s, [] => s
  | s, step :: steps => (s.next op step).nextAll op steps

/-- Every result along a path can be laid out. -/
def Spot.CanAll (op : ToLayoutOp) : Spot → List Step → Prop
  | _, [] => True
  | s, step :: steps => s.Can op step ∧ (s.next op step).CanAll op steps

/-- Every operand along a path is what it has to be. -/
def Spot.MeetsAll (op : ToLayoutOp) : Spot → List Step → Prop
  | _, [] => True
  | s, step :: steps => s.Meets op step ∧ (s.next op step).MeetsAll op steps

/-- A tiled shard has two dimensions. -/
def Ranked (L : TTNNLayoutAttr) : Prop := L.isTiled → 2 ≤ L.memref.shape.length

/-- A built layout is ranked, and is at the spot it was built for. -/
theorem ranked_of_get {T : List ℕ} {s : Spot} {L : TTNNLayoutAttr}
    (h : TTNNLayoutAttr.get T s.elementType s.place.bufferType s.place.grid s.place.memLayout
      [(0, -1)] = .ok L) : Ranked L ∧ spotOf L = s := by
  obtain ⟨helt, hbuf, hgrid, hmem⟩ := TTNNLayoutAttr.parts_of_get h
  refine ⟨?_, by rw [spotOf, helt, hbuf, hgrid, hmem]⟩
  obtain ⟨-, -, hmemref, -⟩ := (TTNNLayoutAttr.get_eq_ok_iff _ _ _ _ _ _ _).mp h
  obtain ⟨shard, -, hbuilt⟩ := except_bind_eq_ok.mp hmemref
  obtain ⟨htwo, -, -, hshape⟩ := (buildMemRef_eq_ok_iff _ _ _ _).mp hbuilt
  intro htile
  have htile' : s.elementType.isTile := by
    rw [← helt]
    exact htile
  have hlen := congrArg List.length hshape
  rw [List.length_map, List.length_zipWith, s.elementType.length_extents htwo, min_self] at hlen
  rw [hlen]
  exact htwo htile'

/-- A step that was taken: it emits one operation on the current value, which meets its
precondition and has the result of the step. -/
def Took (op : ToLayoutOp) (step : Step) (run run' : Run) : Prop :=
  ∃ e : Emission, run' = ⟨e.result, run.emitted ++ [e]⟩ ∧ e.op.step = step ∧
    e.MeetsPrecondition ∧ spotOf e.result = (spotOf run.current).next op step ∧ Ranked e.result

/-- A step is taken exactly under a condition. -/
def Executes (op : ToLayoutOp) (step : Step) (run : Run) (condition : Prop) : Prop :=
  ((∃ run', exec op step run = .ok run') ↔ condition) ∧
    ∀ run', exec op step run = .ok run' → Took op step run run'

section Exec

variable {op : ToLayoutOp} {run : Run}

/-- A step whose result goes through the builder. -/
theorem executes_of_get {step : Step} {s : Spot} {o : EmittedOp} (hexec : exec op step run = (do
      let result ← TTNNLayoutAttr.get op.shape s.elementType s.place.bufferType s.place.grid
        s.place.memLayout [(0, -1)]
      return run.createOp o result))
    (hstep : o.step = step) (hnext : (spotOf run.current).next op step = s)
    (hpre : ∀ result, Emission.MeetsPrecondition ⟨o, run.current, result⟩) :
    Executes op step run (s.Built op.shape) := by
  rw [Executes, hexec]
  constructor
  · constructor
    · rintro ⟨run', h⟩
      obtain ⟨result, hresult, -⟩ := except_bind_eq_ok.mp h
      exact ⟨result, hresult⟩
    · rintro ⟨result, hresult⟩
      exact ⟨_, except_bind_eq_ok.mpr ⟨result, hresult, rfl⟩⟩
  · intro run' h
    obtain ⟨result, hresult, heq⟩ := except_bind_eq_ok.mp h
    cases heq
    obtain ⟨hranked, hspot⟩ := ranked_of_get hresult
    exact ⟨⟨o, run.current, result⟩, rfl, hstep, hpre result, hspot.trans hnext.symm, hranked⟩

theorem executes_of_ok {step : Step} {o : EmittedOp} {result : TTNNLayoutAttr}
    (hexec : exec op step run = .ok (run.createOp o result)) (hstep : o.step = step)
    (hnext : spotOf result = (spotOf run.current).next op step) (hranked : Ranked result)
    (hpre : Emission.MeetsPrecondition ⟨o, run.current, result⟩) : Executes op step run True := by
  refine ⟨⟨fun _ => trivial, fun _ => ⟨_, hexec⟩⟩, ?_⟩
  intro run' h
  rw [hexec] at h
  cases h
  exact ⟨⟨o, run.current, result⟩, rfl, hstep, hpre, hnext, hranked⟩

variable {L : TTNNLayoutAttr}

theorem memLayout_of_device (h : L.getBufferType ≠ .systemMemory) : ∃ m, L.memLayout = some m := by
  have hverified := L.verified
  cases hm : L.memLayout with
  | some m => exact ⟨m, rfl⟩
  | none =>
    have hmem : L.memref.memorySpace ≠ .systemMemory := h
    rw [hm, verifyBufferAndMemoryLayout, if_pos hmem] at hverified
    cases hverified

theorem memLayout_of_host (h : L.getBufferType = .systemMemory) : L.memLayout = none := by
  have hverified := L.verified
  cases hm : L.memLayout with
  | none => rfl
  | some m =>
    have hmem : L.memref.memorySpace = .systemMemory := h
    rw [hm, verifyBufferAndMemoryLayout, if_pos hmem] at hverified
    cases hverified

/-- The layouts on the way to the device: the buffer type and the memory layout are set
first, and the grid builds the shard. -/
theorem toDevice_layouts (hrank : Ranked L)
    (hhost : L.getBufferType = .systemMemory) {b : BufferType} {m : TensorMemoryLayout}
    (hverify : verifyBufferAndMemoryLayout b (some m) = .ok ()) (hmove : Movable b)
    (tensorShape grid : List ℕ) :
    ∃ placed laidOut, L.withBufferType b = .ok placed ∧ placed.withMemoryLayout m = .ok laidOut ∧
      laidOut.withGrid tensorShape grid [(0, -1)]
        = TTNNLayoutAttr.get tensorShape L.getElementType b grid (some m) [(0, -1)] := by
  have hnone := memLayout_of_host hhost
  have hplaced : verifyBufferAndMemoryLayout b (L.memLayoutFor b) = .ok () := by
    rcases hmove with rfl | rfl
    · rfl
    · rw [TTNNLayoutAttr.memLayoutFor, hnone]
      rfl
  refine ⟨_, _, L.withBufferType_eq_ok hrank b hplaced,
    TTNNLayoutAttr.withMemoryLayout_eq_ok ⟨L.linear, L.gridFor b,
      ⟨L.memref.shape, L.getElementType, b⟩, L.memLayoutFor b, hplaced⟩ hrank m hverify, rfl⟩

/-- Without a memory layout there is no way to the other memories. -/
theorem withBufferType_not_movable (hrank : Ranked L)
    (hhost : L.getBufferType = .systemMemory) {b : BufferType} (hb : b ≠ .systemMemory)
    (hmove : ¬ Movable b) (placed : TTNNLayoutAttr) : L.withBufferType b ≠ .ok placed := by
  intro h
  have hfor : L.memLayoutFor b = none := by
    rw [← memLayout_of_host hhost]
    cases b with
    | systemMemory => exact absurd rfl hb
    | dram => exact absurd (Or.inl rfl) hmove
    | l1 => exact absurd (Or.inr rfl) hmove
    | l1Small => rfl
    | trace => rfl
  rw [L.withBufferType_eq hrank b, TTNNLayoutAttr.build_eq_ok_iff] at h
  obtain ⟨-, -, hmemref, hmem⟩ := h
  obtain ⟨m, hm⟩ := memLayout_of_device (L := placed) (by
    rw [TTNNLayoutAttr.getBufferType, hmemref]
    exact hb)
  rw [hmem, hfor] at hm
  cases hm

theorem isOnHost_output_iff (op : ToLayoutOp) :
    op.info.output.isOnHost = true ↔ op.result.getBufferType = .systemMemory :=
  decide_eq_true_iff

/-- **The move to the device.** -/
theorem executes_toDevice (hrank : Ranked run.current)
    (hmeets : (spotOf run.current).Meets op .toDevice) :
    Executes op .toDevice run ((spotOf run.current).Can op .toDevice) := by
  obtain ⟨hhost, hdevice⟩ := hmeets
  have hb : op.result.getBufferType ≠ .systemMemory := by
    intro h
    rw [(isOnHost_output_iff op).mpr h] at hdevice
    cases hdevice
  obtain ⟨m, hm⟩ := memLayout_of_device hb
  have hm' : op.info.output.tensorMemoryLayout = some m := hm
  have hverify : verifyBufferAndMemoryLayout op.result.getBufferType (some m) = .ok () := by
    rw [← hm]
    exact op.result.verified
  have hexec : exec op .toDevice run = (do
      let placed ← run.current.withBufferType op.result.getBufferType
      let laidOut ← placed.withMemoryLayout m
      let result ← laidOut.withGrid op.shape op.result.grid [(0, -1)]
      return run.createOp (.toDevice op.info.output.createMemoryConfigAttr) result) := by
    unfold exec createToDeviceOpIfNeeded
    simp only [Bool.not_true, Bool.and_false, Bool.false_eq_true, if_false, hm']
    rfl
  by_cases hmove : Movable op.result.getBufferType
  · obtain ⟨placed, laidOut, hplaced, hlaidOut, hget⟩ :=
      toDevice_layouts hrank hhost hverify hmove op.shape op.result.grid
    have hnext : (spotOf run.current).next op .toDevice
        = ⟨run.current.getElementType, op.result.getBufferType, some m, op.result.grid⟩ := by
      rw [← hm]
      rfl
    have hcan : (spotOf run.current).Can op .toDevice = (True ∧ Spot.Built op.shape
          ⟨run.current.getElementType, op.result.getBufferType, some m, op.result.grid⟩) := by
      rw [← hnext]
      simp only [Spot.Can, hmove]
    rw [hcan, true_and]
    refine executes_of_get (o := .toDevice op.info.output.createMemoryConfigAttr) ?_ rfl hnext
      fun _ => hhost
    rw [hexec, hplaced, ok_bind, hlaidOut, ok_bind, hget]
  · have hnot : ∀ run', exec op .toDevice run ≠ .ok run' := by
      intro run' h
      rw [hexec] at h
      obtain ⟨placed, hplaced, -⟩ := except_bind_eq_ok.mp h
      exact withBufferType_not_movable hrank hhost hb hmove placed hplaced
    exact ⟨⟨fun ⟨run', h⟩ => absurd h (hnot run'), fun h => absurd h.1 hmove⟩,
      fun run' h => absurd h (hnot run')⟩

/-- **The move to the host.** -/
theorem executes_fromDevice (hrank : Ranked run.current)
    (hmeets : (spotOf run.current).Meets op .fromDevice) : Executes op .fromDevice run True := by
  have hverify : verifyBufferAndMemoryLayout .systemMemory
      (run.current.memLayoutFor .systemMemory) = .ok () := rfl
  refine (@executes_of_ok _ _ _ .fromDevice ⟨run.current.linear,
    run.current.gridFor .systemMemory, ⟨run.current.memref.shape, run.current.getElementType,
      .systemMemory⟩, run.current.memLayoutFor .systemMemory, hverify⟩) ?_ rfl rfl hrank hmeets
  unfold exec createFromDeviceOpIfNeeded
  simp only [Bool.not_true, Bool.and_false, Bool.false_eq_true, if_false]
  rw [run.current.withBufferType_eq_ok hrank .systemMemory hverify]
  rfl

/-- **The layout conversion.** -/
theorem executes_toLayout (hmeets : (spotOf run.current).Meets op .toLayout) :
    Executes op .toLayout run ((spotOf run.current).Can op .toLayout) := by
  obtain ⟨hneeded, hdata⟩ := hmeets
  refine executes_of_get (o := .toLayout op.info.output.layoutEnum
    (run.current.getBufferType ≠ .systemMemory && op.info.device)) ?_ rfl rfl fun _ => hdata
  have hneeded' : op.info.opsToCreate.createToLayoutOp = true := hneeded
  unfold exec createToLayoutOpIfNeeded
  simp only [hneeded', Bool.not_true, Bool.false_eq_true, if_false]
  rfl

/-- **The cast**: on the host, or of tiles on the device. -/
theorem executes_cast (hmeets : (spotOf run.current).Meets op .cast) :
    Executes op .cast run ((spotOf run.current).Can op .cast) := by
  obtain ⟨hneeded, htile⟩ := hmeets
  have hneeded' : op.info.opsToCreate.createDataTypeCastOp = true := hneeded
  by_cases hhost : run.current.getBufferType = .systemMemory
  · refine executes_of_get (o := .toDType op.info.output.dataType) ?_ rfl rfl fun _ => hhost
    unfold exec createDataTypeCastingOpIfNeeded
    simp only [hneeded', Bool.not_true, Bool.false_eq_true, if_false, hhost, if_true]
    rfl
  · have htile' : run.current.getElementType.layout = .tile := htile hhost
    refine executes_of_get (o := .typecast op.info.output.dataType) ?_ rfl rfl
      fun _ => ⟨hhost, htile'⟩
    unfold exec createDataTypeCastingOpIfNeeded
    simp only [hneeded', Bool.not_true, Bool.false_eq_true, if_false, hhost, htile', ne_eq,
      not_true]
    rfl

/-- **The memory configuration.** -/
theorem executes_toMemoryConfig (hresult : Ranked op.result)
    (hmeets : (spotOf run.current).Meets op .toMemoryConfig) :
    Executes op .toMemoryConfig run True := by
  obtain ⟨hneeded, hdevice⟩ := hmeets
  have hneeded' : op.info.opsToCreate.createToMemoryConfigOp = true := hneeded
  refine (@executes_of_ok _ _ _
    (.toMemoryConfig op.info.output.createMemoryConfigAttr) op.result) ?_ rfl rfl hresult hdevice
  unfold exec createToMemoryConfigOpIfNeeded
  simp only [hneeded', Bool.not_true, Bool.false_eq_true, if_false]

/-- **One step.** -/
theorem executes_step (hresult : Ranked op.result) (hrank : Ranked run.current) (step : Step)
    (hmeets : (spotOf run.current).Meets op step) :
    Executes op step run ((spotOf run.current).Can op step) := by
  cases step with
  | toDevice => exact executes_toDevice hrank hmeets
  | fromDevice => exact executes_fromDevice hrank hmeets
  | toLayout => exact executes_toLayout hmeets
  | cast => exact executes_cast hmeets
  | toMemoryConfig => exact executes_toMemoryConfig hresult hmeets

/-- **A path.**  It is taken to its end exactly when every result along it can be laid out;
then it emits its steps, every operation meets its precondition, and the last result is at
the last spot. -/
theorem execAll_spec (hresult : Ranked op.result) (steps : List Step) (run : Run)
    (hrank : Ranked run.current) (hmeets : (spotOf run.current).MeetsAll op steps) :
    ((∃ run', execAll op steps run = .ok run') ↔ (spotOf run.current).CanAll op steps) ∧
      ∀ run', execAll op steps run = .ok run' →
        spotOf run'.current = (spotOf run.current).nextAll op steps ∧
          ∃ emitted, run'.emitted = run.emitted ++ emitted ∧
            emitted.map (fun e => e.op.step) = steps ∧ ∀ e ∈ emitted, e.MeetsPrecondition := by
  induction steps generalizing run with
  | nil =>
    refine ⟨⟨fun _ => trivial, fun _ => ⟨run, rfl⟩⟩, ?_⟩
    rintro run' h
    cases h
    exact ⟨rfl, [], (List.append_nil _).symm, rfl, fun e he => (by cases he)⟩
  | cons step steps ih =>
    obtain ⟨hiff, htook⟩ := executes_step hresult hrank step hmeets.1
    have hrest : ∀ run', exec op step run = .ok run' →
        Ranked run'.current ∧ spotOf run'.current = (spotOf run.current).next op step := by
      intro run' h
      obtain ⟨e, rfl, -, -, hspot, hranked⟩ := htook run' h
      exact ⟨hranked, hspot⟩
    constructor
    · rw [Spot.CanAll, ← hiff]
      constructor
      · rintro ⟨run'', h⟩
        obtain ⟨run', hstep, hsteps⟩ := except_bind_eq_ok.mp h
        obtain ⟨hranked, hspot⟩ := hrest run' hstep
        rw [← hspot]
        refine ⟨⟨run', hstep⟩, (ih run' hranked ?_).1.mp ⟨run'', hsteps⟩⟩
        rw [hspot]
        exact hmeets.2
      · rintro ⟨⟨run', hstep⟩, hcan⟩
        obtain ⟨hranked, hspot⟩ := hrest run' hstep
        rw [← hspot] at hcan
        have hmeets' := hmeets.2
        rw [← hspot] at hmeets'
        obtain ⟨run'', hsteps⟩ := (ih run' hranked hmeets').1.mpr hcan
        exact ⟨run'', except_bind_eq_ok.mpr ⟨run', hstep, hsteps⟩⟩
    · intro run'' h
      obtain ⟨run', hstep, hsteps⟩ := except_bind_eq_ok.mp h
      obtain ⟨e, rfl, hop, hpre, hspot, hranked⟩ := htook run' hstep
      have hmeets' := hmeets.2
      rw [← hspot] at hmeets'
      obtain ⟨hend, emitted, hemitted, hmap, hall⟩ := (ih _ hranked hmeets').2 run'' hsteps
      refine ⟨hend.trans (by rw [hspot]; rfl), e :: emitted, ?_, ?_, ?_⟩
      · rw [hemitted, List.append_assoc]
        rfl
      · rw [List.map_cons, hop, hmap]
      · intro e' he'
        rcases List.mem_cons.mp he' with rfl | he'
        · exact hpre
        · exact hall e' he'

end Exec

end DecomposeLayouts

end TTNN
