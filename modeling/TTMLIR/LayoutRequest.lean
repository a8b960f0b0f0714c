/-
# When a layout conversion reaches its request

The conditions on a `ttnn.to_layout` under which its decomposition ends in the requested
buffer type, memory layout, page layout, data type and grid.

* `ToLayoutOp.layouts` : the intermediate layouts that the builder has to make;
* `ToLayoutOp.losesDataType` : a cast to block float scalars before the tilize;
* `ToLayoutOp.KeepsPlace` : the last place is the requested one, or is asked for;
* `meetsAll_path` : along every path the operands are where, and what, they have to be;
* `reachesRequest_iff` : the conversion reaches the request exactly under the conditions.

Everything is read off the path of `LayoutPath`, direction by direction.
-/
import TTMLIR.LayoutPath

namespace TTNN

namespace DecomposeLayouts

/-! ## Element types along a path -/

section Vocabulary

variable {op : ToLayoutOp}

@[simp] theorem relaid_layout (op : ToLayoutOp) (e : ElementType) :
    (op.relaid e).layout = op.result.getElementType.layout := by
  unfold ToLayoutOp.relaid TTNN.getElementType
  have h : op.info.output.layoutEnum = op.result.getElementType.layout := rfl
  rw [h]
  cases op.result.getElementType.layout <;> rfl

/-- A cast keeps the page layout. -/
@[simp] theorem recast_layout (op : ToLayoutOp) (e : ElementType) :
    (op.recast e).layout = e.layout := by
  unfold ToLayoutOp.recast TTNN.getElementType
  cases e.layout <;> rfl

theorem dataTypeToElementType_eq_iff (d : DataType) :
    dataTypeToElementType d = d ↔ d.isBlockFloat = false := by
  cases d <;> decide

theorem recast_dataType (op : ToLayoutOp) (e : ElementType) :
    (op.recast e).dataType = if e.layout = .tile then op.result.getElementType.dataType
      else dataTypeToElementType op.result.getElementType.dataType := by
  unfold ToLayoutOp.recast TTNN.getElementType
  have h : op.info.output.dataType = op.result.getElementType.dataType := rfl
  rw [h]
  cases e.layout <;> rfl

theorem scalarDataType_eq (e : ElementType) :
    e.scalarDataType = if e.layout = .tile then dataTypeToElementType e.dataType
      else e.dataType := by
  cases e <;> rfl

theorem relaid_dataType (op : ToLayoutOp) (e : ElementType) :
    (op.relaid e).dataType = if op.result.getElementType.layout = .tile then e.scalarDataType
      else dataTypeToElementType e.scalarDataType := by
  unfold ToLayoutOp.relaid TTNN.getElementType
  have h : op.info.output.layoutEnum = op.result.getElementType.layout := rfl
  rw [h]
  cases op.result.getElementType.layout <;> rfl

theorem flags_iff (op : ToLayoutOp) : (op.changesLayout = true ↔
        op.input.getElementType.layout ≠ op.result.getElementType.layout) ∧
      (op.casts = true ↔ op.input.getElementType.dataType ≠ op.result.getElementType.dataType) ∧
      (op.tilized = true ↔ op.result.getElementType.layout = .tile) ∧
      (op.inputOnDevice = true ↔ op.input.getElementType.dataType = .bfloat16) ∧
      (op.resultOnDevice = true ↔ op.result.getElementType.dataType = .bfloat16) :=
  ⟨decide_eq_true_iff, decide_eq_true_iff, decide_eq_true_iff, decide_eq_true_iff,
    decide_eq_true_iff⟩

@[simp] theorem dataTypeToElementType_bfloat16 : dataTypeToElementType .bfloat16 = .bfloat16 := rfl

/-! ### The operands of the steps

In every case of every path: the moves are between the right memories, only tiles are cast on
device, and only the declared data type is tilized or untilized there. -/

/-- On the host, every step finds what it needs. -/
theorem meets_hostToHost (hin : op.input.getBufferType = .systemMemory) :
    (spotOf op.input).MeetsAll op (hostToHost op) := by
  unfold hostToHost
  split_ifs <;> simp_all [Spot.MeetsAll, Spot.Meets, Spot.next, spotOf]

theorem meets_hostToDevice (hin : op.input.getBufferType = .systemMemory)
    (hout : op.info.output.isOnHost = false) : (spotOf op.input).MeetsAll op (hostToDevice op) := by
  obtain ⟨hlayout, hcasts, htilized, hinput, hresult⟩ := flags_iff op
  cases hI : op.input.getElementType.layout <;> cases hO : op.result.getElementType.layout <;>
    unfold hostToDevice <;> split_ifs <;>
    simp_all [Spot.MeetsAll, Spot.Meets, Spot.next, spotOf, recast_dataType]

theorem meets_deviceToHost (hin : op.input.getBufferType ≠ .systemMemory) :
    (spotOf op.input).MeetsAll op (deviceToHost op) := by
  obtain ⟨hlayout, hcasts, htilized, hinput, hresult⟩ := flags_iff op
  cases hI : op.input.getElementType.layout <;> cases hO : op.result.getElementType.layout <;>
    unfold deviceToHost <;> split_ifs <;>
    simp_all [Spot.MeetsAll, Spot.Meets, Spot.next, spotOf, recast_dataType, Place.onHost]

theorem meets_deviceToDevice (hin : op.input.getBufferType ≠ .systemMemory)
    (hout : op.result.getBufferType ≠ .systemMemory) (hout' : op.info.output.isOnHost = false) :
    (spotOf op.input).MeetsAll op (deviceToDevice op) := by
  obtain ⟨hlayout, hcasts, htilized, hinput, hresult⟩ := flags_iff op
  cases hI : op.input.getElementType.layout <;> cases hO : op.result.getElementType.layout <;>
    unfold deviceToDevice configuration <;> split_ifs <;>
    simp_all [Spot.MeetsAll, Spot.Meets, Spot.next, spotOf, recast_dataType, Place.onHost]

end Vocabulary

/-! ## The conditions -/

section Conditions

variable (op : ToLayoutOp)

/-- A spot where the operand is. -/
def ToLayoutOp.here (e : ElementType) : Spot := ⟨e, (spotOf op.input).place⟩

/-- A spot where the result is. -/
def ToLayoutOp.there (e : ElementType) : Spot := ⟨e, (spotOf op.result).place⟩

/-- A spot on the host, on the way between two device tensors. -/
def ToLayoutOp.between (e : ElementType) : Spot := ⟨e, (spotOf op.input).place.onHost⟩

/-- The operand cast to the requested data type. -/
def ToLayoutOp.cast : ElementType := op.recast op.input.getElementType

/-- The operand in the requested page layout. -/
def ToLayoutOp.laid : ElementType := op.relaid op.input.getElementType

/-- The operand cast, then in the requested page layout. -/
def ToLayoutOp.castLaid : ElementType := op.relaid op.cast

/-- The operand in the requested page layout, then cast. -/
def ToLayoutOp.laidCast : ElementType := op.recast op.laid

/-- The intermediate layouts from host to host. -/
def hostToHostLayouts : List Spot :=
  if op.changesLayout then
    if op.casts then [op.here op.cast, op.here op.castLaid] else [op.here op.laid]
  else if op.casts then [op.here op.cast] else []

/-- The intermediate layouts from host to device. -/
def hostToDeviceLayouts : List Spot :=
  if op.changesLayout then
    if op.casts then
      if op.tilized then
        if op.inputOnDevice then
          [op.there op.input.getElementType, op.there op.laid, op.there op.laidCast]
        else if op.resultOnDevice then
          [op.here op.cast, op.there op.cast, op.there op.castLaid]
        else [op.here op.cast, op.here op.castLaid, op.there op.castLaid]
      else if op.resultOnDevice then
        [op.there op.input.getElementType, op.there op.cast, op.there op.castLaid]
      else [op.here op.cast, op.here op.castLaid, op.there op.castLaid]
    else if op.resultOnDevice then [op.there op.input.getElementType, op.there op.laid]
    else [op.here op.laid, op.there op.laid]
  else if op.casts then
    if op.tilized then [op.there op.input.getElementType, op.there op.cast]
    else [op.here op.cast, op.there op.cast]
  else [op.there op.input.getElementType]

/-- The intermediate layouts from device to host. -/
def deviceToHostLayouts : List Spot :=
  if op.changesLayout then
    if op.casts then
      if op.tilized then
        if op.inputOnDevice then [op.here op.laid, op.here op.laidCast]
        else [op.between op.laid, op.between op.laidCast]
      else if op.resultOnDevice then [op.here op.cast, op.here op.castLaid]
      else [op.here op.cast, op.between op.castLaid]
    else if op.inputOnDevice then [op.here op.laid] else [op.between op.laid]
  else if op.casts then
    if op.tilized then [op.here op.cast] else [op.between op.cast]
  else []

/-- The intermediate layouts from device to device. -/
def deviceToDeviceLayouts : List Spot :=
  if op.changesLayout then
    if op.casts then
      if op.tilized then
        if op.inputOnDevice then [op.here op.laid, op.here op.laidCast]
        else [op.between op.laid, op.there op.laid, op.there op.laidCast]
      else if op.resultOnDevice then [op.here op.cast, op.here op.castLaid]
      else [op.here op.cast, op.between op.castLaid, op.there op.castLaid]
    else if op.inputOnDevice then [op.here op.laid]
    else [op.between op.laid, op.there op.laid]
  else if op.casts then
    if op.tilized then [op.here op.cast] else [op.between op.cast, op.there op.cast]
  else []

/-- The intermediate layouts of a conversion that go through the builder. -/
def ToLayoutOp.layouts : List Spot :=
  if op.input.getBufferType = .systemMemory then
    if op.result.getBufferType = .systemMemory then hostToHostLayouts op
    else hostToDeviceLayouts op
  else if op.result.getBufferType = .systemMemory then deviceToHostLayouts op
  else deviceToDeviceLayouts op

/-- The conversion between device tensors goes through the host: the data type cannot be
tilized or untilized on device, or row major tensors are cast. -/
def ToLayoutOp.roundTrips : Bool :=
  if op.changesLayout then
    if op.casts && !op.tilized then !op.resultOnDevice else !op.inputOnDevice
  else op.casts && !op.tilized

/-- The conversion casts and untilizes on device: this branch asks for no memory
configuration. -/
def ToLayoutOp.forgets : Bool :=
  op.changesLayout && op.casts && !op.tilized && op.resultOnDevice

/-- The conversion casts scalars on the host to a block float type and tilizes them there, so
the tiles have the type of the scalars. -/
def ToLayoutOp.losesDataType : Prop :=
  op.input.getBufferType = .systemMemory ∧ op.input.getElementType.layout = .rowMajor ∧
    op.result.getElementType.layout = .tile ∧
    op.result.getElementType.dataType.isBlockFloat = true ∧
    (op.result.getBufferType = .systemMemory ∨
      op.input.getElementType.dataType ≠ .bfloat16)

/-- The conversion ends at the requested place: it moves to the device, or it asks for the
memory configuration, or the place it leaves the tensor at is the requested one. -/
def ToLayoutOp.KeepsPlace : Prop :=
  if op.input.getBufferType = .systemMemory then
    op.result.getBufferType = .systemMemory → op.input.grid = op.result.grid
  else if op.result.getBufferType = .systemMemory then
    List.replicate op.input.grid.length 1 = op.result.grid
  else op.roundTrips = true ∨ (op.configures = true ∧ op.forgets = false) ∨
    (spotOf op.input).place = (spotOf op.result).place

/-- **When a conversion reaches the requested layout.** -/
structure ToLayoutOp.HoldsWhen : Prop where
  device : op.device = true ∨ op.result.getBufferType = .systemMemory
  movable : op.result.getBufferType ≠ .systemMemory →
    op.input.getBufferType = .systemMemory ∨ op.roundTrips = true →
      Movable op.result.getBufferType
  layouts : ∀ s ∈ op.layouts, s.Built op.shape
  dataType : ¬ op.losesDataType
  place : op.KeepsPlace

/-- The conversions asked for: each at most once, and only where the layouts differ. -/
structure ToLayoutOp.AtMostRequested (steps : List Step) : Prop where
  nodup : steps.Nodup
  toLayout : .toLayout ∈ steps →
    op.input.getElementType.layout ≠ op.result.getElementType.layout
  cast : .cast ∈ steps →
    op.input.getElementType.dataType ≠ op.result.getElementType.dataType
  toMemoryConfig : .toMemoryConfig ∈ steps →
    (spotOf op.input).place ≠ (spotOf op.result).place
  toDevice : .toDevice ∈ steps → op.result.getBufferType ≠ .systemMemory
  fromDevice : .fromDevice ∈ steps → op.input.getBufferType ≠ .systemMemory

/-- **A conversion reaches the requested layout**: it ends in a value with the requested
buffer type, memory layout, page layout, data type and grid, by operations that meet their
preconditions and are asked for; and where the converter of the runtime does not refuse, it
ends in the same descriptor. -/
def ToLayoutOp.ReachesRequest : Prop :=
  (∃ run, createLayoutConversionOps op = .ok run ∧
      (spotOf run.current).Same (spotOf op.result) ∧
      (∀ e ∈ run.emitted, e.MeetsPrecondition) ∧
      op.AtMostRequested (run.emitted.map fun e => e.op.step)) ∧
    ∀ d, LayoutConverter.convertTensorLayout ⟨descOf op.input, descOf op.result, op.device⟩
      = .ok d → d = descOf op.result

end Conditions

section Spots

variable {op : ToLayoutOp}

/-- The layouts that a path asks the builder for. -/
def Spot.layoutsAlong (op : ToLayoutOp) : Spot → List Step → List Spot
  | _, [] => []
  | s, .toDevice :: steps =>
    s.next op .toDevice :: (s.next op .toDevice).layoutsAlong op steps
  | s, .fromDevice :: steps => (s.next op .fromDevice).layoutsAlong op steps
  | s, .toLayout :: steps =>
    s.next op .toLayout :: (s.next op .toLayout).layoutsAlong op steps
  | s, .cast :: steps => s.next op .cast :: (s.next op .cast).layoutsAlong op steps
  | s, .toMemoryConfig :: steps => (s.next op .toMemoryConfig).layoutsAlong op steps

/-- A path can be taken when the layouts along it can be built, and a move to the device has
a memory to move to. -/
theorem canAll_iff (steps : List Step) (s : Spot) :
    s.CanAll op steps ↔ (.toDevice ∈ steps → Movable op.result.getBufferType) ∧
      ∀ t ∈ s.layoutsAlong op steps, t.Built op.shape := by
  induction steps generalizing s with
  | nil => simp [Spot.CanAll, Spot.layoutsAlong]
  | cons step steps ih =>
    cases step with
    | toDevice =>
      simp only [Spot.CanAll, Spot.Can, ih, Spot.layoutsAlong, List.mem_cons, true_or,
        forall_const, forall_eq_or_imp]
      exact ⟨fun h => ⟨h.1.1, h.1.2, h.2.2⟩, fun h => ⟨⟨h.1, h.2.1⟩, fun _ => h.1, h.2.2⟩⟩
    | fromDevice =>
      simp only [Spot.CanAll, Spot.Can, ih, Spot.layoutsAlong, List.mem_cons, reduceCtorEq,
        false_or, true_and]
    | toLayout =>
      simp only [Spot.CanAll, Spot.Can, ih, Spot.layoutsAlong, List.mem_cons, reduceCtorEq,
        false_or, forall_eq_or_imp]
      tauto
    | cast =>
      simp only [Spot.CanAll, Spot.Can, ih, Spot.layoutsAlong, List.mem_cons, reduceCtorEq,
        false_or, forall_eq_or_imp]
      tauto
    | toMemoryConfig =>
      simp only [Spot.CanAll, Spot.Can, ih, Spot.layoutsAlong, List.mem_cons, reduceCtorEq,
        false_or, true_and]

theorem layoutsAlong_configuration (s : Spot) (steps : List Step) :
    s.layoutsAlong op (steps ++ configuration op) = s.layoutsAlong op steps := by
  induction steps generalizing s with
  | nil =>
    unfold configuration
    split_ifs <;> rfl
  | cons step steps ih =>
    rw [List.cons_append]
    cases step <;> simp only [Spot.layoutsAlong, ih]

/-! ### The layouts along each path are the listed ones -/

theorem layoutsAlong_hostToHost :
    (spotOf op.input).layoutsAlong op (hostToHost op) = hostToHostLayouts op := by
  unfold hostToHost hostToHostLayouts
  cases op.changesLayout <;> cases op.casts <;> rfl

theorem layoutsAlong_hostToDevice :
    (spotOf op.input).layoutsAlong op (hostToDevice op) = hostToDeviceLayouts op := by
  unfold hostToDevice hostToDeviceLayouts
  cases op.changesLayout <;> cases op.casts <;> cases op.tilized <;> cases op.inputOnDevice <;>
    cases op.resultOnDevice <;> rfl

theorem layoutsAlong_deviceToHost :
    (spotOf op.input).layoutsAlong op (deviceToHost op) = deviceToHostLayouts op := by
  unfold deviceToHost deviceToHostLayouts
  cases op.changesLayout <;> cases op.casts <;> cases op.tilized <;> cases op.inputOnDevice <;>
    cases op.resultOnDevice <;> rfl

theorem layoutsAlong_deviceToDevice :
    (spotOf op.input).layoutsAlong op (deviceToDevice op) = deviceToDeviceLayouts op := by
  have hnil := (@layoutsAlong_configuration op) (spotOf op.input) []
  rw [List.nil_append] at hnil
  unfold deviceToDevice deviceToDeviceLayouts
  cases op.changesLayout <;> cases op.casts <;> cases op.tilized <;> cases op.inputOnDevice <;>
    cases op.resultOnDevice <;>
      simp only [if_true, if_false, Bool.false_eq_true, layoutsAlong_configuration, hnil] <;> rfl

end Spots

/-! ## The whole conversion -/

section Whole

variable {op : ToLayoutOp}

/-- The path goes by where the tensor is and where it goes. -/
theorem path_eq (op : ToLayoutOp) :
    path op = if op.input.getBufferType = .systemMemory then
        if op.result.getBufferType = .systemMemory then hostToHost op else hostToDevice op
      else if op.result.getBufferType = .systemMemory then deviceToHost op
      else deviceToDevice op := by
  have hin : op.info.input.isOnHost = decide (op.input.getBufferType = .systemMemory) := rfl
  have hout : op.info.output.isOnHost = decide (op.result.getBufferType = .systemMemory) := rfl
  simp only [path, hin, hout, decide_eq_true_eq]

/-- Every step of the path finds what it needs. -/
theorem meetsAll_path (op : ToLayoutOp) : (spotOf op.input).MeetsAll op (path op) := by
  rw [path_eq]
  have hdevice : op.result.getBufferType ≠ .systemMemory → op.info.output.isOnHost = false := by
    intro h
    rw [Bool.eq_false_iff, ne_eq, isOnHost_output_iff]
    exact h
  split_ifs with hin hout hout
  · exact meets_hostToHost hin
  · exact meets_hostToDevice hin (hdevice hout)
  · exact meets_deviceToHost hin
  · exact meets_deviceToDevice hin hout (hdevice hout)

theorem layoutsAlong_path (op : ToLayoutOp) :
    (spotOf op.input).layoutsAlong op (path op) = op.layouts := by
  rw [path_eq, ToLayoutOp.layouts]
  split_ifs
  · exact layoutsAlong_hostToHost
  · exact layoutsAlong_hostToDevice
  · exact layoutsAlong_deviceToHost
  · exact layoutsAlong_deviceToDevice

/-- **The last spot of a path** is the one asked for, where no data type and no place is lost. -/
theorem same_path (hop : op.WellFormed) :
    ((spotOf op.input).nextAll op (path op)).Same (spotOf op.result) ↔
      ¬ op.losesDataType ∧ op.KeepsPlace := by
  obtain ⟨hlayout, hcasts, htilized, hinput, hresult⟩ := flags_iff op
  have hbits := dataTypeToElementType_eq_iff op.result.getElementType.dataType
  have hbits' := dataTypeToElementType_eq_iff op.input.getElementType.dataType
  have hs := hop.input_scalar
  have hs' := hop.result_scalar
  have hnone := @memLayout_of_host op.input
  have hnone' := @memLayout_of_host op.result
  rw [path_eq]
  unfold ToLayoutOp.losesDataType ToLayoutOp.KeepsPlace
  cases hI : op.input.getElementType.layout <;> cases hO : op.result.getElementType.layout
  all_goals
    split_ifs with hin hout hout
    · unfold hostToHost
      split_ifs <;> simp_all [Spot.nextAll, Spot.Same, Spot.next, spotOf, recast_dataType,
        relaid_dataType, scalarDataType_eq]
    · unfold hostToDevice
      split_ifs <;> simp_all [Spot.nextAll, Spot.Same, Spot.next, spotOf, recast_dataType,
        relaid_dataType, scalarDataType_eq]
    · unfold deviceToHost
      split_ifs <;> simp_all [Spot.nextAll, Spot.Same, Spot.next, spotOf, recast_dataType,
        relaid_dataType, scalarDataType_eq, Place.onHost]
    · unfold deviceToDevice configuration ToLayoutOp.roundTrips ToLayoutOp.forgets
      split_ifs <;> simp_all [Spot.nextAll, Spot.Same, Spot.next, spotOf, recast_dataType,
        relaid_dataType, scalarDataType_eq, Place.onHost]

/-- A path moves to the device for a device result, from the host or after a round trip. -/
theorem toDevice_mem_path (op : ToLayoutOp) :
    .toDevice ∈ path op ↔ op.result.getBufferType ≠ .systemMemory ∧
      (op.input.getBufferType = .systemMemory ∨ op.roundTrips = true) := by
  rw [path_eq]
  split_ifs with hin hout hout
  · unfold hostToHost
    cases op.changesLayout <;> cases op.casts <;> simp [hout]
  · unfold hostToDevice
    cases op.changesLayout <;> cases op.casts <;> cases op.tilized <;>
      cases op.inputOnDevice <;> cases op.resultOnDevice <;> simp [hin, hout]
  · unfold deviceToHost
    cases op.changesLayout <;> cases op.casts <;> cases op.tilized <;>
      cases op.inputOnDevice <;> cases op.resultOnDevice <;> simp [hout]
  · unfold deviceToDevice ToLayoutOp.roundTrips configuration
    cases op.changesLayout <;> cases op.casts <;> cases op.tilized <;>
      cases op.inputOnDevice <;> cases op.resultOnDevice <;> cases op.configures <;>
        simp [hin, hout]

/-- A memory configuration is needed only for another place. -/
theorem place_ne_of_configures (h : op.configures = true) :
    (spotOf op.input).place ≠ (spotOf op.result).place := by
  intro hplace
  obtain ⟨hbuf, hmem, hgrid⟩ := Place.mk.inj hplace
  have hbuf' : op.info.input.bufferType = op.info.output.bufferType := hbuf
  have hmem' : op.info.input.tensorMemoryLayout = op.info.output.tensorMemoryLayout := hmem
  have hgrid' : op.info.input.shardGrid = op.info.output.shardGrid := hgrid
  have hnone : op.configures = false := by
    change OpsToCreate.createToMemoryConfigOp (determineRequiredOps op.info.input op.info.output)
      = false
    unfold determineRequiredOps
    simp only [hbuf', hmem', hgrid', ne_eq, not_true, decide_false, Bool.and_false,
      Bool.or_false, Bool.false_or]
    cases op.info.output.bufferType <;> simp
  rw [hnone] at h
  cases h

/-- The conversions of a path are asked for. -/
theorem atMostRequested_path (op : ToLayoutOp) : op.AtMostRequested (path op) := by
  obtain ⟨hlayout, hcasts, -, -, -⟩ := flags_iff op
  have hsteps : (path op).Nodup ∧ (.toLayout ∈ path op → op.changesLayout = true) ∧
      (.cast ∈ path op → op.casts = true) ∧ (.toMemoryConfig ∈ path op → op.configures = true) ∧
      (.fromDevice ∈ path op → op.input.getBufferType ≠ .systemMemory) := by
    rw [path_eq]
    split_ifs with hin hout hout
    · unfold hostToHost
      cases op.changesLayout <;> cases op.casts <;> simp
    · unfold hostToDevice
      cases op.changesLayout <;> cases op.casts <;> cases op.tilized <;>
        cases op.inputOnDevice <;> cases op.resultOnDevice <;> simp
    · unfold deviceToHost
      cases op.changesLayout <;> cases op.casts <;> cases op.tilized <;>
        cases op.inputOnDevice <;> cases op.resultOnDevice <;> simp [hin]
    · unfold deviceToDevice configuration
      cases op.changesLayout <;> cases op.casts <;> cases op.tilized <;>
        cases op.inputOnDevice <;> cases op.resultOnDevice <;> cases op.configures <;> simp [hin]
  obtain ⟨hnodup, hl, hc, hm, hf⟩ := hsteps
  exact ⟨hnodup, fun h => hlayout.mp (hl h), fun h => hcasts.mp (hc h),
    fun h => place_ne_of_configures (hm h), fun h => ((toDevice_mem_path op).mp h).1, hf⟩

/-- The converter ends with what is asked for. -/
theorem convertTensorLayout_descOf (op : ToLayoutOp) {d : LayoutDesc}
    (h : LayoutConverter.convertTensorLayout ⟨descOf op.input, descOf op.result, op.device⟩
      = .ok d) : d = descOf op.result := by
  have hwf : ∀ L, (descOf L).WellFormed := by
    intro L
    unfold LayoutDesc.WellFormed LayoutDesc.isOnDevice LayoutDesc.isOnHost descOf
    by_cases hb : L.getBufferType = .systemMemory <;> simp [hb]
  exact LayoutConverter.convertTensorLayout_eq (hwf op.input) (hwf op.result) h

/-- **The conversion follows its path.** -/
theorem reachesRequest_iff_path (hop : op.WellFormed) (hvalid : op.CreationValid) :
    op.ReachesRequest ↔ (op.device = true ∨ op.result.getBufferType = .systemMemory) ∧
      (spotOf op.input).CanAll op (path op) ∧
        ((spotOf op.input).nextAll op (path op)).Same (spotOf op.result) := by
  obtain ⟨hcan, hrun⟩ := execAll_spec hop.result_tiled (path op) ⟨op.input, []⟩ hop.tiled
    (meetsAll_path op)
  have heq := createLayoutConversionOps_eq hop hvalid
  have hguard : (!op.device && !op.info.output.isOnHost) = true ↔
      ¬ (op.device = true ∨ op.result.getBufferType = .systemMemory) := by
    rw [← isOnHost_output_iff]
    cases op.device <;> cases op.info.output.isOnHost <;> simp
  constructor
  · rintro ⟨⟨run, hrun', hsame, -, -⟩, -⟩
    rw [heq] at hrun'
    split_ifs at hrun' with hdevice
    · refine ⟨not_not.mp (mt hguard.mpr hdevice), hcan.mp ⟨run, hrun'⟩, ?_⟩
      rw [← (hrun run hrun').1]
      exact hsame
  · rintro ⟨hdevice, hcan', hsame⟩
    obtain ⟨run, hrun'⟩ := hcan.mpr hcan'
    obtain ⟨hend, emitted, hemitted, hsteps, hpre⟩ := hrun run hrun'
    rw [List.nil_append] at hemitted
    refine ⟨⟨run, ?_, ?_, ?_, ?_⟩, fun d hd => convertTensorLayout_descOf op hd⟩
    · rw [heq, if_neg (fun h => hguard.mp h hdevice)]
      exact hrun'
    · rw [hend]
      exact hsame
    · rw [hemitted]
      exact hpre
    · rw [hemitted, hsteps]
      exact atMostRequested_path op

/-- **When a conversion reaches the requested layout.** -/
theorem reachesRequest_iff (op : ToLayoutOp) (hop : op.WellFormed) (hvalid : op.CreationValid) :
    op.ReachesRequest ↔ op.HoldsWhen := by
  rw [reachesRequest_iff_path hop hvalid, canAll_iff, layoutsAlong_path, toDevice_mem_path,
    same_path hop]
  constructor
  · rintro ⟨hdevice, ⟨hmove, hlayouts⟩, hdata, hplace⟩
    exact ⟨hdevice, fun h h' => hmove ⟨h, h'⟩, hlayouts, hdata, hplace⟩
  · rintro ⟨hdevice, hmove, hlayouts, hdata, hplace⟩
    exact ⟨hdevice, ⟨fun h => hmove h.1 h.2, hlayouts⟩, hdata, hplace⟩

end Whole

/-! ## Two conversions -/

/-- A row major host tensor of `64 × 64` floats. -/
def hostFloats : TTNNLayoutAttr where
  linear := ⟨2, 0, [.dim 0, .dim 1]⟩
  grid := [1, 1]
  memref := ⟨[64, 64], .scalar .float32, .systemMemory⟩
  memLayout := none
  verified := rfl

/-- The tensor in tiles of a type, in DRAM. -/
def dramTiles (dataType : DataType) : TTNNLayoutAttr where
  linear := ⟨2, 0, [.dim 0, .dim 1]⟩
  grid := [1, 1]
  memref := ⟨[2, 2], .tile (.get dataType), .dram⟩
  memLayout := some .interleaved
  verified := rfl

/-- The tensor in rows, block sharded in L1 onto four cores. -/
def shardedRows : TTNNLayoutAttr where
  linear := ⟨2, 0, [.dim 0, .dim 1]⟩
  grid := [2, 2]
  memref := ⟨[32, 32], .scalar .bfloat16, .l1⟩
  memLayout := some .blockSharded
  verified := rfl

/-- `ttnn.to_layout` between two layouts, as its builders make it. -/
def toLayout (input result : TTNNLayoutAttr) : ToLayoutOp where
  shape := [64, 64]
  input := input
  result := result
  memoryConfig := some (layoutInfo result).createMemoryConfigAttr
  dtype := some result.getElementType.dataType
  device := true

theorem wellFormed_hostFloats_dramTiles : (toLayout hostFloats (dramTiles .bfloat16)).WellFormed :=
  ⟨rfl, rfl, fun h => (by cases h), fun _ => le_refl 2, fun _ => rfl, fun h => (by cases h)⟩

/-- Floats are cast on the host, moved to the device and tilized there. -/
theorem reachesRequest_hostFloats_dramTiles :
    (toLayout hostFloats (dramTiles .bfloat16)).ReachesRequest :=
  (reachesRequest_iff (toLayout hostFloats (dramTiles .bfloat16)) wellFormed_hostFloats_dramTiles
    rfl).mpr (by
      refine ⟨Or.inl rfl, fun _ _ => Or.inl rfl, ?_, ?_, ?_⟩
      · intro s hs
        have hlayouts : (toLayout hostFloats (dramTiles .bfloat16)).layouts =
            [⟨.scalar .bfloat16, .systemMemory, none, [1, 1]⟩,
              ⟨.scalar .bfloat16, .dram, some .interleaved, [1, 1]⟩,
              (spotOf (dramTiles .bfloat16))] := rfl
        rw [hlayouts] at hs
        simp only [List.mem_cons, List.not_mem_nil, or_false] at hs
        rcases hs with rfl | rfl | rfl
        · exact ⟨_, rfl⟩
        · exact ⟨_, rfl⟩
        · exact ⟨_, rfl⟩
      · rintro ⟨-, -, -, h, -⟩
        cases h
      · intro h
        cases h)

/-- Tiles of floats in DRAM, requested in rows and sharded in L1, stay in DRAM. -/
theorem dramTiles_shardedRows_not_reached :
    (toLayout (dramTiles .float32) shardedRows).WellFormed ∧
      (toLayout (dramTiles .float32) shardedRows).CreationValid ∧
      ¬ (toLayout (dramTiles .float32) shardedRows).ReachesRequest := by
  have hop : (toLayout (dramTiles .float32) shardedRows).WellFormed :=
    ⟨rfl, rfl, fun _ => le_refl 2, fun h => (by cases h), fun h => (by cases h), fun _ => rfl⟩
  have hvalid : (toLayout (dramTiles .float32) shardedRows).CreationValid := rfl
  refine ⟨hop, hvalid, ?_⟩
  rw [reachesRequest_iff_path hop hvalid]
  rintro ⟨-, -, -, -, hplace⟩
  revert hplace
  decide

end DecomposeLayouts

end TTNN
