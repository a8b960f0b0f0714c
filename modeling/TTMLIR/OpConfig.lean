/-
# What the optimizer's analyses read

Operation configurations, and the functions the memory layout analyses of the TTNN optimizer work
on.

* `OpConfig` : an output layout with operation specific attributes;
* `FuncOp` : a function after the conversion to TTNN;
* `Checked` : results of code that stops at assertions.
-/
import TTMLIR.Scheduler
import TTMLIR.TTNNLayout

namespace TTNN

open SSA Scheduler

/-! ## Assertions -/

/-- Why the compiler stops. -/
inductive Abort : Type where
  /-- An assertion on the state of an L1 chain. -/
  | chainState
  /-- `front` or `back` of a vector without elements. -/
  | emptyVector
  /-- A container or a bitset accessed out of its range. -/
  | outOfRange (message : String)
  /-- Any other assertion. -/
  | assertion (message : String)
  /-- The bound on a loop is used up; no run of the models gets there. -/
  | outOfFuel
  deriving DecidableEq, Repr

/-- A result, or the place where the compiler stops. -/
abbrev Checked (α : Type) : Type := Except Abort α

/-- A sequence succeeds when both of its parts do. -/
theorem Checked.bind_eq_ok {α β : Type} {x : Checked α} {f : α → Checked β} {b : β} :
    x.bind f = .ok b ↔ ∃ a, x = .ok a ∧ f a = .ok b := by
  cases x with
  | error e => simp [Except.bind]
  | ok a => simp [Except.bind]

/-! ## Layouts -/

namespace TTNNLayoutAttr

/-- `hasDRAMBufferType`. -/
def hasDRAMBufferType (L : TTNNLayoutAttr) : Bool := L.getBufferType = .dram

/-- `hasInterleavedL1TensorMemoryLayout`. -/
def hasInterleavedL1TensorMemoryLayout (L : TTNNLayoutAttr) : Bool :=
  L.getBufferType = .l1 && L.memLayout = some .interleaved

/-- `getScalarElementType`. -/
def getScalarElementType (L : TTNNLayoutAttr) : DataType :=
  match L.getElementType with
  | .scalar dataType => dataType
  | .tile t => t.dataType

/-- `getElementSizeBytes`. -/
def getElementSizeBytes (L : TTNNLayoutAttr) : ℕ :=
  match L.getElementType with
  | .tile t => t.getSizeBytes
  | .scalar .float32 | .scalar .uint32 | .scalar .int32 => 4
  | .scalar .float16 | .scalar .bfloat16 | .scalar .uint16 => 2
  | .scalar _ => 1

/-- `getShardSizeInBytes`, in unsigned 64 bit arithmetic. -/
def getShardSizeInBytes (L : TTNNLayoutAttr) : ℕ :=
  L.memref.shape.foldl (fun size extent => size * extent % 2 ^ 64) L.getElementSizeBytes

/-- `getGrid().getGridVolume()`, in unsigned 64 bit arithmetic. -/
def getGridVolume (L : TTNNLayoutAttr) : ℕ :=
  L.grid.foldl (fun volume dim => volume * dim % 2 ^ 64) 1

end TTNNLayoutAttr

/-- `getOpOutputL1Usage`: what is not in DRAM counts as L1. -/
def getOpOutputL1Usage (opLayout : TTNNLayoutAttr) : ℕ :=
  if opLayout.hasDRAMBufferType then 0 else opLayout.getShardSizeInBytes

/-! ## Configurations and edges -/

/-- `OpConfig`.  Operation specific attributes are only compared. -/
structure OpConfig : Type where
  outputLayout : TTNNLayoutAttr
  opSpecificAttr : Option String
  deriving DecidableEq

/-- The legal configurations of operations; `none` for an operation that is not a key. -/
abbrev LegalConfigs : Type := ℕ → Option (List OpConfig)

/-- `legalConfigs.lookup(op)`. -/
def LegalConfigs.lookup (legalConfigs : LegalConfigs) (op : ℕ) : List OpConfig :=
  (legalConfigs op).getD []

/-! ## Functions and modules -/

/-- `RankedTensorType` with its layout. -/
structure RankedTensorType : Type where
  shape : List ℕ
  encoding : TTNNLayoutAttr
  deriving DecidableEq

/-- The type of a value; `none` for devices, tuples and other types without a layout. -/
abbrev ValueType : Type := Option RankedTensorType

/-- `func::FuncOp` when the optimizer runs: no TTIR operation is left. -/
structure FuncOp : Type where
  constEval : Bool
  argTypes : List ValueType
  body : Func OpName ValueType
  numArgs_eq : body.numArgs = argTypes.length
  converted : ∀ op ∈ body.ops, op.name.dialect ≠ .ttir

/-- `getDefiningOp`. -/
def getDefiningOp : Value → Option ℕ
  | .blockArg _ => none
  | .opResult op _ => some op

namespace FuncOp

variable (f : FuncOp)

/-- The operation with an identity. -/
def getOp (op : ℕ) : Option (Op ValueType) := f.body.ops.find? fun o => o.id = op

/-- The operands of an operation. -/
def operands (op : ℕ) : List Value := ((f.getOp op).map Operation.operands).getD []

/-- `op->getUsers()` without the terminator: one entry for each use of a result. -/
def getUsers (op : ℕ) : List ℕ :=
  f.body.ops.flatMap fun use => (use.operands.filter fun v => getDefiningOp v = some op).map
    fun _ => use.id

/-- The uses of the results of an operation by the terminator. -/
def returnUses (op : ℕ) : List Value :=
  f.body.returns.filter fun v => getDefiningOp v = some op

variable {f} {op : ℕ}

/-- An operation is found by its identity. -/
theorem getOp_eq_some {o : Op ValueType} : f.getOp op = some o ↔ o ∈ f.body.ops ∧ o.id = op := by
  constructor
  · intro h
    exact ⟨List.mem_of_find?_eq_some h, by simpa using List.find?_some h⟩
  · rintro ⟨ho, rfl⟩
    have hsome : (f.getOp o.id).isSome := by
      rw [getOp, List.find?_isSome]
      exact ⟨o, ho, by simp⟩
    obtain ⟨o', ho'⟩ := Option.isSome_iff_exists.mp hsome
    have hid : o'.id = o.id := by simpa using List.find?_some ho'
    rw [ho', eq_of_id_eq f.body.nodup (List.mem_of_find?_eq_some ho') ho hid]

/-- The operands of an operation of the function. -/
theorem operands_of_mem {o : Op ValueType} (ho : o ∈ f.body.ops) :
    f.operands o.id = o.operands := by
  rw [operands, getOp_eq_some.mpr ⟨ho, rfl⟩]
  rfl

/-- Only operations of the function have operands. -/
theorem exists_of_mem_operands {v : Value} (h : v ∈ f.operands op) :
    ∃ o ∈ f.body.ops, o.id = op ∧ v ∈ o.operands := by
  cases ho : f.getOp op with
  | none => simp [operands, ho] at h
  | some o =>
    obtain ⟨hmem, hid⟩ := getOp_eq_some.mp ho
    exact ⟨o, hmem, hid, by simpa [operands, ho] using h⟩

/-- The users read a result of the operation. -/
theorem mem_getUsers {use : ℕ} :
    use ∈ f.getUsers op ↔ ∃ v ∈ f.operands use, getDefiningOp v = some op := by
  simp only [getUsers, List.mem_flatMap, List.mem_map, List.mem_filter, decide_eq_true_eq]
  constructor
  · rintro ⟨o, ho, v, ⟨hv, hdef⟩, rfl⟩
    exact ⟨v, by rwa [operands_of_mem ho], hdef⟩
  · rintro ⟨v, hv, hdef⟩
    obtain ⟨o, ho, rfl, hvo⟩ := exists_of_mem_operands hv
    exact ⟨o, ho, v, ⟨hvo, hdef⟩, rfl⟩

end FuncOp

end TTNN
