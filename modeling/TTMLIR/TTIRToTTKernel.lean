/-
# From tile operations to kernel operations

`TTIRToTTKernel.cpp` lowers the body of a compute thread.  A store becomes a pack, and an
operation of the matrix unit is lowered where it stands.  An operation of the vector unit is
lowered, with the copies of its operands, behind the definition of the buffer it is stored to.

* `ComputeOp`, `ComputeFunc` : the operations of a compute thread, in loops and conditionals;
* `KernelOp` : the operations of a kernel;
* `lowerLoadToCopyTile`, `lowerFPU`, `lowerMatmul`, `lowerSFPU` : the patterns;
* `convert` : the conversion of a function;
* `access_of_convert` : a converted function has no operation that controls the registers.
-/
import TTMLIR.Fallible
import TTMLIR.LoopNest

namespace TTIRToTTKernel

open LoopNest

/-- An SSA value.  A converted memref keeps its number. -/
abbrev Value : Type := ℕ

/-- The binary operations of the matrix unit: `tile_add`, `tile_mul`. -/
inductive FPUOp : Type where
  | add
  | mul
  deriving DecidableEq, Repr

/-- The operations of the vector unit: `tile_div`, `tile_maximum`, `tile_exp`, `tile_sin`. -/
inductive SFPUOp : Type where
  | div
  | maximum
  | exp
  | sin
  deriving DecidableEq, Repr

/-- `SFPUOp::arity`. -/
def SFPUOp.arity : SFPUOp → ℕ
  | .div => 2
  | .maximum => 2
  | .exp => 1
  | .sin => 1

/-- An operation of a compute thread; `other` touches no register. -/
inductive ComputeOp : Type where
  | collapseShape (result src : Value)
  | load (result memref index : Value)
  | store (value memref index : Value)
  | tileFPU (op : FPUOp) (result lhs rhs : Value)
  | tileMatmul (result a b c : Value)
  | tileSFPU (op : SFPUOp) (result : Value) (operands : List Value)
  | other
  deriving DecidableEq, Repr

/-- A function for a compute thread: its memref arguments and its body. -/
structure ComputeFunc : Type where
  args : List Value
  body : Block ComputeOp

/-- An operation of a kernel; `dst` is a register. -/
inductive KernelOp : Type where
  | getCompileArgVal (result : Value) (index : ℕ)
  | cbReinterpretShape (result src : Value)
  | load (result memref index : Value)
  | binaryOpInitCommon (in0 in1 out : Value)
  | tilesInit (op : FPUOp) (in0 in1 : Value)
  | tiles (op : FPUOp) (in0 in1 in0Index in1Index : Value) (dst : ℕ)
  | mmInit (in0 in1 out : Value)
  | mmInitShort (in0 in1 : Value)
  | matmulTiles (in0 in1 in0Index in1Index : Value) (dst : ℕ)
  | initSFPU (inCB outCB : Value)
  | tileInit (op : SFPUOp)
  | tile (op : SFPUOp) (dsts : List ℕ)
  | copyTileInit (cb : Value)
  | copyTile (cb index : Value) (dst : ℕ)
  | packTile (dst : ℕ) (outCB outIndex : Value)
  | tileRegsAcquire
  | tileRegsCommit
  | tileRegsWait
  | tileRegsRelease
  | other
  deriving DecidableEq, Repr

/-! ## Definitions and uses -/

/-- The memref and the index of the load that defines a value. -/
def definingLoad (ops : List ComputeOp) (value : Value) : Option (Value × Value) :=
  ops.findSome? fun
    | .load result memref index => if result = value then some (memref, index) else none
    | _ => none

/-- The values an operation of tiles uses. -/
def ComputeOp.operands : ComputeOp → List Value
  | .store value _ _ => [value]
  | .tileFPU _ _ lhs rhs => [lhs, rhs]
  | .tileMatmul _ a b c => [a, b, c]
  | .tileSFPU _ _ operands => operands
  | _ => []

/-- The uses of a value, the latest first. -/
def uses (ops : List ComputeOp) (value : Value) : List ComputeOp :=
  (ops.flatMap fun op => (op.operands.filter fun operand => operand = value).map fun _ => op).reverse

/-- `mlir::cast<memref::StoreOp>(*op->user_begin())`: the memref that a result is stored to. -/
def storedTo (ops : List ComputeOp) (result : Value) : Option Value :=
  match uses ops result with
  | .store _ memref _ :: _ => some memref
  | _ => none

/-- The buffers in the order they are defined in: the arguments, and the collapsed ones. -/
def ComputeFunc.buffers (f : ComputeFunc) : List Value :=
  f.args ++ (blockInstrs f.body).filterMap fun
    | .collapseShape result _ => some result
    | _ => none

/-! ## The patterns -/

/-- What an operation becomes: what is left in its place, and what is inserted behind the
definition of a buffer. -/
structure Lowered : Type where
  inPlace : List KernelOp
  behind : Option (Value × List KernelOp) := none
  deriving DecidableEq, Repr

/-- The port of a converted buffer, `symbolizeCBPort(0)`. -/
def cbPort (_cb : Value) : ℕ := 0

section Patterns

variable (buffers : List Value) (ops : List ComputeOp)

/-- `lowerLoadToCopyTile`. -/
def lowerLoadToCopyTile (value : Value) (cbIdxAsDstIdx : Bool) : Option (List KernelOp) := do
  let (cb, index) ← definingLoad ops value
  some [.copyTileInit cb, .copyTile cb index (if cbIdxAsDstIdx then cbPort cb else 0)]

/-- `setInsertionPointAfterOperands`: the buffer that is defined last. -/
def latest (operands : List Value) : Option Value :=
  (buffers.filter fun buffer => buffer ∈ operands).getLast?

/-- `TTIRFPUOpsRewriter` for a binary operation. -/
def lowerFPU (op : FPUOp) (result lhs rhs : Value) : Option Lowered := do
  let outCB ← storedTo ops result
  if (uses ops result).length = 1 then
    let (lhsCB, lhsIndex) ← definingLoad ops lhs
    let (rhsCB, rhsIndex) ← definingLoad ops rhs
    some ⟨[.binaryOpInitCommon lhsCB rhsCB outCB, .tilesInit op lhsCB rhsCB,
      .tiles op lhsCB rhsCB lhsIndex rhsIndex 0], none⟩
  else none

/-- `TTIRFPUOpsRewriter` for a matrix multiplication. -/
def lowerMatmul (result a b c : Value) : Option Lowered := do
  let _ ← storedTo ops result
  if (uses ops result).length = 1 then
    let (cbA, indexA) ← definingLoad ops a
    let (cbB, indexB) ← definingLoad ops b
    let (cbC, _) ← definingLoad ops c
    let insertionPoint ← latest buffers [cbA, cbB, cbC]
    let copy ← lowerLoadToCopyTile ops c false
    some ⟨copy ++ [.mmInitShort cbA cbB, .matmulTiles cbA cbB indexA indexB 0],
      some (insertionPoint, [.mmInit cbA cbB cbC])⟩
  else none

/-- `TTIRSFPUOpsRewriter`. -/
def lowerSFPU (op : SFPUOp) (result : Value) (operands : List Value) : Option Lowered := do
  let operand ← operands.head?
  let (inCB, _) ← definingLoad ops operand
  let outCB ← storedTo ops result
  if buffers.idxOf inCB < buffers.idxOf outCB then
    let copies ← (operands.take op.arity).mapM fun operand => lowerLoadToCopyTile ops operand true
    some ⟨[], some (outCB, .initSFPU inCB outCB :: copies.flatten ++
      [.tileInit op, .tile op (List.range op.arity)])⟩
  else none

/-- The pattern of an operation. -/
def lower : ComputeOp → Option Lowered
  | .collapseShape result src => some ⟨[.cbReinterpretShape result src], none⟩
  | .load result memref index => some ⟨[.load result memref index], none⟩
  | .store _ memref index => some ⟨[.packTile 0 memref index], none⟩
  | .tileFPU op result lhs rhs => lowerFPU ops op result lhs rhs
  | .tileMatmul result a b c => lowerMatmul buffers ops result a b c
  | .tileSFPU op result operands => lowerSFPU buffers ops op result operands
  | .other => some ⟨[.other], none⟩

end Patterns

/-! ## The conversion -/

/-- What is inserted behind the definition of a buffer.  Each operation is lowered right behind
it, in front of what was lowered there before. -/
def insertedBehind (lowered : List Lowered) (buffer : Value) : List KernelOp :=
  ((lowered.filterMap Lowered.behind).filter fun p => p.1 = buffer).reverse.flatMap Prod.snd

/-- An operation as it is lowered: what is left in its place, and what is inserted behind the
buffer it defines. -/
def ComputeFunc.lowerOp (f : ComputeFunc) (lowered : List Lowered) (op : ComputeOp) :
    List KernelOp :=
  ((lower f.buffers (blockInstrs f.body) op).elim [] Lowered.inPlace) ++
    match op with
    | .collapseShape result _ => insertedBehind lowered result
    | _ => []

/-- The conversion of a function, where no assertion fails.  `TTIRKernelFunctionArgsRewriter`
defines the buffers of the arguments first. -/
def convert (f : ComputeFunc) : Option (Block KernelOp) := do
  let lowered ← (blockInstrs f.body).mapM (lower f.buffers (blockInstrs f.body))
  let args := f.args.zipIdx.flatMap fun (arg, i) =>
    .getCompileArgVal arg i :: insertedBehind lowered arg
  some (args.map .instr ++ expand (f.lowerOp lowered) f.body)

/-! ## Registers -/

/-- What an operation does with the destination registers. -/
inductive Access : Type where
  | acquire
  | commit
  | wait
  | release
  | math
  | pack
  | none
  deriving DecidableEq, Repr

/-- What an operation does with the destination registers.  Copies write them and are counted
among the mathematical operations. -/
def KernelOp.access : KernelOp → Access
  | .tileRegsAcquire => .acquire
  | .tileRegsCommit => .commit
  | .tileRegsWait => .wait
  | .tileRegsRelease => .release
  | .tiles _ _ _ _ _ _ | .matmulTiles _ _ _ _ _ | .tile _ _ | .copyTile _ _ _ => .math
  | .packTile _ _ _ => .pack
  | _ => .none

/-- An operation that controls the registers. -/
def KernelOp.isControl (op : KernelOp) : Bool :=
  op.access = .acquire || op.access = .commit || op.access = .wait || op.access = .release

section Convert

variable {buffers : List Value} {ops : List ComputeOp}

/-- No operation of a list controls the registers. -/
def NoControl (l : List KernelOp) : Prop := ∀ op ∈ l, op.isControl = false

theorem NoControl.append {l l' : List KernelOp} (h : NoControl l) (h' : NoControl l') :
    NoControl (l ++ l') :=
  fun op hop => (List.mem_append.mp hop).elim (h op) (h' op)

/-- A tile is copied without control operations. -/
theorem noControl_copyTile {value : Value} {cbIdxAsDstIdx : Bool} {copy : List KernelOp}
    (h : lowerLoadToCopyTile ops value cbIdxAsDstIdx = some copy) : NoControl copy := by
  obtain ⟨⟨cb, index⟩, -, h⟩ := Option.bind_eq_some_iff.mp h
  rw [← Option.some.inj h]
  exact fun op hop => by
    rcases List.mem_pair.mp hop with rfl | rfl <;> rfl

theorem exists_of_mem_results {α β : Type} {f : α → Option β} {l : List α} {l' : List β} {b : β}
    (h : l.mapM f = some l') (hb : b ∈ l') : ∃ a, f a = some b := by
  obtain ⟨a, -, hab⟩ := Fallible.exists_of_forall₂ (Fallible.forall₂_of_mapM_eq_some h).flip hb
  exact ⟨a, hab⟩

theorem noControl_copies {arity : ℕ} {operands : List Value} {copies : List (List KernelOp)}
    (h : ((operands.take arity).mapM fun operand => lowerLoadToCopyTile ops operand true) =
      some copies) : NoControl copies.flatten := by
  intro op hop
  obtain ⟨copy, hcopy, hop⟩ := List.mem_flatten.mp hop
  obtain ⟨operand, hlower⟩ := exists_of_mem_results h hcopy
  exact noControl_copyTile hlower op hop

/-- A pattern emits no operation that controls the registers. -/
theorem noControl_lower {op : ComputeOp} {lowered : Lowered}
    (h : lower buffers ops op = some lowered) :
    NoControl lowered.inPlace ∧ ∀ p ∈ lowered.behind, NoControl p.2 := by
  cases op with
  | collapseShape result src =>
    rw [← Option.some.inj h]
    exact ⟨by simp [NoControl, KernelOp.isControl, KernelOp.access], by simp⟩
  | load result memref index =>
    rw [← Option.some.inj h]
    exact ⟨by simp [NoControl, KernelOp.isControl, KernelOp.access], by simp⟩
  | store value memref index =>
    rw [← Option.some.inj h]
    exact ⟨by simp [NoControl, KernelOp.isControl, KernelOp.access], by simp⟩
  | other =>
    rw [← Option.some.inj h]
    exact ⟨by simp [NoControl, KernelOp.isControl, KernelOp.access], by simp⟩
  | tileFPU op result lhs rhs =>
    obtain ⟨outCB, -, h⟩ := Option.bind_eq_some_iff.mp h
    split_ifs at h with huse
    obtain ⟨⟨lhsCB, lhsIndex⟩, -, h⟩ := Option.bind_eq_some_iff.mp h
    obtain ⟨⟨rhsCB, rhsIndex⟩, -, h⟩ := Option.bind_eq_some_iff.mp h
    rw [← Option.some.inj h]
    exact ⟨by simp [NoControl, KernelOp.isControl, KernelOp.access], by simp⟩
  | tileMatmul result a b c =>
    obtain ⟨outCB, -, h⟩ := Option.bind_eq_some_iff.mp h
    split_ifs at h with huse
    obtain ⟨⟨cbA, indexA⟩, -, h⟩ := Option.bind_eq_some_iff.mp h
    obtain ⟨⟨cbB, indexB⟩, -, h⟩ := Option.bind_eq_some_iff.mp h
    obtain ⟨⟨cbC, indexC⟩, -, h⟩ := Option.bind_eq_some_iff.mp h
    obtain ⟨insertionPoint, -, h⟩ := Option.bind_eq_some_iff.mp h
    obtain ⟨copy, hcopy, h⟩ := Option.bind_eq_some_iff.mp h
    rw [← Option.some.inj h]
    refine ⟨(noControl_copyTile hcopy).append ?_, ?_⟩ <;>
      simp [NoControl, KernelOp.isControl, KernelOp.access]
  | tileSFPU op result operands =>
    obtain ⟨operand, -, h⟩ := Option.bind_eq_some_iff.mp h
    obtain ⟨⟨inCB, index⟩, -, h⟩ := Option.bind_eq_some_iff.mp h
    obtain ⟨outCB, -, h⟩ := Option.bind_eq_some_iff.mp h
    split_ifs at h with horder
    obtain ⟨copies, hcopies, h⟩ := Option.bind_eq_some_iff.mp h
    rw [← Option.some.inj h]
    refine ⟨by simp [NoControl], fun p hp => ?_⟩
    rw [← Option.mem_some.mp hp]
    refine NoControl.append (l := [.initSFPU inCB outCB]) ?_
      ((noControl_copies hcopies).append ?_) <;>
        simp [NoControl, KernelOp.isControl, KernelOp.access]

/-- What is inserted behind an operation has no control operations. -/
theorem noControl_insertedBehind {lowered : List Lowered}
    (h : ∀ l ∈ lowered, ∀ p ∈ l.behind, NoControl p.2) (buffer : Value) :
    NoControl (insertedBehind lowered buffer) := by
  intro op hop
  obtain ⟨p, hp, hop⟩ := List.mem_flatMap.mp hop
  obtain ⟨hp, -⟩ := List.mem_filter.mp (List.mem_reverse.mp hp)
  obtain ⟨l, hl, hbehind⟩ := List.mem_filterMap.mp hp
  exact h l hl p hbehind op hop

/-- **A converted function does not control the registers.** -/
theorem noControl_convert {f : ComputeFunc} {kernel : Block KernelOp} (h : convert f = some kernel) :
    NoControl (blockInstrs kernel) := by
  obtain ⟨lowered, hlowered, h⟩ := Option.bind_eq_some_iff.mp h
  have hbehind : ∀ l ∈ lowered, ∀ p ∈ l.behind, NoControl p.2 := by
    intro l hl
    obtain ⟨op, hlower⟩ := exists_of_mem_results hlowered hl
    exact (noControl_lower hlower).2
  rw [← Option.some.inj h, blockInstrs_append, blockInstrs_instrs, blockInstrs_expand]
  refine NoControl.append ?_ ?_
  · intro op hop
    obtain ⟨⟨arg, i⟩, -, hop⟩ := List.mem_flatMap.mp hop
    rcases List.mem_cons.mp hop with rfl | hop
    · rfl
    · exact noControl_insertedBehind hbehind arg op hop
  · intro op hop
    obtain ⟨source, -, hop⟩ := List.mem_flatMap.mp hop
    rcases List.mem_append.mp hop with hop | hop
    · cases hlower : lower f.buffers (blockInstrs f.body) source with
      | none => rw [hlower] at hop; cases hop
      | some l => rw [hlower] at hop; exact (noControl_lower hlower).1 op hop
    · cases source with
      | collapseShape result src => exact noControl_insertedBehind hbehind result op hop
      | _ => cases hop

end Convert

end TTIRToTTKernel
