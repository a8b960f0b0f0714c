/-
# Calls of hoisted functions

A hoisted function takes the descriptors of its tensors, word by word.
`generateLLVMWrappersForArgRanks` of `EmitWrapperFuncs.cpp` emits a wrapper that reads these words
from an array of packed tensors, and `run` of `cpu.cpp` packs the tensors of a call.

* `originalCallArgs`, `Value.eval` : the emitted wrapper, and what its values are;
* `calculateStride`, `packTensors`, `CpuOp.run` : the runtime;
* `mapM_originalCallArgs` : the wrapper reads what the runtime packs;
* `CpuOp.Passes` : the function gets the descriptors of its arguments, and its result is the last
  one;
* `CpuOp.passes_iff` : when this is so.

The strides are computed as numbers of 32 bits, and a tensor without dimensions has none.
-/
import TTMLIR.HoistCPUOps
import TTMLIR.Fallible

namespace CpuCall

open HoistCPUOps Fallible

/-! ## The memory of a call -/

/-- A word of 64 bits: a number, the address of a word of a block, or the data of a tensor. -/
inductive Word : Type where
  | int (n : ℕ)
  | ptr (block offset : ℕ)
  | data (buffer : ℕ)
  deriving DecidableEq, Repr

/-- The blocks that are allocated for the call. -/
abbrev Memory : Type := List (List Word)

/-- A load: only the words of the blocks can be read. -/
def load (memory : Memory) : Word → Option Word
  | .ptr block offset => do (← memory[block]?)[offset]?
  | _ => none

/-! ## The wrapper -/

/-- A value in the body of the wrapper. -/
inductive Value : Type where
  | structArrayPtr
  | constant (n : ℕ)
  | mul (a b : Value)
  | gep (base index : Value)
  | load (ptr : Value)
  | extractValue (structPtr : Value) (member : ℕ)
  deriving DecidableEq, Repr

/-- The arguments that are unpacked for one tensor. -/
def unpack (tensorIdx rank : ℕ) : List Value :=
  let offset := .mul (.constant tensorIdx) (.constant 4)
  let structPtr := .gep .structArrayPtr offset
  let tensorBase := .extractValue structPtr 0
  let alignedBase := .extractValue structPtr 1
  let startIdx := .extractValue structPtr 2
  let sizesAndStrides := .extractValue structPtr 3
  [tensorBase, alignedBase, startIdx] ++
    (List.range (2 * rank)).map fun i => .load (.gep sizesAndStrides (.constant i))

/-- The arguments of the call in the wrapper. -/
def originalCallArgs (argRanks : List ℕ) : List Value :=
  argRanks.zipIdx.flatMap fun p => unpack p.2 p.1

/-- The product of two numbers. -/
def Word.mul : Word → Word → Option Word
  | .int m, .int n => some (.int (m * n))
  | _, _ => none

/-- The address some words after another one. -/
def Word.gep : Word → Word → Option Word
  | .ptr block offset, .int n => some (.ptr block (offset + n))
  | _, _ => none

/-- The value of a value.  A member is taken out of the struct of four words, which is loaded. -/
def Value.eval (memory : Memory) (arg : Word) : Value → Option Word
  | structArrayPtr => some arg
  | constant n => some (.int n)
  | mul a b => do (← a.eval memory arg).mul (← b.eval memory arg)
  | gep base index => do (← base.eval memory arg).gep (← index.eval memory arg)
  | load ptr => do CpuCall.load memory (← ptr.eval memory arg)
  | extractValue structPtr member => do
      let ptr ← structPtr.eval memory arg
      let members ← [0, 1, 2, 3].mapM fun i => do CpuCall.load memory (← ptr.gep (.int i))
      members[member]?

/-! ## The runtime -/

/-- `TensorRef`: the shape is a list of numbers of 32 bits. -/
structure TensorRef : Type where
  globalId : ℕ
  shape : List ℕ
  lt : ∀ n ∈ shape, n < 2 ^ 31

/-- `CpuOp`, a call of the function that was made for a hoisted operation, with its types. -/
structure CpuOp (α : Type) : Type where
  op : Operation α
  ins : List TensorRef
  out : ℕ
  types : List.Forall₂ (fun operand t => ∃ element encoding,
    operand.type = .tensor ⟨t.shape.map fun n : ℕ => (n : ℤ), element, encoding⟩) op.operands ins

/-- The loop of `calculateStride` over numbers of 32 bits. -/
def strideLoop (shape : List ℕ) : List ℕ × ℕ :=
  shape.foldr (fun n acc => (acc.2 :: acc.1, acc.2 * n % 2 ^ 32)) ([], 1)

/-- `calculateStride`, with its assertion. -/
def calculateStride (shape : List ℕ) : Option (List ℕ) :=
  if shape = [] then none else some (strideLoop shape).1

/-- A packed tensor: its buffer, its sizes and its strides. -/
structure Packed : Type where
  buffer : ℕ
  sizesAndStrides : List ℕ

/-- `packTensors`, for one tensor. -/
def packTensor (pool : ℕ → Option ℕ) (t : TensorRef) : Option Packed := do
  let rawDataPtr ← pool t.globalId
  let strides ← calculateStride t.shape
  return ⟨rawDataPtr, t.shape ++ strides⟩

/-- `WrappedTensor`. -/
def wrappedTensor (p : Packed) (i : ℕ) : List Word :=
  [.data p.buffer, .data p.buffer, .int 0, .ptr (i + 1) 0]

/-- The blocks of the packed tensors. -/
def memoryOf (packed : List Packed) : Memory :=
  packed.zipIdx.flatMap (fun p => wrappedTensor p.1 p.2) ::
    packed.map fun p => p.sizesAndStrides.map .int

variable {α β : Type}

/-- `run`: the tensor pool and the data of the tensors after the call of a function. -/
def CpuOp.run (call : CpuOp α) (fn : List Word → β → β) (pool : ℕ → Option ℕ) (data : β) :
    Option ((ℕ → Option ℕ) × β) := do
  let packed ← call.ins.mapM (packTensor pool)
  let out ← pool (← call.ins.getLast?).globalId
  let args ← (originalCallArgs (getOperandTensorRanks call.op)).mapM
    (Value.eval (memoryOf packed) (.ptr 0 0))
  return (Function.update pool call.out (some out), fn args data)

/-! ## What has to hold -/

/-- The row-major strides of a shape. -/
def rowMajorStrides : List ℕ → List ℕ
  | [] => []
  | _ :: shape => shape.prod :: rowMajorStrides shape

/-- The descriptor of a tensor: base, aligned base, offset, sizes and strides. -/
def descriptor (buffer : ℕ) (t : TensorRef) : List Word :=
  [.data buffer, .data buffer, .int 0] ++ (t.shape ++ rowMajorStrides t.shape).map .int

/-- **The call passes its arguments.**  Whatever the function does, it is called with the descriptors
of the arguments in order, no other word is read, and the result is the last argument, with the data
that the function leaves. -/
def CpuOp.Passes (call : CpuOp α) : Prop :=
  ∀ (β : Type) (fn : List Word → β → β) (pool : ℕ → Option ℕ) (data : β) (buffers : List ℕ),
    call.ins.map (fun t => pool t.globalId) = buffers.map some →
      call.run fn pool data = some (Function.update pool call.out buffers.getLast?,
        fn (List.zipWith descriptor buffers call.ins).flatten data)

/-! ## Strides -/

theorem strideLoop_eq (shape : List ℕ) : strideLoop shape =
    ((rowMajorStrides shape).map (· % 2 ^ 32), shape.prod % 2 ^ 32) := by
  induction shape with
  | nil => rfl
  | cons n shape ih =>
    show ((strideLoop shape).2 :: (strideLoop shape).1, (strideLoop shape).2 * n % 2 ^ 32) = _
    rw [ih, rowMajorStrides, List.map_cons, List.prod_cons, Nat.mod_mul_mod, mul_comm n]

theorem length_rowMajorStrides (shape : List ℕ) :
    (rowMajorStrides shape).length = shape.length := by
  induction shape with
  | nil => rfl
  | cons n shape ih => rw [rowMajorStrides, List.length_cons, ih, List.length_cons]

/-- The computed strides are the row-major ones when they are numbers of 32 bits. -/
theorem calculateStride_eq_iff (shape : List ℕ) :
    calculateStride shape = some (rowMajorStrides shape) ↔
      shape ≠ [] ∧ ∀ s ∈ rowMajorStrides shape, s < 2 ^ 32 := by
  rw [calculateStride, strideLoop_eq]
  split
  · rename_i h
    exact iff_of_false (fun h' => nomatch h') (fun h' => h'.1 h)
  · rename_i h
    have hself := List.map_inj_left (l := rowMajorStrides shape) (f := (· % 2 ^ 32)) (g := id)
    rw [List.map_id] at hself
    rw [Option.some_inj, hself]
    exact ⟨fun hall => ⟨h, fun s hs => (Nat.mod_eq_iff_lt (by norm_num)).mp (hall s hs)⟩,
      fun hall s hs => Nat.mod_eq_of_lt (hall.2 s hs)⟩

/-! ## The unpacked words -/

/-- Blocks of one length that are joined keep their words at multiples of it. -/
theorem getElem?_flatMap {γ δ : Type} {f : γ → List δ} {k : ℕ} {l : List γ}
    (hlen : ∀ a ∈ l, (f a).length = k) (i : ℕ) {j : ℕ} (hj : j < k) :
    (l.flatMap f)[k * i + j]? = l[i]?.bind fun a => (f a)[j]? := by
  induction l generalizing i with
  | nil => rfl
  | cons a l ih =>
    have ha := hlen a List.mem_cons_self
    rw [List.flatMap_cons]
    cases i with
    | zero => rw [Nat.mul_zero, Nat.zero_add, List.getElem?_append_left (by omega)]; rfl
    | succ i =>
      rw [List.getElem?_append_right (by rw [ha, Nat.mul_succ]; omega), ha,
        List.getElem?_cons_succ, ← ih (fun b hb => hlen b (List.mem_cons_of_mem _ hb)) i]
      congr 1
      rw [Nat.mul_succ]
      omega

theorem mapM_flatMap {γ δ ε : Type} {f : γ → List δ} {g : δ → Option ε} {h : γ → List ε}
    {l : List γ} (hl : ∀ a ∈ l, (f a).mapM g = some (h a)) :
    (l.flatMap f).mapM g = some (l.flatMap h) := by
  induction l with
  | nil => rfl
  | cons a l ih =>
    rw [List.flatMap_cons, List.mapM_append, hl a List.mem_cons_self,
      ih fun b hb => hl b (List.mem_cons_of_mem _ hb)]
    rfl

theorem mapM_eq_some_map {γ δ : Type} {f : γ → Option δ} {g : γ → δ} {l : List γ}
    (h : ∀ a ∈ l, f a = some (g a)) : l.mapM f = some (l.map g) := by
  induction l with
  | nil => rfl
  | cons a l ih =>
    rw [List.mapM_cons, h a List.mem_cons_self, ih fun b hb => h b (List.mem_cons_of_mem _ hb)]
    rfl

section Unpack

variable {packed : List Packed} {i : ℕ} {p : Packed} (hp : packed[i]? = some p)

include hp

theorem load_member {j : ℕ} (hj : j < 4) :
    load (memoryOf packed) (.ptr 0 (4 * i + j)) = (wrappedTensor p i)[j]? := by
  show (packed.zipIdx.flatMap fun p => wrappedTensor p.1 p.2)[4 * i + j]? = _
  have hlen : ∀ a ∈ packed.zipIdx, (wrappedTensor a.1 a.2).length = 4 := fun _ _ => rfl
  rw [getElem?_flatMap hlen i hj, List.getElem?_zipIdx, hp]
  simp

theorem eval_extractValue {m : ℕ} : (Value.extractValue
    (.gep .structArrayPtr (.mul (.constant i) (.constant 4))) m).eval (memoryOf packed) (.ptr 0 0)
      = (wrappedTensor p i)[m]? := by
  have hmembers : ([0, 1, 2, 3].mapM fun j => do
      load (memoryOf packed) (← (Word.ptr 0 (4 * i)).gep (.int j))) = some (wrappedTensor p i) := by
    have hload := fun j hj => load_member hp (j := j) hj
    simp only [List.mapM_cons, List.mapM_nil, Word.gep, Option.bind_eq_bind, Option.bind_some,
      hload 0 (by decide), hload 1 (by decide), hload 2 (by decide), hload 3 (by decide)]
    rfl
  simp only [Value.eval, Word.mul, Word.gep, Option.bind_eq_bind, Option.bind_some,
    Nat.zero_add, Nat.mul_comm i 4] at hmembers ⊢
  rw [hmembers]
  rfl

/-- The words of one tensor. -/
theorem mapM_unpack {rank : ℕ} (hrank : p.sizesAndStrides.length = 2 * rank) :
    (unpack i rank).mapM (Value.eval (memoryOf packed) (.ptr 0 0))
      = some ([.data p.buffer, .data p.buffer, .int 0] ++ p.sizesAndStrides.map .int) := by
  have hwords : ((List.range (2 * rank)).map fun j => Value.load (.gep
      (.extractValue (.gep .structArrayPtr (.mul (.constant i) (.constant 4))) 3)
      (.constant j))).mapM (Value.eval (memoryOf packed) (.ptr 0 0))
        = some (p.sizesAndStrides.map .int) := by
    have hblock : (memoryOf packed)[i + 1]? = some (p.sizesAndStrides.map .int) := by
      rw [memoryOf, List.getElem?_cons_succ, List.getElem?_map, hp]
      rfl
    have hrange : p.sizesAndStrides.map Word.int
        = (List.range (2 * rank)).map fun j => .int (p.sizesAndStrides.getD j 0) := by
      apply List.ext_getElem
      · rw [List.length_map, List.length_map, List.length_range, hrank]
      · intro j hj _
        rw [List.length_map] at hj
        rw [List.getElem_map, List.getElem_map, List.getElem_range, List.getD_eq_getElem _ _ hj]
    rw [List.mapM_map, hrange]
    apply mapM_eq_some_map
    intro j hj
    have hj' : j < p.sizesAndStrides.length := hrank ▸ List.mem_range.mp hj
    have hload := eval_extractValue hp (m := 3)
    show Option.bind (Option.bind (Value.eval (memoryOf packed) (.ptr 0 0) (.extractValue
      (.gep .structArrayPtr (.mul (.constant i) (.constant 4))) 3)) fun ptr => ptr.gep (.int j))
      (load (memoryOf packed)) = _
    rw [hload]
    simp only [wrappedTensor, List.getElem?_cons_succ, List.getElem?_cons_zero,
      Option.bind_eq_bind, Option.bind_some, Word.gep, Nat.zero_add, load, hblock,
      List.getElem?_map, List.getElem?_eq_getElem hj', Option.map_some, List.getD_eq_getElem _ 0 hj']
  rw [unpack, List.mapM_append, hwords]
  simp only [List.mapM_cons, List.mapM_nil, eval_extractValue hp]
  rfl

end Unpack

/-- **The wrapper reads what the runtime packs**, for recorded ranks of the packed tensors. -/
theorem mapM_originalCallArgs {ranks : List ℕ} {packed : List Packed}
    (h : List.Forall₂ (fun rank (p : Packed) => p.sizesAndStrides.length = 2 * rank) ranks packed) :
    (originalCallArgs ranks).mapM (Value.eval (memoryOf packed) (.ptr 0 0)) = some
      (packed.flatMap fun p => [.data p.buffer, .data p.buffer, .int 0] ++
        p.sizesAndStrides.map .int) := by
  obtain ⟨hmap, heven⟩ : ranks = packed.map (fun p => p.sizesAndStrides.length / 2) ∧
      ∀ p ∈ packed, 2 ∣ p.sizesAndStrides.length := by
    induction h with
    | nil => exact ⟨rfl, nofun⟩
    | cons hrank _ ih =>
      refine ⟨?_, List.forall_mem_cons.mpr ⟨⟨_, hrank⟩, ih.2⟩⟩
      rw [List.map_cons, ← ih.1, hrank, Nat.mul_div_cancel_left _ two_pos]
  have hunpack : ∀ p ∈ packed.zipIdx, (unpack p.2 (p.1.sizesAndStrides.length / 2)).mapM
      (Value.eval (memoryOf packed) (.ptr 0 0)) = some
        ([.data p.1.buffer, .data p.1.buffer, .int 0] ++ p.1.sizesAndStrides.map .int) := by
    intro p hp
    have hget := List.mem_zipIdx_iff_getElem?.mp hp
    exact mapM_unpack hget (Nat.mul_div_cancel' (heven _ (List.mem_of_getElem? hget))).symm
  rw [originalCallArgs, hmap, List.zipIdx_map, List.flatMap_map]
  refine (mapM_flatMap hunpack).trans ?_
  conv_rhs => rw [← List.zipIdx_map_fst 0 packed, List.flatMap_map]

/-! ## Calls -/

theorem getOperandTensorRanks_eq (call : CpuOp α) :
    getOperandTensorRanks call.op = call.ins.map fun t => t.shape.length := by
  have htypes := call.types
  rw [getOperandTensorRanks]
  generalize call.op.operands = operands, call.ins = ins at htypes ⊢
  induction htypes with
  | nil => rfl
  | cons htype _ ih =>
    obtain ⟨element, encoding, htype⟩ := htype
    rw [List.filterMap_cons, htype, List.map_cons, ← ih]
    simp

/-- A packed tensor, as the runtime packs it. -/
def packed (buffer : ℕ) (t : TensorRef) : Packed := ⟨buffer, t.shape ++ (strideLoop t.shape).1⟩

/-- A call of tensors that have dimensions: the wrapper passes what is packed. -/
theorem CpuOp.run_eq (call : CpuOp α) {pool : ℕ → Option ℕ} {bufferOf : TensorRef → ℕ}
    (hpool : ∀ t ∈ call.ins, pool t.globalId = some (bufferOf t))
    (hshape : ∀ t ∈ call.ins, t.shape ≠ []) {last : TensorRef}
    (hlast : call.ins.getLast? = some last) (fn : List Word → β → β) (data : β) :
    call.run fn pool data = some (Function.update pool call.out (some (bufferOf last)),
      fn (call.ins.flatMap fun t => [.data (bufferOf t), .data (bufferOf t), .int 0] ++
        (packed (bufferOf t) t).sizesAndStrides.map .int) data) := by
  have hpacked : call.ins.mapM (packTensor pool)
      = some (call.ins.map fun t => packed (bufferOf t) t) := by
    apply mapM_eq_some_map
    intro t ht
    rw [packTensor, hpool t ht, calculateStride, if_neg (hshape t ht)]
    rfl
  have hranks : List.Forall₂ (fun rank (p : Packed) => p.sizesAndStrides.length = 2 * rank)
      (call.ins.map fun t => t.shape.length) (call.ins.map fun t => packed (bufferOf t) t) := by
    rw [List.forall₂_map_left_iff, List.forall₂_map_right_iff, List.forall₂_same]
    intro t _
    rw [packed, strideLoop_eq, List.length_append, List.length_map, length_rowMajorStrides, two_mul]
  rw [CpuOp.run, hpacked, hlast, getOperandTensorRanks_eq]
  simp only [Option.bind_eq_bind, Option.bind_some, hpool last (List.mem_of_getLast? hlast),
    mapM_originalCallArgs hranks, List.flatMap_map]
  rfl

theorem eq_of_flatMap_eq {γ δ : Type} {f g : γ → List δ} {l : List γ}
    (hlen : ∀ a ∈ l, (f a).length = (g a).length) (h : l.flatMap f = l.flatMap g) :
    ∀ a ∈ l, f a = g a := by
  induction l with
  | nil => exact nofun
  | cons a l ih =>
    rw [List.flatMap_cons, List.flatMap_cons] at h
    obtain ⟨ha, hl⟩ := List.append_inj h (hlen a List.mem_cons_self)
    exact List.forall_mem_cons.mpr ⟨ha, ih (fun b hb => hlen b (List.mem_cons_of_mem _ hb)) hl⟩

theorem flatten_descriptors (ins : List TensorRef) (bufferOf : TensorRef → ℕ) :
    (List.zipWith descriptor (ins.map bufferOf) ins).flatten
      = ins.flatMap fun t => descriptor (bufferOf t) t := by
  rw [List.zipWith_map_left, List.zipWith_self, List.flatMap_def]

theorem words_eq_descriptor_iff (buffer : ℕ) {t : TensorRef} (hshape : t.shape ≠ []) :
    [.data buffer, .data buffer, .int 0] ++ (packed buffer t).sizesAndStrides.map .int
        = descriptor buffer t ↔
      ∀ s ∈ rowMajorStrides t.shape, s < 2 ^ 32 := by
  have hstride := calculateStride_eq_iff t.shape
  rw [calculateStride, if_neg hshape, Option.some_inj] at hstride
  rw [packed, descriptor, List.append_cancel_left_eq,
    (List.map_injective_iff.mpr fun _ _ h => Word.int.inj h).eq_iff, List.append_cancel_left_eq,
    hstride, and_iff_right hshape]

/-- **When the arguments are passed**: when there is one, and each has dimensions and strides of
32 bits. -/
theorem CpuOp.passes_iff (call : CpuOp α) : call.Passes ↔ call.ins ≠ [] ∧
    ∀ t ∈ call.ins, t.shape ≠ [] ∧ ∀ s ∈ rowMajorStrides t.shape, s < 2 ^ 32 := by
  constructor
  · intro h
    have hrun := h (List Word) (fun args _ => args) some [] (call.ins.map TensorRef.globalId)
      (by rw [List.map_map]; rfl)
    rw [flatten_descriptors] at hrun
    have hne : call.ins ≠ [] := by
      intro hnil
      rw [run, hnil] at hrun
      exact nomatch hrun
    have hshape : ∀ t ∈ call.ins, t.shape ≠ [] := by
      obtain ⟨ps, hps, -⟩ := Option.bind_eq_some_iff.mp hrun
      intro t ht hnil
      obtain ⟨p, hp⟩ := exists_of_mapM_eq_some hps ht
      rw [packTensor, calculateStride, if_pos hnil] at hp
      exact nomatch hp
    rw [@CpuOp.run_eq _ _ call some TensorRef.globalId (fun _ _ => rfl) hshape _
      (List.getLast?_eq_some_getLast hne)] at hrun
    have hwords := congrArg Prod.snd (Option.some.inj hrun)
    refine ⟨hne, fun t ht => ⟨hshape t ht, ?_⟩⟩
    refine (words_eq_descriptor_iff t.globalId (hshape t ht)).mp
      (eq_of_flatMap_eq (fun t _ => ?_) hwords t ht)
    rw [packed, strideLoop_eq, descriptor]
    simp
  · rintro ⟨hne, hall⟩ β fn pool data buffers hpool
    have hlive : ∀ t ∈ call.ins, pool t.globalId = some ((pool t.globalId).getD 0) := by
      intro t ht
      obtain ⟨b, -, hb⟩ := List.mem_map.mp (hpool ▸ List.mem_map_of_mem ht)
      rw [← hb, Option.getD_some]
    have hbuffers : buffers = call.ins.map fun t => (pool t.globalId).getD 0 := by
      apply List.map_injective_iff.mpr (Option.some_injective ℕ)
      rw [← hpool, List.map_map]
      exact List.map_congr_left hlive
    rw [call.run_eq hlive (fun t ht => (hall t ht).1) (List.getLast?_eq_some_getLast hne), hbuffers,
      flatten_descriptors, List.getLast?_map, List.getLast?_eq_some_getLast hne]
    congr 3
    apply List.flatMap_congr
    intro t ht
    exact (words_eq_descriptor_iff _ (hall t ht).1).mpr (hall t ht).2

/-- A tensor without dimensions. -/
def scalarType : ValueType := .tensor ⟨[], .float32, none⟩

theorem scalar_type_unique : ∀ a ∈ [Operand.mk 0 scalarType, ⟨1, scalarType⟩],
    ∀ b ∈ [Operand.mk 0 scalarType, ⟨1, scalarType⟩], a.value = b.value → a.type = b.type := by
  decide

/-- The exponential of a tensor without dimensions, hoisted. -/
def scalarCall : CpuOp Unit where
  op := ⟨"ttir.exp", [⟨0, scalarType⟩, ⟨1, scalarType⟩], [scalarType], (), true, true,
    List.cons_ne_nil _ _, scalar_type_unique⟩
  ins := [⟨0, [], List.forall_mem_nil _⟩, ⟨1, [], List.forall_mem_nil _⟩]
  out := 2
  types := .cons ⟨_, _, rfl⟩ (.cons ⟨_, _, rfl⟩ .nil)

/-- **Its strides fail.** -/
theorem scalarCall_not_passes : ¬scalarCall.Passes := by
  intro h
  have hrun : scalarCall.run (fun _ data => data) some () = none := rfl
  exact nomatch hrun.symm.trans (h Unit (fun _ data => data) some () [0, 1] rfl)

end CpuCall
