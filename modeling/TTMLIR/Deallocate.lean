/-
# Deallocating tensors

`TTNNDeallocate` puts a `ttnn.deallocate` after the last use of every tensor a function owns.
A destination-style operation returns the buffer of its destination, so the last use is found
by following the result tied to the destination.

* `FuncOp` : a function of one block, with the destinations of its operations;
* `getLastValueUsageOp` : the search for the last use;
* `deallocate` : the body after the pass;
* `Buffer` : the values that name one buffer;
* `DeallocatesCorrectly` : what the pass is for;
* `deallocatesCorrectly_iff` : when it does that.

The search follows the last user of a value, and there the first operand that is the value;
an alias made by any other use is not followed.
-/
import TTMLIR.SSA

namespace TTNN

open SSA

namespace Deallocate

/-! ## Functions -/

/-- The type of a value: a ranked tensor, or anything else. -/
inductive ValueType : Type where
  | rankedTensor
  | other
  deriving DecidableEq, Repr

/-- The destinations of an operation, if it has the destination-style interface: the first
operand that is one, and how many there are. -/
structure OpInfo : Type where
  dpsInits : Option (ℕ × ℕ)
  deriving DecidableEq, Repr

/-- A function of one block.  A destination-style operation has one result for each of its
destinations. -/
structure FuncOp : Type extends Func OpInfo ValueType where
  argTypes : List ValueType
  isConstEval : Bool
  length_argTypes : argTypes.length = numArgs
  tied : ∀ op ∈ ops, ∀ start count, op.name.dpsInits = some (start, count) →
    start + count ≤ op.operands.length ∧ op.numResults = count

namespace FuncOp

variable (f : FuncOp)

/-- The position of the return. -/
def returnOp : ℕ := f.ops.length

/-- The operands of the operation at a position, the return being the last. -/
def operandsAt (position : ℕ) : List Value :=
  match f.ops[position]? with
  | some op => op.operands
  | none => if position = f.returnOp then f.returns else []

/-! ## The pass -/

/-- `getStartOperation`: the operation that defines a value, or the first one. -/
def getStartOperation : Value → ℕ
  | .blockArg _ => 0
  | .opResult id _ => index f.ops id

/-- The users of a value. -/
def getUsers (value : Value) : List ℕ :=
  (List.range (f.returnOp + 1)).filter fun position => value ∈ f.operandsAt position

/-- `getEndOperation`: the last user after an operation, or that operation. -/
def getEndOperation (value : Value) (startOperation : ℕ) : ℕ :=
  (f.getUsers value).foldl (fun endOperation useOp =>
    if endOperation < useOp then useOp else endOperation) startOperation

/-- The result tied to a value at an operation, if the first operand that is the value is a
destination. -/
def tiedResult (endOp : ℕ) (value : Value) : Option Value := do
  let op ← f.ops[endOp]?
  let operand ← op.operands.findIdx? (· = value)
  let (start, count) ← op.name.dpsInits
  if start ≤ operand ∧ operand < start + count then some (.opResult op.id (operand - start))
  else none

/-- The loop of `getLastValueUsageOp`: keep going while the value is a destination. -/
def followDestinations : ℕ → Value → ℕ → ℕ
  | 0, _, endOp => endOp
  | fuel + 1, value, endOp =>
    match f.tiedResult endOp value with
    | none => endOp
    | some result => followDestinations fuel result (f.getEndOperation result endOp)

/-- `getLastValueUsageOp`. -/
def getLastValueUsageOp (value : Value) : ℕ :=
  f.followDestinations (f.returnOp + 2) value
    (f.getEndOperation value (f.getStartOperation value))

/-- The tensors a function owns: its tensor arguments, unless it is a const-eval function, and
the tensor results of operations that are not destination-style. -/
def owned : List Value :=
  (if f.isConstEval then []
    else ((List.range f.numArgs).filter fun i => f.argTypes[i]? = some .rankedTensor).map
      Value.blockArg) ++
    (f.ops.filter fun op => op.name.dpsInits = none).flatMap fun op =>
      ((List.range op.numResults).filter fun k => op.resultTypes[k]? = some .rankedTensor).map
        (Value.opResult op.id)

/-- The deallocations, in the order in which they are inserted: none after the return. -/
def deallocations : List (ℕ × Value) :=
  (f.owned.map fun value => (f.getLastValueUsageOp value, value)).filter
    fun (lastOp, _) => lastOp ≠ f.returnOp

/-- An operation of the body after the pass, before the return. -/
inductive Item : Type where
  | op (position : ℕ)
  | dealloc (value : Value)
  deriving DecidableEq, Repr

/-- The body after the pass: a deallocation goes directly after its operation, before those
inserted there earlier. -/
def deallocate : List Item :=
  (List.range f.returnOp).flatMap fun position =>
    .op position :: ((f.deallocations.filter fun (lastOp, _) => lastOp = position).reverse.map
      fun (_, value) => .dealloc value)

/-! ## What the pass is for -/

/-- A destination-style operation returns the buffer of its destination. -/
def Tied (value result : Value) : Prop :=
  ∃ op ∈ f.ops, ∃ start count operand, op.name.dpsInits = some (start, count) ∧
    start ≤ operand ∧ operand < start + count ∧ op.operands[operand]? = some value ∧
      result = .opResult op.id (operand - start)

/-- The values that name the buffer of a value. -/
def Buffer (value other : Value) : Prop := Relation.ReflTransGen f.Tied value other

/-- An operation reads the buffer of a value. -/
def Accesses (value : Value) (position : ℕ) : Prop :=
  ∃ other ∈ f.operandsAt position, f.Buffer value other

/-- **Every owned tensor that is not returned is deallocated once, and no operation after the
deallocation reads its buffer**, the return included. -/
def DeallocatesCorrectly : Prop :=
  ∀ value ∈ f.owned,
    (¬ f.Accesses value f.returnOp → f.deallocate.count (.dealloc value) = 1) ∧
      ∀ pre post, f.deallocate = pre ++ .dealloc value :: post →
        (∀ position, .op position ∈ post → ¬ f.Accesses value position) ∧
          ¬ f.Accesses value f.returnOp

/-- From a value to the result tied to it at its last user. -/
def Follows (value result : Value) : Prop :=
  ∃ lastOp, value ∈ f.operandsAt lastOp ∧
    (∀ position, value ∈ f.operandsAt position → position ≤ lastOp) ∧
      f.tiedResult lastOp value = some result

/-- **When the pass deallocates correctly.**  The last operation that reads the buffer of an
owned tensor reads a value reached by following last users; and where there is nothing but a
return, it returns what the function owns. -/
def HoldsWhen : Prop :=
  ∀ value ∈ f.owned,
    (∀ use, value ∈ f.operandsAt use → ∃ lastOp other, other ∈ f.operandsAt lastOp ∧
      Relation.ReflTransGen f.Follows value other ∧
        ∀ position, f.Accesses value position → position ≤ lastOp) ∧
      (f.ops = [] → value ∈ f.returns)

/-! ## Positions -/

variable {f} {position : ℕ}

theorem operandsAt_eq {op : Operation OpInfo ValueType}
    (h : f.ops[position]? = some op) : f.operandsAt position = op.operands := by
  rw [operandsAt, h]

theorem operandsAt_returnOp : f.operandsAt f.returnOp = f.returns := by
  have hnone : f.ops[f.returnOp]? = none := List.getElem?_eq_none (le_refl _)
  rw [operandsAt, hnone]
  exact if_pos rfl

variable {value : Value}

theorem le_returnOp_of_mem (h : value ∈ f.operandsAt position) : position ≤ f.returnOp := by
  by_contra hlt
  have hne : position ≠ f.returnOp := by omega
  rw [operandsAt, List.getElem?_eq_none (show f.ops.length ≤ position by
    unfold returnOp at hlt
    omega), if_neg hne] at h
  cases h

theorem index_eq {op : Operation OpInfo ValueType}
    (h : f.ops[position]? = some op) : index f.ops op.id = position := by
  obtain ⟨hlt, hget⟩ := List.getElem?_eq_some_iff.mp h
  have hlt' : position < (f.ops.map Operation.id).length := by
    rw [List.length_map]
    exact hlt
  have hid : (f.ops.map Operation.id)[position] = op.id := by
    rw [List.getElem_map, hget]
  rw [index, ← hid]
  exact f.nodup.idxOf_getElem position hlt'

/-- A result is read after the operation that defines it. -/
theorem getStartOperation_lt_of_mem {position id k : ℕ}
    (h : Value.opResult id k ∈ f.operandsAt position) :
    f.getStartOperation (.opResult id k) < position := by
  have hvisible : ∃ a ∈ f.ops.take position, id = a.id := by
    unfold operandsAt at h
    cases hget : f.ops[position]? with
    | some op =>
      rw [hget] at h
      obtain ⟨hlt, rfl⟩ := List.getElem?_eq_some_iff.mp hget
      have hscoped := f.dominated
      rw [← List.take_append_drop position f.ops, List.drop_eq_getElem_cons hlt] at hscoped
      obtain ⟨a, ha, hid, -⟩ := opResult_mem_scope.mp (hscoped.operands_mem _ h)
      exact ⟨a, ha, hid⟩
    | none =>
      rw [hget] at h
      simp only at h
      split_ifs at h with hreturn
      · obtain ⟨a, ha, hid, -⟩ := opResult_mem_scope.mp (f.returns_mem _ h)
        rw [hreturn, returnOp, List.take_length]
        exact ⟨a, ha, hid⟩
      · cases h
  obtain ⟨a, ha, rfl⟩ := hvisible
  obtain ⟨i, hi, rfl⟩ := List.getElem_of_mem ha
  rw [List.length_take] at hi
  have hget : f.ops[i]? = some (f.ops.take position)[i] := by
    rw [List.getElem_take, List.getElem?_eq_getElem]
  rw [getStartOperation, index_eq hget]
  omega

/-- The greatest of some numbers and a starting point. -/
theorem foldl_greatest (users : List ℕ) (start : ℕ) :
    let last := users.foldl (fun endOperation useOp =>
      if endOperation < useOp then useOp else endOperation) start
    start ≤ last ∧ (∀ use ∈ users, use ≤ last) ∧ (last = start ∨ last ∈ users) := by
  induction users generalizing start with
  | nil => exact ⟨le_refl _, fun use h => (by cases h), Or.inl rfl⟩
  | cons user users ih =>
    obtain ⟨hstart, hall, hlast⟩ := ih (if start < user then user else start)
    simp only [List.foldl_cons]
    refine ⟨?_, ?_, ?_⟩
    · split_ifs at hstart ⊢ <;> omega
    · intro use huse
      rcases List.mem_cons.mp huse with rfl | huse
      · split_ifs at hstart ⊢ <;> omega
      · exact hall use huse
    · rcases hlast with hlast | hlast
      · rw [hlast]
        split_ifs
        · exact Or.inr List.mem_cons_self
        · exact Or.inl rfl
      · exact Or.inr (List.mem_cons_of_mem _ hlast)

/-- The end of a value: its last user, or the operation that defines it. -/
def endOf (f : FuncOp) (value : Value) : ℕ :=
  f.getEndOperation value (f.getStartOperation value)

theorem mem_getUsers : position ∈ f.getUsers value ↔ value ∈ f.operandsAt position := by
  rw [getUsers, List.mem_filter, List.mem_range, decide_eq_true_eq]
  refine ⟨fun h => h.2, fun h => ⟨?_, h⟩⟩
  have := le_returnOp_of_mem h
  omega

theorem getStartOperation_le_endOf (value : Value) :
    f.getStartOperation value ≤ f.endOf value := (foldl_greatest _ _).1

theorem le_endOf (h : value ∈ f.operandsAt position) :
    position ≤ f.endOf value := (foldl_greatest _ _).2.1 _ (mem_getUsers.mpr h)

/-- The end of a value that is used is its last user. -/
theorem mem_operandsAt_endOf {use : ℕ} (h : value ∈ f.operandsAt use) :
    value ∈ f.operandsAt (f.endOf value) := by
  rcases (foldl_greatest (f.getUsers value) (f.getStartOperation value)).2.2 with heq | hmem
  · have hle := le_endOf h
    have hstart : f.endOf value = f.getStartOperation value := heq
    cases value with
    | blockArg n =>
      have hzero : f.endOf (.blockArg n) = use := by
        rw [hstart, getStartOperation] at hle ⊢
        omega
      rw [hzero]
      exact h
    | opResult id k =>
      have hlt := getStartOperation_lt_of_mem h
      omega
  · exact mem_getUsers.mp hmem

theorem endOf_eq_of_unused (h : ∀ use, value ∉ f.operandsAt use) :
    f.endOf value = f.getStartOperation value := by
  have hnil : f.getUsers value = [] :=
    List.eq_nil_iff_forall_not_mem.mpr fun use huse => h use (mem_getUsers.mp huse)
  rw [endOf, getEndOperation, hnil]
  rfl

/-! ## Following destinations -/

variable {value result : Value}

/-- **The tied result**, read off the first operand that is the value. -/
theorem tiedResult_eq_some {endOp : ℕ} (h : f.tiedResult endOp value = some result) :
    f.Tied value result ∧ value ∈ f.operandsAt endOp ∧ f.getStartOperation result = endOp := by
  simp only [tiedResult, Option.bind_eq_bind, Option.bind_eq_some_iff] at h
  obtain ⟨op, hop, operand, hoperand, ⟨start, count⟩, hinits, h⟩ := h
  split_ifs at h with hrange
  · cases h
    obtain ⟨hlt, hvalue, -⟩ := List.findIdx?_eq_some_iff_getElem.mp hoperand
    have hget : op.operands[operand]? = some value := by
      rw [List.getElem?_eq_getElem hlt]
      exact congrArg some (by simpa using hvalue)
    refine ⟨⟨op, List.mem_of_getElem? hop, start, count, operand, hinits, hrange.1, hrange.2,
      hget, rfl⟩, ?_, index_eq hop⟩
    rw [operandsAt_eq hop]
    exact List.mem_of_getElem? hget

theorem follows_of_tiedResult
    (h : f.tiedResult (f.endOf value) value = some result) : f.Follows value result :=
  ⟨f.endOf value, (tiedResult_eq_some h).2.1, fun _ hposition => le_endOf hposition, h⟩

theorem tiedResult_of_follows (h : f.Follows value result) :
    f.tiedResult (f.endOf value) value = some result := by
  obtain ⟨lastOp, hmem, hall, htied⟩ := h
  have heq : f.endOf value = lastOp :=
    le_antisymm (hall _ (mem_operandsAt_endOf hmem)) (le_endOf hmem)
  rw [heq]
  exact htied

theorem getStartOperation_of_follows (h : f.Follows value result) :
    f.getStartOperation result = f.endOf value :=
  (tiedResult_eq_some (tiedResult_of_follows h)).2.2

theorem endOf_le_of_follows (h : f.Follows value result) : f.endOf value ≤ f.endOf result := by
  rw [← getStartOperation_of_follows h]
  exact getStartOperation_le_endOf result

theorem endOf_le_of_reflTransGen {value other : Value}
    (h : Relation.ReflTransGen f.Follows value other) : f.endOf value ≤ f.endOf other := by
  induction h with
  | refl => exact le_refl _
  | tail _ hstep ih => exact ih.trans (endOf_le_of_follows hstep)

theorem follows_rightUnique : Relator.RightUnique f.Follows := by
  intro value result result' h h'
  exact Option.some.inj ((tiedResult_of_follows h).symm.trans (tiedResult_of_follows h'))

theorem buffer_of_follows {value other : Value}
    (h : Relation.ReflTransGen f.Follows value other) : f.Buffer value other :=
  Relation.ReflTransGen.mono
    (fun _ _ hstep => (tiedResult_eq_some (tiedResult_of_follows hstep)).1) _ _ h

/-- **The loop.**  With enough fuel it ends at the end of a value that is reached from the
first one and has no tied result there. -/
theorem followDestinations_spec (fuel : ℕ) (value : Value)
    (hfuel : f.returnOp + 1 - f.endOf value < fuel) :
    ∃ other, Relation.ReflTransGen f.Follows value other ∧
      f.followDestinations fuel value (f.endOf value) = f.endOf other ∧
        f.tiedResult (f.endOf other) other = none := by
  induction fuel generalizing value with
  | zero => omega
  | succ fuel ih =>
    rw [followDestinations]
    cases htied : f.tiedResult (f.endOf value) value with
    | none => exact ⟨value, Relation.ReflTransGen.refl, rfl, htied⟩
    | some result =>
      have hfollows := follows_of_tiedResult htied
      have hstart := getStartOperation_of_follows hfollows
      have hend : f.getEndOperation result (f.endOf value) = f.endOf result := by
        rw [← hstart]
        rfl
      simp only
      rw [hend]
      by_cases hused : ∃ use, result ∈ f.operandsAt use
      · -- the end moves forward
        obtain ⟨use, huse⟩ := hused
        have hle := le_returnOp_of_mem (mem_operandsAt_endOf huse)
        have hlt : f.endOf value < f.endOf result := by
          rw [← hstart]
          obtain ⟨op, -, start, count, operand, -, -, -, -, rfl⟩ := (tiedResult_eq_some htied).1
          exact (getStartOperation_lt_of_mem huse).trans_le (le_endOf huse)
        obtain ⟨other, hother, heq, hnone⟩ := ih result (by omega)
        exact ⟨other, Relation.ReflTransGen.head hfollows hother, heq, hnone⟩
      · -- nothing reads the result
        have hnone : f.tiedResult (f.endOf result) result = none := by
          cases htied' : f.tiedResult (f.endOf result) result with
          | none => rfl
          | some other => exact absurd ⟨_, (tiedResult_eq_some htied').2.1⟩ hused
        refine ⟨result, Relation.ReflTransGen.single hfollows, ?_, hnone⟩
        cases fuel with
        | zero => rfl
        | succ fuel =>
          rw [followDestinations, hnone]

/-! ## The last use -/

theorem endOf_le_returnOp (value : Value) : f.endOf value ≤ f.returnOp := by
  by_cases hused : ∃ use, value ∈ f.operandsAt use
  · obtain ⟨use, huse⟩ := hused
    exact le_returnOp_of_mem (mem_operandsAt_endOf huse)
  · rw [endOf_eq_of_unused (not_exists.mp hused)]
    cases value with
    | blockArg n => exact Nat.zero_le _
    | opResult id k =>
      have hle : index f.ops id ≤ (f.ops.map Operation.id).length := List.idxOf_le_length
      rwa [List.length_map] at hle

/-- **The last use found.**  It is the end of a value reached from the first one, where the
search stops. -/
theorem getLastValueUsageOp_spec (value : Value) :
    ∃ other, Relation.ReflTransGen f.Follows value other ∧
      f.getLastValueUsageOp value = f.endOf other ∧ f.tiedResult (f.endOf other) other = none :=
  followDestinations_spec (f.returnOp + 2) value (by omega)

theorem getLastValueUsageOp_of_unused (h : ∀ use, value ∉ f.operandsAt use) :
    f.getLastValueUsageOp value = f.getStartOperation value := by
  obtain ⟨other, hother, heq, -⟩ := getLastValueUsageOp_spec (f := f) value
  rcases Relation.ReflTransGen.cases_head_iff.mp hother with rfl | ⟨result, hstep, -⟩
  · rw [heq, endOf_eq_of_unused h]
  · obtain ⟨lastOp, hmem, -⟩ := hstep
    exact absurd hmem (h lastOp)

theorem endOf_le_getLastValueUsageOp {value other : Value}
    (h : Relation.ReflTransGen f.Follows value other) :
    f.endOf other ≤ f.getLastValueUsageOp value := by
  obtain ⟨last, hlast, heq, hnone⟩ := getLastValueUsageOp_spec (f := f) value
  rw [heq]
  rcases Relation.ReflTransGen.total_of_right_unique follows_rightUnique h hlast with h' | h'
  · exact endOf_le_of_reflTransGen h'
  · rcases Relation.ReflTransGen.cases_head_iff.mp h' with rfl | ⟨result, hstep, -⟩
    · exact le_refl _
    · rw [tiedResult_of_follows hstep] at hnone
      cases hnone

/-- The last use found of a value with users reads a value reached from it. -/
theorem exists_mem_operandsAt_getLastValueUsageOp {use : ℕ} (h : value ∈ f.operandsAt use) :
    ∃ other ∈ f.operandsAt (f.getLastValueUsageOp value),
      Relation.ReflTransGen f.Follows value other := by
  obtain ⟨last, hlast, heq, -⟩ := getLastValueUsageOp_spec (f := f) value
  rw [heq]
  by_cases hused : ∃ use, last ∈ f.operandsAt use
  · obtain ⟨use', huse'⟩ := hused
    exact ⟨last, mem_operandsAt_endOf huse', hlast⟩
  · -- the destination before it is read where it is defined
    rcases Relation.ReflTransGen.cases_tail_iff _ _ _ |>.mp hlast with rfl | ⟨other, hother, hstep⟩
    · exact absurd ⟨use, h⟩ hused
    · rw [endOf_eq_of_unused (not_exists.mp hused), getStartOperation_of_follows hstep]
      obtain ⟨lastOp, hmem, -⟩ := hstep
      exact ⟨other, mem_operandsAt_endOf hmem, hother⟩

/-! ## The body after the pass -/

/-- The time of an operation of the body: a deallocation comes between its operation and the
next one. -/
def time (f : FuncOp) : Item → ℕ
  | .op position => 2 * position
  | .dealloc value => 2 * f.getLastValueUsageOp value + 1

theorem mem_deallocations {lastOp : ℕ} : (lastOp, value) ∈ f.deallocations ↔
      value ∈ f.owned ∧ f.getLastValueUsageOp value = lastOp ∧ lastOp ≠ f.returnOp := by
  unfold deallocations
  simp only [List.mem_filter, List.mem_map, Prod.mk.injEq, decide_eq_true_eq]
  constructor
  · rintro ⟨⟨value', howned, rfl, rfl⟩, hne⟩
    exact ⟨howned, rfl, hne⟩
  · rintro ⟨howned, rfl, hne⟩
    exact ⟨⟨value, howned, rfl, rfl⟩, hne⟩

theorem mem_deallocate_op : .op position ∈ f.deallocate ↔ position < f.returnOp := by
  unfold deallocate
  simp only [List.mem_flatMap, List.mem_range, List.mem_cons, Item.op.injEq, List.mem_map,
    reduceCtorEq, and_false, exists_false, or_false]
  constructor
  · rintro ⟨position', hlt, rfl⟩
    exact hlt
  · intro hlt
    exact ⟨position, hlt, rfl⟩

theorem mem_deallocate_dealloc : .dealloc value ∈ f.deallocate ↔
      value ∈ f.owned ∧ f.getLastValueUsageOp value < f.returnOp := by
  unfold deallocate
  simp only [List.mem_flatMap, List.mem_range, List.mem_cons, reduceCtorEq, List.mem_map,
    List.mem_reverse, List.mem_filter, decide_eq_true_eq, false_or, Item.dealloc.injEq,
    Prod.exists, mem_deallocations]
  constructor
  · rintro ⟨position, hlt, lastOp, value', ⟨⟨howned, hlast, -⟩, rfl⟩, rfl⟩
    exact ⟨howned, hlast ▸ hlt⟩
  · rintro ⟨howned, hlt⟩
    exact ⟨_, hlt, _, value, ⟨⟨howned, rfl, hlt.ne⟩, rfl⟩, rfl⟩

/-- The body runs in the order of time. -/
theorem deallocate_sorted : f.deallocate.Pairwise fun a b => f.time a ≤ f.time b := by
  have htime : ∀ position, ∀ item ∈ Item.op position ::
      ((f.deallocations.filter fun (lastOp, _) => lastOp = position).reverse.map
        fun (_, value) => Item.dealloc value),
      f.time item = 2 * position ∨ f.time item = 2 * position + 1 := by
    intro position item hitem
    rcases List.mem_cons.mp hitem with rfl | hitem
    · exact Or.inl rfl
    · obtain ⟨⟨lastOp, value⟩, hmem, rfl⟩ := List.mem_map.mp hitem
      rw [List.mem_reverse, List.mem_filter, mem_deallocations, decide_eq_true_eq] at hmem
      obtain ⟨⟨-, hlast, -⟩, rfl⟩ := hmem
      exact Or.inr (by rw [time, hlast])
  refine List.pairwise_flatMap.mpr ⟨?_, ?_⟩
  · intro position _
    refine List.pairwise_cons.mpr ⟨?_, ?_⟩
    · intro item hitem
      have h := htime position item (List.mem_cons_of_mem _ hitem)
      have hop : f.time (.op position) = 2 * position := rfl
      omega
    · refine List.pairwise_of_forall_mem_list ?_
      intro a ha b hb
      obtain ⟨⟨lastOp, value⟩, hmem, rfl⟩ := List.mem_map.mp ha
      obtain ⟨⟨lastOp', value'⟩, hmem', rfl⟩ := List.mem_map.mp hb
      rw [List.mem_reverse, List.mem_filter, mem_deallocations, decide_eq_true_eq] at hmem hmem'
      simp only [time]
      omega
  · refine List.pairwise_lt_range.imp ?_
    intro position position' hlt a ha b hb
    have h := htime position a ha
    have h' := htime position' b hb
    omega

/-- The owned values are distinct. -/
theorem owned_nodup : f.owned.Nodup := by
  refine List.nodup_append.mpr ⟨?_, ?_, ?_⟩
  · split_ifs
    · exact List.nodup_nil
    · exact (List.nodup_range.filter _).map fun a b h => Value.blockArg.inj h
  · refine List.nodup_flatMap.mpr ⟨?_, ?_⟩
    · intro op _
      exact (List.nodup_range.filter _).map fun a b h => (Value.opResult.inj h).2
    · have hids := (List.pairwise_map.mp f.nodup).filter
        (fun op : Operation OpInfo ValueType => op.name.dpsInits = none)
      refine hids.imp ?_
      intro a b hne v hv hv'
      obtain ⟨k, -, rfl⟩ := List.mem_map.mp hv
      obtain ⟨k', -, heq⟩ := List.mem_map.mp hv'
      exact hne (Value.opResult.inj heq).1.symm
  · intro v hv w hw heq
    obtain ⟨op, -, hw⟩ := List.mem_flatMap.mp hw
    obtain ⟨k, -, rfl⟩ := List.mem_map.mp hw
    split_ifs at hv
    · cases hv
    · obtain ⟨i, -, rfl⟩ := List.mem_map.mp hv
      cases heq

/-- No deallocation is there twice. -/
theorem deallocate_nodup : f.deallocate.Nodup := by
  have hvalues : (f.deallocations.map Prod.snd).Nodup := by
    refine f.owned_nodup.sublist ?_
    have hsub := (List.filter_sublist (p := fun x : ℕ × Value => decide (x.1 ≠ f.returnOp))
      (l := f.owned.map fun value => (f.getLastValueUsageOp value, value))).map Prod.snd
    rw [List.map_map] at hsub
    have hid : (Prod.snd ∘ fun value => (f.getLastValueUsageOp value, value)) = id := rfl
    rw [hid, List.map_id] at hsub
    exact hsub
  refine List.nodup_flatMap.mpr ⟨?_, ?_⟩
  · intro position _
    refine List.nodup_cons.mpr ⟨?_, ?_⟩
    · intro h
      obtain ⟨x, -, heq⟩ := List.mem_map.mp h
      cases heq
    · have hsub : (((f.deallocations.filter fun (lastOp, _) => lastOp = position).reverse).map
          Prod.snd).Nodup := by
        rw [List.map_reverse, List.nodup_reverse]
        exact hvalues.sublist (List.filter_sublist.map _)
      have hmap := hsub.map (f := Item.dealloc) fun a b h => Item.dealloc.inj h
      rw [List.map_map] at hmap
      exact hmap
  · refine List.pairwise_lt_range.imp ?_
    intro position position' hlt a ha ha'
    rcases List.mem_cons.mp ha with rfl | ha
    · rcases List.mem_cons.mp ha' with heq | ha'
      · cases heq
        omega
      · obtain ⟨x, -, heq⟩ := List.mem_map.mp ha'
        cases heq
    · obtain ⟨⟨lastOp, value⟩, hmem, rfl⟩ := List.mem_map.mp ha
      rcases List.mem_cons.mp ha' with heq | ha'
      · cases heq
      · obtain ⟨⟨lastOp', value'⟩, hmem', heq⟩ := List.mem_map.mp ha'
        cases heq
        rw [List.mem_reverse, List.mem_filter, mem_deallocations, decide_eq_true_eq] at hmem hmem'
        omega

/-- **What runs after a deallocation**: the operations after the last use found. -/
theorem op_mem_after_iff {pre post : List Item}
    (h : f.deallocate = pre ++ .dealloc value :: post) (position : ℕ) :
    .op position ∈ post ↔ f.getLastValueUsageOp value < position ∧ position < f.returnOp := by
  have hsorted := f.deallocate_sorted
  rw [h, List.pairwise_append, List.pairwise_cons] at hsorted
  obtain ⟨-, ⟨hafter, -⟩, hbefore⟩ := hsorted
  have hmem : .op position ∈ f.deallocate ↔ position < f.returnOp := mem_deallocate_op
  constructor
  · intro hpost
    have htime := hafter _ hpost
    simp only [time] at htime
    refine ⟨by omega, hmem.mp ?_⟩
    rw [h]
    exact List.mem_append_right _ (List.mem_cons_of_mem _ hpost)
  · rintro ⟨hlt, hreturn⟩
    have hin := hmem.mpr hreturn
    rw [h] at hin
    rcases List.mem_append.mp hin with hpre | hin
    · have htime := hbefore _ hpre _ List.mem_cons_self
      simp only [time] at htime
      omega
    · rcases List.mem_cons.mp hin with heq | hpost
      · cases heq
      · exact hpost

/-! ## When the pass deallocates correctly -/

/-- One owned value: it is right when its last use found is after every access. -/
theorem deallocated_iff (howned : value ∈ f.owned) :
    ((¬ f.Accesses value f.returnOp → f.deallocate.count (.dealloc value) = 1) ∧
      ∀ pre post, f.deallocate = pre ++ .dealloc value :: post →
        (∀ position, .op position ∈ post → ¬ f.Accesses value position) ∧
          ¬ f.Accesses value f.returnOp) ↔
    (¬ f.Accesses value f.returnOp → f.getLastValueUsageOp value ≠ f.returnOp) ∧
      (f.getLastValueUsageOp value ≠ f.returnOp →
        ∀ position, f.Accesses value position → position ≤ f.getLastValueUsageOp value) := by
  have hle : f.getLastValueUsageOp value ≤ f.returnOp := by
    obtain ⟨other, -, heq, -⟩ := getLastValueUsageOp_spec (f := f) value
    rw [heq]
    exact endOf_le_returnOp other
  have hcount : f.deallocate.count (.dealloc value) = 1 ↔
      f.getLastValueUsageOp value ≠ f.returnOp := by
    by_cases hmem : Item.dealloc value ∈ f.deallocate
    · have hlt := (mem_deallocate_dealloc.mp hmem).2
      rw [List.count_eq_one_of_mem f.deallocate_nodup hmem]
      exact ⟨fun _ => hlt.ne, fun _ => rfl⟩
    · rw [List.count_eq_zero_of_not_mem hmem]
      refine ⟨fun h => absurd h Nat.zero_ne_one, fun hne => ?_⟩
      exact absurd (mem_deallocate_dealloc.mpr ⟨howned, lt_of_le_of_ne hle hne⟩) hmem
  rw [hcount]
  refine and_congr Iff.rfl ⟨?_, ?_⟩
  · intro h hne position haccess
    obtain ⟨pre, post, hsplit⟩ := List.append_of_mem
      (mem_deallocate_dealloc.mpr ⟨howned, lt_of_le_of_ne hle hne⟩)
    obtain ⟨hpost, hreturn⟩ := h pre post hsplit
    by_contra hlt
    obtain ⟨other, hmem, hbuffer⟩ := haccess
    rcases (le_returnOp_of_mem hmem).lt_or_eq with hposition | rfl
    · exact hpost position ((op_mem_after_iff hsplit position).mpr ⟨by omega, hposition⟩)
        ⟨other, hmem, hbuffer⟩
    · exact hreturn ⟨other, hmem, hbuffer⟩
  · intro h pre post hsplit
    have hmem : Item.dealloc value ∈ f.deallocate := by
      rw [hsplit]
      exact List.mem_append_right _ List.mem_cons_self
    have hlt := (mem_deallocate_dealloc.mp hmem).2
    refine ⟨fun position hposition haccess => ?_, fun haccess => ?_⟩
    · have hafter := ((op_mem_after_iff hsplit position).mp hposition).1
      have := h hlt.ne position haccess
      omega
    · have := h hlt.ne _ haccess
      omega

theorem not_accesses_of_unused (h : ∀ use, value ∉ f.operandsAt use)
    (position : ℕ) : ¬ f.Accesses value position := by
  rintro ⟨other, hmem, hbuffer⟩
  rcases Relation.ReflTransGen.cases_head_iff.mp hbuffer with rfl | ⟨result, htied, -⟩
  · exact h position hmem
  · obtain ⟨op, hop, start, count, operand, -, -, -, hget, -⟩ := htied
    obtain ⟨i, hi, rfl⟩ := List.getElem_of_mem hop
    refine h i ?_
    rw [operandsAt_eq (List.getElem?_eq_getElem hi)]
    exact List.mem_of_getElem? hget

theorem getStartOperation_lt_of_owned (howned : value ∈ f.owned)
    (hops : f.ops ≠ []) : f.getStartOperation value < f.returnOp := by
  rcases List.mem_append.mp howned with harg | hresult
  · split_ifs at harg
    · cases harg
    · obtain ⟨i, -, rfl⟩ := List.mem_map.mp harg
      exact List.length_pos_iff.mpr hops
  · obtain ⟨op, hop, hk⟩ := List.mem_flatMap.mp hresult
    obtain ⟨k, -, rfl⟩ := List.mem_map.mp hk
    obtain ⟨i, hi, rfl⟩ := List.getElem_of_mem (List.mem_filter.mp hop).1
    rw [getStartOperation, index_eq (List.getElem?_eq_getElem hi)]
    exact hi

/-- **When the pass deallocates correctly.** -/
theorem deallocatesCorrectly_iff (f : FuncOp) : f.DeallocatesCorrectly ↔ f.HoldsWhen := by
  refine forall₂_congr fun value howned => ?_
  rw [deallocated_iff howned]
  by_cases hused : ∃ use, value ∈ f.operandsAt use
  · obtain ⟨use, huse⟩ := hused
    obtain ⟨other, hmem, hfollows⟩ := exists_mem_operandsAt_getLastValueUsageOp huse
    have haccess : f.Accesses value (f.getLastValueUsageOp value) :=
      ⟨other, hmem, buffer_of_follows hfollows⟩
    constructor
    · rintro ⟨-, hlast⟩
      refine ⟨fun _ _ => ⟨_, other, hmem, hfollows, ?_⟩, ?_⟩
      · intro position hposition
        by_cases hreturn : f.getLastValueUsageOp value = f.returnOp
        · obtain ⟨other', hmem', -⟩ := hposition
          rw [hreturn]
          exact le_returnOp_of_mem hmem'
        · exact hlast hreturn position hposition
      · intro hops
        have hzero : f.returnOp = 0 := by rw [returnOp, hops, List.length_nil]
        have huse' := le_returnOp_of_mem huse
        have heq : use = f.returnOp := by omega
        rwa [heq, operandsAt_returnOp] at huse
    · rintro ⟨hlast, -⟩
      obtain ⟨lastOp, other', hmem', hfollows', hall⟩ := hlast use huse
      have hle : lastOp ≤ f.getLastValueUsageOp value :=
        (le_endOf hmem').trans (endOf_le_getLastValueUsageOp hfollows')
      refine ⟨fun hreturn heq => hreturn (heq ▸ haccess), ?_⟩
      exact fun _ position hposition => (hall position hposition).trans hle
  · have hunused := not_exists.mp hused
    have hlast := getLastValueUsageOp_of_unused hunused
    constructor
    · rintro ⟨hreturn, -⟩
      refine ⟨fun use huse => absurd huse (hunused use), fun hops => ?_⟩
      have hne := hreturn (not_accesses_of_unused hunused _)
      have hzero : f.returnOp = 0 := by rw [returnOp, hops, List.length_nil]
      obtain ⟨other, -, heq, -⟩ := getLastValueUsageOp_spec (f := f) value
      have hle := endOf_le_returnOp (f := f) other
      omega
    · rintro ⟨-, hempty⟩
      refine ⟨fun _ => ?_, fun _ position haccess =>
        absurd haccess (not_accesses_of_unused hunused position)⟩
      have hops : f.ops ≠ [] := by
        intro hops
        refine hunused f.returnOp ?_
        rw [operandsAt_returnOp]
        exact hempty hops
      rw [hlast]
      exact (getStartOperation_lt_of_owned howned hops).ne

/-- A destination that is read again after it was written, and whose result is returned. -/
def readsDestination : FuncOp where
  numArgs := 1
  ops :=
    [⟨0, ⟨none⟩, [], [.rankedTensor]⟩,
      ⟨1, ⟨some (1, 1)⟩, [.blockArg 0, .opResult 0 0], [.rankedTensor]⟩,
      ⟨2, ⟨none⟩, [.opResult 0 0], [.rankedTensor]⟩]
  returns := [.opResult 1 0, .opResult 2 0]
  nodup := by decide
  dominated := by decide
  returns_mem := by decide
  argTypes := [.rankedTensor]
  isConstEval := false
  length_argTypes := rfl
  tied := by
    intro op hop start count hinits
    simp only [List.mem_cons, List.not_mem_nil, or_false] at hop
    rcases hop with rfl | rfl | rfl
    · cases hinits
    · cases hinits
      exact ⟨by decide, rfl⟩
    · cases hinits

/-- The returned result names the buffer that was deallocated after the second read. -/
theorem readsDestination_not_deallocatesCorrectly : ¬ readsDestination.DeallocatesCorrectly := by
  intro h
  have hbody : readsDestination.deallocate = [.op 0, .op 1, .dealloc (.blockArg 0), .op 2] ++
      .dealloc (.opResult 0 0) :: [] := by decide
  refine ((h (.opResult 0 0) (by decide)).2 _ _ hbody).2 ⟨.opResult 1 0, by decide, ?_⟩
  exact Relation.ReflTransGen.single ⟨⟨1, ⟨some (1, 1)⟩, [.blockArg 0, .opResult 0 0],
    [.rankedTensor]⟩, by decide, 1, 1, 1, rfl, le_refl _, by decide, rfl, rfl⟩

end FuncOp

end Deallocate

end TTNN
