/-
# Single-block SSA functions

Functions of one block: operations in order, each with operands that are block arguments
or results of earlier operations, and a return of values in scope.  Operations are pure;
what an operation computes is a parameter of the evaluation.

* `Scoped`, `Block`, `Func` : dominance, bodies, and functions that satisfy it;
* `Block.eval` : evaluation, which fails on an undefined operand;
* `eval_eq_of_solves` : values that satisfy the equation of every operation are the values
  the block computes;
* `exists_solves` : such values exist for total operations;
* `index_lt_of_reads` : an operation is listed after the operations it reads.
-/
import Mathlib

namespace SSA

/-- A value: a block argument, or the `k`-th result of an operation. -/
inductive Value : Type where
  | blockArg (n : ℕ)
  | opResult (op k : ℕ)
  deriving DecidableEq, Repr

/-- An operation: its identity, its name with attributes, its operands and the types of
its results. -/
structure Operation (κ τ : Type) : Type where
  id : ℕ
  name : κ
  operands : List Value
  resultTypes : List τ
  deriving DecidableEq, Repr

variable {κ τ α : Type}

namespace Operation

/-- The number of results. -/
def numResults (op : Operation κ τ) : ℕ := op.resultTypes.length

/-- The results of an operation. -/
def results (op : Operation κ τ) : List Value :=
  (List.range op.numResults).map (Value.opResult op.id)

/-- An operation with other operands. -/
def mapOperands (g : Value → Value) (op : Operation κ τ) : Operation κ τ :=
  { op with operands := op.operands.map g }

/-- `b` reads a result of `a`. -/
def Reads (b a : Operation κ τ) : Prop := ∃ v ∈ b.operands, v ∈ a.results

theorem mem_results {op : Operation κ τ} {v : Value} :
    v ∈ op.results ↔ ∃ k < op.numResults, v = Value.opResult op.id k := by
  simp only [results, List.mem_map, List.mem_range]
  constructor
  · rintro ⟨k, hk, rfl⟩
    exact ⟨k, hk, rfl⟩
  · rintro ⟨k, hk, rfl⟩
    exact ⟨k, hk, rfl⟩

@[simp] theorem opResult_mem_results {op : Operation κ τ} {a k : ℕ} :
    Value.opResult a k ∈ op.results ↔ a = op.id ∧ k < op.numResults := by
  rw [mem_results]
  constructor
  · rintro ⟨k', hk, heq⟩
    obtain ⟨rfl, rfl⟩ := Value.opResult.inj heq
    exact ⟨rfl, hk⟩
  · rintro ⟨rfl, hk⟩
    exact ⟨k, hk, rfl⟩

@[simp] theorem blockArg_not_mem_results {op : Operation κ τ} {n : ℕ} :
    Value.blockArg n ∉ op.results := by
  simp [results]

section

variable (g : Value → Value) (op : Operation κ τ)

@[simp] theorem mapOperands_id : (op.mapOperands g).id = op.id := rfl

@[simp] theorem mapOperands_name : (op.mapOperands g).name = op.name := rfl

@[simp] theorem mapOperands_operands : (op.mapOperands g).operands = op.operands.map g := rfl

@[simp] theorem mapOperands_results : (op.mapOperands g).results = op.results := rfl

end

/-- A value is a result of one operation only. -/
theorem id_eq_of_mem_results {a b : Operation κ τ} {v : Value} (ha : v ∈ a.results)
    (hb : v ∈ b.results) : a.id = b.id := by
  obtain ⟨k, -, rfl⟩ := mem_results.mp ha
  exact (opResult_mem_results.mp hb).1

end Operation

/-! ## Dominance -/

/-- The values visible at the entry of a function. -/
def entryScope (numArgs : ℕ) : List Value := (List.range numArgs).map Value.blockArg

/-- The values visible after the operations `pre`. -/
def scope (numArgs : ℕ) (pre : List (Operation κ τ)) : List Value :=
  entryScope numArgs ++ pre.flatMap Operation.results

@[simp] theorem blockArg_mem_entryScope {numArgs n : ℕ} :
    Value.blockArg n ∈ entryScope numArgs ↔ n < numArgs := by
  simp [entryScope]

@[simp] theorem opResult_not_mem_entryScope {numArgs a k : ℕ} :
    Value.opResult a k ∉ entryScope numArgs := by
  simp [entryScope]

@[simp] theorem blockArg_mem_scope {numArgs n : ℕ} {pre : List (Operation κ τ)} :
    Value.blockArg n ∈ scope numArgs pre ↔ n < numArgs := by
  simp [scope]

@[simp] theorem opResult_mem_scope {numArgs a k : ℕ} {pre : List (Operation κ τ)} :
    Value.opResult a k ∈ scope numArgs pre ↔ ∃ op ∈ pre, a = op.id ∧ k < op.numResults := by
  simp [scope]

/-- Every operand is visible where it is read. -/
def Scoped : List Value → List (Operation κ τ) → Prop
  | _, [] => True
  | visible, op :: ops => (∀ v ∈ op.operands, v ∈ visible) ∧ Scoped (visible ++ op.results) ops

instance decidableScoped : (visible : List Value) → (ops : List (Operation κ τ)) →
    Decidable (Scoped visible ops)
  | _, [] => .isTrue trivial
  | visible, op :: ops =>
    have := decidableScoped (visible ++ op.results) ops
    inferInstanceAs (Decidable ((∀ v ∈ op.operands, v ∈ visible) ∧ _))

variable {visible : List Value}

/-- Later operations see the results of earlier ones. -/
theorem scoped_append {ops ops' : List (Operation κ τ)} : Scoped visible (ops ++ ops') ↔
      Scoped visible ops ∧ Scoped (visible ++ ops.flatMap Operation.results) ops' := by
  induction ops generalizing visible with
  | nil => simp [Scoped]
  | cons op ops ih =>
    rw [List.cons_append, Scoped, Scoped, ih, List.flatMap_cons, List.append_assoc, and_assoc]

variable {pre post : List (Operation κ τ)} {op : Operation κ τ}

/-- Operands are arguments or results of earlier operations. -/
theorem Scoped.operands_mem {numArgs : ℕ} (h : Scoped (entryScope numArgs) (pre ++ op :: post)) :
    ∀ v ∈ op.operands, v ∈ scope numArgs pre := by
  obtain ⟨-, hop, -⟩ := scoped_append.mp h
  simpa [scope] using hop

/-- The body of a function.  The terminator is kept apart as the list of returned values. -/
structure Block (κ τ : Type) : Type where
  numArgs : ℕ
  ops : List (Operation κ τ)
  returns : List Value
  deriving DecidableEq, Repr

/-- Operations are distinct, and every value is visible where it is read. -/
structure Block.WellFormed (b : Block κ τ) : Prop where
  nodup : (b.ops.map Operation.id).Nodup
  dominated : Scoped (entryScope b.numArgs) b.ops
  returns_mem : ∀ v ∈ b.returns, v ∈ scope b.numArgs b.ops

/-- `replaceAllUsesWith`: every use of a value becomes a use of another. -/
def Block.replaceUses (g : Value → Value) (b : Block κ τ) : Block κ τ :=
  { b with ops := b.ops.map (Operation.mapOperands g), returns := b.returns.map g }

/-- A function of one well-formed block. -/
structure Func (κ τ : Type) : Type extends Block κ τ, Block.WellFormed toBlock

variable {ops : List (Operation κ τ)} {a b : Operation κ τ}

/-- Operations are told apart by their ids. -/
theorem eq_of_id_eq (hnodup : (ops.map Operation.id).Nodup)
    (ha : a ∈ ops) (hb : b ∈ ops) (h : a.id = b.id) : a = b :=
  List.inj_on_of_nodup_map hnodup ha hb h

theorem Scoped.mem_of_mem_operands (h : Scoped visible ops) (hop : op ∈ ops) {v : Value}
    (hv : v ∈ op.operands) : v ∈ visible ++ ops.flatMap Operation.results := by
  induction ops generalizing visible with
  | nil => cases hop
  | cons o ops ih =>
    obtain ⟨ho, hops⟩ := h
    rw [List.flatMap_cons, ← List.append_assoc]
    rcases List.mem_cons.mp hop with rfl | hop
    · exact List.mem_append_left _ (List.mem_append_left _ (ho v hv))
    · exact ih hops hop

variable {g : Value → Value}

/-- Replacing operands keeps dominance when no value becomes or stops being one of those the
operations can see. -/
theorem scoped_map_mapOperands
    (hg : ∀ w ∈ visible ++ ops.flatMap Operation.results, ∀ v, g v = w ↔ v = w) :
    Scoped visible (ops.map (Operation.mapOperands g)) ↔ Scoped visible ops := by
  induction ops generalizing visible with
  | nil => rfl
  | cons op ops ih =>
    have hops := @ih (visible ++ op.results) (by
      simpa only [List.flatMap_cons, List.append_assoc] using hg)
    have hmem : ∀ v, g v ∈ visible ↔ v ∈ visible := by
      intro v
      constructor
      · intro h
        have hfix := (hg (g v) (List.mem_append_left _ h) v).mp rfl
        rwa [← hfix] at h
      · intro h
        rwa [(hg v (List.mem_append_left _ h) v).mpr rfl]
    rw [List.map_cons, Scoped, Scoped, Operation.mapOperands_results, hops,
      Operation.mapOperands_operands]
    simp only [List.mem_map, forall_exists_index, and_imp, forall_apply_eq_imp_iff₂, hmem]

theorem map_mapOperands_eq_self
    (hg : ∀ op ∈ ops, ∀ v ∈ op.operands, g v = v) : ops.map (Operation.mapOperands g) = ops := by
  refine (List.map_congr_left fun op hop => ?_).trans (List.map_id _)
  have hoperands : op.operands.map g = op.operands :=
    (List.map_congr_left fun v hv => hg op hop v hv).trans (List.map_id _)
  rw [Operation.mapOperands, hoperands]
  rfl

/-- **Operations kept by a filter, with other operands, are scoped** when every operand they
read is replaced by one visible at the entry or a result of a kept operation before. -/
theorem scoped_filter_map_of_before {p : Operation κ τ → Bool}
    (hg : ∀ pre op post, ops = pre ++ op :: post → p op → ∀ v ∈ op.operands,
      g v ∈ visible ++ (pre.filter p).flatMap Operation.results) :
    Scoped visible ((ops.filter p).map (Operation.mapOperands g)) := by
  induction ops generalizing visible with
  | nil => trivial
  | cons op ops ih =>
    by_cases hp : p op
    · rw [List.filter_cons_of_pos hp, List.map_cons]
      refine ⟨fun w hw => ?_, ih fun pre o post hops hpo v hv => ?_⟩
      · obtain ⟨v, hv, rfl⟩ := List.mem_map.mp hw
        simpa using hg [] op ops rfl hp v hv
      · have h := hg (op :: pre) o post (by rw [hops, List.cons_append]) hpo v hv
        rw [List.filter_cons_of_pos hp, List.flatMap_cons, ← List.append_assoc] at h
        exact h
    · rw [List.filter_cons_of_neg hp]
      refine ih fun pre o post hops hpo v hv => ?_
      have h := hg (op :: pre) o post (by rw [hops, List.cons_append]) hpo v hv
      rwa [List.filter_cons_of_neg hp] at h

/-- Operations kept by a filter, with other operands, are scoped when every operand they read
is replaced by one visible at the entry, or stays a result of a kept operation. -/
theorem scoped_filter_map {visible visible' : List Value}
    {p : Operation κ τ → Bool} (hscoped : Scoped visible ops)
    (hnodup : (ops.map Operation.id).Nodup)
    (hfresh : ∀ a ∈ ops, ∀ v ∈ a.results, v ∉ visible)
    (hg : ∀ op ∈ ops, p op → ∀ v ∈ op.operands, g v ∈ visible' ∨
      g v = v ∧ ∃ a ∈ ops, p a ∧ v ∈ a.results) :
    Scoped visible' ((ops.filter p).map (Operation.mapOperands g)) := by
  refine scoped_filter_map_of_before fun pre op post hops hp v hv => ?_
  subst hops
  rcases hg op (by simp) hp v hv with h | ⟨hgv, a, ha, hpa, hva⟩
  · exact List.mem_append_left _ h
  · rw [hgv]
    -- the operation that defines the operand comes before
    obtain ⟨-, hop, -⟩ := scoped_append.mp hscoped
    rcases List.mem_append.mp (hop v hv) with hmem | hmem
    · exact absurd hmem (hfresh a ha v hva)
    · obtain ⟨b, hb, hvb⟩ := List.mem_flatMap.mp hmem
      have hab : b = a := eq_of_id_eq hnodup (List.mem_append_left _ hb) ha
        (Operation.id_eq_of_mem_results hvb hva)
      exact List.mem_append_right _ (List.mem_flatMap.mpr
        ⟨a, List.mem_filter.mpr ⟨hab ▸ hb, hpa⟩, hva⟩)

/-- The position of an operation in its function. -/
def index (ops : List (Operation κ τ)) (id : ℕ) : ℕ := (ops.map Operation.id).idxOf id

/-- Positions follow the order of the list. -/
theorem index_lt_index (hnodup : ((pre ++ b :: post).map Operation.id).Nodup) (ha : a ∈ pre) :
    index (pre ++ b :: post) a.id < index (pre ++ b :: post) b.id := by
  have hpre : a.id ∈ pre.map Operation.id := List.mem_map_of_mem ha
  have hnot : b.id ∉ pre.map Operation.id := by
    rw [List.map_append, List.map_cons] at hnodup
    exact fun hmem => (List.nodup_append.mp hnodup).2.2 _ hmem _ (by simp) rfl
  have hlt : index (pre ++ b :: post) a.id < pre.length := by
    rw [index, List.map_append, List.idxOf_append_of_mem hpre]
    simpa using List.idxOf_lt_length_of_mem hpre
  have hb : index (pre ++ b :: post) b.id = pre.length := by
    rw [index, List.map_append, List.idxOf_append_of_notMem hnot]
    simp
  omega

theorem mem_prefix_of_index_lt
    (hnodup : ((pre ++ b :: post).map Operation.id).Nodup) (ha : a ∈ pre ++ b :: post)
    (hlt : index (pre ++ b :: post) a.id < index (pre ++ b :: post) b.id) : a ∈ pre := by
  rcases List.mem_append.mp ha with ha | ha
  · exact ha
  · rcases List.mem_cons.mp ha with rfl | ha
    · exact absurd hlt (lt_irrefl _)
    · obtain ⟨q, r, rfl⟩ := List.append_of_mem ha
      have hsplit : pre ++ b :: (q ++ a :: r) = (pre ++ b :: q) ++ a :: r := by simp
      rw [hsplit] at hnodup hlt
      exact absurd hlt (Nat.lt_asymm (index_lt_index hnodup (by simp)))

/-- An operand that is a result has an operation before its use. -/
theorem exists_of_opResult_mem_operands {numArgs : ℕ}
    (hscoped : Scoped (entryScope numArgs) (pre ++ op :: post)) {id k : ℕ}
    (hv : Value.opResult id k ∈ op.operands) : ∃ a ∈ pre, Value.opResult id k ∈ a.results := by
  obtain ⟨a, ha, hid, hk⟩ := opResult_mem_scope.mp (hscoped.operands_mem _ hv)
  exact ⟨a, ha, Operation.opResult_mem_results.mpr ⟨hid, hk⟩⟩

/-- **Operations are listed after what they read.** -/
theorem index_lt_of_reads {numArgs : ℕ}
    (hnodup : (ops.map Operation.id).Nodup) (hscoped : Scoped (entryScope numArgs) ops)
    (hb : b ∈ ops) (h : b.Reads a) : index ops a.id < index ops b.id := by
  obtain ⟨pre, post, rfl⟩ := List.append_of_mem hb
  obtain ⟨v, hv, hva⟩ := h
  obtain ⟨k, hk, rfl⟩ := Operation.mem_results.mp hva
  obtain ⟨o, ho, hres⟩ := exists_of_opResult_mem_operands hscoped hv
  rw [(Operation.opResult_mem_results.mp hres).1]
  exact index_lt_index hnodup ho

/-- An identity no operation has. -/
def freshId (ops : List (Operation κ τ)) : ℕ := ops.foldr (fun op n => max n (op.id + 1)) 0

theorem lt_foldr_max {α : Type*} (id : α → ℕ) {l : List α} {a : α} (ha : a ∈ l) :
    id a < l.foldr (fun a n => max n (id a + 1)) 0 := by
  induction l with
  | nil => cases ha
  | cons b l ih =>
    rw [List.foldr_cons]
    rcases List.mem_cons.mp ha with rfl | ha
    · exact lt_max_of_lt_right (Nat.lt_succ_self _)
    · exact lt_max_of_lt_left (ih ha)

theorem lt_freshId (hop : op ∈ ops) : op.id < freshId ops := lt_foldr_max Operation.id hop

/-- The operation with a given identity. -/
def lookup (ops : List (Operation κ τ)) (id : ℕ) : Option (Operation κ τ) :=
  ops.find? (·.id = id)

/-- An operation is found under its id. -/
theorem lookup_eq_some_iff (hnodup : (ops.map Operation.id).Nodup)
    {id : ℕ} {a : Operation κ τ} : lookup ops id = some a ↔ a ∈ ops ∧ a.id = id := by
  constructor
  · intro h
    exact ⟨List.mem_of_find?_eq_some h, by simpa using List.find?_some h⟩
  · rintro ⟨ha, rfl⟩
    cases h : lookup ops a.id with
    | none => exact absurd (List.find?_eq_none.mp h a ha) (by simp)
    | some b =>
      have hb : b ∈ ops := List.mem_of_find?_eq_some h
      have hid : b.id = a.id := by simpa using List.find?_some h
      rw [eq_of_id_eq hnodup hb ha hid]

/-- The operations with given identities, in their order. -/
def deref (ops : List (Operation κ τ)) (ids : List ℕ) : List (Operation κ τ) :=
  ids.filterMap (lookup ops)

theorem mem_deref (hnodup : (ops.map Operation.id).Nodup)
    {ids : List ℕ} {a : Operation κ τ} : a ∈ deref ops ids ↔ a ∈ ops ∧ a.id ∈ ids := by
  simp only [deref, List.mem_filterMap, lookup_eq_some_iff hnodup]
  constructor
  · rintro ⟨id, hid, ha, rfl⟩
    exact ⟨ha, hid⟩
  · rintro ⟨ha, hid⟩
    exact ⟨a.id, hid, ha, rfl⟩

theorem map_id_deref (hnodup : (ops.map Operation.id).Nodup)
    {ids : List ℕ} (hids : ∀ id ∈ ids, id ∈ ops.map Operation.id) :
    (deref ops ids).map Operation.id = ids := by
  induction ids with
  | nil => rfl
  | cons id ids ih =>
    obtain ⟨a, ha, hid⟩ := List.mem_map.mp (hids id (by simp))
    have hlookup := (lookup_eq_some_iff hnodup).mpr ⟨ha, hid⟩
    rw [deref, List.filterMap_cons_some hlookup, List.map_cons, hid]
    exact congrArg (id :: ·) (ih fun i hi => hids i (List.mem_cons_of_mem _ hi))

theorem deref_map_id_filter (hnodup : (ops.map Operation.id).Nodup)
    (p : Operation κ τ → Bool) : deref ops ((ops.filter p).map Operation.id) = ops.filter p := by
  rw [deref, List.filterMap_map]
  refine (List.filterMap_congr fun a ha => ?_).trans List.filterMap_some
  exact (lookup_eq_some_iff hnodup).mpr ⟨(List.mem_filter.mp ha).1, rfl⟩

/-! ## Evaluation -/

/-- The values of the values defined so far. -/
abbrev Env (α : Type) : Type := Value → Option α

/-- What the operations compute: the `k`-th result from the operand values. -/
abbrev Sem (κ α : Type) : Type := κ → List α → ℕ → Option α

/-- The environment at the entry of a function. -/
def argEnv (args : List α) : Env α
  | .blockArg n => args[n]?
  | .opResult _ _ => none

/-- The environment after an operation with operand values `vs`. -/
def Env.define (sem : Sem κ α) (env : Env α) (op : Operation κ τ) (vs : List α) : Env α
  | .blockArg n => env (.blockArg n)
  | .opResult id k =>
    if id = op.id ∧ k < op.numResults then sem op.name vs k else env (.opResult id k)

/-- Run the operations in order; an undefined operand stops the run. -/
def run (sem : Sem κ α) : List (Operation κ τ) → Env α → Option (Env α)
  | [], env => some env
  | op :: ops, env => do
      let vs ← op.operands.mapM env
      run sem ops (env.define sem op vs)

/-- The values a block returns. -/
def Block.eval (sem : Sem κ α) (b : Block κ τ) (args : List α) : Option (List α) := do
  let env ← run sem b.ops (argEnv args)
  b.returns.mapM env

/-- The values `ρ` satisfy the equation of every operation. -/
def Solves (sem : Sem κ α) (ops : List (Operation κ τ)) (ρ : Value → α) : Prop :=
  ∀ op ∈ ops, ∀ k < op.numResults,
    sem op.name (op.operands.map ρ) k = some (ρ (.opResult op.id k))

variable {ρ : Value → α}

theorem mapM_eq_some {env : Env α} (vs : List Value)
    (h : ∀ v ∈ vs, env v = some (ρ v)) : vs.mapM env = some (vs.map ρ) := by
  induction vs with
  | nil => rfl
  | cons v vs ih =>
    rw [List.mapM_cons, h v (by simp), ih fun w hw => h w (by simp [hw])]
    rfl

variable {sem : Sem κ α}

/-- A run of scoped operations computes the values that satisfy their equations. -/
theorem run_of_solves {env : Env α} (hscoped : Scoped visible ops)
    (henv : ∀ v ∈ visible, env v = some (ρ v)) (hsolves : Solves sem ops ρ) :
    ∃ env', run sem ops env = some env' ∧
      ∀ v ∈ visible ++ ops.flatMap Operation.results, env' v = some (ρ v) := by
  induction ops generalizing visible env with
  | nil => exact ⟨env, rfl, by simpa using henv⟩
  | cons op ops ih =>
    obtain ⟨hop, hops⟩ := hscoped
    have hvs := mapM_eq_some op.operands fun v hv => henv v (hop v hv)
    have hdefine : ∀ v ∈ visible ++ op.results,
        env.define sem op (op.operands.map ρ) v = some (ρ v) := by
      intro v hv
      cases v with
      | blockArg n =>
        have hn : Value.blockArg n ∈ visible := by simpa using hv
        exact henv _ hn
      | opResult id k =>
        rw [Env.define]
        split_ifs with hid
        · obtain ⟨rfl, hk⟩ := hid
          exact hsolves op (by simp) k hk
        · rcases List.mem_append.mp hv with hv | hv
          · exact henv _ hv
          · exact absurd (Operation.opResult_mem_results.mp hv) hid
    obtain ⟨env', hrun, hall⟩ := ih hops hdefine fun o ho => hsolves o (by simp [ho])
    refine ⟨env', ?_, ?_⟩
    · rw [run, hvs]
      exact hrun
    · simpa [List.flatMap_cons, List.append_assoc] using hall

/-- **Solutions are what a block computes.** -/
theorem eval_eq_of_solves {b : Block κ τ} (hb : b.WellFormed) {args : List α}
    (hargs : ∀ n < b.numArgs, args[n]? = some (ρ (.blockArg n)))
    (hsolves : Solves sem b.ops ρ) : b.eval sem args = some (b.returns.map ρ) := by
  have henv : ∀ v ∈ entryScope b.numArgs, argEnv args v = some (ρ v) := by
    intro v hv
    cases v with
    | blockArg n => exact hargs n (blockArg_mem_entryScope.mp hv)
    | opResult id k => simp at hv
  obtain ⟨env, hrun, hall⟩ := run_of_solves hb.dominated henv hsolves
  have hreturns := mapM_eq_some b.returns fun v hv => hall v (by
    simpa [scope] using hb.returns_mem v hv)
  rw [Block.eval, hrun]
  exact hreturns

/-- **Solutions exist** for distinct operations that have their results on every operand
values, and extend given values of what is visible. -/
theorem exists_solves_of_scoped
    (htotal : ∀ op ∈ ops, ∀ vs : List α, vs.length = op.operands.length →
      ∀ k < op.numResults, (sem op.name vs k).isSome)
    (hnodup : (ops.map Operation.id).Nodup) (hscoped : Scoped visible ops)
    (hfresh : ∀ op ∈ ops, ∀ k, Value.opResult op.id k ∉ visible) (ρ₀ : Value → α) :
    ∃ ρ, (∀ v ∈ visible, ρ v = ρ₀ v) ∧ Solves sem ops ρ := by
  induction ops generalizing visible ρ₀ with
  | nil => exact ⟨ρ₀, fun _ _ => rfl, by simp [Solves]⟩
  | cons op ops ih =>
    obtain ⟨hop, hops⟩ := hscoped
    obtain ⟨hid, hnodup'⟩ := List.nodup_cons.mp hnodup
    -- the results of the first operation
    set ρ₁ : Value → α := fun v => match v with
      | .opResult id k => if id = op.id then
          (sem op.name (op.operands.map ρ₀) k).getD (ρ₀ v) else ρ₀ v
      | .blockArg _ => ρ₀ v with hρ₁
    have hvisible : ∀ v ∈ visible, ρ₁ v = ρ₀ v := by
      intro v hv
      cases v with
      | blockArg n => rfl
      | opResult id k =>
        have hne : id ≠ op.id := fun h => hfresh op (by simp) k (h ▸ hv)
        simp [hρ₁, hne]
    obtain ⟨ρ, hρ, hsolves⟩ := ih (fun o ho => htotal o (by simp [ho])) hnodup' hops (by
      intro o ho k hmem
      rcases List.mem_append.mp hmem with hmem | hmem
      · exact hfresh o (by simp [ho]) k hmem
      · have heq := (Operation.opResult_mem_results.mp hmem).1
        exact hid (heq ▸ List.mem_map_of_mem ho)) ρ₁
    refine ⟨ρ, fun v hv => (hρ v (List.mem_append_left _ hv)).trans (hvisible v hv), ?_⟩
    intro o ho k hk
    rcases List.mem_cons.mp ho with rfl | ho
    · have hoperands : o.operands.map ρ = o.operands.map ρ₀ := List.map_congr_left fun v hv =>
          (hρ v (List.mem_append_left _ (hop v hv))).trans (hvisible v (hop v hv))
      have hresult := hρ (.opResult o.id k)
        (List.mem_append_right _ (Operation.opResult_mem_results.mpr ⟨rfl, hk⟩))
      obtain ⟨x, hx⟩ := Option.isSome_iff_exists.mp
        (htotal o (by simp) (o.operands.map ρ₀) (by simp) k hk)
      rw [hoperands, hresult]
      simp [hρ₁, hx]
    · exact hsolves o ho k hk

/-- **Every block has a solution** on any arguments. -/
theorem exists_solves [Inhabited α] {b : Block κ τ} (hb : b.WellFormed)
    (htotal : ∀ op ∈ b.ops, ∀ vs : List α, vs.length = op.operands.length →
      ∀ k < op.numResults, (sem op.name vs k).isSome) {args : List α}
    (hargs : args.length = b.numArgs) :
    ∃ ρ : Value → α, (∀ n < b.numArgs, args[n]? = some (ρ (.blockArg n))) ∧ Solves sem b.ops ρ := by
  obtain ⟨ρ, hρ, hsolves⟩ := exists_solves_of_scoped htotal hb.nodup hb.dominated (by simp)
    (fun v => match v with
      | .blockArg n => args.getD n default
      | .opResult _ _ => default)
  refine ⟨ρ, fun n hn => ?_, hsolves⟩
  rw [hρ _ (blockArg_mem_entryScope.mpr hn)]
  show args[n]? = some (args.getD n default)
  rw [List.getD_eq_getElem?_getD, List.getElem?_eq_getElem (by omega)]
  rfl

end SSA
