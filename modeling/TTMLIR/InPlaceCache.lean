/-
# Cache updates become writes

In TTIR `update_cache` and `fill_cache` return a new cache.  `TTIRToTTNN.cpp` replaces them by
TTNN operations that write the cache operand and have no result; later uses of the result
become uses of the cache.  The optimizer then puts the operations of the function in the
order of a schedule.

* `convert` : the conversion, which fails where a cache has another use;
* `runInPlace` : runs in which updates write;
* `Admitted` : schedules a client of the scheduler can finish;
* `schedulePreserves_iff` : which schedules keep the meaning of the function.

A converted update has no result, so the scheduler neither schedules it nor knows the
operations that read what it wrote, and the moves of the optimizer put them before it.
-/
import TTMLIR.Scheduler
import TTMLIR.ScheduleOrder

open SSA Scheduler ScheduleOrder

namespace InPlaceCache

variable {τ α : Type}

/-! ## The translated functions -/

/-- The name of an operation with its attributes. -/
structure Name : Type where
  opName : OpName
  attributes : String
  deriving DecidableEq, Repr

/-- The mnemonics of the two operations. -/
def isCacheMnemonic (mnemonic : String) : Bool :=
  mnemonic = "update_cache" || mnemonic = "fill_cache"

/-- `ttir::UpdateCacheOp` or `ttir::FillCacheOp`. -/
def Name.isUpdate (n : Name) : Bool :=
  n.opName.dialect = .ttir && isCacheMnemonic n.opName.mnemonic

/-- `ttnn::UpdateCacheOp` or `ttnn::FillCacheOp`. -/
def Name.isInPlace (n : Name) : Bool :=
  n.opName.dialect = .ttnn && isCacheMnemonic n.opName.mnemonic

/-- The TTNN operation that replaces a TTIR operation. -/
def Name.toTTNN (n : Name) : Name :=
  if n.opName.dialect = .ttir then { n with opName := { n.opName with dialect := .ttnn } } else n

/-- The TTIR operation that a TTNN operation replaces. -/
def Name.ofTTNN (n : Name) : Name :=
  if n.opName.dialect = .ttnn then { n with opName := { n.opName with dialect := .ttir } } else n

/-- A function before the conversion: no operation is a TTNN operation, and an update has a
cache operand and one result. -/
structure TTIRFunc (τ : Type) : Type extends Func Name τ where
  not_ttnn : ∀ op ∈ ops, op.name.opName.dialect ≠ .ttnn
  updates : ∀ op ∈ ops, op.name.isUpdate → op.operands ≠ [] ∧ op.numResults = 1

/-- `op.getCache()`. -/
def getCache (op : Operation Name τ) : Value := op.operands.headD (.blockArg 0)

/-- `op.getResult()` of an update. -/
def getResult (op : Operation Name τ) : Value := .opResult op.id 0

/-- `getUsers().size()`: one for each use, the uses of the return included. -/
def numUsers (b : Block Name τ) (v : Value) : ℕ :=
  (b.ops.flatMap Operation.operands ++ b.returns).count v

/-- `rewriter.replaceOp(op, adaptor.getCache())` for the updates of a list in their order: the
value that replaces each value. -/
def storage (ops : List (Operation Name τ)) : Value → Value :=
  ops.foldl (fun replaced op => if op.name.isUpdate then
    Function.update replaced (getResult op) (replaced (getCache op)) else replaced) id

/-- The TTNN operation created for an operation: an update has no result. -/
def create (adaptor : Value → Value) (op : Operation Name τ) : Operation Name τ :=
  { op with
    name := op.name.toTTNN
    operands := op.operands.map adaptor
    resultTypes := if op.name.isUpdate then [] else op.resultTypes }

/-- `matchAndRewrite` of the patterns; `none` is a match failure. -/
def matchAndRewrite (b : Block Name τ) (op : Operation Name τ) : Option (Operation Name τ) :=
  if op.name.isUpdate ∧ numUsers b (getCache op) ≠ 1 then none
  else some (create (storage b.ops) op)

/-- The conversion of a function, which fails when one operation is not converted. -/
def convert (b : Block Name τ) : Option (Block Name τ) := do
  let ops ← b.ops.mapM (matchAndRewrite b)
  some { b with ops := ops, returns := b.returns.map (storage b.ops) }

/-- The order the optimizer gives to a function. -/
def reorder (b : Block Name τ) (schedule : List ℕ) : Block Name τ :=
  { b with ops := applySchedule b.ops schedule }

/-- What the scheduler sees of an operation. -/
def toSchedulerOp (op : Operation Name τ) : Op τ := { op with name := op.name.opName }

/-- The schedules of a function that a client of its scheduler can finish. -/
def Admitted (b : Block Name τ) (schedule : List ℕ) : Prop :=
  ∃ s₀ s, init (b.ops.map toSchedulerOp) = some s₀ ∧ Reachable s₀ s ∧
    ¬ s.hasUnscheduledOps ∧ s.schedule = schedule

/-! ## The two meanings -/

/-- What operations compute, read as partial for evaluation. -/
def total (compute : Name → List α → ℕ → α) : Sem Name α := fun n vs k => some (compute n vs k)

/-- The values the TTIR function returns. -/
def evalPure (compute : Name → List α → ℕ → α) (b : Block Name τ) (args : List α) :
    Option (List α) := b.eval (total compute) args

/-- One TTNN operation computes what the TTIR operation it replaces computes; an update
writes it to its cache. -/
def stepInPlace (compute : Name → List α → ℕ → α) (env : Env α) (op : Operation Name τ) :
    Option (Env α) := do
  let vs ← op.operands.mapM env
  if op.name.isInPlace then
    some (Function.update env (getCache op) (some (compute op.name.ofTTNN vs 0)))
  else
    some (env.define (total fun n => compute n.ofTTNN) op vs)

/-- A run with writes. -/
def runInPlace (compute : Name → List α → ℕ → α) :
    List (Operation Name τ) → Env α → Option (Env α)
  | [], env => some env
  | op :: ops, env => do
      let env' ← stepInPlace compute env op
      runInPlace compute ops env'

/-- The values the TTNN function returns. -/
def evalInPlace (compute : Name → List α → ℕ → α) (b : Block Name τ) (args : List α) :
    Option (List α) := do
  let env ← runInPlace compute b.ops (argEnv args)
  b.returns.mapM env

/-- **What a schedule has to keep**: on all data and for all operations, the converted and
reordered function returns what the TTIR function returns. -/
def Preserves (f b : Block Name τ) (schedule : List ℕ) : Prop :=
  ∀ (α : Type) (compute : Name → List α → ℕ → α) (args : List α), args.length = f.numArgs →
    evalInPlace compute (reorder b schedule) args = evalPure compute f args

/-! ## The condition -/

/-- Values that the returned ones are computed from. -/
inductive Live (f : Block Name τ) : Value → Prop where
  | returned {v : Value} (h : v ∈ f.returns) : Live f v
  | operand {op : Operation Name τ} {v : Value} {k : ℕ} (hop : op ∈ f.ops) (hv : v ∈ op.operands)
      (hk : k < op.numResults) (h : Live f (.opResult op.id k)) : Live f v

/-- **Schedules that keep updates in place.**  An operation comes after the operations that
make the tensors it reads or writes, and, where returned values are computed from it, after
the updates whose results it reads. -/
structure KeepsUpdates (f : Block Name τ) (schedule : List ℕ) : Prop where
  defined : ∀ op ∈ f.ops, ∀ v ∈ op.operands, ∀ p k, storage f.ops v = .opResult p k →
    position f.ops schedule p < position f.ops schedule op.id
  written : ∀ op ∈ f.ops, ∀ update ∈ f.ops, update.name.isUpdate →
    getResult update ∈ op.operands → (∃ k < op.numResults, Live f (.opResult op.id k)) →
      position f.ops schedule update.id < position f.ops schedule op.id

/-! ## Where a value is stored -/

variable {v : Value}

theorem storage_append {pre ops : List (Operation Name τ)}
    (h : ∀ op ∈ ops, op.name.isUpdate → getResult op ≠ v) :
    storage (pre ++ ops) v = storage pre v := by
  induction ops using List.reverseRecOn with
  | nil => rw [List.append_nil]
  | append_singleton ops op ih =>
    rw [← List.append_assoc, ← ih fun o ho => h o (by simp [ho])]
    conv_lhs => rw [storage, List.foldl_append, List.foldl_cons, List.foldl_nil]
    split_ifs with hop
    · exact Function.update_of_ne (h op (by simp) hop).symm _ _
    · rfl

theorem storage_eq_self {ops : List (Operation Name τ)}
    (h : ∀ op ∈ ops, op.name.isUpdate → getResult op ≠ v) : storage ops v = v := by
  have hentry : storage ([] ++ ops) v = storage [] v := storage_append h
  rw [List.nil_append] at hentry
  exact hentry

variable {op : Operation Name τ}

theorem storage_concat {ops : List (Operation Name τ)} (hop : op.name.isUpdate) :
    storage (ops ++ [op]) (getResult op) = storage ops (getCache op) := by
  conv_lhs => rw [storage, List.foldl_append, List.foldl_cons, List.foldl_nil]
  rw [if_pos hop, Function.update_self]
  rfl

variable {op : Operation Name τ} {ρ : Value → ℕ} {a b : Operation Name τ}

section Chains

variable (f : TTIRFunc τ)

theorem getCache_mem (hop : op ∈ f.ops) (h : op.name.isUpdate) : getCache op ∈ op.operands := by
  obtain ⟨hne, -⟩ := f.updates op hop h
  obtain ⟨v, vs, hvs⟩ := List.exists_cons_of_ne_nil hne
  rw [getCache, hvs]
  exact List.mem_cons_self

theorem getResult_mem (hop : op ∈ f.ops) (h : op.name.isUpdate) : getResult op ∈ op.results := by
  rw [getResult, Operation.opResult_mem_results, (f.updates op hop h).2]
  exact ⟨rfl, Nat.one_pos⟩

theorem eq_of_getResult_eq (ha : a ∈ f.ops) (hb : b ∈ f.ops)
    (h : getResult a = getResult b) : a = b :=
  eq_of_id_eq f.nodup ha hb (Value.opResult.inj h).1

theorem eq_of_index_eq (ha : a ∈ f.ops) (hb : b ∈ f.ops)
    (h : index f.ops a.id = index f.ops b.id) : a = b :=
  eq_of_id_eq f.nodup ha hb ((List.idxOf_inj (List.mem_map_of_mem ha)).mp h)

variable {v : Value}

theorem getResult_ne_of_mem_scope {pre post : List (Operation Name τ)}
    (heq : f.ops = pre ++ post) (hv : v ∈ scope f.numArgs pre) :
    ∀ op ∈ post, op.name.isUpdate → getResult op ≠ v := by
  rintro op hop - rfl
  obtain ⟨a, ha, hid, -⟩ := opResult_mem_scope.mp hv
  have hnodup := f.nodup
  rw [heq, List.map_append] at hnodup
  exact (List.nodup_append.mp hnodup).2.2 a.id (List.mem_map_of_mem ha) op.id
    (List.mem_map_of_mem hop) hid.symm

/-- **The result of an update is stored in its cache.** -/
theorem storage_getResult (hop : op ∈ f.ops) (h : op.name.isUpdate) :
    storage f.ops (getResult op) = storage f.ops (getCache op) := by
  obtain ⟨pre, post, heq⟩ := List.append_of_mem hop
  have hcache : getCache op ∈ scope f.numArgs pre :=
    (heq ▸ f.dominated).operands_mem _ (getCache_mem f hop h)
  have hresult : getResult op ∈ scope f.numArgs (pre ++ [op]) := by
    rw [getResult, opResult_mem_scope]
    exact ⟨op, by simp, rfl, by rw [(f.updates op hop h).2]; exact Nat.one_pos⟩
  have hsplit : f.ops = (pre ++ [op]) ++ post := by rw [heq, List.append_assoc]; rfl
  calc storage f.ops (getResult op)
      = storage (pre ++ [op]) (getResult op) := by
        rw [hsplit]
        exact storage_append (getResult_ne_of_mem_scope f hsplit hresult)
    _ = storage pre (getCache op) := storage_concat h
    _ = storage f.ops (getCache op) := by
        conv_rhs => rw [heq]
        exact (storage_append (getResult_ne_of_mem_scope f heq hcache)).symm

/-- A value that is visible is stored in an argument or in a result of an operation that is no
update. -/
theorem storage_cases (hv : v ∈ scope f.numArgs f.ops) :
    (∃ n < f.numArgs, storage f.ops v = .blockArg n) ∨
      ∃ op ∈ f.ops, ¬ op.name.isUpdate ∧ ∃ k < op.numResults,
        storage f.ops v = .opResult op.id k := by
  suffices hall : ∀ pre post, f.ops = pre ++ post → ∀ v ∈ scope f.numArgs pre,
      (∃ n < f.numArgs, storage f.ops v = .blockArg n) ∨
        ∃ op ∈ f.ops, ¬ op.name.isUpdate ∧ ∃ k < op.numResults,
          storage f.ops v = .opResult op.id k from
    hall f.ops [] (List.append_nil _).symm v hv
  intro pre
  induction pre using List.reverseRecOn with
  | nil =>
    intro post heq v hv
    cases v with
    | blockArg n =>
      refine Or.inl ⟨n, blockArg_mem_scope.mp hv, storage_eq_self ?_⟩
      intro op _ _ h
      cases h
    | opResult id k => simp at hv
  | append_singleton pre op ih =>
    intro post heq v hv
    rw [List.append_assoc, List.singleton_append] at heq
    have hop : op ∈ f.ops := by rw [heq]; simp
    by_cases hres : v ∈ op.results
    · by_cases h : op.name.isUpdate
      · -- the result of an update is stored where its cache is
        obtain ⟨k, hk, rfl⟩ := Operation.mem_results.mp hres
        rw [(f.updates op hop h).2, Nat.lt_one_iff] at hk
        subst hk
        have hcache := (heq ▸ f.dominated).operands_mem _ (getCache_mem f hop h)
        have hstore := storage_getResult f hop h
        rw [getResult] at hstore
        rw [hstore]
        exact ih _ heq _ hcache
      · obtain ⟨k, hk, rfl⟩ := Operation.mem_results.mp hres
        refine Or.inr ⟨op, hop, h, k, hk, storage_eq_self ?_⟩
        intro o ho ho' heq
        exact h (eq_of_id_eq f.nodup ho hop (Value.opResult.inj heq).1 ▸ ho')
    · refine ih _ heq v ?_
      rw [scope, List.flatMap_append, ← List.append_assoc] at hv
      rcases List.mem_append.mp hv with hv | hv
      · exact hv
      · exact absurd (by simpa using hv) hres

/-- A value an update does not come before. -/
def Before (v : Value) (update : Operation Name τ) : Prop :=
  ∀ op ∈ f.ops, op.name.isUpdate → v = getResult op → index f.ops op.id < index f.ops update.id

variable (hunique : ∀ op ∈ f.ops, op.name.isUpdate → numUsers f.toBlock (getCache op) = 1)
include hunique

/-- **Only the update reads its cache.** -/
theorem eq_of_getCache_mem {update op : Operation Name τ} (hupdate : update ∈ f.ops)
    (h : update.name.isUpdate) (hop : op ∈ f.ops) (hread : getCache update ∈ op.operands) :
    op = update := by
  by_contra hne
  obtain ⟨pre, post, heq⟩ := List.append_of_mem hupdate
  have hcount := hunique update hupdate h
  have hself := List.count_pos_iff.mpr (getCache_mem f hupdate h)
  have hother : 0 < ((pre ++ post).flatMap Operation.operands).count (getCache update) := by
    rw [List.count_pos_iff]
    refine List.mem_flatMap.mpr ⟨op, ?_, hread⟩
    rw [heq] at hop
    simpa [hne] using hop
  rw [numUsers, heq] at hcount
  rw [List.flatMap_append, List.count_append] at hother
  rw [List.flatMap_append, List.flatMap_cons, List.count_append, List.count_append,
    List.count_append] at hcount
  omega

variable {update : Operation Name τ}

theorem getCache_not_mem_returns (hupdate : update ∈ f.ops)
    (h : update.name.isUpdate) : getCache update ∉ f.returns := by
  intro hmem
  have hcount := hunique update hupdate h
  have hself : 0 < (f.ops.flatMap Operation.operands).count (getCache update) :=
    List.count_pos_iff.mpr (List.mem_flatMap.mpr ⟨update, hupdate, getCache_mem f hupdate h⟩)
  have hreturn := List.count_pos_iff.mpr hmem
  rw [numUsers, List.count_append] at hcount
  omega

section

variable (hupdate : update ∈ f.ops) (h : update.name.isUpdate)
  (hstore : storage f.ops v = storage f.ops (getCache update)) (hbefore : Before f v update)

include hupdate h hstore hbefore

/-- One step back from an update to the value it is made from, when the updates before it
are already in order. -/
theorem eq_or_exists_previous
    (hnext : ∀ op ∈ f.ops, op.name.isUpdate → index f.ops op.id < index f.ops update.id →
      storage f.ops (getCache update) = storage f.ops (getCache op) →
      Before f (getCache update) op → ∃ w ∈ f.ops, w.name.isUpdate ∧ getCache w = getCache update ∧
          index f.ops w.id ≤ index f.ops op.id) :
    v = getCache update ∨ ∃ op ∈ f.ops, op.name.isUpdate ∧ getCache update = getResult op ∧
      index f.ops op.id < index f.ops update.id ∧ Before f v op := by
  -- an update whose result has this storage comes no later than the one that made the cache
  have hearlier : ∀ op ∈ f.ops, op.name.isUpdate → v = getResult op →
      ¬ Before f (getCache update) op := by
    intro op hop hop' hv hcache
    have hlt := hbefore op hop hop' hv
    obtain ⟨w, hw, hw', heq, hle⟩ := hnext op hop hop' hlt
      (by rw [← hstore, hv, storage_getResult f hop hop']) hcache
    have hsame : update = w := by
      refine eq_of_getCache_mem f hunique hw hw' hupdate ?_
      rw [heq]
      exact getCache_mem f hupdate h
    rw [← hsame] at hle
    exact absurd hle (not_le.mpr hlt)
  by_cases hmade : ∃ op ∈ f.ops, op.name.isUpdate ∧ getCache update = getResult op
  · obtain ⟨op, hop, hop', hcache⟩ := hmade
    by_cases hv : v = getCache update
    · exact Or.inl hv
    · refine Or.inr ⟨op, hop, hop', hcache, ?_, ?_⟩
      · refine index_lt_of_reads f.nodup f.dominated hupdate ⟨getCache update, ?_, ?_⟩
        · exact getCache_mem f hupdate h
        · rw [hcache]
          exact getResult_mem f hop hop'
      · intro a ha ha' hva
        by_contra hlt
        apply hearlier a ha ha' hva
        intro b hb _ hbcache
        obtain rfl : b = op := eq_of_getResult_eq f hb hop (hbcache.symm.trans hcache)
        refine lt_of_le_of_ne (not_lt.mp hlt) fun heq => hv ?_
        rw [hva, ← eq_of_index_eq f hop ha heq, hcache]
  · -- the cache is where the chain starts
    have hroot : storage f.ops (getCache update) = getCache update :=
      storage_eq_self fun op hop hop' heq => hmade ⟨op, hop, hop', heq.symm⟩
    have hcache : ∀ op, Before f (getCache update) op :=
      fun _ a ha ha' heq => absurd ⟨a, ha, ha', heq⟩ hmade
    refine Or.inl ?_
    rw [← hroot, ← hstore]
    exact (storage_eq_self fun op hop hop' heq => hearlier op hop hop' heq.symm (hcache op)).symm

/-- **The next update of a value** comes no later than any update of its storage that the
value comes before. -/
theorem exists_next : ∃ w ∈ f.ops, w.name.isUpdate ∧ getCache w = v ∧
      index f.ops w.id ≤ index f.ops update.id := by
  induction hn : index f.ops update.id using Nat.strong_induction_on generalizing update v with
  | _ n ih =>
    subst hn
    rcases eq_or_exists_previous f hunique hupdate h hstore hbefore
      (fun op hop hop' hlt hs hb => ih _ hlt hop hop' hs hb rfl) with
        rfl | ⟨op, hop, hop', hcache, hlt, hb⟩
    · exact ⟨update, hupdate, h, rfl, le_refl _⟩
    · have hs : storage f.ops v = storage f.ops (getCache op) := by
        rw [hstore, hcache, storage_getResult f hop hop']
      obtain ⟨w, hw, hw', heq, hle⟩ := ih _ hlt hop hop' hs hb rfl
      exact ⟨w, hw, hw', heq, hle.trans hlt.le⟩

end

/-- **Ascending a chain.**  What increases along every update increases from a value to the
result of any update of its storage that it comes before. -/
theorem lt_of_before (hρ : ∀ op ∈ f.ops, op.name.isUpdate → ρ (getCache op) < ρ (getResult op))
    (hupdate : update ∈ f.ops) (h : update.name.isUpdate)
    (hstore : storage f.ops v = storage f.ops (getCache update)) (hbefore : Before f v update) :
    ρ v < ρ (getResult update) := by
  induction hn : index f.ops update.id using Nat.strong_induction_on generalizing update with
  | _ n ih =>
    subst hn
    rcases eq_or_exists_previous f hunique hupdate h hstore hbefore
      (fun op hop hop' _ hs hb => exists_next f hunique hop hop' hs hb) with
        rfl | ⟨op, hop, hop', hcache, hlt, hb⟩
    · exact hρ update hupdate h
    · have hs : storage f.ops v = storage f.ops (getCache op) := by
        rw [hstore, hcache, storage_getResult f hop hop']
      calc ρ v < ρ (getResult op) := ih _ hlt hop hop' hs hb rfl
        _ = ρ (getCache update) := by rw [hcache]
        _ < ρ (getResult update) := hρ update hupdate h

end Chains

section Storage

variable (f : TTIRFunc τ)

theorem storage_ne_getResult (hv : v ∈ scope f.numArgs f.ops)
    (hop : op ∈ f.ops) (h : op.name.isUpdate) :
    storage f.ops v ≠ getResult op := by
  intro heq
  rcases storage_cases f hv with ⟨n, -, hstore⟩ | ⟨a, ha, ha', k, -, hstore⟩
  · rw [hstore] at heq
    cases heq
  · rw [hstore] at heq
    exact ha' (eq_of_id_eq f.nodup ha hop (Value.opResult.inj heq).1 ▸ h)

theorem storage_storage (hv : v ∈ scope f.numArgs f.ops) :
    storage f.ops (storage f.ops v) = storage f.ops v :=
  storage_eq_self fun _ hop h => (storage_ne_getResult f hv hop h).symm

theorem mem_scope_of_mem_operands (hop : op ∈ f.ops)
    (hv : v ∈ op.operands) : v ∈ scope f.numArgs f.ops :=
  f.dominated.mem_of_mem_operands hop hv

end Storage

/-! ## What a storage holds -/

/-- The TTIR value that a storage holds after the operations of a list. -/
def current (f : TTIRFunc τ) (pre : List (Operation Name τ)) : Value → Value :=
  pre.foldl (fun held op => if op.name.isUpdate then
    Function.update held (storage f.ops (getCache op)) (getResult op) else held) id

variable {pre : List (Operation Name τ)}

section Current

variable (f : TTIRFunc τ)

theorem current_concat_of_update (h : op.name.isUpdate) : current f (pre ++ [op]) =
      Function.update (current f pre) (storage f.ops (getCache op)) (getResult op) := by
  rw [current, List.foldl_append, List.foldl_cons, List.foldl_nil, if_pos h]
  rfl

theorem current_concat_of_not_update
    (h : ¬ op.name.isUpdate) : current f (pre ++ [op]) = current f pre := by
  rw [current, List.foldl_append, List.foldl_cons, List.foldl_nil, if_neg h]
  rfl

variable {f} {schedule : List ℕ} (hschedule : IsSchedule f.ops schedule)
  (hfree : ∀ op ∈ f.ops, op.name.isUpdate → op.id ∉ schedule)

include hfree in
theorem index_lt_of_position_lt (ha : a ∈ f.ops) (hb : b ∈ f.ops)
    (ha' : a.name.isUpdate) (hb' : b.name.isUpdate)
    (hlt : position f.ops schedule a.id < position f.ops schedule b.id) :
    index f.ops a.id < index f.ops b.id := by
  rcases lt_trichotomy (index f.ops a.id) (index f.ops b.id) with h | h | h
  · exact h
  · rw [eq_of_index_eq f ha hb h] at hlt
    exact absurd hlt (lt_irrefl _)
  · have := position_lt_of_unscheduled (hfree b hb hb') (hfree a ha ha') h
    exact absurd hlt (Nat.lt_asymm this)

include hschedule hfree

variable {pre post : List (Operation Name τ)}

/-- **What a storage holds** is what it held at the entry or the result of the last update
that wrote it. -/
theorem current_cases (heq : applySchedule f.ops schedule = pre ++ post) (s : Value) :
    (current f pre s = s ∧ ∀ op ∈ pre, op.name.isUpdate → storage f.ops (getCache op) ≠ s) ∨
      ∃ w ∈ pre, w.name.isUpdate ∧ storage f.ops (getCache w) = s ∧
        current f pre s = getResult w ∧ ∀ op ∈ pre, op.name.isUpdate →
          storage f.ops (getCache op) = s → index f.ops op.id ≤ index f.ops w.id := by
  induction pre using List.reverseRecOn generalizing post with
  | nil => exact Or.inl ⟨rfl, by simp⟩
  | append_singleton pre op ih =>
    rw [List.append_assoc, List.singleton_append] at heq
    have hmem : ∀ o ∈ pre ++ [op], o ∈ f.ops := by
      intro o ho
      rw [← mem_applySchedule f.nodup hschedule, heq]
      simp only [List.mem_append, List.mem_cons, List.not_mem_nil, or_false] at ho ⊢
      tauto
    by_cases hwrites : op.name.isUpdate ∧ storage f.ops (getCache op) = s
    · obtain ⟨h, rfl⟩ := hwrites
      refine Or.inr ⟨op, by simp, h, rfl, ?_, ?_⟩
      · rw [current_concat_of_update f h, Function.update_self]
      · intro o ho ho' _
        rcases List.mem_append.mp ho with hpre | hlast
        · have hlt := (mem_iff_position_lt f.nodup hschedule heq (hmem o ho)).mp hpre
          exact (index_lt_of_position_lt hfree (hmem o ho) (hmem op (by simp)) ho' h hlt).le
        · rw [List.mem_singleton.mp hlast]
    · have hsame : current f (pre ++ [op]) s = current f pre s := by
        by_cases h : op.name.isUpdate
        · rw [current_concat_of_update f h]
          exact Function.update_of_ne (fun hs => hwrites ⟨h, hs.symm⟩) _ _
        · rw [current_concat_of_not_update f h]
      rw [hsame]
      rcases ih heq with ⟨hself, hnone⟩ | ⟨w, hw, hw', hs, hcurrent, hlast⟩
      · refine Or.inl ⟨hself, fun o ho ho' => ?_⟩
        rcases List.mem_append.mp ho with ho | ho
        · exact hnone o ho ho'
        · obtain rfl := List.mem_singleton.mp ho
          exact fun hs => hwrites ⟨ho', hs⟩
      · refine Or.inr ⟨w, by simp [hw], hw', hs, hcurrent, fun o ho ho' hos => ?_⟩
        rcases List.mem_append.mp ho with ho | ho
        · exact hlast o ho ho' hos
        · obtain rfl := List.mem_singleton.mp ho
          exact absurd ⟨ho', hos⟩ hwrites

variable (hunique : ∀ op ∈ f.ops, op.name.isUpdate → numUsers f.toBlock (getCache op) = 1)
include hunique

/-- **A storage still holds a value** that was made and not written over. -/
theorem current_storage (heq : applySchedule f.ops schedule = pre ++ post)
    (hmade : ∀ op ∈ f.ops, op.name.isUpdate → v = getResult op → op ∈ pre)
    (hkept : ∀ op ∈ pre, op.name.isUpdate → getCache op ≠ v) :
    current f pre (storage f.ops v) = v := by
  have hmem : ∀ o ∈ pre, o ∈ f.ops := by
    intro o ho
    rw [← mem_applySchedule f.nodup hschedule, heq]
    exact List.mem_append_left _ ho
  rcases current_cases hschedule hfree heq (storage f.ops v) with
    ⟨hself, hnone⟩ | ⟨w, hw, hw', hs, hcurrent, hlast⟩
  · rw [hself]
    apply storage_eq_self
    rintro op hop h rfl
    exact hnone op (hmade op hop h rfl) h (storage_getResult f hop h).symm
  · rw [hcurrent]
    by_contra hne
    -- the value is written over by the next update of its chain
    have hbefore : Before f v w := by
      rintro op hop h rfl
      have hle := hlast op (hmade op hop h rfl) h (storage_getResult f hop h).symm
      refine lt_of_le_of_ne hle fun hidx => hne ?_
      rw [eq_of_index_eq f hop (hmem w hw) hidx]
    obtain ⟨u, hu, hu', hcache, hle⟩ := exists_next f hunique (hmem w hw) hw' hs.symm hbefore
    refine hkept u ?_ hu' hcache
    by_contra hnot
    have hpost : u ∈ post := by
      have := (mem_applySchedule f.nodup hschedule).mpr hu
      rw [heq] at this
      exact (List.mem_append.mp this).resolve_left hnot
    have hpairwise := pairwise_position f.nodup hschedule
    rw [heq, List.pairwise_append] at hpairwise
    have hlt := hpairwise.2.2 w hw u hpost
    exact absurd (index_lt_of_position_lt hfree (hmem w hw) hu hw' hu' hlt) (not_lt.mpr hle)

/-- **A storage holds an earlier value** until an update is done. -/
theorem current_lt (hρ : ∀ op ∈ f.ops, op.name.isUpdate → ρ (getCache op) < ρ (getResult op))
    (heq : applySchedule f.ops schedule = pre ++ post)
    {update : Operation Name τ} (hupdate : update ∈ f.ops) (h : update.name.isUpdate)
    (hnot : update ∉ pre) :
    ρ (current f pre (storage f.ops (getResult update))) < ρ (getResult update) := by
  have hscope := mem_scope_of_mem_operands f hupdate (getCache_mem f hupdate h)
  rw [storage_getResult f hupdate h]
  rcases current_cases hschedule hfree heq (storage f.ops (getCache update)) with
    ⟨hself, -⟩ | ⟨w, hw, hw', hs, hcurrent, -⟩
  · rw [hself]
    refine lt_of_before f hunique hρ hupdate h (storage_storage f hscope) ?_
    intro op hop hop' hres
    exact absurd hres (storage_ne_getResult f hscope hop hop')
  · have hwmem : w ∈ f.ops := by
      rw [← mem_applySchedule f.nodup hschedule, heq]
      exact List.mem_append_left _ hw
    have hpost : update ∈ post := by
      have := (mem_applySchedule f.nodup hschedule).mpr hupdate
      rw [heq] at this
      exact (List.mem_append.mp this).resolve_left hnot
    have hpairwise := pairwise_position f.nodup hschedule
    rw [heq, List.pairwise_append] at hpairwise
    have hlt := hpairwise.2.2 w hw update hpost
    rw [hcurrent]
    refine lt_of_before f hunique hρ hupdate h ?_ ?_
    · rw [storage_getResult f hwmem hw', hs]
    · intro op hop hop' hres
      obtain rfl := eq_of_getResult_eq f hwmem hop hres
      exact index_lt_of_position_lt hfree hop hupdate hop' h hlt

end Current

/-! ## Runs with writes -/

theorem isInPlace_toTTNN (h : op.name.opName.dialect ≠ .ttnn) :
    op.name.toTTNN.isInPlace = op.name.isUpdate := by
  rw [Name.toTTNN, Name.isInPlace, Name.isUpdate]
  split_ifs with httir
  · simp [httir]
  · simp [h, httir]

theorem ofTTNN_toTTNN (h : op.name.opName.dialect ≠ .ttnn) : op.name.toTTNN.ofTTNN = op.name := by
  obtain ⟨id, ⟨⟨dialect, mnemonic⟩, attributes⟩, operands, resultTypes⟩ := op
  cases dialect with
  | ttir => rfl
  | ttnn => exact absurd rfl h
  | other => rfl

/-- Reading operands where they are stored. -/
theorem forall₂_of_mapM {env : Env α} {adaptor : Value → Value} {vs : List Value} {as : List α}
    (h : (vs.map adaptor).mapM env = some as) :
    List.Forall₂ (fun v a => env (adaptor v) = some a) vs as := by
  induction vs generalizing as with
  | nil =>
    obtain rfl : [] = as := Option.some.inj h
    exact List.Forall₂.nil
  | cons v vs ih =>
    rw [List.map_cons, List.mapM_cons] at h
    obtain ⟨a, ha, h⟩ := Option.bind_eq_some_iff.mp h
    obtain ⟨as', has, h⟩ := Option.bind_eq_some_iff.mp h
    obtain rfl := Option.some.inj h
    exact List.Forall₂.cons ha (ih has)

variable {f : TTIRFunc τ} {compute : Name → List α → ℕ → α} {env env' : Env α}

/-- **One operation.**  Its operands are read from their storages; an update changes its
cache, and any other operation defines its results. -/
theorem stepInPlace_create (hop : op ∈ f.ops)
    (h : stepInPlace compute env (create (storage f.ops) op) = some env') :
    ∃ as, List.Forall₂ (fun v a => env (storage f.ops v) = some a) op.operands as ∧
      env' = if op.name.isUpdate then
          Function.update env (storage f.ops (getCache op)) (some (compute op.name as 0))
        else fun v => if v ∈ op.results then
          (match v with
            | .blockArg _ => none
            | .opResult _ k => some (compute op.name as k)) else env v := by
  obtain ⟨as, has, h⟩ := Option.bind_eq_some_iff.mp h
  refine ⟨as, forall₂_of_mapM has, ?_⟩
  have hdialect := f.not_ttnn op hop
  have hname : (create (storage f.ops) op).name = op.name.toTTNN := rfl
  rw [hname, isInPlace_toTTNN hdialect, ofTTNN_toTTNN hdialect] at h
  by_cases hupdate : op.name.isUpdate
  · rw [if_pos hupdate] at h ⊢
    obtain ⟨v, vs, hvs⟩ := List.exists_cons_of_ne_nil (f.updates op hop hupdate).1
    have hcache : getCache (create (storage f.ops) op) = storage f.ops (getCache op) := by
      simp [getCache, create, hvs]
    rw [← Option.some.inj h, hcache]
  · rw [if_neg hupdate] at h ⊢
    rw [← Option.some.inj h]
    funext v
    cases v with
    | blockArg n => simp [Env.define]
    | opResult id k =>
      simp only [Env.define, create, Operation.numResults, if_neg hupdate, total,
        ofTTNN_toTTNN hdialect, Operation.opResult_mem_results]

/-- What is defined stays defined. -/
theorem isSome_of_stepInPlace (hop : op ∈ f.ops)
    (h : stepInPlace compute env (create (storage f.ops) op) = some env')
    (hv : (env v).isSome) : (env' v).isSome := by
  obtain ⟨as, -, rfl⟩ := stepInPlace_create hop h
  by_cases hupdate : op.name.isUpdate
  · rw [if_pos hupdate]
    by_cases hcache : v = storage f.ops (getCache op)
    · rw [hcache, Function.update_self]
      rfl
    · rw [Function.update_of_ne hcache]
      exact hv
  · rw [if_neg hupdate]
    by_cases hmem : v ∈ op.results
    · obtain ⟨k, -, rfl⟩ := Operation.mem_results.mp hmem
      rw [if_pos hmem]
      rfl
    · rw [if_neg hmem]
      exact hv

theorem isSome_result_of_stepInPlace (hop : op ∈ f.ops) (hupdate : ¬ op.name.isUpdate)
    (h : stepInPlace compute env (create (storage f.ops) op) = some env') {k : ℕ}
    (hk : k < op.numResults) : (env' (.opResult op.id k)).isSome := by
  obtain ⟨as, -, rfl⟩ := stepInPlace_create hop h
  rw [if_neg hupdate, if_pos (Operation.opResult_mem_results.mpr ⟨rfl, hk⟩)]
  rfl

theorem runInPlace_append {ops ops' : List (Operation Name τ)}
    {env : Env α} : runInPlace compute (ops ++ ops') env =
      (runInPlace compute ops env).bind (runInPlace compute ops') := by
  induction ops generalizing env with
  | nil => rfl
  | cons op ops ih =>
    rw [List.cons_append, runInPlace, runInPlace]
    cases stepInPlace compute env op with
    | none => rfl
    | some env' => exact ih

/-- The state of a run after some operations: every storage that is defined has a value
related to the TTIR value it holds. -/
structure Holds (R : Value → α → Prop) (f : TTIRFunc τ) (pre : List (Operation Name τ))
    (env : Env α) : Prop where
  related : ∀ s a, env s = some a → R (current f pre s) a
  fresh : ∀ s, env s = none → current f pre s = s
  made : ∀ p k a, env (.opResult p k) = some a → p ∈ pre.map Operation.id

/-- **One step of the simulation.** -/
theorem Holds.step {R : Value → α → Prop}
    (h : Holds R f pre env) (hop : op ∈ f.ops) (hnew : op.id ∉ pre.map Operation.id)
    (hstep : stepInPlace compute env (create (storage f.ops) op) = some env')
    (hR : ∀ as, List.Forall₂ (fun v a => R (current f pre (storage f.ops v)) a) op.operands as →
      ∀ k < op.numResults, R (.opResult op.id k) (compute op.name as k)) :
    Holds R f (pre ++ [op]) env' := by
  obtain ⟨as, has, rfl⟩ := stepInPlace_create hop hstep
  have hresults := hR as (has.imp fun v a hv => h.related _ _ hv)
  by_cases hupdate : op.name.isUpdate
  · rw [if_pos hupdate]
    have hnum := (f.updates op hop hupdate).2
    -- the cache was defined: it was read
    have hdefined : ∃ a, env (storage f.ops (getCache op)) = some a := by
      obtain ⟨i, hi, heq⟩ := List.mem_iff_getElem.mp (getCache_mem f hop hupdate)
      refine ⟨as.get ⟨i, has.length_eq ▸ hi⟩, ?_⟩
      rw [← heq]
      exact has.get hi _
    refine ⟨fun s a hs => ?_, fun s hs => ?_, fun p k a hs => ?_⟩
    · rw [current_concat_of_update f hupdate]
      by_cases heq : s = storage f.ops (getCache op)
      · subst heq
        rw [Function.update_self] at hs ⊢
        rw [← Option.some.inj hs]
        exact hresults 0 (hnum ▸ Nat.one_pos)
      · rw [Function.update_of_ne heq] at hs ⊢
        exact h.related s a hs
    · rw [current_concat_of_update f hupdate]
      by_cases heq : s = storage f.ops (getCache op)
      · rw [heq, Function.update_self] at hs
        cases hs
      · rw [Function.update_of_ne heq] at hs ⊢
        exact h.fresh s hs
    · rw [List.map_append]
      apply List.mem_append_left
      by_cases heq : .opResult p k = storage f.ops (getCache op)
      · obtain ⟨b, hb⟩ := hdefined
        exact h.made p k b (heq ▸ hb)
      · rw [Function.update_of_ne heq] at hs
        exact h.made p k a hs
  · rw [if_neg hupdate]
    have hcurrent : current f (pre ++ [op]) = current f pre :=
      current_concat_of_not_update f hupdate
    refine ⟨fun s a hs => ?_, fun s hs => ?_, fun p k a hs => ?_⟩
    · rw [hcurrent]
      split_ifs at hs with hmem
      · -- a new result was not defined, so nothing was written to it
        obtain ⟨k, hk, rfl⟩ := Operation.mem_results.mp hmem
        have hnone : env (.opResult op.id k) = none := by
          by_contra hsome
          obtain ⟨b, hb⟩ := Option.ne_none_iff_exists'.mp hsome
          exact hnew (h.made _ _ b hb)
        rw [h.fresh _ hnone, ← Option.some.inj hs]
        exact hresults k hk
      · exact h.related s a hs
    · rw [hcurrent]
      split_ifs at hs with hmem
      · obtain ⟨k, hk, rfl⟩ := Operation.mem_results.mp hmem
        cases hs
      · exact h.fresh s hs
    · rw [List.map_append]
      split_ifs at hs with hmem
      · apply List.mem_append_right
        rw [(Operation.opResult_mem_results.mp hmem).1]
        exact List.mem_singleton_self _
      · exact List.mem_append_left _ (h.made p k a hs)

variable {args : List α}

/-- **The whole run.** -/
theorem holds_of_run {R : Value → α → Prop} (hargs : ∀ n a, args[n]? = some a → R (.blockArg n) a)
    {order : List (Operation Name τ)} (hnodup : (order.map Operation.id).Nodup)
    (hmem : ∀ op ∈ order, op ∈ f.ops)
    (hR : ∀ pre op post, order = pre ++ op :: post → ∀ as,
      List.Forall₂ (fun v a => R (current f pre (storage f.ops v)) a) op.operands as →
        ∀ k < op.numResults, R (.opResult op.id k) (compute op.name as k))
    {pre post : List (Operation Name τ)} (heq : order = pre ++ post) {env : Env α}
    (hrun : runInPlace compute (pre.map (create (storage f.ops))) (argEnv args) = some env) :
    Holds R f pre env := by
  induction pre using List.reverseRecOn generalizing post env with
  | nil =>
    obtain rfl := Option.some.inj hrun
    refine ⟨fun s a hs => ?_, fun _ _ => rfl, fun p k a hs => by cases hs⟩
    cases s with
    | blockArg n => exact hargs n a hs
    | opResult p k => cases hs
  | append_singleton pre op ih =>
    rw [List.append_assoc, List.singleton_append] at heq
    rw [List.map_append, runInPlace_append] at hrun
    obtain ⟨env₁, hrun₁, hlast⟩ := Option.bind_eq_some_iff.mp hrun
    obtain ⟨env₂, hstep, hend⟩ := Option.bind_eq_some_iff.mp hlast
    obtain rfl := Option.some.inj hend
    have hnew : op.id ∉ pre.map Operation.id := by
      rw [heq, List.map_append, List.map_cons] at hnodup
      exact fun h => (List.nodup_append.mp hnodup).2.2 _ h _ (by simp) rfl
    exact (ih heq hrun₁).step (hmem op (by rw [heq]; simp)) hnew hstep (hR pre op post heq)

/-! ## What the conversion and the scheduler give -/

/-- **The conversion** succeeds where every updated cache has one use. -/
theorem convert_eq_some {b : Block Name τ} (h : convert f.toBlock = some b) :
    b = ⟨f.numArgs, f.ops.map (create (storage f.ops)), f.returns.map (storage f.ops)⟩ ∧
      ∀ op ∈ f.ops, op.name.isUpdate → numUsers f.toBlock (getCache op) = 1 := by
  obtain ⟨ops, hops, h⟩ := Option.bind_eq_some_iff.mp h
  have hall : ∀ (l l' : List (Operation Name τ)), l.mapM (matchAndRewrite f.toBlock) = some l' →
      l' = l.map (create (storage f.ops)) ∧
        ∀ op ∈ l, op.name.isUpdate → numUsers f.toBlock (getCache op) = 1 := by
    intro l
    induction l with
    | nil =>
      intro l' hl
      obtain rfl := Option.some.inj hl
      exact ⟨rfl, by simp⟩
    | cons op l ih =>
      intro l' hl
      rw [List.mapM_cons] at hl
      obtain ⟨o, ho, hl⟩ := Option.bind_eq_some_iff.mp hl
      obtain ⟨os, hos, hl⟩ := Option.bind_eq_some_iff.mp hl
      obtain rfl := Option.some.inj hl
      obtain ⟨rfl, hrest⟩ := ih os hos
      rw [matchAndRewrite] at ho
      split_ifs at ho with hfail
      obtain rfl := Option.some.inj ho
      refine ⟨rfl, fun a ha hupdate => ?_⟩
      rcases List.mem_cons.mp ha with rfl | ha
      · by_contra hne
        exact hfail ⟨hupdate, hne⟩
      · exact hrest a ha hupdate
  obtain ⟨rfl, hunique⟩ := hall f.ops ops hops
  exact ⟨(Option.some.inj h).symm, hunique⟩

/-- **An admitted schedule** lists operations of the function, each once, and no update. -/
theorem isSchedule_of_admitted {b : Block Name τ} {schedule : List ℕ}
    (hconvert : convert f.toBlock = some b) (h : Admitted b schedule) :
    IsSchedule f.ops schedule ∧ ∀ op ∈ f.ops, op.name.isUpdate → op.id ∉ schedule := by
  obtain ⟨rfl, -⟩ := convert_eq_some hconvert
  obtain ⟨s₀, s, hinit, hreach, -, rfl⟩ := h
  obtain ⟨hnodup, hlists⟩ := schedule_of_reachable hinit hreach
  have hsource : ∀ id ∈ s.schedule, ∃ op ∈ f.ops, op.id = id ∧
      isTTSchedulableOp (toSchedulerOp (create (storage f.ops) op)) := by
    intro id hid
    obtain ⟨o, ho, hs, hid'⟩ := hlists id hid
    obtain ⟨o', ho', rfl⟩ := List.mem_map.mp ho
    obtain ⟨op, hop, rfl⟩ := List.mem_map.mp ho'
    exact ⟨op, hop, hid', hs⟩
  refine ⟨⟨hnodup, fun id hid => ?_⟩, fun op hop hupdate hid => ?_⟩
  · obtain ⟨op, hop, rfl, -⟩ := hsource id hid
    exact List.mem_map_of_mem hop
  · obtain ⟨op', hop', hsame, hs⟩ := hsource _ hid
    obtain rfl := eq_of_id_eq f.nodup hop' hop hsame
    have hdialect : op'.name.opName.dialect = .ttir := by
      simp only [Name.isUpdate, Bool.and_eq_true, decide_eq_true_eq] at hupdate
      exact hupdate.1
    simp [isTTSchedulableOp, isTTNNScheduleableOp, isTTIRSchedulableOp, toSchedulerOp, create,
      Operation.numResults, Name.toTTNN, hdialect, hupdate] at hs

/-! ## Which schedules keep the meaning -/

section Main

variable {f : TTIRFunc τ} {schedule : List ℕ} (hschedule : IsSchedule f.ops schedule)
  (hfree : ∀ op ∈ f.ops, op.name.isUpdate → op.id ∉ schedule)
  (hunique : ∀ op ∈ f.ops, op.name.isUpdate → numUsers f.toBlock (getCache op) = 1)

/-- The values the operations of the TTIR function have. -/
theorem exists_values (f : TTIRFunc τ) (compute : Name → List α → ℕ → α)
    (hargs : args.length = f.numArgs) :
    ∃ ρ : Value → α, (∀ n a, args[n]? = some a → a = ρ (.blockArg n)) ∧
      (∀ op ∈ f.ops, ∀ k < op.numResults,
        compute op.name (op.operands.map ρ) k = ρ (.opResult op.id k)) ∧
      evalPure compute f.toBlock args = some (f.returns.map ρ) := by
  have : Inhabited α := ⟨compute ⟨⟨.other, ""⟩, ""⟩ [] 0⟩
  obtain ⟨ρ, hρ, hsolves⟩ : ∃ ρ : Value → α, (∀ n < f.numArgs,
      args[n]? = some (ρ (.blockArg n))) ∧ Solves (total compute) f.ops ρ :=
    exists_solves f.toWellFormed (fun _ _ _ _ _ _ => rfl) hargs
  refine ⟨ρ, fun n a ha => ?_, fun op hop k hk => Option.some.inj (hsolves op hop k hk),
    eval_eq_of_solves f.toWellFormed hρ hsolves⟩
  have hn : n < f.numArgs := by
    rw [← hargs]
    exact (List.getElem?_eq_some_iff.mp ha).1
  rw [hρ n hn] at ha
  exact (Option.some.inj ha).symm

include hschedule

variable {pre post : List (Operation Name τ)}

theorem mem_ops_of_mem
    (heq : applySchedule f.ops schedule = pre ++ post) : ∀ op ∈ pre, op ∈ f.ops := by
  intro op hop
  rw [← mem_applySchedule f.nodup hschedule, heq]
  exact List.mem_append_left _ hop

/-- **Runs do not stop** when operations come after what they read or write is made. -/
theorem exists_run (compute : Name → List α → ℕ → α) (hargs : args.length = f.numArgs)
    (hdefined : ∀ op ∈ f.ops, ∀ v ∈ op.operands, ∀ p k, storage f.ops v = .opResult p k →
      position f.ops schedule p < position f.ops schedule op.id)
    (heq : applySchedule f.ops schedule = pre ++ post) :
    ∃ env, runInPlace compute (pre.map (create (storage f.ops))) (argEnv args) = some env ∧
      (∀ n < f.numArgs, (env (.blockArg n)).isSome) ∧
      ∀ op ∈ pre, ¬ op.name.isUpdate → ∀ k < op.numResults, (env (.opResult op.id k)).isSome := by
  induction pre using List.reverseRecOn generalizing post with
  | nil =>
    refine ⟨argEnv args, rfl, fun n hn => ?_, by simp⟩
    rw [argEnv, List.getElem?_eq_getElem (by omega)]
    rfl
  | append_singleton pre op ih =>
    rw [List.append_assoc, List.singleton_append] at heq
    obtain ⟨env, hrun, hentry, hresults⟩ := ih heq
    have hop : op ∈ f.ops := by
      rw [← mem_applySchedule f.nodup hschedule, heq]
      simp
    -- every operand is stored in something defined
    have hread : ∀ v ∈ op.operands.map (storage f.ops), (env v).isSome := by
      intro s hs
      obtain ⟨v, hv, rfl⟩ := List.mem_map.mp hs
      rcases storage_cases f (mem_scope_of_mem_operands f hop hv) with
        ⟨n, hn, hstore⟩ | ⟨p, hp, hp', k, hk, hstore⟩
      · rw [hstore]
        exact hentry n hn
      · rw [hstore]
        refine hresults p ?_ hp' k hk
        rw [mem_iff_position_lt f.nodup hschedule heq hp]
        exact hdefined op hop v hv p.id k hstore
    obtain ⟨as, has⟩ : ∃ as, (op.operands.map (storage f.ops)).mapM env = some as := by
      generalize op.operands.map (storage f.ops) = vs at hread
      induction vs with
      | nil => exact ⟨[], rfl⟩
      | cons v vs ihvs =>
        obtain ⟨a, ha⟩ := Option.isSome_iff_exists.mp (hread v (by simp))
        obtain ⟨as, has⟩ := ihvs fun w hw => hread w (by simp [hw])
        exact ⟨a :: as, by rw [List.mapM_cons, ha, has]; rfl⟩
    obtain ⟨env', hstep⟩ : ∃ env', stepInPlace compute env (create (storage f.ops) op) =
        some env' := by
      refine Option.isSome_iff_exists.mp ?_
      rw [stepInPlace]
      show (((op.operands.map (storage f.ops)).mapM env).bind _).isSome
      rw [has, Option.bind_some]
      split_ifs <;> rfl
    refine ⟨env', ?_, ?_⟩
    · rw [List.map_append, runInPlace_append, hrun]
      show runInPlace compute [create (storage f.ops) op] env = _
      rw [runInPlace, hstep]
      rfl
    · have hkeeps := fun v => isSome_of_stepInPlace (v := v) hop hstep
      refine ⟨fun n hn => hkeeps _ (hentry n hn), fun p hp hp' k hk => ?_⟩
      rcases List.mem_append.mp hp with hp | hp
      · exact hkeeps _ (hresults p hp hp' k hk)
      · obtain rfl := List.mem_singleton.mp hp
        exact isSome_result_of_stepInPlace hop hp' hstep hk

theorem not_mem_of_split (heq : applySchedule f.ops schedule = pre ++ op :: post) : op ∉ pre := by
  intro hmem
  have hnodup := nodup_applySchedule f.nodup hschedule
  rw [heq, List.map_append, List.map_cons] at hnodup
  exact (List.nodup_append.mp hnodup).2.2 _ (List.mem_map_of_mem hmem) _ (by simp) rfl

include hfree hunique

theorem current_of_read
    (heq : applySchedule f.ops schedule = pre ++ op :: post) (hv : v ∈ op.operands)
    (hmade : ∀ update ∈ f.ops, update.name.isUpdate → v = getResult update → update ∈ pre) :
    current f pre (storage f.ops v) = v := by
  refine current_storage hschedule hfree hunique heq hmade ?_
  rintro w hw hw' rfl
  have hop : op ∈ f.ops := by
    rw [← mem_applySchedule f.nodup hschedule, heq]
    simp
  obtain rfl := eq_of_getCache_mem f hunique (mem_ops_of_mem hschedule heq w hw) hw' hop hv
  exact not_mem_of_split hschedule heq hw

theorem current_of_returned (hv : v ∈ f.returns) :
    current f (applySchedule f.ops schedule) (storage f.ops v) = v := by
  refine current_storage hschedule hfree hunique (List.append_nil _).symm ?_ ?_
  · intro op hop _ _
    exact (mem_applySchedule f.nodup hschedule).mpr hop
  · rintro op hop h rfl
    have hop' := (mem_applySchedule f.nodup hschedule).mp hop
    exact getCache_not_mem_returns f hunique hop' h hv

/-- **Enough.**  A schedule that keeps updates in place keeps the meaning. -/
theorem evalInPlace_of_keepsUpdates (h : KeepsUpdates f.toBlock schedule)
    (compute : Name → List α → ℕ → α) (hargs : args.length = f.numArgs) :
    evalInPlace compute ⟨f.numArgs, (applySchedule f.ops schedule).map (create (storage f.ops)),
      f.returns.map (storage f.ops)⟩ args = evalPure compute f.toBlock args := by
  obtain ⟨ρ, hρargs, hρ, heval⟩ := exists_values f compute hargs
  obtain ⟨env, hrun, hentry, hresults⟩ :=
    exists_run hschedule compute hargs h.defined (List.append_nil _).symm
  -- live values are right
  have hholds : Holds (fun v a => Live f.toBlock v → a = ρ v) f
      (applySchedule f.ops schedule) env := by
    refine holds_of_run (fun n a ha _ => hρargs n a ha) (nodup_applySchedule f.nodup hschedule)
      (fun op hop => (mem_applySchedule f.nodup hschedule).mp hop) ?_ (List.append_nil _).symm hrun
    intro pre op post heq as has k hk hlive
    have hop : op ∈ f.ops := by
      rw [← mem_applySchedule f.nodup hschedule, heq]
      simp
    have hread : ∀ v ∈ op.operands, current f pre (storage f.ops v) = v := by
      intro v hv
      refine current_of_read hschedule hfree hunique heq hv ?_
      rintro update hupdate hupdate' rfl
      rw [mem_iff_position_lt f.nodup hschedule heq hupdate]
      exact h.written op hop update hupdate hupdate' hv ⟨k, hk, hlive⟩
    have hvalues : as = op.operands.map ρ := by
      have hlen := has.length_eq
      refine List.ext_getElem (by simpa using hlen.symm) fun i hi hi' => ?_
      have hi'' : i < op.operands.length := by omega
      have hlive' : Live f.toBlock op.operands[i] :=
        Live.operand hop (List.getElem_mem hi'') hk hlive
      have hget := has.get hi'' hi
      simp only [List.get_eq_getElem] at hget
      rw [hread _ (List.getElem_mem hi'')] at hget
      rw [List.getElem_map]
      exact hget hlive'
    rw [hvalues]
    exact hρ op hop k hk
  rw [evalInPlace, hrun, heval]
  show (f.returns.map (storage f.ops)).mapM env = _
  rw [List.mapM_map]
  refine mapM_eq_some f.returns fun v hv => ?_
  have hsome : (env (storage f.ops v)).isSome := by
    rcases storage_cases f (f.returns_mem v hv) with ⟨n, hn, hstore⟩ | ⟨p, hp, hp', k, hk, hstore⟩
    · rw [hstore]
      exact hentry n hn
    · rw [hstore]
      exact hresults p ((mem_applySchedule f.nodup hschedule).mpr hp) hp' k hk
  obtain ⟨a, ha⟩ := Option.isSome_iff_exists.mp hsome
  have hright := hholds.related _ _ ha
  rw [current_of_returned hschedule hfree hunique hv] at hright
  show env (storage f.ops v) = some (ρ v)
  rw [ha, hright (Live.returned hv)]

end Main

section Necessity

variable {f : TTIRFunc τ} {schedule : List ℕ} (hschedule : IsSchedule f.ops schedule)
  (hfree : ∀ op ∈ f.ops, op.name.isUpdate → op.id ∉ schedule)
  (hunique : ∀ op ∈ f.ops, op.name.isUpdate → numUsers f.toBlock (getCache op) = 1)

include hschedule in
/-- **A run that does not stop** reads only what is made before. -/
theorem defined_of_run {compute : Name → List α → ℕ → α} {env : Env α}
    (hrun : runInPlace compute ((applySchedule f.ops schedule).map (create (storage f.ops)))
      (argEnv args) = some env) (hop : op ∈ f.ops)
    (hv : v ∈ op.operands) {p k : ℕ} (hstore : storage f.ops v = .opResult p k) :
    position f.ops schedule p < position f.ops schedule op.id := by
  obtain ⟨pre, post, heq⟩ := List.append_of_mem ((mem_applySchedule f.nodup hschedule).mpr hop)
  rw [heq, List.map_append, runInPlace_append] at hrun
  obtain ⟨env₁, hrun₁, hrest⟩ := Option.bind_eq_some_iff.mp hrun
  obtain ⟨env₂, hstep, -⟩ := Option.bind_eq_some_iff.mp hrest
  obtain ⟨as, has, -⟩ := stepInPlace_create hop hstep
  have hholds : Holds (fun _ _ => True) f pre env₁ :=
    holds_of_run (fun _ _ _ => trivial) (nodup_applySchedule f.nodup hschedule)
      (fun o ho => (mem_applySchedule f.nodup hschedule).mp ho)
      (fun _ _ _ _ _ _ _ _ => trivial) heq hrun₁
  obtain ⟨i, hi, hvi⟩ := List.mem_iff_getElem.mp hv
  have hget := has.get hi (has.length_eq ▸ hi)
  simp only [List.get_eq_getElem, hvi, hstore] at hget
  obtain ⟨o, ho, rfl⟩ := List.mem_map.mp (hholds.made p k _ hget)
  rw [← mem_iff_position_lt f.nodup hschedule heq (mem_ops_of_mem hschedule heq o ho)]
  exact ho

/-- Values computed from a read that comes before the update it depends on. -/
inductive Wrong (f : Block Name τ) (schedule : List ℕ) : Value → Prop where
  | early {op update : Operation Name τ} {k : ℕ} (hop : op ∈ f.ops) (hupdate : update ∈ f.ops)
      (h : update.name.isUpdate) (hread : getResult update ∈ op.operands)
      (hk : k < op.numResults)
      (hearly : ¬ position f.ops schedule update.id < position f.ops schedule op.id) :
      Wrong f schedule (.opResult op.id k)
  | operand {op : Operation Name τ} {v : Value} {k : ℕ} (hop : op ∈ f.ops) (hv : v ∈ op.operands)
      (hk : k < op.numResults) (h : Wrong f schedule v) : Wrong f schedule (.opResult op.id k)

/-- Operations that add one to the sum of their operands. -/
def countUp : Name → List ℕ → ℕ → ℕ := fun _ vs _ => 1 + vs.sum

theorem sum_le_of_forall₂ {bad : Value → Prop} {vs : List Value} {as : List ℕ}
    (h : List.Forall₂ (fun v a => a ≤ ρ v ∧ (bad v → a < ρ v)) vs as) :
    as.sum ≤ (vs.map ρ).sum ∧ ((∃ v ∈ vs, bad v) → as.sum < (vs.map ρ).sum) := by
  induction h with
  | nil => simp
  | @cons v a vs as hva _ ih =>
    rw [List.sum_cons, List.map_cons, List.sum_cons]
    refine ⟨Nat.add_le_add hva.1 ih.1, ?_⟩
    rintro ⟨w, hw, hbad⟩
    rcases List.mem_cons.mp hw with rfl | hw
    · exact Nat.add_lt_add_of_lt_of_le (hva.2 hbad) ih.1
    · exact Nat.add_lt_add_of_le_of_lt hva.1 (ih.2 ⟨w, hw, hbad⟩)

include hschedule hfree hunique

/-- **Wrong values are too small** when operations count up. -/
theorem holds_wrong (hρ : ∀ op ∈ f.ops, ∀ k < op.numResults,
      countUp op.name (op.operands.map ρ) k = ρ (.opResult op.id k))
    {args : List ℕ} (hargs : ∀ n a, args[n]? = some a → a = ρ (.blockArg n)) {env : Env ℕ}
    (hrun : runInPlace countUp ((applySchedule f.ops schedule).map (create (storage f.ops)))
      (argEnv args) = some env) :
    Holds (fun v a => a ≤ ρ v ∧ (Wrong f.toBlock schedule v → a < ρ v)) f
      (applySchedule f.ops schedule) env := by
  have hascend : ∀ op ∈ f.ops, op.name.isUpdate → ρ (getCache op) < ρ (getResult op) := by
    intro op hop h
    have hle : ρ (getCache op) ≤ (op.operands.map ρ).sum :=
      List.le_sum_of_mem (List.mem_map_of_mem (getCache_mem f hop h))
    rw [getResult, ← hρ op hop 0 (by rw [(f.updates op hop h).2]; exact Nat.one_pos), countUp]
    omega
  refine holds_of_run ?_ (nodup_applySchedule f.nodup hschedule)
    (fun op hop => (mem_applySchedule f.nodup hschedule).mp hop) ?_ (List.append_nil _).symm hrun
  · intro n a ha
    rw [hargs n a ha]
    exact ⟨le_refl _, fun h => by cases h⟩
  · intro pre op post heq as has k hk
    have hop : op ∈ f.ops := by
      rw [← mem_applySchedule f.nodup hschedule, heq]
      simp
    -- an operand is bad when it is wrong or read too early
    set bad : Value → Prop := fun v => Wrong f.toBlock schedule v ∨
      ∃ update ∈ f.ops, update.name.isUpdate ∧ v = getResult update ∧ update ∉ pre with hbad
    have hoperands : List.Forall₂ (fun v a => a ≤ ρ v ∧ (bad v → a < ρ v)) op.operands as := by
      refine List.forall₂_iff_get.mpr ⟨has.length_eq, fun i hi hi' => ?_⟩
      have hget := has.get hi hi'
      have hv : op.operands.get ⟨i, hi⟩ ∈ op.operands := List.get_mem _ _
      generalize op.operands.get ⟨i, hi⟩ = v at hget hv
      generalize as.get ⟨i, hi'⟩ = a at hget
      by_cases hearly : ∃ update ∈ f.ops, update.name.isUpdate ∧ v = getResult update ∧ update ∉ pre
      · obtain ⟨update, hupdate, h, rfl, hnot⟩ := hearly
        have hlt := current_lt hschedule hfree hunique hascend heq hupdate h hnot
        have hstrict := lt_of_le_of_lt hget.1 hlt
        exact ⟨hstrict.le, fun _ => hstrict⟩
      · have hmade : ∀ update ∈ f.ops, update.name.isUpdate → v = getResult update →
            update ∈ pre := by
          intro update hupdate h hres
          by_contra hnot
          exact hearly ⟨update, hupdate, h, hres, hnot⟩
        rw [current_of_read hschedule hfree hunique heq hv hmade] at hget
        exact ⟨hget.1, fun h => hget.2 (h.resolve_right hearly)⟩
    obtain ⟨hle, hlt⟩ := sum_le_of_forall₂ hoperands
    rw [← hρ op hop k hk, countUp, countUp]
    refine ⟨Nat.add_le_add_left hle 1, fun hwrong => Nat.add_lt_add_left (hlt ?_) 1⟩
    generalize hres : Value.opResult op.id k = r at hwrong
    cases hwrong with
    | @early op' update k' hop' hupdate h hread hk' hearly =>
      obtain rfl := eq_of_id_eq f.nodup hop hop' (Value.opResult.inj hres).1
      refine ⟨_, hread, Or.inr ⟨update, hupdate, h, rfl, fun hmem => hearly ?_⟩⟩
      exact (mem_iff_position_lt f.nodup hschedule heq hupdate).mp hmem
    | @operand op' v k' hop' hv hk' h =>
      obtain rfl := eq_of_id_eq f.nodup hop hop' (Value.opResult.inj hres).1
      exact ⟨v, hv, Or.inl h⟩

/-- **Necessary.**  A schedule that keeps the meaning keeps updates in place. -/
theorem keepsUpdates_of_evalInPlace (h : evalInPlace countUp
      ⟨f.numArgs, (applySchedule f.ops schedule).map (create (storage f.ops)),
        f.returns.map (storage f.ops)⟩ (List.replicate f.numArgs 0) =
      evalPure countUp f.toBlock (List.replicate f.numArgs 0)) :
    KeepsUpdates f.toBlock schedule := by
  obtain ⟨ρ, hρargs, hρ, heval⟩ :=
    exists_values f countUp (List.length_replicate (n := f.numArgs) (a := 0))
  rw [heval] at h
  obtain ⟨env, hrun, hreturns⟩ := Option.bind_eq_some_iff.mp h
  have hholds := holds_wrong hschedule hfree hunique hρ hρargs hrun
  -- the returned values are right, so no live value is wrong
  have hright : ∀ v, Live f.toBlock v → ¬ Wrong f.toBlock schedule v := by
    intro v hlive
    induction hlive with
    | @returned v hv =>
      intro hwrong
      obtain ⟨i, hi, hvi⟩ := List.mem_iff_getElem.mp hv
      have hget := (forall₂_of_mapM hreturns).get hi (by simpa using hi)
      simp only [List.get_eq_getElem, List.getElem_map, hvi] at hget
      have hsmall := (hholds.related _ _ hget).2
      rw [current_of_returned hschedule hfree hunique hv] at hsmall
      exact lt_irrefl _ (hsmall hwrong)
    | operand hop hv hk _ ih => exact fun hwrong => ih (Wrong.operand hop hv hk hwrong)
  refine ⟨fun op hop v hv p k hstore => defined_of_run hschedule hrun hop hv hstore, ?_⟩
  rintro op hop update hupdate hupdate' hread ⟨k, hk, hlive⟩
  by_contra hearly
  exact hright _ hlive (Wrong.early hop hupdate hupdate' hread hk hearly)

end Necessity

/-- **Which schedules keep the meaning of a function with caches.**  For every function the
conversion accepts and every schedule a client of the scheduler can finish, the converted
and reordered function returns what the TTIR function returns, on all data, exactly when the
new order keeps operations after the tensors they use and live readers after the updates. -/
theorem schedulePreserves_iff (f : TTIRFunc τ) {b : Block Name τ}
    (hconvert : convert f.toBlock = some b) {schedule : List ℕ} (hadmitted : Admitted b schedule) :
    Preserves f.toBlock b schedule ↔ KeepsUpdates f.toBlock schedule := by
  obtain ⟨hschedule, hfree⟩ := isSchedule_of_admitted hconvert hadmitted
  obtain ⟨rfl, hunique⟩ := convert_eq_some hconvert
  have hreorder : reorder ⟨f.numArgs, f.ops.map (create (storage f.ops)),
      f.returns.map (storage f.ops)⟩ schedule = ⟨f.numArgs,
        (applySchedule f.ops schedule).map (create (storage f.ops)),
        f.returns.map (storage f.ops)⟩ := by
    rw [reorder]
    show Block.mk _ (applySchedule (f.ops.map (create (storage f.ops))) schedule) _ = _
    rw [applySchedule_map (g := create (storage f.ops)) fun _ => rfl]
  rw [Preserves, hreorder]
  constructor
  · intro h
    exact keepsUpdates_of_evalInPlace hschedule hfree hunique
      (h ℕ countUp (List.replicate f.numArgs 0) List.length_replicate)
  · intro h α compute args hargs
    exact evalInPlace_of_keepsUpdates hschedule hfree hunique h compute hargs

/-- A cache is filled and the filled cache is read. -/
def fillThenRead : TTIRFunc Unit where
  numArgs := 2
  ops := [⟨0, ⟨⟨.ttir, "fill_cache"⟩, ""⟩, [.blockArg 0, .blockArg 1], [()]⟩,
    ⟨1, ⟨⟨.ttir, "exp"⟩, ""⟩, [.opResult 0 0], [()]⟩]
  returns := [.opResult 1 0]
  nodup := by decide
  dominated := by decide
  returns_mem := by decide
  not_ttnn := by decide
  updates := by decide

/-- The reader is the only scheduled operation and stays behind the update. -/
theorem fillThenRead_preserves : ∃ b, convert fillThenRead.toBlock = some b ∧ Admitted b [1] ∧
    Preserves fillThenRead.toBlock b [1] := by
  have hconvert : convert fillThenRead.toBlock = some ⟨2,
      [⟨0, ⟨⟨.ttnn, "fill_cache"⟩, ""⟩, [.blockArg 0, .blockArg 1], []⟩,
        ⟨1, ⟨⟨.ttnn, "exp"⟩, ""⟩, [.blockArg 0], [()]⟩], [.opResult 1 0]⟩ := by decide
  have hadmitted : Admitted (τ := Unit) ⟨2,
      [⟨0, ⟨⟨.ttnn, "fill_cache"⟩, ""⟩, [.blockArg 0, .blockArg 1], []⟩,
        ⟨1, ⟨⟨.ttnn, "exp"⟩, ""⟩, [.blockArg 0], [()]⟩], [.opResult 1 0]⟩ [1] := by
    refine ⟨_, _, rfl, ⟨[], Relation.ReflTransGen.single (Step.scheduleOp _ _ 1 ?_)⟩, ?_, rfl⟩
    · decide
    · decide
  refine ⟨_, hconvert, hadmitted, (schedulePreserves_iff fillThenRead hconvert hadmitted).mpr ⟨?_, ?_⟩⟩
  · have hall : ∀ op ∈ fillThenRead.ops, ∀ v ∈ op.operands,
        storage fillThenRead.ops v = .blockArg 0 ∨ storage fillThenRead.ops v = .blockArg 1 := by
      decide
    intro op hop v hv p k hstore
    rcases hall op hop v hv with h | h <;> rw [h] at hstore <;> cases hstore
  · have hall : ∀ op ∈ fillThenRead.ops, ∀ update ∈ fillThenRead.ops, update.name.isUpdate →
        getResult update ∈ op.operands →
          position fillThenRead.ops [1] update.id < position fillThenRead.ops [1] op.id := by
      decide
    exact fun op hop update hupdate h hread _ => hall op hop update hupdate h hread

/-- A cache is updated with a computed tensor and the new cache is read. -/
def updateThenRead : TTIRFunc Unit where
  numArgs := 3
  ops := [⟨0, ⟨⟨.ttir, "relu"⟩, ""⟩, [.blockArg 1], [()]⟩,
    ⟨1, ⟨⟨.ttir, "update_cache"⟩, ""⟩, [.blockArg 0, .opResult 0 0, .blockArg 2], [()]⟩,
    ⟨2, ⟨⟨.ttir, "exp"⟩, ""⟩, [.opResult 1 0], [()]⟩]
  returns := [.opResult 2 0]
  nodup := by decide
  dominated := by decide
  returns_mem := by decide
  not_ttnn := by decide
  updates := by decide

/-- The schedule in the order of the function puts the reader before the update, which is
not scheduled, and the reader gets the old cache. -/
theorem updateThenRead_not_preserves : ¬ ∀ (f : TTIRFunc Unit) (b : Block Name Unit)
    (schedule : List ℕ), convert f.toBlock = some b → Admitted b schedule →
      Preserves f.toBlock b schedule := by
  intro h
  have hpreserves := h updateThenRead ⟨3,
    [⟨0, ⟨⟨.ttnn, "relu"⟩, ""⟩, [.blockArg 1], [()]⟩,
      ⟨1, ⟨⟨.ttnn, "update_cache"⟩, ""⟩, [.blockArg 0, .opResult 0 0, .blockArg 2], []⟩,
      ⟨2, ⟨⟨.ttnn, "exp"⟩, ""⟩, [.blockArg 0], [()]⟩], [.opResult 2 0]⟩ [0, 2] (by decide) ?_
  · have hvalues := hpreserves ℕ countUp [0, 0, 0] rfl
    exact absurd hvalues (by decide)
  · refine ⟨_, _, rfl, ⟨[], Relation.ReflTransGen.tail (Relation.ReflTransGen.single
      (Step.scheduleOp _ _ 0 ?_)) (Step.scheduleOp _ _ 2 ?_)⟩, ?_, rfl⟩
    · decide
    · decide
    · decide

end InPlaceCache
