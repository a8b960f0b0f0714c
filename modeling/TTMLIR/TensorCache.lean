/-
# The runtime cache of const-eval results

`TensorCache` of `tensor_cache.h` is a map from outer keys (device and program) to maps from
const-eval functions to the tensors they computed and the versions of their inputs.

* `getAll`, `store`, `clear`, `remove` : the operations, with the statistics they keep;
* `latestStore` : what a sequence of calls leaves under a pair of keys;
* `run_spec` : without assertions the cache is that abstract map, for every sequence of calls;
* `simulates_iff` : the assertion of `remove` stops exactly the calls that use it correctly.
-/
import Mathlib

namespace Runtime

/-! ## The cache -/

/-- `CacheValue`: the versions of the inputs, and the outputs computed from them. -/
structure CacheValue (α : Type) : Type where
  inputVersions : List UInt64
  tensors : List α
  deriving DecidableEq

/-- `generateCacheOuterKey`. -/
def generateCacheOuterKey (deviceId : ℤ) (programIndex : ℕ) : String :=
  toString deviceId ++ ":" ++ toString programIndex

/-- `TensorCache`. -/
structure TensorCache (α : Type) : Type where
  cache : AList fun _ : String => AList fun _ : String => CacheValue α
  stats : AList fun _ : String => UInt64

/-- Where a call does not return. -/
inductive Stop : Type where
  | assertion (message : String)
  /-- `erase` of the end iterator. -/
  | undefined
  deriving DecidableEq, Repr

namespace TensorCache

variable {α : Type}

/-- The cache of a new binary. -/
def empty : TensorCache α := ⟨∅, ∅⟩

/-- `++stats[key]`. -/
def count (c : TensorCache α) (key : String) : TensorCache α :=
  { c with stats := c.stats.insert key ((c.stats.lookup key).getD 0 + 1) }

/-- `getAll`. -/
def getAll (c : TensorCache α) (parentFuncName constEvalFuncName : String)
    (inputVersions : List UInt64) : Option (List α) × TensorCache α :=
  match c.cache.lookup parentFuncName with
  | none => (none, c.count "misses")
  | some inner =>
    match inner.lookup constEvalFuncName with
    | none => (none, c.count "misses")
    | some value =>
      if value.inputVersions ≠ inputVersions then (none, c.count "misses")
      else (some value.tensors, c.count "hits")

/-- `store`. -/
def store (c : TensorCache α) (parentFuncName constEvalFuncName : String)
    (inputVersions : List UInt64) (tensors : List α) : TensorCache α :=
  let inner := (c.cache.lookup parentFuncName).getD ∅
  { c with
    cache := c.cache.insert parentFuncName
      (inner.insert constEvalFuncName ⟨inputVersions, tensors⟩) }

/-- `clear`; the statistics stay. -/
def clear (c : TensorCache α) : TensorCache α := { c with cache := ∅ }

/-- `remove`.  Assertions are compiled out with `ndebug`; what is left erases through an
iterator that has to point somewhere. -/
def remove (ndebug : Bool) (c : TensorCache α) (outerKey : String) :
    Except Stop (TensorCache α) :=
  if ¬ ndebug ∧ ¬ c.cache.lookup outerKey = none then
    .error (.assertion "Outer key not found in remove() call!")
  else if c.cache.lookup outerKey = none then .error .undefined
  else .ok { c with cache := c.cache.erase outerKey }

/-- The value under a pair of keys. -/
def entry (c : TensorCache α) (outer inner : String) : Option (CacheValue α) :=
  (c.cache.lookup outer).bind fun m => m.lookup inner

end TensorCache

/-! ## Sequences of calls -/

/-- A call to the cache. -/
inductive Call (α : Type) : Type where
  | store (parentFuncName constEvalFuncName : String) (inputVersions : List UInt64)
      (tensors : List α)
  | getAll (parentFuncName constEvalFuncName : String) (inputVersions : List UInt64)
  | remove (outerKey : String)
  | clear
  deriving DecidableEq

variable {α : Type}

/-- One call: what `getAll` returns is the answer. -/
def Call.exec (ndebug : Bool) (c : TensorCache α) :
    Call α → Except Stop (Option (Option (List α)) × TensorCache α)
  | .store outer inner versions tensors => .ok (none, c.store outer inner versions tensors)
  | .getAll outer inner versions =>
    let (answer, c) := c.getAll outer inner versions
    .ok (some answer, c)
  | .remove outer => (c.remove ndebug outer).map fun c => (none, c)
  | .clear => .ok (none, c.clear)

/-- A sequence of calls: the answers of its `getAll` calls, and the cache it leaves. -/
def run (ndebug : Bool) : List (Call α) → TensorCache α →
    Except Stop (List (Option (List α)) × TensorCache α)
  | [], c => .ok ([], c)
  | call :: calls, c => do
      let (answer, c) ← call.exec ndebug c
      let (answers, c) ← run ndebug calls c
      .ok (answer.toList ++ answers, c)

/-! ## The abstract map -/

/-- The latest store under a pair of keys, unless the outer key was removed or the cache
cleared since; calls are listed the latest first. -/
def latestStore (outer inner : String) : List (Call α) → Option (CacheValue α)
  | [] => none
  | .store outer' inner' versions tensors :: before =>
    if outer' = outer ∧ inner' = inner then some ⟨versions, tensors⟩
    else latestStore outer inner before
  | .getAll _ _ _ :: before => latestStore outer inner before
  | .remove outer' :: before => if outer' = outer then none else latestStore outer inner before
  | .clear :: _ => none

/-- An outer key is present: something was stored under it since it was removed or the cache
cleared. -/
def present (outer : String) : List (Call α) → Bool
  | [] => false
  | .store outer' _ _ _ :: before => outer' = outer || present outer before
  | .getAll _ _ _ :: before => present outer before
  | .remove outer' :: before => outer' ≠ outer && present outer before
  | .clear :: _ => false

/-- What `getAll` has to return after some calls: the tensors of the latest store, if its
versions are the requested ones. -/
def expected (before : List (Call α)) (outer inner : String) (versions : List UInt64) :
    Option (List α) :=
  ((latestStore outer inner before).filter fun value => value.inputVersions = versions).map
    CacheValue.tensors

/-- The answers the abstract map gives. -/
def expectedAnswers : List (Call α) → List (Call α) → List (Option (List α))
  | _, [] => []
  | before, .getAll outer inner versions :: calls =>
    expected before outer inner versions ::
      expectedAnswers (.getAll outer inner versions :: before) calls
  | before, call :: calls => expectedAnswers (call :: before) calls

/-- Every outer key is present when it is removed. -/
def RemovesPresent : List (Call α) → List (Call α) → Prop
  | _, [] => True
  | before, .remove outer :: calls =>
    present outer before = true ∧ RemovesPresent (.remove outer :: before) calls
  | before, call :: calls => RemovesPresent (call :: before) calls

/-- No outer key is removed. -/
def NoRemove (calls : List (Call α)) : Prop := ∀ outer, Call.remove outer ∉ calls

/-- **Two-level map.**  A sequence of calls on a new cache reaches no assertion, its answers
are those of the abstract map, and the cache holds the latest stores. -/
def Simulates (ndebug : Bool) (calls : List (Call α)) : Prop :=
  ∃ c, run ndebug calls TensorCache.empty = .ok (expectedAnswers [] calls, c) ∧
    ∀ outer inner, c.entry outer inner = latestStore outer inner calls.reverse

/-! ## Simulation -/

/-- The cache holds what the calls so far left. -/
structure Represents (c : TensorCache α) (before : List (Call α)) : Prop where
  entry : ∀ outer inner, c.entry outer inner = latestStore outer inner before
  present : ∀ outer, (c.cache.lookup outer).isSome = present outer before

namespace TensorCache

/-- `getAll` changes statistics only. -/
theorem getAll_cache (c : TensorCache α) (outer inner : String) (versions : List UInt64) :
    (c.getAll outer inner versions).2.cache = c.cache := by
  unfold getAll
  split
  · rfl
  · split
    · rfl
    · split
      · rfl
      · rfl

/-- `getAll` returns the value under the keys if its versions are the requested ones. -/
theorem getAll_answer (c : TensorCache α) (outer inner : String) (versions : List UInt64) :
    (c.getAll outer inner versions).1 =
      ((c.entry outer inner).filter fun value => value.inputVersions = versions).map
        CacheValue.tensors := by
  unfold getAll entry
  cases houter : c.cache.lookup outer with
  | none => rfl
  | some m =>
    cases hinner : m.lookup inner with
    | none => simp [hinner]
    | some value =>
      by_cases hv : value.inputVersions = versions
      · simp [hinner, hv, Option.filter]
      · simp [hinner, hv, Option.filter]

/-- The values after a store. -/
theorem entry_store (c : TensorCache α) (outer inner outer' inner' : String)
    (versions : List UInt64) (tensors : List α) :
    (c.store outer' inner' versions tensors).entry outer inner =
      if outer' = outer ∧ inner' = inner then some ⟨versions, tensors⟩
      else c.entry outer inner := by
  unfold entry store
  by_cases ho : outer = outer'
  · subst ho
    rw [AList.lookup_insert]
    by_cases hi : inner = inner'
    · subst hi
      simp
    · have hne : ¬ inner' = inner := fun h => hi h.symm
      simp only [Option.bind_some, AList.lookup_insert_ne hi, hne, and_false, if_false]
      cases c.cache.lookup outer with
      | none => rfl
      | some m => rfl
  · have hne : ¬ outer' = outer := fun h => ho h.symm
    simp only [AList.lookup_insert_ne ho, hne, false_and, if_false]

theorem entry_erase (c : TensorCache α) (outer inner outer' : String) :
    ({ c with cache := c.cache.erase outer' } : TensorCache α).entry outer inner =
      if outer' = outer then none else c.entry outer inner := by
  unfold entry
  by_cases ho : outer = outer'
  · subst ho
    simp
  · have hne : ¬ outer' = outer := fun h => ho h.symm
    simp [AList.lookup_erase_ne ho, hne]

end TensorCache

theorem represents_empty : Represents (TensorCache.empty : TensorCache α) [] := by
  refine ⟨fun _ _ => ?_, fun _ => ?_⟩
  · simp [TensorCache.entry, TensorCache.empty, latestStore]
  · simp [TensorCache.empty, present]

variable {c : TensorCache α}

/-- **Step.**  A call that is not stopped answers as the abstract map does, and the cache goes
on representing the calls. -/
theorem exec_spec (ndebug : Bool) (call : Call α) {before : List (Call α)} (h : Represents c before)
    (hcall : ∀ outer, call = .remove outer → ndebug = true ∧ present outer before = true) :
    ∃ c', call.exec ndebug c = .ok ((expectedAnswers before [call]).head?, c') ∧
      Represents c' (call :: before) := by
  cases call with
  | store outer' inner' versions tensors =>
    refine ⟨_, rfl, fun outer inner => ?_, fun outer => ?_⟩
    · rw [TensorCache.entry_store, h.entry, latestStore]
    · rw [present, ← h.present, TensorCache.store]
      by_cases ho : outer = outer'
      · subst ho
        simp
      · have hne : ¬ outer' = outer := fun heq => ho heq.symm
        simp [AList.lookup_insert_ne ho, hne]
  | getAll outer' inner' versions =>
    refine ⟨(c.getAll outer' inner' versions).2, ?_, fun outer inner => ?_, fun outer => ?_⟩
    · show Except.ok (some (c.getAll outer' inner' versions).1, _) = _
      rw [TensorCache.getAll_answer, h.entry]
      rfl
    · rw [TensorCache.entry, TensorCache.getAll_cache]
      exact h.entry outer inner
    · rw [TensorCache.getAll_cache]
      exact h.present outer
  | remove outer' =>
    obtain ⟨hndebug, hpresent⟩ := hcall outer' rfl
    have hsome : c.cache.lookup outer' ≠ none := by
      rw [← Option.isSome_iff_ne_none, h.present]
      exact hpresent
    refine ⟨{ c with cache := c.cache.erase outer' }, ?_, fun outer inner => ?_, fun outer => ?_⟩
    · simp [Call.exec, TensorCache.remove, hndebug, hsome, Except.map, expectedAnswers]
    · rw [TensorCache.entry_erase, h.entry, latestStore]
    · rw [present, ← h.present]
      by_cases ho : outer = outer'
      · subst ho
        simp
      · have hne : ¬ outer' = outer := fun heq => ho heq.symm
        simp [AList.lookup_erase_ne ho, hne]
  | clear =>
    refine ⟨_, rfl, fun outer inner => ?_, fun outer => ?_⟩
    · simp [TensorCache.entry, TensorCache.clear, latestStore]
    · simp [TensorCache.clear, present]

theorem expectedAnswers_cons (before : List (Call α)) (call : Call α) (calls : List (Call α)) :
    expectedAnswers before (call :: calls) =
      (expectedAnswers before [call]).head?.toList ++ expectedAnswers (call :: before) calls := by
  cases call with
  | store _ _ _ _ => rfl
  | getAll _ _ _ => rfl
  | remove _ => rfl
  | clear => rfl

theorem removesPresent_cons {before : List (Call α)} {call : Call α} {calls : List (Call α)} :
    RemovesPresent before (call :: calls) ↔
      (∀ outer, call = .remove outer → present outer before = true) ∧
        RemovesPresent (call :: before) calls := by
  cases call with
  | store _ _ _ _ => simp [RemovesPresent]
  | getAll _ _ _ => simp [RemovesPresent]
  | remove _ => simp [RemovesPresent]
  | clear => simp [RemovesPresent]

/-- **Run.**  While no call is stopped, every sequence of calls is answered as by the abstract
map. -/
theorem run_spec {ndebug : Bool} {calls before : List (Call α)}
    (h : Represents c before) (hpresent : RemovesPresent before calls)
    (hcalls : ndebug = true ∨ NoRemove calls) :
    ∃ c', run ndebug calls c = .ok (expectedAnswers before calls, c') ∧
      Represents c' (calls.reverse ++ before) := by
  induction calls generalizing before c with
  | nil => exact ⟨c, rfl, h⟩
  | cons call calls ih =>
    obtain ⟨hfirst, hrest⟩ := removesPresent_cons.mp hpresent
    obtain ⟨c₁, hexec, hc₁⟩ := exec_spec ndebug call h fun outer houter =>
      ⟨hcalls.resolve_right fun hno => hno outer (houter ▸ List.mem_cons_self), hfirst outer houter⟩
    obtain ⟨c₂, hrun, hc₂⟩ := ih hc₁ hrest
      (hcalls.imp_right fun hno outer hmem => hno outer (List.mem_cons_of_mem call hmem))
    refine ⟨c₂, ?_, by simpa using hc₂⟩
    rw [run, hexec]
    show Except.bind (run ndebug calls c₁) _ = _
    rw [hrun, expectedAnswers_cons before call calls]
    rfl

/-- With assertions, a sequence that removes a present key does not get to its end. -/
theorem run_stops {calls before : List (Call α)} (h : Represents c before)
    (hpresent : RemovesPresent before calls) (hcalls : ¬ NoRemove calls) :
    run false calls c = .error (.assertion "Outer key not found in remove() call!") := by
  induction calls generalizing before c with
  | nil => exact absurd (fun _ => List.not_mem_nil) hcalls
  | cons call calls ih =>
    obtain ⟨hfirst, hrest⟩ := removesPresent_cons.mp hpresent
    by_cases hremove : ∃ outer, call = .remove outer
    · obtain ⟨outer, rfl⟩ := hremove
      have hsome : c.cache.lookup outer ≠ none := by
        rw [← Option.isSome_iff_ne_none, h.present]
        exact hfirst outer rfl
      rw [run, Call.exec, TensorCache.remove, if_pos ⟨by simp, hsome⟩]
      rfl
    · obtain ⟨c₁, hexec, hc₁⟩ := exec_spec false call h fun outer houter =>
        absurd ⟨outer, houter⟩ hremove
      have hno : ¬ NoRemove calls := fun hno => hcalls fun outer hmem => by
        rcases List.mem_cons.mp hmem with heq | hmem
        · exact hremove ⟨outer, heq.symm⟩
        · exact hno outer hmem
      rw [run, hexec]
      show Except.bind (run false calls c₁) _ = _
      rw [ih hc₁ hrest hno]
      rfl

/-- **The tensor cache as a two-level map.**  A sequence of calls that removes present keys only
is answered as by the abstract map exactly when assertions are compiled out or no key is
removed. -/
theorem simulates_iff (ndebug : Bool) (calls : List (Call α)) (hpresent : RemovesPresent [] calls) :
    Simulates ndebug calls ↔ ndebug = true ∨ NoRemove calls := by
  constructor
  · rintro ⟨c, hrun, -⟩
    by_contra hno
    simp only [not_or, Bool.not_eq_true] at hno
    obtain ⟨rfl, hno⟩ := hno
    rw [run_stops represents_empty hpresent hno] at hrun
    cases hrun
  · intro hcalls
    obtain ⟨c, hrun, hc⟩ := run_spec represents_empty hpresent hcalls
    exact ⟨c, hrun, fun outer inner => by simpa using hc.entry outer inner⟩

/-- Weights that are cached, removed and asked for again. -/
theorem simulates_iff_removedWeights :
    Simulates true [.store "0:0" "const_eval_0" [1] [7], .remove "0:0",
      .getAll "0:0" "const_eval_0" [1]] ↔ true = true ∨ NoRemove ([.store "0:0" "const_eval_0"
        [1] [7], .remove "0:0", .getAll "0:0" "const_eval_0" [1]] : List (Call ℕ)) :=
  simulates_iff true _ (by simp [RemovesPresent, present])

/-- Removing a present key stops at the assertion. -/
theorem removedWeights_not_simulates :
    RemovesPresent [] [.store "0:0" "const_eval_0" [1] [7], .remove "0:0"] ∧
      ¬ Simulates false ([.store "0:0" "const_eval_0" [1] [7], .remove "0:0"] : List (Call ℕ)) := by
  have hpresent : RemovesPresent []
      ([.store "0:0" "const_eval_0" [1] [7], .remove "0:0"] : List (Call ℕ)) := by
    simp [RemovesPresent, present]
  refine ⟨hpresent, ?_⟩
  rintro ⟨c, hrun, -⟩
  rw [run_stops represents_empty hpresent fun hno => hno "0:0" (by simp)] at hrun
  cases hrun

end Runtime
