/-
# Collective permute on the host

`run` of `collective_permute.cpp` moves the shards of a mesh tensor between devices.  The shards
are read to host tensors, the tensor of a target becomes that of its source, and a device that is
no target gets its own tensor, overwritten with zeros.

* `HostState`, `assignPair`, `fillWithZeros` : the two loops, over host buffers;
* `run` : the shards of the result;
* `Permuted` : what the result is meant to be;
* `permuted_iff` : when it is.

To copy a tensor is to share its buffer, so that the zeros of a device that is a source and no
target are also what its target reads.
-/
import Mathlib.Algebra.GroupWithZero.Nat
import Mathlib.Data.Int.Basic
import Mathlib.Data.List.Nodup

namespace CollectivePermute

variable {α : Type}

/-! ## The translated code -/

/-- Host tensors are handles of buffers; what is not yet assigned is an empty tensor. -/
structure HostState (α : Type) : Type where
  heap : ℕ → List α
  newHostTensors : List (Option ℕ)
  foundDestDevices : List Bool

/-- The vectors before the first loop. -/
def HostState.initial (heap : ℕ → List α) (n : ℕ) : HostState α where
  heap := heap
  newHostTensors := List.replicate n none
  foundDestDevices := List.replicate n false

/-- The body of the first loop: the tensor of the source is copied to the target. -/
def assignPair (hostTensors : List ℕ) (src dest : ℤ) (st : HostState α) :
    Except String (HostState α) :=
  if ¬ (src < hostTensors.length ∧ 0 ≤ src) then .error "Source device id is out of bounds!"
  else if ¬ (dest < hostTensors.length ∧ 0 ≤ dest) then
    .error "Destination device id is out of bounds!"
  else
    .ok { st with
      newHostTensors := st.newHostTensors.set dest.toNat hostTensors[src.toNat]?
      foundDestDevices := st.foundDestDevices.set dest.toNat true }

/-- The first loop. -/
def assignPairs (hostTensors : List ℕ) :
    List ℤ → HostState α → Except String (HostState α)
  | src :: dest :: rest, st => do assignPairs hostTensors rest (← assignPair hostTensors src dest st)
  | _, st => .ok st

/-- The body of the second loop: `memset` writes to the buffer of the device. -/
def fillWithZeros [Zero α] (hostTensors : List ℕ) (st : HostState α) (i : ℕ) : HostState α :=
  if st.foundDestDevices.getD i true then st
  else
    let srcHostTensor := hostTensors.getD i 0
    { heap := Function.update st.heap srcHostTensor
        (List.replicate (st.heap srcHostTensor).length 0)
      newHostTensors := st.newHostTensors.set i (some srcHostTensor)
      foundDestDevices := st.foundDestDevices.set i true }

/-- `run`: the shards of the aggregated tensor, in the order of the devices. -/
def run [Zero α] (heap : ℕ → List α) (hostTensors : List ℕ) (sourceTargetPairs : List ℤ) :
    Except String (List (List α)) :=
  if sourceTargetPairs.length % 2 ≠ 0 then
    .error "Expected sourceTargetPairs to have size multiple of 2"
  else do
    let st ← assignPairs hostTensors sourceTargetPairs (.initial heap hostTensors.length)
    let st := (List.range st.foundDestDevices.length).foldl (fillWithZeros hostTensors) st
    match st.newHostTensors.mapM id with
    | none => .error "empty tensor"
    | some tensors => return tensors.map st.heap

/-! ## What the result is meant to be -/

/-- The list of pairs as the operation carries it. -/
def flatten (pairs : List (ℕ × ℕ)) : List ℤ := pairs.flatMap fun p => [(p.1 : ℤ), (p.2 : ℤ)]

/-- **The shards are moved as specified**: a target has the shard of its source, and any other
device has zeros. -/
structure Permuted [Zero α] (shards : List (List α)) (pairs : List (ℕ × ℕ))
    (out : List (List α)) : Prop where
  length_eq : out.length = shards.length
  target : ∀ s d, (s, d) ∈ pairs → out[d]? = shards[s]?
  other : ∀ (d : ℕ) (shard : List α), shards[d]? = some shard → (∀ s, (s, d) ∉ pairs) →
    out[d]? = some (List.replicate shard.length 0)

/-! ## The first loop -/

section Pairs

variable {hostTensors : List ℕ} {pairs : List (ℕ × ℕ)} {st st' : HostState α}

/-- What the first loop leaves: a target has the tensor of its source, and the others are as
they were. -/
structure Assigned (hostTensors : List ℕ) (pairs : List (ℕ × ℕ)) (st st' : HostState α) :
    Prop where
  heap_eq : st'.heap = st.heap
  length_tensors : st'.newHostTensors.length = st.newHostTensors.length
  length_found : st'.foundDestDevices.length = st.foundDestDevices.length
  target : ∀ s d, (s, d) ∈ pairs → st'.newHostTensors[d]? = some hostTensors[s]? ∧
    st'.foundDestDevices[d]? = some true
  other : ∀ d : ℕ, (∀ s, (s, d) ∉ pairs) → st'.newHostTensors[d]? = st.newHostTensors[d]? ∧
    st'.foundDestDevices[d]? = st.foundDestDevices[d]?

/-- **The first loop.**  With pairs in range and distinct targets no pair is overwritten. -/
theorem assignPairs_spec (hrange : ∀ p ∈ pairs, p.1 < hostTensors.length ∧ p.2 < hostTensors.length)
    (hnodup : (pairs.map Prod.snd).Nodup)
    (htensors : st.newHostTensors.length = hostTensors.length)
    (hfound : st.foundDestDevices.length = hostTensors.length) :
    ∃ st', assignPairs hostTensors (flatten pairs) st = .ok st' ∧
      Assigned hostTensors pairs st st' := by
  induction pairs generalizing st with
  | nil =>
    exact ⟨st, rfl, rfl, rfl, rfl, fun s d h => (by cases h), fun d _ => ⟨rfl, rfl⟩⟩
  | cons p pairs ih =>
    obtain ⟨s₀, d₀⟩ := p
    obtain ⟨hs₀, hd₀⟩ := hrange (s₀, d₀) (by simp)
    rw [List.map_cons, List.nodup_cons] at hnodup
    set st₁ : HostState α := { st with
      newHostTensors := st.newHostTensors.set d₀ hostTensors[s₀]?
      foundDestDevices := st.foundDestDevices.set d₀ true } with hst₁
    have hstep : assignPair hostTensors s₀ d₀ st = .ok st₁ := by
      rw [assignPair, if_neg (by simp [hs₀]), if_neg (by simp [hd₀])]
      rfl
    have htensors₁ : st₁.newHostTensors.length = hostTensors.length := by simp [hst₁, htensors]
    have hfound₁ : st₁.foundDestDevices.length = hostTensors.length := by simp [hst₁, hfound]
    obtain ⟨st', hrun, hst'⟩ := ih (fun p hp => hrange p (List.mem_cons_of_mem _ hp)) hnodup.2
      htensors₁ hfound₁
    -- the first target is none of the later ones
    have hlater : ∀ s, (s, d₀) ∉ pairs := fun s hmem =>
      hnodup.1 (List.mem_map.mpr ⟨(s, d₀), hmem, rfl⟩)
    refine ⟨st', ?_, hst'.heap_eq, ?_, ?_, ?_, ?_⟩
    · have hflatten : flatten ((s₀, d₀) :: pairs) = (s₀ : ℤ) :: (d₀ : ℤ) :: flatten pairs := rfl
      rw [hflatten, assignPairs, hstep]
      exact hrun
    · rw [hst'.length_tensors, hst₁, List.length_set]
    · rw [hst'.length_found, hst₁, List.length_set]
    · intro s d hmem
      rcases List.mem_cons.mp hmem with heq | hmem
      · cases heq
        obtain ⟨h₁, h₂⟩ := hst'.other d₀ hlater
        rw [h₁, h₂, hst₁, List.getElem?_set_self (by rw [htensors]; exact hd₀),
          List.getElem?_set_self (by rw [hfound]; exact hd₀)]
        exact ⟨rfl, rfl⟩
      · exact hst'.target s d hmem
    · intro d hnot
      have hne : d₀ ≠ d := fun heq => hnot s₀ (by rw [heq]; simp)
      obtain ⟨h₁, h₂⟩ := hst'.other d fun s hmem => hnot s (List.mem_cons_of_mem _ hmem)
      rw [h₁, h₂, hst₁, List.getElem?_set_ne hne, List.getElem?_set_ne hne]
      exact ⟨rfl, rfl⟩

end Pairs

/-! ## The second loop -/

section Zeros

variable [Zero α] {hostTensors : List ℕ} {st : HostState α}

/-- A device that no pair has as its target. -/
def Missed (st : HostState α) (d : ℕ) : Prop := st.foundDestDevices[d]? = some false

/-- What `k` rounds of the second loop leave: the missed devices among the first `k` have their
own tensors, and the buffers of these are zero. -/
structure Filled (hostTensors : List ℕ) (st st' : HostState α) (k : ℕ) : Prop where
  length_tensors : st'.newHostTensors.length = st.newHostTensors.length
  found : ∀ d : ℕ, k ≤ d → st'.foundDestDevices[d]? = st.foundDestDevices[d]?
  missed : ∀ d < k, Missed st d → st'.newHostTensors[d]? = some hostTensors[d]?
  other : ∀ d : ℕ, ¬ (d < k ∧ Missed st d) → st'.newHostTensors[d]? = st.newHostTensors[d]?
  zeros : ∀ d < k, Missed st d → ∀ b, hostTensors[d]? = some b →
    st'.heap b = List.replicate (st.heap b).length 0
  kept : ∀ b, (∀ d < k, Missed st d → hostTensors[d]? ≠ some b) → st'.heap b = st.heap b

theorem Filled.length_heap {st' : HostState α} {k : ℕ} (h : Filled hostTensors st st' k) (b : ℕ) :
    (st'.heap b).length = (st.heap b).length := by
  by_cases hb : ∃ d < k, Missed st d ∧ hostTensors[d]? = some b
  · obtain ⟨d, hd, hmissed, hget⟩ := hb
    rw [h.zeros d hd hmissed b hget, List.length_replicate]
  · push Not at hb
    rw [h.kept b hb]

/-- One round of the second loop. -/
theorem Filled.step {st' : HostState α} {k : ℕ} (h : Filled hostTensors st st' k)
    (hk : k < hostTensors.length) (htensors : st.newHostTensors.length = hostTensors.length)
    (hfound : st.foundDestDevices.length = hostTensors.length) :
    Filled hostTensors st (fillWithZeros hostTensors st' k) (k + 1) := by
  have hkeep : st'.foundDestDevices[k]? = st.foundDestDevices[k]? := h.found k le_rfl
  have hget : hostTensors[k]? = some (hostTensors.getD k 0) := by
    rw [List.getD_eq_getElem?_getD, List.getElem?_eq_getElem hk]
    rfl
  by_cases hmissed : Missed st k
  · -- the device is missed: its buffer is overwritten
    have hrun : fillWithZeros hostTensors st' k =
        { heap := Function.update st'.heap (hostTensors.getD k 0)
            (List.replicate (st'.heap (hostTensors.getD k 0)).length 0)
          newHostTensors := st'.newHostTensors.set k (some (hostTensors.getD k 0))
          foundDestDevices := st'.foundDestDevices.set k true } := by
      rw [fillWithZeros, if_neg]
      rw [List.getD_eq_getElem?_getD, hkeep, hmissed]
      simp
    rw [hrun]
    refine ⟨by simp [h.length_tensors], ?_, ?_, ?_, ?_, ?_⟩
    · intro d hd
      rw [List.getElem?_set_ne (by omega)]
      exact h.found d (by omega)
    · intro d hd hmd
      rcases Nat.lt_succ_iff_lt_or_eq.mp hd with hlt | rfl
      · rw [List.getElem?_set_ne (by omega)]
        exact h.missed d hlt hmd
      · rw [List.getElem?_set_self (by rw [h.length_tensors, htensors]; exact hk), hget]
    · intro d hd
      have hne : k ≠ d := fun heq => hd ⟨by omega, heq ▸ hmissed⟩
      rw [List.getElem?_set_ne hne]
      exact h.other d fun hboth => hd ⟨by omega, hboth.2⟩
    · intro d hd hmd b hb
      by_cases hbk : b = hostTensors.getD k 0
      · subst hbk
        simp only [Function.update_self]
        rw [h.length_heap]
      · have hlt : d < k := by
          rcases Nat.lt_succ_iff_lt_or_eq.mp hd with hlt | rfl
          · exact hlt
          · rw [hget] at hb
            exact absurd (Option.some.inj hb).symm hbk
        simp only [Function.update_of_ne hbk]
        exact h.zeros d hlt hmd b hb
    · intro b hb
      have hbk : b ≠ hostTensors.getD k 0 := fun heq =>
        hb k (by omega) hmissed (by rw [hget, heq])
      simp only [Function.update_of_ne hbk]
      exact h.kept b fun d hd hmd => hb d (by omega) hmd
  · -- the device is a target: nothing is done
    have hrun : fillWithZeros hostTensors st' k = st' := by
      have htrue : st.foundDestDevices[k]? = some true := by
        have hlt : k < st.foundDestDevices.length := by omega
        rw [Missed, List.getElem?_eq_getElem hlt] at hmissed
        rw [List.getElem?_eq_getElem hlt]
        simpa using hmissed
      rw [fillWithZeros, if_pos]
      rw [List.getD_eq_getElem?_getD, hkeep, htrue]
      rfl
    rw [hrun]
    have hbefore : ∀ d < k + 1, Missed st d → d < k := by
      intro d hd hmd
      rcases Nat.lt_succ_iff_lt_or_eq.mp hd with hlt | rfl
      · exact hlt
      · exact absurd hmd hmissed
    exact ⟨h.length_tensors, fun d hd => h.found d (by omega),
      fun d hd hmd => h.missed d (hbefore d hd hmd) hmd,
      fun d hd => h.other d fun hboth => hd ⟨by omega, hboth.2⟩,
      fun d hd hmd => h.zeros d (hbefore d hd hmd) hmd,
      fun b hb => h.kept b fun d hd hmd => hb d (by omega) hmd⟩

/-- **The second loop.** -/
theorem filled_foldl (htensors : st.newHostTensors.length = hostTensors.length)
    (hfound : st.foundDestDevices.length = hostTensors.length) {k : ℕ}
    (hk : k ≤ hostTensors.length) :
    Filled hostTensors st ((List.range k).foldl (fillWithZeros hostTensors) st) k := by
  induction k with
  | zero =>
    exact ⟨rfl, fun d _ => rfl, fun d hd => absurd hd (Nat.not_lt_zero d), fun d _ => rfl,
      fun d hd => absurd hd (Nat.not_lt_zero d), fun b _ => rfl⟩
  | succ k ih =>
    rw [List.range_succ, List.foldl_append, List.foldl_cons, List.foldl_nil]
    exact (ih (by omega)).step (by omega) htensors hfound

end Zeros

/-! ## The shards of the result -/

theorem exists_of_forall_some {β : Type} {l : List (Option β)} (h : ∀ x ∈ l, ∃ b, x = some b) :
    ∃ bs, l.mapM id = some bs ∧ l = bs.map some := by
  induction l with
  | nil => exact ⟨[], rfl, rfl⟩
  | cons x l ih =>
    obtain ⟨b, rfl⟩ := h x (by simp)
    obtain ⟨bs, hbs, rfl⟩ := ih fun y hy => h y (List.mem_cons_of_mem _ hy)
    exact ⟨b :: bs, by rw [List.mapM_cons, hbs]; rfl, rfl⟩

section Shards

variable [Zero α] {heap : ℕ → List α} {hostTensors : List ℕ} {pairs : List (ℕ × ℕ)}

/-- A shard is moved undisturbed: its device is a target as well, or it was zero anyway. -/
def Undisturbed (shards : List (List α)) (pairs : List (ℕ × ℕ)) : Prop :=
  ∀ s d, (s, d) ∈ pairs → (∃ r, (r, s) ∈ pairs) ∨
    ∀ shard : List α, shards[s]? = some shard → shard = List.replicate shard.length 0

/-- What every device ends with: zeros if it is no target; else the shard of its source, which
is zero by then if the source is no target. -/
structure Shards (shards : List (List α)) (pairs : List (ℕ × ℕ)) (out : List (List α)) : Prop where
  length_eq : out.length = shards.length
  other : ∀ (d : ℕ) (shard : List α), shards[d]? = some shard → (∀ s, (s, d) ∉ pairs) →
    out[d]? = some (List.replicate shard.length 0)
  moved : ∀ s d, (s, d) ∈ pairs → (∃ r, (r, s) ∈ pairs) → out[d]? = shards[s]?
  cleared : ∀ s d, (s, d) ∈ pairs → (∀ r, (r, s) ∉ pairs) →
    ∀ shard : List α, shards[s]? = some shard → out[d]? = some (List.replicate shard.length 0)

/-- **What the code computes.** -/
theorem run_spec (hbuffers : hostTensors.Nodup)
    (hrange : ∀ p ∈ pairs, p.1 < hostTensors.length ∧ p.2 < hostTensors.length)
    (hnodup : (pairs.map Prod.snd).Nodup) :
    ∃ out, run heap hostTensors (flatten pairs) = .ok out ∧
      Shards (hostTensors.map heap) pairs out := by
  set n := hostTensors.length with hn
  set st₀ : HostState α := .initial heap n with hst₀
  have htensors₀ : st₀.newHostTensors.length = n := by simp [hst₀, HostState.initial]
  have hfound₀ : st₀.foundDestDevices.length = n := by simp [hst₀, HostState.initial]
  obtain ⟨st₁, hassign, h₁⟩ := assignPairs_spec hrange hnodup htensors₀ hfound₀
  have htensors₁ : st₁.newHostTensors.length = n := h₁.length_tensors.trans htensors₀
  have hfound₁ : st₁.foundDestDevices.length = n := h₁.length_found.trans hfound₀
  set st₂ := (List.range n).foldl (fillWithZeros hostTensors) st₁ with hst₂
  have h₂ : Filled hostTensors st₁ st₂ n := filled_foldl htensors₁ hfound₁ le_rfl
  -- the missed devices are those that are no target
  have hmissed : ∀ d, Missed st₁ d ↔ d < n ∧ ∀ s, (s, d) ∉ pairs := by
    intro d
    constructor
    · intro hm
      have hlt : d < n := by
        by_contra hge
        rw [Missed, List.getElem?_eq_none (by omega)] at hm
        cases hm
      refine ⟨hlt, fun s hmem => ?_⟩
      rw [Missed, (h₁.target s d hmem).2] at hm
      cases hm
    · rintro ⟨hlt, hnot⟩
      rw [Missed, (h₁.other d hnot).2]
      simp [hst₀, HostState.initial, hlt]
  have hget : ∀ d < n, ∃ b, hostTensors[d]? = some b := fun d hd =>
    ⟨_, List.getElem?_eq_getElem hd⟩
  -- the tensor of every device
  have htarget : ∀ s d, (s, d) ∈ pairs → st₂.newHostTensors[d]? = some hostTensors[s]? := by
    intro s d hmem
    rw [h₂.other d fun hboth => ((hmissed d).mp hboth.2).2 s hmem]
    exact (h₁.target s d hmem).1
  have hother : ∀ d < n, (∀ s, (s, d) ∉ pairs) →
      st₂.newHostTensors[d]? = some hostTensors[d]? := fun d hd hnot =>
    h₂.missed d hd ((hmissed d).mpr ⟨hd, hnot⟩)
  have hlength : st₂.newHostTensors.length = n := h₂.length_tensors.trans htensors₁
  obtain ⟨tensors, hmapM, htensors⟩ := exists_of_forall_some (l := st₂.newHostTensors) (by
    intro x hx
    obtain ⟨d, hd, rfl⟩ := List.getElem_of_mem hx
    rw [hlength] at hd
    have hgetd : st₂.newHostTensors[d]? = some st₂.newHostTensors[d] := List.getElem?_eq_getElem _
    by_cases hex : ∃ s, (s, d) ∈ pairs
    · obtain ⟨s, hmem⟩ := hex
      obtain ⟨b, hb⟩ := hget s (hrange _ hmem).1
      exact ⟨b, Option.some.inj (hgetd.symm.trans ((htarget s d hmem).trans (by rw [hb])))⟩
    · push Not at hex
      obtain ⟨b, hb⟩ := hget d hd
      exact ⟨b, Option.some.inj (hgetd.symm.trans ((hother d hd hex).trans (by rw [hb])))⟩)
  -- the buffer of a device after the second loop
  have hzero : ∀ (d b : ℕ), hostTensors[d]? = some b → (∀ s, (s, d) ∉ pairs) →
      st₂.heap b = List.replicate (heap b).length 0 := by
    intro d b hb hnot
    obtain ⟨hd, -⟩ := List.getElem?_eq_some_iff.mp hb
    rw [h₂.zeros d hd ((hmissed d).mpr ⟨hd, hnot⟩) b hb, h₁.heap_eq]
    rfl
  have hkept : ∀ (s b : ℕ), hostTensors[s]? = some b → (∃ r, (r, s) ∈ pairs) →
      st₂.heap b = heap b := by
    rintro s b hb ⟨r, hr⟩
    rw [h₂.kept b, h₁.heap_eq]
    · rfl
    · intro d hd hm hdb
      -- the buffers are distinct
      obtain ⟨hs, -⟩ := List.getElem?_eq_some_iff.mp hb
      have heq : d = s := (List.getElem?_inj hd hbuffers).mp (hdb.trans hb.symm)
      exact ((hmissed d).mp hm).2 r (heq ▸ hr)
  have hout : ∀ (d i b : ℕ), st₂.newHostTensors[d]? = some hostTensors[i]? →
      hostTensors[i]? = some b → (tensors.map st₂.heap)[d]? = some (st₂.heap b) := by
    intro d i b hd hi
    rw [htensors, List.getElem?_map, hi] at hd
    rw [List.getElem?_map]
    cases ht : tensors[d]? with
    | none =>
      rw [ht] at hd
      cases hd
    | some t =>
      rw [ht] at hd
      cases hd
      rfl
  have hlen : (flatten pairs).length % 2 = 0 := by
    have : (flatten pairs).length = pairs.length * 2 := by
      simp [flatten, List.length_flatMap]
    omega
  refine ⟨tensors.map st₂.heap, ?_, ?_, ?_, ?_, ?_⟩
  · rw [run, if_neg (by omega), hassign]
    have hloop : (List.range st₁.foundDestDevices.length).foldl (fillWithZeros hostTensors) st₁
        = st₂ := by rw [hfound₁]
    show (match ((List.range st₁.foundDestDevices.length).foldl
        (fillWithZeros hostTensors) st₁).newHostTensors.mapM id with
      | none => Except.error "empty tensor"
      | some tensors => Except.ok (tensors.map ((List.range st₁.foundDestDevices.length).foldl
        (fillWithZeros hostTensors) st₁).heap)) = _
    rw [hloop, hmapM]
  · have hcount := congrArg List.length htensors
    rw [hlength, List.length_map] at hcount
    rw [List.length_map, List.length_map, ← hcount]
  · intro d shard hshard hnot
    rw [List.getElem?_map, Option.map_eq_some_iff] at hshard
    obtain ⟨b, hb, rfl⟩ := hshard
    obtain ⟨hd, -⟩ := List.getElem?_eq_some_iff.mp hb
    rw [hout d d b (hother d hd hnot) hb, hzero d b hb hnot]
  · intro s d hmem hex
    obtain ⟨b, hb⟩ := hget s (hrange _ hmem).1
    rw [hout d s b (htarget s d hmem) hb, hkept s b hb hex, List.getElem?_map, hb]
    rfl
  · intro s d hmem hnot shard hshard
    rw [List.getElem?_map, Option.map_eq_some_iff] at hshard
    obtain ⟨b, hb, rfl⟩ := hshard
    rw [hout d s b (htarget s d hmem) hb, hzero s b hb hnot]

/-- The result is as specified exactly if no shard is disturbed. -/
theorem Shards.permuted_iff {shards out : List (List α)} (h : Shards shards pairs out)
    (hrange : ∀ p ∈ pairs, p.1 < shards.length) :
    Permuted shards pairs out ↔ Undisturbed shards pairs := by
  constructor
  · intro hp s d hmem
    by_cases hex : ∃ r, (r, s) ∈ pairs
    · exact Or.inl hex
    · refine Or.inr fun shard hshard => ?_
      push Not at hex
      have hmoved := hp.target s d hmem
      rw [h.cleared s d hmem hex shard hshard, hshard] at hmoved
      exact (Option.some.inj hmoved).symm
  · intro hu
    refine ⟨h.length_eq, fun s d hmem => ?_, h.other⟩
    by_cases hex : ∃ r, (r, s) ∈ pairs
    · exact h.moved s d hmem hex
    · have hlt : s < shards.length := hrange _ hmem
      have hs : shards[s]? = some shards[s] := List.getElem?_eq_getElem hlt
      have hzero := (hu s d hmem).resolve_left hex _ hs
      push Not at hex
      rw [h.cleared s d hmem hex _ hs, ← hzero, hs]

/-- **When a collective permute moves the shards as specified**: exactly if every source is also
a target, or held zeros. -/
theorem permuted_iff_undisturbed (heap : ℕ → List α) (hostTensors : List ℕ)
    (pairs : List (ℕ × ℕ)) (hbuffers : hostTensors.Nodup)
    (hrange : ∀ p ∈ pairs, p.1 < hostTensors.length ∧ p.2 < hostTensors.length)
    (hnodup : (pairs.map Prod.snd).Nodup) :
    (∃ out, run heap hostTensors (flatten pairs) = .ok out ∧
      Permuted (hostTensors.map heap) pairs out) ↔
    Undisturbed (hostTensors.map heap) pairs := by
  obtain ⟨out, hrun, hshards⟩ : ∃ out, run heap hostTensors (flatten pairs) = .ok out ∧
      Shards (hostTensors.map heap) pairs out := run_spec hbuffers hrange hnodup
  have hiff := hshards.permuted_iff fun p hp => by
    rw [List.length_map]
    exact (hrange p hp).1
  constructor
  · rintro ⟨out', hrun', hp⟩
    obtain rfl := Except.ok.inj (hrun.symm.trans hrun')
    exact hiff.mp hp
  · intro hu
    exact ⟨out, hrun, hiff.mpr hu⟩

end Shards

/-! ## Small meshes -/

/-- The shards of the devices, with one element each. -/
def twoShards (b : ℕ) : List ℕ := [b + 1]

/-- Two devices that exchange their shards, and a third one that is cleared. -/
theorem exchange_permuted :
    ∃ out, run twoShards [0, 1, 2] (flatten [(0, 1), (1, 0)]) = .ok out ∧
      Permuted ([0, 1, 2].map twoShards) [(0, 1), (1, 0)] out :=
  (permuted_iff_undisturbed twoShards [0, 1, 2] [(0, 1), (1, 0)] (by decide) (by decide)
    (by decide)).mpr fun s d h => Or.inl (by
      rcases List.mem_cons.mp h with h | h
      · cases h
        exact ⟨1, by decide⟩
      · cases List.mem_singleton.mp h
        exact ⟨0, by decide⟩)

/-- A device that sends its shard and receives none: its target gets zeros. -/
theorem send_not_permuted :
    ¬ ∃ out, run twoShards [0, 1] (flatten [(0, 1)]) = .ok out ∧
      Permuted ([0, 1].map twoShards) [(0, 1)] out := by
  rintro ⟨out, hrun, h⟩
  have hout : run twoShards [0, 1] (flatten [(0, 1)]) = .ok [[0], [0]] := by decide
  obtain rfl := Except.ok.inj (hout.symm.trans hrun)
  have htarget := h.target 0 1 (by decide)
  exact absurd htarget (by decide)

end CollectivePermute
