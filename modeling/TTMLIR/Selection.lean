/-
# Selecting from a list

Two ways in which a program thins out a list of candidates: it keeps the first candidate of every
key, or it sorts by a measure and keeps the largest.

* `firstPerKey` : the loop that remembers the keys it has seen;
* `eq_or_rel_of_mem_firstPerKey` : what is kept comes first in the order of the list;
* `SortsBy` : a sort by a measure, the order of equal elements left open;
* `largest_filter_take_iff` : when a list may be filtered after it was cut;
* `filter_flatten_of_unique` : a filter that looks at one of several lists only.
-/
import Mathlib.Data.List.Sort
import Mathlib.Data.List.Perm.Lattice

namespace Selection

variable {α κ : Type}

/-! ## The first of every key -/

section FirstPerKey

variable [DecidableEq κ]

/-- The elements whose key was not seen before. -/
def firstPerKey (key : α → κ) : List κ → List α → List α
  | _, [] => []
  | seen, a :: l =>
    if key a ∈ seen then firstPerKey key seen l else a :: firstPerKey key (key a :: seen) l

theorem firstPerKey_sublist (key : α → κ) (seen : List κ) (l : List α) :
    (firstPerKey key seen l).Sublist l := by
  induction l generalizing seen with
  | nil => exact List.Sublist.refl _
  | cons a l ih =>
    rw [firstPerKey]
    split_ifs
    · exact (ih seen).cons a
    · exact (ih (key a :: seen)).cons_cons a

variable {key : α → κ}

theorem key_notMem_of_mem_firstPerKey {seen : List κ} {l : List α} {b : α}
    (hb : b ∈ firstPerKey key seen l) : key b ∉ seen := by
  induction l generalizing seen with
  | nil => cases hb
  | cons a l ih =>
    rw [firstPerKey] at hb
    split_ifs at hb with ha
    · exact ih hb
    · rcases List.mem_cons.mp hb with rfl | hb
      · exact ha
      · exact fun h => ih hb (List.mem_cons_of_mem _ h)

/-- **The keys are distinct.** -/
theorem nodup_firstPerKey (key : α → κ) (seen : List κ) (l : List α) :
    ((firstPerKey key seen l).map key).Nodup := by
  induction l generalizing seen with
  | nil => exact List.nodup_nil
  | cons a l ih =>
    rw [firstPerKey]
    split_ifs
    · exact ih seen
    · refine List.nodup_cons.mpr ⟨fun h => ?_, ih (key a :: seen)⟩
      obtain ⟨b, hb, hkey⟩ := List.mem_map.mp h
      exact key_notMem_of_mem_firstPerKey hb (hkey ▸ List.mem_cons_self)

/-- **Every key is kept.** -/
theorem exists_mem_firstPerKey {seen : List κ} {l : List α} {a : α} (ha : a ∈ l)
    (hseen : key a ∉ seen) : ∃ b ∈ firstPerKey key seen l, key b = key a := by
  induction l generalizing seen with
  | nil => cases ha
  | cons c l ih =>
    rw [firstPerKey]
    rcases List.mem_cons.mp ha with rfl | ha
    · rw [if_neg hseen]
      exact ⟨a, List.mem_cons_self, rfl⟩
    · split_ifs with hc
      · exact ih ha hseen
      · by_cases hkey : key a = key c
        · exact ⟨c, List.mem_cons_self, hkey.symm⟩
        · have hfresh : key a ∉ key c :: seen := by simp [hkey, hseen]
          obtain ⟨b, hb, hba⟩ := ih ha hfresh
          exact ⟨b, List.mem_cons_of_mem _ hb, hba⟩

/-- **What is kept comes first**: in a list with an order, an element of the same key is the one that
is kept or comes behind it. -/
theorem eq_or_rel_of_mem_firstPerKey {r : α → α → Prop} {seen : List κ}
    {l : List α} (hl : l.Pairwise r) {a b : α} (ha : a ∈ l) (hb : b ∈ firstPerKey key seen l)
    (hkey : key a = key b) : a = b ∨ r b a := by
  induction l generalizing seen with
  | nil => cases ha
  | cons c l ih =>
    obtain ⟨hc, hl⟩ := List.pairwise_cons.mp hl
    have hseen := key_notMem_of_mem_firstPerKey hb
    rw [firstPerKey] at hb
    split_ifs at hb with hmem
    · rcases List.mem_cons.mp ha with rfl | ha
      · rw [hkey] at hmem
        exact absurd hmem hseen
      · exact ih hl ha hb
    · rcases List.mem_cons.mp hb with rfl | hb
      · rcases List.mem_cons.mp ha with rfl | ha
        · exact .inl rfl
        · exact .inr (hc a ha)
      · rcases List.mem_cons.mp ha with rfl | ha
        · have hnot := key_notMem_of_mem_firstPerKey hb
          rw [hkey] at hnot
          exact absurd List.mem_cons_self hnot
        · exact ih hl ha hb

end FirstPerKey

/-! ## The largest -/

/-- A sort by a measure, the largest first.  Equal elements may come in any order. -/
structure SortsBy (measure : α → ℕ) (sort : List α → List α) : Prop where
  perm : ∀ l, (sort l).Perm l
  sorted : ∀ l, (sort l).Pairwise fun a b => measure b ≤ measure a

theorem sortsBy_insertionSort (measure : α → ℕ) :
    SortsBy measure fun l => l.insertionSort fun a b => measure b ≤ measure a where
  perm l := List.perm_insertionSort _ l
  sorted l := by
    have htotal : Std.Total fun a b : α => measure b ≤ measure a :=
      ⟨fun a b => Nat.le_total (measure b) (measure a)⟩
    have htrans : IsTrans α fun a b => measure b ≤ measure a := ⟨fun _ _ _ h₁ h₂ => h₂.trans h₁⟩
    exact List.pairwise_insertionSort _ l

variable {measure : α → ℕ} {sort : List α → List α}

/-- The first `n` of the sorted list are at least as large as the others. -/
theorem SortsBy.le_of_take (h : SortsBy measure sort)
    {n : ℕ} {l : List α} {a b : α} (ha : a ∈ (sort l).take n) (hb : b ∈ (sort l).drop n) :
    measure b ≤ measure a := by
  have hsorted := h.sorted l
  rw [← List.take_append_drop n (sort l), List.pairwise_append] at hsorted
  exact hsorted.2.2 a ha b hb

/-- At most `n` largest elements of a list: none that is left out is larger, and if one is left out
there are `n`. -/
def Largest (measure : α → ℕ) (n : ℕ) (kept all : List α) : Prop :=
  ∃ cut, (kept ++ cut).Perm all ∧ (∀ a ∈ kept, ∀ b ∈ cut, measure b ≤ measure a) ∧
    kept.length ≤ n ∧ (cut ≠ [] → kept.length = n)

theorem Largest.perm {n : ℕ} {kept kept' all : List α}
    (h : Largest measure n kept all) (hperm : kept'.Perm kept) : Largest measure n kept' all := by
  obtain ⟨cut, hall, hle, hlength, hfull⟩ := h
  refine ⟨cut, (hperm.append_right cut).trans hall, fun a ha => hle a (hperm.mem_iff.mp ha), ?_, ?_⟩
  · rwa [hperm.length_eq]
  · rwa [hperm.length_eq]

/-- **An element that is rejected only after the cut** takes the place of one that is not: it is
among the first `n` and the other one is not, in some order of the equal ones. -/
def Displaced (measure : α → ℕ) (n : ℕ) (p : α → Bool) (l : List α) : Prop :=
  ∃ i ∈ l, p i = false ∧ ∃ c ∈ l, p c = true ∧ measure c ≤ measure i ∧
    l.countP (measure i < measure ·) < n ∧ n < l.countP (measure c ≤ measure ·)

/-- What comes behind the first `n` is behind all that is larger. -/
theorem SortsBy.lt_countP_of_mem_drop
    (h : SortsBy measure sort) {n : ℕ} {l : List α} {c : α} (hc : c ∈ (sort l).drop n) :
    n < l.countP (measure c ≤ measure ·) := by
  have hn : n < (sort l).length := by
    have hlength := List.length_pos_of_mem hc
    rw [List.length_drop] at hlength
    omega
  have hcount := (h.perm l).countP_eq (measure c ≤ measure ·)
  rw [← hcount, ← List.take_append_drop n (sort l), List.countP_append]
  have htake : ((sort l).take n).countP (measure c ≤ measure ·) = n := by
    rw [List.countP_eq_length.mpr, List.length_take, Nat.min_eq_left hn.le]
    exact fun a ha => decide_eq_true (h.le_of_take ha hc)
  have hdrop : 0 < ((sort l).drop n).countP (measure c ≤ measure ·) :=
    List.countP_pos_iff.mpr ⟨c, hc, decide_eq_true le_rfl⟩
  omega

/-- What is among the first `n` is behind less than `n` larger ones. -/
theorem SortsBy.countP_lt_of_mem_take
    (h : SortsBy measure sort) {n : ℕ} {l : List α} {i : α} (hi : i ∈ (sort l).take n) :
    l.countP (measure i < measure ·) < n := by
  have hcount := (h.perm l).countP_eq (measure i < measure ·)
  rw [← hcount, ← List.take_append_drop n (sort l), List.countP_append]
  have hdrop : ((sort l).drop n).countP (measure i < measure ·) = 0 := by
    refine List.countP_eq_zero.mpr fun b hb => ?_
    have hle := h.le_of_take hi hb
    simpa using hle
  have htake : ((sort l).take n).countP (measure i < measure ·) < ((sort l).take n).length := by
    refine lt_of_le_of_ne List.countP_le_length fun heq => ?_
    have hself := List.countP_eq_length.mp heq i hi
    simp at hself
  have hlength := List.length_take_le n (sort l)
  omega

/-- A measure that puts one of several equal elements first and another one last. -/
def tieBreak [DecidableEq α] (measure : α → ℕ) (first last a : α) : ℕ :=
  3 * measure a + if a = first then 2 else if a = last then 0 else 1

theorem SortsBy.mono {measure measure' : α → ℕ}
    (h : SortsBy measure' sort) (hle : ∀ a b, measure' b ≤ measure' a → measure b ≤ measure a) :
    SortsBy measure sort :=
  ⟨h.perm, fun l => (h.sorted l).imp fun {a b} => hle a b⟩

/-- **Filtering after the cut.**  The largest elements with a property are among the `n` largest
elements, in every order of equal ones, exactly when nothing is displaced. -/
theorem largest_filter_take_iff [DecidableEq α] (measure : α → ℕ) (n : ℕ) (p : α → Bool)
    (l : List α) :
    (∀ sort, SortsBy measure sort →
      Largest measure n (((sort l).take n).filter p) (l.filter p)) ↔ ¬ Displaced measure n p l := by
  constructor
  · rintro hall ⟨i, hi, hpi, c, hc, hpc, -, hbefore, hbehind⟩
    have hic : i ≠ c := by
      rintro rfl
      rw [hpi] at hpc
      cases hpc
    have hsort := sortsBy_insertionSort (tieBreak measure i c)
    set sort := fun l : List α => l.insertionSort fun a b =>
      tieBreak measure i c b ≤ tieBreak measure i c a
    have hsort' : SortsBy measure sort := hsort.mono fun a b h => by
      rw [tieBreak, tieBreak] at h
      split_ifs at h <;> omega
    have hcount : ∀ q : α → Bool, l.countP q =
        ((sort l).take n).countP q + ((sort l).drop n).countP q := by
      intro q
      rw [← List.countP_append, List.take_append_drop, (hsort.perm l).countP_eq]
    have hsplit : ∀ {a}, a ∈ l → a ∈ (sort l).take n ∨ a ∈ (sort l).drop n := by
      intro a ha
      rw [← List.mem_append, List.take_append_drop]
      exact (hsort.perm l).mem_iff.mpr ha
    have hi' : i ∈ (sort l).take n := by
      by_contra hnot
      have hdrop := (hsplit hi).resolve_left hnot
      have hlt : ((sort l).take n).countP (measure i < measure ·) = ((sort l).take n).length := by
        refine List.countP_eq_length.mpr fun a ha => decide_eq_true ?_
        have hle := hsort.le_of_take ha hdrop
        have hai : a ≠ i := fun h => hnot (h ▸ ha)
        rw [tieBreak, tieBreak, if_pos rfl, if_neg hai] at hle
        split_ifs at hle <;> omega
      have hlength := List.length_pos_of_mem hdrop
      have htotal := hcount (measure i < measure ·)
      rw [List.length_drop] at hlength
      rw [List.length_take] at hlt
      omega
    have hc' : c ∈ (sort l).drop n := by
      by_contra hnot
      have htake := (hsplit hc).resolve_right hnot
      have hnone : ((sort l).drop n).countP (measure c ≤ measure ·) = 0 := by
        refine List.countP_eq_zero.mpr fun b hb => ?_
        have hle := hsort.le_of_take htake hb
        have hbc : b ≠ c := fun h => hnot (h ▸ hb)
        rw [tieBreak, tieBreak, if_neg hic.symm, if_pos rfl, if_neg hbc] at hle
        have hlt : measure b < measure c := by split_ifs at hle <;> omega
        simpa using hlt
      have htotal := hcount (measure c ≤ measure ·)
      have hsome := (List.countP_le_length (p := (measure c ≤ measure ·))
        (l := (sort l).take n)).trans (List.length_take_le n _)
      omega
    -- an element is cut although there is a place for it
    obtain ⟨cut, hperm, -, -, hfull⟩ := hall sort hsort'
    have hlt : (((sort l).take n).filter p).length < n := by
      refine lt_of_lt_of_le ?_ (List.length_take_le n (sort l))
      rw [← List.countP_eq_length_filter]
      refine lt_of_le_of_ne List.countP_le_length fun heq => ?_
      have hself := List.countP_eq_length.mp heq i hi'
      rw [hpi] at hself
      cases hself
    have hcut : cut ≠ [] := by
      rintro rfl
      have hlength := hperm.length_eq
      have hpos : 0 < (((sort l).drop n).filter p).length :=
        List.length_pos_of_mem (List.mem_filter.mpr ⟨hc', hpc⟩)
      have htotal := hcount p
      rw [List.append_nil] at hlength
      rw [List.countP_eq_length_filter, List.countP_eq_length_filter,
        List.countP_eq_length_filter] at htotal
      omega
    exact hlt.ne (hfull hcut)
  · intro hnot sort hsort
    refine ⟨((sort l).drop n).filter p, ?_, ?_, ?_, ?_⟩
    · rw [← List.filter_append, List.take_append_drop]
      exact (hsort.perm l).filter p
    · intro a ha b hb
      exact hsort.le_of_take (List.mem_filter.mp ha).1 (List.mem_filter.mp hb).1
    · exact (List.length_filter_le p _).trans (List.length_take_le n _)
    · intro hcut
      obtain ⟨c, hc⟩ := List.exists_mem_of_ne_nil _ hcut
      obtain ⟨hc, hpc⟩ := List.mem_filter.mp hc
      have hn : n < (sort l).length := by
        have hlength := List.length_pos_of_mem hc
        rw [List.length_drop] at hlength
        omega
      -- an element among the first that is rejected would displace the one that is cut
      have hself : ((sort l).take n).filter p = (sort l).take n := by
        refine List.filter_eq_self.mpr fun i hi => ?_
        by_contra hpi
        refine hnot ⟨i, (hsort.perm l).mem_iff.mp (List.mem_of_mem_take hi),
          Bool.eq_false_iff.mpr hpi, c, (hsort.perm l).mem_iff.mp (List.mem_of_mem_drop hc), hpc,
          hsort.le_of_take hi hc, hsort.countP_lt_of_mem_take hi, hsort.lt_countP_of_mem_drop hc⟩
      rw [hself, List.length_take, Nat.min_eq_left hn.le]

/-! ## One of several lists -/

theorem exists_of_mem_flatten {R : κ → List α → Prop} {keys : List κ} {ls : List (List α)}
    (h : List.Forall₂ R keys ls) {a : α} (ha : a ∈ ls.flatten) :
    ∃ k ∈ keys, ∃ l, R k l ∧ a ∈ l := by
  obtain ⟨l, hl, ha⟩ := List.mem_flatten.mp ha
  obtain ⟨i, hi, rfl⟩ := List.getElem_of_mem hl
  have hi' : i < keys.length := h.length_eq ▸ hi
  exact ⟨keys[i], List.getElem_mem hi', ls[i], h.get hi' hi, ha⟩

/-- A filter that only one of several lists passes sees that list alone. -/
theorem filter_flatten_of_unique {p : α → Bool} {R : κ → List α → Prop} {keys : List κ}
    {ls : List (List α)} (h : List.Forall₂ R keys ls) (hnodup : keys.Nodup) {k : κ} (hk : k ∈ keys)
    (hother : ∀ k' l, R k' l → k' ≠ k → l.filter p = []) :
    ∃ l, R k l ∧ ls.flatten.filter p = l.filter p := by
  induction h with
  | nil => cases hk
  | @cons k' l' keys ls hR hrest ih =>
    obtain ⟨hk', hnodup⟩ := List.nodup_cons.mp hnodup
    rw [List.flatten_cons, List.filter_append]
    by_cases heq : k' = k
    · subst heq
      refine ⟨l', hR, ?_⟩
      have hnil : ls.flatten.filter p = [] := by
        have hall : ∀ l ∈ ls, l.filter p = [] := by
          intro l hl
          obtain ⟨i, hi, rfl⟩ := List.getElem_of_mem hl
          have hi' : i < keys.length := hrest.length_eq ▸ hi
          refine hother keys[i] _ (hrest.get hi' hi) fun h => hk' ?_
          exact h ▸ List.getElem_mem hi'
        rw [List.filter_flatten, List.flatten_eq_nil_iff]
        intro l hl
        obtain ⟨l₀, hl₀, rfl⟩ := List.mem_map.mp hl
        exact hall l₀ hl₀
      rw [hnil, List.append_nil]
    · rw [hother k' l' hR heq, List.nil_append]
      exact ih hnodup ((List.mem_cons.mp hk).resolve_left (Ne.symm heq))

end Selection
