/-
# Runs of a sequence

A sequence that is meant to follow a successor function, cut where it does not.

* `IsBreak` : the indices at which a run starts anew;
* `iterate_of_unbroken` : along a run, the sequence is iterated;
* `counted` : the indices before a given one that are no breaks, and what it is at the first
  two breaks;
* `Whole` : groups of equal length that no break cuts; `whole_iff_of_dvd` and `whole_iff_iterate`.
-/
import Mathlib.Data.Nat.Count

namespace Runs

variable {α : Type} (next : α → α) (a : ℕ → α)

/-- The sequence does not go on at `i` from where it was. -/
def IsBreak (i : ℕ) : Prop := 0 < i ∧ a i ≠ next (a (i - 1))

variable {next a}

theorem isBreak_succ_iff {i : ℕ} : IsBreak next a (i + 1) ↔ a (i + 1) ≠ next (a i) := by
  simp [IsBreak]

/-- Between breaks, a run iterates the successor. -/
theorem iterate_of_unbroken {i k : ℕ} (h : ∀ j, i < j → j ≤ i + k → ¬ IsBreak next a j) :
    a (i + k) = next^[k] (a i) := by
  induction k with
  | zero => rfl
  | succ k ih =>
    have hlast := h (i + k + 1) (by omega) (by omega)
    rw [isBreak_succ_iff, not_not] at hlast
    rw [Function.iterate_succ_apply', ← ih fun j hij hjk => h j hij (by omega)]
    exact hlast

/-- The indices before `n` fall into groups of `f`, and no break cuts a group. -/
def Whole (next : α → α) (a : ℕ → α) (f n : ℕ) : Prop :=
  ∀ i < n, IsBreak next a i → f ∣ i

/-- **Whole groups are copied as runs.**  No break cuts a group exactly when each element is
reached from the first of its group. -/
theorem whole_iff_iterate {f n : ℕ} (hdvd : f ∣ n) :
    Whole next a f n ↔ ∀ i < n, a i = next^[i % f] (a (i / f * f)) := by
  constructor
  · intro h i hi
    have hsplit : i / f * f + i % f = i := Nat.div_add_mod' i f
    rw [← iterate_of_unbroken (i := i / f * f) (k := i % f), hsplit]
    intro j hij hji hb
    rw [hsplit] at hji
    obtain ⟨m, rfl⟩ := h j (hji.trans_lt hi) hb
    -- a multiple of the length within a group is its start
    have hf : 0 < f := Nat.pos_of_ne_zero fun h0 => by simp [h0] at hij
    have hle : m ≤ i / f := (Nat.le_div_iff_mul_le hf).mpr (by rwa [Nat.mul_comm] at hji)
    rw [Nat.mul_comm f m] at hij
    exact absurd hij (Nat.not_lt.mpr (Nat.mul_le_mul_right f hle))
  · intro h i hi hb
    by_contra hnot
    obtain ⟨j, rfl⟩ : ∃ j, i = j + 1 := ⟨i - 1, by have := hb.1; omega⟩
    rw [isBreak_succ_iff] at hb
    -- the predecessor is in the same group
    have hf : 0 < f := Nat.pos_of_ne_zero fun h0 => by
      subst h0
      obtain rfl := Nat.eq_zero_of_zero_dvd hdvd
      exact Nat.not_lt_zero _ hi
    have hdiv : (j + 1) / f = j / f := Nat.succ_div_of_not_dvd hnot
    have hmod : (j + 1) % f = j % f + 1 := by
      have h1 := Nat.div_add_mod' (j + 1) f
      have h2 := Nat.div_add_mod' j f
      rw [hdiv] at h1
      omega
    refine hb ?_
    rw [h (j + 1) hi, h j (by omega), hdiv, hmod]
    exact Function.iterate_succ_apply' next _ _

variable (next a) [DecidableEq α]

instance decidableIsBreak : DecidablePred (IsBreak next a) := fun i =>
  inferInstanceAs (Decidable (0 < i ∧ a i ≠ next (a (i - 1))))

/-- How many indices before `n` are no breaks. -/
def counted (n : ℕ) : ℕ := Nat.count (fun i => ¬ IsBreak next a i) n

variable {next a}

theorem counted_succ (n : ℕ) :
    counted next a (n + 1) = counted next a n + if IsBreak next a n then 0 else 1 := by
  rw [counted, Nat.count_succ]
  by_cases h : IsBreak next a n
  · simp [h, counted]
  · simp [h, counted]

theorem counted_of_unbroken {n : ℕ} (h : ∀ i < n, ¬ IsBreak next a i) : counted next a n = n :=
  Nat.count_iff_forall.mpr h

/-- One break is one element that is not counted. -/
theorem counted_of_broken_once {p n : ℕ} (hp : IsBreak next a p) (hpn : p < n)
    (h : ∀ i < n, IsBreak next a i → i = p) : counted next a n + 1 = n := by
  induction n with
  | zero => exact absurd hpn (Nat.not_lt_zero p)
  | succ n ih =>
    rw [counted_succ]
    by_cases hn : n = p
    · subst hn
      rw [if_pos hp, counted_of_unbroken fun i hi hb => hi.ne (h i (by omega) hb)]
    · rw [if_neg fun hb => hn (h n (by omega) hb)]
      have := ih (by omega) fun i hi => h i (by omega)
      omega

/-- **Counters that are multiples of the group length.**  When the group length divides what is
counted at every break, the groups are whole exactly if there is at most one break or the
groups are single elements. -/
theorem whole_iff_of_dvd {f n : ℕ} (h : ∀ i < n, IsBreak next a i → f ∣ counted next a i) :
    Whole next a f n ↔ (∀ i < n, ∀ j < n, IsBreak next a i → IsBreak next a j → i = j) ∨ f = 1 := by
  constructor
  · intro hwhole
    by_contra hnot
    rw [not_or] at hnot
    obtain ⟨hmany, hf⟩ := hnot
    push Not at hmany
    obtain ⟨i₀, hi₀, j₀, hj₀, hbi, hbj, hne⟩ := hmany
    -- the first break
    have hex : ∃ i, i < n ∧ IsBreak next a i := ⟨i₀, hi₀, hbi⟩
    classical
    obtain ⟨hp, hbp⟩ := Nat.find_spec hex
    have hfirst : ∀ i < Nat.find hex, ¬ IsBreak next a i := fun i hi hb =>
      Nat.find_min hex hi ⟨hi.trans hp, hb⟩
    generalize Nat.find hex = p at hp hbp hfirst
    -- the second break
    have hex' : ∃ i, p < i ∧ i < n ∧ IsBreak next a i := by
      by_cases hip : i₀ = p
      · refine ⟨j₀, ?_, hj₀, hbj⟩
        by_contra hle
        rcases (Nat.not_lt.mp hle).lt_or_eq with hlt | heq
        · exact hfirst j₀ hlt hbj
        · exact hne (hip.trans heq.symm)
      · refine ⟨i₀, ?_, hi₀, hbi⟩
        by_contra hle
        exact hfirst i₀ (lt_of_le_of_ne (Nat.not_lt.mp hle) hip) hbi
    obtain ⟨hpq, hq, hbq⟩ := Nat.find_spec hex'
    have hsecond : ∀ i < Nat.find hex', IsBreak next a i → i = p := by
      intro i hi hb
      rcases lt_trichotomy i p with hlt | heq | hgt
      · exact absurd hb (hfirst i hlt)
      · exact heq
      · exact absurd ⟨hgt, hi.trans hq, hb⟩ (Nat.find_min hex' hi)
    generalize Nat.find hex' = q at hpq hq hbq hsecond
    -- at the second break, the counter is one less than the index
    have hcount := counted_of_broken_once hbp hpq hsecond
    have hdvd : f ∣ q := hwhole q hq hbq
    have hdvd' : f ∣ counted next a q := h q hq hbq
    rw [← hcount] at hdvd
    exact hf (Nat.dvd_one.mp ((Nat.dvd_add_right hdvd').mp hdvd))
  · rintro (hone | rfl) i hi hb
    · have hcount : counted next a i = i := counted_of_unbroken fun j hj hbj =>
        hj.ne (hone j (hj.trans hi) i hi hbj hb)
      rw [← hcount]
      exact h i hi hb
    · exact Nat.one_dvd i

end Runs
