/-
# Folding typecasts

`TypecastOp::canonicalize` replaces a typecast of a typecast by one typecast of the innermost
input, whatever the three element types are; `TypecastOp::fold` drops a typecast to the type of
its input.  The element types here are integers, and a conversion wraps around.

* `IntegerType.Holds`, `IntegerType.wrap` : the values of a type, and the conversion to it;
* `TypecastValue` : chains of typecasts, with `fold` and `canonicalize`;
* `eval_fold` : folding keeps every value;
* `keepsValues_iff` : when one cast gives what two casts give.

The type in between loses what the last type still tells apart, unless it is at least as wide as
the last type or holds all values of the first.
-/
import Mathlib.Data.Int.ModEq
import Mathlib.Tactic.Linarith

namespace TTIR

/-! ## Integer types -/

/-- The signedness of an integer type. -/
inductive Signedness : Type where
  | signless
  | signed
  | unsigned
  deriving DecidableEq, Repr

/-- `mlir::IntegerType`. -/
structure IntegerType : Type where
  width : ℕ
  signedness : Signedness
  deriving DecidableEq, Repr

namespace IntegerType

/-- Signless integers are read as signed ones. -/
def isUnsigned (t : IntegerType) : Bool := t.signedness = .unsigned

/-- The value is one of the type. -/
def Holds (t : IntegerType) (x : ℤ) : Prop :=
  if t.isUnsigned then 0 ≤ x ∧ x < 2 ^ t.width else -2 ^ t.width ≤ 2 * x ∧ 2 * x < 2 ^ t.width

/-- Conversion to the type: the residue of the value that the type holds. -/
def wrap (t : IntegerType) (x : ℤ) : ℤ :=
  if t.isUnsigned then x % 2 ^ t.width else Int.bmod x (2 ^ t.width)

/-- Every value of `t` is a value of `u`, read off the widths: a type of no bits has one value,
types of one signedness are compared by width, and a signed type needs one more bit. -/
def Within (t u : IntegerType) : Prop :=
  t.width = 0 ∨
    if t.isUnsigned = u.isUnsigned then t.width ≤ u.width
    else t.isUnsigned = true ∧ t.width < u.width

instance (t u : IntegerType) : Decidable (t.Within u) :=
  inferInstanceAs (Decidable (t.width = 0 ∨
    if t.isUnsigned = u.isUnsigned then t.width ≤ u.width
    else t.isUnsigned = true ∧ t.width < u.width))

end IntegerType

/-! ## Chains of typecasts -/

/-- A value of a graph of typecasts. -/
inductive TypecastValue : Type where
  | arg (id : ℕ) (type : IntegerType)
  | typecast (input : TypecastValue) (type : IntegerType)
  deriving DecidableEq, Repr

namespace TypecastValue

/-- The element type of a value. -/
def type : TypecastValue → IntegerType
  | arg _ t => t
  | typecast _ t => t

/-- `TypecastOp::fold`. -/
def fold : TypecastValue → Option TypecastValue
  | typecast input t => if t = input.type then some input else none
  | arg _ _ => none

/-- `TypecastOp::canonicalize`: fold two consecutive typecasts into one. -/
def canonicalize : TypecastValue → Option TypecastValue
  | typecast (typecast producerInput _) t => some (typecast producerInput t)
  | _ => none

/-- What a value is, element by element. -/
def eval (args : ℕ → ℤ) : TypecastValue → ℤ
  | arg id _ => args id
  | typecast input t => t.wrap (eval args input)

/-- The arguments hold values of their types. -/
def WellTyped (args : ℕ → ℤ) : TypecastValue → Prop
  | arg id t => t.Holds (args id)
  | typecast input _ => WellTyped args input

/-- **The canonicalized value is the value.**  It has the type of the value, and evaluates to
the same for all arguments. -/
def KeepsValues (v : TypecastValue) : Prop :=
  ∃ w, v.canonicalize = some w ∧ w.type = v.type ∧
    ∀ args, v.WellTyped args → w.eval args = v.eval args

end TypecastValue

/-! ## Conversion -/

namespace IntegerType

variable {t u : IntegerType} {x y : ℤ}

theorem wrap_modEq (t : IntegerType) (x : ℤ) : t.wrap x ≡ x [ZMOD 2 ^ t.width] := by
  unfold wrap
  split
  · exact Int.mod_modEq x _
  · have h : Int.bmod x (2 ^ t.width) % ((2 ^ t.width : ℕ) : ℤ) = x % ((2 ^ t.width : ℕ) : ℤ) :=
      Int.bmod_emod
    push_cast at h
    exact h

theorem wrap_congr (h : x ≡ y [ZMOD 2 ^ t.width]) : t.wrap x = t.wrap y := by
  unfold wrap
  split
  · exact h
  · rw [← Int.emod_bmod, ← Int.emod_bmod (x := y)]
    push_cast
    rw [h]

theorem wrap_of_holds (h : t.Holds x) : t.wrap x = x := by
  unfold Holds at h
  unfold wrap
  split at h
  · rename_i hu
    rw [if_pos hu]
    exact Int.emod_eq_of_lt h.1 h.2
  · rename_i hu
    rw [if_neg hu]
    exact Int.bmod_eq_of_le_mul_two (by push_cast; omega) (by push_cast; omega)

/-- A conversion ends in the type. -/
theorem holds_wrap (t : IntegerType) (x : ℤ) : t.Holds (t.wrap x) := by
  have hpos : (0 : ℤ) < 2 ^ t.width := by positivity
  unfold Holds wrap
  split
  · exact ⟨Int.emod_nonneg _ hpos.ne', Int.emod_lt_of_pos _ hpos⟩
  · have hcast : ((2 ^ t.width : ℕ) : ℤ) = 2 ^ t.width := by push_cast; rfl
    have hle := Int.le_bmod (x := x) (m := 2 ^ t.width) (by positivity)
    have hlt := Int.bmod_lt (x := x) (m := 2 ^ t.width) (by positivity)
    rw [hcast] at hle hlt
    generalize Int.bmod x (2 ^ t.width) = r at hle hlt ⊢
    -- a power of two is one or even
    rcases Nat.eq_zero_or_pos t.width with h0 | hw
    · rw [h0] at hle hlt ⊢
      omega
    · obtain ⟨k, hk⟩ : ∃ k, t.width = k + 1 := ⟨t.width - 1, by omega⟩
      rw [hk, pow_succ] at hle hlt ⊢
      omega

/-- The values of a narrow enough type are values of a wider one. -/
theorem Within.holds (h : t.Within u) (hx : t.Holds x) : u.Holds x := by
  have hmono : ∀ {m n : ℕ}, m ≤ n → (2 : ℤ) ^ m ≤ 2 ^ n := fun hmn =>
    pow_le_pow_right₀ (by norm_num) hmn
  have hpos : (0 : ℤ) < 2 ^ u.width := by positivity
  rcases h with h0 | h
  · -- a type of no bits holds zero only
    have hzero : x = 0 := by
      unfold Holds at hx
      rw [h0] at hx
      split at hx <;> omega
    subst hzero
    unfold Holds
    split <;> omega
  · split at h
    · rename_i hsame
      have hle := hmono h
      unfold Holds at hx ⊢
      rw [← hsame]
      split at hx
      · rename_i hu
        rw [if_pos hu]
        exact ⟨hx.1, hx.2.trans_le hle⟩
      · rename_i hu
        rw [if_neg hu]
        exact ⟨by omega, by omega⟩
    · rename_i hdiff
      obtain ⟨ht, hlt⟩ := h
      have hu : ¬ u.isUnsigned = true := fun hu => hdiff (ht.trans hu.symm)
      have hle := hmono (Nat.succ_le_of_lt hlt)
      rw [pow_succ] at hle
      unfold Holds at hx ⊢
      rw [if_pos ht] at hx
      rw [if_neg hu]
      exact ⟨by omega, by omega⟩

/-- **A type that is not within another has a value just outside of it**, which the conversion
moves by the whole range. -/
theorem exists_of_not_within (h : ¬ t.Within u) :
    ∃ x, t.Holds x ∧ (u.wrap x = x - 2 ^ u.width ∨ u.wrap x = x + 2 ^ u.width) := by
  unfold Within at h
  push Not at h
  obtain ⟨h0, h⟩ := h
  have hmono : ∀ {m n : ℕ}, m ≤ n → (2 : ℤ) ^ m ≤ 2 ^ n := fun hmn =>
    pow_le_pow_right₀ (by norm_num) hmn
  have hone : (1 : ℤ) ≤ 2 ^ u.width := one_le_pow₀ (by norm_num)
  have htwo : (2 : ℤ) ≤ 2 ^ t.width := by simpa using hmono (m := 1) (by omega)
  have hshift : ∀ x, u.Holds (x - 2 ^ u.width) → u.wrap x = x - 2 ^ u.width := by
    intro x hx
    rw [← wrap_of_holds hx]
    exact wrap_congr (by rw [Int.ModEq, Int.sub_emod_right])
  have hshift' : ∀ x, u.Holds (x + 2 ^ u.width) → u.wrap x = x + 2 ^ u.width := by
    intro x hx
    rw [← wrap_of_holds hx]
    exact wrap_congr (by rw [Int.ModEq, Int.add_emod_right])
  by_cases hu : u.isUnsigned = true
  · by_cases ht : t.isUnsigned = true
    · -- both are unsigned: the first value past the range
      rw [if_pos (ht.trans hu.symm), not_le] at h
      have hle := hmono (Nat.succ_le_of_lt h)
      rw [pow_succ] at hle
      refine ⟨2 ^ u.width, ?_, Or.inl (hshift _ ?_)⟩
      · unfold Holds
        rw [if_pos ht]
        exact ⟨by omega, by omega⟩
      · unfold Holds
        rw [if_pos hu]
        exact ⟨by omega, by omega⟩
    · -- a negative value
      refine ⟨-1, ?_, Or.inr (hshift' _ ?_)⟩
      · unfold Holds
        rw [if_neg ht]
        exact ⟨by omega, by omega⟩
      · unfold Holds
        rw [if_pos hu]
        exact ⟨by omega, by omega⟩
  · rcases Nat.eq_zero_or_pos u.width with hu0 | hupos
    · -- the other type holds zero only
      by_cases ht : t.isUnsigned = true
      · refine ⟨1, ?_, Or.inl (hshift _ ?_)⟩
        · unfold Holds
          rw [if_pos ht]
          exact ⟨by omega, by omega⟩
        · unfold Holds
          rw [if_neg hu, hu0]
          omega
      · refine ⟨-1, ?_, Or.inr (hshift' _ ?_)⟩
        · unfold Holds
          rw [if_neg ht]
          exact ⟨by omega, by omega⟩
        · unfold Holds
          rw [if_neg hu, hu0]
          omega
    · -- half of the range is the first value past it
      obtain ⟨k, hk⟩ : ∃ k, u.width = k + 1 := ⟨u.width - 1, by omega⟩
      have hhalf : (2 : ℤ) ^ u.width = 2 * 2 ^ k := by rw [hk, pow_succ, mul_comm]
      have hkpos : (0 : ℤ) < 2 ^ k := by positivity
      refine ⟨2 ^ k, ?_, Or.inl (hshift _ ?_)⟩
      · unfold Holds
        by_cases ht : t.isUnsigned = true
        · rw [if_neg fun heq => hu (heq.symm.trans ht)] at h
          have hle : u.width ≤ t.width := by
            by_contra hlt
            exact h ⟨ht, by omega⟩
          have := hmono hle
          rw [if_pos ht]
          exact ⟨by omega, by omega⟩
        · have hsame : t.isUnsigned = u.isUnsigned := by
            rw [Bool.eq_false_iff.mpr ht, Bool.eq_false_iff.mpr hu]
          rw [if_pos hsame, not_le] at h
          have hle := hmono (Nat.succ_le_of_lt h)
          rw [pow_succ] at hle
          rw [if_neg ht]
          exact ⟨by omega, by omega⟩
      · unfold Holds
        rw [if_neg hu]
        exact ⟨by omega, by omega⟩

/-- **When a conversion in between is of no account**: exactly if the type in between is at least
as wide as the last, or holds every value of the first. -/
theorem forall_wrap_wrap_iff (a b c : IntegerType) :
    (∀ x, a.Holds x → c.wrap (b.wrap x) = c.wrap x) ↔ c.width ≤ b.width ∨ a.Within b := by
  constructor
  · intro h
    by_contra hnot
    push Not at hnot
    obtain ⟨hwidth, hwithin⟩ := hnot
    obtain ⟨x, hx, hwrap⟩ := exists_of_not_within hwithin
    -- both values have the residue of the last type
    have hmod : b.wrap x ≡ x [ZMOD 2 ^ c.width] :=
      ((c.wrap_modEq (b.wrap x)).symm.trans (by rw [h x hx])).trans (c.wrap_modEq x)
    have hdvd : (2 : ℤ) ^ c.width ∣ 2 ^ b.width := by
      rcases hwrap with hwrap | hwrap
      · have := hmod.dvd
        rwa [hwrap, sub_sub_cancel] at this
      · have := hmod.symm.dvd
        rwa [hwrap, add_sub_cancel_left] at this
    have hlt : (2 : ℤ) ^ b.width < 2 ^ c.width := pow_lt_pow_right₀ (by norm_num) hwidth
    exact absurd (Int.le_of_dvd (by positivity) hdvd) (not_le.mpr hlt)
  · rintro (hwidth | hwithin) x hx
    · exact wrap_congr ((b.wrap_modEq x).of_dvd (pow_dvd_pow 2 hwidth))
    · rw [wrap_of_holds (hwithin.holds hx)]

end IntegerType

/-! ## The rewrites -/

namespace TypecastValue

theorem holds_eval {args : ℕ → ℤ} : ∀ {v : TypecastValue}, v.WellTyped args →
    v.type.Holds (v.eval args)
  | arg _ _, h => h
  | typecast _ t, _ => t.holds_wrap _

/-- **Folding keeps every value.** -/
theorem eval_fold {v w : TypecastValue} {args : ℕ → ℤ} (h : v.fold = some w)
    (hargs : v.WellTyped args) : w.type = v.type ∧ w.eval args = v.eval args := by
  cases v with
  | arg id t => cases h
  | typecast input t =>
    rw [fold] at h
    split at h
    · rename_i ht
      cases h
      refine ⟨ht.symm, ?_⟩
      rw [eval, ht]
      have hholds : w.type.Holds (w.eval args) := holds_eval (v := w) hargs
      exact (IntegerType.wrap_of_holds hholds).symm
    · cases h

/-- **When one cast gives what two casts give**, for every value of the first type. -/
theorem keepsValues_iff (id : ℕ) (a b c : IntegerType) :
    (typecast (typecast (arg id a) b) c).KeepsValues ↔ c.width ≤ b.width ∨ a.Within b := by
  rw [← IntegerType.forall_wrap_wrap_iff]
  constructor
  · rintro ⟨w, hw, -, heval⟩ x hx
    cases hw
    exact (heval (fun _ => x) hx).symm
  · intro h
    exact ⟨_, rfl, rfl, fun args hargs => (h (args id) hargs).symm⟩

/-- From 32 bits to eight and back: only the low eight bits are left. -/
theorem narrowed_not_keepsValues :
    ¬ (typecast (typecast (arg 0 ⟨32, .signed⟩) ⟨8, .signed⟩) ⟨32, .signed⟩).KeepsValues := by
  rintro ⟨w, hw, -, heval⟩
  cases hw
  have hargs : IntegerType.Holds ⟨32, .signed⟩ 128 := by
    unfold IntegerType.Holds
    decide
  exact absurd (heval (fun _ => 128) hargs) (by decide)

end TypecastValue

end TTIR
