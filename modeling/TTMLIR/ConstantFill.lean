/-
# Lowering constants

`ConstantOpConversionPattern` of `TTIRToTTNN.cpp`: a constant whose elements are all the same becomes
a `ttnn.full`, filled with a 32-bit floating-point number, and another one a `ttnn.constant`.

* `ConstantOp.matchAndRewrite` : the translated pattern;
* `Library` : the conversion of the fill value, which keeps the numbers of the data type;
* `ConstantOp.Kept` : the tensor has the elements of the attribute;
* `ConstantOp.kept_iff_exactFill` : when it has.

An integer is rounded toward zero, to 24 binary digits; without a signedness it is read as signed.
-/
import TTMLIR.ElementTypes
import TTMLIR.NearestEven

namespace TTIR

/-! ## The translated code -/

/-- An integer rounded toward zero, to a number of some binary digits. -/
def towardZero (digits : ℕ) (z : ℤ) : ℤ :=
  let ulp := Rounding.ulp digits z.natAbs
  z.sign * (z.natAbs / ulp * ulp : ℕ)

/-- `ttnn.full` and `ttnn.constant`. -/
inductive ConstantOp.Emitted : Type where
  | full (shape : List ℕ) (fillValue : Number)
  | constant (value : ElementsAttr)

namespace ConstantOp

/-- The fill value; `convertToFloat` asserts that no number is wider. -/
def fillValue : ElementType → Element → Except String Number
  | .integer t, .bits n =>
    let isSigned := t.signedness = .signed ∨ t.signedness = .signless
    .ok (.finite (towardZero 24 (if isSigned then Int.bmod n (2 ^ t.width) else n)))
  | .float .f64, _ => .error "Float semantics is not representable by IEEEsingle"
  | .float .other, _ => .error "Float semantics is not representable by IEEEsingle"
  | .float _, .number x => .ok x
  | _, _ => .error "element of another type"

/-- `matchAndRewrite`; every element type here is one of integers or floating-point numbers.  The
elements of a resource cannot be iterated. -/
def matchAndRewrite (value : ElementsAttr) : Except String Emitted :=
  if value.isSplat then
    match value.getSplatValue with
    | some e => do return .full value.shape (← fillValue value.elementType e)
    | none => .error "invalid T for ElementsAttr::getValues"
  else .ok (.constant value)

/-! ## What the operations describe -/

/-- The library: it converts fill values to numbers of the data type, and keeps those. -/
structure Library : Type where
  convert : ElementType → Number → Number
  represents : ∀ d x, (ElementType.dataTypeToElementType d).Represents
    (convert (ElementType.dataTypeToElementType d) x)
  kept : ∀ d x, (ElementType.dataTypeToElementType d).Represents x →
    convert (ElementType.dataTypeToElementType d) x = x

/-- The numbers of the tensor that an operation describes. -/
def Emitted.describe (library : Library) (resultType : ElementType) : Emitted → List Number
  | full shape fillValue => List.replicate shape.prod (library.convert resultType fillValue)
  | constant value => value.values

/-- **The elements are kept**, whatever the library does with other fill values. -/
def Kept (value : ElementsAttr) (resultType : ElementType) : Prop :=
  ∃ op, matchAndRewrite value = .ok op ∧
    ∀ library, op.describe library resultType = value.values

/-- **The fill value is exact.**  A number of 64 digits is none.  An integer has zeros after its
first 24 binary digits and is a number of the result, and one that is read as signed has no sign
then. -/
def ExactFill (resultType : ElementType) : ElementType → Element → Prop
  | .integer t, .bits n =>
    (t.signedness = .signless → t.width ∈ [1, 8, 16] → n < 2 ^ (t.width - 1)) ∧
      Rounding.ulp 24 (t.value n).natAbs ∣ (t.value n).natAbs ∧
      resultType.Represents (.finite (t.value n))
  | t, _ => t ≠ .float .f64

/-! ## Fill values -/

theorem towardZero_eq_iff (digits : ℕ) (z : ℤ) :
    towardZero digits z = z ↔ Rounding.ulp digits z.natAbs ∣ z.natAbs := by
  rw [towardZero]
  by_cases hz : z = 0
  · rw [hz, Int.sign_zero, zero_mul]
    exact iff_of_true rfl (dvd_zero _)
  conv_lhs => rhs; rw [← Int.sign_mul_natAbs z]
  rw [mul_right_inj' (Int.sign_eq_zero_iff_zero.not.mpr hz), Nat.cast_inj]
  exact ⟨Dvd.intro_left _, Nat.div_mul_cancel⟩

theorem towardZero_nonpos (digits : ℕ) {z : ℤ} (hz : z < 0) : towardZero digits z ≤ 0 := by
  rw [towardZero, Int.sign_eq_neg_one_of_neg hz]
  omega

theorem bmod_bits {n k : ℕ} (hn : n < 2 ^ (k + 1)) :
    Int.bmod n (2 ^ (k + 1)) = if n < 2 ^ k then (n : ℤ) else n - (2 ^ (k + 1) : ℕ) := by
  have hpow : 2 ^ (k + 1) = 2 * 2 ^ k := by rw [pow_succ, mul_comm]
  have hmod : (n : ℤ) % (2 ^ (k + 1) : ℕ) = n := Int.emod_eq_of_lt (by omega) (by omega)
  rw [Int.bmod_def, hmod]
  split <;> split <;> omega

/-- The integer of a fill value is that of the bits, when these are read right and short enough. -/
theorem fillValue_eq_iff {t : IntegerType} {n : ℕ} (hn : n < 2 ^ t.width) (hwidth : 0 < t.width) :
    fillValue (.integer t) (.bits n) = .ok (.finite (t.value n)) ↔
      (t.signedness = .signless → t.width ∈ [1, 8, 16] → n < 2 ^ (t.width - 1)) ∧
        Rounding.ulp 24 (t.value n).natAbs ∣ (t.value n).natAbs := by
  obtain ⟨w, signedness⟩ := t
  obtain ⟨k, rfl⟩ : ∃ k, w = k + 1 := ⟨w - 1, by simp only at hwidth; omega⟩
  rw [← towardZero_eq_iff, fillValue, Except.ok.injEq, Number.finite.injEq, Int.cast_inj]
  simp only at hn
  cases signedness with
  | signed => simp [IntegerType.value, IntegerType.hasSign]
  | unsigned => simp [IntegerType.value, IntegerType.hasSign]
  | signless =>
    by_cases hmem : k + 1 ∈ [1, 8, 16]
    · -- the bits are those of a number without a sign, and they are read with one
      have hsign : IntegerType.value ⟨k + 1, .signless⟩ n = n := by
        simp [IntegerType.value, IntegerType.hasSign, hmem]
      rw [hsign, if_pos (by simp), bmod_bits hn]
      simp only [hmem, true_implies, Nat.add_sub_cancel]
      split
      · rename_i hlt
        exact ⟨fun h => ⟨hlt, h⟩, fun h => h.2⟩
      · rename_i hge
        have hpos : 0 < 2 ^ k := Nat.two_pow_pos k
        have hneg := towardZero_nonpos 24 (z := n - (2 ^ (k + 1) : ℕ)) (by omega)
        exact ⟨fun h => absurd (h ▸ hneg) (by omega), fun h => absurd h.1 hge⟩
    · simp [IntegerType.value, IntegerType.hasSign, hmem]

/-! ## Libraries -/

/-- Zero and one are numbers of every data type. -/
theorem represents_of_le_one (d : TTNN.DataType) {z : ℤ} (hzero : 0 ≤ z) (hone : z ≤ 1) :
    (ElementType.dataTypeToElementType d).Represents (.finite z) := by
  have hfloat : ∀ {t : FloatType} {digits : ℕ} {low high : ℤ},
      t.format = some (digits, low, high) → 0 < digits → low ≤ 0 → 0 ≤ high →
        t.Represents (.finite z) := by
    intro t digits low high hformat hdigits hlow hhigh
    refine ⟨digits, low, high, hformat, z, 0, by simp, ?_, hlow, hhigh⟩
    have hpow : (1 : ℤ) < 2 ^ digits := one_lt_pow₀ one_lt_two hdigits.ne'
    rw [abs_of_nonneg hzero]
    omega
  have hinteger : ∀ {t : IntegerType}, 8 ≤ t.width →
      (ElementType.integer t).Represents (.finite z) := by
    intro t ht
    refine ⟨z, rfl, ?_⟩
    have hpow : (2 : ℤ) ^ 8 ≤ 2 ^ t.width := pow_le_pow_right₀ one_le_two ht
    rw [IntegerType.Holds]
    split <;> constructor <;> omega
  cases d
  all_goals first
    | exact hinteger (by decide)
    | exact hfloat rfl (by decide) (by decide) (by decide)

open Classical in
/-- A library that does not convert to a number what is not one of the data type. -/
noncomputable def Library.avoiding (x : Number) : Library where
  convert t y := if t.Represents y then y else if x = .finite 0 then .finite 1 else .finite 0
  represents d y := by
    split
    · assumption
    · split
      · exact_mod_cast represents_of_le_one d (z := 1) (by decide) le_rfl
      · exact_mod_cast represents_of_le_one d (z := 0) le_rfl (by decide)
  kept d y h := if_pos h

/-- A fill value is converted to a number, by every library, when it is that number and one of the
result. -/
theorem forall_convert_eq_iff {t r : ElementType} (hr : t.toTTMLIRSupportedDataType = some r)
    (fill x : Number) :
    (∀ library : Library, library.convert r fill = x) ↔ fill = x ∧ r.Represents x := by
  obtain ⟨d, -, rfl⟩ := Option.map_eq_some_iff.mp hr
  constructor
  · intro h
    have hx := h (.avoiding x)
    rw [← h (.avoiding x)]
    refine ⟨?_, Library.represents _ d fill⟩
    rw [h (.avoiding x)]
    simp only [Library.avoiding] at hx
    split at hx
    · exact hx
    · split at hx
      · rename_i hzero
        rw [hzero] at hx
        exact absurd hx (by simp)
      · rename_i hne
        exact absurd hx.symm hne
  · rintro ⟨rfl, hrep⟩ library
    exact library.kept d fill hrep

/-! ## Constants -/

theorem width_pos {t : IntegerType} {r : ElementType}
    (hr : (ElementType.integer t).toTTMLIRSupportedDataType = some r) : 0 < t.width := by
  by_contra hzero
  obtain hw : t.width = 0 := by omega
  simp [ElementType.toTTMLIRSupportedDataType, ElementType.elementTypeToDataTypeImpl, hw] at hr

/-- A fill value that is converted to the number of its element. -/
theorem fill_iff_exactFill {t r : ElementType} (hr : t.toTTMLIRSupportedDataType = some r)
    {e : Element} (he : t.Contains e) :
    (∃ fill, fillValue t e = .ok fill ∧ ∀ library : Library, library.convert r fill = t.value e) ↔
      ExactFill r t e := by
  have hfill : (∃ fill, fillValue t e = .ok fill ∧
      ∀ library : Library, library.convert r fill = t.value e) ↔
        fillValue t e = .ok (t.value e) ∧ r.Represents (t.value e) := by
    simp only [forall_convert_eq_iff hr]
    exact ⟨fun ⟨_, hok, heq, hrep⟩ => ⟨heq ▸ hok, hrep⟩, fun ⟨hok, hrep⟩ => ⟨_, hok, rfl, hrep⟩⟩
  rw [hfill]
  cases t with
  | integer t =>
    cases e with
    | bits n =>
      rw [ExactFill, ← and_assoc, ← fillValue_eq_iff he (width_pos hr)]
      rfl
    | number x => exact absurd he id
  | float t =>
    cases e with
    | bits n => exact absurd he id
    | number x =>
      cases t with
      | f64 => exact iff_of_false (fun h => nomatch h.1) (fun h => h rfl)
      | other => exact nomatch hr
      | bf16 | f16 | f32 =>
        obtain rfl := Option.some.inj hr
        exact iff_of_true ⟨rfl, he⟩ (by simp [ExactFill])

/-- A splat is kept when its fill value is exact. -/
theorem kept_iff_of_splat {value : ElementsAttr} {resultType : ElementType}
    (hr : value.elementType.toTTMLIRSupportedDataType = some resultType) {e : Element}
    (hsplat : value.getSplatValue = some e) :
    Kept value resultType ↔ ExactFill resultType value.elementType e := by
  obtain ⟨hmem, hall⟩ := value.elements_of_splat hsplat
  have hpos : 0 < value.shape.prod := value.length_eq ▸ List.length_pos_of_mem hmem
  have hvalues : value.values = List.replicate value.shape.prod (value.elementType.value e) := by
    rw [ElementsAttr.values, hall, List.map_replicate, value.length_eq]
  have hdescribe : ∀ (library : Library) (fill : Number),
      (Emitted.full value.shape fill).describe library resultType = value.values ↔
        library.convert resultType fill = value.elementType.value e := by
    intro library fill
    rw [Emitted.describe, hvalues, List.replicate_right_inj hpos.ne']
  rw [Kept, matchAndRewrite, if_pos (value.isSplat_of_splat hsplat), hsplat,
    ← fill_iff_exactFill hr (value.contains e hmem)]
  constructor
  · rintro ⟨op, hop, hall⟩
    obtain ⟨fill, hfill, hop⟩ := Fallible.bind_eq_ok.mp hop
    obtain rfl := Except.ok.inj hop
    exact ⟨fill, hfill, fun library => (hdescribe library fill).mp (hall library)⟩
  · rintro ⟨fill, hfill, hall⟩
    refine ⟨_, Fallible.bind_eq_ok.mpr ⟨fill, hfill, rfl⟩, fun library => ?_⟩
    exact (hdescribe library fill).mpr (hall library)

/-- **When a constant is kept**: when it is no resource of one element, and its elements are not all
the same or their fill value is exact. -/
theorem kept_iff_exactFill {value : ElementsAttr} {resultType : ElementType}
    (hr : value.elementType.toTTMLIRSupportedDataType = some resultType) :
    Kept value resultType ↔ ¬(value.isResource ∧ value.elements.length = 1) ∧
      ∀ e, value.getSplatValue = some e → ExactFill resultType value.elementType e := by
  cases hsplat : value.getSplatValue with
  | none =>
    have hvacuous : ∀ e, none = some e → ExactFill resultType value.elementType e := by
      rintro e ⟨⟩
    rw [and_iff_left hvacuous, Kept, matchAndRewrite, hsplat]
    have hiff : value.isSplat ↔ value.isResource ∧ value.elements.length = 1 := by
      simp [ElementsAttr.isSplat, hsplat]
    by_cases hone : value.isResource ∧ value.elements.length = 1
    · rw [if_pos (hiff.mpr hone)]
      refine iff_of_false ?_ (not_not.mpr hone)
      rintro ⟨op, hop, -⟩
      cases hop
    · rw [if_neg (hiff.not.mpr hone)]
      exact iff_of_true ⟨_, rfl, fun _ => rfl⟩ hone
  | some e =>
    have hdense : ¬(value.isResource ∧ value.elements.length = 1) := by
      simp [value.isResource_of_splat hsplat]
    rw [kept_iff_of_splat hr hsplat, and_iff_right hdense]
    exact ⟨fun h _ he => Option.some.inj he ▸ h, fun h => h e rfl⟩

/-- Two integers that are the same. -/
def pair (t : IntegerType) (n : ℕ) (hn : n < 2 ^ t.width) : ElementsAttr where
  elementType := .integer t
  shape := [2]
  elements := [.bits n, .bits n]
  isResource := false
  length_eq := rfl
  contains := List.forall_mem_cons.mpr ⟨hn, List.forall_mem_singleton.mpr hn⟩

theorem pair_kept : Kept (pair ⟨32, .signless⟩ 42 (by decide)) (.integer ⟨32, .signed⟩) := by
  refine (kept_iff_exactFill rfl).mpr ⟨by decide, ?_⟩
  rintro _ ⟨⟩
  refine ⟨fun _ h => absurd h (by decide), by decide, 42, rfl, ?_⟩
  unfold IntegerType.Holds
  decide

/-- **The first integer that is rounded.** -/
theorem pair_not_kept :
    ¬Kept (pair ⟨32, .signless⟩ 16777217 (by decide)) (.integer ⟨32, .signed⟩) := by
  rw [kept_iff_of_splat rfl rfl]
  exact fun h => absurd h.2.1 (by decide)

end ConstantOp

end TTIR
