/-
# Widening the storage of quantized tensors

`TTIRQuantDataTypeConversionPass` of `Quantization.cpp` gives every quantized type of a function the
target integer type: the greedy driver visits the operations in any order, and
`UniformTypeRewriter` sets the types of the operands and results of each, and the signature.

* `convertQuantizedType` : the translated conversion of a type with signed storage;
* `visit`, `FuncOp.runPass` : one visit, and a run of the driver;
* `Op.eval`, `run` : what operations on quantized tensors compute;
* `runPass_failed`, `runPass_scale` : which functions are rejected, and what no visit changes;
* `runPass_spec` : the values stay what they are exactly where no operation saturates at a bound
  that moves.

The converted type has the whole range of the target; scales and zero points stay.
-/
import TTMLIR.NearestEven
import TTMLIR.MixedRadix

namespace QuantStorage

open MixedRadix

/-! ## Types -/

/-- The widths of `getIntegerTypeFromBitWidth` that the storage of a quantized type can have. -/
inductive TargetWidth : Type where
  | i8 | i16 | i32
  deriving DecidableEq

/-- The number of bits. -/
def TargetWidth.bits : TargetWidth → ℕ
  | .i8 => 8
  | .i16 => 16
  | .i32 => 32

/-- `QuantizedType` with signed storage: per tensor with one scale and zero point, or per axis. -/
structure QuantizedType : Type where
  width : ℕ
  scales : List ℚ
  zeroPoints : List ℤ
  quantizedDimension : Option ℕ
  storageMin : ℤ
  storageMax : ℤ
  width_le : width ≤ 32
  min_le : -2 ^ (width - 1) ≤ storageMin
  le_max : storageMax ≤ 2 ^ (width - 1) - 1
  min_lt_max : storageMin < storageMax
  scales_ne_zero : ∀ s ∈ scales, s ≠ 0

/-- `RankedTensorType`; the element type is given where it is quantized. -/
structure TensorType : Type where
  shape : List ℕ
  element : Option QuantizedType

/-- `getStorageTypeMinMax`, the minimum. -/
def TargetWidth.min (target : TargetWidth) : ℤ := -2 ^ (target.bits - 1)

/-- `getStorageTypeMinMax`, the maximum. -/
def TargetWidth.max (target : TargetWidth) : ℤ := 2 ^ (target.bits - 1) - 1

theorem TargetWidth.bits_le (target : TargetWidth) : target.bits ≤ 32 := by
  cases target <;> decide

theorem TargetWidth.min_lt_max (target : TargetWidth) : target.min < target.max := by
  cases target <;> decide

/-- The type with the storage of the target. -/
def QuantizedType.withStorage (t : QuantizedType) (target : TargetWidth) : QuantizedType where
  width := target.bits
  scales := t.scales
  zeroPoints := t.zeroPoints
  quantizedDimension := t.quantizedDimension
  storageMin := target.min
  storageMax := target.max
  width_le := target.bits_le
  min_le := le_rfl
  le_max := le_rfl
  min_lt_max := target.min_lt_max
  scales_ne_zero := t.scales_ne_zero

/-- `convertQuantizedType`: "Use the target integer type's min and max values." -/
def convertQuantizedType (target : TargetWidth) (t : QuantizedType) : Option QuantizedType :=
  if target.bits < t.width then none else some (t.withStorage target)

/-- The conversion of `QuantDataTypeConverter`; where it fails, the type stays. -/
def convertType (target : TargetWidth) (t : TensorType) : TensorType :=
  match t.element.bind (convertQuantizedType target) with
  | some element => { t with element := some element }
  | none => t

/-- The conversion of the type fails. -/
def TooWide (target : TargetWidth) (t : TensorType) : Prop :=
  ∃ element, t.element = some element ∧ target.bits < element.width

instance (target : TargetWidth) (t : TensorType) : Decidable (TooWide target t) :=
  match h : t.element with
  | none => .isFalse (by simp [TooWide, h])
  | some element => decidable_of_iff (target.bits < element.width) (by simp [TooWide, h])

namespace TensorType

variable (t : TensorType)

/-- The channel of an element, by its row-major position. -/
def channel (element : QuantizedType) (k : ℕ) : ℕ :=
  match element.quantizedDimension with
  | none => 0
  | some dim => (unravel t.shape k).getD dim 0

/-- The scale of an element. -/
def scale (k : ℕ) : ℚ :=
  match t.element with
  | none => 1
  | some element => element.scales.getD (t.channel element k) 1

/-- The zero point of an element. -/
def zeroPoint (k : ℕ) : ℤ :=
  match t.element with
  | none => 0
  | some element => element.zeroPoints.getD (t.channel element k) 0

/-- Saturation at the bounds of the storage. -/
def saturate (z : ℚ) : ℚ :=
  match t.element with
  | none => z
  | some element => max element.storageMin (min z element.storageMax)

/-- The numbers that stored integers stand for; other elements stand for themselves. -/
def dequantized (values : List ℚ) : List ℚ :=
  values.mapIdx fun k v => (v - t.zeroPoint k) * t.scale k

end TensorType

/-! ## Functions -/

/-- Operations, by the numbers of their operands.  Any other operation computes on elements,
stored or not, and does not look at the range of the storage; it is not one that the driver folds
to an operand. -/
inductive Op : Type where
  | quantize (input : ℕ)
  | dequantize (input : ℕ)
  | requantize (input : ℕ)
  | other (inputs : List ℕ) (compute : List (List ℚ) → List ℚ)

/-- The operands. -/
def Op.operands : Op → List ℕ
  | .quantize input | .dequantize input | .requantize input => [input]
  | .other inputs _ => inputs

/-- A function: its arguments and the results of its operations are numbered in this order. -/
structure FuncOp : Type where
  numArgs : ℕ
  ops : List Op
  types : ℕ → TensorType

section Semantics

variable (round : ℚ → ℤ) (types : ℕ → TensorType)

/-- What an operation computes before it saturates; its result has the next number. -/
def Op.exact (env : List (List ℚ)) : Op → List ℚ
  | .quantize input => (env.getD input []).mapIdx fun k v =>
    round (v / (types env.length).scale k) + (types env.length).zeroPoint k
  | .dequantize input => (env.getD input []).mapIdx fun k v =>
    (v - (types input).zeroPoint k) * (types input).scale k
  | .requantize input => (env.getD input []).mapIdx fun k v =>
    round ((v - (types input).zeroPoint k) * ((types input).scale k / (types env.length).scale k))
      + (types env.length).zeroPoint k
  | .other inputs compute => compute (inputs.map fun input => env.getD input [])

/-- The operations that saturate. -/
def Op.Saturates : Op → Prop
  | .quantize _ | .requantize _ => True
  | _ => False

instance (op : Op) : Decidable op.Saturates :=
  match op with
  | .quantize _ | .requantize _ => .isTrue trivial
  | .dequantize _ | .other _ _ => .isFalse id

/-- What an operation computes. -/
def Op.eval (env : List (List ℚ)) (op : Op) : List ℚ :=
  if op.Saturates then (op.exact round types env).map (types env.length).saturate
  else op.exact round types env

/-- The values of the function: those there are, and those its operations add. -/
def run : List Op → List (List ℚ) → List (List ℚ)
  | [], env => env
  | op :: ops, env => run ops (env ++ [op.eval round types env])

end Semantics

/-! ## The pass -/

/-- The types, and `conversionFailed`. -/
structure State : Type where
  types : ℕ → TensorType
  failed : Bool

namespace FuncOp

variable (f : FuncOp) (target : TargetWidth)

/-- The values whose types a visit sets: the arguments at the function itself, the operands and
results at an operation. -/
def touched : ℕ → List ℕ
  | 0 => List.range f.numArgs
  | i + 1 => ((f.ops[i]?).map fun op => op.operands ++ [f.numArgs + i]).getD []

/-- `UniformTypeRewriter::matchAndRewrite`. -/
def visit (s : State) (i : ℕ) : State where
  types v := if v ∈ f.touched i then convertType target (s.types v) else s.types v
  failed := s.failed || (f.touched i).any fun v => TooWide target (s.types v)

/-- A run of the driver, over the operations in the order of its visits. -/
def runPass (order : List ℕ) : State := order.foldl (f.visit target) ⟨f.types, false⟩

/-- Every operation is visited; the driver starts with all of them. -/
def Complete (order : List ℕ) : Prop := ∀ i ≤ f.ops.length, i ∈ order

/-- The values of the function and of the converted one stand for the same numbers. -/
def SameValues (round : ℚ → ℤ) (types' : ℕ → TensorType) (args : List (List ℚ)) : Prop :=
  ∀ v, (f.types v).dequantized ((run round f.types f.ops args).getD v [])
    = (types' v).dequantized ((run round types' f.ops args).getD v [])

end FuncOp

/-- No value that is to be stored is past a bound of its type, unless the bound does not move. -/
def Unsaturated (round : ℚ → ℤ) (types : ℕ → TensorType) (target : TargetWidth) :
    List Op → List (List ℚ) → Prop
  | [], _ => True
  | op :: ops, env =>
    (op.Saturates → ∀ element, (types env.length).element = some element →
      ∀ z ∈ op.exact round types env,
        ((element.storageMin : ℚ) ≤ z ∨ element.storageMin = target.min) ∧
          (z ≤ element.storageMax ∨ element.storageMax = target.max)) ∧
    Unsaturated round types target ops (env ++ [op.eval round types env])

/-! ## Converted types -/

section Types

variable {target : TargetWidth} {t : TensorType}

theorem convertType_of_tooWide (h : TooWide target t) : convertType target t = t := by
  obtain ⟨element, helement, hwidth⟩ := h
  simp only [convertType, helement, Option.bind_some, convertQuantizedType, if_pos hwidth]

theorem convertType_of_some {element : QuantizedType} (h : ¬ TooWide target t)
    (helement : t.element = some element) :
    convertType target t = { t with element := some (element.withStorage target) } := by
  have hwidth : ¬ target.bits < element.width := fun hlt => h ⟨element, helement, hlt⟩
  simp only [convertType, helement, Option.bind_some, convertQuantizedType, if_neg hwidth]

theorem convertType_of_none (h : t.element = none) : convertType target t = t := by
  simp only [convertType, h, Option.bind_none]

theorem not_tooWide_convertType (h : ¬ TooWide target t) : ¬ TooWide target (convertType target t) := by
  cases helement : t.element with
  | none => rwa [convertType_of_none helement]
  | some element =>
    rw [convertType_of_some h helement]
    rintro ⟨_, heq, hlt⟩
    obtain rfl := Option.some.inj heq
    exact absurd hlt (lt_irrefl target.bits)

/-- A conversion does not make a type fit. -/
theorem tooWide_convertType : TooWide target (convertType target t) ↔ TooWide target t := by
  by_cases h : TooWide target t
  · rw [convertType_of_tooWide h]
  · exact iff_of_false (not_tooWide_convertType h) h

/-- A second conversion changes nothing. -/
theorem convertType_convertType : convertType target (convertType target t) = convertType target t := by
  by_cases h : TooWide target t
  · rw [convertType_of_tooWide h, convertType_of_tooWide h]
  cases helement : t.element with
  | none => rw [convertType_of_none helement, convertType_of_none helement]
  | some element =>
    have hagain := not_tooWide_convertType h
    rw [convertType_of_some h helement] at hagain ⊢
    rw [convertType_of_some hagain rfl]
    rfl

/-- A conversion keeps the scales. -/
theorem scale_convertType : (convertType target t).scale = t.scale := by
  by_cases h : TooWide target t
  · rw [convertType_of_tooWide h]
  cases helement : t.element with
  | none => rw [convertType_of_none helement]
  | some element =>
    funext k
    rw [convertType_of_some h helement, TensorType.scale, TensorType.scale, helement]
    rfl

/-- A conversion keeps the zero points. -/
theorem zeroPoint_convertType : (convertType target t).zeroPoint = t.zeroPoint := by
  by_cases h : TooWide target t
  · rw [convertType_of_tooWide h]
  cases helement : t.element with
  | none => rw [convertType_of_none helement]
  | some element =>
    funext k
    rw [convertType_of_some h helement, TensorType.zeroPoint, TensorType.zeroPoint, helement]
    rfl

theorem scale_ne_zero (t : TensorType) (k : ℕ) : t.scale k ≠ 0 := by
  rw [TensorType.scale]
  split
  · exact one_ne_zero
  · rename_i element _
    rw [List.getD_eq_getElem?_getD]
    cases h : element.scales[t.channel element k]? with
    | none => exact one_ne_zero
    | some s => exact element.scales_ne_zero s (List.mem_of_getElem? h)

/-- Saturation at narrower and at wider bounds. -/
theorem clamp_eq_iff {lo hi lo' hi' z : ℚ} (hlo : lo' ≤ lo) (hhi : hi ≤ hi') (h : lo < hi) :
    max lo (min z hi) = max lo' (min z hi') ↔ (lo ≤ z ∨ lo = lo') ∧ (z ≤ hi ∨ hi = hi') := by
  rcases lt_or_ge z lo with hbelow | habove
  · rw [min_eq_left (hbelow.trans h).le, min_eq_left ((hbelow.trans h).le.trans hhi),
      max_eq_left hbelow.le]
    constructor
    · intro heq
      refine ⟨.inr ?_, .inl (hbelow.trans h).le⟩
      rcases max_choice lo' z with hmax | hmax
      · rw [heq, hmax]
      · rw [hmax] at heq
        exact absurd heq hbelow.ne'
    · rintro ⟨hz | rfl, -⟩
      · exact absurd hz hbelow.not_ge
      · rw [max_eq_left hbelow.le]
  · rw [max_eq_right (le_min habove h.le), max_eq_right (hlo.trans (le_min habove (h.le.trans hhi)))]
    constructor
    · intro heq
      refine ⟨.inl habove, ?_⟩
      rcases le_or_gt z hi with hz | hz
      · exact .inl hz
      · rw [min_eq_right hz.le] at heq
        rcases min_choice z hi' with hmin | hmin
        · rw [hmin] at heq
          exact absurd heq hz.ne
        · exact .inr (heq.trans hmin)
    · rintro ⟨-, hz | rfl⟩
      · rw [min_eq_left hz, min_eq_left (hz.trans hhi)]
      · rfl

/-- **What a converted type changes**: the saturation of what is past a bound that moves. -/
theorem saturate_convertType_iff {element : QuantizedType} (h : ¬ TooWide target t)
    (helement : t.element = some element) (z : ℚ) :
    t.saturate z = (convertType target t).saturate z ↔
      ((element.storageMin : ℚ) ≤ z ∨ element.storageMin = target.min) ∧
        (z ≤ element.storageMax ∨ element.storageMax = target.max) := by
  have hwidth : element.width - 1 ≤ target.bits - 1 :=
    Nat.sub_le_sub_right (not_lt.mp fun hlt => h ⟨element, helement, hlt⟩) 1
  have hpow : (2 : ℤ) ^ (element.width - 1) ≤ 2 ^ (target.bits - 1) :=
    pow_le_pow_right₀ (by norm_num) hwidth
  have hmin : target.min ≤ element.storageMin := (neg_le_neg hpow).trans element.min_le
  have hmax : element.storageMax ≤ target.max := element.le_max.trans (Int.sub_le_sub_right hpow 1)
  rw [convertType_of_some h helement, TensorType.saturate, TensorType.saturate, helement]
  show max (element.storageMin : ℚ) (min z element.storageMax)
    = max (target.min : ℚ) (min z target.max) ↔ _
  rw [clamp_eq_iff (by exact_mod_cast hmin) (by exact_mod_cast hmax)
    (by exact_mod_cast element.min_lt_max), Int.cast_inj, Int.cast_inj]

end Types

/-! ## Runs of the driver -/

namespace FuncOp

variable (f : FuncOp) (target : TargetWidth)

/-- **The types after any visits**: those of the values that were touched are converted. -/
theorem foldl_visit_types (order : List ℕ) (s : State) (v : ℕ) :
    (order.foldl (f.visit target) s).types v
      = if ∃ i ∈ order, v ∈ f.touched i then convertType target (s.types v) else s.types v := by
  induction order generalizing s with
  | nil => simp
  | cons i order ih =>
    rw [List.foldl_cons, ih]
    by_cases hfirst : v ∈ f.touched i
    · simp [visit, hfirst, convertType_convertType]
    · simp [visit, hfirst]

/-- **What fails**: a visit that touches a type that is too wide. -/
theorem foldl_visit_failed (order : List ℕ) (s : State) :
    (order.foldl (f.visit target) s).failed = true ↔
      s.failed = true ∨ ∃ i ∈ order, ∃ v ∈ f.touched i, TooWide target (s.types v) := by
  induction order generalizing s with
  | nil => simp
  | cons i order ih =>
    have hwide : ∀ v, TooWide target ((f.visit target s i).types v) ↔ TooWide target (s.types v) := by
      intro v
      rw [visit]
      dsimp only
      split_ifs
      · exact tooWide_convertType
      · rfl
    rw [List.foldl_cons, ih]
    simp only [hwide]
    simp [visit, or_assoc]

variable {f target} {order : List ℕ}

theorem runPass_types_touched {i v : ℕ} (hi : i ∈ order) (hv : v ∈ f.touched i) :
    (f.runPass target order).types v = convertType target (f.types v) := by
  rw [runPass, foldl_visit_types, if_pos ⟨i, hi, hv⟩]

/-- The pass keeps the scales. -/
theorem runPass_scale (v : ℕ) : ((f.runPass target order).types v).scale = (f.types v).scale := by
  rw [runPass, foldl_visit_types]
  split_ifs
  · exact scale_convertType
  · rfl

/-- The pass keeps the zero points. -/
theorem runPass_zeroPoint (v : ℕ) :
    ((f.runPass target order).types v).zeroPoint = (f.types v).zeroPoint := by
  rw [runPass, foldl_visit_types]
  split_ifs
  · exact zeroPoint_convertType
  · rfl

/-- **The pass rejects** the functions with a type that is too wide. -/
theorem runPass_failed (h : f.Complete order) : (f.runPass target order).failed = true ↔
      ∃ i ≤ f.ops.length, ∃ v ∈ f.touched i, TooWide target (f.types v) := by
  rw [runPass, foldl_visit_failed]
  constructor
  · rintro (hfailed | ⟨i, hi, v, hv, hwide⟩)
    · cases hfailed
    · refine ⟨i, ?_, v, hv, hwide⟩
      cases i with
      | zero => exact Nat.zero_le _
      | succ i =>
        by_contra hpast
        rw [touched, List.getElem?_eq_none (by omega)] at hv
        exact absurd hv List.not_mem_nil
  · rintro ⟨i, hi, v, hv, hwide⟩
    exact .inr ⟨i, h i hi, v, hv, hwide⟩

theorem runPass_result (h : f.Complete order) (hfailed : (f.runPass target order).failed = false)
    {i : ℕ} (hi : i < f.ops.length) :
    (f.runPass target order).types (f.numArgs + i) = convertType target (f.types (f.numArgs + i)) ∧
      ¬ TooWide target (f.types (f.numArgs + i)) := by
  have hmem : f.numArgs + i ∈ f.touched (i + 1) := by
    rw [touched, List.getElem?_eq_getElem hi]
    exact List.mem_append_right _ List.mem_cons_self
  refine ⟨runPass_types_touched (h (i + 1) hi) hmem, fun hwide => ?_⟩
  rw [(runPass_failed h).mpr ⟨i + 1, hi, _, hmem, hwide⟩] at hfailed
  cases hfailed

end FuncOp

/-! ## Runs of functions -/

section Run

variable {round : ℚ → ℤ} {types types' : ℕ → TensorType} {target : TargetWidth}

/-- A run appends a value for each operation. -/
theorem exists_run_eq_append (round : ℚ → ℤ) (types : ℕ → TensorType) (ops : List Op)
    (env : List (List ℚ)) :
    ∃ rest, run round types ops env = env ++ rest ∧ rest.length = ops.length := by
  induction ops generalizing env with
  | nil => exact ⟨[], (List.append_nil _).symm, rfl⟩
  | cons op ops ih =>
    obtain ⟨rest, hrest, hlength⟩ := ih (env ++ [op.eval round types env])
    refine ⟨op.eval round types env :: rest, ?_, ?_⟩
    · rw [run, hrest, List.append_assoc]
      rfl
    · rw [List.length_cons, List.length_cons, hlength]

section

variable (hscale : ∀ v, (types' v).scale = (types v).scale)
  (hzero : ∀ v, (types' v).zeroPoint = (types v).zeroPoint)

include hscale hzero

theorem exact_congr (env : List (List ℚ)) (op : Op) :
    op.exact round types' env = op.exact round types env := by
  cases op <;> simp only [Op.exact, hscale, hzero]

/-- **One operation**: its result stays where it saturates at no bound that moves. -/
theorem eval_eq_iff {env : List (List ℚ)}
    (hresult : types' env.length = convertType target (types env.length))
    (hwide : ¬ TooWide target (types env.length)) (op : Op) :
    op.eval round types env = op.eval round types' env ↔
      (op.Saturates → ∀ element, (types env.length).element = some element →
        ∀ z ∈ op.exact round types env,
          ((element.storageMin : ℚ) ≤ z ∨ element.storageMin = target.min) ∧
            (z ≤ element.storageMax ∨ element.storageMax = target.max)) := by
  rw [Op.eval, Op.eval, exact_congr hscale hzero, hresult]
  split_ifs with hop
  · simp only [hop, true_implies]
    rw [List.map_inj_left]
    cases helement : (types env.length).element with
    | none =>
      rw [convertType_of_none helement]
      simp
    | some element =>
      simp only [saturate_convertType_iff hwide helement, Option.some.injEq, forall_eq']
  · simp [hop]

/-- **All operations**, one after the other. -/
theorem run_eq_iff {ops : List Op} {env : List (List ℚ)} (hresults : ∀ i < ops.length,
      types' (env.length + i) = convertType target (types (env.length + i)) ∧
        ¬ TooWide target (types (env.length + i))) :
    run round types ops env = run round types' ops env ↔
      Unsaturated round types target ops env := by
  induction ops generalizing env with
  | nil => exact iff_of_true rfl trivial
  | cons op ops ih =>
    obtain ⟨hresult, hwide⟩ := hresults 0 (Nat.succ_pos _)
    have hone := @eval_eq_iff round types types' target hscale hzero env hresult hwide op
    have hrest := @ih (env ++ [op.eval round types env]) fun i hi => by
      have hnext := hresults (i + 1) (Nat.succ_lt_succ hi)
      rw [List.length_append, List.length_singleton]
      rwa [Nat.add_assoc, Nat.add_comm 1 i]
    rw [Unsaturated, run, run, ← hone, ← hrest]
    constructor
    · intro heq
      -- the first new value is the one of this operation
      have hfirst : op.eval round types env = op.eval round types' env := by
        obtain ⟨rest, hr, -⟩ := exists_run_eq_append round types ops (env ++ [op.eval round types env])
        obtain ⟨rest', hr', -⟩ :=
          exists_run_eq_append round types' ops (env ++ [op.eval round types' env])
        rw [hr, hr', List.append_assoc, List.append_assoc] at heq
        exact (List.cons.inj (List.append_cancel_left heq)).1
      exact ⟨hfirst, by rwa [← hfirst] at heq⟩
    · rintro ⟨hfirst, heq⟩
      rw [heq, hfirst]

end

/-- Equal dequantized values are equal quantized values. -/
theorem dequantized_inj {t t' : TensorType} (hscale : t'.scale = t.scale)
    (hzero : t'.zeroPoint = t.zeroPoint) {a b : List ℚ} :
    t.dequantized a = t'.dequantized b ↔ a = b := by
  rw [TensorType.dequantized, TensorType.dequantized, hscale, hzero]
  constructor
  · intro h
    have hlength : a.length = b.length := by simpa using congrArg List.length h
    refine List.ext_getElem hlength fun k hk hk' => ?_
    have hget := List.getElem_of_eq h (by simpa using hk)
    rw [List.getElem_mapIdx, List.getElem_mapIdx] at hget
    exact sub_left_inj.mp (mul_right_cancel₀ (scale_ne_zero t k) hget)
  · exact fun h => h ▸ rfl

end Run

namespace FuncOp

variable {f : FuncOp} {target : TargetWidth} {order : List ℕ} {round : ℚ → ℤ}

/-- **Widening quantized storage**: the functions with a type wider than the target are rejected,
and in the others the values stay the same exactly where no operation saturates at a bound that
moves, whatever the order of the visits. -/
theorem runPass_spec (h : f.Complete order) :
    ((f.runPass target order).failed = true ↔
      ∃ i ≤ f.ops.length, ∃ v ∈ f.touched i, TooWide target (f.types v)) ∧
    ((f.runPass target order).failed = false → ∀ args : List (List ℚ), args.length = f.numArgs →
      (f.SameValues round (f.runPass target order).types args ↔
        Unsaturated round f.types target f.ops args)) := by
  refine ⟨runPass_failed h, fun hfailed args hargs => ?_⟩
  have hrun : run round f.types f.ops args = run round (f.runPass target order).types f.ops args ↔
      Unsaturated round f.types target f.ops args :=
    run_eq_iff runPass_scale runPass_zeroPoint fun i hi => hargs ▸ runPass_result h hfailed hi
  rw [← hrun]
  simp only [SameValues, dequantized_inj (runPass_scale _) (runPass_zeroPoint _)]
  constructor
  · intro hsame
    obtain ⟨rest, hr, hlength⟩ := exists_run_eq_append round f.types f.ops args
    obtain ⟨rest', hr', hlength'⟩ :=
      exists_run_eq_append round (f.runPass target order).types f.ops args
    refine List.ext_getElem (by rw [hr, hr', List.length_append, List.length_append, hlength, hlength'])
      fun v hv hv' => ?_
    rw [← List.getD_eq_getElem _ [] hv, ← List.getD_eq_getElem _ [] hv', hsame v]
  · exact fun heq v => by rw [heq]

end FuncOp

/-! ## One quantization -/

/-- `!quant.uniform<i8:f32>` with zero points of zero. -/
def uniformI8 (scales : List ℚ) (quantizedDimension : Option ℕ) (h : ∀ s ∈ scales, s ≠ 0) :
    QuantizedType where
  width := 8
  scales := scales
  zeroPoints := scales.map fun _ => 0
  quantizedDimension := quantizedDimension
  storageMin := -128
  storageMax := 127
  width_le := by decide
  min_le := by decide
  le_max := by decide
  min_lt_max := by decide
  scales_ne_zero := h

/-- Two channels of their own scales are quantized again, to one scale. -/
def requantizeI8 : FuncOp where
  numArgs := 1
  ops := [.requantize 0]
  types v :=
    if v = 0 then ⟨[2], some (uniformI8 [1 / 10, 1 / 5] (some 0) (by simp))⟩
    else ⟨[2], some (uniformI8 [1 / 5, 1 / 5] (some 0) (by simp))⟩

/-- The quantization of a tensor of one element, to a scale of 0.1. -/
def quantizeI8 : FuncOp where
  numArgs := 1
  ops := [.quantize 0]
  types v := if v = 0 then ⟨[1], none⟩ else ⟨[1], some (uniformI8 [1 / 10] none (by simp))⟩

theorem complete_of_one {f : FuncOp} (h : f.ops.length = 1) : f.Complete [0, 1] := by
  intro i hi
  rw [h] at hi
  interval_cases i <;> simp

/-- What is in the range of the original type stays: 10 becomes 5, and 127 is the bound. -/
theorem requantizeI8_sameValues :
    (requantizeI8.runPass .i32 [0, 1]).failed = false ∧
      requantizeI8.SameValues Int.floor (requantizeI8.runPass .i32 [0, 1]).types [[10, 127]] := by
  have haccepted : (requantizeI8.runPass .i32 [0, 1]).failed = false := by decide
  have hexact : Op.exact Int.floor requantizeI8.types [[10, 127]] (.requantize 0) = [5, 127] := by
    simp [Op.exact, requantizeI8, TensorType.scale, TensorType.zeroPoint, TensorType.channel,
      uniformI8, unravel]
  refine ⟨haccepted,
    ((FuncOp.runPass_spec (complete_of_one rfl)).2 haccepted [[10, 127]] rfl).mpr ⟨?_, trivial⟩⟩
  rintro - element helement z hz
  obtain rfl := Option.some.inj helement
  rw [hexact] at hz
  simp only [List.mem_cons, List.not_mem_nil, or_false] at hz
  rcases hz with rfl | rfl <;> norm_num [uniformI8]

/-- **What saturates moves**: 20 is stored as 127 before, and as 200 after. -/
theorem quantizeI8_not_sameValues :
    (quantizeI8.runPass .i32 [0, 1]).failed = false ∧
      ¬ quantizeI8.SameValues Int.floor (quantizeI8.runPass .i32 [0, 1]).types [[20]] := by
  have haccepted : (quantizeI8.runPass .i32 [0, 1]).failed = false := by decide
  refine ⟨haccepted, fun hsame => ?_⟩
  obtain ⟨hunsaturated, -⟩ :=
    ((FuncOp.runPass_spec (complete_of_one rfl)).2 haccepted [[20]] rfl).mp hsame
  have hmem : (200 : ℚ) ∈ Op.exact Int.floor quantizeI8.types [[20]] (.quantize 0) := by
    simp [Op.exact, quantizeI8, TensorType.scale, TensorType.zeroPoint, TensorType.channel,
      uniformI8]
    norm_num
  have hbound := (hunsaturated trivial _ rfl 200 hmem).2
  norm_num [uniformI8, TargetWidth.max, TargetWidth.bits] at hbound

end QuantStorage
