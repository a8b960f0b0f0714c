/-
# Reducing an array over some of its axes

Every axis has an extent and a mark, whether it is reduced.  An index of the result stands for
the indices of the array that agree with it along the other axes: its fibre.

* `kept` : the shape of the result, without the reduced axes or with ones in their place;
* `fibre` : the indices of the array under an index of the result, in row-major order;
* `reduce` : the reduction, by any function of lists;
* `expand`, `fibre_expand`, `rowMajor_expand` : with and without the reduced axes, the results are
  the same numbers in the same order;
* `fibreAt`, `fibre_eq_fibreAt` : the fibres, numbered in row-major order;
* `fibreAt_congr` : the mark of an axis of extent one makes no difference;
* `only`, `fibreAt_only_zero` : the reduction over one axis;
* `mem_fibre_of_grown`, `mem_grown_of_fibre` : fibres of an array that grows along reduced axes.
-/
import TTMLIR.MixedRadix

namespace AxisReduction

open MixedRadix

/-- The extents of the result. -/
def kept (keepDim : Bool) : List (Bool × ℕ) → List ℕ
  | [] => []
  | (true, _) :: axes => if keepDim then 1 :: kept keepDim axes else kept keepDim axes
  | (false, n) :: axes => n :: kept keepDim axes

/-- The indices of the array under an index of the result. -/
def fibre (keepDim : Bool) : List (Bool × ℕ) → List ℕ → List (List ℕ)
  | [], _ => [[]]
  | (true, n) :: axes, idx =>
    (List.range n).flatMap fun j =>
      (fibre keepDim axes (if keepDim then idx.tail else idx)).map (j :: ·)
  | (false, _) :: axes, idx => (fibre keepDim axes idx.tail).map (idx.headD 0 :: ·)

/-- An index without the reduced axes, with zeros in their place. -/
def expand : List (Bool × ℕ) → List ℕ → List ℕ
  | [], _ => []
  | (true, _) :: axes, idx => 0 :: expand axes idx
  | (false, _) :: axes, idx => idx.headD 0 :: expand axes idx.tail

/-- The reduction by a function of lists. -/
def reduce {α β : Type*} (f : List α → β) (keepDim : Bool) (axes : List (Bool × ℕ))
    (elem : List ℕ → α) (idx : List ℕ) : β :=
  f ((fibre keepDim axes idx).map elem)

/-! ## Axes that are not reduced -/

/-- Nothing is reduced: a fibre is one index. -/
theorem fibre_unmarked (keepDim : Bool) {shape idx : List ℕ} (h : idx.length = shape.length) :
    fibre keepDim (shape.map (false, ·)) idx = [idx] := by
  induction shape generalizing idx with
  | nil => rw [List.eq_nil_of_length_eq_zero h]; rfl
  | cons n shape ih =>
    cases idx with
    | nil => exact nomatch h
    | cons i idx =>
      rw [List.map_cons, fibre, List.tail_cons, ih (Nat.succ.inj h)]
      rfl

theorem kept_unmarked (keepDim : Bool) (shape : List ℕ) :
    kept keepDim (shape.map (false, ·)) = shape := by
  induction shape with
  | nil => rfl
  | cons n shape ih => rw [List.map_cons, kept, ih]

variable {axes : List (Bool × ℕ)} {keepDim : Bool} {idx v : List ℕ}

/-- The indices of a fibre are indices of the array. -/
theorem inShape_of_mem_fibre
    (h : InShape idx (kept keepDim axes)) (hv : v ∈ fibre keepDim axes idx) :
    InShape v (axes.map Prod.snd) := by
  induction axes generalizing idx v with
  | nil => rw [List.mem_singleton.mp hv]; exact .nil
  | cons a axes ih =>
    obtain ⟨marked, n⟩ := a
    cases marked with
    | true =>
      obtain ⟨j, hj, hmem⟩ := List.mem_flatMap.mp hv
      obtain ⟨w, hw, rfl⟩ := List.mem_map.mp hmem
      refine .cons (List.mem_range.mp hj) (ih ?_ hw)
      cases keepDim with
      | true =>
        obtain _ | ⟨_, hrest⟩ : InShape idx (1 :: kept true axes) := h
        exact hrest
      | false => exact h
    | false =>
      obtain ⟨w, hw, rfl⟩ := List.mem_map.mp hv
      obtain _ | ⟨hi, hrest⟩ := h
      exact .cons hi (ih hrest hw)

/-- Reducing the first dimension alone. -/
theorem fibre_first (n : ℕ) {shape idx : List ℕ} (h : idx.length = shape.length) :
    fibre false ((true, n) :: shape.map (false, ·)) idx = (List.range n).map (· :: idx) := by
  rw [fibre, if_neg Bool.false_ne_true, fibre_unmarked false h, List.map_eq_flatMap]
  rfl

/-! ## With and without the reduced axes -/

/-- A fibre is the same whether reduced dimensions are kept or not. -/
theorem fibre_expand (axes : List (Bool × ℕ)) (idx : List ℕ) :
    fibre true axes (expand axes idx) = fibre false axes idx := by
  induction axes generalizing idx with
  | nil => rfl
  | cons a axes ih =>
    obtain ⟨marked, n⟩ := a
    cases marked with
    | true => simp only [fibre, expand, if_true, List.tail_cons, ih, if_neg Bool.false_ne_true]
    | false => simp only [fibre, expand, List.tail_cons, List.headD_cons, ih]

/-- Kept reduced dimensions have extent one. -/
theorem prod_kept (axes : List (Bool × ℕ)) : (kept true axes).prod = (kept false axes).prod := by
  induction axes with
  | nil => rfl
  | cons a axes ih =>
    obtain ⟨marked, n⟩ := a
    cases marked with
    | true => rw [kept, kept, if_pos rfl, if_neg Bool.false_ne_true, List.prod_cons, one_mul, ih]
    | false => rw [kept, kept, List.prod_cons, List.prod_cons, ih]

theorem inShape_expand {idx : List ℕ}
    (h : InShape idx (kept false axes)) : InShape (expand axes idx) (kept true axes) := by
  induction axes generalizing idx with
  | nil => exact .nil
  | cons a axes ih =>
    obtain ⟨marked, n⟩ := a
    cases marked with
    | true => exact .cons Nat.zero_lt_one (ih h)
    | false =>
      obtain _ | ⟨hi, hidx⟩ := h
      exact .cons hi (ih hidx)

/-- Their elements come in the same order. -/
theorem rowMajor_expand {idx : List ℕ} (h : InShape idx (kept false axes)) :
    rowMajor (kept true axes) (expand axes idx) = rowMajor (kept false axes) idx := by
  induction axes generalizing idx with
  | nil => cases h; rfl
  | cons a axes ih =>
    obtain ⟨marked, n⟩ := a
    cases marked with
    | true =>
      rw [expand, kept, if_pos rfl, rowMajor_cons, Nat.zero_mul, Nat.zero_add, ih h]
      rfl
    | false =>
      obtain _ | ⟨hi, hidx⟩ := h
      rw [expand, kept, List.headD_cons, List.tail_cons, rowMajor_cons, ih hidx, kept,
        rowMajor_cons, prod_kept]

/-! ## Numbering the fibres -/

/-- The fibre under the `p`-th index of the result. -/
def fibreAt (axes : List (Bool × ℕ)) (p : ℕ) : List (List ℕ) :=
  fibre false axes (unravel (kept false axes) p)

theorem fibreAt_marked (n : ℕ) (axes : List (Bool × ℕ)) (p : ℕ) : fibreAt ((true, n) :: axes) p
      = (List.range n).flatMap fun j => (fibreAt axes p).map (j :: ·) := rfl

theorem fibreAt_unmarked (n : ℕ) (axes : List (Bool × ℕ)) (p : ℕ) : fibreAt ((false, n) :: axes) p
      = (fibreAt axes (p % (kept false axes).prod)).map (p / (kept false axes).prod :: ·) := rfl

/-- **The fibre of an index is the one of its number**, with and without the reduced axes. -/
theorem fibre_eq_fibreAt {idx : List ℕ} (h : InShape idx (kept keepDim axes)) :
    fibre keepDim axes idx = fibreAt axes (rowMajor (kept keepDim axes) idx) := by
  cases keepDim with
  | false => rw [fibreAt, unravel_rowMajor h]
  | true =>
    have hlt : rowMajor (kept true axes) idx < (kept false axes).prod :=
      prod_kept axes ▸ rowMajor_lt h
    have hinner := inShape_unravel (kept false axes) _ hlt
    have hexpand : expand axes (unravel (kept false axes) (rowMajor (kept true axes) idx)) = idx := by
      rw [← unravel_rowMajor (inShape_expand hinner), rowMajor_expand hinner,
        rowMajor_unravel _ _ hlt, unravel_rowMajor h]
    rw [fibreAt, ← fibre_expand, hexpand]

/-- Where all dimensions are reduced there is one fibre. -/
theorem fibre_of_kept_nil (h : kept false axes = []) (idx : List ℕ) :
    fibre false axes idx = fibreAt axes 0 := by
  induction axes generalizing idx with
  | nil => rfl
  | cons a axes ih =>
    obtain ⟨marked, n⟩ := a
    cases marked with
    | true => rw [fibre, if_neg Bool.false_ne_true, fibreAt_marked, ih h]
    | false => exact nomatch h

/-! ## Axes of extent one -/

/-- Axes of the same extents, and with the same marks but on extents of one. -/
def Similar (axes axes' : List (Bool × ℕ)) : Prop :=
  List.Forall₂ (fun a a' => a.2 = a'.2 ∧ (a.1 = a'.1 ∨ a.2 = 1)) axes axes'

/-- Similar reductions have results of one volume. -/
theorem Similar.prod_kept {axes axes' : List (Bool × ℕ)} (h : Similar axes axes') :
    (kept false axes).prod = (kept false axes').prod := by
  induction h with
  | nil => rfl
  | @cons a a' axes axes' ha _ ih =>
    obtain ⟨marked, n⟩ := a
    obtain ⟨marked', n'⟩ := a'
    obtain ⟨rfl, hmark⟩ : n = n' ∧ (marked = marked' ∨ n = 1) := ha
    cases marked <;> cases marked' <;>
      simp only [kept, if_neg Bool.false_ne_true, List.prod_cons, ih]
    · rw [hmark.resolve_left Bool.false_ne_true, one_mul]
    · rw [hmark.resolve_left (Ne.symm Bool.false_ne_true), one_mul]

/-- **The mark of an extent of one** makes no difference for the fibres. -/
theorem fibreAt_congr {axes axes' : List (Bool × ℕ)} (h : Similar axes axes') {p : ℕ}
    (hp : p < (kept false axes).prod) : fibreAt axes p = fibreAt axes' p := by
  induction h generalizing p with
  | nil => rfl
  | @cons a a' axes axes' ha hrest ih =>
    obtain ⟨marked, n⟩ := a
    obtain ⟨marked', n'⟩ := a'
    obtain ⟨rfl, hmark⟩ : n = n' ∧ (marked = marked' ∨ n = 1) := ha
    have hprod := Similar.prod_kept hrest
    -- an axis of extent one that is reduced, and one that is not
    have hunit : ∀ {axes axes' : List (Bool × ℕ)}, p < (kept false axes').prod →
        fibreAt axes p = fibreAt axes' p →
        fibreAt ((true, 1) :: axes) p = fibreAt ((false, 1) :: axes') p := by
      intro axes axes' hlt heq
      rw [fibreAt_marked, fibreAt_unmarked, Nat.mod_eq_of_lt hlt, Nat.div_eq_of_lt hlt, heq]
      simp
    cases marked with
    | true =>
      replace hp : p < (kept false axes).prod := hp
      cases marked' with
      | true => rw [fibreAt_marked, fibreAt_marked, ih hp]
      | false =>
        rw [hmark.resolve_left (Ne.symm Bool.false_ne_true)]
        exact hunit (hprod ▸ hp) (ih hp)
    | false =>
      rw [kept, List.prod_cons] at hp
      cases marked' with
      | true =>
        obtain rfl := hmark.resolve_left Bool.false_ne_true
        rw [one_mul] at hp
        exact (hunit hp (ih hp).symm).symm
      | false =>
        have hpos : 0 < (kept false axes).prod := by
          refine Nat.pos_of_ne_zero fun h => ?_
          rw [h, mul_zero] at hp
          exact Nat.not_lt_zero _ hp
        rw [fibreAt_unmarked, fibreAt_unmarked, ih (Nat.mod_lt _ hpos), hprod]

/-! ## One axis -/

/-- The axes of a shape, with one of them marked. -/
def only : ℕ → List ℕ → List (Bool × ℕ)
  | _, [] => []
  | 0, n :: shape => (true, n) :: shape.map (false, ·)
  | k + 1, n :: shape => (false, n) :: only k shape

theorem unravel_zero (shape : List ℕ) : unravel shape 0 = List.replicate shape.length 0 := by
  induction shape with
  | nil => rfl
  | cons n shape ih =>
    rw [unravel, Nat.zero_div, Nat.zero_mod, ih, List.length_cons, List.replicate_succ]

theorem extents_only (k : ℕ) (shape : List ℕ) : (only k shape).map Prod.snd = shape := by
  induction shape generalizing k with
  | nil => cases k <;> rfl
  | cons n shape ih =>
    cases k with
    | zero => rw [only, List.map_cons, List.map_map]; exact congrArg _ (List.map_id _)
    | succ k => rw [only, List.map_cons, ih]

/-- The fibre under the first index is a line from the first index. -/
theorem fibreAt_only_zero {shape : List ℕ} {k : ℕ} (hk : k < shape.length) :
    fibreAt (only k shape) 0
      = (List.range (shape.getD k 0)).map (List.set (List.replicate shape.length 0) k) := by
  induction shape generalizing k with
  | nil => exact absurd hk (Nat.not_lt_zero _)
  | cons n shape ih =>
    cases k with
    | zero =>
      rw [only, fibreAt_marked, fibreAt, kept_unmarked, unravel_zero,
        fibre_unmarked false List.length_replicate, List.getD_cons_zero, List.length_cons,
        List.replicate_succ, List.map_eq_flatMap]
      rfl
    | succ k =>
      rw [only, fibreAt_unmarked, Nat.zero_mod, Nat.zero_div, ih (Nat.lt_of_succ_lt_succ hk),
        List.map_map, List.getD_cons_succ, List.length_cons, List.replicate_succ]
      rfl

/-! ## Ones in front -/

section Ones

variable {axes : List (Bool × ℕ)} {shape : List ℕ}

theorem prod_kept_ones (m : ℕ) (axes : List (Bool × ℕ)) :
    (kept false (List.replicate m (false, 1) ++ axes)).prod = (kept false axes).prod := by
  induction m with
  | zero => rfl
  | succ m ih => rw [List.replicate_succ, List.cons_append, kept, List.prod_cons, one_mul, ih]

theorem fibreAt_ones (m : ℕ) {p : ℕ} (hp : p < (kept false axes).prod) :
    fibreAt (List.replicate m (false, 1) ++ axes) p
      = (fibreAt axes p).map (List.replicate m 0 ++ ·) := by
  induction m with
  | zero => exact (List.map_id _).symm
  | succ m ih =>
    have hlt : p < (kept false (List.replicate m (false, 1) ++ axes)).prod :=
      prod_kept_ones m axes ▸ hp
    rw [List.replicate_succ, List.cons_append, fibreAt_unmarked, Nat.mod_eq_of_lt hlt,
      Nat.div_eq_of_lt hlt, ih, List.map_map]
    rfl

theorem only_ones (m k : ℕ) (shape : List ℕ) :
    only (k + m) (List.replicate m 1 ++ shape) = List.replicate m (false, 1) ++ only k shape := by
  induction m with
  | zero => rfl
  | succ m ih =>
    rw [List.replicate_succ, List.replicate_succ, List.cons_append, List.cons_append, ← ih]
    rfl

theorem similar_only {k : ℕ} (h : shape.getD k 0 = 1) :
    Similar (only k shape) (shape.map (false, ·)) := by
  induction shape generalizing k with
  | nil => cases k <;> exact .nil
  | cons n shape ih =>
    cases k with
    | zero =>
      exact .cons ⟨rfl, .inr h⟩ (List.forall₂_same.mpr fun _ _ => ⟨rfl, .inl rfl⟩)
    | succ k => exact .cons ⟨rfl, .inl rfl⟩ (ih h)

theorem getD_mul_prod_kept {k : ℕ} (hk : k < shape.length) :
    shape.getD k 0 * (kept false (only k shape)).prod = shape.prod := by
  induction shape generalizing k with
  | nil => exact absurd hk (Nat.not_lt_zero _)
  | cons n shape ih =>
    cases k with
    | zero =>
      rw [only, kept, if_neg Bool.false_ne_true, kept_unmarked, List.prod_cons]
      rfl
    | succ k =>
      rw [only, kept, List.prod_cons, List.prod_cons, List.getD_cons_succ,
        Nat.mul_left_comm, ih (Nat.lt_of_succ_lt_succ hk)]

end Ones

/-! ## Arrays that grow along reduced axes -/

/-- The same marks, the same extents without a mark, and no smaller ones with it. -/
def Grown (axes axes' : List (Bool × ℕ)) : Prop :=
  List.Forall₂ (fun a a' => a.1 = a'.1 ∧ a.2 ≤ a'.2 ∧ (a.1 = false → a.2 = a'.2)) axes axes'

section

variable {axes axes' : List (Bool × ℕ)} (h : Grown axes axes')

include h

theorem Grown.kept_eq (keepDim : Bool) : kept keepDim axes = kept keepDim axes' := by
  induction h with
  | nil => rfl
  | @cons a a' axes axes' ha _ ih =>
    obtain ⟨marked, n⟩ := a
    obtain ⟨marked', n'⟩ := a'
    obtain ⟨rfl, -, hn⟩ : marked = marked' ∧ n ≤ n' ∧ (marked = false → n = n') := ha
    cases marked with
    | true => rw [kept, kept, ih]
    | false => rw [kept, kept, ih, hn rfl]

/-- The old indices stay in the fibres. -/
theorem mem_grown_of_fibre (hv : v ∈ fibre keepDim axes idx) : v ∈ fibre keepDim axes' idx := by
  induction h generalizing idx v with
  | nil => exact hv
  | @cons a a' axes axes' ha _ ih =>
    obtain ⟨marked, n⟩ := a
    obtain ⟨marked', n'⟩ := a'
    obtain ⟨rfl, hle, -⟩ : marked = marked' ∧ n ≤ n' ∧ (marked = false → n = n') := ha
    cases marked with
    | true =>
      obtain ⟨j, hj, hmem⟩ := List.mem_flatMap.mp hv
      obtain ⟨w, hw, rfl⟩ := List.mem_map.mp hmem
      have hj' : j < n' := (List.mem_range.mp hj).trans_le hle
      exact List.mem_flatMap.mpr ⟨j, List.mem_range.mpr hj', List.mem_map.mpr ⟨w, ih hw, rfl⟩⟩
    | false =>
      obtain ⟨w, hw, rfl⟩ := List.mem_map.mp hv
      exact List.mem_map.mpr ⟨w, ih hw, rfl⟩

/-- The new fibres have no other indices of the old array. -/
theorem mem_fibre_of_grown
    (hv : v ∈ fibre keepDim axes' idx) (hin : InShape v (axes.map Prod.snd)) :
    v ∈ fibre keepDim axes idx := by
  induction h generalizing idx v with
  | nil => exact hv
  | @cons a a' axes axes' ha _ ih =>
    obtain ⟨marked, n⟩ := a
    obtain ⟨marked', n'⟩ := a'
    obtain ⟨rfl, -, -⟩ : marked = marked' ∧ n ≤ n' ∧ (marked = false → n = n') := ha
    cases marked with
    | true =>
      obtain ⟨j, -, hmem⟩ := List.mem_flatMap.mp hv
      obtain ⟨w, hw, rfl⟩ := List.mem_map.mp hmem
      obtain _ | ⟨hj, hrest⟩ := hin
      exact List.mem_flatMap.mpr ⟨j, List.mem_range.mpr hj, List.mem_map.mpr ⟨w, ih hw hrest, rfl⟩⟩
    | false =>
      obtain ⟨w, hw, rfl⟩ := List.mem_map.mp hv
      obtain _ | ⟨-, hrest⟩ := hin
      exact List.mem_map.mpr ⟨w, ih hw hrest, rfl⟩

end

end AxisReduction
