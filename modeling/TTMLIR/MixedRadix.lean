/-
# Row-major offsets of index vectors

A shape `[n₀, …, nₖ]` has `n₀ * ⋯ * nₖ` index vectors, and the row-major offset
numbers them without gaps or repetitions:

* `rowMajor shape idx` : the offset of an index vector;
* `unravel shape k` : the index vector at an offset;
* `unravel_rowMajor`, `rowMajor_unravel` : the two are inverse to each other between the index
  vectors of a shape and the offsets below its volume.

Everything is over lists of natural numbers, so that the rank is arbitrary.
-/
import Mathlib

namespace MixedRadix

/-- `idx` is an index vector of `shape`: same rank, every entry in range. -/
abbrev InShape (idx shape : List ℕ) : Prop := List.Forall₂ (· < ·) idx shape

/-- The row-major offset of an index vector (innermost dimension last). -/
def rowMajor : List ℕ → List ℕ → ℕ
  | _ :: shape, i :: idx => i * shape.prod + rowMajor shape idx
  | _, _ => 0

/-- The index vector at a row-major offset. -/
def unravel : List ℕ → ℕ → List ℕ
  | [], _ => []
  | _ :: shape, k => k / shape.prod :: unravel shape (k % shape.prod)

@[simp] theorem rowMajor_nil (idx : List ℕ) : rowMajor [] idx = 0 := by
  cases idx <;> rfl

@[simp] theorem rowMajor_cons (n i : ℕ) (shape idx : List ℕ) :
    rowMajor (n :: shape) (i :: idx) = i * shape.prod + rowMajor shape idx := rfl

/-! ## Shapes with an index vector -/

variable {idx shape : List ℕ}

theorem getD_lt_of_inShape (h : InShape idx shape) {i : ℕ}
    (hi : i < shape.length) : idx.getD i 0 < shape.getD i 0 := by
  have hi' : i < idx.length := h.length_eq ▸ hi
  rw [List.getD_eq_getElem _ _ hi, List.getD_eq_getElem _ _ hi']
  exact h.get hi' hi

theorem prod_pos_of_inShape (h : InShape idx shape) : 0 < shape.prod := by
  induction h with
  | nil => simp
  | cons hlt _ ih =>
    rw [List.prod_cons]
    exact Nat.mul_pos (by omega) ih

theorem prod_pos_of_forall_pos {shape : List ℕ} (h : ∀ n ∈ shape, 0 < n) : 0 < shape.prod :=
  List.prod_pos h

theorem inShape_replicate_zero {shape : List ℕ} (h : ∀ n ∈ shape, 0 < n) :
    InShape (List.replicate shape.length 0) shape := by
  induction shape with
  | nil => exact List.Forall₂.nil
  | cons n shape ih =>
    exact List.Forall₂.cons (h n (by simp)) (ih fun m hm => h m (by simp [hm]))

theorem rowMajor_replicate_zero (shape : List ℕ) (k : ℕ) :
    rowMajor shape (List.replicate k 0) = 0 := by
  induction shape generalizing k with
  | nil => simp
  | cons n shape ih =>
    cases k with
    | zero => rfl
    | succ k => rw [List.replicate_succ, rowMajor_cons, ih, Nat.zero_mul]

/-! ## The bijection -/

/-- A position in row-major order is below the volume. -/
theorem rowMajor_lt (h : InShape idx shape) : rowMajor shape idx < shape.prod := by
  induction h with
  | nil => simp
  | @cons i n idx shape hlt _ ih =>
    rw [rowMajor_cons, List.prod_cons]
    calc i * shape.prod + rowMajor shape idx
        < i * shape.prod + shape.prod := by omega
      _ = (i + 1) * shape.prod := by ring
      _ ≤ n * shape.prod := Nat.mul_le_mul_right _ hlt

/-- `unravel` yields index vectors. -/
theorem inShape_unravel (shape : List ℕ) (k : ℕ) (hk : k < shape.prod) :
    InShape (unravel shape k) shape := by
  induction shape generalizing k with
  | nil => exact List.Forall₂.nil
  | cons n shape ih =>
    rw [List.prod_cons] at hk
    have hpos : 0 < shape.prod := Nat.pos_of_lt_mul_left hk
    exact List.Forall₂.cons (Nat.div_lt_of_lt_mul (by rwa [Nat.mul_comm]))
      (ih _ (Nat.mod_lt _ hpos))

/-- Reading an index vector back from its offset. -/
theorem unravel_rowMajor (h : InShape idx shape) : unravel shape (rowMajor shape idx) = idx := by
  induction h with
  | nil => rfl
  | @cons i n idx shape _ hrest ih =>
    have hlt := rowMajor_lt hrest
    have hpos : 0 < shape.prod := by omega
    have hdiv : (i * shape.prod + rowMajor shape idx) / shape.prod = i := by
      rw [Nat.mul_comm, Nat.mul_add_div hpos, Nat.div_eq_of_lt hlt, Nat.add_zero]
    have hmod : (i * shape.prod + rowMajor shape idx) % shape.prod = rowMajor shape idx := by
      rw [Nat.mul_comm, Nat.mul_add_mod, Nat.mod_eq_of_lt hlt]
    rw [rowMajor_cons, unravel, hdiv, hmod, ih]

/-- The index at a position has that position. -/
theorem rowMajor_unravel (shape : List ℕ) (k : ℕ) (hk : k < shape.prod) :
    rowMajor shape (unravel shape k) = k := by
  induction shape generalizing k with
  | nil =>
    rw [List.prod_nil] at hk
    simp; omega
  | cons n shape ih =>
    rw [List.prod_cons] at hk
    have hpos : 0 < shape.prod := Nat.pos_of_lt_mul_left hk
    rw [unravel, rowMajor_cons, ih _ (Nat.mod_lt _ hpos), Nat.mul_comm]
    exact Nat.div_add_mod k shape.prod

/-- Different indices have different positions. -/
theorem rowMajor_injOn (shape : List ℕ) : Set.InjOn (rowMajor shape) {idx | InShape idx shape} := by
  intro a ha b hb hab
  rw [← unravel_rowMajor ha, ← unravel_rowMajor hb, hab]

/-! ## Splitting a shape -/

/-- An index of an appended shape is an index of each part. -/
theorem inShape_append_iff {v outer inner : List ℕ} : InShape v (outer ++ inner) ↔
      ∃ i j, v = i ++ j ∧ InShape i outer ∧ InShape j inner := by
  constructor
  · intro h
    exact ⟨v.take outer.length, v.drop outer.length, (List.take_append_drop _ _).symm,
      List.forall₂_take_append v outer inner h, List.forall₂_drop_append v outer inner h⟩
  · rintro ⟨i, j, rfl, hi, hj⟩
    exact List.rel_append hi hj

/-- The offset in a concatenated shape: outer offset times inner volume plus inner
offset. -/
theorem rowMajor_append {outer i : List ℕ} (inner j : List ℕ) (h : i.length = outer.length) :
    rowMajor (outer ++ inner) (i ++ j) = rowMajor outer i * inner.prod + rowMajor inner j := by
  induction outer generalizing i with
  | nil =>
    have hi : i = [] := List.length_eq_zero_iff.mp h
    simp [hi]
  | cons n outer ih =>
    cases i with
    | nil => simp at h
    | cons a i =>
      rw [List.cons_append, List.cons_append, rowMajor_cons, rowMajor_cons,
        ih (by simpa using h), List.prod_append]
      ring

/-- Leaving out the last coordinate divides the position by its extent. -/
theorem dropLast_unravel_append (shape : List ℕ) (n k : ℕ) :
    (unravel (shape ++ [n]) k).dropLast = unravel shape (k / n) := by
  induction shape generalizing k with
  | nil => simp [unravel]
  | cons m shape ih =>
    have hne : unravel (shape ++ [n]) (k % (shape ++ [n]).prod) ≠ [] := by
      cases shape <;> simp [unravel]
    rw [List.cons_append, unravel, List.dropLast_cons_of_ne_nil hne, ih, unravel]
    have hprod : (shape ++ [n]).prod = n * shape.prod := by
      rw [List.prod_append, List.prod_singleton, Nat.mul_comm]
    rw [hprod, Nat.div_div_eq_div_mul, Nat.mod_mul_right_div_self]

@[simp] theorem length_unravel (shape : List ℕ) (k : ℕ) :
    (unravel shape k).length = shape.length := by
  induction shape generalizing k with
  | nil => rfl
  | cons n shape ih => rw [unravel, List.length_cons, List.length_cons, ih]

theorem unravel_concat (n : ℕ) (shape : List ℕ) (m k : ℕ) :
    unravel (n :: shape ++ [m]) k = unravel (n :: shape) (k / m) ++ [k % m] := by
  induction shape generalizing n k with
  | nil => simp [unravel]
  | cons n' shape ih =>
    have hprod : (n' :: shape ++ [m]).prod = m * (n' :: shape).prod := by
      rw [List.prod_append, List.prod_singleton, Nat.mul_comm]
    have hdiv : k % (m * (n' :: shape).prod) / m = k / m % (n' :: shape).prod :=
      Nat.mod_mul_right_div_self k m _
    have hmod : k % (m * (n' :: shape).prod) % m = k % m := Nat.mod_mul_right_mod k m _
    rw [List.cons_append, unravel, ih, hprod, hdiv, hmod, ← Nat.div_div_eq_div_mul]
    rfl

/-! ## Extents of one -/

/-- **Extents of one do not count**: those of a family that fall outside a predicate may be left
out, with their coordinates. -/
theorem rowMajor_filter {β : Type*} (p : β → Prop) [DecidablePred p] (l : List β) (S C : β → ℕ)
    (h : ∀ b ∈ l, ¬ p b → S b = 1 ∧ C b = 0) :
    rowMajor ((l.filter fun b => p b).map S) ((l.filter fun b => p b).map C) =
      rowMajor (l.map S) (l.map C) ∧ ((l.filter fun b => p b).map S).prod = (l.map S).prod := by
  induction l with
  | nil => exact ⟨rfl, rfl⟩
  | cons b l ih =>
    obtain ⟨hrow, hprod⟩ := ih fun c hc => h c (List.mem_cons_of_mem _ hc)
    by_cases hb : p b
    · rw [List.filter_cons_of_pos (by simpa using hb)]
      refine ⟨?_, by rw [List.map_cons, List.prod_cons, hprod, List.map_cons, List.prod_cons]⟩
      show C b * ((l.filter fun b => p b).map S).prod + rowMajor _ _ =
        C b * (l.map S).prod + rowMajor _ _
      rw [hrow, hprod]
    · obtain ⟨hS, hC⟩ := h b (by simp) hb
      rw [List.filter_cons_of_neg (by simpa using hb), hrow, hprod]
      refine ⟨?_, by rw [List.map_cons, List.prod_cons, hS, one_mul]⟩
      show _ = C b * (l.map S).prod + rowMajor (l.map S) (l.map C)
      rw [hC]
      omega

/-- Extents of one do not change the volume. -/
theorem prod_filter_ne_one (shape : List ℕ) : (shape.filter (· ≠ 1)).prod = shape.prod := by
  induction shape with
  | nil => rfl
  | cons n shape ih =>
    by_cases h : n = 1
    · rw [List.filter_cons_of_neg (by simpa using h), ih, h, List.prod_cons, Nat.one_mul]
    · rw [List.filter_cons_of_pos (by simpa using h), List.prod_cons, List.prod_cons, ih]

/-- The positions of the extents other than one, counted from `i`. -/
def positions : List ℕ → ℕ → List ℕ
  | [], _ => []
  | n :: shape, i => if n = 1 then positions shape (i + 1) else i :: positions shape (i + 1)

theorem le_of_mem_positions {shape : List ℕ} {i x : ℕ} (h : x ∈ positions shape i) : i ≤ x := by
  induction shape generalizing i with
  | nil => cases h
  | cons n shape ih =>
    rw [positions] at h
    split_ifs at h with hn
    · have := ih h
      omega
    · rcases List.mem_cons.mp h with rfl | h
      · exact le_refl _
      · have := ih h
        omega

theorem length_positions (shape : List ℕ) (i : ℕ) :
    (positions shape i).length = (shape.filter (· ≠ 1)).length := by
  induction shape generalizing i with
  | nil => rfl
  | cons n shape ih =>
    rw [positions]
    split_ifs with hn
    · rw [ih, List.filter_cons_of_neg (by simpa using hn)]
    · rw [List.length_cons, ih, List.filter_cons_of_pos (by simpa using hn), List.length_cons]

/-- The coordinate of a position, and zero at the other positions. -/
def coordinate (ps idx : List ℕ) (x : ℕ) : ℕ := ((ps.zip idx).lookup x).getD 0

/-- **Index vectors by position.**  The coordinates at extents other than one are those in the
shape of these extents, and the others are zero. -/
theorem unravel_eq_coordinates (shape : List ℕ) {k : ℕ} (hk : k < shape.prod) (i : ℕ) :
    unravel shape k = (List.range' i shape.length).map
      (coordinate (positions shape i) (unravel (shape.filter (· ≠ 1)) k)) := by
  induction shape generalizing k i with
  | nil => rfl
  | cons n shape ih =>
    rw [List.prod_cons] at hk
    have hpos : 0 < shape.prod := Nat.pos_of_lt_mul_left hk
    have hmod := Nat.mod_lt k hpos
    rw [unravel, List.length_cons, List.range'_succ, List.map_cons, positions]
    by_cases hn : n = 1
    · subst hn
      have hlt : k < shape.prod := by omega
      rw [if_pos rfl, List.filter_cons_of_neg (by simp), Nat.div_eq_of_lt hlt, Nat.mod_eq_of_lt hlt]
      congr 1
      · rw [coordinate, List.lookup_eq_none_iff.mpr ?_]
        · rfl
        · rintro ⟨x, c⟩ hmem
          have := le_of_mem_positions (List.of_mem_zip hmem).1
          simp only [bne_iff_ne, ne_eq]
          omega
      · exact ih hlt (i + 1)
    · rw [if_neg hn, List.filter_cons_of_pos (by simpa using hn), unravel, prod_filter_ne_one]
      congr 1
      · simp [coordinate]
      · rw [ih hmod (i + 1)]
        refine List.map_congr_left fun x hx => ?_
        have hne : x ≠ i := by
          have := (List.mem_range'_1.mp hx).1
          omega
        have hbeq : (x == i) = false := by simpa using hne
        rw [coordinate, coordinate, List.zip_cons_cons, List.lookup_cons, hbeq]

end MixedRadix
