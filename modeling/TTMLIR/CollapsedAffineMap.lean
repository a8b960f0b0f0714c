/-
# Collapsing tensor dimensions onto a grid

`collapsedLinearAffineMap` of `TTOpsTypes.cpp` builds the linear map of a layout: it starts
from the last dimensions, writes the row-major linearisation of each collapse interval over
the result numbered by the interval's first dimension, and pads with zeros in front.

* `collapsedLinearAffineMap` : the function, `none` where it indexes out of range or
  asserts;
* `Collapses` : what the map is for, a result for each group of dimensions in order;
* `Fits` : the shapes, grids and intervals it can do that for;
* `collapses_iff_fits` : it does so exactly for them.

The results are never shortened, while the first dimension of an interval counts tensor
dimensions, so an interval behind another one is written too far to the right.
-/
import TTMLIR.Affine
import TTMLIR.MixedRadix

open MLIR MixedRadix

namespace CollapsedLinear

/-! ## The translated function -/

/-- A collapse interval with its negative ends counted from the rank. -/
def normalize (rank : ℕ) (interval : ℤ × ℤ) : ℤ × ℤ :=
  (if interval.1 < 0 then interval.1 + rank else interval.1,
    if interval.2 < 0 then interval.2 + rank else interval.2)

/-- `shape[d]`, checked. -/
def extentAt (shape : List ℕ) (d : ℤ) : Option ℕ :=
  if 0 ≤ d then shape[d.toNat]? else none

/-- One round of the inner loop; `multiplier` is a 32 bit integer. -/
def collapseDim (shape : List ℕ) (state : AffineExpr × ℤ) (d : ℤ) :
    Option (AffineExpr × ℤ) := do
  let (collapsed, multiplier) := state
  let extent ← extentAt shape d
  some (((AffineExpr.dim d.toNat).mulConstant multiplier).addFold collapsed,
    Int.bmod (multiplier * extent) (2 ^ 32))

/-- The dimensions of the inner loop, from `stop - 1` down to `start`. -/
def descending (start stop : ℤ) : List ℤ :=
  (List.range (stop - start).toNat).map fun k : ℕ => stop - 1 - k

/-- The body of the loop over the collapse intervals. -/
def collapseInterval (shape : List ℕ) (state : AffineMap × ℤ) (interval : ℤ × ℤ) :
    Option (AffineMap × ℤ) := do
  let (map, minimumDim) := state
  let (start, stop) := normalize shape.length interval
  if start = stop then
    some (map, minimumDim)
  else if 0 < stop then
    let (collapsed, _) ← (descending start stop).foldlM (collapseDim shape)
      (AffineExpr.constant 0, 1)
    let dropped ← map.dropResult start
    let inserted ← dropped.insertResult collapsed start
    some (inserted, min minimumDim start)
  else
    none

/-- One round of the loop that fills in the implicit lower dimensions. -/
def fillDim (map : AffineMap) (d : ℕ) : Option AffineMap := do
  let dropped ← map.dropResult d
  dropped.insertResult (AffineExpr.dim d) d

/-- `collapsedLinearAffineMap`. -/
def collapsedLinearAffineMap (shape gridShape : List ℕ) (collapseIntervals : List (ℤ × ℤ)) :
    Option AffineMap := do
  let (map, minimumDim) ← collapseIntervals.foldlM (collapseInterval shape)
    (AffineMap.getMinorIdentityMap shape.length (min shape.length gridShape.length),
      (shape.length : ℤ))
  let map ← (List.range minimumDim.toNat).foldlM fillDim map
  if (List.range shape.length).all fun d => map.results.any fun e => e.isFunctionOfDim d then
    some { map with
      results := List.replicate (gridShape.length - map.results.length)
        (AffineExpr.constant 0) ++ map.results }
  else
    none

/-! ## What the map is for -/

/-- Collapse intervals of a tensor: dimension ranges inside the rank that do not meet. -/
structure CollapseIntervals (rank : ℕ) : Type where
  intervals : List (ℤ × ℤ)
  bounded : ∀ i ∈ intervals, 0 ≤ (normalize rank i).1 ∧
    (normalize rank i).1 ≤ (normalize rank i).2 ∧ (normalize rank i).2 ≤ rank
  disjoint : intervals.Pairwise fun i j =>
    Disjoint (Finset.Ico (normalize rank i).1 (normalize rank i).2)
      (Finset.Ico (normalize rank j).1 (normalize rank j).2)

/-- A part of a list. -/
def slice (l : List ℕ) (start stop : ℕ) : List ℕ := (l.drop start).take (stop - start)

/-- The non-empty intervals of a list, as dimension ranges. -/
def spansOf (rank : ℕ) (intervals : List (ℤ × ℤ)) : List (ℕ × ℕ) :=
  (intervals.map fun i => ((normalize rank i).1.toNat, (normalize rank i).2.toNat)).filter
    fun s => s.1 ≠ s.2

/-- The dimension ranges that are collapsed. -/
def CollapseIntervals.spans {rank : ℕ} (ci : CollapseIntervals rank) : List (ℕ × ℕ) :=
  spansOf rank ci.intervals

/-- A dimension outside every interval. -/
def CollapseIntervals.Plain {rank : ℕ} (ci : CollapseIntervals rank) (d : ℕ) : Prop :=
  d < rank ∧ ∀ s ∈ ci.spans, d < s.1 ∨ s.2 ≤ d

/-- A group of dimensions that becomes one coordinate: an interval, or a dimension outside
every interval. -/
def CollapseIntervals.Group {rank : ℕ} (ci : CollapseIntervals rank) (start stop : ℕ) : Prop :=
  (start, stop) ∈ ci.spans ∨ (ci.Plain start ∧ stop = start + 1)

/-- The expression is the row-major linearisation of a range of dimensions, and reads all
of them. -/
def Linearises (shape : List ℕ) (start stop : ℕ) (e : AffineExpr) : Prop :=
  (∀ idx : List ℕ, idx.length = shape.length →
    e.eval (idx.map fun (i : ℕ) => (i : ℤ)) []
      = (rowMajor (slice shape start stop) (slice idx start stop) : ℕ)) ∧
    ∀ d, start ≤ d → d < stop → e.isFunctionOfDim d = true

/-- **What collapsing has to do.**  A map is built, distinct indices get distinct
coordinates, and the groups of dimensions appear in order among the results, each as its
row-major linearisation. -/
def Collapses (shape gridShape : List ℕ) (ci : CollapseIntervals shape.length) : Prop :=
  ∃ map, collapsedLinearAffineMap shape gridShape ci.intervals = some map ∧
    Set.InjOn (fun idx : List ℕ => map.eval (idx.map fun (i : ℕ) => (i : ℤ)) [])
      {idx | InShape idx shape} ∧
    ∃ position : ℕ → ℕ, StrictMonoOn position {d | ∃ stop, ci.Group d stop} ∧
      ∀ start stop, ci.Group start stop →
        ∃ e, map.results[position start]? = some e ∧ Linearises shape start stop e

/-! ## When it can be done -/

/-- The first collapsed dimension, or the rank if nothing is collapsed. -/
def CollapseIntervals.minimumDim {rank : ℕ} (ci : CollapseIntervals rank) : ℕ :=
  (ci.spans.map Prod.fst).foldl min rank

/-- With `shift` dimensions more than grid dimensions, the result numbered `d - shift` still
is dimension `d` : it lies behind the first collapsed one, no interval begins there, and
every interval that begins in between is a single dimension that is shifted as well. -/
inductive Shifts {rank : ℕ} (ci : CollapseIntervals rank) (shift : ℕ) : ℕ → Prop where
  | intro (d : ℕ) (behind : ci.minimumDim + shift < d)
      (free : ∀ s ∈ ci.spans, s.1 + shift ≠ d)
      (single : ∀ s ∈ ci.spans, d < s.1 + shift → s.1 < d → s.2 = s.1 + 1)
      (between : ∀ s ∈ ci.spans, d < s.1 + shift → s.1 < d → Shifts ci shift s.1) :
      Shifts ci shift d

theorem Shifts.inv {rank : ℕ} {ci : CollapseIntervals rank} {shift d : ℕ} (h : Shifts ci shift d) :
    ci.minimumDim + shift < d ∧ (∀ s ∈ ci.spans, s.1 + shift ≠ d) ∧
      ∀ s ∈ ci.spans, d < s.1 + shift → s.1 < d → s.2 = s.1 + 1 ∧ Shifts ci shift s.1 := by
  cases h with
  | intro d behind free single between =>
    exact ⟨behind, free, fun s hs h₁ h₂ => ⟨single s hs h₁ h₂, between s hs h₁ h₂⟩⟩

/-- **The inputs that collapse.**  Every interval begins below the number of grid
dimensions, the dimensions behind the first interval keep a result of their own, and the
strides of every interval are positive 32 bit integers. -/
structure Fits (shape gridShape : List ℕ) (ci : CollapseIntervals shape.length) : Prop where
  starts : ∀ s ∈ ci.spans, s.1 < gridShape.length
  rank_le : ci.spans = [] → shape.length ≤ gridShape.length
  shifts : ∀ d, ci.Plain d → ci.minimumDim < d →
    Shifts ci (shape.length - gridShape.length) d
  stride_pos : ∀ s ∈ ci.spans, 0 < (slice shape (s.1 + 1) s.2).prod
  stride_lt : ∀ s ∈ ci.spans, (slice shape (s.1 + 1) s.2).prod < 2 ^ 31

/-! ## The linearisation of one interval -/

/-- What a product becomes in a 32 bit integer. -/
def wrap (p : ℕ) : ℤ := Int.bmod p (2 ^ 32)

variable {p : ℕ}

theorem wrap_of_lt (h : p < 2 ^ 31) : wrap p = p := Int.bmod_eq_of_le (by omega) (by omega)

theorem wrap_lt (p : ℕ) : wrap p < 2 ^ 31 := Int.bmod_lt (by norm_num)

/-- The expression the inner loop builds for `len` dimensions from `start` on. -/
def linearExpr (shape : List ℕ) : ℕ → ℕ → AffineExpr
  | _, 0 => AffineExpr.constant 0
  | start, len + 1 =>
    ((AffineExpr.dim start).mulConstant (wrap ((shape.drop (start + 1)).take len).prod)).addFold
      (linearExpr shape (start + 1) len)

theorem take_drop_succ (shape : List ℕ) (start len : ℕ) (h : start < shape.length) :
    (shape.drop start).take (len + 1) = shape[start] :: (shape.drop (start + 1)).take len := by
  rw [List.drop_eq_getElem_cons h, List.take_succ_cons]

theorem descending_succ (start len : ℕ) : descending start (start + len + 1 : ℕ)
      = descending (start + 1 : ℕ) (start + len + 1 : ℕ) ++ [(start : ℤ)] := by
  have h₁ : (((start + len + 1 : ℕ) : ℤ) - start).toNat = len + 1 := by omega
  have h₂ : (((start + len + 1 : ℕ) : ℤ) - (start + 1 : ℕ)).toNat = len := by omega
  rw [descending, descending, h₁, h₂, List.range_succ, List.map_append, List.map_singleton]
  congr 2
  push_cast
  ring

/-- **The inner loop.**  It builds the linear expression and multiplies the extents. -/
theorem foldlM_collapseDim (shape : List ℕ) (len start : ℕ) (h : start + len ≤ shape.length) :
    (descending start (start + len : ℕ)).foldlM (collapseDim shape) (AffineExpr.constant 0, 1)
      = some (linearExpr shape start len, wrap ((shape.drop start).take len).prod) := by
  induction len generalizing start with
  | zero =>
    have hone : wrap 1 = 1 := wrap_of_lt (by norm_num)
    simp [descending, linearExpr, hone]
  | succ len ih =>
    have hlt : start < shape.length := by omega
    have hstep := ih (start + 1) (by omega)
    rw [show start + 1 + len = start + len + 1 by omega] at hstep
    rw [show start + (len + 1) = start + len + 1 by omega, descending_succ,
      List.foldlM_append, hstep]
    simp only [Option.bind_eq_bind, Option.bind_some, Option.pure_def, List.foldlM_cons,
      List.foldlM_nil, collapseDim, extentAt, Int.natCast_nonneg, if_true, Int.toNat_natCast,
      List.getElem?_eq_getElem hlt, linearExpr, take_drop_succ shape start len hlt,
      List.prod_cons]
    have hmul : (wrap ((shape.drop (start + 1)).take len).prod * shape[start]).bmod (2 ^ 32)
        = wrap (shape[start] * ((shape.drop (start + 1)).take len).prod) := by
      unfold wrap
      rw [Int.bmod_mul_bmod, mul_comm, Nat.cast_mul]
    rw [hmul]

/-- The dimensions that occur in the linear expression. -/
theorem isFunctionOfDim_linearExpr (shape : List ℕ) (d len start : ℕ) :
    (linearExpr shape start len).isFunctionOfDim d = true ↔ start ≤ d ∧ d < start + len ∧
        wrap ((shape.drop (d + 1)).take (start + len - (d + 1))).prod ≠ 0 := by
  induction len generalizing start with
  | zero =>
    simp only [linearExpr, AffineExpr.isFunctionOfDim, Bool.false_eq_true, false_iff]
    omega
  | succ len ih =>
    rw [linearExpr, AffineExpr.isFunctionOfDim_addFold, AffineExpr.isFunctionOfDim_mulConstant,
      Bool.or_eq_true, ih, Bool.and_eq_true, decide_eq_true_eq]
    simp only [AffineExpr.isFunctionOfDim, decide_eq_true_eq]
    rw [show start + (len + 1) - (d + 1) = start + 1 + len - (d + 1) by omega]
    constructor
    · rintro (⟨rfl, h⟩ | ⟨h₁, h₂, h₃⟩)
      · refine ⟨le_refl _, by omega, ?_⟩
        rwa [show start + 1 + len - (start + 1) = len by omega]
      · exact ⟨by omega, by omega, h₃⟩
    · rintro ⟨h₁, h₂, h₃⟩
      by_cases hd : start = d
      · subst hd
        rw [show start + 1 + len - (start + 1) = len by omega] at h₃
        exact Or.inl ⟨rfl, h₃⟩
      · exact Or.inr ⟨by omega, by omega, h₃⟩

theorem eval_linearExpr_eq_zero (shape : List ℕ) (dims : List ℤ) (len start : ℕ)
    (h : ∀ d, start ≤ d → d < start + len → dims.getD d 0 = 0) :
    (linearExpr shape start len).eval dims [] = 0 := by
  induction len generalizing start with
  | zero => rfl
  | succ len ih =>
    rw [linearExpr, AffineExpr.eval_addFold, AffineExpr.eval_mulConstant, AffineExpr.eval_dim,
      h start (le_refl _) (by omega), zero_mul,
      ih (start + 1) fun d h₁ h₂ => h d (by omega) (by omega), add_zero]

/-- **The linear expression is the row-major offset** while the strides are positive and
fit into 32 bits. -/
theorem eval_linearExpr (shape idx : List ℕ) (hidx : idx.length = shape.length)
    (len start : ℕ) (hlen : start + len ≤ shape.length)
    (hpos : 0 < ((shape.drop (start + 1)).take (len - 1)).prod)
    (hlt : ((shape.drop (start + 1)).take (len - 1)).prod < 2 ^ 31) :
    (linearExpr shape start len).eval (idx.map fun (i : ℕ) => (i : ℤ)) []
      = (rowMajor ((shape.drop start).take len) ((idx.drop start).take len) : ℕ) := by
  induction len generalizing start with
  | zero => simp [linearExpr]
  | succ len ih =>
    have hs : start < shape.length := by omega
    have hi : start < idx.length := by omega
    rw [Nat.add_sub_cancel] at hpos hlt
    have hrest : (linearExpr shape (start + 1) len).eval (idx.map fun (i : ℕ) => (i : ℤ)) []
        = (rowMajor ((shape.drop (start + 1)).take len) ((idx.drop (start + 1)).take len) : ℕ) := by
      cases len with
      | zero => simp [linearExpr]
      | succ k =>
        have hs' : start + 1 < shape.length := by omega
        rw [take_drop_succ shape (start + 1) k hs', List.prod_cons] at hpos hlt
        have hone : 1 ≤ shape[start + 1] := Nat.pos_of_mul_pos_right hpos
        refine ih (start + 1) (by omega) ?_ ?_
        · exact Nat.pos_of_mul_pos_left hpos
        · exact lt_of_le_of_lt (Nat.le_mul_of_pos_left _ hone) hlt
    rw [linearExpr, AffineExpr.eval_addFold, AffineExpr.eval_mulConstant, AffineExpr.eval_dim,
      hrest, take_drop_succ shape start len hs, take_drop_succ idx start len hi, rowMajor_cons,
      wrap_of_lt hlt]
    simp [List.getD, hi]

/-! ## The results of the map -/

/-- Write the linearisation of every span over the result numbered by its first
dimension. -/
def writeSpans (shape : List ℕ) (spans : List (ℕ × ℕ)) (results : List AffineExpr) :
    List AffineExpr :=
  spans.foldl (fun l s => l.set s.1 (linearExpr shape s.1 (s.2 - s.1))) results

/-- Write the implicit lower dimensions. -/
def writeDims (n : ℕ) (results : List AffineExpr) : List AffineExpr :=
  (List.range n).foldl (fun l d => l.set d (AffineExpr.dim d)) results

theorem writeSpans_cons (shape : List ℕ) (s : ℕ × ℕ) (spans : List (ℕ × ℕ))
    (results : List AffineExpr) :
    writeSpans shape (s :: spans) results
      = writeSpans shape spans (results.set s.1 (linearExpr shape s.1 (s.2 - s.1))) := rfl

theorem writeSpans_append (shape : List ℕ) (front back : List (ℕ × ℕ)) (results : List AffineExpr) :
    writeSpans shape (front ++ back) results
      = writeSpans shape back (writeSpans shape front results) := by
  rw [writeSpans, List.foldl_append]
  rfl

theorem writeDims_succ (n : ℕ) (results : List AffineExpr) :
    writeDims (n + 1) results = (writeDims n results).set n (AffineExpr.dim n) := by
  rw [writeDims, List.range_succ, List.foldl_append]
  rfl

@[simp] theorem length_writeSpans (shape : List ℕ) (spans : List (ℕ × ℕ))
    (results : List AffineExpr) : (writeSpans shape spans results).length = results.length := by
  induction spans generalizing results with
  | nil => rfl
  | cons s spans ih => rw [writeSpans_cons, ih, List.length_set]

@[simp] theorem length_writeDims (n : ℕ) (results : List AffineExpr) :
    (writeDims n results).length = results.length := by
  induction n with
  | zero => rfl
  | succ n ih => rw [writeDims_succ, List.length_set, ih]

theorem writeSpans_getElem?_of_free (shape : List ℕ) (p : ℕ) {spans : List (ℕ × ℕ)}
    (h : ∀ s ∈ spans, s.1 ≠ p) (results : List AffineExpr) :
    (writeSpans shape spans results)[p]? = results[p]? := by
  induction spans generalizing results with
  | nil => rfl
  | cons s spans ih =>
    refine (ih (fun t ht => h t (by simp [ht])) _).trans ?_
    exact List.getElem?_set_ne (h s (by simp))

variable {s : ℕ × ℕ}

/-- The result at the beginning of a span is its linearisation. -/
theorem writeSpans_getElem?_of_mem (shape : List ℕ) {spans : List (ℕ × ℕ)}
    (hnodup : (spans.map Prod.fst).Nodup) (hs : s ∈ spans)
    (results : List AffineExpr) (hlt : s.1 < results.length) :
    (writeSpans shape spans results)[s.1]? = some (linearExpr shape s.1 (s.2 - s.1)) := by
  induction spans generalizing results with
  | nil => simp at hs
  | cons t spans ih =>
    rw [List.map_cons, List.nodup_cons] at hnodup
    rcases List.mem_cons.mp hs with rfl | hs
    · have hfree : ∀ t ∈ spans, t.1 ≠ s.1 := fun t ht heq => hnodup.1 (heq ▸ List.mem_map_of_mem ht)
      rw [writeSpans_cons, writeSpans_getElem?_of_free shape s.1 hfree, List.getElem?_set_self hlt]
    · exact ih hnodup.2 hs _ (by simpa using hlt)

/-- The results after the implicit lower dimensions are written. -/
theorem writeDims_getElem? (n : ℕ) (results : List AffineExpr) (p : ℕ) (hp : p < results.length) :
    (writeDims n results)[p]? = if p < n then some (AffineExpr.dim p) else results[p]? := by
  induction n with
  | zero => rfl
  | succ n ih =>
    rw [writeDims_succ]
    by_cases h : n = p
    · subst h
      rw [List.getElem?_set_self (by simpa using hp), if_pos (Nat.lt_succ_self n)]
    · rw [List.getElem?_set_ne h, ih]
      by_cases hlt : p < n
      · rw [if_pos hlt, if_pos (by omega)]
      · rw [if_neg hlt, if_neg (by omega)]

/-- One round of the interval loop. -/
theorem collapseInterval_eq (shape : List ℕ) (map : AffineMap) (m : ℕ) (i : ℤ × ℤ)
    (h₀ : 0 ≤ (normalize shape.length i).1)
    (h₁ : (normalize shape.length i).1 ≤ (normalize shape.length i).2)
    (h₂ : (normalize shape.length i).2 ≤ shape.length) :
    collapseInterval shape (map, (m : ℤ)) i
      = if ∀ s ∈ spansOf shape.length [i], s.1 < map.results.length then
          some ({ map with results := writeSpans shape (spansOf shape.length [i]) map.results },
            ((((spansOf shape.length [i]).map Prod.fst).foldl min m : ℕ) : ℤ))
        else none := by
  obtain ⟨start, hstart⟩ := Int.eq_ofNat_of_zero_le h₀
  obtain ⟨stop, hstop⟩ := Int.eq_ofNat_of_zero_le (h₀.trans h₁)
  rw [hstart, hstop] at h₁
  rw [hstop] at h₂
  have hspans : spansOf shape.length [i] = if start ≠ stop then [(start, stop)] else [] := by
    rw [spansOf, List.map_singleton, hstart, hstop]
    by_cases h : start = stop
    · simp [h]
    · simp [h]
  have hnorm : normalize shape.length i = ((start : ℤ), (stop : ℤ)) := Prod.ext hstart hstop
  by_cases h : start = stop
  · rw [hspans, if_neg (not_not.mpr h), if_pos (by simp)]
    simp [collapseInterval, hnorm, h, writeSpans]
  · obtain ⟨len, rfl⟩ : ∃ len, stop = start + len := ⟨stop - start, by omega⟩
    have hpos : 0 < len := by omega
    have hloop := foldlM_collapseDim shape len start (by omega)
    have hset := AffineMap.dropResult_bind_insertResult map (linearExpr shape start len) start
    rw [hspans, if_pos h]
    have hne : ¬ (start : ℤ) = ((start + len : ℕ) : ℤ) := by omega
    have hgt : (0 : ℤ) < ((start + len : ℕ) : ℤ) := by omega
    simp only [collapseInterval, hnorm, hne, if_false, hgt, if_true, hloop, Option.bind_eq_bind,
      Option.bind_some, List.mem_singleton, forall_eq, List.map_singleton, List.foldl_cons,
      List.foldl_nil, writeSpans, Nat.add_sub_cancel_left]
    rw [← Option.bind_assoc, hset]
    by_cases hlt : start < map.results.length
    · simp [hlt]
    · simp [hlt]

theorem spansOf_cons (rank : ℕ) (i : ℤ × ℤ) (rest : List (ℤ × ℤ)) :
    spansOf rank (i :: rest) = spansOf rank [i] ++ spansOf rank rest := by
  rw [spansOf, spansOf, spansOf, ← List.filter_append, ← List.map_append, List.singleton_append]

/-- **The interval loop.**  It succeeds when every span begins at an existing result. -/
theorem foldlM_collapseInterval (shape : List ℕ) (intervals : List (ℤ × ℤ))
    (hb : ∀ i ∈ intervals, 0 ≤ (normalize shape.length i).1 ∧
      (normalize shape.length i).1 ≤ (normalize shape.length i).2 ∧
      (normalize shape.length i).2 ≤ shape.length) (map : AffineMap) (m : ℕ) :
    intervals.foldlM (collapseInterval shape) (map, (m : ℤ))
      = if ∀ s ∈ spansOf shape.length intervals, s.1 < map.results.length then
          some ({ map with
              results := writeSpans shape (spansOf shape.length intervals) map.results },
            ((((spansOf shape.length intervals).map Prod.fst).foldl min m : ℕ) : ℤ))
        else none := by
  induction intervals generalizing map m with
  | nil => simp [spansOf, writeSpans]
  | cons i rest ih =>
    obtain ⟨h₀, h₁, h₂⟩ := hb i (by simp)
    rw [spansOf_cons shape.length i rest, List.foldlM_cons,
      collapseInterval_eq shape map m i h₀ h₁ h₂]
    by_cases hi : ∀ s ∈ spansOf shape.length [i], s.1 < map.results.length
    · rw [if_pos hi]
      simp only [Option.bind_eq_bind, Option.bind_some]
      rw [ih fun j hj => hb j (by simp [hj])]
      have hiff : (∀ s ∈ spansOf shape.length [i] ++ spansOf shape.length rest,
          s.1 < map.results.length) ↔
            ∀ s ∈ spansOf shape.length rest, s.1 < map.results.length := by
        constructor
        · exact fun h s hs => h s (by simp [hs])
        · intro h s hs
          rcases List.mem_append.mp hs with hs | hs
          · exact hi s hs
          · exact h s hs
      simp only [length_writeSpans, hiff, List.map_append, List.foldl_append, writeSpans_append]
    · have hneg : ¬ ∀ s ∈ spansOf shape.length [i] ++ spansOf shape.length rest,
          s.1 < map.results.length := fun h => hi fun s hs => h s (by simp [hs])
      rw [if_neg hi, if_neg hneg]
      rfl

/-- The loop that fills in the implicit lower dimensions. -/
theorem foldlM_fillDim (n : ℕ) (map : AffineMap) : (List.range n).foldlM fillDim map
      = if n ≤ map.results.length then some { map with results := writeDims n map.results }
        else none := by
  induction n with
  | zero => simp [writeDims]
  | succ n ih =>
    rw [List.range_succ, List.foldlM_append, ih]
    by_cases h : n ≤ map.results.length
    · rw [if_pos h]
      simp only [Option.bind_eq_bind, Option.bind_some, List.foldlM_cons, List.foldlM_nil,
        Option.pure_def, fillDim]
      rw [AffineMap.dropResult_bind_insertResult]
      by_cases hlt : n < map.results.length
      · simp [hlt, writeDims_succ]
      · simp [hlt]
    · rw [if_neg h, if_neg (by omega)]
      rfl

/-! ## The spans -/

namespace CollapseIntervals

variable {rank : ℕ} (ci : CollapseIntervals rank)

theorem span_bounds (hs : s ∈ ci.spans) : s.1 < s.2 ∧ s.2 ≤ rank := by
  obtain ⟨hmem, hne⟩ := List.mem_filter.mp hs
  obtain ⟨i, hi, rfl⟩ := List.mem_map.mp hmem
  obtain ⟨h₀, h₁, h₂⟩ := ci.bounded i hi
  simp only [ne_eq, decide_eq_true_eq] at hne
  simp only
  omega

/-- Spans at different places do not meet. -/
theorem spans_pairwise : ci.spans.Pairwise fun s t => s.2 ≤ t.1 ∨ t.2 ≤ s.1 := by
  have hraw : (ci.intervals.map fun i =>
      ((normalize rank i).1.toNat, (normalize rank i).2.toNat)).Pairwise
        fun s t => s.1 ≠ s.2 → t.1 ≠ t.2 → s.2 ≤ t.1 ∨ t.2 ≤ s.1 := by
    rw [List.pairwise_map]
    refine ci.disjoint.imp_of_mem fun {i j} hi hj hdisj hs ht => ?_
    obtain ⟨hi₀, hi₁, hi₂⟩ := ci.bounded i hi
    obtain ⟨hj₀, hj₁, hj₂⟩ := ci.bounded j hj
    simp only at hs ht ⊢
    by_contra hmeet
    -- the later of the two beginnings lies in both ranges
    have hin : max (normalize rank i).1 (normalize rank j).1
        ∈ Finset.Ico (normalize rank i).1 (normalize rank i).2 :=
      Finset.mem_Ico.mpr (by omega)
    exact Finset.disjoint_left.mp hdisj hin (Finset.mem_Ico.mpr (by omega))
  refine (hraw.filter _).imp_of_mem fun {s t} hs ht h => ?_
  exact h (by simpa using (List.mem_filter.mp hs).2) (by simpa using (List.mem_filter.mp ht).2)

theorem span_eq_of_mem {s t : ℕ × ℕ} (hs : s ∈ ci.spans) (ht : t ∈ ci.spans) {d : ℕ}
    (hsd : s.1 ≤ d ∧ d < s.2) (htd : t.1 ≤ d ∧ d < t.2) : s = t := by
  by_contra hne
  have hsymm : Std.Symm fun s t : ℕ × ℕ => s.2 ≤ t.1 ∨ t.2 ≤ s.1 := ⟨fun _ _ h => h.symm⟩
  have hsep := ci.spans_pairwise.forall hs ht hne
  omega

theorem nodup_starts : (ci.spans.map Prod.fst).Nodup := by
  rw [List.Nodup, List.pairwise_map]
  refine ci.spans_pairwise.imp_of_mem fun {s t} hs ht hsep => ?_
  have := ci.span_bounds hs
  have := ci.span_bounds ht
  omega

theorem foldl_min_le (l : List ℕ) (m : ℕ) : l.foldl min m ≤ m ∧ ∀ x ∈ l, l.foldl min m ≤ x := by
  induction l generalizing m with
  | nil => simp
  | cons a l ih =>
    obtain ⟨h₁, h₂⟩ := ih (min m a)
    rw [List.foldl_cons]
    refine ⟨h₁.trans (min_le_left _ _), fun x hx => ?_⟩
    rcases List.mem_cons.mp hx with rfl | hx
    · exact h₁.trans (min_le_right _ _)
    · exact h₂ x hx

theorem foldl_min_mem (l : List ℕ) (m : ℕ) : l.foldl min m = m ∨ l.foldl min m ∈ l := by
  induction l generalizing m with
  | nil => simp
  | cons a l ih =>
    rw [List.foldl_cons]
    rcases ih (min m a) with h | h
    · rcases min_choice m a with h' | h'
      · exact Or.inl (h.trans h')
      · exact Or.inr (by rw [h, h']; simp)
    · exact Or.inr (List.mem_cons_of_mem _ h)

theorem minimumDim_le : ci.minimumDim ≤ rank := (foldl_min_le _ _).1

theorem minimumDim_le_start (hs : s ∈ ci.spans) : ci.minimumDim ≤ s.1 :=
  (foldl_min_le _ _).2 _ (List.mem_map_of_mem hs)

theorem minimumDim_eq : ci.minimumDim = rank ∨ ∃ s ∈ ci.spans, s.1 = ci.minimumDim := by
  rcases foldl_min_mem (ci.spans.map Prod.fst) rank with h | h
  · exact Or.inl h
  · obtain ⟨s, hs, heq⟩ := List.mem_map.mp h
    exact Or.inr ⟨s, hs, heq⟩

theorem plain_or_mem_span {d : ℕ} (hd : d < rank) :
    ci.Plain d ∨ ∃ s ∈ ci.spans, s.1 ≤ d ∧ d < s.2 := by
  by_cases h : ∃ s ∈ ci.spans, s.1 ≤ d ∧ d < s.2
  · exact Or.inr h
  · refine Or.inl ⟨hd, fun s hs => ?_⟩
    by_contra hmeet
    exact h ⟨s, hs, by omega, by omega⟩

theorem group_bounds {start stop : ℕ} (h : ci.Group start stop) : start < stop ∧ stop ≤ rank := by
  rcases h with hspan | ⟨hplain, rfl⟩
  · exact ci.span_bounds hspan
  · exact ⟨by omega, hplain.1⟩

theorem exists_group {d : ℕ} (hd : d < rank) :
    ∃ start stop, ci.Group start stop ∧ start ≤ d ∧ d < stop := by
  rcases ci.plain_or_mem_span hd with h | ⟨s, hs, h₁, h₂⟩
  · exact ⟨d, d + 1, Or.inr ⟨h, rfl⟩, le_refl d, Nat.lt_succ_self d⟩
  · exact ⟨s.1, s.2, Or.inl hs, h₁, h₂⟩

end CollapseIntervals

/-! ## The result list -/

section Results

variable (shape gridShape : List ℕ) (ci : CollapseIntervals shape.length)

/-- The results before padding. -/
def body : List AffineExpr :=
  writeDims ci.minimumDim (writeSpans shape ci.spans
    (AffineMap.getMinorIdentityMap shape.length (min shape.length gridShape.length)).results)

@[simp] theorem length_body : (body shape gridShape ci).length
    = min shape.length gridShape.length := by
  simp [body, AffineMap.getMinorIdentityMap]

/-- **The function.**  It succeeds when every span begins at a result, the implicit lower
dimensions have results, and every dimension occurs. -/
theorem collapsedLinearAffineMap_eq : collapsedLinearAffineMap shape gridShape ci.intervals
      = if (∀ s ∈ ci.spans, s.1 < min shape.length gridShape.length) ∧
            ci.minimumDim ≤ min shape.length gridShape.length ∧
            ∀ d < shape.length, ∃ e ∈ body shape gridShape ci, e.isFunctionOfDim d = true then
          some ⟨shape.length, 0, List.replicate (gridShape.length
            - min shape.length gridShape.length) (AffineExpr.constant 0) ++ body shape gridShape ci⟩
        else none := by
  have hlen : (AffineMap.getMinorIdentityMap shape.length
      (min shape.length gridShape.length)).results.length
        = min shape.length gridShape.length := by simp [AffineMap.getMinorIdentityMap]
  have hspans : spansOf shape.length ci.intervals = ci.spans := rfl
  rw [collapsedLinearAffineMap, foldlM_collapseInterval shape ci.intervals ci.bounded, hlen, hspans]
  simp only [Option.bind_eq_bind]
  by_cases hstarts : ∀ s ∈ ci.spans, s.1 < min shape.length gridShape.length
  · rw [if_pos hstarts, Option.bind_some]
    simp only [Int.toNat_natCast]
    rw [foldlM_fillDim]
    simp only [length_writeSpans, hlen]
    change (if ci.minimumDim ≤ _
      then some (⟨shape.length, 0, body shape gridShape ci⟩ : MLIR.AffineMap) else none).bind _ = _
    by_cases hmin : ci.minimumDim ≤ min shape.length gridShape.length
    · rw [if_pos hmin, Option.bind_some]
      simp only [length_body, List.all_eq_true, List.mem_range, List.any_eq_true]
      by_cases hall : ∀ d < shape.length, ∃ e ∈ body shape gridShape ci, e.isFunctionOfDim d = true
      · rw [if_pos hall, if_pos ⟨hstarts, hmin, hall⟩]
      · rw [if_neg hall, if_neg fun h => hall h.2.2]
    · rw [if_neg hmin, if_neg fun h => hmin h.2.1]
      rfl
  · rw [if_neg hstarts, if_neg fun h => hstarts h.1]
    rfl

theorem body_low (hp : p < min shape.length gridShape.length)
    (h : p < ci.minimumDim) : (body shape gridShape ci)[p]? = some (AffineExpr.dim p) := by
  rw [body, writeDims_getElem? _ _ _ (by simpa [AffineMap.getMinorIdentityMap] using hp), if_pos h]

theorem body_span (hs : s ∈ ci.spans) (hlt : s.1 < min shape.length gridShape.length) :
    (body shape gridShape ci)[s.1]? = some (linearExpr shape s.1 (s.2 - s.1)) := by
  have hmin := ci.minimumDim_le_start hs
  rw [body, writeDims_getElem? _ _ _ (by simpa [AffineMap.getMinorIdentityMap] using hlt),
    if_neg (by omega)]
  exact writeSpans_getElem?_of_mem shape ci.nodup_starts hs _
    (by simpa [AffineMap.getMinorIdentityMap] using hlt)

theorem body_free (hp : p < min shape.length gridShape.length)
    (h : ci.minimumDim ≤ p) (hfree : ∀ s ∈ ci.spans, s.1 ≠ p) :
    (body shape gridShape ci)[p]?
      = some (AffineExpr.dim (shape.length - min shape.length gridShape.length + p)) := by
  rw [body, writeDims_getElem? _ _ _ (by simpa [AffineMap.getMinorIdentityMap] using hp),
    if_neg (by omega), writeSpans_getElem?_of_free shape p hfree]
  simp [AffineMap.getMinorIdentityMap, hp]

/-- Which dimensions a result reads. -/
theorem body_reads {p d : ℕ} {e : AffineExpr} (hget : (body shape gridShape ci)[p]? = some e)
    (hread : e.isFunctionOfDim d = true) :
    (p < ci.minimumDim ∧ d = p) ∨
      (∃ s ∈ ci.spans, s.1 = p ∧ s.1 ≤ d ∧ d < s.2 ∧ e = linearExpr shape s.1 (s.2 - s.1)) ∨
      (ci.minimumDim ≤ p ∧ (∀ s ∈ ci.spans, s.1 ≠ p) ∧
        d = p + (shape.length - gridShape.length)) := by
  have hp : p < min shape.length gridShape.length := by
    simpa using (List.getElem?_eq_some_iff.mp hget).1
  by_cases hlow : p < ci.minimumDim
  · rw [body_low shape gridShape ci hp hlow, Option.some_inj] at hget
    subst hget
    exact Or.inl ⟨hlow, by simpa [AffineExpr.isFunctionOfDim, eq_comm] using hread⟩
  · by_cases hspan : ∃ s ∈ ci.spans, s.1 = p
    · obtain ⟨s, hs, rfl⟩ := hspan
      rw [body_span shape gridShape ci hs hp, Option.some_inj] at hget
      subst hget
      obtain ⟨h₁, h₂, -⟩ := (isFunctionOfDim_linearExpr ..).mp hread
      exact Or.inr (Or.inl ⟨s, hs, rfl, h₁, by omega, rfl⟩)
    · have hfree : ∀ s ∈ ci.spans, s.1 ≠ p := fun s hs h => hspan ⟨s, hs, h⟩
      rw [body_free shape gridShape ci hp (by omega) hfree, Option.some_inj] at hget
      subst hget
      simp only [AffineExpr.isFunctionOfDim, decide_eq_true_eq] at hread
      exact Or.inr (Or.inr ⟨by omega, hfree, by omega⟩)

theorem results_reads {k q d : ℕ} {e : AffineExpr}
    (hget : (List.replicate k (AffineExpr.constant 0) ++ body shape gridShape ci)[q]? = some e)
    (hread : e.isFunctionOfDim d = true) :
    ∃ p, q = k + p ∧ (body shape gridShape ci)[p]? = some e := by
  by_cases hq : q < k
  · rw [List.getElem?_append_left (by simpa using hq), List.getElem?_replicate, if_pos hq,
      Option.some_inj] at hget
    subst hget
    simp [AffineExpr.isFunctionOfDim] at hread
  · rw [List.getElem?_append_right (by simpa using hq), List.length_replicate] at hget
    exact ⟨q - k, by omega, hget⟩

end Results

/-! ## Necessity -/

section Necessity

variable {shape gridShape : List ℕ} {ci : CollapseIntervals shape.length}

theorem minimumDim_lt_of_free (hp : p < shape.length) (h : ci.minimumDim ≤ p)
    (hfree : ∀ s ∈ ci.spans, s.1 ≠ p) : ci.minimumDim < p := by
  rcases ci.minimumDim_eq with hrank | ⟨s, hs, heq⟩
  · omega
  · have := hfree s hs
    omega

/-- A span of several dimensions is read by the result at its beginning. -/
theorem eq_start_of_reads {e : AffineExpr} (hs : s ∈ ci.spans)
    (hget : (body shape gridShape ci)[p]? = some e)
    (hread : ∀ d, s.1 ≤ d → d < s.2 → e.isFunctionOfDim d = true) (hlong : s.1 + 1 < s.2) :
    p = s.1 ∧ e = linearExpr shape s.1 (s.2 - s.1) := by
  have h₀ := body_reads shape gridShape ci hget (hread s.1 (le_refl _) (by omega))
  have h₁ := body_reads shape gridShape ci hget (hread (s.1 + 1) (by omega) hlong)
  rcases h₀ with ⟨hlow, hd⟩ | ⟨t, ht, rfl, htd, htd', rfl⟩ | ⟨hle, hfree, hd⟩
  · rcases h₁ with ⟨-, hd'⟩ | ⟨t, ht, rfl, -⟩ | ⟨hle, -, -⟩
    · omega
    · exact absurd (ci.minimumDim_le_start ht) (by omega)
    · omega
  · obtain rfl := ci.span_eq_of_mem ht hs ⟨htd, htd'⟩ ⟨le_refl _, by omega⟩
    exact ⟨rfl, rfl⟩
  · rcases h₁ with ⟨hlow, -⟩ | ⟨t, ht, rfl, -⟩ | ⟨-, -, hd'⟩
    · omega
    · exact absurd rfl (hfree t ht)
    · omega

/-- The strides of a span that is linearised are positive 32 bit integers. -/
theorem stride_of_linearises (hs : s ∈ ci.spans)
    (hlin : Linearises shape s.1 s.2 (linearExpr shape s.1 (s.2 - s.1))) :
    0 < (slice shape (s.1 + 1) s.2).prod ∧ (slice shape (s.1 + 1) s.2).prod < 2 ^ 31 := by
  obtain ⟨hlt, hle⟩ := ci.span_bounds hs
  obtain ⟨len, hlen⟩ : ∃ len, s.2 - s.1 = len + 1 := ⟨s.2 - s.1 - 1, by omega⟩
  have hrest : s.2 - (s.1 + 1) = len := by omega
  -- the index vector that counts the stride of the first dimension
  set idx : List ℕ := (List.replicate shape.length 0).set s.1 1 with hidx
  have hidxlen : idx.length = shape.length := by simp [hidx]
  have hhead : (idx.drop s.1).take (len + 1) = 1 :: List.replicate len 0 := by
    have hdrop : (idx.drop (s.1 + 1)).take len = List.replicate len 0 := by
      rw [hidx, List.drop_set_of_lt (by omega), List.drop_replicate, List.take_replicate]
      congr 1
      omega
    rw [take_drop_succ idx s.1 len (by omega), hdrop]
    simp [hidx]
  have heval := hlin.1 idx hidxlen
  have hzero : (linearExpr shape (s.1 + 1) len).eval (idx.map fun (i : ℕ) => (i : ℤ)) [] = 0 := by
    refine eval_linearExpr_eq_zero shape _ len (s.1 + 1) fun d h₁ h₂ => ?_
    have hd : d < shape.length := by omega
    have hne : s.1 ≠ d := by omega
    simp [hidx, List.getD, hd, hne]
  have hone : (idx.map fun (i : ℕ) => (i : ℤ)).getD s.1 0 = 1 := by
    have hd : s.1 < shape.length := by omega
    simp [hidx, List.getD, hd]
  have hreads := (isFunctionOfDim_linearExpr ..).mp (hlin.2 s.1 (le_refl _) hlt)
  rw [slice, slice, hlen, hhead, take_drop_succ shape s.1 len (by omega), rowMajor_cons,
    rowMajor_replicate_zero, linearExpr, AffineExpr.eval_addFold, AffineExpr.eval_mulConstant,
    AffineExpr.eval_dim, hone, hzero] at heval
  have hwrap : wrap ((shape.drop (s.1 + 1)).take len).prod
      = (((shape.drop (s.1 + 1)).take len).prod : ℕ) := by
    simpa using heval
  rw [slice, hrest]
  constructor
  · have hne := hreads.2.2
    rw [show s.1 + (s.2 - s.1) - (s.1 + 1) = len by omega, hwrap] at hne
    exact Nat.pos_of_ne_zero fun h => hne (by rw [h]; rfl)
  · have hlt31 := wrap_lt ((shape.drop (s.1 + 1)).take len).prod
    rw [hwrap] at hlt31
    exact_mod_cast hlt31

/-- **Shifted groups.**  A dimension whose result lies `shape.length - gridShape.length`
places to the left is shifted. -/
theorem shifts_of_position {k : ℕ} {position : ℕ → ℕ}
    (hmono : StrictMonoOn position {d | ∃ stop, ci.Group d stop})
    (hlin : ∀ start stop, ci.Group start stop → ∃ e,
      (List.replicate k (AffineExpr.constant 0) ++ body shape gridShape ci)[position start]?
        = some e ∧ Linearises shape start stop e)
    {d stop : ℕ} (hgroup : ci.Group d stop) (hp : position d = k + p)
    (hmin : ci.minimumDim ≤ p) (hfree : ∀ s ∈ ci.spans, s.1 ≠ p)
    (hd : d = p + (shape.length - gridShape.length)) :
    Shifts ci (shape.length - gridShape.length) d := by
  induction d using Nat.strong_induction_on generalizing stop p with
  | _ d ih =>
    have hdlt := ci.group_bounds hgroup
    have hminlt := minimumDim_lt_of_free (by omega) hmin hfree
    -- a span that begins in between is read further to the left
    have hspan : ∀ s ∈ ci.spans, d < s.1 + (shape.length - gridShape.length) → s.1 < d →
        s.2 = s.1 + 1 ∧ ∃ p', position s.1 = k + p' ∧ ci.minimumDim ≤ p' ∧
          (∀ t ∈ ci.spans, t.1 ≠ p') ∧ s.1 = p' + (shape.length - gridShape.length) := by
      intro s hs hshift hlt
      have hsgroup : ci.Group s.1 s.2 := Or.inl hs
      have hbounds := ci.span_bounds hs
      obtain ⟨e, hget, hlinear⟩ := hlin _ _ hsgroup
      have hreads := hlinear.2 s.1 (le_refl _) hbounds.1
      obtain ⟨p', hp', hget'⟩ := results_reads shape gridShape ci hget hreads
      have hleft : p' < p := by
        have := hmono ⟨s.2, hsgroup⟩ ⟨stop, hgroup⟩ hlt
        omega
      have hsingle : s.2 = s.1 + 1 := by
        by_contra hne
        have := (eq_start_of_reads hs hget' hlinear.2 (by omega)).1
        omega
      rcases body_reads shape gridShape ci hget' hreads with
        ⟨-, heq⟩ | ⟨t, ht, rfl, htd, htd', -⟩ | ⟨hle, hfree', heq⟩
      · omega
      · have := ci.span_eq_of_mem ht hs ⟨htd, htd'⟩ ⟨le_refl _, hbounds.1⟩
        rw [this] at hleft
        omega
      · exact ⟨hsingle, p', hp', hle, hfree', heq⟩
    refine Shifts.intro d (by omega) (fun s hs heq => hfree s hs (by omega)) ?_ ?_
    · exact fun s hs h₁ h₂ => (hspan s hs h₁ h₂).1
    · intro s hs h₁ h₂
      obtain ⟨-, p', hp', hle, hfree', heq⟩ := hspan s hs h₁ h₂
      exact ih s.1 h₂ (Or.inl hs) hp' hle hfree' heq

/-- **Necessity.**  Inputs that collapse fit. -/
theorem fits_of_collapses (h : Collapses shape gridShape ci) : Fits shape gridShape ci := by
  obtain ⟨map, hmap, -, position, hmono, hlin⟩ := h
  rw [collapsedLinearAffineMap_eq] at hmap
  split at hmap
  · next hok =>
    obtain ⟨hstarts, hmin, -⟩ := hok
    obtain rfl := Option.some.inj hmap
    simp only at hlin
    -- a span of several dimensions is read at its beginning
    have hstride : ∀ s ∈ ci.spans, 0 < (slice shape (s.1 + 1) s.2).prod ∧
        (slice shape (s.1 + 1) s.2).prod < 2 ^ 31 := by
      intro s hs
      have hbounds := ci.span_bounds hs
      by_cases hlong : s.1 + 1 < s.2
      · obtain ⟨e, hget, hlinear⟩ := hlin _ _ (Or.inl hs)
        obtain ⟨p, -, hget'⟩ := results_reads shape gridShape ci hget
          (hlinear.2 s.1 (le_refl _) hbounds.1)
        obtain ⟨-, rfl⟩ := eq_start_of_reads hs hget' hlinear.2 hlong
        exact stride_of_linearises hs hlinear
      · rw [slice, show s.2 - (s.1 + 1) = 0 by omega, List.take_zero, List.prod_nil]
        norm_num
    refine ⟨fun s hs => ?_, fun hnil => ?_, fun d hplain hd => ?_, fun s hs => (hstride s hs).1,
      fun s hs => (hstride s hs).2⟩
    · have := hstarts s hs
      omega
    · rcases ci.minimumDim_eq with hrank | ⟨s, hs, -⟩
      · omega
      · rw [hnil] at hs
        simp at hs
    · have hgroup : ci.Group d (d + 1) := Or.inr ⟨hplain, rfl⟩
      obtain ⟨e, hget, hlinear⟩ := hlin _ _ hgroup
      have hreads := hlinear.2 d (le_refl _) (Nat.lt_succ_self d)
      obtain ⟨p, hp, hget'⟩ := results_reads shape gridShape ci hget hreads
      rcases body_reads shape gridShape ci hget' hreads with
        ⟨hlow, heq⟩ | ⟨s, hs, -, h₁, h₂, -⟩ | ⟨hle, hfree, heq⟩
      · omega
      · have := hplain.2 s hs
        omega
      · exact shifts_of_position hmono hlin hgroup hp hle hfree heq
  · simp at hmap

end Necessity

/-! ## Sufficiency -/

section Sufficiency

variable {shape gridShape : List ℕ} {ci : CollapseIntervals shape.length}

theorem linearises_dim {d : ℕ} (hd : d < shape.length) :
    Linearises shape d (d + 1) (AffineExpr.dim d) := by
  refine ⟨fun idx hidx => ?_, fun d' h₁ h₂ => ?_⟩
  · have hi : d < idx.length := by omega
    rw [slice, slice, Nat.add_sub_cancel_left, take_drop_succ shape d 0 hd,
      take_drop_succ idx d 0 hi, rowMajor_cons]
    simp [hi]
  · simp only [AffineExpr.isFunctionOfDim, decide_eq_true_eq]
    omega

/-- The expression of a span linearises it when its strides fit. -/
theorem linearises_span (hfits : Fits shape gridShape ci) (hs : s ∈ ci.spans) :
    Linearises shape s.1 s.2 (linearExpr shape s.1 (s.2 - s.1)) := by
  obtain ⟨hlt, hle⟩ := ci.span_bounds hs
  have hpos := hfits.stride_pos s hs
  have hlt31 := hfits.stride_lt s hs
  rw [slice] at hpos hlt31
  have hlen : s.2 - s.1 - 1 = s.2 - (s.1 + 1) := by omega
  refine ⟨fun idx hidx => ?_, fun d h₁ h₂ => ?_⟩
  · exact eval_linearExpr shape idx hidx (s.2 - s.1) s.1 (by omega) (by rwa [hlen]) (by rwa [hlen])
  · rw [isFunctionOfDim_linearExpr]
    refine ⟨h₁, by omega, ?_⟩
    -- the stride of an inner dimension divides the outermost one
    have hdvd : ((shape.drop (d + 1)).take (s.1 + (s.2 - s.1) - (d + 1))).prod
        ∣ ((shape.drop (s.1 + 1)).take (s.2 - (s.1 + 1))).prod := by
      have hsplit := List.prod_take_mul_prod_drop
        ((shape.drop (s.1 + 1)).take (s.2 - (s.1 + 1))) (d - s.1)
      rw [List.drop_take, List.drop_drop, show s.1 + 1 + (d - s.1) = d + 1 by omega,
        show s.2 - (s.1 + 1) - (d - s.1) = s.1 + (s.2 - s.1) - (d + 1) by omega] at hsplit
      exact Dvd.intro_left _ hsplit
    have hposd := Nat.pos_of_dvd_of_pos hdvd hpos
    rw [wrap_of_lt (lt_of_le_of_lt (Nat.le_of_dvd hpos hdvd) hlt31)]
    exact_mod_cast hposd.ne'

open Classical in
/-- The result, before padding, where a group of dimensions is read. -/
noncomputable def place (gridShape : List ℕ) (ci : CollapseIntervals shape.length) (d : ℕ) : ℕ :=
  if Shifts ci (shape.length - gridShape.length) d ∧ ∀ s ∈ ci.spans, s.1 = d → s.2 = d + 1 then
    d - (shape.length - gridShape.length)
  else d

/-- **Every group is read.**  The result at the place of a group linearises it. -/
theorem exists_linearises (hfits : Fits shape gridShape ci) {start stop : ℕ}
    (hgroup : ci.Group start stop) :
    ∃ e, (body shape gridShape ci)[place gridShape ci start]? = some e ∧
      Linearises shape start stop e := by
  have hbounds := ci.group_bounds hgroup
  by_cases hmoved : Shifts ci (shape.length - gridShape.length) start ∧
      ∀ s ∈ ci.spans, s.1 = start → s.2 = start + 1
  · rw [place, if_pos hmoved]
    obtain ⟨hshifts, hsingle⟩ := hmoved
    obtain ⟨behind, free, -⟩ := hshifts.inv
    have hstop : stop = start + 1 := by
      rcases hgroup with hspan | ⟨-, rfl⟩
      · exact hsingle _ hspan rfl
      · rfl
    refine ⟨_, body_free shape gridShape ci (by omega) (by omega)
      (fun s hs heq => free s hs (by omega)), ?_⟩
    rw [hstop, show shape.length - min shape.length gridShape.length
      + (start - (shape.length - gridShape.length)) = start by omega]
    exact linearises_dim (by omega)
  · rw [place, if_neg hmoved]
    rcases hgroup with hspan | ⟨hplain, rfl⟩
    · have hlt := hfits.starts _ hspan
      exact ⟨_, body_span shape gridShape ci hspan (by simp only at hlt ⊢; omega),
        linearises_span hfits hspan⟩
    · -- a plain dimension that keeps its number lies below the first collapsed one
      have hnot : ¬ ci.minimumDim < start := fun hlt => hmoved ⟨hfits.shifts start hplain hlt,
        fun s hs heq => absurd (hplain.2 s hs) (by have := ci.span_bounds hs; omega)⟩
      have hlow : start < ci.minimumDim ∧ start < gridShape.length := by
        rcases ci.minimumDim_eq with hrank | ⟨s, hs, heq⟩
        · by_cases hnil : ci.spans = []
          · have := hfits.rank_le hnil
            omega
          · obtain ⟨s, hs⟩ := List.exists_mem_of_ne_nil _ hnil
            have := hfits.starts s hs
            have := ci.minimumDim_le_start hs
            omega
        · have := hfits.starts s hs
          have := ci.span_bounds hs
          have := hplain.2 s hs
          omega
      exact ⟨_, body_low shape gridShape ci (by omega) hlow.1, linearises_dim hplain.1⟩

/-- The places of the groups are in order. -/
theorem place_strictMonoOn (hfits : Fits shape gridShape ci) :
    StrictMonoOn (place gridShape ci) {d | ∃ stop, ci.Group d stop} := by
  rintro a ⟨stopA, ha⟩ b ⟨stopB, hb⟩ hab
  by_cases hmovedB : Shifts ci (shape.length - gridShape.length) b ∧
      ∀ s ∈ ci.spans, s.1 = b → s.2 = b + 1
  · obtain ⟨behind, free, between⟩ := hmovedB.1.inv
    by_cases hmovedA : Shifts ci (shape.length - gridShape.length) a ∧
        ∀ s ∈ ci.spans, s.1 = a → s.2 = a + 1
    · obtain ⟨behindA, -, -⟩ := hmovedA.1.inv
      rw [place, place, if_pos hmovedA, if_pos hmovedB]
      omega
    · rw [place, place, if_neg hmovedA, if_pos hmovedB]
      by_contra hle
      rcases ha with hspan | ⟨hplain, -⟩
      · have hne := free _ hspan
        have hclose : b < a + (shape.length - gridShape.length) := by
          simp only at hne
          omega
        refine hmovedA ⟨(between _ hspan hclose hab).2, fun s hs heq => ?_⟩
        exact heq ▸ (between s hs (by omega) (by omega)).1
      · have hnot : ¬ ci.minimumDim < a := fun hlt => hmovedA ⟨hfits.shifts a hplain hlt,
          fun s hs heq => absurd (hplain.2 s hs) (by have := ci.span_bounds hs; omega)⟩
        omega
  · rw [place, place, if_neg hmovedB]
    split
    · omega
    · exact hab

/-- Maps whose results linearise every group are injective on index vectors. -/
theorem injOn_of_linearises {map : MLIR.AffineMap} {position : ℕ → ℕ}
    (hlin : ∀ start stop, ci.Group start stop →
      ∃ e, map.results[position start]? = some e ∧ Linearises shape start stop e) :
    Set.InjOn (fun idx : List ℕ => map.eval (idx.map fun (i : ℕ) => (i : ℤ)) [])
      {idx | InShape idx shape} := by
  intro a ha b hb hab
  have hlenA : a.length = shape.length := ha.length_eq
  have hlenB : b.length = shape.length := hb.length_eq
  refine List.ext_getElem (hlenA.trans hlenB.symm) fun d hd hd' => ?_
  obtain ⟨start, stop, hgroup, h₁, h₂⟩ := ci.exists_group (hlenA ▸ hd)
  obtain ⟨e, hget, hlinear, -⟩ := hlin start stop hgroup
  -- equal results make the row-major offsets of the group equal
  have heval : e.eval (a.map fun (i : ℕ) => (i : ℤ)) []
      = e.eval (b.map fun (i : ℕ) => (i : ℤ)) [] := by
    have hentry := congrArg (fun l => l[position start]?) hab
    simpa [MLIR.AffineMap.eval, hget] using hentry
  rw [hlinear a hlenA, hlinear b hlenB] at heval
  have hslice : slice a start stop = slice b start stop :=
    rowMajor_injOn _ (List.forall₂_take _ (List.forall₂_drop _ ha))
      (List.forall₂_take _ (List.forall₂_drop _ hb)) (by exact_mod_cast heval)
  have hget' := congrArg (fun l => l[d - start]?) hslice
  have hlt : d - start < stop - start := by omega
  simpa [slice, List.getElem?_take, hlt, List.getElem?_drop, show start + (d - start) = d by omega,
    hd, hd'] using hget'

/-- **Sufficiency.**  Inputs that fit collapse. -/
theorem collapses_of_fits (hfits : Fits shape gridShape ci) : Collapses shape gridShape ci := by
  have hstarts : ∀ s ∈ ci.spans, s.1 < min shape.length gridShape.length := by
    intro s hs
    have := hfits.starts s hs
    have := ci.span_bounds hs
    omega
  have hmin : ci.minimumDim ≤ min shape.length gridShape.length := by
    by_cases hnil : ci.spans = []
    · have := hfits.rank_le hnil
      have := ci.minimumDim_le
      omega
    · obtain ⟨s, hs⟩ := List.exists_mem_of_ne_nil _ hnil
      have := hstarts s hs
      have := ci.minimumDim_le_start hs
      omega
  have hall : ∀ d < shape.length, ∃ e ∈ body shape gridShape ci, e.isFunctionOfDim d = true := by
    intro d hd
    obtain ⟨start, stop, hgroup, h₁, h₂⟩ := ci.exists_group hd
    obtain ⟨e, hget, hlinear⟩ := exists_linearises hfits hgroup
    exact ⟨e, List.mem_of_getElem? hget, hlinear.2 d h₁ h₂⟩
  have hlin : ∀ start stop, ci.Group start stop → ∃ e,
      (List.replicate (gridShape.length - min shape.length gridShape.length)
        (AffineExpr.constant 0) ++ body shape gridShape ci)[gridShape.length
          - min shape.length gridShape.length + place gridShape ci start]? = some e ∧
        Linearises shape start stop e := by
    intro start stop hgroup
    obtain ⟨e, hget, hlinear⟩ := exists_linearises hfits hgroup
    refine ⟨e, ?_, hlinear⟩
    rw [List.getElem?_append_right (by simp), List.length_replicate, Nat.add_sub_cancel_left]
    exact hget
  refine ⟨_, (collapsedLinearAffineMap_eq shape gridShape ci).trans
    (if_pos ⟨hstarts, hmin, hall⟩), injOn_of_linearises hlin, _, ?_, hlin⟩
  exact fun a ha b hb hab => Nat.add_lt_add_left (place_strictMonoOn hfits ha hb hab) _

end Sufficiency

/-- **When dimensions are collapsed.**  The function builds a map that linearises every
interval and keeps the other dimensions in order exactly when the inputs fit: every interval
begins below the number of grid dimensions, the dimensions behind the first interval keep a
result of their own, and the strides are positive 32 bit integers. -/
theorem collapses_iff_fits (shape gridShape : List ℕ) (ci : CollapseIntervals shape.length) :
    Collapses shape gridShape ci ↔ Fits shape gridShape ci :=
  ⟨fits_of_collapses, collapses_of_fits⟩

/-- The intervals of the seven dimensional example. -/
def sevenDims : CollapseIntervals 7 where
  intervals := [(0, 3), (-3, -1)]
  bounded := by decide
  disjoint := by decide

/-- Collapsing `[0, 3)` and `[-3, -1)` of seven dimensions onto a grid of rank four drops a
result that does not exist. -/
theorem sevenDims_not_collapses :
    collapsedLinearAffineMap [2, 3, 4, 5, 6, 7, 8] [1, 1, 1, 1] sevenDims.intervals = none ∧
      ¬ Collapses [2, 3, 4, 5, 6, 7, 8] [1, 1, 1, 1] sevenDims := by
  have hnone : collapsedLinearAffineMap [2, 3, 4, 5, 6, 7, 8] [1, 1, 1, 1]
      sevenDims.intervals = none := by decide
  refine ⟨hnone, ?_⟩
  rintro ⟨map, hmap, -⟩
  rw [hnone] at hmap
  simp at hmap

end CollapsedLinear
