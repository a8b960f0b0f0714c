/-
# Extents of one in row-major offsets

An extent of one adds nothing to a row-major offset.  So a tensor whose extents are spread over
more dimensions, with ones between them, keeps its order exactly when the others stay in order.

* `rowMajor_set_succ` : neighbours along an axis are a stride apart;
* `rowMajor_ones` : ones in front;
* `squeeze`, `rowMajor_squeeze` : offsets without the extents of one;
* `Spread` : extents spread over more dimensions;
* `Spread.rowMajor_iff` : when that keeps all offsets.
-/
import TTMLIR.MixedRadix

namespace MixedRadix

/-! ## Strides -/

variable {shape idx : List ℕ}

/-- Neighbours along an axis are a stride apart. -/
theorem rowMajor_set_succ {axis : ℕ} (haxis : axis < shape.length)
    (hlen : idx.length = shape.length) (j : ℕ) :
    rowMajor shape (idx.set axis (j + 1))
      = rowMajor shape (idx.set axis j) + (shape.drop (axis + 1)).prod := by
  induction shape generalizing idx axis with
  | nil => exact absurd haxis (Nat.not_lt_zero _)
  | cons n shape ih =>
    cases idx with
    | nil => exact nomatch hlen
    | cons i idx =>
      cases axis with
      | zero =>
        rw [List.set_cons_zero, List.set_cons_zero, rowMajor_cons, rowMajor_cons,
          List.drop_succ_cons, List.drop_zero]
        ring
      | succ axis =>
        rw [List.set_cons_succ, List.set_cons_succ, rowMajor_cons, rowMajor_cons,
          List.drop_succ_cons, ih (Nat.lt_of_succ_lt_succ haxis) (Nat.succ.inj hlen)]
        ring

/-- The index vector that is one along an axis, and zero elsewhere. -/
def unit (rank axis : ℕ) : List ℕ := (List.replicate rank 0).set axis 1

theorem getD_unit {rank axis : ℕ} (haxis : axis < rank) (d : ℕ) :
    (unit rank axis).getD d 0 = if d = axis then 1 else 0 := by
  rw [unit, List.getD_eq_getElem?_getD, List.getElem?_set, List.length_replicate]
  by_cases hd : axis = d
  · subst hd
    rw [if_pos rfl, if_pos haxis, if_pos rfl]
    rfl
  · rw [if_neg hd, if_neg (Ne.symm hd), List.getElem?_replicate]
    split
    · rfl
    · rfl

theorem inShape_unit {shape : List ℕ} (hpos : ∀ n ∈ shape, 0 < n) {axis : ℕ}
    (htwo : 2 ≤ shape.getD axis 0) : InShape (unit shape.length axis) shape := by
  rw [InShape, List.forall₂_iff_get]
  refine ⟨by rw [unit, List.length_set, List.length_replicate], fun i hi hi' => ?_⟩
  rw [List.get_eq_getElem, List.get_eq_getElem]
  simp only [unit, List.getElem_set, List.getElem_replicate]
  split
  · subst axis
    rw [List.getD_eq_getElem _ _ hi'] at htwo
    omega
  · exact hpos _ (List.getElem_mem hi')

/-- The position of a unit index is the stride of its axis. -/
theorem rowMajor_unit {shape : List ℕ} {axis : ℕ} (haxis : axis < shape.length) :
    rowMajor shape (unit shape.length axis) = (shape.drop (axis + 1)).prod := by
  have hzero : (List.replicate shape.length 0).set axis 0 = List.replicate shape.length 0 := by
    apply List.ext_getElem
    · rw [List.length_set]
    · intro i hi hi'
      rw [List.getElem_set]
      split
      · rw [List.getElem_replicate]
      · rfl
  rw [unit, rowMajor_set_succ haxis List.length_replicate 0, hzero, rowMajor_replicate_zero,
    Nat.zero_add]

/-- A stride is longer than that of a later axis, unless that has an extent of one. -/
theorem prod_drop_lt {shape : List ℕ} (hpos : ∀ n ∈ shape, 0 < n) {d d' : ℕ} (h : d < d')
    (htwo : 2 ≤ shape.getD d' 0) : (shape.drop (d' + 1)).prod < (shape.drop (d + 1)).prod := by
  have hd' : d' < shape.length := by
    by_contra hge
    rw [List.getD_eq_default _ _ (not_lt.mp hge)] at htwo
    omega
  have hsplit : shape.drop (d + 1)
      = (shape.drop (d + 1)).take (d' - (d + 1)) ++ shape[d'] :: shape.drop (d' + 1) := by
    rw [← List.drop_eq_getElem_cons hd']
    nth_rewrite 1 [← List.take_append_drop (d' - (d + 1)) (shape.drop (d + 1))]
    rw [List.drop_drop, Nat.add_sub_cancel' (Nat.succ_le_of_lt h)]
  have hfront : 0 < ((shape.drop (d + 1)).take (d' - (d + 1))).prod :=
    prod_pos_of_forall_pos fun n hn =>
      hpos n (List.mem_of_mem_drop (List.mem_of_mem_take hn))
  have hback : 0 < (shape.drop (d' + 1)).prod :=
    prod_pos_of_forall_pos fun n hn => hpos n (List.mem_of_mem_drop hn)
  rw [List.getD_eq_getElem _ _ hd'] at htwo
  rw [hsplit, List.prod_append, List.prod_cons]
  calc (shape.drop (d' + 1)).prod
      < 2 * (shape.drop (d' + 1)).prod := by omega
    _ ≤ shape[d'] * (shape.drop (d' + 1)).prod := Nat.mul_le_mul_right _ htwo
    _ ≤ _ := Nat.le_mul_of_pos_left _ hfront

/-! ## Ones in front -/

/-- Leading dimensions of extent one do not change positions. -/
theorem rowMajor_ones (m : ℕ) (shape idx : List ℕ) :
    rowMajor (List.replicate m 1 ++ shape) (List.replicate m 0 ++ idx) = rowMajor shape idx := by
  induction m with
  | zero => rfl
  | succ m ih =>
    rw [List.replicate_succ, List.replicate_succ, List.cons_append, List.cons_append,
      rowMajor_cons, Nat.zero_mul, Nat.zero_add, ih]

theorem prod_ones (m : ℕ) (shape : List ℕ) : (List.replicate m 1 ++ shape).prod = shape.prod := by
  rw [List.prod_append, List.prod_replicate, one_pow, one_mul]

/-! ## Offsets without the extents of one -/

/-- The extents other than one, with their indices. -/
def squeeze (shape idx : List ℕ) : List (ℕ × ℕ) := (shape.zip idx).filter fun p => p.1 ≠ 1

theorem prod_squeeze (h : idx.length = shape.length) :
    ((squeeze shape idx).map Prod.fst).prod = shape.prod := by
  induction shape generalizing idx with
  | nil => rfl
  | cons n shape ih =>
    cases idx with
    | nil => exact nomatch h
    | cons i idx =>
      have hrest := ih (Nat.succ.inj h)
      rw [squeeze] at hrest ⊢
      rw [List.zip_cons_cons, List.filter_cons]
      by_cases hn : n = 1
      · rw [if_neg (by simp [hn]), hrest, List.prod_cons, hn, Nat.one_mul]
      · rw [if_pos (by simp [hn]), List.map_cons, List.prod_cons, List.prod_cons, hrest]

/-- **An extent of one adds nothing to an offset.** -/
theorem rowMajor_squeeze (h : InShape idx shape) : rowMajor shape idx
      = rowMajor ((squeeze shape idx).map Prod.fst) ((squeeze shape idx).map Prod.snd) := by
  induction h with
  | nil => rfl
  | @cons i n idx shape hlt hrest ih =>
    have hprod := prod_squeeze hrest.length_eq
    rw [squeeze] at ih hprod ⊢
    rw [List.zip_cons_cons, List.filter_cons, rowMajor_cons]
    by_cases hn : n = 1
    · obtain rfl : i = 0 := by omega
      rw [if_neg (by simp [hn]), ih, Nat.zero_mul, Nat.zero_add]
    · rw [if_pos (by simp [hn]), List.map_cons, List.map_cons, rowMajor_cons, hprod, ih]

/-- The entries in the order of their positions. -/
theorem squeeze_eq (h : idx.length = shape.length) :
    squeeze shape idx = ((List.range shape.length).filter fun d => shape.getD d 0 ≠ 1).map
      fun d => (shape.getD d 0, idx.getD d 0) := by
  have hzip : shape.zip idx
      = (List.range shape.length).map fun d => (shape.getD d 0, idx.getD d 0) := by
    apply List.ext_getElem
    · simp [h]
    · intro i hi hi'
      have hi₁ : i < shape.length := by simpa using hi'
      rw [List.getElem_zip, List.getElem_map, List.getElem_range, List.getD_eq_getElem _ _ hi₁,
        List.getD_eq_getElem _ _ (h ▸ hi₁)]
  rw [squeeze, hzip, List.filter_map]
  rfl

/-! ## Spread extents -/

/-- A shape whose extents are those of another one, at given dimensions, and ones elsewhere. -/
structure Spread (shape dims spread : List ℕ) : Prop where
  length_eq : dims.length = shape.length
  nodup : dims.Nodup
  lt : ∀ d ∈ dims, d < spread.length
  kept : ∀ i < shape.length, spread.getD (dims.getD i 0) 0 = shape.getD i 0
  ones : ∀ d < spread.length, d ∉ dims → spread.getD d 0 = 1

/-- The entries of an index vector at given dimensions. -/
def pick (dims idx : List ℕ) : List ℕ := dims.map fun d => idx.getD d 0

/-- The dimensions of the extents other than one are in order. -/
def Ordered (shape dims : List ℕ) : Prop :=
  ∀ i j, i < j → j < shape.length → shape.getD i 0 ≠ 1 → shape.getD j 0 ≠ 1 →
    dims.getD i 0 < dims.getD j 0

namespace Spread

variable {shape dims spread : List ℕ} (h : Spread shape dims spread)

include h

theorem mem_dims {i : ℕ} (hi : i < shape.length) : dims.getD i 0 ∈ dims := by
  rw [List.getD_eq_getElem _ _ (h.length_eq ▸ hi)]
  exact List.getElem_mem _

theorem dims_lt {i : ℕ} (hi : i < shape.length) : dims.getD i 0 < spread.length :=
  h.lt _ (h.mem_dims hi)

theorem pos (hpos : ∀ n ∈ shape, 0 < n) : ∀ n ∈ spread, 0 < n := by
  intro n hn
  obtain ⟨d, hd, rfl⟩ := List.getElem_of_mem hn
  rw [← List.getD_eq_getElem _ 0 hd]
  by_cases hmem : d ∈ dims
  · obtain ⟨i, hi, rfl⟩ := List.getElem_of_mem hmem
    have hi' : i < shape.length := h.length_eq ▸ hi
    have hkept := h.kept i hi'
    rw [List.getD_eq_getElem dims 0 hi] at hkept
    rw [hkept, List.getD_eq_getElem _ _ hi']
    exact hpos _ (List.getElem_mem hi')
  · rw [h.ones d hd hmem]
    exact one_pos

theorem getD_pick (idx : List ℕ) {i : ℕ} (hi : i < shape.length) :
    (pick dims idx).getD i 0 = idx.getD (dims.getD i 0) 0 := by
  have hi' : i < dims.length := h.length_eq ▸ hi
  rw [pick, List.getD_eq_getElem _ _ (by rwa [List.length_map]), List.getElem_map,
    List.getD_eq_getElem _ _ hi']

theorem length_pick (idx : List ℕ) : (pick dims idx).length = shape.length := by
  rw [pick, List.length_map, h.length_eq]

/-- The picked coordinates are an index. -/
theorem inShape_pick {idx : List ℕ} (hidx : InShape idx spread) :
    InShape (pick dims idx) shape := by
  rw [InShape, List.forall₂_iff_get]
  refine ⟨h.length_pick idx, fun i hi hi' => ?_⟩
  have hd := h.dims_lt hi'
  have hlt := hidx.get (hidx.length_eq ▸ hd) hd
  have hkept := h.kept i hi'
  rw [List.get_eq_getElem, List.get_eq_getElem] at hlt ⊢
  rw [← List.getD_eq_getElem _ 0 hi, h.getD_pick idx hi', ← List.getD_eq_getElem _ 0 hi', ← hkept,
    List.getD_eq_getElem idx 0 (hidx.length_eq ▸ hd), List.getD_eq_getElem spread 0 hd]
  exact hlt

/-- The dimensions of extents other than one, as the shape and as the spread one list them. -/
theorem map_dims_eq (hordered : Ordered shape dims) :
    ((List.range shape.length).filter fun i => shape.getD i 0 ≠ 1).map (fun i => dims.getD i 0)
      = (List.range spread.length).filter fun d => spread.getD d 0 ≠ 1 := by
  have hleft : (((List.range shape.length).filter fun i => shape.getD i 0 ≠ 1).map
      fun i => dims.getD i 0).Pairwise (· < ·) := by
    rw [List.pairwise_map]
    have hsorted : ((List.range shape.length).filter fun i => shape.getD i 0 ≠ 1).Pairwise
        (· < ·) := List.pairwise_lt_range.filter _
    refine hsorted.imp_of_mem fun {i j} hi hj hij => ?_
    rw [List.mem_filter, List.mem_range, decide_eq_true_eq] at hi hj
    exact hordered i j hij hj.1 hi.2 hj.2
  have hright : ((List.range spread.length).filter fun d => spread.getD d 0 ≠ 1).Pairwise
      (· < ·) := List.pairwise_lt_range.filter _
  apply List.Perm.eq_of_pairwise' (r := (· ≤ ·)) (hleft.imp le_of_lt) (hright.imp le_of_lt)
  rw [List.perm_ext_iff_of_nodup (hleft.imp ne_of_lt) (hright.imp ne_of_lt)]
  intro d
  rw [List.mem_map, List.mem_filter, List.mem_range, decide_eq_true_eq]
  constructor
  · rintro ⟨i, hi, rfl⟩
    rw [List.mem_filter, List.mem_range, decide_eq_true_eq] at hi
    exact ⟨h.dims_lt hi.1, (h.kept i hi.1).symm ▸ hi.2⟩
  · rintro ⟨hd, hne⟩
    have hmem : d ∈ dims := by
      by_contra hmem
      exact hne (h.ones d hd hmem)
    obtain ⟨i, hi, rfl⟩ := List.getElem_of_mem hmem
    have hi' : i < shape.length := h.length_eq ▸ hi
    have hkept := h.kept i hi'
    rw [List.getD_eq_getElem dims 0 hi] at hkept
    refine ⟨i, ?_, List.getD_eq_getElem _ _ hi⟩
    rw [List.mem_filter, List.mem_range, decide_eq_true_eq]
    exact ⟨hi', hkept ▸ hne⟩

theorem rowMajor_eq (hordered : Ordered shape dims) {idx : List ℕ} (hidx : InShape idx spread) :
    rowMajor spread idx = rowMajor shape (pick dims idx) := by
  have hsqueeze : squeeze spread idx = squeeze shape (pick dims idx) := by
    rw [squeeze_eq hidx.length_eq, squeeze_eq (h.length_pick idx), ← h.map_dims_eq hordered,
      List.map_map]
    apply List.map_congr_left
    intro i hi
    rw [List.mem_filter, List.mem_range] at hi
    rw [Function.comp_apply, h.kept i hi.1, h.getD_pick idx hi.1]
  rw [rowMajor_squeeze hidx, rowMajor_squeeze (h.inShape_pick hidx), hsqueeze]

/-- **When spreading extents keeps all offsets**: when those other than one stay in order. -/
theorem rowMajor_iff (hpos : ∀ n ∈ shape, 0 < n) :
    (∀ idx, InShape idx spread → rowMajor spread idx = rowMajor shape (pick dims idx)) ↔
      Ordered shape dims := by
  refine ⟨fun hall i j hij hj hi1 hj1 => ?_, fun hordered idx hidx => h.rowMajor_eq hordered hidx⟩
  have htwo : ∀ k < shape.length, shape.getD k 0 ≠ 1 → 2 ≤ shape.getD k 0 := by
    intro k hk hne
    have := hpos _ (List.getElem_mem hk)
    rw [List.getD_eq_getElem _ _ hk] at hne ⊢
    omega
  -- the offset of the index vector that is one along a dimension
  have hunit : ∀ k < shape.length, shape.getD k 0 ≠ 1 →
      (spread.drop (dims.getD k 0 + 1)).prod = (shape.drop (k + 1)).prod := by
    intro k hk hne
    have hin := inShape_unit (h.pos hpos) (by rw [h.kept k hk]; exact htwo k hk hne)
    have hpick : pick dims (unit spread.length (dims.getD k 0)) = unit shape.length k := by
      apply List.ext_getElem
      · rw [h.length_pick, unit, List.length_set, List.length_replicate]
      · intro m hm hm'
        have hm'' : m < shape.length := by rwa [h.length_pick] at hm
        rw [← List.getD_eq_getElem _ 0 hm, ← List.getD_eq_getElem _ 0 hm', h.getD_pick _ hm'',
          getD_unit (h.dims_lt hk), getD_unit hk]
        have hinj : dims.getD m 0 = dims.getD k 0 ↔ m = k := by
          rw [List.getD_eq_getElem _ _ (h.length_eq ▸ hm''),
            List.getD_eq_getElem _ _ (h.length_eq ▸ hk)]
          exact h.nodup.getElem_inj_iff
        by_cases hmk : m = k
        · rw [if_pos (hinj.mpr hmk), if_pos hmk]
        · rw [if_neg (fun heq => hmk (hinj.mp heq)), if_neg hmk]
    have hoffset := hall _ hin
    rwa [hpick, rowMajor_unit (h.dims_lt hk), rowMajor_unit hk] at hoffset
  have hi := hij.trans hj
  by_contra hge
  have hne : dims.getD i 0 ≠ dims.getD j 0 := by
    rw [List.getD_eq_getElem _ _ (h.length_eq ▸ hi), List.getD_eq_getElem _ _ (h.length_eq ▸ hj)]
    exact fun heq => absurd (h.nodup.getElem_inj_iff.mp heq) hij.ne
  have hshape := prod_drop_lt hpos hij (htwo j hj hj1)
  have hspread := prod_drop_lt (h.pos hpos) (lt_of_le_of_ne (not_lt.mp hge) (Ne.symm hne))
    (by rw [h.kept i hi]; exact htwo i hi hi1)
  rw [hunit i hi hi1, hunit j hj hj1] at hspread
  exact absurd hspread (not_lt.mpr hshape.le)

end Spread

end MixedRadix
