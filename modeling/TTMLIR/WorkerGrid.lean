/-
# The worker grid of a device

`createWorkerGrid` of `TTOpsTypes.cpp` folds a mesh of chips into one virtual grid:
the chip grid is multiplied by the two innermost mesh dimensions, the other mesh
dimensions are prepended, and an affine map sends a virtual core to a chip index and
a core of that chip.

* `createWorkerGrid` : the translated function;
* `eval_createWorkerGrid` : its map on a virtual core, as natural numbers;
* `workerGrid_bijOn_iff` : the map is a bijection onto the physical cores exactly
  when each of the two folded mesh dimensions is `1` or the extent of the chip grid.

The folded coordinates are reduced modulo the mesh extent, not modulo the chip grid
extent, which is what restricts the bijection.
-/
import TTMLIR.MixedRadix
import TTMLIR.Affine

open MLIR MixedRadix

namespace WorkerGrid

/-- `GridAttr`: the grid shape and the map onto physical cores. -/
structure GridAttr : Type where
  shape : List ℕ
  mapping : AffineMap
  deriving DecidableEq, Repr

/-- Fill in missing dimensions with `1` so that the mesh shape is at least 2D. -/
def padMeshShape (meshShape : List ℕ) : List ℕ :=
  meshShape ++ List.replicate (2 - meshShape.length) 1

/-- The linearization loop over the outer mesh dimensions: from dimension `rank - 3`
down to `0`, add `dim * meshStride` and multiply the stride by the extent. -/
def linearizeOuterDims (meshShape : List ℕ) (rank : ℕ) (start : AffineExpr × ℕ) :
    AffineExpr × ℕ :=
  (List.range (rank - 2)).reverse.foldl
    (fun (acc : AffineExpr × ℕ) i =>
      (AffineExpr.dim i * AffineExpr.constant acc.2 + acc.1, acc.2 * meshShape.getD i 1))
    start

/-- `createWorkerGrid`. -/
def createWorkerGrid (chipGridY chipGridX : ℕ) (meshShapeRef : List ℕ) : GridAttr :=
  let meshShape := padMeshShape meshShapeRef
  let rank := meshShape.length
  let virtualGrid :=
    List.zipWith (· * ·) (List.replicate (rank - 2) 1 ++ [chipGridY, chipGridX]) meshShape
  let meshX := meshShape.getD (rank - 1) 1
  let meshY := meshShape.getD (rank - 2) 1
  let workerDeviceIdx := AffineExpr.constant 0
  let workerCoreY := AffineExpr.dim (rank - 2)
  let workerCoreX := AffineExpr.dim (rank - 1)
  -- the inner two dimensions roll over the device index at single-chip boundaries
  let (workerDeviceIdx, workerCoreX) :=
    if 1 < meshX then
      (workerCoreX.floorDiv (.constant chipGridX) + workerDeviceIdx,
        workerCoreX.mod (.constant meshX))
    else (workerDeviceIdx, workerCoreX)
  let meshStride := meshX
  let (workerDeviceIdx, workerCoreY) :=
    if 1 < meshY then
      (workerCoreY.floorDiv (.constant chipGridY) * .constant meshStride + workerDeviceIdx,
        workerCoreY.mod (.constant meshY))
    else (workerDeviceIdx, workerCoreY)
  let meshStride := meshStride * meshY
  let workerDeviceIdx := (linearizeOuterDims meshShape rank (workerDeviceIdx, meshStride)).1
  { shape := virtualGrid
    mapping := ⟨rank, 0, [workerDeviceIdx, workerCoreY, workerCoreX]⟩ }

-- A 1x2 mesh of 8x8 chips: an 8x16 virtual grid whose core column is `d1 mod 2`.
example : createWorkerGrid 8 8 [1, 2] =
    { shape := [8, 16]
      mapping := ⟨2, 0, [.add (.floorDiv (.dim 1) (.constant 8)) (.constant 0), .dim 0,
        .mod (.dim 1) (.constant 2)]⟩ } := by decide

/-- The shapes a device can have: `DeviceAttr::verify` rejects grids with a
non-positive extent. -/
structure DeviceShape : Type where
  chipGridY : ℕ
  chipGridX : ℕ
  meshShape : List ℕ
  chipGridY_pos : 0 < chipGridY
  chipGridX_pos : 0 < chipGridX
  meshShape_pos : ∀ n ∈ meshShape, 0 < n

namespace DeviceShape

variable (d : DeviceShape)

/-- The worker grid of the device. -/
def workerGrid : GridAttr := createWorkerGrid d.chipGridY d.chipGridX d.meshShape

/-- The extent of the mesh dimension folded into the grid rows. -/
def meshY : ℕ := (padMeshShape d.meshShape).getD ((padMeshShape d.meshShape).length - 2) 1

/-- The extent of the mesh dimension folded into the grid columns. -/
def meshX : ℕ := (padMeshShape d.meshShape).getD ((padMeshShape d.meshShape).length - 1) 1

/-- The virtual cores: the coordinates inside the worker grid. -/
def virtualCores : Set (List ℕ) := {v | InShape v d.workerGrid.shape}

/-- The physical cores: a chip index below the number of chips of the mesh and a core
inside the chip grid. -/
def physicalCores : Set (List ℤ) :=
  {p | ∃ chip y x : ℕ, p = [(chip : ℤ), (y : ℤ), (x : ℤ)] ∧ chip < d.meshShape.prod ∧
    y < d.chipGridY ∧ x < d.chipGridX}

/-- The worker grid map on a virtual core. -/
def toPhysical (v : List ℕ) : List ℤ := d.workerGrid.mapping.eval (v.map Nat.cast) []

end DeviceShape

/-! ## One folded dimension -/

/-- What the map does with a coordinate of a folded dimension: the step along the mesh
and the core coordinate, for chip grid extent `g` and mesh extent `m`. -/
def foldDim (g m x : ℕ) : ℕ × ℕ := if 1 < m then (x / g, x % m) else (0, x)

/-- If the mesh extent is `1` or the chip grid extent, a folded coordinate splits into
quotient and remainder by the chip grid extent. -/
theorem foldDim_eq_div_mod {g m x : ℕ} (hm : m = 1 ∨ m = g) (hx : x < g * m) :
    foldDim g m x = (x / g, x % g) := by
  unfold foldDim
  rcases hm with rfl | rfl
  · have hxg : x < g := by omega
    simp [Nat.div_eq_of_lt hxg, Nat.mod_eq_of_lt hxg]
  · split_ifs with h1
    · rfl
    · have hg : m = 1 := by nlinarith [Nat.pos_of_lt_mul_left hx]
      subst hg
      have hx0 : x = 0 := by omega
      simp [hx0]

/-- Otherwise some coordinate leaves the chip grid, or two coordinates collide. -/
theorem exists_foldDim_bad {g m : ℕ} (hg : 0 < g) (hm : 0 < m) (hne : ¬(m = 1 ∨ m = g)) :
    (∃ x < g * m, g ≤ (foldDim g m x).2) ∨ ∃ x < g * m, x ≠ 0 ∧ foldDim g m x = foldDim g m 0 := by
  push Not at hne
  have h1 : 1 < m := by omega
  rcases Nat.lt_or_ge g m with hlt | hge
  · left
    refine ⟨g, by nlinarith, ?_⟩
    simp [foldDim, h1, Nat.mod_eq_of_lt hlt]
  · right
    have hmg : m < g := by omega
    refine ⟨m, by nlinarith, by omega, ?_⟩
    simp [foldDim, h1, Nat.div_eq_of_lt hmg]

/-! ## Shape bookkeeping -/

/-- The padded mesh shape splits into outer dimensions and the two folded ones. -/
theorem exists_padMeshShape_eq (meshShape : List ℕ) :
    ∃ outer my mx, padMeshShape meshShape = outer ++ [my, mx] := by
  have hlen : 2 ≤ (padMeshShape meshShape).length := by
    simp [padMeshShape]; omega
  refine ⟨(padMeshShape meshShape).take ((padMeshShape meshShape).length - 2),
    (padMeshShape meshShape)[(padMeshShape meshShape).length - 2],
    (padMeshShape meshShape)[(padMeshShape meshShape).length - 1], ?_⟩
  apply List.ext_getElem
  · simp; omega
  · intro i h₁ h₂
    rw [List.getElem_append]
    split_ifs with hi
    · simp
    · have hi' : i = (padMeshShape meshShape).length - 2
          ∨ i = (padMeshShape meshShape).length - 1 := by
        simp at hi; omega
      rcases hi' with rfl | rfl
      · simp
      · have h2 : (padMeshShape meshShape).length - 1
            - ((padMeshShape meshShape).length - 2) = 1 := by omega
        simp [h2]

theorem prod_padMeshShape (meshShape : List ℕ) :
    (padMeshShape meshShape).prod = meshShape.prod := by
  simp [padMeshShape, List.prod_append]

theorem padMeshShape_pos {meshShape : List ℕ} (h : ∀ n ∈ meshShape, 0 < n) :
    ∀ n ∈ padMeshShape meshShape, 0 < n := by
  intro n hn
  rcases List.mem_append.mp hn with hn | hn
  · exact h n hn
  · have := List.eq_of_mem_replicate hn
    omega

/-! ## The value of the map -/

/-- The linearization loop computes the row-major offset of the outer coordinates,
scaled by the starting stride. -/
theorem eval_linearizeOuterDims (outer rest i j : List ℕ) (e : AffineExpr) (stride : ℕ)
    (ds : List ℤ) (hds : ds = (i ++ j).map Nat.cast) (hi : i.length = outer.length) :
    (linearizeOuterDims (outer ++ rest) (outer.length + 2) (e, stride)).1.eval ds []
      = ((rowMajor outer i * stride : ℕ) : ℤ) + e.eval ds [] := by
  unfold linearizeOuterDims
  rw [Nat.add_sub_cancel]
  induction outer using List.reverseRecOn generalizing rest i j e stride with
  | nil =>
    have hnil : i = [] := List.length_eq_zero_iff.mp hi
    simp [hnil]
  | append_singleton outer m ih =>
    -- the last outer coordinate is the first one the loop visits
    obtain ⟨i', a, rfl⟩ : ∃ i' a, i = i' ++ [a] := by
      have hne : i ≠ [] := by rintro rfl; simp at hi
      exact ⟨i.dropLast, i.getLast hne, (List.dropLast_append_getLast hne).symm⟩
    have hi' : i'.length = outer.length := by simpa using hi
    have hda : ds.getD outer.length 0 = (a : ℤ) := by
      rw [hds, ← hi']
      simp [List.getD]
    have hm : (outer ++ [m] ++ rest).getD outer.length 1 = m := by
      simp [List.getD]
    rw [List.length_append, List.length_singleton, List.range_succ, List.reverse_append,
      List.reverse_singleton, List.singleton_append, List.foldl_cons, hm]
    have hstep := ih (m :: rest) i' (a :: j)
      (AffineExpr.dim outer.length * AffineExpr.constant stride + e) (stride * m)
      (by rw [hds]; simp) hi'
    have hoffset : rowMajor (outer ++ [m]) (i' ++ [a]) = rowMajor outer i' * m + a := by
      rw [rowMajor_append _ _ hi']
      simp [rowMajor]
    rw [show outer ++ [m] ++ rest = outer ++ m :: rest by simp, hstep,
      AffineExpr.eval_add, AffineExpr.eval_mul, AffineExpr.eval_dim,
      AffineExpr.eval_constant, hda, hoffset]
    push_cast
    ring

/-- **The map on a virtual core.**  The chip index is the row-major offset of the outer
coordinates and the two folded steps; the core is the pair of folded coordinates. -/
theorem eval_createWorkerGrid {gridY gridX my mx : ℕ} {meshShape outer i : List ℕ}
    (hmesh : padMeshShape meshShape = outer ++ [my, mx]) (hi : i.length = outer.length)
    (y x : ℕ) :
    (createWorkerGrid gridY gridX meshShape).mapping.eval ((i ++ [y, x]).map Nat.cast) []
      = [((rowMajor outer i * (mx * my) + (foldDim gridY my y).1 * mx
            + (foldDim gridX mx x).1 : ℕ) : ℤ),
          (((foldDim gridY my y).2 : ℕ) : ℤ), (((foldDim gridX mx x).2 : ℕ) : ℤ)] := by
  have hrank : (outer ++ [my, mx]).length = outer.length + 2 := by simp
  have hmx : (outer ++ [my, mx]).getD (outer.length + 2 - 1) 1 = mx := by
    simp [List.getD]
  have hmy : (outer ++ [my, mx]).getD (outer.length + 2 - 2) 1 = my := by
    simp [List.getD]
  have hx : ((i ++ [y, x]).map (Nat.cast : ℕ → ℤ)).getD (outer.length + 2 - 1) 0 = x := by
    rw [← hi]; simp [List.getD]
  have hy : ((i ++ [y, x]).map (Nat.cast : ℕ → ℤ)).getD (outer.length + 2 - 2) 0 = y := by
    rw [← hi]; simp [List.getD]
  unfold createWorkerGrid AffineMap.eval
  simp only [hmesh, hrank, hmx, hmy, List.map_cons, List.map_nil]
  rw [eval_linearizeOuterDims outer [my, mx] i [y, x] _ _ _ rfl hi]
  unfold foldDim
  split_ifs <;> simp only [AffineExpr.eval_add, AffineExpr.eval_mul, AffineExpr.eval_floorDiv,
      AffineExpr.eval_mod, AffineExpr.eval_constant, AffineExpr.eval_dim, hx, hy] <;>
    push_cast <;> simp [add_assoc]

/-- A virtual core splits into outer coordinates and the two folded ones. -/
theorem inShape_workerGrid_iff {gridY gridX my mx : ℕ} {meshShape outer : List ℕ}
    (hmesh : padMeshShape meshShape = outer ++ [my, mx]) (v : List ℕ) :
    InShape v (createWorkerGrid gridY gridX meshShape).shape ↔
      ∃ i y x, v = i ++ [y, x] ∧ InShape i outer ∧ y < gridY * my ∧ x < gridX * mx := by
  have hshape : (createWorkerGrid gridY gridX meshShape).shape
      = outer ++ [gridY * my, gridX * mx] := by
    have hones : List.zipWith (· * ·) (List.replicate outer.length 1) outer = outer := by
      apply List.ext_getElem <;> simp
    simp only [createWorkerGrid, hmesh]
    rw [show (outer ++ [my, mx]).length - 2 = outer.length by simp,
      List.zipWith_append (by simp), hones]
    rfl
  rw [hshape, inShape_append_iff]
  constructor
  · rintro ⟨i, j, rfl, hi, hj⟩
    cases hj with
    | @cons y _ j _ hy hj =>
      cases hj with
      | @cons x _ j _ hx hj =>
        obtain rfl := List.forall₂_nil_right_iff.mp hj
        exact ⟨i, y, x, rfl, hi, hy, hx⟩
  · rintro ⟨i, y, x, rfl, hi, hy, hx⟩
    exact ⟨i, [y, x], rfl, hi, List.Forall₂.cons hy (List.Forall₂.cons hx List.Forall₂.nil)⟩

/-! ## The bijection -/

namespace DeviceShape

variable (d : DeviceShape)

theorem exists_outer : ∃ outer, padMeshShape d.meshShape = outer ++ [d.meshY, d.meshX] := by
  obtain ⟨outer, my, mx, hmesh⟩ := exists_padMeshShape_eq d.meshShape
  have hmy : d.meshY = my := by simp [meshY, hmesh, List.getD]
  have hmx : d.meshX = mx := by simp [meshX, hmesh, List.getD]
  exact ⟨outer, by rw [hmy, hmx, hmesh]⟩

theorem meshY_pos : 0 < d.meshY := by
  obtain ⟨outer, hmesh⟩ := d.exists_outer
  exact padMeshShape_pos d.meshShape_pos _ (by simp [hmesh])

theorem meshX_pos : 0 < d.meshX := by
  obtain ⟨outer, hmesh⟩ := d.exists_outer
  exact padMeshShape_pos d.meshShape_pos _ (by simp [hmesh])

/-- When both folded extents are `1` or the chip grid extent, a virtual core goes to
the row-major chip of its mesh coordinates and to the core left over. -/
theorem toPhysical_eq {outer i : List ℕ} {y x : ℕ}
    (hmesh : padMeshShape d.meshShape = outer ++ [d.meshY, d.meshX])
    (hmy : d.meshY = 1 ∨ d.meshY = d.chipGridY) (hmx : d.meshX = 1 ∨ d.meshX = d.chipGridX)
    (hi : InShape i outer) (hy : y < d.chipGridY * d.meshY)
    (hx : x < d.chipGridX * d.meshX) :
    d.toPhysical (i ++ [y, x]) =
      [((rowMajor (outer ++ [d.meshY, d.meshX]) (i ++ [y / d.chipGridY, x / d.chipGridX])
          : ℕ) : ℤ), ((y % d.chipGridY : ℕ) : ℤ), ((x % d.chipGridX : ℕ) : ℤ)] := by
  have hlen : i.length = outer.length := hi.length_eq
  rw [toPhysical, workerGrid, eval_createWorkerGrid hmesh hlen,
    foldDim_eq_div_mod hmy hy, foldDim_eq_div_mod hmx hx, rowMajor_append _ _ hlen]
  simp only [rowMajor_cons, rowMajor_nil, List.prod_cons, List.prod_nil, mul_one, add_zero]
  congr 2
  ring

/-- **Sufficiency.**  If each folded mesh extent is `1` or the chip grid extent, the
worker grid map is a bijection onto the physical cores. -/
theorem toPhysical_bijOn (hmy : d.meshY = 1 ∨ d.meshY = d.chipGridY)
    (hmx : d.meshX = 1 ∨ d.meshX = d.chipGridX) :
    Set.BijOn d.toPhysical d.virtualCores d.physicalCores := by
  obtain ⟨outer, hmesh⟩ := d.exists_outer
  have hvirtual : ∀ v, v ∈ d.virtualCores ↔ ∃ i y x, v = i ++ [y, x] ∧ InShape i outer ∧
      y < d.chipGridY * d.meshY ∧ x < d.chipGridX * d.meshX :=
    inShape_workerGrid_iff hmesh
  have hcoords : ∀ {i : List ℕ} {y x : ℕ}, InShape i outer → y < d.chipGridY * d.meshY →
      x < d.chipGridX * d.meshX → InShape (i ++ [y / d.chipGridY, x / d.chipGridX])
        (outer ++ [d.meshY, d.meshX]) := by
    intro i y x hi hy hx
    refine inShape_append_iff.mpr ⟨i, _, rfl, hi, List.Forall₂.cons (Nat.div_lt_of_lt_mul hy)
      (List.Forall₂.cons (Nat.div_lt_of_lt_mul hx) List.Forall₂.nil)⟩
  have hprod : (outer ++ [d.meshY, d.meshX]).prod = d.meshShape.prod := by
    rw [← hmesh, prod_padMeshShape]
  refine ⟨?_, ?_, ?_⟩
  · intro v hv
    obtain ⟨i, y, x, rfl, hi, hy, hx⟩ := (hvirtual v).mp hv
    refine ⟨_, _, _, d.toPhysical_eq hmesh hmy hmx hi hy hx, ?_,
      Nat.mod_lt _ d.chipGridY_pos, Nat.mod_lt _ d.chipGridX_pos⟩
    rw [← hprod]
    exact rowMajor_lt (hcoords hi hy hx)
  · intro v hv v' hv' heq
    obtain ⟨i, y, x, rfl, hi, hy, hx⟩ := (hvirtual v).mp hv
    obtain ⟨i', y', x', rfl, hi', hy', hx'⟩ := (hvirtual v').mp hv'
    rw [d.toPhysical_eq hmesh hmy hmx hi hy hx, d.toPhysical_eq hmesh hmy hmx hi' hy' hx'] at heq
    simp only [List.cons.injEq, Nat.cast_inj, and_true] at heq
    obtain ⟨hchip, hmody, hmodx⟩ := heq
    -- equal chips have equal mesh coordinates
    have hidx := rowMajor_injOn _ (hcoords hi hy hx) (hcoords hi' hy' hx') hchip
    obtain ⟨rfl, hdiv⟩ := List.append_inj' hidx (by simp)
    simp only [List.cons.injEq, and_true] at hdiv
    have hyy : y = y' := by
      rw [← Nat.div_add_mod y d.chipGridY, ← Nat.div_add_mod y' d.chipGridY, hdiv.1, hmody]
    have hxx : x = x' := by
      rw [← Nat.div_add_mod x d.chipGridX, ← Nat.div_add_mod x' d.chipGridX, hdiv.2, hmodx]
    rw [hyy, hxx]
  · rintro p ⟨chip, cy, cx, rfl, hchip, hcy, hcx⟩
    rw [← hprod] at hchip
    -- read the mesh coordinates of the chip back, then place the core
    obtain ⟨i, j, hij, hi, hj⟩ := inShape_append_iff.mp (inShape_unravel _ chip hchip)
    cases hj with
    | @cons a _ j _ ha hj =>
      cases hj with
      | @cons b _ j _ hb hj =>
        obtain rfl := List.forall₂_nil_right_iff.mp hj
        have hy : d.chipGridY * a + cy < d.chipGridY * d.meshY := by nlinarith
        have hx : d.chipGridX * b + cx < d.chipGridX * d.meshX := by nlinarith
        refine ⟨i ++ [d.chipGridY * a + cy, d.chipGridX * b + cx],
          (hvirtual _).mpr ⟨i, _, _, rfl, hi, hy, hx⟩, ?_⟩
        rw [d.toPhysical_eq hmesh hmy hmx hi hy hx,
          Nat.mul_add_div d.chipGridY_pos, Nat.div_eq_of_lt hcy,
          Nat.mul_add_div d.chipGridX_pos, Nat.div_eq_of_lt hcx,
          Nat.mul_add_mod, Nat.mod_eq_of_lt hcy, Nat.mul_add_mod, Nat.mod_eq_of_lt hcx,
          Nat.add_zero, Nat.add_zero, ← hij, rowMajor_unravel _ _ hchip]

/-- **Necessity.**  If the worker grid map is a bijection, each folded mesh extent is
`1` or the chip grid extent. -/
theorem mesh_of_toPhysical_bijOn (h : Set.BijOn d.toPhysical d.virtualCores d.physicalCores) :
    (d.meshY = 1 ∨ d.meshY = d.chipGridY) ∧ (d.meshX = 1 ∨ d.meshX = d.chipGridX) := by
  obtain ⟨outer, hmesh⟩ := d.exists_outer
  have houter : ∀ n ∈ outer, 0 < n := fun n hn =>
    padMeshShape_pos d.meshShape_pos n (by simp [hmesh, hn])
  -- the virtual cores in the first outer block
  set i := List.replicate outer.length 0 with hi_def
  have hi : InShape i outer := inShape_replicate_zero houter
  have hlen : i.length = outer.length := by simp [hi_def]
  have hmem : ∀ {y x : ℕ}, y < d.chipGridY * d.meshY → x < d.chipGridX * d.meshX →
      i ++ [y, x] ∈ d.virtualCores := fun hy hx =>
    (inShape_workerGrid_iff hmesh _).mpr ⟨i, _, _, rfl, hi, hy, hx⟩
  have heval : ∀ y x, d.toPhysical (i ++ [y, x]) = _ :=
    fun y x => eval_createWorkerGrid hmesh hlen y x
  have hy0 : 0 < d.chipGridY * d.meshY := Nat.mul_pos d.chipGridY_pos d.meshY_pos
  have hx0 : 0 < d.chipGridX * d.meshX := Nat.mul_pos d.chipGridX_pos d.meshX_pos
  constructor
  · by_contra hne
    rcases exists_foldDim_bad d.chipGridY_pos d.meshY_pos hne with
      ⟨y, hy, hout⟩ | ⟨y, hy, hy_ne, hcollide⟩
    · obtain ⟨chip, cy, cx, heq, -, hcy, -⟩ := h.mapsTo (hmem hy hx0)
      rw [heval] at heq
      simp only [List.cons.injEq, Nat.cast_inj] at heq
      omega
    · have heq : d.toPhysical (i ++ [y, 0]) = d.toPhysical (i ++ [0, 0]) := by
        rw [heval, heval, hcollide]
      have := h.injOn (hmem hy hx0) (hmem hy0 hx0) heq
      simp at this
      omega
  · by_contra hne
    rcases exists_foldDim_bad d.chipGridX_pos d.meshX_pos hne with
      ⟨x, hx, hout⟩ | ⟨x, hx, hx_ne, hcollide⟩
    · obtain ⟨chip, cy, cx, heq, -, -, hcx⟩ := h.mapsTo (hmem hy0 hx)
      rw [heval] at heq
      simp only [List.cons.injEq, Nat.cast_inj] at heq
      omega
    · have heq : d.toPhysical (i ++ [0, x]) = d.toPhysical (i ++ [0, 0]) := by
        rw [heval, heval, hcollide]
      have := h.injOn (hmem hy0 hx) (hmem hy0 hx0) heq
      simp at this
      omega

end DeviceShape

/-- **The worker grid map is a bijection onto the physical cores** exactly for the
devices whose two folded mesh extents are each `1` or the chip grid extent. -/
theorem workerGrid_bijOn_iff (d : DeviceShape) :
    Set.BijOn d.toPhysical d.virtualCores d.physicalCores ↔
      (d.meshY = 1 ∨ d.meshY = d.chipGridY) ∧ (d.meshX = 1 ∨ d.meshX = d.chipGridX) :=
  ⟨d.mesh_of_toPhysical_bijOn, fun h => d.toPhysical_bijOn h.1 h.2⟩

/-- Two 8x8 chips side by side, the mesh of the data-parallel example in the device
specification. -/
def twoChips : DeviceShape where
  chipGridY := 8
  chipGridX := 8
  meshShape := [1, 2]
  chipGridY_pos := Nat.succ_pos _
  chipGridX_pos := Nat.succ_pos _
  meshShape_pos := (by decide : ∀ n ∈ [1, 2], 1 ≤ n)

/-- On two 8x8 chips side by side the virtual cores `(0, 0)` and `(0, 2)` share the
physical core `(0, 0)` of chip `0`. -/
theorem twoChips_not_bijOn :
    [0, 0] ∈ twoChips.virtualCores ∧ [0, 2] ∈ twoChips.virtualCores ∧
      twoChips.toPhysical [0, 0] = [0, 0, 0] ∧ twoChips.toPhysical [0, 2] = [0, 0, 0] ∧
      ¬ Set.BijOn twoChips.toPhysical twoChips.virtualCores twoChips.physicalCores := by
  have h0 : [0, 0] ∈ twoChips.virtualCores := by
    show List.Forall₂ (· < ·) [0, 0] [8, 16]
    decide
  have h2 : [0, 2] ∈ twoChips.virtualCores := by
    show List.Forall₂ (· < ·) [0, 2] [8, 16]
    decide
  have e0 : twoChips.toPhysical [0, 0] = [0, 0, 0] := by decide
  have e2 : twoChips.toPhysical [0, 2] = [0, 0, 0] := by decide
  refine ⟨h0, h2, e0, e2, fun h => ?_⟩
  have := h.injOn h0 h2 (e0.trans e2.symm)
  simp at this

end WorkerGrid
