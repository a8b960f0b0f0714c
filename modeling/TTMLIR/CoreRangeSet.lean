/-
# Core ranges of a virtual grid

`toCoreRangeSet` of `CoreRangeSet.h` visits the coordinates of a virtual grid in
row-major order, maps each to a core of the chip, and grows a list of rectangles: a core
right of the top row of the last rectangle widens it, any other core starts a rectangle of
its own, and a rectangle just below its predecessor with the same columns is merged into
it.

* `toCoreRangeSet` : the translated function, on the coordinates of `sample`;
* `CoversExactly` : the rectangles are pairwise disjoint and cover a set of cores;
* `addCore_perm`, `addCore_length` : what one visited core does to the covered cores;
* `coversExactly_iff` : the rectangles cover exactly the mapped cores if and only if no
  visited core widens a rectangle of several rows;
* `neverWidensTall_of_rows` : visiting the rows of the chip from top to bottom suffices;
* `coversExactly_createSingleDevice` : the maps of sharded tensors.

Widening a rectangle looks at its top row only and adds a whole column.
-/
import TTMLIR.DramMap
import TTMLIR.TTNNLayout

open MLIR MixedRadix DramMap

namespace CoreRangeSet

/-! ## The translated code -/

/-- A core of a chip. -/
structure Core : Type where
  y : ℤ
  x : ℤ
  deriving DecidableEq, Repr

/-- `locSize2d`: the location and the size of a rectangle of cores. -/
structure LocSize2d : Type where
  locX : ℤ
  locY : ℤ
  sizeX : ℤ
  sizeY : ℤ
  deriving DecidableEq, Repr

/-- `static_cast<int32_t>`. -/
def int32Cast (a : ℤ) : ℤ := a.bmod (2 ^ 32)

/-- `ttmlir::utils::sample`: the index vectors it visits, in order. -/
def sample : List ℕ → List (List ℕ)
  | [] => []
  | n :: shape =>
    let strides := calculateStrides (n :: shape) 1
    let volume := n * strides.headD 0
    (List.range volume).map fun i =>
      List.zipWith (fun stride extent => (i / stride) % extent) strides (n :: shape)

/-- The rectangle of one core. -/
def single (core : Core) : LocSize2d := ⟨int32Cast core.x, int32Cast core.y, 1, 1⟩

/-- The core lies right of the top row of a rectangle. -/
def RightOfTop (range : LocSize2d) (core : Core) : Prop :=
  range.locY = core.y ∧ range.locX + range.sizeX = core.x

instance (range : LocSize2d) (core : Core) : Decidable (RightOfTop range core) :=
  inferInstanceAs (Decidable (_ ∧ _))

/-- The first half of a visit: widen the last rectangle or push a new one.  The last
rectangle is the head of the list. -/
def growOrPush (core : Core) : List LocSize2d → List LocSize2d
  | [] => [single core]
  | back :: rest =>
    if RightOfTop back core then { back with sizeX := back.sizeX + 1 } :: rest
    else single core :: back :: rest

theorem growOrPush_cons (core : Core) (back : LocSize2d) (rest : List LocSize2d) :
    growOrPush core (back :: rest) =
      if RightOfTop back core then { back with sizeX := back.sizeX + 1 } :: rest
      else single core :: back :: rest := rfl

/-- The second half of a visit: merge the last rectangle into the one before it. -/
def mergeBack : List LocSize2d → Option (List LocSize2d)
  | back :: prev :: rest =>
    if prev.locX = back.locX ∧ prev.sizeX = back.sizeX ∧
        prev.locY + prev.sizeY = back.locY then
      -- `assert(size[1] == 1)`
      if back.sizeY = 1 then some ({ prev with sizeY := prev.sizeY + 1 } :: rest)
      else none
    else some (back :: prev :: rest)
  | ranges => some ranges

/-- One visit of a core. -/
def addCore (ranges : List LocSize2d) (core : Core) : Option (List LocSize2d) :=
  mergeBack (growOrPush core ranges)

/-- The lambda of `toCoreRangeSet`, with its two assertions on the mapped coordinate. -/
def visit (mapping : AffineMap) (ranges : List LocSize2d) (virtualCoreCoord : List ℕ) :
    Option (List LocSize2d) :=
  match mapping.eval (virtualCoreCoord.map Nat.cast) [] with
  | [deviceIdx, y, x] => if deviceIdx = 0 then addCore ranges ⟨y, x⟩ else none
  | _ => none

/-- `toCoreRangeSet`; `none` when an assertion fails. -/
def toCoreRangeSet (virtualGridShape : List ℕ) (mapping : AffineMap) :
    Option (List LocSize2d) :=
  ((sample virtualGridShape).foldlM (visit mapping) []).map List.reverse

/-- `createSingleDeviceVirtualToPhysicalAffineMap`. -/
def createSingleDeviceVirtualToPhysicalAffineMap
    (tensorMemoryLayout : TTNN.TensorMemoryLayout) (physicalGridShape : List ℕ) :
    AffineMap :=
  let workerDeviceIdx := AffineExpr.constant 0
  let workerCoreW := AffineExpr.constant (physicalGridShape.getD 1 0)
  match tensorMemoryLayout with
  | .widthSharded =>
    let virtualWidth := AffineExpr.dim 1
    ⟨2, 0, [workerDeviceIdx, virtualWidth.floorDiv workerCoreW, virtualWidth.mod workerCoreW]⟩
  | .heightSharded =>
    let virtualHeight := AffineExpr.dim 0
    ⟨2, 0, [workerDeviceIdx, virtualHeight.floorDiv workerCoreW,
      virtualHeight.mod workerCoreW]⟩
  | _ => ⟨2, 0, [workerDeviceIdx, .dim 0, .dim 1]⟩

/-- `(d0, d1) -> (0, d1, d0)`, the transposed grid of the device specification. -/
def transposedMap : AffineMap := ⟨2, 0, [.constant 0, .dim 1, .dim 0]⟩

/-! ## Exact covers -/

/-- The cores of a rectangle. -/
def region (range : LocSize2d) : Set Core :=
  {core | range.locY ≤ core.y ∧ core.y < range.locY + range.sizeY ∧
    range.locX ≤ core.x ∧ core.x < range.locX + range.sizeX}

instance (core : Core) (range : LocSize2d) : Decidable (core ∈ region range) :=
  inferInstanceAs (Decidable (range.locY ≤ core.y ∧ core.y < range.locY + range.sizeY ∧
    range.locX ≤ core.x ∧ core.x < range.locX + range.sizeX))

/-- The rectangles are pairwise disjoint and their union is a given set of cores. -/
def CoversExactly (ranges : List LocSize2d) (cores : Set Core) : Prop :=
  ranges.Pairwise (fun a b => Disjoint (region a) (region b)) ∧
    {core | ∃ range ∈ ranges, core ∈ region range} = cores

/-- The cores a virtual grid is mapped to. -/
def mappedCores (virtualGridShape : List ℕ) (mapping : AffineMap) : Set Core :=
  {core | ∃ coord, InShape coord virtualGridShape ∧
    mapping.eval (coord.map Nat.cast) [] = [0, core.y, core.x]}

/-- The grid of cores of a chip; coordinates of cores are 32 bit integers. -/
structure Chip : Type where
  height : ℕ
  width : ℕ
  height_lt : height < 2 ^ 31
  width_lt : width < 2 ^ 31

/-- A core of the chip. -/
def Chip.Has (chip : Chip) (core : Core) : Prop :=
  0 ≤ core.y ∧ core.y < chip.height ∧ 0 ≤ core.x ∧ core.x < chip.width

/-- The mapping sends the coordinates of a virtual grid injectively to cores of one
chip. -/
structure MapsInto (chip : Chip) (virtualGridShape : List ℕ) (mapping : AffineMap) :
    Prop where
  onChip : ∀ coord, InShape coord virtualGridShape →
    ∃ core, chip.Has core ∧ mapping.eval (coord.map Nat.cast) [] = [0, core.y, core.x]
  injective : ∀ a b, InShape a virtualGridShape → InShape b virtualGridShape →
    mapping.eval (a.map Nat.cast) [] = mapping.eval (b.map Nat.cast) [] → a = b

/-- The visited core lies right of the top row of the last rectangle, and that rectangle
has several rows. -/
def WidensTall : List LocSize2d → Core → Prop
  | [], _ => False
  | back :: _, core => RightOfTop back core ∧ back.sizeY ≠ 1

/-- No core of a visit widens a rectangle of several rows. -/
def NeverWidensTall (cores : List Core) : Prop :=
  ∀ visited core later ranges, cores = visited ++ core :: later →
    visited.foldlM addCore [] = some ranges → ¬ WidensTall ranges core

/-- The core a mapped coordinate denotes. -/
def coreOf (mapping : AffineMap) (virtualCoreCoord : List ℕ) : Core :=
  let coreCoord := mapping.eval (virtualCoreCoord.map Nat.cast) []
  ⟨coreCoord.getD 1 0, coreCoord.getD 2 0⟩

/-- The cores in the order `toCoreRangeSet` visits them. -/
def visitedCores (virtualGridShape : List ℕ) (mapping : AffineMap) : List Core :=
  (sample virtualGridShape).map (coreOf mapping)

/-! ## The covered cores, with multiplicity -/

/-- The cores of a rectangle, row by row. -/
def cells (range : LocSize2d) : List Core :=
  (List.range range.sizeY.toNat).flatMap fun (i : ℕ) =>
    (List.range range.sizeX.toNat).map fun (j : ℕ) => ⟨range.locY + i, range.locX + j⟩

/-- The cores of a list of rectangles. -/
def tiles (ranges : List LocSize2d) : List Core := ranges.flatMap cells

theorem mem_cells (range : LocSize2d) (core : Core) : core ∈ cells range ↔ core ∈ region range := by
  obtain ⟨y, x⟩ := core
  simp only [cells, region, List.mem_flatMap, List.mem_map, List.mem_range, Core.mk.injEq,
    Set.mem_ofPred_eq]
  constructor
  · rintro ⟨i, hi, j, hj, rfl, rfl⟩
    omega
  · intro h
    refine ⟨(y - range.locY).toNat, ?_, (x - range.locX).toNat, ?_, ?_, ?_⟩ <;> omega

/-- A rectangle lists no core twice. -/
theorem nodup_cells (range : LocSize2d) : (cells range).Nodup := by
  apply List.nodup_flatMap.mpr
  refine ⟨?_, ?_⟩
  · intro i _
    apply List.nodup_range.map
    intro a b hab
    have hx : range.locX + (a : ℤ) = range.locX + b := congrArg Core.x hab
    omega
  · apply List.nodup_range.imp
    intro a b hab
    show List.Disjoint _ _
    intro core ha hb
    obtain ⟨j, -, rfl⟩ := List.mem_map.mp ha
    obtain ⟨k, -, hk⟩ := List.mem_map.mp hb
    have hy : range.locY + (b : ℤ) = range.locY + a := congrArg Core.y hk
    omega

theorem length_cells (range : LocSize2d) :
    (cells range).length = range.sizeY.toNat * range.sizeX.toNat := by
  simp [cells, List.length_flatMap, List.map_const']

@[simp] theorem tiles_cons (range : LocSize2d) (ranges : List LocSize2d) :
    tiles (range :: ranges) = cells range ++ tiles ranges := rfl

variable {ranges : List LocSize2d} {cores : List Core}

/-- Lists of rectangles that cover each visited core once cover exactly the visited
cores. -/
theorem coversExactly_of_perm (hperm : (tiles ranges).Perm cores) (hcores : cores.Nodup) :
    CoversExactly ranges {core | core ∈ cores} := by
  have hnodup : (tiles ranges).Nodup := hperm.nodup_iff.mpr hcores
  refine ⟨?_, ?_⟩
  · apply (List.nodup_flatMap.mp hnodup).2.imp
    intro a b hab
    apply Set.disjoint_left.mpr
    intro core ha hb
    exact hab ((mem_cells a core).mpr ha) ((mem_cells b core).mpr hb)
  · ext core
    show (∃ range ∈ ranges, core ∈ region range) ↔ core ∈ cores
    rw [← hperm.mem_iff]
    simp only [tiles, List.mem_flatMap, mem_cells]

/-- Rectangles that cover exactly the visited cores have as many cores as were
visited. -/
theorem length_tiles_of_coversExactly
    (h : CoversExactly ranges {core | core ∈ cores}) (hcores : cores.Nodup) :
    (tiles ranges).length = cores.length := by
  have hnodup : (tiles ranges).Nodup := by
    apply List.nodup_flatMap.mpr
    refine ⟨fun range _ => nodup_cells range, ?_⟩
    apply h.1.imp
    intro a b hab
    show List.Disjoint _ _
    intro core ha hb
    exact Set.disjoint_left.mp hab ((mem_cells a core).mp ha) ((mem_cells b core).mp hb)
  apply List.Perm.length_eq
  apply (List.perm_ext_iff_of_nodup hnodup hcores).mpr
  intro core
  have hmem : core ∈ {core | ∃ range ∈ ranges, core ∈ region range} ↔ core ∈ cores := by
    rw [h.2]
    rfl
  rw [← hmem]
  simp only [tiles, List.mem_flatMap, mem_cells, Set.mem_ofPred_eq]

/-! ## One visited core -/

/-- Rectangles are never empty. -/
def Nonempty (ranges : List LocSize2d) : Prop :=
  ∀ range ∈ ranges, 1 ≤ range.sizeX ∧ 1 ≤ range.sizeY

theorem int32Cast_of_lt {a : ℤ} {n : ℕ} (ha : 0 ≤ a) (han : a < n) (hn : n < 2 ^ 31) :
    int32Cast a = a := by
  unfold int32Cast
  apply Int.bmod_eq_of_le <;> omega

variable {chip : Chip} {core : Core}

theorem single_eq (hcore : chip.Has core) : single core = ⟨core.x, core.y, 1, 1⟩ := by
  obtain ⟨hy, hyh, hx, hxw⟩ := hcore
  unfold single
  rw [int32Cast_of_lt hx hxw chip.width_lt, int32Cast_of_lt hy hyh chip.height_lt]

theorem cells_one (core : Core) : cells ⟨core.x, core.y, 1, 1⟩ = [core] := by
  simp [cells]

/-- Widening a rectangle of one row adds the core right of it. -/
theorem cells_widen_perm {range : LocSize2d} (hx : 1 ≤ range.sizeX)
    (hright : RightOfTop range core) (hy : range.sizeY = 1) :
    (cells { range with sizeX := range.sizeX + 1 }).Perm (core :: cells range) := by
  obtain ⟨y, x⟩ := core
  obtain ⟨hry, hrx⟩ := hright
  have hnot : (⟨y, x⟩ : Core) ∉ cells range := by
    rw [mem_cells]
    rintro ⟨-, -, -, hlt⟩
    exact absurd hlt (by show ¬ x < _; simp only at hrx; omega)
  apply (List.perm_ext_iff_of_nodup (nodup_cells _) (List.nodup_cons.mpr ⟨hnot, nodup_cells _⟩)).mpr
  rintro ⟨cy, cx⟩
  simp only at hry hrx
  simp only [List.mem_cons, mem_cells, region, Set.mem_ofPred_eq, Core.mk.injEq]
  omega

/-- Merging a rectangle of one row below its predecessor keeps the cores. -/
theorem cells_merge_perm {back prev : LocSize2d} (hx : prev.locX = back.locX)
    (hw : prev.sizeX = back.sizeX) (hy : prev.locY + prev.sizeY = back.locY)
    (hone : back.sizeY = 1) (hprev : 1 ≤ prev.sizeY) :
    (cells { prev with sizeY := prev.sizeY + 1 }).Perm (cells back ++ cells prev) := by
  have hdisj : List.Disjoint (cells back) (cells prev) := by
    intro core hb hp
    obtain ⟨hb1, -⟩ := (mem_cells _ _).mp hb
    obtain ⟨-, hp2, -⟩ := (mem_cells _ _).mp hp
    omega
  apply (List.perm_ext_iff_of_nodup (nodup_cells _)
    ((nodup_cells _).append (nodup_cells _) hdisj)).mpr
  rintro ⟨cy, cx⟩
  simp only [List.mem_append, mem_cells, region, Set.mem_ofPred_eq]
  omega

/-- What merging does: the cores stay, and the rectangles stay nonempty. -/
theorem mergeBack_perm {ranges merged : List LocSize2d} (hne : Nonempty ranges)
    (h : mergeBack ranges = some merged) :
    Nonempty merged ∧ (tiles merged).Perm (tiles ranges) := by
  match ranges with
  | [] =>
    cases h
    exact ⟨hne, List.Perm.refl _⟩
  | [back] =>
    cases h
    exact ⟨hne, List.Perm.refl _⟩
  | back :: prev :: rest =>
    simp only [mergeBack] at h
    split_ifs at h with hcond hone
    · cases h
      have hprev := hne prev (by simp)
      refine ⟨?_, ?_⟩
      · intro range hrange
        rcases List.mem_cons.mp hrange with rfl | hrest
        · exact ⟨hprev.1, by show 1 ≤ prev.sizeY + 1; omega⟩
        · exact hne range (by simp [hrest])
      · rw [tiles_cons, tiles_cons, tiles_cons, ← List.append_assoc]
        apply List.Perm.append_right
        exact cells_merge_perm hcond.1 hcond.2.1 hcond.2.2 hone hprev.2
    · cases h
      exact ⟨hne, List.Perm.refl _⟩

theorem mergeBack_isSome {back : LocSize2d} {rest : List LocSize2d} (h : back.sizeY = 1) :
    ∃ merged, mergeBack (back :: rest) = some merged := by
  cases rest with
  | nil => exact ⟨[back], rfl⟩
  | cons prev rest =>
    simp only [mergeBack, h, if_true]
    split_ifs
    · exact ⟨_, rfl⟩
    · exact ⟨_, rfl⟩

/-- Growing or pushing keeps the rectangles nonempty. -/
theorem nonempty_growOrPush (core : Core)
    (hne : Nonempty ranges) : Nonempty (growOrPush core ranges) := by
  have hpush : Nonempty (single core :: ranges) := by
    intro range hrange
    rcases List.mem_cons.mp hrange with rfl | hrest
    · exact ⟨le_refl _, le_refl _⟩
    · exact hne range hrest
  cases ranges with
  | nil => exact hpush
  | cons back rest =>
    rw [growOrPush_cons]
    split_ifs
    · intro range hrange
      rcases List.mem_cons.mp hrange with rfl | hrest
      · have hback := hne back (by simp)
        exact ⟨by show 1 ≤ back.sizeX + 1; omega, hback.2⟩
      · exact hne range (by simp [hrest])
    · exact hpush

/-- A core that does not widen a rectangle of several rows is added to the covered
cores. -/
theorem growOrPush_perm
    (hne : Nonempty ranges) (hcore : chip.Has core) (hfine : ¬ WidensTall ranges core) :
    (tiles (growOrPush core ranges)).Perm (core :: tiles ranges) := by
  have hpush : (tiles (single core :: ranges)).Perm (core :: tiles ranges) := by
    rw [tiles_cons, single_eq hcore, cells_one]
    exact List.Perm.refl _
  cases ranges with
  | nil => exact hpush
  | cons back rest =>
    rw [growOrPush_cons]
    split_ifs with hright
    · have hone : back.sizeY = 1 := by
        by_contra hy
        exact hfine ⟨hright, hy⟩
      rw [tiles_cons, tiles_cons, ← List.cons_append]
      apply List.Perm.append_right
      exact cells_widen_perm (hne back (by simp)).1 hright hone
    · exact hpush

theorem growOrPush_sizeY (hfine : ¬ WidensTall ranges core) :
    ∃ back rest, growOrPush core ranges = back :: rest ∧ back.sizeY = 1 := by
  cases ranges with
  | nil => exact ⟨_, _, rfl, rfl⟩
  | cons back rest =>
    rw [growOrPush_cons]
    split_ifs with hright
    · refine ⟨_, _, rfl, ?_⟩
      by_contra hy
      exact hfine ⟨hright, hy⟩
    · exact ⟨_, _, rfl, rfl⟩

/-- **One core.**  A core that does not widen a rectangle of several rows fails no
assertion and is added to the covered cores. -/
theorem addCore_perm
    (hne : Nonempty ranges) (hcore : chip.Has core) (hfine : ¬ WidensTall ranges core) :
    ∃ added, addCore ranges core = some added ∧ Nonempty added ∧
      (tiles added).Perm (core :: tiles ranges) := by
  obtain ⟨back, rest, hgrow, hone⟩ := growOrPush_sizeY hfine
  obtain ⟨added, hadded⟩ := mergeBack_isSome hone
  rw [← hgrow] at hadded
  obtain ⟨hne', hperm⟩ := mergeBack_perm (nonempty_growOrPush core hne) hadded
  exact ⟨added, hadded, hne', hperm.trans (growOrPush_perm hne hcore hfine)⟩

/-- **One widened column.**  A core that widens a rectangle of several rows adds more than
itself to the covered cores. -/
theorem addCore_length {ranges added : List LocSize2d}
    (hne : Nonempty ranges) (hwide : WidensTall ranges core)
    (hadded : addCore ranges core = some added) :
    Nonempty added ∧ (tiles ranges).length + 1 < (tiles added).length := by
  obtain ⟨hne', hperm⟩ := mergeBack_perm (nonempty_growOrPush core hne) hadded
  refine ⟨hne', ?_⟩
  rw [hperm.length_eq]
  cases ranges with
  | nil => exact absurd hwide id
  | cons back rest =>
    obtain ⟨hright, hy⟩ := hwide
    obtain ⟨hx, hy1⟩ := hne back (by simp)
    rw [growOrPush_cons]
    rw [if_pos hright, tiles_cons, tiles_cons, List.length_append, List.length_append,
      length_cells, length_cells]
    have hw : (back.sizeX + 1).toNat = back.sizeX.toNat + 1 := by omega
    have hrows : 2 ≤ back.sizeY.toNat := by omega
    show _ < back.sizeY.toNat * (back.sizeX + 1).toNat + _
    rw [hw, Nat.mul_add, Nat.mul_one]
    omega

/-! ## A whole visit -/

/-- The condition on a longer visit, by its last core. -/
theorem neverWidensTall_concat (cores : List Core) (core : Core) :
    NeverWidensTall (cores ++ [core]) ↔ NeverWidensTall cores ∧
      ∀ ranges, cores.foldlM addCore [] = some ranges → ¬ WidensTall ranges core := by
  constructor
  · intro h
    refine ⟨?_, ?_⟩
    · intro visited c later ranges hcores hranges
      exact h visited c (later ++ [core]) ranges (by simp [hcores]) hranges
    · intro ranges hranges
      exact h cores core [] ranges rfl hranges
  · rintro ⟨hcores, hlast⟩ visited c later ranges hsplit hranges
    rcases List.eq_nil_or_concat later with rfl | ⟨later', d, rfl⟩
    · obtain ⟨rfl, hc⟩ := List.append_inj' hsplit rfl
      cases hc
      exact hlast ranges hranges
    · rw [List.concat_eq_append, ← List.cons_append, ← List.append_assoc] at hsplit
      obtain ⟨rfl, -⟩ := List.append_inj' hsplit rfl
      exact hcores visited c later' ranges rfl hranges

theorem foldlM_addCore_concat (cores : List Core) (core : Core) :
    (cores ++ [core]).foldlM addCore [] =
      (cores.foldlM addCore []).bind fun ranges => addCore ranges core := by
  rw [List.foldlM_append]
  show (cores.foldlM addCore []).bind _ = _
  congr 1
  funext ranges
  show (addCore ranges core).bind some = _
  exact Option.bind_fun_some _

/-- **A visit without a bad step.**  No assertion fails and every core is covered as often
as it is visited. -/
theorem addCores_perm (hcores : ∀ c ∈ cores, chip.Has c) (hnever : NeverWidensTall cores) :
    ∃ ranges, cores.foldlM addCore [] = some ranges ∧ Nonempty ranges ∧
      (tiles ranges).Perm cores := by
  induction cores using List.reverseRecOn with
  | nil => exact ⟨[], rfl, by simp [Nonempty], List.Perm.refl _⟩
  | append_singleton cores core ih =>
    obtain ⟨hnever', hlast⟩ := (neverWidensTall_concat cores core).mp hnever
    obtain ⟨ranges, hranges, hne, hperm⟩ := ih (fun c hc => hcores c (by simp [hc])) hnever'
    obtain ⟨added, hadded, hne', hperm'⟩ :=
      addCore_perm hne (hcores core (by simp)) (hlast ranges hranges)
    refine ⟨added, ?_, hne', ?_⟩
    · rw [foldlM_addCore_concat, hranges]
      exact hadded
    · exact hperm'.trans ((hperm.cons core).trans (List.perm_append_singleton core cores).symm)

/-- **A visit with a bad step.**  A visit that fails no assertion covers at least as many
cores as it visits, and more when a core widens a rectangle of several rows. -/
theorem addCores_length (hcores : ∀ c ∈ cores, chip.Has c)
    (hranges : cores.foldlM addCore [] = some ranges) :
    Nonempty ranges ∧ cores.length ≤ (tiles ranges).length ∧
      (¬ NeverWidensTall cores → cores.length < (tiles ranges).length) := by
  induction cores using List.reverseRecOn generalizing ranges with
  | nil =>
    cases hranges
    refine ⟨by simp [Nonempty], le_refl _, ?_⟩
    intro hbad
    exact absurd (fun visited c later _ h _ => by simp at h) hbad
  | append_singleton cores core ih =>
    rw [foldlM_addCore_concat] at hranges
    obtain ⟨before, hbefore, hadded⟩ := Option.bind_eq_some_iff.mp hranges
    obtain ⟨hne, hle, hlt⟩ := ih (fun c hc => hcores c (by simp [hc])) hbefore
    have hcore := hcores core (by simp)
    rw [List.length_append, List.length_singleton]
    by_cases hwide : WidensTall before core
    · obtain ⟨hne', hmore⟩ := addCore_length hne hwide hadded
      exact ⟨hne', by omega, fun _ => by omega⟩
    · obtain ⟨added, hadded', hne', hperm⟩ := addCore_perm hne hcore hwide
      obtain rfl : added = ranges := Option.some.inj (hadded'.symm.trans hadded)
      have hlen : (tiles added).length = (tiles before).length + 1 := hperm.length_eq
      refine ⟨hne', by omega, ?_⟩
      intro hbad
      have hbad' : ¬ NeverWidensTall cores := by
        intro hgood
        apply hbad
        apply (neverWidensTall_concat cores core).mpr
        refine ⟨hgood, ?_⟩
        intro r hr
        rw [hbefore] at hr
        cases hr
        exact hwide
      have := hlt hbad'
      omega

/-! ## The coordinates of a virtual grid -/

/-- The index `sample` computes from an offset is the row-major one. -/
theorem sampleIndex_eq_unravel (shape : List ℕ) (k : ℕ) (hk : k < shape.prod) :
    List.zipWith (fun stride extent => (k / stride) % extent) (calculateStrides shape 1) shape
      = unravel shape k := by
  suffices h : ∀ m, List.zipWith (fun stride extent => (m / stride) % extent)
      (calculateStrides shape 1) shape = unravel shape (m % shape.prod) by
    rw [h, Nat.mod_eq_of_lt hk]
  clear hk k
  intro m
  induction shape with
  | nil => rfl
  | cons n shape ih =>
    rw [calculateStrides_cons, List.zipWith_cons_cons, ih, unravel, List.prod_cons,
      Nat.mul_one]
    congr 1
    · rw [Nat.mul_comm n, Nat.mod_mul_right_div_self]
    · rw [Nat.mod_mul_left_mod]

variable {shape : List ℕ}

/-- `sample` visits the index vectors of the shape in row-major order. -/
theorem sample_eq (hshape : shape ≠ []) :
    sample shape = (List.range shape.prod).map (unravel shape) := by
  cases shape with
  | nil => exact absurd rfl hshape
  | cons n shape =>
    have hhead : (calculateStrides (n :: shape) 1).headD 0 = shape.prod := by
      rw [calculateStrides_cons, List.headD_cons, Nat.mul_one]
    show (List.range (n * (calculateStrides (n :: shape) 1).headD 0)).map _ = _
    rw [hhead, ← List.prod_cons]
    apply List.map_congr_left
    intro k hk
    exact sampleIndex_eq_unravel _ k (List.mem_range.mp hk)

/-- `sample` visits exactly the index vectors of the shape. -/
theorem mem_sample (hshape : shape ≠ []) (coord : List ℕ) :
    coord ∈ sample shape ↔ InShape coord shape := by
  rw [sample_eq hshape, List.mem_map]
  constructor
  · rintro ⟨k, hk, rfl⟩
    exact inShape_unravel shape k (List.mem_range.mp hk)
  · intro h
    exact ⟨rowMajor shape coord, List.mem_range.mpr (rowMajor_lt h), unravel_rowMajor h⟩

/-- `sample` visits no index vector twice. -/
theorem nodup_sample (shape : List ℕ) : (sample shape).Nodup := by
  by_cases hshape : shape = []
  · rw [hshape]
    exact List.nodup_nil
  · rw [sample_eq hshape]
    apply List.Nodup.map_on _ List.nodup_range
    intro a ha b hb hab
    rw [← rowMajor_unravel shape a (List.mem_range.mp ha), hab,
      rowMajor_unravel shape b (List.mem_range.mp hb)]

/-! ## Exactly the mapped cores -/

section MapsInto

variable {chip : Chip} {shape : List ℕ} {mapping : AffineMap}

section

variable (h : MapsInto chip shape mapping)

include h

theorem MapsInto.eval_eq {coord : List ℕ} (hcoord : InShape coord shape) :
    chip.Has (coreOf mapping coord) ∧ mapping.eval (coord.map Nat.cast) []
      = [0, (coreOf mapping coord).y, (coreOf mapping coord).x] := by
  obtain ⟨core, hcore, heval⟩ := h.onChip coord hcoord
  have hcoreOf : coreOf mapping coord = core := by
    unfold coreOf
    rw [heval]
    rfl
  rw [hcoreOf]
  exact ⟨hcore, heval⟩

theorem MapsInto.visit_eq {coord : List ℕ}
    (hcoord : InShape coord shape) (ranges : List LocSize2d) :
    visit mapping ranges coord = addCore ranges (coreOf mapping coord) := by
  unfold visit
  rw [(h.eval_eq hcoord).2]
  rfl

theorem MapsInto.foldlM_visit (coords : List (List ℕ))
    (hcoords : ∀ coord ∈ coords, InShape coord shape) (ranges : List LocSize2d) :
    coords.foldlM (visit mapping) ranges = (coords.map (coreOf mapping)).foldlM addCore ranges := by
  induction coords generalizing ranges with
  | nil => rfl
  | cons coord coords ih =>
    rw [List.map_cons, List.foldlM_cons, List.foldlM_cons, h.visit_eq (hcoords coord (by simp))]
    congr 1
    funext next
    exact ih (fun c hc => hcoords c (by simp [hc])) next

/-- `toCoreRangeSet` visits the mapped cores. -/
theorem MapsInto.toCoreRangeSet_eq (hshape : shape ≠ []) : toCoreRangeSet shape mapping
      = ((visitedCores shape mapping).foldlM addCore []).map List.reverse := by
  unfold toCoreRangeSet visitedCores
  rw [h.foldlM_visit _ fun coord => (mem_sample hshape coord).mp]

theorem MapsInto.has_visitedCores (hshape : shape ≠ []) :
    ∀ core ∈ visitedCores shape mapping, chip.Has core := by
  intro core hcore
  obtain ⟨coord, hcoord, rfl⟩ := List.mem_map.mp hcore
  exact (h.eval_eq ((mem_sample hshape coord).mp hcoord)).1

theorem MapsInto.nodup_visitedCores (hshape : shape ≠ []) : (visitedCores shape mapping).Nodup := by
  apply List.Nodup.map_on _ (nodup_sample shape)
  intro a ha b hb hab
  have ha' := (mem_sample hshape a).mp ha
  have hb' := (mem_sample hshape b).mp hb
  apply h.injective a b ha' hb'
  rw [(h.eval_eq ha').2, (h.eval_eq hb').2, hab]

/-- The visited cores are the mapped cores. -/
theorem MapsInto.mappedCores_eq (hshape : shape ≠ []) :
    mappedCores shape mapping = {core | core ∈ visitedCores shape mapping} := by
  ext core
  constructor
  · rintro ⟨coord, hcoord, heval⟩
    refine List.mem_map.mpr ⟨coord, (mem_sample hshape coord).mpr hcoord, ?_⟩
    unfold coreOf
    rw [heval]
    rfl
  · intro hcore
    obtain ⟨coord, hcoord, rfl⟩ := List.mem_map.mp hcore
    have hin := (mem_sample hshape coord).mp hcoord
    exact ⟨coord, hin, (h.eval_eq hin).2⟩

end

end MapsInto

theorem coversExactly_reverse (ranges : List LocSize2d) (cores : Set Core) :
    CoversExactly ranges.reverse cores ↔ CoversExactly ranges cores := by
  unfold CoversExactly
  rw [List.pairwise_reverse]
  simp only [List.mem_reverse]
  apply and_congr_left
  intro _
  apply List.Pairwise.iff
  intro a b
  exact disjoint_comm

/-- **Exact covers.**  For a mapping that sends a virtual grid injectively to cores of one
chip, the returned rectangles are disjoint and cover exactly the mapped cores if and only
if the grid has a dimension and no visited core lies right of the top row of a last
rectangle of several rows. -/
theorem coversExactly_iff {chip : Chip} {shape : List ℕ} {mapping : AffineMap}
    (h : MapsInto chip shape mapping) :
    (∃ ranges, toCoreRangeSet shape mapping = some ranges ∧
      CoversExactly ranges (mappedCores shape mapping)) ↔
    shape ≠ [] ∧ NeverWidensTall (visitedCores shape mapping) := by
  constructor
  · rintro ⟨ranges, hranges, hexact⟩
    have hshape : shape ≠ [] := by
      rintro rfl
      -- nothing is visited although the empty index vector is mapped
      cases hranges
      obtain ⟨-, heval⟩ := h.eval_eq List.Forall₂.nil
      have hmem : coreOf mapping [] ∈ mappedCores [] mapping := ⟨[], List.Forall₂.nil, heval⟩
      rw [← hexact.2] at hmem
      obtain ⟨range, hrange, -⟩ := hmem
      exact absurd hrange (by simp)
    refine ⟨hshape, ?_⟩
    by_contra hbad
    rw [h.toCoreRangeSet_eq hshape] at hranges
    obtain ⟨final, hfinal, rfl⟩ := Option.map_eq_some_iff.mp hranges
    rw [h.mappedCores_eq hshape, coversExactly_reverse] at hexact
    have hlen := length_tiles_of_coversExactly hexact (h.nodup_visitedCores hshape)
    obtain ⟨-, -, hlt⟩ := addCores_length (h.has_visitedCores hshape) hfinal
    have := hlt hbad
    omega
  · rintro ⟨hshape, hnever⟩
    obtain ⟨final, hfinal, -, hperm⟩ := addCores_perm (h.has_visitedCores hshape) hnever
    refine ⟨final.reverse, ?_, ?_⟩
    · rw [h.toCoreRangeSet_eq hshape, hfinal]
      rfl
    · rw [h.mappedCores_eq hshape, coversExactly_reverse]
      exact coversExactly_of_perm hperm (h.nodup_visitedCores hshape)

/-- The chip of the device specification. -/
def chip8x8 : Chip := ⟨8, 8, by norm_num, by norm_num⟩

/-- The full `8x8` grid of a block sharded tensor. -/
theorem coversExactly_iff_blockSharded8x8 :
    (∃ ranges, toCoreRangeSet [8, 8]
        (createSingleDeviceVirtualToPhysicalAffineMap .blockSharded [8, 8]) = some ranges ∧
      CoversExactly ranges (mappedCores [8, 8]
        (createSingleDeviceVirtualToPhysicalAffineMap .blockSharded [8, 8]))) ↔
    [8, 8] ≠ [] ∧ NeverWidensTall (visitedCores [8, 8]
      (createSingleDeviceVirtualToPhysicalAffineMap .blockSharded [8, 8])) := by
  apply @coversExactly_iff chip8x8
  refine ⟨?_, ?_⟩
  · rintro coord (_ | ⟨ha, _ | ⟨hb, ⟨⟩⟩⟩)
    exact ⟨⟨_, _⟩, ⟨by simp, by simp [chip8x8, ha], by simp, by simp [chip8x8, hb]⟩, rfl⟩
  · rintro coord other (_ | ⟨ha, _ | ⟨hb, ⟨⟩⟩⟩) (_ | ⟨hc, _ | ⟨hd, ⟨⟩⟩⟩) heq
    simp [createSingleDeviceVirtualToPhysicalAffineMap, AffineMap.eval] at heq
    rw [heq.1, heq.2]

/-- The transposed `8x8` grid is mapped injectively to the cores of the chip. -/
theorem mapsInto_transposed8x8 : MapsInto chip8x8 [8, 8] transposedMap := by
  refine ⟨?_, ?_⟩
  · rintro coord (_ | ⟨ha, _ | ⟨hb, ⟨⟩⟩⟩)
    exact ⟨⟨_, _⟩, ⟨by simp, by simp [chip8x8, hb], by simp, by simp [chip8x8, ha]⟩, rfl⟩
  · rintro coord other (_ | ⟨ha, _ | ⟨hb, ⟨⟩⟩⟩) (_ | ⟨hc, _ | ⟨hd, ⟨⟩⟩⟩) heq
    simp [transposedMap, AffineMap.eval] at heq
    rw [heq.1, heq.2]

/-- The transposed grid of the device specification: the first column of cores becomes one
rectangle, and the first core of the second column widens it as a whole. -/
theorem transposed8x8_not_coversExactly :
    MapsInto chip8x8 [8, 8] transposedMap ∧
    ¬ ∃ ranges, toCoreRangeSet [8, 8] transposedMap = some ranges ∧
      CoversExactly ranges (mappedCores [8, 8] transposedMap) := by
  refine ⟨mapsInto_transposed8x8, ?_⟩
  rintro ⟨ranges, hranges, hdisjoint, -⟩
  have hrun : toCoreRangeSet [8, 8] transposedMap =
      some [⟨0, 0, 2, 8⟩, ⟨1, 1, 1, 7⟩, ⟨2, 0, 2, 8⟩, ⟨3, 1, 1, 7⟩,
        ⟨4, 0, 2, 8⟩, ⟨5, 1, 1, 7⟩, ⟨6, 0, 2, 8⟩, ⟨7, 1, 1, 7⟩] := by
    decide +kernel
  rw [hrun] at hranges
  cases hranges
  -- core (1, 1) is in the first two rectangles
  have hdisj := (List.pairwise_cons.mp hdisjoint).1 ⟨1, 1, 1, 7⟩ (by simp)
  have hfirst : (⟨1, 1⟩ : Core) ∈ region ⟨0, 0, 2, 8⟩ := by decide
  have hsecond : (⟨1, 1⟩ : Core) ∈ region ⟨1, 1, 1, 7⟩ := by decide
  exact Set.disjoint_left.mp hdisj hfirst hsecond

/-! ## Visiting the rows from top to bottom -/

/-- After a core that does not widen several rows, the last rectangle ends in its row. -/
theorem addCore_lastRow {ranges added : List LocSize2d}
    (hcore : chip.Has core) (hfine : ¬ WidensTall ranges core)
    (hadded : addCore ranges core = some added) :
    ∃ back rest, added = back :: rest ∧ back.locY + back.sizeY = core.y + 1 := by
  have hgrow : ∃ back rest, growOrPush core ranges = back :: rest ∧ back.sizeY = 1 ∧
      back.locY = core.y := by
    cases ranges with
    | nil => exact ⟨_, _, rfl, by rw [single_eq hcore], by rw [single_eq hcore]⟩
    | cons back rest =>
      rw [growOrPush_cons]
      split_ifs with hright
      · refine ⟨_, _, rfl, ?_, hright.1⟩
        by_contra hy
        exact hfine ⟨hright, hy⟩
      · exact ⟨_, _, rfl, by rw [single_eq hcore], by rw [single_eq hcore]⟩
  obtain ⟨back, rest, hback, hone, hrow⟩ := hgrow
  unfold addCore at hadded
  rw [hback] at hadded
  match rest with
  | [] =>
    cases hadded
    exact ⟨back, [], rfl, by omega⟩
  | prev :: rest =>
    simp only [mergeBack] at hadded
    split_ifs at hadded with hcond
    · cases hadded
      exact ⟨_, rest, rfl, by show prev.locY + (prev.sizeY + 1) = _; omega⟩
    · cases hadded
      exact ⟨back, prev :: rest, rfl, by omega⟩

/-- **Rows from top to bottom.**  When the rows of the visited cores never decrease, no
core widens a rectangle of several rows. -/
theorem neverWidensTall_of_rows
    (hcores : ∀ c ∈ cores, chip.Has c) (hrows : cores.Pairwise fun a b => a.y ≤ b.y) :
    NeverWidensTall cores := by
  -- the last rectangle ends in the row visited last, so its top row is above a new row
  suffices h : NeverWidensTall cores ∧ ∀ ranges, cores.foldlM addCore [] = some ranges →
      ∀ core : Core, (∀ c ∈ cores, c.y ≤ core.y) → ¬ WidensTall ranges core from h.1
  induction cores using List.reverseRecOn with
  | nil =>
    refine ⟨fun visited c later _ h _ => by simp at h, ?_⟩
    intro ranges hranges core _ hwide
    cases hranges
    exact hwide
  | append_singleton cores last ih =>
    obtain ⟨hrows', -, hle⟩ := List.pairwise_append.mp hrows
    obtain ⟨hnever, hnext⟩ := ih (fun c hc => hcores c (by simp [hc])) hrows'
    have hlast : ∀ c ∈ cores, c.y ≤ last.y := fun c hc => hle c hc last (by simp)
    refine ⟨(neverWidensTall_concat cores last).mpr
      ⟨hnever, fun ranges hranges => hnext ranges hranges last hlast⟩, ?_⟩
    intro added hadded core hbelow
    have hne := (addCores_length hcores hadded).1
    rw [foldlM_addCore_concat] at hadded
    obtain ⟨ranges, hranges, hstep⟩ := Option.bind_eq_some_iff.mp hadded
    obtain ⟨back, rest, rfl, hrow⟩ :=
      addCore_lastRow (hcores last (by simp)) (hnext ranges hranges last hlast) hstep
    rintro ⟨hright, hy⟩
    have hpos := (hne back (by simp)).2
    have hcore := hbelow last (by simp)
    have htop := hright.1
    omega

theorem neverWidensTall_of_monotone {mapping : AffineMap}
    (h : MapsInto chip shape mapping) (hshape : shape ≠ [])
    (hrows : ∀ i j, i < j → j < shape.prod →
      (coreOf mapping (unravel shape i)).y ≤ (coreOf mapping (unravel shape j)).y) :
    NeverWidensTall (visitedCores shape mapping) := by
  apply neverWidensTall_of_rows (h.has_visitedCores hshape)
  unfold visitedCores
  rw [sample_eq hshape, List.map_map, List.pairwise_map]
  apply List.Pairwise.imp_of_mem _ List.pairwise_lt_range
  intro i j _ hj hij
  exact hrows i j hij (List.mem_range.mp hj)

theorem unravel_pair (m n k : ℕ) : unravel [m, n] k = [k / n, k % n] := by
  simp [unravel]

/-- The virtual grids a memory layout is used with. -/
def VirtualGrid : TTNN.TensorMemoryLayout → List ℕ → Prop
  | .widthSharded, shape => ∃ n, shape = [1, n]
  | .heightSharded, shape => ∃ m, shape = [m, 1]
  | _, shape => ∃ m n, shape = [m, n]

/-- **Sharded tensors.**  For the maps of `createSingleDeviceVirtualToPhysicalAffineMap`
the rectangles cover exactly the mapped cores. -/
theorem coversExactly_createSingleDevice
    (tensorMemoryLayout : TTNN.TensorMemoryLayout) (physicalGridShape shape : List ℕ)
    (hgrid : VirtualGrid tensorMemoryLayout shape)
    (h : MapsInto chip shape
      (createSingleDeviceVirtualToPhysicalAffineMap tensorMemoryLayout physicalGridShape)) :
    ∃ ranges, toCoreRangeSet shape (createSingleDeviceVirtualToPhysicalAffineMap
        tensorMemoryLayout physicalGridShape) = some ranges ∧
      CoversExactly ranges (mappedCores shape (createSingleDeviceVirtualToPhysicalAffineMap
        tensorMemoryLayout physicalGridShape)) := by
  have hblock : ∀ n i j : ℕ, i < j → ((i / n : ℕ) : ℤ) ≤ (j / n : ℕ) := by
    intro n i j hij
    exact_mod_cast Nat.div_le_div_right hij.le
  have hwrap : ∀ i j : ℕ, i < j → (i : ℤ) / (physicalGridShape.getD 1 0 : ℕ)
      ≤ (j : ℤ) / (physicalGridShape.getD 1 0 : ℕ) := by
    intro i j hij
    exact_mod_cast Nat.div_le_div_right hij.le
  apply (coversExactly_iff h).mpr
  cases tensorMemoryLayout with
  | widthSharded =>
    obtain ⟨n, rfl⟩ := hgrid
    refine ⟨by simp, neverWidensTall_of_monotone h (by simp) ?_⟩
    intro i j hij hj
    have hn : j < n := by simpa using hj
    rw [unravel_pair, unravel_pair, Nat.mod_eq_of_lt hn, Nat.mod_eq_of_lt (by omega)]
    exact hwrap i j hij
  | heightSharded =>
    obtain ⟨m, rfl⟩ := hgrid
    refine ⟨by simp, neverWidensTall_of_monotone h (by simp) ?_⟩
    intro i j hij _
    rw [unravel_pair, unravel_pair, Nat.div_one, Nat.div_one]
    exact hwrap i j hij
  | interleaved | singleBank | blockSharded =>
    obtain ⟨m, n, rfl⟩ := hgrid
    refine ⟨by simp, neverWidensTall_of_monotone h (by simp) ?_⟩
    intro i j hij _
    rw [unravel_pair, unravel_pair]
    exact hblock n i j hij

end CoreRangeSet
