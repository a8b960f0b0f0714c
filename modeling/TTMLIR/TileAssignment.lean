/-
# Tile assignments

A tensor is cut into a grid of tiles, and the tiles are given to devices: by a list of device
numbers in row-major order of the grid, or by the numbers of a reshaped and transposed
iota.  The last dimension of the grid may count copies of a tile.

* `DeviceList` : how the devices of a grid are listed, and `deviceAt`, the device at an offset;
* `TileAssignment` : a grid and its devices, valid by construction;
* `tileAt_eq` : copies are the innermost dimension;
* `unravel_counts_eq_iff` : which offsets have the same tile;
* `deviceAt_transpose` : the devices of a transposed iota of two dimensions.
-/
import TTMLIR.MixedRadix

open MixedRadix

namespace TileAssignment

/-- The devices of a grid in row-major order. -/
inductive DeviceList : Type where
  | explicit (ids : List ℕ)
  | iota (reshape : List ℕ) (transpose : Option (List ℕ))
  deriving DecidableEq, Repr

namespace DeviceList

/-- The device numbers below `n`, each once. -/
def Valid (n : ℕ) : DeviceList → Prop
  | explicit ids => ids.Perm (List.range n)
  | iota reshape transpose => reshape ≠ [] ∧ (∀ r ∈ reshape, 0 < r) ∧ reshape.prod = n ∧
      ∀ perm ∈ transpose, perm.Perm (List.range reshape.length)

/-- The device at an offset.  Axis `j` of a transposed iota is axis `perm[j]` of the iota. -/
def deviceAt : DeviceList → ℕ → ℕ
  | explicit ids, k => ids.getD k 0
  | iota _ none, k => k
  | iota reshape (some perm), k =>
    rowMajor reshape ((List.range reshape.length).map fun axis =>
      (unravel (perm.map fun j => reshape.getD j 1) k).getD (perm.idxOf axis) 0)

/-- A transposed iota counts along the columns. -/
theorem deviceAt_transpose (r₀ r₁ k : ℕ) :
    (iota [r₀, r₁] (some [1, 0])).deviceAt k = k % r₀ * r₁ + k / r₀ := by
  simp [deviceAt, unravel, List.range_succ]

theorem deviceAt_untransposed (r₀ r₁ k : ℕ) : (iota [r₀, r₁] (some [0, 1])).deviceAt k = k := by
  have hdevice : (iota [r₀, r₁] (some [0, 1])).deviceAt k = k / r₁ * r₁ + k % r₁ := by
    simp [deviceAt, unravel, List.range_succ]
  rw [hdevice, Nat.mul_comm]
  exact Nat.div_add_mod k r₁

theorem deviceAt_singleton {r : ℕ} {transpose : Option (List ℕ)}
    (h : ∀ perm ∈ transpose, perm.Perm (List.range 1)) (k : ℕ) :
    (iota [r] transpose).deviceAt k = k := by
  cases transpose with
  | none => rfl
  | some perm =>
    obtain rfl : perm = [0] := List.perm_singleton.mp (h perm rfl)
    simp [deviceAt, unravel]

/-- The orders of two axes. -/
theorem eq_or_eq_of_perm {perm : List ℕ} (h : perm.Perm (List.range 2)) :
    perm = [0, 1] ∨ perm = [1, 0] := by
  have hlen : perm.length = 2 := h.length_eq
  obtain ⟨a, b, rfl⟩ := List.length_eq_two.mp hlen
  have ha : a ∈ List.range 2 := h.subset (by simp)
  have hb : b ∈ List.range 2 := h.subset (by simp)
  have hne : a ≠ b := by
    have hnodup := h.nodup_iff.mpr List.nodup_range
    simpa using hnodup
  rw [List.mem_range] at ha hb
  rcases Nat.eq_zero_or_pos a with rfl | ha'
  · exact Or.inl (by simp; omega)
  · exact Or.inr (by simp; omega)

end DeviceList

end TileAssignment

/-- A grid of tiles and the devices they are given to. -/
structure TileAssignment : Type where
  dims : List ℕ
  devices : TileAssignment.DeviceList
  lastTileDimReplicate : Bool
  dims_ne_nil : dims ≠ []
  dims_pos : ∀ n ∈ dims, 0 < n
  /-- Devices are numbered in 64 bits with a sign. -/
  numDevices_lt : dims.prod < 2 ^ 63
  valid : devices.Valid dims.prod

namespace TileAssignment

variable (t : TileAssignment)

/-- The number of devices. -/
def numDevices : ℕ := t.dims.prod

/-- The number of tiles in each dimension of the tensor. -/
def counts : List ℕ := if t.lastTileDimReplicate then t.dims.dropLast else t.dims

/-- The number of copies of a tile. -/
def replication : ℕ := if t.lastTileDimReplicate then t.dims.getLast t.dims_ne_nil else 1

/-- The tile at an offset of the grid. -/
def tileAt (k : ℕ) : List ℕ :=
  if t.lastTileDimReplicate then (unravel t.dims k).dropLast else unravel t.dims k

theorem replication_pos : 0 < t.replication := by
  unfold replication
  split_ifs
  · exact t.dims_pos _ (List.getLast_mem _)
  · exact Nat.one_pos

/-- The tiles, each as often as it is replicated, take all devices. -/
theorem prod_counts_mul_replication : t.counts.prod * t.replication = t.numDevices := by
  unfold counts replication numDevices
  split_ifs
  · conv_rhs => rw [← List.dropLast_append_getLast t.dims_ne_nil]
    rw [List.prod_append, List.prod_singleton]
  · exact Nat.mul_one _

theorem numDevices_pos : 0 < t.numDevices := prod_pos_of_forall_pos t.dims_pos

theorem counts_pos : ∀ n ∈ t.counts, 0 < n := by
  intro n hn
  unfold counts at hn
  split_ifs at hn
  · exact t.dims_pos n (List.mem_of_mem_dropLast hn)
  · exact t.dims_pos n hn

/-- **Copies are innermost.** -/
theorem tileAt_eq (k : ℕ) : t.tileAt k = unravel t.counts (k / t.replication) := by
  unfold tileAt counts replication
  split_ifs
  · conv_lhs => rw [← List.dropLast_append_getLast t.dims_ne_nil]
    exact dropLast_unravel_append _ _ _
  · rw [Nat.div_one]

/-- Every device has a tile. -/
theorem div_replication_lt {k : ℕ} (hk : k < t.numDevices) : k / t.replication < t.counts.prod := by
  rw [Nat.div_lt_iff_lt_mul t.replication_pos, prod_counts_mul_replication]
  exact hk

/-- **Equal tiles** are at offsets with equal quotients by the number of copies. -/
theorem unravel_counts_eq_iff {k k' : ℕ} (hk : k < t.numDevices) (hk' : k' < t.numDevices) :
    unravel t.counts (k / t.replication) = unravel t.counts (k' / t.replication) ↔
      k / t.replication = k' / t.replication := by
  constructor
  · intro h
    rw [← rowMajor_unravel t.counts _ (t.div_replication_lt hk), h,
      rowMajor_unravel t.counts _ (t.div_replication_lt hk')]
  · intro h
    rw [h]

end TileAssignment
