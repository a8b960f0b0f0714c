/-
# The DRAM map of a device

`createDramMap` of `TTOpsTypes.cpp` builds the affine map from grid coordinates and a
byte offset inside a shard to a DRAM channel and an address of that channel;
`DeviceAttr::getMemoryMap` fixes its symbols and composes it with the shard layout of a
memref.

* `createDramMap`, `ShardLayoutAttr.getAffineMap`, `getMemoryMap` : the translated
  functions;
* `eval_byteMap` : their values, as natural numbers;
* `interleaving_injective` : the page interleaving of the comment above `createDramMap`
  does not alias;
* `placesPages_iff` : the code places pages that way exactly when flat offsets agree with
  byte offsets and pages are never strided.

The channel offset has lost the factor `pageSize` of the comment, and the shard volume is
taken in elements while the offset inside a shard is in bytes.
-/
import TTMLIR.WorkerGrid

open MLIR MixedRadix WorkerGrid

namespace DramMap

/-! ## The translated functions -/

/-- `ttmlir::utils::calculateStrides`: the loop from the innermost dimension outwards,
returning the strides and the stride after the last step. -/
def calculateStridesLoop (shape : List ℕ) (elementSize : ℕ) : List ℕ × ℕ :=
  shape.foldr (fun n acc => (acc.2 :: acc.1, acc.2 * n)) ([], elementSize)

/-- `ttmlir::utils::calculateStrides`. -/
def calculateStrides (shape : List ℕ) (elementSize : ℕ) : List ℕ :=
  (calculateStridesLoop shape elementSize).1

/-- `ShardLayoutAttr`: the byte strides of a shard. -/
structure ShardLayoutAttr : Type where
  stride : List ℕ
  deriving DecidableEq, Repr

/-- `ShardLayoutAttr::get`: row-major byte strides. -/
def ShardLayoutAttr.get (shape : List ℕ) (elementSize : ℕ) : ShardLayoutAttr :=
  ⟨calculateStrides shape elementSize⟩

/-- `ShardLayoutAttr::getAffineMap`: grid coordinates are kept, shard coordinates become
one byte offset. -/
def ShardLayoutAttr.getAffineMap (layout : ShardLayoutAttr) : AffineMap :=
  let rank := layout.stride.length
  let offset := (List.range rank).foldr
    (fun i e => AffineExpr.dim (rank + i) * .constant (layout.stride.getD i 0) + e)
    (.constant 0)
  ⟨rank * 2, 0, (List.range rank).map AffineExpr.dim ++ [offset]⟩

/-- `createDramMap`: the loops run from the innermost dimension outwards. -/
def createDramMap (workerGrid : GridAttr) (numDramCores : ℕ) : AffineMap :=
  let workerMap := workerGrid.mapping
  let shardVolumeExpr := (List.range workerMap.numDims).foldr
    (fun i e => AffineExpr.symbol (workerMap.numDims + i) * e) (.constant 1)
  let (addr, _) := (List.range workerMap.numDims).foldr
    (fun i (acc : AffineExpr × AffineExpr) =>
      (AffineExpr.dim i * acc.2 * shardVolumeExpr + acc.1, acc.2 * AffineExpr.symbol i))
    (AffineExpr.dim workerMap.numDims, .constant 1)
  let pageSizeExpr := AffineExpr.symbol (workerMap.numDims * 2)
  let baseAddressExpr := AffineExpr.symbol (workerMap.numDims * 2 + 1)
  let numDramCoresExpr := AffineExpr.constant numDramCores
  ⟨workerMap.numDims + 1, workerMap.numDims * 2 + 2,
    [.constant 0, .constant 0,
      (addr.floorDiv pageSizeExpr).mod numDramCoresExpr,
      addr.floorDiv (pageSizeExpr * numDramCoresExpr) + addr.mod pageSizeExpr
        + baseAddressExpr]⟩

/-- A DRAM memref on a device, as `getMemoryMap` reads it: the grid and shard extents of
its shape, the size of an element, the page size and the base address. -/
structure DramBuffer (d : DeviceShape) : Type where
  grid : List ℕ
  shard : List ℕ
  elementSize : ℕ
  pageSize : ℕ
  baseOffset : ℕ
  numDramCores : ℕ
  grid_length : grid.length = d.workerGrid.mapping.numDims
  shard_length : shard.length = d.workerGrid.mapping.numDims
  /-- `assert(pageSize > 0)` in `getMemoryMap`. -/
  pageSize_pos : 0 < pageSize
  /-- `assert(!firstDramCores.empty())` in `createDramMap`. -/
  numDramCores_pos : 0 < numDramCores

namespace DramBuffer

variable {d : DeviceShape} (b : DramBuffer d)

/-- The shape of the memref: grid extents, then shard extents in elements. -/
def memrefShape : List ℕ := b.grid ++ b.shard

/-- The symbol values `getMemoryMap` gives to the DRAM map. -/
def symbols : List ℤ := (b.memrefShape ++ [b.pageSize, b.baseOffset]).map Nat.cast

/-- The DRAM map with its symbols fixed: from grid coordinates and a byte offset inside
the shard. -/
def byteMap : AffineMap :=
  (createDramMap d.workerGrid b.numDramCores).replaceSymbols b.symbols

/-- The layout of the memref. -/
def layout : ShardLayoutAttr := ShardLayoutAttr.get b.shard b.elementSize

/-- `DeviceAttr::getMemoryMap` for a memref in DRAM. -/
def getMemoryMap : AffineMap := b.byteMap.compose b.layout.getAffineMap

/-- The size of a shard in bytes. -/
def shardBytes : ℕ := b.shard.prod * b.elementSize

/-- The pairs of grid coordinates and byte offset inside the shard. -/
def bytes : Set (List ℕ × ℕ) := {x | InShape x.1 b.grid ∧ x.2 < b.shardBytes}

/-- The byte offset of a byte in the whole buffer, shards in row-major order. -/
def flatOffset (x : List ℕ × ℕ) : ℕ := rowMajor b.grid x.1 * b.shardBytes + x.2

/-- Where the code places a byte: channel and address. -/
def place (x : List ℕ × ℕ) : ℤ × ℤ :=
  let r := b.byteMap.eval ((x.1 ++ [x.2]).map Nat.cast) []
  (r.getD 2 0, r.getD 3 0)

/-- Where the code places the first byte of an element. -/
def placeElement (g idx : List ℕ) : ℤ × ℤ :=
  let r := b.getMemoryMap.eval ((g ++ idx).map Nat.cast) []
  (r.getD 2 0, r.getD 3 0)

/-- The interleaving of the comment above `createDramMap`: pages of a flat buffer go round
robin over the channels. -/
def interleave (flat : ℕ) : ℤ × ℤ :=
  (((flat / b.pageSize % b.numDramCores : ℕ) : ℤ),
    ((flat / (b.pageSize * b.numDramCores) * b.pageSize + flat % b.pageSize
      + b.baseOffset : ℕ) : ℤ))

/-- **What a DRAM map has to do.**  Bytes do not alias, a page stays contiguous in one
channel, and every byte is where the interleaving puts it; elements of a shard start at
their row-major byte offset. -/
structure PlacesPages : Prop where
  injective : Set.InjOn b.place b.bytes
  contiguous : ∀ x ∈ b.bytes, ∀ y ∈ b.bytes,
    b.flatOffset x / b.pageSize = b.flatOffset y / b.pageSize →
      (b.place x).1 = (b.place y).1 ∧
        (b.place x).2 - (b.place y).2 = (b.flatOffset x : ℤ) - b.flatOffset y
  interleaved : ∀ x ∈ b.bytes, b.place x = b.interleave (b.flatOffset x)
  elements : ∀ g idx, InShape g b.grid → InShape idx b.shard →
    b.placeElement g idx = b.place (g, rowMajor b.shard idx * b.elementSize)

end DramBuffer

/-! ## The page interleaving -/

/-- **The interleaving does not alias**: a flat offset is recovered from its channel and
its address. -/
theorem interleaving_injective {p n f f' : ℕ} (hp : 0 < p) (hchannel : f / p % n = f' / p % n)
    (haddr : f / (p * n) * p + f % p = f' / (p * n) * p + f' % p) : f = f' := by
  have hdiv : f / (p * n) = f' / (p * n) := by
    have h := congrArg (· / p) haddr
    simpa [Nat.add_div_of_dvd_right (Dvd.intro_left _ rfl), hp,
      Nat.div_eq_of_lt (Nat.mod_lt _ hp)] using h
  have hmod : f % p = f' % p := by
    rw [hdiv] at haddr
    exact Nat.add_left_cancel haddr
  have hpage : f / p = f' / p := by
    rw [← Nat.div_add_mod (f / p) n, ← Nat.div_add_mod (f' / p) n, Nat.div_div_eq_div_mul,
      Nat.div_div_eq_div_mul, hdiv, hchannel]
  rw [← Nat.div_add_mod f p, ← Nat.div_add_mod f' p, hpage, hmod]

/-- Two offsets in one page differ as their remainders do, and share the channel and the
row of pages. -/
theorem same_page {p n f f' : ℕ} (h : f / p = f' / p) :
    f / p % n = f' / p % n ∧ f / (p * n) = f' / (p * n) ∧
      (f % p : ℤ) - (f' % p : ℕ) = (f : ℤ) - f' := by
  refine ⟨by rw [h], by rw [← Nat.div_div_eq_div_mul, ← Nat.div_div_eq_div_mul, h], ?_⟩
  have hf := Nat.div_add_mod f p
  have hf' := Nat.div_add_mod f' p
  rw [h] at hf
  push_cast
  omega

/-- Without the factor `p` on the row of pages, an offset keeps its address exactly when
pages have one byte or the offset is in the first row. -/
theorem unscaled_row_iff {p n f : ℕ} :
    f / (p * n) + f % p = f / (p * n) * p + f % p ↔ p = 1 ∨ f / (p * n) = 0 := by
  constructor
  · intro h
    have hrow : f / (p * n) * 1 = f / (p * n) * p := by omega
    rcases Nat.eq_zero_or_pos (f / (p * n)) with h0 | hpos
    · exact Or.inr h0
    · exact Or.inl (Nat.eq_of_mul_eq_mul_left hpos hrow).symm
  · rintro (rfl | h0)
    · omega
    · simp [h0]

/-! ## The value of the map -/

/-- The map of a shard layout reads its dimensions only. -/
theorem ShardLayoutAttr.wellScoped_getAffineMap (layout : ShardLayoutAttr) :
    layout.getAffineMap.WellScoped := by
  have hfold : ∀ l : List ℕ, (∀ i ∈ l, i < layout.stride.length) →
      (l.foldr (fun i e => AffineExpr.dim (layout.stride.length + i)
        * .constant (layout.stride.getD i 0) + e) (.constant 0)).WellScoped
        (layout.stride.length * 2) 0 := by
    intro l hl
    induction l with
    | nil => trivial
    | cons i l ih =>
      have hi := hl i (by simp)
      have hdim : layout.stride.length + i < layout.stride.length * 2 := by omega
      exact ⟨⟨hdim, trivial⟩, ih fun j hj => hl j (by simp [hj])⟩
  intro e he
  rcases List.mem_append.mp he with he | he
  · obtain ⟨i, hi, rfl⟩ := List.mem_map.mp he
    have hi' := List.mem_range.mp hi
    show i < layout.stride.length * 2
    omega
  · obtain rfl := List.mem_singleton.mp he
    exact hfold _ fun i hi => List.mem_range.mp hi

theorem calculateStridesLoop_eq (shape : List ℕ) (elementSize : ℕ) :
    (calculateStridesLoop shape elementSize).2 = shape.prod * elementSize := by
  induction shape with
  | nil => simp [calculateStridesLoop]
  | cons n shape ih =>
    have hstep : (calculateStridesLoop (n :: shape) elementSize).2
        = (calculateStridesLoop shape elementSize).2 * n := rfl
    rw [hstep, ih, List.prod_cons]
    ring

theorem calculateStrides_cons (n : ℕ) (shape : List ℕ) (elementSize : ℕ) :
    calculateStrides (n :: shape) elementSize
      = shape.prod * elementSize :: calculateStrides shape elementSize := by
  rw [← calculateStridesLoop_eq]
  rfl

@[simp] theorem length_calculateStrides (shape : List ℕ) (elementSize : ℕ) :
    (calculateStrides shape elementSize).length = shape.length := by
  induction shape with
  | nil => rfl
  | cons n shape ih => rw [calculateStrides_cons, List.length_cons, List.length_cons, ih]

/-- A list of integers holds the entries of `m` from position `k` on. -/
def Holds (l : List ℤ) (k : ℕ) (m : List ℕ) : Prop :=
  ∀ i < m.length, l.getD (k + i) 0 = (m.getD i 0 : ℕ)

theorem Holds.head {l : List ℤ} {k n : ℕ} {m : List ℕ} (h : Holds l k (n :: m)) :
    l.getD k 0 = (n : ℤ) := by
  simpa using h 0 (by simp)

theorem Holds.tail {l : List ℤ} {k n : ℕ} {m : List ℕ} (h : Holds l k (n :: m)) :
    Holds l (k + 1) m := by
  intro i hi
  have hi' := h (i + 1) (by simpa using hi)
  rw [show k + 1 + i = k + (i + 1) by omega, hi']
  simp

theorem holds_append (before m after : List ℕ) :
    Holds ((before ++ m ++ after).map Nat.cast) before.length m := by
  intro i hi
  simp [List.getD, hi, List.getElem?_append]

/-- One step of a loop that runs down to index `k`. -/
theorem foldr_range_succ {α : Type} (f : ℕ → α → α) (a : α) (k n : ℕ) :
    (List.range (n + 1)).foldr (fun i => f (k + i)) a
      = f k ((List.range n).foldr (fun i => f (k + 1 + i)) a) := by
  rw [List.range_succ_eq_map, List.foldr_cons, List.foldr_map]
  congr 2
  funext i
  rw [show k + i.succ = k + 1 + i by omega]

/-- The offset expression of a shard layout is the row-major offset in bytes. -/
theorem eval_offset {idx shape : List ℕ} (strides : List ℕ) (elementSize k j : ℕ)
    (ds : List ℤ) (h : InShape idx shape) (hds : Holds ds (k + j) idx)
    (hstrides : strides.drop j = calculateStrides shape elementSize) :
    ((List.range shape.length).foldr
        (fun i e => AffineExpr.dim (k + (j + i)) * .constant (strides.getD (j + i) 0) + e)
        (.constant 0)).eval ds []
      = ((rowMajor shape idx * elementSize : ℕ) : ℤ) := by
  induction h generalizing j with
  | nil => simp
  | @cons i n idx shape _ _ ih =>
    rw [calculateStrides_cons] at hstrides
    have hstride : strides.getD j 0 = shape.prod * elementSize := by
      have hj := congrArg (fun l => l.getD 0 0) hstrides
      simpa [List.getD] using hj
    have hrest := ih (j + 1) hds.tail (by rw [← List.drop_drop, hstrides]; rfl)
    rw [List.length_cons, foldr_range_succ (fun i e => AffineExpr.dim (k + i)
        * .constant (strides.getD i 0) + e), AffineExpr.eval_add, hrest,
      AffineExpr.eval_mul, AffineExpr.eval_dim, AffineExpr.eval_constant, hds.head,
      hstride, rowMajor_cons]
    push_cast
    ring

theorem eval_shardVolume (shard : List ℕ) (k : ℕ) (ds ss : List ℤ) (h : Holds ss k shard) :
    ((List.range shard.length).foldr (fun i e => AffineExpr.symbol (k + i) * e)
        (.constant 1)).eval ds ss = (shard.prod : ℕ) := by
  induction shard generalizing k with
  | nil => simp
  | cons n shard ih =>
    rw [List.length_cons, foldr_range_succ (fun i e => AffineExpr.symbol i * e),
      AffineExpr.eval_mul, AffineExpr.eval_symbol, h.head, ih (k + 1) h.tail,
      List.prod_cons]
    push_cast
    rfl

/-- The linearization loop of `createDramMap` adds the row-major grid offset, scaled by
the shard volume, and leaves the grid volume. -/
theorem eval_addr {g grid : List ℕ} (k : ℕ) (ds ss : List ℤ) (vol start : AffineExpr)
    (h : InShape g grid) (hds : Holds ds k g) (hss : Holds ss k grid) :
    let acc := (List.range grid.length).foldr
      (fun i (acc : AffineExpr × AffineExpr) =>
        (AffineExpr.dim (k + i) * acc.2 * vol + acc.1, acc.2 * AffineExpr.symbol (k + i)))
      (start, .constant 1)
    acc.1.eval ds ss = (rowMajor grid g : ℕ) * vol.eval ds ss + start.eval ds ss ∧
      acc.2.eval ds ss = (grid.prod : ℕ) := by
  induction h generalizing k with
  | nil => simp
  | @cons i n g grid _ _ ih =>
    obtain ⟨haddr, hvol⟩ := ih (k + 1) hds.tail hss.tail
    rw [List.length_cons, foldr_range_succ (fun i (acc : AffineExpr × AffineExpr) =>
      (AffineExpr.dim i * acc.2 * vol + acc.1, acc.2 * AffineExpr.symbol i))]
    constructor
    · rw [AffineExpr.eval_add, AffineExpr.eval_mul, AffineExpr.eval_mul,
        AffineExpr.eval_dim, hds.head, haddr, hvol, rowMajor_cons]
      push_cast
      ring
    · rw [AffineExpr.eval_mul, AffineExpr.eval_symbol, hss.head, hvol, List.prod_cons]
      push_cast
      ring

namespace DramBuffer

variable {d : DeviceShape} (b : DramBuffer d)

/-- The flat offset the code computes: the shard volume counts elements. -/
def codeOffset (x : List ℕ × ℕ) : ℕ := rowMajor b.grid x.1 * b.shard.prod + x.2

theorem symbols_length : b.symbols.length = d.workerGrid.mapping.numDims * 2 + 2 := by
  simp [symbols, memrefShape, b.grid_length, b.shard_length]
  omega

/-- The DRAM map reads only the dimensions and symbols it declares. -/
theorem createDramMap_wellScoped (workerGrid : GridAttr) (numDramCores : ℕ) :
    (createDramMap workerGrid numDramCores).WellScoped := by
  set R := workerGrid.mapping.numDims with hR
  have hvol : ∀ l : List ℕ, (∀ i ∈ l, i < R) →
      (l.foldr (fun i e => AffineExpr.symbol (R + i) * e) (.constant 1)).WellScoped
        (R + 1) (R * 2 + 2) := by
    intro l hl
    induction l with
    | nil => trivial
    | cons i l ih =>
      have hi := hl i (by simp)
      refine ⟨?_, ih fun j hj => hl j (by simp [hj])⟩
      show R + i < R * 2 + 2
      omega
  have haddr : ∀ (vol : AffineExpr) (l : List ℕ), vol.WellScoped (R + 1) (R * 2 + 2) →
      (∀ i ∈ l, i < R) →
      let acc := l.foldr (fun i (acc : AffineExpr × AffineExpr) =>
        (AffineExpr.dim i * acc.2 * vol + acc.1, acc.2 * AffineExpr.symbol i))
        (AffineExpr.dim R, .constant 1)
      acc.1.WellScoped (R + 1) (R * 2 + 2) ∧ acc.2.WellScoped (R + 1) (R * 2 + 2) := by
    intro vol l hvol hl
    induction l with
    | nil => exact ⟨Nat.lt_succ_self R, trivial⟩
    | cons i l ih =>
      obtain ⟨h₁, h₂⟩ := ih fun j hj => hl j (by simp [hj])
      have hi := hl i (by simp)
      have hdim : i < R + 1 := by omega
      have hsym : i < R * 2 + 2 := by omega
      exact ⟨⟨⟨⟨hdim, h₂⟩, hvol⟩, h₁⟩, ⟨h₂, hsym⟩⟩
  have hrange : ∀ i ∈ List.range R, i < R := fun i hi => List.mem_range.mp hi
  have hpage : R * 2 < R * 2 + 2 := by omega
  have hbase : R * 2 + 1 < R * 2 + 2 := by omega
  obtain ⟨ha, -⟩ := haddr _ _ (hvol _ hrange) hrange
  intro e he
  simp only [createDramMap, ← hR, List.mem_cons, List.not_mem_nil, or_false] at he
  rcases he with rfl | rfl | rfl | rfl
  · trivial
  · trivial
  · exact ⟨⟨ha, hpage⟩, trivial⟩
  · exact ⟨⟨⟨ha, ⟨hpage, trivial⟩⟩, ⟨ha, hpage⟩⟩, hbase⟩

/-- **The DRAM map on a byte.**  Channel and address, as the code computes them from its
flat offset. -/
theorem eval_byteMap (x : List ℕ × ℕ) (hx : InShape x.1 b.grid) :
    b.byteMap.eval ((x.1 ++ [x.2]).map Nat.cast) [] =
      [0, 0, ((b.codeOffset x / b.pageSize % b.numDramCores : ℕ) : ℤ),
        ((b.codeOffset x / (b.pageSize * b.numDramCores) + b.codeOffset x % b.pageSize
          + b.baseOffset : ℕ) : ℤ)] := by
  obtain ⟨g, o⟩ := x
  have hlen : g.length = b.grid.length := hx.length_eq
  have hdims : ((g ++ [o]).map (Nat.cast : ℕ → ℤ)).length
      = (createDramMap d.workerGrid b.numDramCores).numDims := by
    simp [createDramMap, hlen, b.grid_length]
  rw [byteMap, AffineMap.eval_replaceSymbols _ _ _ (createDramMap_wellScoped _ _) hdims
    b.symbols_length]
  -- where the map finds grid coordinates, grid extents, shard extents, page and base
  have hg : Holds ((g ++ [o]).map Nat.cast) 0 g := by simpa using holds_append [] g [o]
  have hgrid : Holds b.symbols 0 b.grid := by
    simpa [symbols, memrefShape] using
      holds_append [] b.grid (b.shard ++ [b.pageSize, b.baseOffset])
  have hshard : Holds b.symbols b.grid.length b.shard := by
    simpa [symbols, memrefShape] using
      holds_append b.grid b.shard [b.pageSize, b.baseOffset]
  have hoffset : ((g ++ [o]).map (Nat.cast : ℕ → ℤ)).getD b.grid.length 0 = o := by
    simp [← hlen, List.getD]
  have htail : Holds b.symbols (b.grid.length * 2) [b.pageSize, b.baseOffset] := by
    have h := holds_append b.memrefShape [b.pageSize, b.baseOffset] []
    rw [List.append_nil] at h
    have hmem : b.memrefShape.length = b.grid.length * 2 := by
      rw [memrefShape, List.length_append, b.shard_length, b.grid_length]
      omega
    rwa [hmem] at h
  obtain ⟨haddr, -⟩ := eval_addr 0 _ _ ((List.range b.shard.length).foldr
    (fun i e => AffineExpr.symbol (b.grid.length + i) * e) (.constant 1))
    (AffineExpr.dim b.grid.length) hx hg hgrid
  rw [eval_shardVolume _ _ _ _ hshard, AffineExpr.eval_dim, hoffset] at haddr
  simp only [Nat.zero_add, b.shard_length, b.grid_length] at haddr
  have hpage := htail.head
  have hbase := htail.tail.head
  rw [b.grid_length] at hpage hbase
  simp only [createDramMap, AffineMap.eval, List.map_cons, List.map_nil,
    AffineExpr.eval_constant, AffineExpr.eval_mod, AffineExpr.eval_floorDiv,
    AffineExpr.eval_add, AffineExpr.eval_mul, AffineExpr.eval_symbol, haddr, hpage, hbase]
  simp only [codeOffset]
  push_cast
  rfl

theorem place_eq (x : List ℕ × ℕ) (hx : InShape x.1 b.grid) :
    b.place x = (((b.codeOffset x / b.pageSize % b.numDramCores : ℕ) : ℤ),
      ((b.codeOffset x / (b.pageSize * b.numDramCores) + b.codeOffset x % b.pageSize
        + b.baseOffset : ℕ) : ℤ)) := by
  simp only [place, b.eval_byteMap x hx]
  rfl

/-- **Composition with the shard layout.**  An element is placed at its row-major byte
offset. -/
theorem placeElement_eq (g idx : List ℕ) (hg : InShape g b.grid) (hidx : InShape idx b.shard) :
    b.placeElement g idx = b.place (g, rowMajor b.shard idx * b.elementSize) := by
  have hrank : b.layout.stride.length = d.workerGrid.mapping.numDims := by
    simp [layout, ShardLayoutAttr.get, b.shard_length]
  have hglen : g.length = d.workerGrid.mapping.numDims := by
    rw [hg.length_eq, b.grid_length]
  have hidxlen : idx.length = d.workerGrid.mapping.numDims := by
    rw [hidx.length_eq, b.shard_length]
  -- the layout keeps the grid coordinates and appends the byte offset
  have hinner : b.layout.getAffineMap.eval ((g ++ idx).map Nat.cast) []
      = (g ++ [rowMajor b.shard idx * b.elementSize]).map Nat.cast := by
    have hkeep : ((List.range b.layout.stride.length).map AffineExpr.dim).map
        (AffineExpr.eval ((g ++ idx).map Nat.cast) []) = g.map Nat.cast := by
      rw [List.map_map, hrank, ← hglen]
      apply List.ext_getElem (by simp)
      intro i h₁ h₂
      have hi : i < g.length := by simpa using h₁
      simp [List.getD, List.getElem?_append, hi]
    have hds : Holds ((g ++ idx).map Nat.cast) (b.layout.stride.length + 0) idx := by
      have h := holds_append g idx []
      rw [List.append_nil] at h
      rwa [Nat.add_zero, hrank, ← hglen]
    have hlast := eval_offset b.layout.stride b.elementSize b.layout.stride.length 0 _ hidx hds rfl
    simp only [Nat.zero_add] at hlast
    rw [show b.shard.length = b.layout.stride.length by rw [hrank, b.shard_length]] at hlast
    show (_ ++ [_]).map _ = _
    rw [List.map_append, hkeep, List.map_singleton, hlast, List.map_append]
    rfl
  have hcompose := AffineMap.eval_compose b.byteMap b.layout.getAffineMap ((g ++ idx).map Nat.cast)
    (AffineMap.wellScoped_replaceSymbols _ _ (createDramMap_wellScoped _ _) b.symbols_length)
    b.layout.wellScoped_getAffineMap
    (by simp [ShardLayoutAttr.getAffineMap, hrank, byteMap, AffineMap.replaceSymbols,
      AffineMap.replaceDimsAndSymbols, createDramMap])
    (by simp [ShardLayoutAttr.getAffineMap, hrank, hglen, hidxlen]; omega) rfl rfl
  rw [placeElement, place, getMemoryMap, hcompose, hinner]

/-! ## When the code places pages -/

/-- If flat offsets count bytes and no offset leaves the first row of pages (or pages have
one byte), the code interleaves. -/
theorem place_eq_interleave (hflat : b.elementSize = 1 ∨ b.grid.prod = 1)
    (hrow : b.pageSize = 1 ∨ b.grid.prod * b.shardBytes ≤ b.pageSize * b.numDramCores)
    (x : List ℕ × ℕ) (hx : x ∈ b.bytes) : b.place x = b.interleave (b.flatOffset x) := by
  obtain ⟨hg, ho⟩ := hx
  have hgrid := rowMajor_lt hg
  have hcode : b.codeOffset x = b.flatOffset x := by
    unfold codeOffset flatOffset shardBytes
    rcases hflat with h1 | h1
    · rw [h1, Nat.mul_one]
    · have h0 : rowMajor b.grid x.1 = 0 := by omega
      rw [h0, Nat.zero_mul, Nat.zero_mul]
  have hbound : b.flatOffset x < b.grid.prod * b.shardBytes := by
    unfold flatOffset
    nlinarith
  have hdiv : b.pageSize = 1 ∨ b.flatOffset x / (b.pageSize * b.numDramCores) = 0 := by
    rcases hrow with h1 | hle
    · exact Or.inl h1
    · exact Or.inr (Nat.div_eq_of_lt (by omega))
  rw [b.place_eq x hg, hcode, unscaled_row_iff.mpr hdiv, interleave]

/-- Bytes that are interleaved are placed as a DRAM map has to. -/
theorem placesPages_of_interleave
    (h : ∀ x ∈ b.bytes, b.place x = b.interleave (b.flatOffset x)) : b.PlacesPages := by
  refine ⟨?_, ?_, h, b.placeElement_eq⟩
  · rintro ⟨g, o⟩ hx ⟨g', o'⟩ hx' heq
    rw [h _ hx, h _ hx'] at heq
    simp only [interleave, Prod.mk.injEq, Nat.cast_inj, Nat.add_right_cancel_iff] at heq
    have hflat := interleaving_injective b.pageSize_pos heq.1 heq.2
    -- the flat offset is the row-major offset of grid coordinates and byte offset
    have hidx : InShape (g ++ [o]) (b.grid ++ [b.shardBytes]) :=
      List.rel_append hx.1 (List.Forall₂.cons hx.2 List.Forall₂.nil)
    have hidx' : InShape (g' ++ [o']) (b.grid ++ [b.shardBytes]) :=
      List.rel_append hx'.1 (List.Forall₂.cons hx'.2 List.Forall₂.nil)
    have hoff : ∀ (g : List ℕ) (o : ℕ), InShape g b.grid →
        rowMajor (b.grid ++ [b.shardBytes]) (g ++ [o]) = b.flatOffset (g, o) := by
      intro g o hg
      rw [rowMajor_append _ _ hg.length_eq]
      simp [flatOffset]
    have hcat := rowMajor_injOn _ hidx hidx' (by rw [hoff g o hx.1, hoff g' o' hx'.1, hflat])
    obtain ⟨rfl, ho⟩ := List.append_inj' hcat rfl
    simp only [List.cons.injEq, and_true] at ho
    rw [ho]
  · intro x hx y hy hpage
    obtain ⟨hchannel, hrow, hdiff⟩ := same_page (n := b.numDramCores) hpage
    rw [h x hx, h y hy]
    refine ⟨by simp only [interleave, hchannel], ?_⟩
    simp only [interleave, hrow]
    push_cast at hdiff ⊢
    omega

/-- If the map places pages and there is a byte, flat offsets count bytes: otherwise the
first byte past the volume of shard zero would be the first byte of shard one. -/
theorem flat_of_placesPages (h : b.PlacesPages) (hpos : 0 < b.grid.prod * b.shardBytes) :
    b.elementSize = 1 ∨ b.grid.prod = 1 := by
  have hgridPos : 0 < b.grid.prod := Nat.pos_of_mul_pos_right hpos
  have hbytesPos : 0 < b.shardBytes := Nat.pos_of_mul_pos_left hpos
  have hvolPos : 0 < b.shard.prod := Nat.pos_of_mul_pos_right hbytesPos
  have hsizePos : 0 < b.elementSize := Nat.pos_of_mul_pos_left hbytesPos
  by_contra hne
  push Not at hne
  have hg0 := inShape_unravel b.grid 0 hgridPos
  have hg1 := inShape_unravel b.grid 1 (by omega)
  have ho : b.shard.prod < b.shardBytes := by
    unfold shardBytes
    nlinarith [show 1 < b.elementSize by omega]
  have hx : (unravel b.grid 0, b.shard.prod) ∈ b.bytes := ⟨hg0, ho⟩
  have hy : (unravel b.grid 1, 0) ∈ b.bytes := ⟨hg1, hbytesPos⟩
  have hcode : b.codeOffset (unravel b.grid 0, b.shard.prod)
      = b.codeOffset (unravel b.grid 1, 0) := by
    simp only [codeOffset, rowMajor_unravel _ _ hgridPos,
      rowMajor_unravel _ 1 (show 1 < b.grid.prod by omega)]
    omega
  have heq := h.injective hx hy (by rw [b.place_eq _ hg0, b.place_eq _ hg1, hcode])
  simp only [Prod.mk.injEq] at heq
  omega

/-- If the map places pages and flat offsets count bytes, pages have one byte or all
bytes are in the first row of pages. -/
theorem row_of_placesPages (h : b.PlacesPages) (hflat : b.elementSize = 1 ∨ b.grid.prod = 1) :
    b.pageSize = 1 ∨ b.grid.prod * b.shardBytes ≤ b.pageSize * b.numDramCores := by
  by_contra hne
  push Not at hne
  obtain ⟨hpage, hlarge⟩ := hne
  -- the first byte of the second row of pages
  set f := b.pageSize * b.numDramCores with hf
  have hfpos : 0 < f := Nat.mul_pos b.pageSize_pos b.numDramCores_pos
  have hprod : (b.grid ++ [b.shardBytes]).prod = b.grid.prod * b.shardBytes := by simp
  have hin := inShape_unravel (b.grid ++ [b.shardBytes]) f (by omega)
  obtain ⟨g, j, hgj, hg, hj⟩ := inShape_append_iff.mp hin
  cases hj with
  | @cons o _ j _ ho hj =>
    obtain rfl := List.forall₂_nil_right_iff.mp hj
    have hoff : b.flatOffset (g, o) = f := by
      have hback := rowMajor_unravel (b.grid ++ [b.shardBytes]) f (by omega)
      rw [hgj, rowMajor_append _ _ hg.length_eq] at hback
      simpa [flatOffset] using hback
    have hcode : b.codeOffset (g, o) = f := by
      rw [← hoff]
      unfold codeOffset flatOffset shardBytes
      rcases hflat with h1 | h1
      · rw [h1, Nat.mul_one]
      · have h0 : rowMajor b.grid g = 0 := by
          have := rowMajor_lt hg
          omega
        rw [h0, Nat.zero_mul, Nat.zero_mul]
    have heq := h.interleaved (g, o) ⟨hg, ho⟩
    rw [b.place_eq _ hg, hcode, hoff, interleave] at heq
    simp only [Prod.mk.injEq, Nat.cast_inj, ← hf, true_and, Nat.add_right_cancel_iff,
      Nat.div_self hfpos] at heq
    omega

end DramBuffer

/-- **When the DRAM map places pages.**  Exactly when the buffer is empty, or flat offsets
count bytes (one-byte elements or a single shard) and the pages have one byte or the whole
buffer fits into the first page of each channel. -/
theorem placesPages_iff {d : DeviceShape} (b : DramBuffer d) :
    b.PlacesPages ↔ b.grid.prod * b.shardBytes = 0 ∨
      ((b.elementSize = 1 ∨ b.grid.prod = 1) ∧
        (b.pageSize = 1 ∨ b.grid.prod * b.shardBytes ≤ b.pageSize * b.numDramCores)) := by
  constructor
  · intro h
    rcases Nat.eq_zero_or_pos (b.grid.prod * b.shardBytes) with h0 | hpos
    · exact Or.inl h0
    · have hflat := b.flat_of_placesPages h hpos
      exact Or.inr ⟨hflat, b.row_of_placesPages h hflat⟩
  · rintro (h0 | ⟨hflat, hrow⟩)
    · apply b.placesPages_of_interleave
      rintro x ⟨hg, ho⟩
      have := rowMajor_lt hg
      exact absurd h0 (Nat.mul_pos (by omega) (by omega)).ne'
    · exact b.placesPages_of_interleave (b.place_eq_interleave hflat hrow)

/-- A single-shard buffer of 5x5 tiles of 32x32 32-bit floats on one 8x8 chip with twelve
channels and pages of 8192 bytes: 102400 bytes, more than one page per channel. -/
def tiles : DramBuffer ⟨8, 8, [1, 1], by decide, by decide, by decide⟩ where
  grid := [1, 1]
  shard := [5, 5]
  elementSize := 4096
  pageSize := 8192
  baseOffset := 1024
  numDramCores := 12
  grid_length := by decide
  shard_length := by decide
  pageSize_pos := by decide
  numDramCores_pos := by decide

/-- The first byte of the second row of pages is placed on the second byte of the buffer. -/
theorem tiles_alias :
    ([0, 0], 1) ∈ tiles.bytes ∧ ([0, 0], 98304) ∈ tiles.bytes ∧
      tiles.place ([0, 0], 1) = (0, 1025) ∧ tiles.place ([0, 0], 98304) = (0, 1025) ∧
      ¬ tiles.PlacesPages := by
  have h0 : InShape [0, 0] tiles.grid := by decide
  have hb : ∀ o < 102400, ([0, 0], o) ∈ tiles.bytes := fun o ho => ⟨h0, ho⟩
  have e1 : tiles.place ([0, 0], 1) = (0, 1025) := by
    rw [tiles.place_eq _ h0]
    decide
  have e2 : tiles.place ([0, 0], 98304) = (0, 1025) := by
    rw [tiles.place_eq _ h0]
    decide
  refine ⟨hb 1 (by decide), hb 98304 (by decide), e1, e2, fun h => ?_⟩
  have heq := h.injective (hb 1 (by decide)) (hb 98304 (by decide)) (e1.trans e2.symm)
  simp at heq

end DramMap
