/-
# Grids of generic operations

`OptimizeTensorLayout.cpp` gives every operand of a generic operation the largest grid that its
shape and the worker grid allow, and converts the result back for its other users.  The loop
bounds of the operation are read from the grids of its operands (`GenericOp::getLoopBounds`),
so operands that share a loop dimension have to agree on it.

* `calculateOptimalLayoutForTensorType`, `matchAndRewrite` : the rewrite;
* `FuncOp.WellFormed` : what holds of generic operations;
* `calculate_spec` : one operand keeps its shape, and is not changed twice;
* `keepsGenerics_iff` : when every run keeps generic operations well formed.
-/
import TTMLIR.TTNNLayout
import TTMLIR.SSA

open CollapsedLinear SSA TTNN

namespace OptimizeTensorLayout

/-! ## Types -/

/-- `MemorySpace`. -/
inductive MemorySpace : Type where
  | system | systemMMIO | deviceDRAM | deviceL1
  deriving DecidableEq, Repr

/-- `OOBVal`. -/
inductive OOBVal : Type where
  | undef | zero | one | inf | negInf
  deriving DecidableEq, Repr

/-- `MetalLayoutAttr`; the memref is its shape, its element type and its memory space. -/
structure MetalLayoutAttr : Type where
  linear : MLIR.AffineMap
  oobVal : OOBVal
  grid : List ℕ
  memref : List ℕ
  elementType : ElementType
  memorySpace : MemorySpace
  deriving DecidableEq

/-- `RankedTensorType` with its layout. -/
structure RankedTensorType : Type where
  shape : List ℕ
  elementType : ElementType
  encoding : MetalLayoutAttr
  deriving DecidableEq

/-- The shape of the memref that `buildMemRef` gives, in any memory space. -/
def buildMemRefShape (shardShape : List ℤ) (elementType : ElementType) : Except String (List ℕ) :=
  (buildMemRef shardShape elementType .l1).map MemRefType.shape

/-- `MetalLayoutAttr::get` from a tensor shape. -/
def MetalLayoutAttr.get (tensorShape : List ℕ) (elementType : ElementType)
    (memorySpace : MemorySpace) (grid : List ℕ) (collapseIntervals : List (ℤ × ℤ))
    (oobVal : OOBVal) : Except String MetalLayoutAttr :=
  match collapsedLinearAffineMap tensorShape grid collapseIntervals with
  | none => .error "collapsedLinearAffineMap"
  | some linear => do
      let shardShape ← calculateLogicalShardShapeForSharding tensorShape linear grid
      let memref ← buildMemRefShape shardShape elementType
      .ok ⟨linear, oobVal, grid, memref, elementType, memorySpace⟩

/-- The shape of a tensor in scalars. -/
def RankedTensorType.scalarShape (ty : RankedTensorType) : Except String (List ℕ) :=
  match ty.elementType with
  | .tile t => (t.getScalarShape (ty.shape.map fun n : ℕ => (n : ℤ))).map (List.map Int.toNat)
  | .scalar _ => .ok ty.shape

/-- `MetalLayoutAttr::withGrid` of a type, with the default collapse intervals. -/
def MetalLayoutAttr.withGrid (layout : MetalLayoutAttr) (ty : RankedTensorType)
    (grid : List ℕ) : Except String MetalLayoutAttr := do
  let tensorShape ← ty.scalarShape
  MetalLayoutAttr.get tensorShape layout.elementType layout.memorySpace grid [(0, -1)]
    layout.oobVal

/-! ## The grid of an operand -/

/-- The shape of the worker grid, or of the override. -/
structure WorkerGrid : Type where
  shape : List ℕ
  pos : ∀ n ∈ shape, 0 < n

/-- The inner loop of `getOptimalGrid`: from the bound down to one. -/
def largestDivisor (dim : ℕ) : ℕ → Option ℕ
  | 0 => none
  | grid + 1 => if dim % (grid + 1) = 0 then some (grid + 1) else largestDivisor dim grid

/-- `getOptimalGrid`; the worker grid is indexed with the dimensions of the memref. -/
def getOptimalGrid : List ℕ → List ℕ → Except String (List ℕ)
  | [], _ => .ok []
  | _ :: _, [] => .error "deviceGridShape[i]"
  | dim :: memrefShape, bound :: deviceGridShape => do
      let rest ← getOptimalGrid memrefShape deviceGridShape
      .ok ((largestDivisor dim bound).toList ++ rest)

/-- The shape that all shards make up, in memref elements. -/
def RankedTensorType.canonicalShape (ty : RankedTensorType) : List ℕ :=
  List.zipWith (· * ·) ty.encoding.memref ty.encoding.grid

/-- `calculateOptimalLayoutForTensorType`. -/
def calculateOptimalLayoutForTensorType (W : WorkerGrid) (ty : RankedTensorType) :
    Except String RankedTensorType :=
  if ty.encoding.grid.length ≠ ty.encoding.memref.length then
    .error "Grid rank must match memref rank."
  else do
    let optimalOutputGrid ← getOptimalGrid ty.canonicalShape W.shape
    let newResultEncoding ← ty.encoding.withGrid ty optimalOutputGrid
    .ok { ty with encoding := newResultEncoding }

/-! ## Functions -/

/-- An indexing map that is a projected permutation: each result is a loop dimension, or the
constant zero. -/
abbrev IndexingMap : Type := List (Option ℕ)

/-- The operations the pass tells apart. -/
inductive OpKind : Type where
  | generic (grid : List ℕ) (indexingMaps : List IndexingMap)
  | empty
  | toLayout
  | other (name : String)
  deriving DecidableEq, Repr

/-- An operation; a generic operation has one result, and its last operand is its output. -/
structure Op : Type where
  id : ℕ
  kind : OpKind
  operands : List Value
  deriving DecidableEq, Repr

/-- A function, with the types of its values; a value that is no tensor with a layout has
none. -/
structure FuncOp : Type where
  ops : List Op
  returns : List Value
  types : Value → Option RankedTensorType

/-- The type of a value, which is cast to a tensor with a layout. -/
def typeOf (types : Value → Option RankedTensorType) (v : Value) :
    Except String RankedTensorType :=
  match types v with
  | some ty => .ok ty
  | none => .error "Tensor type must have a MetalLayoutAttr encoding"

/-! ## The rewrite -/

/-- The state of the loop over the operands: the first identity that is free, the operations
before the generic one, the types, and the operands that were visited. -/
structure Rewriting : Type where
  fresh : ℕ
  inserted : List Op
  types : Value → Option RankedTensorType
  operands : List Value

/-- `value.setType(type)`. -/
def setType (types : Value → Option RankedTensorType) (v : Value) (ty : RankedTensorType) :
    Value → Option RankedTensorType :=
  Function.update types v (some ty)

/-- A conversion of a value: an empty tensor, and the conversion to its type. -/
def conversion (fresh : ℕ) (v : Value) : List Op :=
  [⟨fresh, .empty, []⟩, ⟨fresh + 1, .toLayout, [v, .opResult fresh 0]⟩]

/-- The types after a conversion. -/
def conversionTypes (types : Value → Option RankedTensorType) (fresh : ℕ)
    (ty : RankedTensorType) : Value → Option RankedTensorType :=
  setType (setType types (.opResult fresh 0) ty) (.opResult (fresh + 1) 0) ty

/-- The body of the loop over the operands. -/
def rewriteOperand (W : WorkerGrid) (s : Rewriting) (operand : Value) :
    Except String Rewriting := do
  let type ← typeOf s.types operand
  let newOperandType ← calculateOptimalLayoutForTensorType W type
  if type ≠ newOperandType then
    .ok {
      fresh := s.fresh + 2
      inserted := s.inserted ++ conversion s.fresh operand
      types := conversionTypes s.types s.fresh newOperandType
      operands := s.operands ++ [.opResult (s.fresh + 1) 0] }
  else .ok { s with operands := s.operands ++ [operand] }

/-- An identity that no operation has. -/
def freshId (ops : List Op) : ℕ := ops.foldr (fun op n => max n (op.id + 1)) 0

/-- The result of a generic operation. -/
def resultOf (op : Op) : Value := .opResult op.id 0

/-- The result is given its type when the output operand is converted. -/
def setResultType (W : WorkerGrid) (types : Value → Option RankedTensorType) (result init : Value)
    (newTensorType : RankedTensorType) : Except String (Value → Option RankedTensorType) := do
  let type ← typeOf types init
  let newOperandType ← calculateOptimalLayoutForTensorType W type
  if type = newOperandType then .ok types
  else if newOperandType = newTensorType then .ok (setType types result newTensorType)
  else .error "DPS init tensor must have the same type as the result"

/-- `TTIRGenericTensorLayoutRewriter::matchAndRewrite`; `none` where the pattern does not
match. -/
def matchAndRewrite (W : WorkerGrid) (f : FuncOp) (op : Op) : Except String (Option FuncOp) :=
  match op.kind, op.operands.getLast? with
  | .generic _ indexingMaps, some init => do
      let originalType ← typeOf f.types (resultOf op)
      let newTensorType ← calculateOptimalLayoutForTensorType W originalType
      if originalType = newTensorType then .ok none
      else do
        let s ← op.operands.foldlM (rewriteOperand W) ⟨freshId f.ops, [], f.types, []⟩
        let resultTypes ← setResultType W f.types (resultOf op) init newTensorType
        let types : Value → Option RankedTensorType := fun v =>
          if v = resultOf op then resultTypes v else s.types v
        let replace : Value → Value := fun v =>
          if v = resultOf op then .opResult (s.fresh + 1) 0 else v
        .ok (some {
          ops := f.ops.flatMap fun o =>
            if o.id = op.id then
              s.inserted ++ { op with
                kind := .generic newTensorType.encoding.grid indexingMaps
                operands := s.operands } :: conversion s.fresh (resultOf op)
            else [{ o with operands := o.operands.map replace }]
          returns := f.returns.map replace
          types := conversionTypes types s.fresh originalType })
  | _, _ => .ok none

/-- **Runs of the greedy driver**, with the operations that were rewritten. -/
inductive Run (W : WorkerGrid) (f : FuncOp) : List ℕ → FuncOp → Prop where
  | start : Run W f [] f
  | step {ids : List ℕ} {g g' : FuncOp} {op : Op} (run : Run W f ids g) (mem : op ∈ g.ops)
      (result : matchAndRewrite W g op = .ok (some g')) : Run W f (ids ++ [op.id]) g'

/-! ## Well-formed generic operations -/

/-- **A grid that divides the shape of its tensor exactly**: the layout is the collapsed one,
and the shards make up the shape of the tensor in memref elements. -/
structure Divides (ty : RankedTensorType) : Prop where
  rank : ty.encoding.memref.length = ty.encoding.grid.length
  tiled : ty.encoding.elementType.isTile → 2 ≤ ty.encoding.grid.length
  exact : ∃ shape, ty.scalarShape = .ok shape ∧
    collapsedLinearAffineMap shape ty.encoding.grid [(0, -1)] = some ty.encoding.linear ∧
    ty.canonicalShape.map (fun n : ℕ => (n : ℤ)) =
      List.zipWith ceilDiv (evalShape ty.encoding.linear shape)
        (ty.encoding.elementType.extents ty.encoding.grid.length)

/-- Sizes of operands agree wherever two operands are indexed with one loop dimension. -/
def Agree (indexingMaps : List IndexingMap) (sizes : List (ℕ → Option ℕ)) : Prop :=
  ∀ (i j p q d : ℕ) (map map' : IndexingMap) (size size' : ℕ → Option ℕ),
    indexingMaps[i]? = some map → indexingMaps[j]? = some map' →
      sizes[i]? = some size → sizes[j]? = some size' →
        map[p]? = some (some d) → map'[q]? = some (some d) → size p = size' q

/-- The grid of a type, by dimension. -/
def RankedTensorType.gridAt (ty : RankedTensorType) (p : ℕ) : Option ℕ := ty.encoding.grid[p]?

/-- The greatest divisor of a dimension of a type that the worker grid allows. -/
def RankedTensorType.divisorAt (W : WorkerGrid) (ty : RankedTensorType) (p : ℕ) : Option ℕ :=
  ty.canonicalShape[p]?.bind fun dim => W.shape[p]?.map (Nat.findGreatest (· ∣ dim))

/-- **A well-formed generic operation**: its operands agree on the loop dimensions they share,
every grid divides its shape exactly, the output has the type of the result, and the grid of
the operation is the grid of its output. -/
structure WellFormedGeneric (grid : List ℕ) (indexingMaps : List IndexingMap)
    (operandTypes : List RankedTensorType) (resultType : RankedTensorType) : Prop where
  agree : Agree indexingMaps (operandTypes.map RankedTensorType.gridAt)
  divides : ∀ ty ∈ operandTypes, Divides ty
  output : operandTypes.getLast? = some resultType
  grid_eq : grid = resultType.encoding.grid

namespace FuncOp

/-- A value that is an argument or a result of an operation. -/
def Defines (f : FuncOp) : Value → Prop
  | .blockArg _ => True
  | .opResult id _ => id ∈ f.ops.map Op.id

/-- The types of the operands of an operation. -/
def operandTypes (f : FuncOp) (op : Op) : List (Option RankedTensorType) := op.operands.map f.types

/-- **Well-formed functions.** -/
structure WellFormed (f : FuncOp) : Prop where
  nodup : (f.ops.map Op.id).Nodup
  defined : ∀ op ∈ f.ops, ∀ v ∈ op.operands, f.Defines v
  acyclic : ∀ op ∈ f.ops, resultOf op ∉ op.operands
  returns_defined : ∀ v ∈ f.returns, f.Defines v
  generics : ∀ op ∈ f.ops, ∀ grid indexingMaps, op.kind = .generic grid indexingMaps →
    ∃ types resultType, f.operandTypes op = types.map some ∧
      f.types (resultOf op) = some resultType ∧
        WellFormedGeneric grid indexingMaps types resultType

/-- **Other users keep their types**: operations that are not rewritten and the returned values
are what they were, with operands of the types they had. -/
structure KeepsTypes (f : FuncOp) (rewritten : List ℕ) (g : FuncOp) : Prop where
  ops : ∀ op ∈ f.ops, op.id ∉ rewritten → ∃ op' ∈ g.ops, op'.id = op.id ∧ op'.kind = op.kind ∧
    g.operandTypes op' = f.operandTypes op ∧ g.types (resultOf op') = f.types (resultOf op)
  returns : g.returns.map g.types = f.returns.map f.types

end FuncOp

/-- **Every run of the pass** leaves generic operations well formed, and other users their
types, and wherever it stands the pattern returns. -/
def PassKeeps (W : WorkerGrid) (f : FuncOp) : Prop :=
  ∀ ids g, Run W f ids g → g.WellFormed ∧ f.KeepsTypes ids g ∧
    ∀ op ∈ g.ops, ∃ result, matchAndRewrite W g op = .ok result

/-- A generic operation that has to be rewritten: the grid of its result is not the one of the
greatest divisors. -/
def Rewrites (W : WorkerGrid) (resultType : RankedTensorType) : Prop :=
  ∃ p, resultType.gridAt p ≠ resultType.divisorAt W p

/-- A type has at most the rank of the worker grid. -/
def WorkerGrid.Covers (W : WorkerGrid) (ty : RankedTensorType) : Prop :=
  ty.encoding.grid.length ≤ W.shape.length

/-- **The condition**: the result of a generic operation has at most the rank of the worker grid,
and so have the operands of one that has to be rewritten; they have the same greatest divisors
where they share a loop dimension. -/
def DivisorsAgree (W : WorkerGrid) (f : FuncOp) : Prop :=
  ∀ op ∈ f.ops, ∀ grid indexingMaps, op.kind = .generic grid indexingMaps →
    ∀ (types : List RankedTensorType) resultType, f.operandTypes op = types.map some →
      f.types (resultOf op) = some resultType → W.Covers resultType ∧
        (Rewrites W resultType → (∀ ty ∈ types, W.Covers ty) ∧
          Agree indexingMaps (types.map (RankedTensorType.divisorAt W)))

/-! ## Divisors -/

theorem largestDivisor_eq (dim : ℕ) {bound : ℕ} (h : 0 < bound) :
    largestDivisor dim bound = some (Nat.findGreatest (· ∣ dim) bound) := by
  induction bound with
  | zero => exact absurd h (lt_irrefl 0)
  | succ bound ih =>
    rw [largestDivisor]
    split_ifs with hdvd
    · rw [Nat.findGreatest_eq (P := (· ∣ dim)) (Nat.dvd_of_mod_eq_zero hdvd)]
    · rw [Nat.findGreatest_of_not (P := (· ∣ dim)) fun hd => hdvd (Nat.mod_eq_zero_of_dvd hd)]
      rcases Nat.eq_zero_or_pos bound with rfl | hpos
      · exact absurd (Nat.mod_one dim) hdvd
      · exact ih hpos

theorem findGreatest_dvd_spec (dim : ℕ) {bound : ℕ} (h : 0 < bound) :
    0 < Nat.findGreatest (· ∣ dim) bound ∧ Nat.findGreatest (· ∣ dim) bound ∣ dim :=
  ⟨Nat.le_findGreatest (P := (· ∣ dim)) h (one_dvd dim),
    Nat.findGreatest_spec (P := (· ∣ dim)) h (one_dvd dim)⟩

/-- **The optimal grid** has the rank of the memref, and the greatest divisors. -/
theorem getOptimalGrid_spec {dims bounds grid : List ℕ} (hpos : ∀ n ∈ bounds, 0 < n)
    (h : getOptimalGrid dims bounds = .ok grid) :
    List.Forall₂ (fun g dim => 0 < g ∧ g ∣ dim) grid dims ∧ ∀ p : ℕ, grid[p]? =
        dims[p]?.bind fun dim => bounds[p]?.map (Nat.findGreatest (· ∣ dim)) := by
  induction dims generalizing bounds grid with
  | nil =>
    obtain rfl := Except.ok.inj h
    exact ⟨List.Forall₂.nil, fun p => by simp⟩
  | cons dim dims ih =>
    cases bounds with
    | nil => cases h
    | cons bound bounds =>
      obtain ⟨rest, hrest, hgrid⟩ := except_bind_eq_ok.mp h
      have hbound : 0 < bound := hpos bound (by simp)
      obtain ⟨hall, hat⟩ := ih (fun n hn => hpos n (by simp [hn])) hrest
      rw [largestDivisor_eq dim hbound] at hgrid
      obtain rfl : [Nat.findGreatest (· ∣ dim) bound] ++ rest = grid := Except.ok.inj hgrid
      refine ⟨List.Forall₂.cons (findGreatest_dvd_spec dim hbound) hall, fun p => ?_⟩
      cases p with
      | zero => rfl
      | succ p => simpa using hat p

/-- The optimal grid exists for shapes of at most the rank of the worker grid. -/
theorem getOptimalGrid_isOk {dims bounds : List ℕ} :
    (∃ grid, getOptimalGrid dims bounds = .ok grid) ↔ dims.length ≤ bounds.length := by
  induction dims generalizing bounds with
  | nil => exact iff_of_true ⟨[], rfl⟩ (Nat.zero_le _)
  | cons dim dims ih =>
    cases bounds with
    | nil => exact iff_of_false (fun ⟨grid, h⟩ => nomatch h) (by simp)
    | cons bound bounds =>
      rw [List.length_cons, List.length_cons, Nat.succ_le_succ_iff, ← ih]
      constructor
      · rintro ⟨grid, h⟩
        obtain ⟨rest, hrest, -⟩ := except_bind_eq_ok.mp h
        exact ⟨rest, hrest⟩
      · rintro ⟨rest, hrest⟩
        exact ⟨_, except_bind_eq_ok.mpr ⟨rest, hrest, rfl⟩⟩

/-! ## Shards of a divided shape -/

theorem ceilDiv_bounds {a : ℤ} {b : ℕ} (hb : 0 < b) (ha : 1 ≤ a) :
    a ≤ b * ceilDiv a b ∧ b * ceilDiv a b ≤ a + b - 1 := by
  refine ⟨le_mul_ceilDiv a hb, ?_⟩
  have hmod := Int.tmod_add_mul_tdiv (a + b - 1) b
  have hnonneg := Int.tmod_nonneg (b : ℤ) (a := a + b - 1) (by omega)
  unfold ceilDiv
  omega

/-- Rounding up a number that is not positive. -/
theorem ceilDiv_of_nonpos {a : ℤ} {b : ℕ} (hb : 0 < b) (ha : a ≤ 0) :
    a ≤ ceilDiv a b ∧ ceilDiv a b ≤ 0 := by
  have hb' : (0 : ℤ) < b := Int.natCast_pos.mpr hb
  unfold ceilDiv
  rcases le_or_gt 0 (a + b - 1) with h | h
  · rw [Int.tdiv_eq_zero_of_lt h (by omega)]
    exact ⟨ha, le_refl 0⟩
  · have hneg : (a + b - 1).tdiv b = -((-(a + b - 1)).tdiv b) := by
      rw [Int.neg_tdiv, Int.neg_neg]
    have hle := Int.tdiv_le_self (b : ℤ) (show 0 ≤ -(a + b - 1) by omega)
    have hnonneg : 0 ≤ (-(a + b - 1)).tdiv b := Int.tdiv_nonneg (by omega) (le_of_lt hb')
    rw [hneg]
    omega

/-- **A shard of a divided dimension**: a grid that divides the units of a dimension cuts it
into equal shards. -/
theorem shard_mul_grid {x : ℤ} {g n m c : ℕ} (hg : 0 < g) (hn : 0 < n)
    (hc : (c : ℤ) = ceilDiv x n) (hm : (m : ℤ) = ceilDiv (ceilDiv x g) n) (hdvd : g ∣ c) :
    m * g = c := by
  have hg' : (1 : ℤ) ≤ g := by omega
  rcases Nat.eq_zero_or_pos c with rfl | hpos
  · -- nothing is laid out
    have hx : x ≤ 0 := by
      by_contra hx
      have h := (ceilDiv_bounds hn (a := x) (by omega)).1
      rw [← hc] at h
      simp at h
      omega
    obtain ⟨hle, hle'⟩ := ceilDiv_of_nonpos hg hx
    have hzero : ceilDiv (ceilDiv x g) n ≤ 0 := (ceilDiv_of_nonpos hn hle').2
    have hm₀ : m = 0 := by omega
    rw [hm₀, Nat.zero_mul]
  · have hx : 1 ≤ x := by
      by_contra hx
      have h := (ceilDiv_of_nonpos hn (a := x) (by omega)).2
      omega
    obtain ⟨k, rfl⟩ := hdvd
    obtain ⟨hc₁, hc₂⟩ := ceilDiv_bounds hn hx
    rw [← hc] at hc₁ hc₂
    obtain ⟨hy₁, hy₂⟩ := ceilDiv_bounds hg hx
    set y := ceilDiv x g with hy
    have hypos : 1 ≤ y := by
      by_contra hneg
      have : (g : ℤ) * y ≤ 0 := Int.mul_nonpos_of_nonneg_of_nonpos (by omega) (by omega)
      omega
    obtain ⟨hm₁, hm₂⟩ := ceilDiv_bounds hn hypos
    rw [← hm] at hm₁ hm₂
    push_cast at hc₁ hc₂
    have hle : m ≤ k := by
      have hynk : y ≤ n * k := by
        by_contra hlt
        have hmul : (g : ℤ) * (n * k + 1) ≤ g * y := Int.mul_le_mul_of_nonneg_left (by omega)
          (by omega)
        have hring : (g : ℤ) * (n * k + 1) = n * (g * k) + g := by ring
        omega
      by_contra hlt
      have hmul : (n : ℤ) * (k + 1) ≤ n * m := Int.mul_le_mul_of_nonneg_left (by omega) (by omega)
      have hring : (n : ℤ) * (k + 1) = n * k + n := by ring
      omega
    have hge : k ≤ m := by
      by_contra hlt
      have hgy : (g : ℤ) * y ≤ g * (n * m) := Int.mul_le_mul_of_nonneg_left hm₁ (by omega)
      have hmul : (g : ℤ) * (n * (m + 1)) ≤ g * (n * k) := Int.mul_le_mul_of_nonneg_left
        (Int.mul_le_mul_of_nonneg_left (by omega) (by omega)) (by omega)
      have hring : (g : ℤ) * (n * (m + 1)) = g * (n * m) + g * n := by ring
      have hring' : (g : ℤ) * (n * k) = n * (g * k) := by ring
      have hgn : (n : ℤ) ≤ g * n := le_mul_of_one_le_left (by omega) hg'
      omega
    rw [le_antisymm hle hge, Nat.mul_comm]

/-- Shards of a divided shape make up the shape. -/
theorem shards_mul_grid {xs : List ℤ} {grid ext shard dims : List ℕ}
    (hext : ext.length = xs.length) (hextpos : ∀ n ∈ ext, 0 < n)
    (hshard : shard.map (fun n : ℕ => (n : ℤ)) =
      List.zipWith ceilDiv (List.zipWith ceilDiv xs grid) ext)
    (hdims : dims.map (fun n : ℕ => (n : ℤ)) = List.zipWith ceilDiv xs ext)
    (hgrid : List.Forall₂ (fun g dim => 0 < g ∧ g ∣ dim) grid dims) :
    List.zipWith (· * ·) shard grid = dims := by
  induction hgrid generalizing xs ext shard with
  | nil =>
    exact List.zipWith_nil_right
  | @cons g dim grid dims hgdim hrest ih =>
    cases xs with
    | nil => simp at hdims
    | cons x xs =>
      cases ext with
      | nil => simp at hext
      | cons n ext =>
        cases shard with
        | nil => simp at hshard
        | cons m shard =>
          simp only [List.map_cons, List.zipWith_cons_cons, List.cons.injEq]
            at hshard hdims
          rw [List.zipWith_cons_cons, shard_mul_grid hgdim.1 (hextpos n (by simp))
            hdims.1 hshard.1 hgdim.2, ih (by simpa using hext)
            (fun n' hn => hextpos n' (by simp [hn])) hshard.2 hdims.2]

/-- A shard of a dimension is not negative when the dimension is not. -/
theorem exists_shard {x : ℤ} {g n c : ℕ} (hg : 0 < g) (hn : 0 < n) (hc : (c : ℤ) = ceilDiv x n) :
    ∃ m : ℕ, (m : ℤ) = ceilDiv (ceilDiv x g) n := by
  refine ⟨(ceilDiv (ceilDiv x g) n).toNat, Int.toNat_of_nonneg ?_⟩
  rcases le_or_gt 1 x with hx | hx
  · have hbounds := (ceilDiv_bounds hg hx).1
    have hy : 0 ≤ ceilDiv x g := by
      by_contra hneg
      have hmul : (g : ℤ) * ceilDiv x g ≤ 0 :=
        Int.mul_nonpos_of_nonneg_of_nonpos (by omega) (by omega)
      omega
    exact Int.tdiv_nonneg (by omega) (by omega)
  · have hle := (ceilDiv_of_nonpos hg (a := x) (by omega)).1
    calc (0 : ℤ) ≤ c := Int.natCast_nonneg c
      _ = ceilDiv x n := hc
      _ ≤ ceilDiv (ceilDiv x g) n := Int.tdiv_le_tdiv (by omega) (by omega)

/-- The shards of a shape that has a grid. -/
theorem exists_shards {xs : List ℤ} {grid ext dims : List ℕ} (hextpos : ∀ n ∈ ext, 0 < n)
    (hdims : dims.map (fun n : ℕ => (n : ℤ)) = List.zipWith ceilDiv xs ext)
    (hgrid : List.Forall₂ (fun g dim => 0 < g ∧ g ∣ dim) grid dims) :
    ∃ shard : List ℕ, shard.map (fun n : ℕ => (n : ℤ)) =
      List.zipWith ceilDiv (List.zipWith ceilDiv xs grid) ext := by
  induction hgrid generalizing xs ext with
  | nil => exact ⟨[], by simp⟩
  | @cons g dim grid dims hgdim hrest ih =>
    cases xs with
    | nil => cases hdims
    | cons x xs =>
      cases ext with
      | nil => cases hdims
      | cons n ext =>
        rw [List.map_cons, List.zipWith_cons_cons, List.cons.injEq] at hdims
        obtain ⟨m, hm⟩ := exists_shard hgdim.1 (hextpos n (by simp)) hdims.1
        obtain ⟨shard, hshard⟩ := ih (fun n' hn => hextpos n' (by simp [hn])) hdims.2
        refine ⟨m :: shard, ?_⟩
        rw [List.map_cons, List.zipWith_cons_cons, List.zipWith_cons_cons, hm, hshard]

/-- Shards are determined by a grid and the shape they make up. -/
theorem zipWith_mul_injective {as bs grid : List ℕ} (ha : as.length = grid.length)
    (hb : bs.length = grid.length) (hpos : ∀ n ∈ grid, 0 < n)
    (h : List.zipWith (· * ·) as grid = List.zipWith (· * ·) bs grid) : as = bs := by
  induction grid generalizing as bs with
  | nil => rw [List.length_eq_zero_iff.mp ha, List.length_eq_zero_iff.mp hb]
  | cons n grid ih =>
    cases as with
    | nil => cases ha
    | cons a as =>
      cases bs with
      | nil => cases hb
      | cons b bs =>
        rw [List.zipWith_cons_cons, List.zipWith_cons_cons, List.cons.injEq] at h
        rw [Nat.eq_of_mul_eq_mul_right (hpos n (by simp)) h.1,
          ih (Nat.succ.inj ha) (Nat.succ.inj hb) (fun n' hn => hpos n' (by simp [hn])) h.2]

/-! ## One operand -/

theorem collapsedLinearAffineMap_congr {shape grid grid' : List ℕ} {intervals : List (ℤ × ℤ)}
    (h : grid.length = grid'.length) :
    collapsedLinearAffineMap shape grid intervals =
      collapsedLinearAffineMap shape grid' intervals := by
  unfold collapsedLinearAffineMap
  rw [h]

theorem buildMemRefShape_eq_ok_iff {shard : List ℤ} {e : ElementType} {memref : List ℕ} :
    buildMemRefShape shard e = .ok memref ↔ (e.isTile → 2 ≤ shard.length) ∧
      memref.map (fun n : ℕ => (n : ℤ)) = List.zipWith ceilDiv shard (e.extents shard.length) := by
  rw [buildMemRefShape]
  constructor
  · intro h
    cases hbuild : buildMemRef shard e .l1 with
    | error message =>
      rw [hbuild] at h
      cases h
    | ok built =>
      rw [hbuild] at h
      obtain rfl := Except.ok.inj h
      obtain ⟨htile, -, -, hshape⟩ := (buildMemRef_eq_ok_iff _ _ _ _).mp hbuild
      exact ⟨htile, hshape⟩
  · rintro ⟨htile, hshape⟩
    rw [(buildMemRef_eq_ok_iff shard e .l1 ⟨memref, e, .l1⟩).mpr ⟨htile, rfl, rfl, hshape⟩]
    rfl

section Calculate

variable {W : WorkerGrid} {ty new : RankedTensorType}

/-- `calculateOptimalLayoutForTensorType` by its parts. -/
theorem calculate_eq_ok_iff (hrank : ty.encoding.memref.length = ty.encoding.grid.length) :
    calculateOptimalLayoutForTensorType W ty = .ok new ↔
      ∃ grid, getOptimalGrid ty.canonicalShape W.shape = .ok grid ∧
        ∃ encoding, ty.encoding.withGrid ty grid = .ok encoding ∧
          { ty with encoding := encoding } = new := by
  rw [calculateOptimalLayoutForTensorType, if_neg (by rw [hrank]; exact not_not.mpr rfl),
    except_bind_eq_ok]
  simp only [except_bind_eq_ok, Except.ok.injEq]

theorem length_canonicalShape (hrank : ty.encoding.memref.length = ty.encoding.grid.length) :
    ty.canonicalShape.length = ty.encoding.grid.length := by
  rw [RankedTensorType.canonicalShape, List.length_zipWith, hrank, min_self]

/-- What is calculated: the grid and the memref change, and make up the shape they made up
before. -/
theorem exists_calculated (hty : Divides ty)
    (h : calculateOptimalLayoutForTensorType W ty = .ok new) :
    ∃ grid memref, new = { ty with encoding := { ty.encoding with grid, memref } } ∧
      getOptimalGrid ty.canonicalShape W.shape = .ok grid ∧
      ty.encoding.withGrid ty grid = .ok new.encoding ∧
      memref.length = grid.length ∧ grid.length = ty.encoding.grid.length ∧
      new.canonicalShape = ty.canonicalShape := by
  obtain ⟨grid, hgrid, encoding, hencoding, rfl⟩ := (calculate_eq_ok_iff hty.rank).mp h
  obtain ⟨shape, hshape, hlinear, hexact⟩ := hty.exact
  obtain ⟨hall, -⟩ := getOptimalGrid_spec W.pos hgrid
  have hlen : grid.length = ty.encoding.grid.length :=
    hall.length_eq.trans (length_canonicalShape hty.rank)
  have hparts := hencoding
  rw [MetalLayoutAttr.withGrid, hshape] at hparts
  change MetalLayoutAttr.get shape _ _ grid [(0, -1)] _ = _ at hparts
  rw [MetalLayoutAttr.get, collapsedLinearAffineMap_congr hlen, hlinear] at hparts
  obtain ⟨shard, hshard, hparts⟩ := except_bind_eq_ok.mp hparts
  obtain ⟨memref, hmemref, hbuilt⟩ := except_bind_eq_ok.mp hparts
  obtain rfl := Except.ok.inj hbuilt
  have hresults : ty.encoding.linear.results.length = grid.length :=
    (dims_of_collapsed hlinear).2.trans hlen.symm
  rw [calculateLogicalShardShapeForSharding, if_pos hresults] at hshard
  obtain rfl := Except.ok.inj hshard
  have hphys : (evalShape ty.encoding.linear shape).length = grid.length := by
    rw [evalShape, List.length_map, MLIR.AffineMap.eval, List.length_map, hresults]
  have hshardlen : (List.zipWith ceilDiv (evalShape ty.encoding.linear shape) grid).length =
      grid.length := by
    rw [List.length_zipWith, hphys, min_self]
  obtain ⟨htile, hmemref'⟩ := buildMemRefShape_eq_ok_iff.mp hmemref
  rw [hshardlen] at htile hmemref'
  have hext := ElementType.length_extents ty.encoding.elementType htile
  rw [← hlen] at hexact
  refine ⟨grid, memref, rfl, hgrid, hencoding, ?_, hlen, ?_⟩
  · have hcast := congrArg List.length hmemref'
    rw [List.length_map, List.length_zipWith, hshardlen, hext, min_self] at hcast
    exact hcast
  · exact shards_mul_grid (hext.trans hphys.symm) (fun n hn => ElementType.extents_pos _ hn)
      hmemref' hexact hall

/-- **The layout of an operand after the pass**: its grid has the greatest divisors, divides the
shape exactly, and is not changed again. -/
theorem calculate_spec (hty : Divides ty)
    (h : calculateOptimalLayoutForTensorType W ty = .ok new) :
    Divides new ∧ (∀ p, new.gridAt p = ty.divisorAt W p) ∧
      calculateOptimalLayoutForTensorType W new = .ok new := by
  obtain ⟨grid, memref, rfl, hgrid, hencoding, hmemlen, hlen, hcanonical⟩ := exists_calculated hty h
  obtain ⟨shape, hshape, hlinear, hexact⟩ := hty.exact
  refine ⟨⟨hmemlen, ?_, shape, hshape, ?_, ?_⟩, ?_, ?_⟩
  · intro htile
    exact (hty.tiled htile).trans_eq hlen.symm
  · exact (collapsedLinearAffineMap_congr hlen).trans hlinear
  · rw [hcanonical]
    exact hexact.trans (by rw [← hlen])
  · exact (getOptimalGrid_spec W.pos hgrid).2
  · refine (calculate_eq_ok_iff hmemlen).mpr ⟨grid, ?_, _, hencoding, rfl⟩
    rw [hcanonical]
    exact hgrid

/-- A type is calculated for operands of at most the rank of the worker grid. -/
theorem calculate_isOk_iff (hty : Divides ty) :
    (∃ new, calculateOptimalLayoutForTensorType W ty = .ok new) ↔
      ty.encoding.grid.length ≤ W.shape.length := by
  rw [← length_canonicalShape hty.rank, ← getOptimalGrid_isOk]
  constructor
  · rintro ⟨new, h⟩
    obtain ⟨grid, hgrid, -⟩ := (calculate_eq_ok_iff hty.rank).mp h
    exact ⟨grid, hgrid⟩
  · rintro ⟨grid, hgrid⟩
    obtain ⟨shape, hshape, hlinear, hexact⟩ := hty.exact
    obtain ⟨hall, -⟩ := getOptimalGrid_spec W.pos hgrid
    have hlen : grid.length = ty.encoding.grid.length :=
      hall.length_eq.trans (length_canonicalShape hty.rank)
    have hresults : ty.encoding.linear.results.length = grid.length :=
      (dims_of_collapsed hlinear).2.trans hlen.symm
    have hshardlen : (List.zipWith ceilDiv (evalShape ty.encoding.linear shape) grid).length =
        grid.length := by
      rw [List.length_zipWith, evalShape, List.length_map, MLIR.AffineMap.eval, List.length_map,
        hresults, min_self]
    obtain ⟨memref, hmemref⟩ := exists_shards (fun n hn => ElementType.extents_pos _ hn) hexact hall
    refine ⟨_, (calculate_eq_ok_iff hty.rank).mpr ⟨grid, hgrid,
      ⟨ty.encoding.linear, ty.encoding.oobVal, grid, memref, ty.encoding.elementType,
        ty.encoding.memorySpace⟩, ?_, rfl⟩⟩
    rw [MetalLayoutAttr.withGrid, hshape]
    show MetalLayoutAttr.get shape _ _ grid [(0, -1)] _ = _
    rw [MetalLayoutAttr.get, collapsedLinearAffineMap_congr hlen, hlinear]
    refine except_bind_eq_ok.mpr ⟨List.zipWith ceilDiv (evalShape ty.encoding.linear shape) grid,
      ?_, except_bind_eq_ok.mpr ⟨memref, ?_, rfl⟩⟩
    · rw [calculateLogicalShardShapeForSharding, if_pos hresults]
    · rw [buildMemRefShape_eq_ok_iff, hshardlen, hlen]
      exact ⟨hty.tiled, hmemref⟩

/-- **The fixed types**: a type is calculated for itself exactly when its grid has the greatest
divisors. -/
theorem eq_calculated_iff (hty : Divides ty)
    (h : calculateOptimalLayoutForTensorType W ty = .ok new) :
    ty = new ↔ ∀ p, ty.gridAt p = ty.divisorAt W p := by
  obtain ⟨grid, memref, rfl, hgrid, -, hmemlen, hlen, hcanonical⟩ := exists_calculated hty h
  obtain ⟨hall, hat⟩ := getOptimalGrid_spec W.pos hgrid
  constructor
  · intro heq p
    rw [RankedTensorType.gridAt, congrArg (fun t => t.encoding.grid) heq]
    exact hat p
  · intro hgridAt
    have hgrid' : ty.encoding.grid = grid := List.ext_getElem? fun p => (hgridAt p).trans (hat p).symm
    have hmemref : ty.encoding.memref = memref := by
      rw [RankedTensorType.canonicalShape, RankedTensorType.canonicalShape, ← hgrid'] at hcanonical
      refine (zipWith_mul_injective ?_ ?_ ?_ hcanonical).symm
      · rw [hmemlen, hgrid']
      · exact hty.rank
      · intro n hn
        obtain ⟨i, hi, rfl⟩ := List.getElem_of_mem (hgrid' ▸ hn)
        exact ((List.forall₂_iff_get.mp hall).2 i hi (hall.length_eq ▸ hi)).1
    rw [← hgrid', ← hmemref]

end Calculate

/-! ## The loop over the operands -/

/-- A value that is no result of an operation from an identity on. -/
def Before (fresh : ℕ) (v : Value) : Prop := ∀ id k, v = .opResult id k → id < fresh

variable {v : Value}

theorem Before.mono {fresh fresh' : ℕ} (h : Before fresh v) (hle : fresh ≤ fresh') :
    Before fresh' v := fun id k hv => lt_of_lt_of_le (h id k hv) hle

variable {ty : RankedTensorType}

theorem typeOf_eq_ok_iff {types : Value → Option RankedTensorType} :
    typeOf types v = .ok ty ↔ types v = some ty := by
  rw [typeOf]
  cases types v with
  | none => exact iff_of_false (fun h => nomatch h) (fun h => nomatch h)
  | some ty' =>
    exact ⟨fun h => congrArg some (Except.ok.inj h), fun h => congrArg _ (Option.some.inj h)⟩

theorem conversionTypes_of_before {types : Value → Option RankedTensorType} {fresh : ℕ}
    (h : Before fresh v) : conversionTypes types fresh ty v = types v := by
  have h₁ : v ≠ .opResult (fresh + 1) 0 := fun hv => absurd (h _ _ hv) (by omega)
  have h₂ : v ≠ .opResult fresh 0 := fun hv => absurd (h _ _ hv) (lt_irrefl _)
  rw [conversionTypes, setType, setType, Function.update_of_ne h₁, Function.update_of_ne h₂]

theorem conversionTypes_result (types : Value → Option RankedTensorType) (fresh : ℕ)
    (ty : RankedTensorType) : conversionTypes types fresh ty (.opResult (fresh + 1) 0) = some ty :=
  Function.update_self _ _ _

theorem acyclic_conversion {fresh : ℕ} (h : Before fresh v) :
    ∀ o ∈ conversion fresh v, resultOf o ∉ o.operands := by
  intro o ho hself
  rcases List.mem_cons.mp ho with rfl | ho
  · cases hself
  · obtain rfl := List.mem_singleton.mp ho
    rcases List.mem_cons.mp hself with heq | hself
    · exact absurd (h (fresh + 1) 0 heq.symm) (by simp)
    · exact absurd (Value.opResult.inj (List.mem_singleton.mp hself)).1 (by simp)

/-- What a loop over operands leaves: conversions with new identities, the types of the values
before, and operands of the calculated types. -/
structure Visited (W : WorkerGrid) (s : Rewriting) (vs : List Value)
    (tys : List RankedTensorType) (s' : Rewriting) (operands : List Value)
    (news : List RankedTensorType) (inserted : List Op) : Prop where
  fresh_le : s.fresh ≤ s'.fresh
  types_eq : ∀ v, Before s.fresh v → s'.types v = s.types v
  operands_eq : s'.operands = s.operands ++ operands
  news_eq : operands.map s'.types = news.map some
  calculated : List.Forall₂ (fun ty new => calculateOptimalLayoutForTensorType W ty = .ok new)
    tys news
  inserted_eq : s'.inserted = s.inserted ++ inserted
  nodup : (inserted.map Op.id).Nodup
  fresh : ∀ o ∈ inserted, s.fresh ≤ o.id ∧ o.id < s'.fresh
  kinds : ∀ o ∈ inserted, ∀ grid maps, o.kind ≠ .generic grid maps
  reads : ∀ v ∈ operands ++ inserted.flatMap Op.operands,
    v ∈ vs ∨ ∃ o ∈ inserted, ∃ k, v = .opResult o.id k
  acyclic : ∀ o ∈ inserted, resultOf o ∉ o.operands

variable {W : WorkerGrid}

variable {s s' : Rewriting}

/-- One operand. -/
theorem exists_visited_rewriteOperand (hbefore : Before s.fresh v) (hty : s.types v = some ty)
    (h : rewriteOperand W s v = .ok s') :
    ∃ operands news inserted, Visited W s [v] [ty] s' operands news inserted := by
  obtain ⟨ty', hty', h⟩ := except_bind_eq_ok.mp h
  obtain rfl := Option.some.inj (hty.symm.trans (typeOf_eq_ok_iff.mp hty'))
  obtain ⟨new, hnew, h⟩ := except_bind_eq_ok.mp h
  have hcalc : List.Forall₂
      (fun ty new => calculateOptimalLayoutForTensorType W ty = .ok new) [ty] [new] :=
    List.Forall₂.cons hnew List.Forall₂.nil
  split_ifs at h with hne
  · obtain rfl := Except.ok.inj h
    refine ⟨[.opResult (s.fresh + 1) 0], [new], conversion s.fresh v, ?_⟩
    exact {
      fresh_le := Nat.le_add_right _ _
      types_eq := fun w hw => conversionTypes_of_before hw
      operands_eq := rfl
      news_eq := congrArg (fun x => [x]) (conversionTypes_result _ _ _)
      calculated := hcalc
      inserted_eq := rfl
      nodup := by simp [conversion]
      fresh := by simp [conversion]
      kinds := by simp [conversion]
      reads := by simp [conversion]
      acyclic := acyclic_conversion hbefore }
  · obtain rfl := Except.ok.inj h
    rw [not_not] at hne
    refine ⟨[v], [new], [], ?_⟩
    exact {
      fresh_le := le_refl _
      types_eq := fun _ _ => rfl
      operands_eq := rfl
      news_eq := congrArg (fun x => [x]) (hty.trans (congrArg some hne))
      calculated := hcalc
      inserted_eq := (List.append_nil _).symm
      nodup := List.nodup_nil
      fresh := by simp
      kinds := by simp
      reads := by simp
      acyclic := by simp }

theorem Visited.before {vs operands : List Value}
    {tys news : List RankedTensorType} {inserted : List Op}
    (h : Visited W s vs tys s' operands news inserted) (hbefore : ∀ v ∈ vs, Before s.fresh v)
    (hv : v ∈ operands) : Before s'.fresh v := by
  rcases h.reads v (List.mem_append_left _ hv) with hmem | ⟨o, ho, k, rfl⟩
  · exact (hbefore v hmem).mono h.fresh_le
  · intro id k' heq
    obtain ⟨rfl, -⟩ := Value.opResult.inj heq
    exact (h.fresh o ho).2

/-- Two parts of the loop. -/
theorem Visited.append {s s₁ s' : Rewriting} {vs vs' operands operands' : List Value}
    {tys tys' news news' : List RankedTensorType} {inserted inserted' : List Op}
    (h : Visited W s vs tys s₁ operands news inserted)
    (h' : Visited W s₁ vs' tys' s' operands' news' inserted')
    (hbefore : ∀ v ∈ vs, Before s.fresh v) :
    Visited W s (vs ++ vs') (tys ++ tys') s' (operands ++ operands') (news ++ news')
      (inserted ++ inserted') where
  fresh_le := h.fresh_le.trans h'.fresh_le
  types_eq v hv := (h'.types_eq v (hv.mono h.fresh_le)).trans (h.types_eq v hv)
  operands_eq := by rw [h'.operands_eq, h.operands_eq, List.append_assoc]
  news_eq := by
    rw [List.map_append, List.map_append, h'.news_eq, ← h.news_eq]
    congr 1
    exact List.map_congr_left fun v hv => h'.types_eq v (h.before hbefore hv)
  calculated := List.rel_append h.calculated h'.calculated
  inserted_eq := by rw [h'.inserted_eq, h.inserted_eq, List.append_assoc]
  nodup := by
    rw [List.map_append]
    refine List.nodup_append.mpr ⟨h.nodup, h'.nodup, ?_⟩
    intro id hid id' hid' heq
    obtain ⟨o, ho, rfl⟩ := List.mem_map.mp hid
    obtain ⟨o', ho', rfl⟩ := List.mem_map.mp hid'
    have hlt := (h.fresh o ho).2
    have hle := (h'.fresh o' ho').1
    omega
  fresh o ho := by
    rcases List.mem_append.mp ho with ho | ho
    · exact ⟨(h.fresh o ho).1, lt_of_lt_of_le (h.fresh o ho).2 h'.fresh_le⟩
    · exact ⟨h.fresh_le.trans (h'.fresh o ho).1, (h'.fresh o ho).2⟩
  kinds o ho := by
    rcases List.mem_append.mp ho with ho | ho
    · exact h.kinds o ho
    · exact h'.kinds o ho
  reads v hv := by
    rw [List.flatMap_append] at hv
    have hsplit : v ∈ operands ++ inserted.flatMap Op.operands ∨
        v ∈ operands' ++ inserted'.flatMap Op.operands := by
      simp only [List.mem_append] at hv ⊢
      tauto
    rcases hsplit with hv | hv
    · rcases h.reads v hv with hmem | ⟨o, ho, k, rfl⟩
      · exact Or.inl (List.mem_append_left _ hmem)
      · exact Or.inr ⟨o, List.mem_append_left _ ho, k, rfl⟩
    · rcases h'.reads v hv with hmem | ⟨o, ho, k, rfl⟩
      · exact Or.inl (List.mem_append_right _ hmem)
      · exact Or.inr ⟨o, List.mem_append_right _ ho, k, rfl⟩
  acyclic o ho := by
    rcases List.mem_append.mp ho with ho | ho
    · exact h.acyclic o ho
    · exact h'.acyclic o ho

/-- **The loop over the operands.** -/
theorem exists_visited_foldlM {vs : List Value} {tys : List RankedTensorType}
    (hbefore : ∀ v ∈ vs, Before s.fresh v)
    (htys : vs.map s.types = tys.map some) (h : vs.foldlM (rewriteOperand W) s = .ok s') :
    ∃ operands news inserted, Visited W s vs tys s' operands news inserted := by
  induction vs generalizing tys s with
  | nil =>
    obtain rfl := Except.ok.inj h
    obtain rfl : tys = [] := by simpa using htys.symm
    refine ⟨[], [], [], ?_⟩
    exact {
      fresh_le := le_refl _
      types_eq := fun _ _ => rfl
      operands_eq := (List.append_nil _).symm
      news_eq := rfl
      calculated := List.Forall₂.nil
      inserted_eq := (List.append_nil _).symm
      nodup := List.nodup_nil
      fresh := by simp
      kinds := by simp
      reads := by simp
      acyclic := by simp }
  | cons v vs ih =>
    cases tys with
    | nil => cases htys
    | cons ty tys =>
      rw [List.map_cons, List.map_cons, List.cons.injEq] at htys
      rw [List.foldlM_cons] at h
      obtain ⟨s₁, hstep, hrest⟩ := except_bind_eq_ok.mp h
      obtain ⟨operands, news, inserted, hfirst⟩ := exists_visited_rewriteOperand (hbefore v (by simp))
          htys.1 hstep
      have htys₁ : vs.map s₁.types = tys.map some := by
        rw [← htys.2]
        exact List.map_congr_left fun w hw => hfirst.types_eq w (hbefore w (by simp [hw]))
      obtain ⟨operands', news', inserted', hlater⟩ :=
        ih (fun w hw => (hbefore w (by simp [hw])).mono hfirst.fresh_le) htys₁ hrest
      refine ⟨_, _, _, hfirst.append hlater fun w hw => hbefore w ?_⟩
      rw [List.mem_singleton.mp hw]
      exact List.mem_cons_self

theorem rewriteOperand_isOk {s : Rewriting} {ty new : RankedTensorType}
    (hty : s.types v = some ty) (hnew : calculateOptimalLayoutForTensorType W ty = .ok new) :
    ∃ s', rewriteOperand W s v = .ok s' := by
  by_cases hne : ty ≠ new
  · exact ⟨_, except_bind_eq_ok.mpr ⟨ty, typeOf_eq_ok_iff.mpr hty,
      except_bind_eq_ok.mpr ⟨new, hnew, if_pos hne⟩⟩⟩
  · exact ⟨_, except_bind_eq_ok.mpr ⟨ty, typeOf_eq_ok_iff.mpr hty,
      except_bind_eq_ok.mpr ⟨new, hnew, if_neg hne⟩⟩⟩

/-- The loop ends when a type is calculated for every operand. -/
theorem foldlM_isOk {vs : List Value} {tys : List RankedTensorType}
    {s : Rewriting} (hbefore : ∀ v ∈ vs, Before s.fresh v) (htys : vs.map s.types = tys.map some)
    (hall : ∀ ty ∈ tys, ∃ new, calculateOptimalLayoutForTensorType W ty = .ok new) :
    ∃ s', vs.foldlM (rewriteOperand W) s = .ok s' := by
  induction vs generalizing tys s with
  | nil => exact ⟨s, rfl⟩
  | cons v vs ih =>
    cases tys with
    | nil => cases htys
    | cons ty tys =>
      rw [List.map_cons, List.map_cons, List.cons.injEq] at htys
      obtain ⟨new, hnew⟩ := hall ty (by simp)
      obtain ⟨s₁, hs₁⟩ := rewriteOperand_isOk htys.1 hnew
      obtain ⟨operands, news, inserted, hfirst⟩ := exists_visited_rewriteOperand (hbefore v (by simp))
          htys.1 hs₁
      have htys₁ : vs.map s₁.types = tys.map some := by
        rw [← htys.2]
        exact List.map_congr_left fun w hw => hfirst.types_eq w (hbefore w (by simp [hw]))
      obtain ⟨s', hs'⟩ := ih (fun w hw => (hbefore w (by simp [hw])).mono hfirst.fresh_le)
        htys₁ fun ty hty => hall ty (by simp [hty])
      exact ⟨s', by rw [List.foldlM_cons, hs₁]; exact hs'⟩

/-! ## The rewrite of one operation -/

theorem lt_freshId {ops : List Op} {op : Op} (hop : op ∈ ops) : op.id < freshId ops :=
  SSA.lt_foldr_max Op.id hop

theorem FuncOp.Defines.before {f : FuncOp} (h : f.Defines v) : Before (freshId f.ops) v := by
  rintro id k rfl
  obtain ⟨o, ho, rfl⟩ := List.mem_map.mp h
  exact lt_freshId ho

/-- Uses of a result become uses of its conversion. -/
def replaceBy (op : Op) (fresh : ℕ) (v : Value) : Value :=
  if v = resultOf op then .opResult (fresh + 1) 0 else v

/-- The operations in the place of an operation. -/
def expand (op generic : Op) (inserted : List Op) (fresh : ℕ) (o : Op) : List Op :=
  if o.id = op.id then inserted ++ generic :: conversion fresh (resultOf op)
  else [{ o with operands := o.operands.map (replaceBy op fresh) }]

/-- **What a rewrite leaves.** -/
structure Rewritten (W : WorkerGrid) (f : FuncOp) (op : Op) (maps : List IndexingMap)
    (tys : List RankedTensorType) (resultType : RankedTensorType) (g : FuncOp) (fresh : ℕ)
    (generic : Op) (inserted : List Op) (news : List RankedTensorType)
    (new : RankedTensorType) : Prop where
  calculated : List.Forall₂ (fun ty new => calculateOptimalLayoutForTensorType W ty = .ok new)
    tys news
  new_eq : calculateOptimalLayoutForTensorType W resultType = .ok new
  ne : resultType ≠ new
  id_eq : generic.id = op.id
  kind_eq : generic.kind = .generic new.encoding.grid maps
  ops_eq : g.ops = f.ops.flatMap (expand op generic inserted fresh)
  returns_eq : g.returns = f.returns.map (replaceBy op fresh)
  fresh_le : freshId f.ops ≤ fresh
  nodup : (inserted.map Op.id).Nodup
  ids_fresh : ∀ o ∈ inserted, freshId f.ops ≤ o.id ∧ o.id < fresh
  kinds : ∀ o ∈ inserted, ∀ grid maps, o.kind ≠ .generic grid maps
  reads : ∀ v ∈ generic.operands ++ inserted.flatMap Op.operands,
    v ∈ op.operands ∨ ∃ o ∈ inserted, ∃ k, v = .opResult o.id k
  acyclic : ∀ o ∈ inserted, resultOf o ∉ o.operands
  types_eq : ∀ v, f.Defines v → v ≠ resultOf op → g.types v = f.types v
  types_result : g.types (resultOf op) = some new
  types_conversion : g.types (.opResult (fresh + 1) 0) = some resultType
  news_eq : generic.operands.map g.types = news.map some

section Rewrite

variable {W : WorkerGrid} {f g : FuncOp} {op : Op} {grid : List ℕ} {maps : List IndexingMap}
  {tys : List RankedTensorType} {resultType : RankedTensorType}

theorem exists_init (htys : f.operandTypes op = tys.map some)
    (houtput : tys.getLast? = some resultType) :
    ∃ init, op.operands.getLast? = some init ∧ f.types init = some resultType := by
  have hlast : (op.operands.map f.types).getLast? = (tys.map some).getLast? :=
    congrArg List.getLast? htys
  rw [List.getLast?_map, List.getLast?_map, houtput] at hlast
  exact Option.map_eq_some_iff.mp hlast

/-- **The rewrite of a generic operation.** -/
theorem exists_rewritten (hf : f.WellFormed) (hop : op ∈ f.ops)
    (hkind : op.kind = .generic grid maps) (htys : f.operandTypes op = tys.map some)
    (hresult : f.types (resultOf op) = some resultType)
    (houtput : tys.getLast? = some resultType)
    (h : matchAndRewrite W f op = .ok (some g)) :
    ∃ fresh generic inserted news new,
      Rewritten W f op maps tys resultType g fresh generic inserted news new := by
  obtain ⟨init, hinit, hinitType⟩ := exists_init htys houtput
  rw [matchAndRewrite, hkind, hinit] at h
  obtain ⟨originalType, horiginal, h⟩ := except_bind_eq_ok.mp h
  obtain rfl := Option.some.inj (hresult.symm.trans (typeOf_eq_ok_iff.mp horiginal))
  obtain ⟨new, hnew, h⟩ := except_bind_eq_ok.mp h
  by_cases hne : resultType = new
  · rw [if_pos hne] at h
    cases h
  rw [if_neg hne] at h
  obtain ⟨s, hs, h⟩ := except_bind_eq_ok.mp h
  obtain ⟨resultTypes, hresultTypes, h⟩ := except_bind_eq_ok.mp h
  have hset : resultTypes = setType f.types (resultOf op) new := by
    obtain ⟨ty, hty, hrest⟩ := except_bind_eq_ok.mp hresultTypes
    obtain rfl := Option.some.inj (hinitType.symm.trans (typeOf_eq_ok_iff.mp hty))
    obtain ⟨new', hnew', hrest⟩ := except_bind_eq_ok.mp hrest
    obtain rfl := Except.ok.inj (hnew.symm.trans hnew')
    rw [if_neg hne, if_pos rfl] at hrest
    exact (Except.ok.inj hrest).symm
  have hbefore : ∀ v ∈ op.operands, Before (freshId f.ops) v :=
    fun v hv => (hf.defined op hop v hv).before
  obtain ⟨operands, news, inserted, hvisited⟩ :=
    @exists_visited_foldlM W ⟨freshId f.ops, [], f.types, []⟩ s op.operands tys hbefore htys hs
  have hinserted : s.inserted = inserted := hvisited.inserted_eq
  have hoperands : s.operands = operands := hvisited.operands_eq
  have hresultBefore : Before s.fresh (resultOf op) := by
    intro id k heq
    obtain ⟨rfl, -⟩ := Value.opResult.inj heq
    exact lt_of_lt_of_le (lt_freshId hop) hvisited.fresh_le
  rw [hset, hinserted, hoperands] at h
  obtain rfl := Option.some.inj (Except.ok.inj h)
  refine ⟨s.fresh, { op with kind := .generic new.encoding.grid maps, operands := operands },
    inserted, news, new, ?_⟩
  exact {
    calculated := hvisited.calculated
    new_eq := hnew
    ne := hne
    id_eq := rfl
    kind_eq := rfl
    ops_eq := rfl
    returns_eq := rfl
    fresh_le := hvisited.fresh_le
    nodup := hvisited.nodup
    ids_fresh := hvisited.fresh
    kinds := hvisited.kinds
    reads := hvisited.reads
    acyclic := hvisited.acyclic
    types_eq := by
      intro v hv hne'
      show conversionTypes _ s.fresh resultType v = _
      rw [conversionTypes_of_before (hv.before.mono hvisited.fresh_le), if_neg hne',
        hvisited.types_eq v hv.before]
    types_result := by
      show conversionTypes _ s.fresh resultType (resultOf op) = _
      rw [conversionTypes_of_before hresultBefore, if_pos rfl]
      exact Function.update_self _ _ _
    types_conversion := conversionTypes_result _ _ _
    news_eq := by
      rw [← hvisited.news_eq]
      refine List.map_congr_left fun v hv => ?_
      show conversionTypes _ s.fresh resultType v = _
      rw [conversionTypes_of_before (hvisited.before hbefore hv), if_neg]
      rintro rfl
      rcases hvisited.reads _ (List.mem_append_left _ hv) with hmem | ⟨o, ho, k, heq⟩
      · exact hf.acyclic op hop hmem
      · obtain ⟨hid, -⟩ := Value.opResult.inj heq
        have hlt := lt_freshId hop
        have hle : freshId f.ops ≤ o.id := (hvisited.fresh o ho).1
        omega }

theorem bind_of_eq_ok {α β : Type} {x : Except String α} {a : α} (h : x = .ok a)
    (k : α → Except String β) : (x >>= k) = k a := by
  rw [h]
  rfl

theorem WellFormedGeneric.divides_result (h : WellFormedGeneric grid maps tys resultType) :
    Divides resultType :=
  h.divides resultType (List.mem_of_getLast? h.output)

/-- An operation has to be rewritten when another type is calculated for its result. -/
theorem rewrites_iff {new : RankedTensorType} (hresultType : Divides resultType)
    (hnew : calculateOptimalLayoutForTensorType W resultType = .ok new) :
    Rewrites W resultType ↔ resultType ≠ new := by
  rw [Rewrites, ← not_forall, Ne, eq_calculated_iff hresultType hnew]

/-- The pattern reads the type of the result, and leaves an operation that has its type. -/
theorem matchAndRewrite_of_ok (hkind : op.kind = .generic grid maps)
    (htys : f.operandTypes op = tys.map some)
    (hresult : f.types (resultOf op) = some resultType)
    (hgeneric : WellFormedGeneric grid maps tys resultType) {result : Option FuncOp}
    (h : matchAndRewrite W f op = .ok result) :
    W.Covers resultType ∧ (Rewrites W resultType → ∃ g, result = some g) := by
  obtain ⟨init, hinit, -⟩ := exists_init htys hgeneric.output
  rw [matchAndRewrite, hkind, hinit] at h
  obtain ⟨originalType, horiginal, h⟩ := except_bind_eq_ok.mp h
  obtain rfl := Option.some.inj (hresult.symm.trans (typeOf_eq_ok_iff.mp horiginal))
  obtain ⟨new, hnew, h⟩ := except_bind_eq_ok.mp h
  refine ⟨(calculate_isOk_iff hgeneric.divides_result).mp ⟨new, hnew⟩, fun hrewrites => ?_⟩
  rw [if_neg ((rewrites_iff hgeneric.divides_result hnew).mp hrewrites)] at h
  obtain ⟨s, -, h⟩ := except_bind_eq_ok.mp h
  obtain ⟨resultTypes, -, h⟩ := except_bind_eq_ok.mp h
  exact ⟨_, (Except.ok.inj h).symm⟩

/-- The pattern leaves the operations that need not be rewritten. -/
theorem matchAndRewrite_of_not_rewrites (hkind : op.kind = .generic grid maps)
    (htys : f.operandTypes op = tys.map some)
    (hresult : f.types (resultOf op) = some resultType)
    (hgeneric : WellFormedGeneric grid maps tys resultType) (hcovers : W.Covers resultType)
    (h : ¬ Rewrites W resultType) : matchAndRewrite W f op = .ok none := by
  obtain ⟨init, hinit, -⟩ := exists_init htys hgeneric.output
  obtain ⟨new, hnew⟩ := (calculate_isOk_iff hgeneric.divides_result).mpr hcovers
  rw [rewrites_iff hgeneric.divides_result hnew, not_not] at h
  rw [matchAndRewrite, hkind, hinit]
  simp only
  rw [bind_of_eq_ok (typeOf_eq_ok_iff.mpr hresult), bind_of_eq_ok hnew, if_pos h]

/-- The pattern rewrites the operations that have to be rewritten. -/
theorem matchAndRewrite_isOk (hf : f.WellFormed) (hop : op ∈ f.ops)
    (hkind : op.kind = .generic grid maps) (htys : f.operandTypes op = tys.map some)
    (hresult : f.types (resultOf op) = some resultType)
    (hgeneric : WellFormedGeneric grid maps tys resultType) (h : Rewrites W resultType)
    (hcovers : ∀ ty ∈ tys, W.Covers ty) :
    ∃ g, matchAndRewrite W f op = .ok (some g) := by
  have houtput := hgeneric.output
  have hall : ∀ ty ∈ tys, ∃ new, calculateOptimalLayoutForTensorType W ty = .ok new :=
    fun ty hty => (calculate_isOk_iff (hgeneric.divides ty hty)).mpr (hcovers ty hty)
  obtain ⟨new, hnew⟩ := hall resultType (List.mem_of_getLast? houtput)
  have hne := (rewrites_iff hgeneric.divides_result hnew).mp h
  obtain ⟨init, hinit, hinitType⟩ := exists_init htys houtput
  have hbefore : ∀ v ∈ op.operands, Before (freshId f.ops) v :=
    fun v hv => (hf.defined op hop v hv).before
  obtain ⟨s, hs⟩ := @foldlM_isOk W op.operands tys ⟨freshId f.ops, [], f.types, []⟩ hbefore
    htys hall
  have hset : setResultType W f.types (resultOf op) init new =
      .ok (setType f.types (resultOf op) new) := by
    refine except_bind_eq_ok.mpr ⟨resultType, typeOf_eq_ok_iff.mpr hinitType, ?_⟩
    refine except_bind_eq_ok.mpr ⟨new, hnew, ?_⟩
    rw [if_neg hne, if_pos rfl]
  rw [matchAndRewrite, hkind, hinit]
  simp only
  rw [bind_of_eq_ok (typeOf_eq_ok_iff.mpr hresult), bind_of_eq_ok hnew, if_neg hne,
    bind_of_eq_ok hs, bind_of_eq_ok hset]
  exact ⟨_, rfl⟩

theorem Rewritten.rewrites {fresh : ℕ} {generic : Op} {inserted : List Op}
    {news : List RankedTensorType} {new : RankedTensorType}
    (hgeneric : WellFormedGeneric grid maps tys resultType)
    (h : Rewritten W f op maps tys resultType g fresh generic inserted news new) :
    Rewrites W resultType ∧ ∀ ty ∈ tys, W.Covers ty := by
  refine ⟨(rewrites_iff hgeneric.divides_result h.new_eq).mpr h.ne, fun ty hty => ?_⟩
  obtain ⟨i, hi, rfl⟩ := List.getElem_of_mem hty
  exact (calculate_isOk_iff (hgeneric.divides _ hty)).mp ⟨_,
    (List.forall₂_iff_get.mp h.calculated).2 i hi ((List.Forall₂.length_eq h.calculated) ▸ hi)⟩

/-! ## What one rewrite keeps -/

variable {fresh : ℕ} {generic : Op} {inserted : List Op} {news : List RankedTensorType}
  {new : RankedTensorType}

namespace Rewritten

variable (h : Rewritten W f op maps tys resultType g fresh generic inserted news new)

include h

theorem mem_ops_iff (hop : op ∈ f.ops) {o' : Op} : o' ∈ g.ops ↔ (∃ o ∈ f.ops, o.id ≠ op.id ∧
        o' = { o with operands := o.operands.map (replaceBy op fresh) }) ∨
        o' ∈ inserted ∨ o' = generic ∨ o' ∈ conversion fresh (resultOf op) := by
  rw [h.ops_eq, List.mem_flatMap]
  constructor
  · rintro ⟨o, ho, hmem⟩
    unfold expand at hmem
    split_ifs at hmem with hid
    · rcases List.mem_append.mp hmem with hmem | hmem
      · exact Or.inr (Or.inl hmem)
      · rcases List.mem_cons.mp hmem with rfl | hmem
        · exact Or.inr (Or.inr (Or.inl rfl))
        · exact Or.inr (Or.inr (Or.inr hmem))
    · exact Or.inl ⟨o, ho, hid, List.mem_singleton.mp hmem⟩
  · rintro (⟨o, ho, hid, rfl⟩ | hmem)
    · refine ⟨o, ho, ?_⟩
      rw [expand, if_neg hid]
      exact List.mem_singleton_self _
    · refine ⟨op, hop, ?_⟩
      rw [expand, if_pos rfl, List.mem_append, List.mem_cons]
      exact hmem

theorem types_replaceBy (hresult : f.types (resultOf op) = some resultType) {v : Value}
    (hv : f.Defines v) : g.types (replaceBy op fresh v) = f.types v := by
  rw [replaceBy]
  split_ifs with heq
  · rw [h.types_conversion, heq, hresult]
  · exact h.types_eq v hv heq

/-- **Other users keep their types.** -/
theorem keepsTypes (hf : f.WellFormed) (hop : op ∈ f.ops)
    (hresult : f.types (resultOf op) = some resultType) : f.KeepsTypes [op.id] g := by
  constructor
  · intro o ho hid
    have hne : o.id ≠ op.id := fun heq => hid (by simp [heq])
    refine ⟨_, (h.mem_ops_iff hop).mpr (Or.inl ⟨o, ho, hne, rfl⟩), rfl, rfl, ?_, ?_⟩
    · rw [FuncOp.operandTypes, FuncOp.operandTypes, List.map_map]
      exact List.map_congr_left fun v hv => h.types_replaceBy hresult (hf.defined o ho v hv)
    · exact h.types_eq _ (List.mem_map.mpr ⟨o, ho, rfl⟩) fun heq => hne (Value.opResult.inj heq).1
  · rw [h.returns_eq, List.map_map]
    exact List.map_congr_left fun v hv => h.types_replaceBy hresult (hf.returns_defined v hv)

/-- The identities after a rewrite: those before, and new ones. -/
theorem id_mem_iff (hop : op ∈ f.ops) {id : ℕ} : id ∈ g.ops.map Op.id ↔
      id ∈ f.ops.map Op.id ∨ id ∈ inserted.map Op.id ∨ id = fresh ∨ id = fresh + 1 := by
  simp only [List.mem_map]
  constructor
  · rintro ⟨o', ho', rfl⟩
    rcases (h.mem_ops_iff hop).mp ho' with ⟨o, ho, -, rfl⟩ | ho' | rfl | ho'
    · exact Or.inl ⟨o, ho, rfl⟩
    · exact Or.inr (Or.inl ⟨o', ho', rfl⟩)
    · exact Or.inl ⟨op, hop, h.id_eq.symm⟩
    · rcases List.mem_cons.mp ho' with rfl | ho'
      · exact Or.inr (Or.inr (Or.inl rfl))
      · obtain rfl := List.mem_singleton.mp ho'
        exact Or.inr (Or.inr (Or.inr rfl))
  · rintro (⟨o, ho, rfl⟩ | ⟨o, ho, rfl⟩ | rfl | rfl)
    · by_cases hid : o.id = op.id
      · exact ⟨generic, (h.mem_ops_iff hop).mpr (Or.inr (Or.inr (Or.inl rfl))),
          h.id_eq.trans hid.symm⟩
      · exact ⟨_, (h.mem_ops_iff hop).mpr (Or.inl ⟨o, ho, hid, rfl⟩), rfl⟩
    · exact ⟨o, (h.mem_ops_iff hop).mpr (Or.inr (Or.inl ho)), rfl⟩
    · exact ⟨_, (h.mem_ops_iff hop).mpr (Or.inr (Or.inr (Or.inr List.mem_cons_self))), rfl⟩
    · exact ⟨_, (h.mem_ops_iff hop).mpr
        (Or.inr (Or.inr (Or.inr (List.mem_cons_of_mem _ List.mem_cons_self)))), rfl⟩

/-- The identities in the place of an operation: its own, or new ones. -/
theorem id_expand {o o' : Op} (ho' : o' ∈ expand op generic inserted fresh o) :
    o'.id = o.id ∨ o.id = op.id ∧ freshId f.ops ≤ o'.id := by
  unfold expand at ho'
  split_ifs at ho' with hid
  · rcases List.mem_append.mp ho' with ho' | ho'
    · exact Or.inr ⟨hid, (h.ids_fresh o' ho').1⟩
    · rcases List.mem_cons.mp ho' with rfl | ho'
      · exact Or.inl (h.id_eq.trans hid.symm)
      · rcases List.mem_cons.mp ho' with rfl | ho'
        · exact Or.inr ⟨hid, h.fresh_le⟩
        · obtain rfl := List.mem_singleton.mp ho'
          exact Or.inr ⟨hid, h.fresh_le.trans (Nat.le_succ _)⟩
  · rw [List.mem_singleton.mp ho']
    exact Or.inl rfl

theorem nodup_expand (hop : op ∈ f.ops) (o : Op) :
    ((expand op generic inserted fresh o).map Op.id).Nodup := by
  unfold expand
  split_ifs with hid
  · rw [List.map_append]
    refine List.nodup_append.mpr ⟨h.nodup, ?_, ?_⟩
    · have hne : generic.id < fresh := by
        rw [h.id_eq]
        exact lt_of_lt_of_le (lt_freshId hop) h.fresh_le
      simp only [conversion, List.map_cons, List.map_nil, List.nodup_cons, List.mem_cons,
        List.not_mem_nil, or_false, not_false_eq_true, List.nodup_nil, and_true]
      omega
    · intro id hid₁ id' hid₂ heq
      obtain ⟨o₁, ho₁, rfl⟩ := List.mem_map.mp hid₁
      obtain ⟨hle, hlt⟩ := h.ids_fresh o₁ ho₁
      have hgeneric := h.id_eq
      have hopid := lt_freshId hop
      simp only [conversion, List.map_cons, List.map_nil, List.mem_cons, List.not_mem_nil,
        or_false] at hid₂
      omega
  · exact List.nodup_singleton _

theorem nodup_ids (hf : f.WellFormed) (hop : op ∈ f.ops) : (g.ops.map Op.id).Nodup := by
  rw [h.ops_eq, List.map_flatMap]
  refine List.nodup_flatMap.mpr ⟨fun o _ => h.nodup_expand hop o, ?_⟩
  have hpair : f.ops.Pairwise fun a b => a.id ≠ b.id := List.pairwise_map.mp hf.nodup
  refine hpair.imp_of_mem ?_
  intro a b ha hb hab id hida hidb
  obtain ⟨a', ha', rfl⟩ := List.mem_map.mp hida
  obtain ⟨b', hb', heq⟩ := List.mem_map.mp hidb
  have hlta := lt_freshId ha
  have hltb := lt_freshId hb
  rcases h.id_expand ha' with hid | ⟨hid, hle⟩
  · rcases h.id_expand hb' with hid' | ⟨hid', hle'⟩
    · exact hab (hid.symm.trans (heq.symm.trans hid'))
    · omega
  · rcases h.id_expand hb' with hid' | ⟨hid', hle'⟩
    · omega
    · exact hab (hid.trans hid'.symm)

theorem defines (hop : op ∈ f.ops) {v : Value} (hv : f.Defines v) : g.Defines v := by
  cases v with
  | blockArg n => trivial
  | opResult id k => exact (h.id_mem_iff hop).mpr (Or.inl hv)

theorem defines_replaceBy (hop : op ∈ f.ops) {v : Value} (hv : f.Defines v) :
    g.Defines (replaceBy op fresh v) := by
  rw [replaceBy]
  split_ifs
  · exact (h.id_mem_iff hop).mpr (Or.inr (Or.inr (Or.inr rfl)))
  · exact h.defines hop hv

theorem defines_reads (hf : f.WellFormed) (hop : op ∈ f.ops) {v : Value}
    (hv : v ∈ generic.operands ++ inserted.flatMap Op.operands) : g.Defines v := by
  rcases h.reads v hv with hmem | ⟨o, ho, k, rfl⟩
  · exact h.defines hop (hf.defined op hop v hmem)
  · exact (h.id_mem_iff hop).mpr (Or.inr (Or.inl (List.mem_map_of_mem ho)))

theorem gridAt_news (hdivides : ∀ ty ∈ tys, Divides ty) :
    news.map RankedTensorType.gridAt = tys.map (RankedTensorType.divisorAt W) := by
  have hcalc := h.calculated
  clear h
  induction hcalc with
  | nil => rfl
  | @cons ty new tys news hnew _ ih =>
    rw [List.map_cons, List.map_cons, ih fun ty hty => hdivides ty (by simp [hty])]
    congr 1
    funext p
    exact (calculate_spec (hdivides ty (by simp)) hnew).2.1 p

theorem divides_news (hdivides : ∀ ty ∈ tys, Divides ty) : ∀ ty ∈ news, Divides ty := by
  intro new' hnew'
  obtain ⟨i, hi, rfl⟩ := List.getElem_of_mem hnew'
  have hlen := h.calculated.length_eq
  have hi' : i < tys.length := by omega
  exact (calculate_spec (hdivides _ (List.getElem_mem hi'))
    ((List.forall₂_iff_get.mp h.calculated).2 i hi' hi)).1

theorem output_news (houtput : tys.getLast? = some resultType) : news.getLast? = some new := by
  have hlen := h.calculated.length_eq
  rw [List.getLast?_eq_getElem?, List.getElem?_eq_some_iff] at houtput
  obtain ⟨hi, hlast⟩ := houtput
  rw [List.getLast?_eq_getElem?, List.getElem?_eq_some_iff]
  refine ⟨by omega, ?_⟩
  have hcalc := (List.forall₂_iff_get.mp h.calculated).2 (tys.length - 1) hi (by omega)
  simp only [List.get_eq_getElem, hlast] at hcalc
  have heq := Except.ok.inj (hcalc.symm.trans h.new_eq)
  simpa only [hlen] using heq

end Rewritten

section

variable (hf : f.WellFormed) (hop : op ∈ f.ops) (hresult : f.types (resultOf op) = some resultType)
  (hgeneric : WellFormedGeneric grid maps tys resultType)
  (h : Rewritten W f op maps tys resultType g fresh generic inserted news new)

include hf hop hresult hgeneric h

/-- **One rewrite** keeps the function well formed exactly when the largest divisors of the
operands agree. -/
theorem wellFormed_rewritten_iff :
    g.WellFormed ↔ Agree maps (tys.map (RankedTensorType.divisorAt W)) := by
  rw [← h.gridAt_news hgeneric.divides]
  have hmem : generic ∈ g.ops := (h.mem_ops_iff hop).mpr (Or.inr (Or.inr (Or.inl rfl)))
  have hresultType : g.types (resultOf generic) = some new := by
    rw [resultOf, h.id_eq]
    exact h.types_result
  constructor
  · intro hg
    obtain ⟨types, resultType', htypes, -, hwf⟩ := hg.generics generic hmem _ _ h.kind_eq
    have heq : types = news :=
      List.map_injective_iff.mpr (Option.some_injective _) (htypes.symm.trans h.news_eq)
    exact heq ▸ hwf.agree
  · intro hagree
    constructor
    · exact h.nodup_ids hf hop
    · intro o' ho' v hv
      rcases (h.mem_ops_iff hop).mp ho' with ⟨o, ho, -, rfl⟩ | ho' | rfl | ho'
      · obtain ⟨w, hw, rfl⟩ := List.mem_map.mp hv
        exact h.defines_replaceBy hop (hf.defined o ho w hw)
      · exact h.defines_reads hf hop (List.mem_append_right _ (List.mem_flatMap.mpr ⟨o', ho', hv⟩))
      · exact h.defines_reads hf hop (List.mem_append_left _ hv)
      · have hfresh : fresh ∈ g.ops.map Op.id :=
          (h.id_mem_iff hop).mpr (Or.inr (Or.inr (Or.inl rfl)))
        rcases List.mem_cons.mp ho' with rfl | ho'
        · cases hv
        · obtain rfl := List.mem_singleton.mp ho'
          rcases List.mem_cons.mp hv with rfl | hv
          · exact h.defines hop (List.mem_map_of_mem hop)
          · rw [List.mem_singleton.mp hv]
            exact hfresh
    · intro o' ho' hself
      rcases (h.mem_ops_iff hop).mp ho' with ⟨o, ho, -, rfl⟩ | ho' | rfl | ho'
      · obtain ⟨w, hw, heq⟩ := List.mem_map.mp hself
        rw [replaceBy] at heq
        split_ifs at heq
        · have hid := (Value.opResult.inj heq).1
          have hlt := lt_of_lt_of_le (lt_freshId ho) h.fresh_le
          change fresh + 1 = o.id at hid
          omega
        · exact hf.acyclic o ho (heq ▸ hw)
      · exact h.acyclic o' ho' hself
      · rcases h.reads _ (List.mem_append_left _ hself) with hmem | ⟨o, ho, k, heq⟩
        · rw [resultOf, h.id_eq] at hmem
          exact hf.acyclic op hop hmem
        · have hid := (Value.opResult.inj heq).1
          have hle := (h.ids_fresh o ho).1
          have hlt := lt_freshId hop
          rw [h.id_eq] at hid
          omega
      · refine acyclic_conversion ?_ o' ho' hself
        intro id k heq
        obtain ⟨rfl, -⟩ := Value.opResult.inj heq
        exact lt_of_lt_of_le (lt_freshId hop) h.fresh_le
    · intro v hv
      rw [h.returns_eq] at hv
      obtain ⟨w, hw, rfl⟩ := List.mem_map.mp hv
      exact h.defines_replaceBy hop (hf.returns_defined w hw)
    · intro o' ho' grid' maps' hkind'
      rcases (h.mem_ops_iff hop).mp ho' with ⟨o, ho, hid, rfl⟩ | ho' | rfl | ho'
      · obtain ⟨types, resultType', htypes, hres, hwf⟩ := hf.generics o ho grid' maps' hkind'
        refine ⟨types, resultType', ?_, ?_, hwf⟩
        · rw [← htypes, FuncOp.operandTypes, FuncOp.operandTypes, List.map_map]
          exact List.map_congr_left fun v hv => h.types_replaceBy hresult (hf.defined o ho v hv)
        · rw [← hres]
          exact h.types_eq _ (List.mem_map.mpr ⟨o, ho, rfl⟩) fun heq => hid (Value.opResult.inj heq).1
      · exact absurd hkind' (h.kinds o' ho' grid' maps')
      · obtain ⟨rfl, rfl⟩ := OpKind.generic.inj (h.kind_eq.symm.trans hkind')
        exact ⟨news, new, h.news_eq, hresultType, hagree, h.divides_news hgeneric.divides,
          h.output_news hgeneric.output, rfl⟩
      · rcases List.mem_cons.mp ho' with rfl | ho'
        · cases hkind'
        · obtain rfl := List.mem_singleton.mp ho'
          cases hkind'

/-- **One rewrite keeps the condition**: the operation that is rewritten needs no other rewrite,
and the others have operands of the types they had. -/
theorem Rewritten.divisorsAgree (hagree : DivisorsAgree W f) : DivisorsAgree W g := by
  intro o' ho' grid' maps' hkind' types resultType' htypes hresult'
  rcases (h.mem_ops_iff hop).mp ho' with ⟨o, ho, hid, rfl⟩ | ho' | rfl | ho'
  · refine hagree o ho grid' maps' hkind' types resultType' ?_ ?_
    · rw [← htypes, FuncOp.operandTypes, FuncOp.operandTypes, List.map_map]
      exact (List.map_congr_left fun v hv => h.types_replaceBy hresult (hf.defined o ho v hv)).symm
    · rw [← hresult']
      exact (h.types_eq _ (List.mem_map.mpr ⟨o, ho, rfl⟩) fun heq =>
        hid (Value.opResult.inj heq).1).symm
  · exact absurd hkind' (h.kinds o' ho' grid' maps')
  · -- the new type of the result is calculated for itself
    obtain ⟨hdivides, -, hstable⟩ := calculate_spec hgeneric.divides_result h.new_eq
    rw [resultOf, h.id_eq] at hresult'
    obtain rfl := Option.some.inj (h.types_result.symm.trans hresult')
    refine ⟨(calculate_isOk_iff hdivides).mp ⟨_, hstable⟩, ?_⟩
    rintro ⟨p, hp⟩
    exact absurd ((eq_calculated_iff hdivides hstable).mp rfl p) hp
  · rcases List.mem_cons.mp ho' with rfl | ho'
    · cases hkind'
    · obtain rfl := List.mem_singleton.mp ho'
      cases hkind'

end

end Rewrite

/-! ## Runs -/

namespace FuncOp

theorem KeepsTypes.refl (f : FuncOp) : f.KeepsTypes [] f :=
  ⟨fun op hop _ => ⟨op, hop, rfl, rfl, rfl, rfl⟩, rfl⟩

theorem KeepsTypes.trans {f g g' : FuncOp} {ids ids' : List ℕ} (h : f.KeepsTypes ids g)
    (h' : g.KeepsTypes ids' g') : f.KeepsTypes (ids ++ ids') g' := by
  constructor
  · intro op hop hid
    rw [List.mem_append, not_or] at hid
    obtain ⟨op₁, hop₁, hid₁, hkind₁, htypes₁, hresult₁⟩ := h.ops op hop hid.1
    obtain ⟨op₂, hop₂, hid₂, hkind₂, htypes₂, hresult₂⟩ := h'.ops op₁ hop₁ (hid₁.symm ▸ hid.2)
    exact ⟨op₂, hop₂, hid₂.trans hid₁, hkind₂.trans hkind₁, htypes₂.trans htypes₁,
      hresult₂.trans hresult₁⟩
  · exact h'.returns.trans h.returns

end FuncOp

theorem exists_generic_of_matchAndRewrite {f g : FuncOp} {op : Op}
    (h : matchAndRewrite W f op = .ok (some g)) : ∃ grid maps, op.kind = .generic grid maps := by
  unfold matchAndRewrite at h
  split at h
  · next heq _ => exact ⟨_, _, heq⟩
  · cases h

/-- **One step of a run.** -/
theorem step_keeps {f g : FuncOp} {op : Op} (hf : f.WellFormed)
    (hagree : DivisorsAgree W f) (hop : op ∈ f.ops) (h : matchAndRewrite W f op = .ok (some g)) :
    g.WellFormed ∧ DivisorsAgree W g ∧ f.KeepsTypes [op.id] g := by
  obtain ⟨grid, maps, hkind⟩ := exists_generic_of_matchAndRewrite h
  obtain ⟨types, resultType, htypes, hresult, hgeneric⟩ := hf.generics op hop grid maps hkind
  obtain ⟨fresh, generic, inserted, news, new, hrewritten⟩ :=
    exists_rewritten hf hop hkind htypes hresult hgeneric.output h
  have hdivisors := (hagree op hop grid maps hkind types resultType htypes hresult).2
    (hrewritten.rewrites hgeneric).1
  exact ⟨(wellFormed_rewritten_iff hf hop hresult hgeneric hrewritten).mpr hdivisors.2,
    hrewritten.divisorsAgree hf hop hresult hgeneric hagree,
    hrewritten.keepsTypes hf hop hresult⟩

/-- The pattern returns where the condition holds. -/
theorem exists_result {f : FuncOp} {op : Op} (hf : f.WellFormed) (hagree : DivisorsAgree W f)
    (hop : op ∈ f.ops) : ∃ result, matchAndRewrite W f op = .ok result := by
  cases hkind : op.kind with
  | generic grid maps =>
    obtain ⟨types, resultType, htypes, hresult, hgeneric⟩ := hf.generics op hop grid maps hkind
    obtain ⟨hcovers, hoperands⟩ := hagree op hop grid maps hkind types resultType htypes hresult
    by_cases hrewrites : Rewrites W resultType
    · obtain ⟨g, hg⟩ := matchAndRewrite_isOk hf hop hkind htypes hresult hgeneric hrewrites
        (hoperands hrewrites).1
      exact ⟨_, hg⟩
    · exact ⟨_, matchAndRewrite_of_not_rewrites hkind htypes hresult hgeneric hcovers hrewrites⟩
  | _ =>
    rw [matchAndRewrite, hkind]
    exact ⟨_, rfl⟩

/-- **Runs** from functions that meet the condition. -/
theorem Run.keeps {f g : FuncOp} {ids : List ℕ} (run : Run W f ids g)
    (hf : f.WellFormed) (hagree : DivisorsAgree W f) :
    g.WellFormed ∧ DivisorsAgree W g ∧ f.KeepsTypes ids g := by
  induction run with
  | start => exact ⟨hf, hagree, FuncOp.KeepsTypes.refl f⟩
  | step _ mem result ih =>
    obtain ⟨hg, hagree', hkeeps⟩ := ih
    obtain ⟨hg', hagree'', hkeeps'⟩ := step_keeps hg hagree' mem result
    exact ⟨hg', hagree'', hkeeps.trans hkeeps'⟩

/-- A pass that keeps the function meets the condition: any operation can be visited first. -/
theorem PassKeeps.divisorsAgree {f : FuncOp} (h : PassKeeps W f) : DivisorsAgree W f := by
  have hf : f.WellFormed := (h [] f .start).1
  intro op hop grid maps hkind types resultType htypes hresult
  obtain ⟨types', resultType', htypes', hresult', hgeneric⟩ := hf.generics op hop grid maps hkind
  obtain rfl := List.map_injective_iff.mpr (Option.some_injective _) (htypes.symm.trans htypes')
  obtain rfl := Option.some.inj (hresult.symm.trans hresult')
  obtain ⟨result, hok⟩ := (h [] f .start).2.2 op hop
  obtain ⟨hcovers, hsome⟩ := matchAndRewrite_of_ok hkind htypes hresult hgeneric hok
  refine ⟨hcovers, fun hrewrites => ?_⟩
  obtain ⟨g, rfl⟩ := hsome hrewrites
  obtain ⟨fresh, generic, inserted, news, new, hrewritten⟩ :=
    exists_rewritten hf hop hkind htypes hresult hgeneric.output hok
  exact ⟨(hrewritten.rewrites hgeneric).2,
    (wellFormed_rewritten_iff hf hop hresult hgeneric hrewritten).mp
      (h _ g (.step .start hop hok)).1⟩

/-- **The pass**: every run leaves generic operations well formed, gives other users the types
they had, and reads nothing past the worker grid, exactly when the generic operations were well
formed, the worker grid covers what is read, and the operands of those that have to be rewritten
have the same greatest divisors on the loop dimensions they share. -/
theorem keepsGenerics_iff (W : WorkerGrid) (f : FuncOp) :
    PassKeeps W f ↔ f.WellFormed ∧ DivisorsAgree W f := by
  constructor
  · intro h
    exact ⟨(h [] f .start).1, h.divisorsAgree⟩
  · rintro ⟨hf, hagree⟩ ids g run
    obtain ⟨hg, hagree', hkeeps⟩ := run.keeps hf hagree
    exact ⟨hg, hkeeps, fun op hop => exists_result hg hagree' hop⟩

/-! ## A grid that is not square -/

/-- A matrix of 256 by 256, in tiles, on a grid of one core. -/
def matrixType : RankedTensorType :=
  ⟨[256, 256], .scalar .float32,
    ⟨⟨2, 0, [.dim 0, .dim 1]⟩, .undef, [1, 1], [8, 8], .tile (.get .float32), .deviceL1⟩⟩

/-- The indexing maps of a product of matrices. -/
def matmulMaps : List IndexingMap := [[some 0, some 2], [some 2, some 1], [some 0, some 1]]

/-- A product of two arguments. -/
def matmul : FuncOp where
  ops := [⟨0, .empty, []⟩,
    ⟨1, .generic [1, 1] matmulMaps, [.blockArg 0, .blockArg 1, .opResult 0 0]⟩]
  returns := [.opResult 1 0]
  types := fun _ => some matrixType

/-- A worker grid with more rows than columns. -/
def tallGrid : WorkerGrid := ⟨[8, 4], by decide⟩

theorem divides_matrixType : Divides matrixType where
  rank := rfl
  tiled _ := le_refl 2
  exact := ⟨[256, 256], rfl, by decide, by decide⟩

theorem wellFormed_matmul : matmul.WellFormed where
  nodup := by decide
  defined := by
    intro op hop v hv
    fin_cases hop
    · cases hv
    · fin_cases hv
      · trivial
      · trivial
      · exact List.mem_cons_self
  acyclic := by decide
  returns_defined := by
    intro v hv
    obtain rfl := List.mem_singleton.mp hv
    exact List.mem_cons_of_mem _ List.mem_cons_self
  generics := by
    intro op hop grid maps hkind
    fin_cases hop
    · cases hkind
    · obtain ⟨rfl, rfl⟩ := OpKind.generic.inj hkind
      refine ⟨[matrixType, matrixType, matrixType], matrixType, rfl, rfl, ?_, ?_, rfl, rfl⟩
      · intro i j p q d map map' size size' hmap hmap' hsize hsize' hp hq
        obtain rfl : size = matrixType.gridAt := by simpa using List.mem_of_getElem? hsize
        obtain rfl : size' = matrixType.gridAt := by simpa using List.mem_of_getElem? hsize'
        have hone : ∀ map ∈ matmulMaps, ∀ p < map.length, matrixType.gridAt p = some 1 := by decide
        rw [hone map (List.mem_of_getElem? hmap) p (List.getElem?_eq_some_iff.mp hp).1,
          hone map' (List.mem_of_getElem? hmap') q (List.getElem?_eq_some_iff.mp hq).1]
      · intro ty hty
        obtain rfl : ty = matrixType := by simpa using hty
        exact divides_matrixType

theorem not_divisorsAgree_matmul : ¬ DivisorsAgree tallGrid matmul := by
  intro h
  obtain ⟨-, hagree⟩ := (h _ (List.mem_cons_of_mem _ List.mem_cons_self) _ _ rfl
    [matrixType, matrixType, matrixType] matrixType rfl rfl).2 ⟨0, by decide⟩
  have hfour : some 4 = some 8 := hagree 0 1 1 0 2 _ _ _ _ rfl rfl rfl rfl rfl rfl
  exact absurd hfour (by decide)

/-- **A product that is not kept**: its operands disagree on the dimension they are contracted
over, although it was well formed. -/
theorem not_passKeeps_matmul : matmul.WellFormed ∧ ¬ PassKeeps tallGrid matmul :=
  ⟨wellFormed_matmul, fun h => not_divisorsAgree_matmul h.divisorsAgree⟩

end OptimizeTensorLayout
