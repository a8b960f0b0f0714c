/-
# Lowering layout conversions of metal layouts

`LowerToLayout.cpp` splits a `ttir.to_layout` that changes several components at once: the data
is first moved into L1, is then tilized or untilized, and only then moved to another grid.
What changes one component is lowered to a copy, a data movement or a format conversion.

* `compoundComponents`, `bounceLayout`, `splitCompound`, `lower` : the translated functions;
* `LowersSafely` : splitting ends in a chain of single changes that are all lowered;
* `Supported` : the conversions for which it does, with `lowersSafely_iff`.

A change of the linear map is lowered nowhere, and two formats of the same kind are not
converted into each other.  Tiles whose linear map and grid both change bounce between scalars
and tiles for ever.
-/
import TTMLIR.Splitting
import TTMLIR.OptimizeTensorLayout
import TTMLIR.DecomposeLayouts

open Fallible Splitting TTNN
open OptimizeTensorLayout (MemorySpace OOBVal MetalLayoutAttr buildMemRefShape)

namespace LowerToLayout

/-! ## Types -/

/-- `RankedTensorType`; a tensor without a layout is one of the host. -/
structure TensorType : Type where
  shape : List ℕ
  elementType : ElementType
  encoding : Option MetalLayoutAttr
  deriving DecidableEq

/-- `MemRefType`. -/
structure MemRefType : Type where
  shape : List ℕ
  elementType : ElementType
  memorySpace : MemorySpace
  deriving DecidableEq

/-- `AnyRankedTensorOrMemRef`. -/
inductive OperandType : Type where
  | tensor (type : TensorType)
  | memref (type : MemRefType)
  deriving DecidableEq

/-- `mlir::cast<RankedTensorType>`. -/
def OperandType.castTensor : OperandType → Except String TensorType
  | .tensor type => .ok type
  | .memref _ => .error "cast<RankedTensorType>"

/-- `mlir::cast<MemRefType>`. -/
def OperandType.castMemRef : OperandType → Except String MemRefType
  | .memref type => .ok type
  | .tensor _ => .error "cast<MemRefType>"

/-- `mlir::cast<MetalLayoutAttr>` of the encoding, by the builder of `ttir.generic`. -/
def OperandType.castEncoding (operand : OperandType) : Except String MetalLayoutAttr := do
  match (← operand.castTensor).encoding with
  | some layout => .ok layout
  | none => .error "cast<MetalLayoutAttr>"

/-- `ToLayoutOp`, by the types of its operands; `layout` is the host information of a lowered
copy to or from the host. -/
structure ToLayoutOp : Type where
  input : OperandType
  output : OperandType
  layout : Option MetalLayoutAttr
  deriving DecidableEq

section Layouts

/-- `isTiled`. -/
def isTiled (layout : MetalLayoutAttr) : Bool := layout.elementType.isTile

/-- `getScalarElementType`. -/
def getScalarElementType (layout : MetalLayoutAttr) : ElementType :=
  .scalar layout.elementType.scalarDataType

/-- `getShardShape`, in scalars. -/
def getShardShape (layout : MetalLayoutAttr) : Except String (List ℤ) :=
  match layout.elementType with
  | .tile t => t.getScalarShape (layout.memref.map fun n : ℕ => (n : ℤ))
  | .scalar _ => .ok (layout.memref.map fun n : ℕ => (n : ℤ))

/-- `withElementType`. -/
def withElementType (layout : MetalLayoutAttr) (elementType : ElementType) :
    Except String MetalLayoutAttr := do
  let shardShape ← getShardShape layout
  let memref ← buildMemRefShape shardShape elementType
  .ok { layout with memref := memref, elementType := elementType }

/-- `withMemorySpace`. -/
def withMemorySpace (layout : MetalLayoutAttr) (memorySpace : MemorySpace) :
    Except String MetalLayoutAttr := do
  let shardShape ← getShardShape layout
  let memref ← buildMemRefShape shardShape layout.elementType
  .ok { layout with memref := memref, memorySpace := memorySpace }

/-- The shape of a tensor in scalars. -/
def TensorType.scalarShape (type : TensorType) : Except String (List ℕ) :=
  match type.elementType with
  | .tile t => (t.getScalarShape (type.shape.map fun n : ℕ => (n : ℤ))).map (List.map Int.toNat)
  | .scalar _ => .ok type.shape

/-- `withGrid` of a type, with the default collapse intervals. -/
def withGrid (layout : MetalLayoutAttr) (type : TensorType) (grid : List ℕ) :
    Except String MetalLayoutAttr := do
  let tensorShape ← type.scalarShape
  MetalLayoutAttr.get tensorShape layout.elementType layout.memorySpace grid [(0, -1)]
    layout.oobVal

/-- `MetalLayoutAttr::get` of a type alone: on the host, on a grid of ones. -/
def defaultLayout (type : TensorType) : Except String MetalLayoutAttr := do
  let tensorShape ← type.scalarShape
  MetalLayoutAttr.get tensorShape type.elementType .system
    (List.replicate tensorShape.length 1) [(0, -1)] (.undef)

/-- The layout of an operand. -/
def layoutOf (operand : OperandType) : Except String MetalLayoutAttr := do
  let type ← operand.castTensor
  match type.encoding with
  | some layout => .ok layout
  | none => defaultLayout type

end Layouts

/-! ## The translated code -/

/-- `CompoundComponents`. -/
structure CompoundComponents : Type where
  isLayoutChange : Bool
  isGridChange : Bool
  isFormatChange : Bool
  isMemorySpaceChange : Bool
  deriving DecidableEq, Repr

namespace CompoundComponents

/-- How many components change; a new grid and a new memory space are one data movement. -/
def count (c : CompoundComponents) : ℕ :=
  c.isLayoutChange.toNat + (c.isGridChange || c.isMemorySpaceChange).toNat + c.isFormatChange.toNat

/-- `isCompound`. -/
def isCompound (c : CompoundComponents) : Bool := 1 < c.count

end CompoundComponents

/-- The components two layouts differ in. -/
def componentsOf (inputLayout outputLayout : MetalLayoutAttr) : CompoundComponents where
  isLayoutChange := inputLayout.linear ≠ outputLayout.linear
  isGridChange := inputLayout.grid ≠ outputLayout.grid
  isFormatChange := inputLayout.elementType ≠ outputLayout.elementType
  isMemorySpaceChange := inputLayout.memorySpace ≠ outputLayout.memorySpace

/-- What the operation becomes: a copy to or from the host, a view that is copied, or a block
that is tilized or untilized. -/
inductive Lowered : Type where
  | hostCopy (op : ToLayoutOp)
  | datamovement (view output : OperandType)
  | untilize (input output : OperandType)
  | tilize (input output : OperandType)
  deriving DecidableEq

/-- The layout to bounce through. -/
def bounceLayout (components : CompoundComponents) (inputLayout outputLayout : MetalLayoutAttr)
    (outputType : TensorType) : Except String MetalLayoutAttr :=
  if inputLayout.memorySpace ≠ .deviceL1 then
    -- read first into L1, then format convert
    withMemorySpace inputLayout .deviceL1
  else if outputLayout.memorySpace ≠ .deviceL1 then
    -- format convert first in L1, then write
    withMemorySpace outputLayout .deviceL1
  else if isTiled inputLayout ≠ isTiled outputLayout then
    -- prioritize moving tiled data
    if isTiled inputLayout then withElementType outputLayout inputLayout.elementType
    else withElementType inputLayout outputLayout.elementType
  else if components.isLayoutChange ∧ isTiled inputLayout then
    withElementType inputLayout (getScalarElementType inputLayout)
  else if components.isGridChange then
    if components.isLayoutChange then
      .error "Changing layout and grid at the same time is currently not supported"
    else withGrid outputLayout outputType inputLayout.grid
  else .error "Unsupported compound layout change"

namespace ToLayoutOp

/-- `getInputLayout`. -/
def getInputLayout (op : ToLayoutOp) : Except String MetalLayoutAttr := layoutOf op.input

/-- `getOutputLayout`. -/
def getOutputLayout (op : ToLayoutOp) : Except String MetalLayoutAttr := layoutOf op.output

/-- `compoundComponents`. -/
def compoundComponents (op : ToLayoutOp) : Except String CompoundComponents :=
  match op.input with
  | .tensor _ => do
      let inputLayout ← op.getInputLayout
      let outputLayout ← op.getOutputLayout
      .ok (componentsOf inputLayout outputLayout)
  | .memref inputMemref => do
      let outputMemref ← op.output.castMemRef
      .ok {
        isLayoutChange := false
        isGridChange := inputMemref.shape ≠ outputMemref.shape
        isFormatChange := inputMemref.elementType ≠ outputMemref.elementType
        isMemorySpaceChange := inputMemref.memorySpace ≠ outputMemref.memorySpace }

/-- `fold`: a conversion between equal tensor types is its input. -/
def folds (op : ToLayoutOp) : Bool :=
  match op.input with
  | .tensor _ => op.input = op.output
  | .memref _ => false

/-- `bounce`. -/
def bounce (op : ToLayoutOp) (layout : MetalLayoutAttr) :
    Except String (ToLayoutOp × ToLayoutOp) := do
  let type ← op.input.castTensor
  let bounced := OperandType.tensor ⟨type.shape, type.elementType, some layout⟩
  .ok (⟨op.input, bounced, none⟩, ⟨bounced, op.output, none⟩)

/-- The bounce of a compound conversion. -/
def bounceCompound (op : ToLayoutOp) (components : CompoundComponents) :
    Except String (ToLayoutOp × ToLayoutOp) := do
  let outputType ← op.output.castTensor
  let inputLayout ← op.getInputLayout
  let outputLayout ← op.getOutputLayout
  let layout ← bounceLayout components inputLayout outputLayout outputType
  op.bounce layout

/-- `TTIRSplitCompoundLayoutRewriter`. -/
def splitCompound (op : ToLayoutOp) : Except String (Option (ToLayoutOp × ToLayoutOp)) := do
  let components ← op.compoundComponents
  if components.isCompound then (op.bounceCompound components).map some else .ok none

/-- `lowerSystemLayoutChange`. -/
def lowerSystemLayoutChange (op : ToLayoutOp) (inputLayout outputLayout : MetalLayoutAttr) :
    Except String (Option Lowered) :=
  let inputSystem := inputLayout.memorySpace = .system
  let outputSystem := outputLayout.memorySpace = .system
  if inputSystem ↔ outputSystem then .error "one of input or output must be system for now"
  else if op.layout.isSome then
    -- already lowered
    .ok none
  else .ok (some (.hostCopy
    ⟨op.input, op.output, some (if inputSystem then outputLayout else inputLayout)⟩))

/-- `lowerDatamovementGeneric`. -/
def lowerDatamovementGeneric (op : ToLayoutOp) (inputLayout outputLayout : MetalLayoutAttr) :
    Except String (Option Lowered) :=
  if inputLayout.memorySpace = .system ∨ outputLayout.memorySpace = .system then
    op.lowerSystemLayoutChange inputLayout outputLayout
  else do
    -- the view has the type of the output
    let _ ← op.output.castEncoding
    .ok (some (.datamovement op.output op.output))

/-- `lowerFormatConversionGeneric`. -/
def lowerFormatConversionGeneric (op : ToLayoutOp) (inputLayout outputLayout : MetalLayoutAttr) :
    Except String (Option Lowered) :=
  if isTiled inputLayout = isTiled outputLayout then
    .error "one of input or output must be tiled for now"
  else do
    let _ ← op.input.castEncoding
    let _ ← op.output.castEncoding
    if isTiled inputLayout then .ok (some (.untilize op.input op.output))
    else .ok (some (.tilize op.input op.output))

/-- The lowering of a single change; its layouts are those of tensors. -/
def lowerSingle (op : ToLayoutOp) (components : CompoundComponents) :
    Except String (Option Lowered) := do
  if components.isLayoutChange then
    .error "TODO issue https://github.com/tenstorrent/tt-mlir/issues/3037"
  else if components.isGridChange ∨ components.isMemorySpaceChange then
    op.lowerDatamovementGeneric (← op.getInputLayout) (← op.getOutputLayout)
  else if components.isFormatChange then
    op.lowerFormatConversionGeneric (← op.getInputLayout) (← op.getOutputLayout)
  else .error "Unknown compound component"

/-- `TTIRLowerToLayoutRewriter`. -/
def lower (op : ToLayoutOp) : Except String (Option Lowered) := do
  let components ← op.compoundComponents
  if components.isCompound then .ok none else op.lowerSingle components

/-! ## What lowering is for -/

/-- What the driver splits; it folds an operation before it tries a pattern. -/
def split (op : ToLayoutOp) : Option (ToLayoutOp × ToLayoutOp) :=
  if op.folds then none else op.splitCompound.toOption.join

/-- Neither pattern runs into an assertion; the split is tried before the lowering. -/
def Safe (op : ToLayoutOp) : Prop :=
  op.folds ∨ ∃ parts, op.splitCompound = .ok parts ∧
    (parts = none → ∃ lowered, op.lower = .ok lowered)

/-- A conversion that changes one component, or none at all. -/
def Single (op : ToLayoutOp) : Prop :=
  op.folds ∨ ∃ components, op.compoundComponents = .ok components ∧ components.count = 1

/-- Splitting ends, in whatever order, in a chain of single changes from the type of the input
to that of the output, and no assertion is reached. -/
structure LowersSafely (op : ToLayoutOp) : Prop where
  ends : Ends split [op]
  reaches : ∃ chain, Reachable split [op] chain ∧ ∀ link ∈ chain, split link = none
  linked : ∀ chain, Reachable split [op] chain → Linked input output op.input op.output chain
  single : ∀ chain, Reachable split [op] chain → (∀ link ∈ chain, split link = none) →
    ∀ link ∈ chain, link.Single
  safe : ∀ chain, Reachable split [op] chain → ∀ link ∈ chain, link.Safe

/-- The layouts of the operands. -/
structure HasLayouts (op : ToLayoutOp) (inputLayout outputLayout : MetalLayoutAttr) : Prop where
  input : op.getInputLayout = .ok inputLayout
  output : op.getOutputLayout = .ok outputLayout

/-- The same linear map, and formats that are equal or of different kinds. -/
def Compatible (inputLayout outputLayout : MetalLayoutAttr) : Prop :=
  inputLayout.linear = outputLayout.linear ∧
    (isTiled inputLayout ≠ isTiled outputLayout ∨
      inputLayout.elementType = outputLayout.elementType)

/-- What a single data movement moves: between memory spaces, or between grids of the device. -/
def Moves (inputLayout outputLayout : MetalLayoutAttr) : Prop :=
  inputLayout.memorySpace ≠ outputLayout.memorySpace ∨
    (inputLayout.grid ≠ outputLayout.grid ∧ inputLayout.memorySpace ≠ .system)

/-- Both types carry a layout. -/
def Encoded (op : ToLayoutOp) : Prop :=
  (∃ layout, op.input.castEncoding = .ok layout) ∧ ∃ layout, op.output.castEncoding = .ok layout

/-- Tilizing or untilizing, with any movement; without one, both types carry a layout. -/
def Converts (op : ToLayoutOp) (inputLayout outputLayout : MetalLayoutAttr) : Prop :=
  isTiled inputLayout ≠ isTiled outputLayout ∧
    (inputLayout.grid = outputLayout.grid → inputLayout.memorySpace = outputLayout.memorySpace →
      op.Encoded)

/-- The conversions that are lowered: equal types, tilizing or untilizing with any movement,
or a movement alone, all without a change of the linear map. -/
def Supported (op : ToLayoutOp) : Prop :=
  op.folds ∨ ∃ inputLayout outputLayout, op.HasLayouts inputLayout outputLayout ∧
    Compatible inputLayout outputLayout ∧
    (op.Converts inputLayout outputLayout ∨ Moves inputLayout outputLayout)

end ToLayoutOp

/-- A layout as its attribute describes it: linear map, grid and memref have one rank, and
tiles need two dimensions. -/
structure WellFormed (layout : MetalLayoutAttr) : Prop where
  linear : layout.linear.results.length = layout.grid.length
  memref : layout.memref.length = layout.grid.length
  tiled : isTiled layout → 2 ≤ layout.grid.length

/-- An operand whose layout, if it has one, is well formed. -/
def OperandType.Valid (operand : OperandType) : Prop :=
  ∀ type, operand = .tensor type → ∀ layout ∈ type.encoding, WellFormed layout

/-! ## Layouts -/

section Layouts

variable {layout : MetalLayoutAttr}

/-- The shard in scalars, for a well formed layout. -/
theorem WellFormed.getShardShape (h : WellFormed layout) :
    ∃ shard : List ℕ, LowerToLayout.getShardShape layout = .ok (shard.map fun n : ℕ => (n : ℤ)) ∧
      shard.length = layout.grid.length := by
  unfold LowerToLayout.getShardShape
  cases he : layout.elementType with
  | scalar d => exact ⟨layout.memref, rfl, h.memref⟩
  | tile t =>
    have htwo : 2 ≤ layout.memref.length := by
      rw [h.memref]
      exact h.tiled (by rw [isTiled, he]; rfl)
    have hlen : 2 ≤ (layout.memref.map fun n : ℕ => (n : ℤ)).length := by
      rw [List.length_map]
      exact htwo
    refine ⟨List.zipWith (· * ·) layout.memref (t.extents layout.memref.length), ?_, ?_⟩
    · show t.getScalarShape (layout.memref.map fun n : ℕ => (n : ℤ)) = _
      rw [TileType.getScalarShape, if_pos hlen, List.length_map, List.zipWith_map_left,
        List.map_zipWith]
      simp only [Nat.cast_mul]
    · rw [List.length_zipWith, t.length_extents htwo, min_self, h.memref]

theorem ceilDiv_natCast (a : ℕ) {b : ℕ} (hb : 0 < b) :
    ceilDiv (a : ℤ) b = (((a + b - 1) / b : ℕ) : ℤ) := by
  have h : (a : ℤ) + b - 1 = ((a + b - 1 : ℕ) : ℤ) := by omega
  rw [ceilDiv, h]
  exact (Int.ofNat_tdiv _ _).symm

/-- A shard of a rank that tiles allow can be built for any element type. -/
theorem exists_buildMemRefShape (shard : List ℕ) (e : ElementType)
    (htile : e.isTile → 2 ≤ shard.length) :
    ∃ memref, buildMemRefShape (shard.map fun n : ℕ => (n : ℤ)) e = .ok memref ∧
      memref.length = shard.length := by
  refine ⟨List.zipWith (fun a b => (a + b - 1) / b) shard (e.extents shard.length), ?_, ?_⟩
  · apply OptimizeTensorLayout.buildMemRefShape_eq_ok_iff.mpr
    rw [List.length_map]
    refine ⟨htile, ?_⟩
    rw [List.zipWith_map_left, List.map_zipWith]
    apply List.ext_getElem
    · simp
    · intro i hi _
      rw [List.getElem_zipWith, List.getElem_zipWith]
      exact (ceilDiv_natCast _ (e.extents_pos (List.getElem_mem _))).symm
  · rw [List.length_zipWith, e.length_extents htile, min_self]

theorem WellFormed.withElementType (h : WellFormed layout) {e : ElementType}
    (htile : e.isTile → 2 ≤ layout.grid.length) :
    ∃ memref, LowerToLayout.withElementType layout e
        = .ok { layout with memref := memref, elementType := e } ∧
      WellFormed { layout with memref := memref, elementType := e } := by
  obtain ⟨shard, hshard, hlen⟩ := h.getShardShape
  obtain ⟨memref, hmemref, hmemlen⟩ := exists_buildMemRefShape shard e (by rw [hlen]; exact htile)
  refine ⟨memref, ?_, ⟨h.linear, hmemlen.trans hlen, htile⟩⟩
  apply bind_eq_ok.mpr
  exact ⟨_, hshard, bind_eq_ok.mpr ⟨memref, hmemref, rfl⟩⟩

theorem WellFormed.withMemorySpace (h : WellFormed layout) (m : MemorySpace) :
    ∃ memref, LowerToLayout.withMemorySpace layout m
        = .ok { layout with memref := memref, memorySpace := m } ∧
      WellFormed { layout with memref := memref, memorySpace := m } := by
  obtain ⟨shard, hshard, hlen⟩ := h.getShardShape
  obtain ⟨memref, hmemref, hmemlen⟩ := exists_buildMemRefShape shard
    layout.elementType (by rw [hlen]; exact h.tiled)
  refine ⟨memref, ?_, ⟨h.linear, hmemlen.trans hlen, h.tiled⟩⟩
  apply bind_eq_ok.mpr
  exact ⟨_, hshard, bind_eq_ok.mpr ⟨memref, hmemref, rfl⟩⟩

theorem withMemorySpace_eq_ok {layout' : MetalLayoutAttr} {m : MemorySpace}
    (h : withMemorySpace layout m = .ok layout') :
    layout'.linear = layout.linear ∧ layout'.grid = layout.grid ∧
      layout'.elementType = layout.elementType ∧ layout'.memorySpace = m := by
  obtain ⟨_, _, h⟩ := bind_eq_ok.mp h
  obtain ⟨_, _, h⟩ := bind_eq_ok.mp h
  obtain rfl := Except.ok.inj h
  exact ⟨rfl, rfl, rfl, rfl⟩

/-- A layout that is built from a shape is well formed. -/
theorem wellFormed_of_get {shape grid : List ℕ} {e : ElementType} {m : MemorySpace}
    {intervals : List (ℤ × ℤ)} {v : OOBVal}
    (h : MetalLayoutAttr.get shape e m grid intervals v = .ok layout) :
    WellFormed layout ∧ layout.grid = grid ∧ layout.elementType = e ∧ layout.memorySpace = m := by
  unfold MetalLayoutAttr.get at h
  cases hlinear : CollapsedLinear.collapsedLinearAffineMap shape grid intervals with
  | none =>
    rw [hlinear] at h
    cases h
  | some linear =>
    rw [hlinear] at h
    obtain ⟨shard, hshard, h⟩ := bind_eq_ok.mp h
    obtain ⟨memref, hmemref, h⟩ := bind_eq_ok.mp h
    obtain rfl := Except.ok.inj h
    rw [calculateLogicalShardShapeForSharding] at hshard
    split_ifs at hshard with hresults
    obtain rfl := Except.ok.inj hshard
    obtain ⟨htile, hmap⟩ := OptimizeTensorLayout.buildMemRefShape_eq_ok_iff.mp hmemref
    have hrank : (List.zipWith ceilDiv (evalShape linear shape) grid).length = grid.length := by
      rw [List.length_zipWith, evalShape, List.length_map, MLIR.AffineMap.eval, List.length_map,
        hresults, min_self]
    have hlen := congrArg List.length hmap
    rw [List.length_map, List.length_zipWith, e.length_extents htile, min_self, hrank] at hlen
    refine ⟨⟨hresults, hlen, ?_⟩, rfl, rfl, rfl⟩
    rw [hrank] at htile
    exact htile

/-- The layout of a valid operand is well formed. -/
theorem OperandType.Valid.wellFormed {operand : OperandType} (h : operand.Valid)
    (hlayout : layoutOf operand = .ok layout) : WellFormed layout := by
  obtain ⟨type, htype, hlayout⟩ := bind_eq_ok.mp hlayout
  cases operand with
  | memref type => cases htype
  | tensor type' =>
    obtain rfl := Except.ok.inj htype
    cases hencoding : type'.encoding with
    | some layout' =>
      rw [hencoding] at hlayout
      obtain rfl := Except.ok.inj hlayout
      exact h type' rfl _ hencoding
    | none =>
      rw [hencoding] at hlayout
      obtain ⟨_, _, hlayout⟩ := bind_eq_ok.mp hlayout
      exact (wellFormed_of_get hlayout).1

/-- An operand that is not on the host carries a layout. -/
theorem exists_castEncoding {operand : OperandType} (hlayout : layoutOf operand = .ok layout)
    (hdevice : layout.memorySpace ≠ .system) :
    ∃ layout, operand.castEncoding = .ok layout := by
  obtain ⟨type, htype, hlayout⟩ := bind_eq_ok.mp hlayout
  cases hencoding : type.encoding with
  | some layout' =>
    refine ⟨layout', bind_eq_ok.mpr ⟨type, htype, ?_⟩⟩
    rw [hencoding]
  | none =>
    rw [hencoding] at hlayout
    obtain ⟨_, _, hlayout⟩ := bind_eq_ok.mp hlayout
    exact absurd (wellFormed_of_get hlayout).2.2.2 hdevice

end Layouts

namespace ToLayoutOp

/-! ## One operation -/

section OneOperation

variable {op : ToLayoutOp} {inputLayout outputLayout : MetalLayoutAttr}

variable {parts : ToLayoutOp × ToLayoutOp}

theorem bounce_eq_ok {layout : MetalLayoutAttr} (h : op.bounce layout = .ok parts) :
    parts.1.input = op.input ∧ parts.1.output = parts.2.input ∧ parts.2.output = op.output ∧
      layoutOf parts.1.output = .ok layout := by
  obtain ⟨type, _, h⟩ := bind_eq_ok.mp h
  obtain rfl := Except.ok.inj h
  exact ⟨rfl, rfl, rfl, rfl⟩

theorem splitCompound_eq_ok_some (h : op.splitCompound = .ok (some parts)) :
    ∃ components, op.compoundComponents = .ok components ∧ components.isCompound ∧
      op.bounceCompound components = .ok parts := by
  obtain ⟨components, hcomponents, h⟩ := bind_eq_ok.mp h
  refine ⟨components, hcomponents, ?_⟩
  split_ifs at h with hcompound
  · refine ⟨hcompound, ?_⟩
    cases hbounce : op.bounceCompound components with
    | error message =>
      rw [hbounce] at h
      cases h
    | ok parts' =>
      rw [hbounce] at h
      obtain rfl := Option.some.inj (Except.ok.inj h)
      rfl
  · cases Except.ok.inj h

theorem split_eq_some (h : op.split = some parts) : op.splitCompound = .ok (some parts) := by
  unfold split at h
  split_ifs at h
  cases hsplit : op.splitCompound with
  | error message =>
    rw [hsplit] at h
    cases h
  | ok r =>
    rw [hsplit] at h
    exact congrArg Except.ok h

theorem split_ends (first second : ToLayoutOp) (h : op.split = some (first, second)) :
    first.input = op.input ∧ first.output = second.input ∧ second.output = op.output := by
  obtain ⟨_, _, _, hbounce⟩ := splitCompound_eq_ok_some (split_eq_some h)
  obtain ⟨_, _, hbounce⟩ := bind_eq_ok.mp hbounce
  obtain ⟨_, _, hbounce⟩ := bind_eq_ok.mp hbounce
  obtain ⟨_, _, hbounce⟩ := bind_eq_ok.mp hbounce
  obtain ⟨_, _, hbounce⟩ := bind_eq_ok.mp hbounce
  obtain ⟨hinput, hmiddle, houtput, -⟩ := bounce_eq_ok hbounce
  exact ⟨hinput, hmiddle, houtput⟩

/-- A conversion with layouts is one of tensors. -/
theorem HasLayouts.castTensor (h : op.HasLayouts inputLayout outputLayout) :
    (∃ type, op.input = .tensor type) ∧ ∃ type, op.output = .tensor type := by
  refine ⟨?_, ?_⟩
  · obtain ⟨type, htype, -⟩ := bind_eq_ok.mp h.input
    cases hinput : op.input with
    | tensor type => exact ⟨type, rfl⟩
    | memref type =>
      rw [hinput] at htype
      cases htype
  · obtain ⟨type, htype, -⟩ := bind_eq_ok.mp h.output
    cases houtput : op.output with
    | tensor type => exact ⟨type, rfl⟩
    | memref type =>
      rw [houtput] at htype
      cases htype

theorem HasLayouts.compoundComponents_eq (h : op.HasLayouts inputLayout outputLayout) :
    op.compoundComponents = .ok (componentsOf inputLayout outputLayout) := by
  obtain ⟨⟨type, htype⟩, -⟩ := h.castTensor
  rw [compoundComponents, htype, h.input, h.output]
  rfl

theorem hasLayouts_of_components {components : CompoundComponents} {type : TensorType}
    (htype : op.input = .tensor type) (h : op.compoundComponents = .ok components) :
    ∃ inputLayout outputLayout, op.HasLayouts inputLayout outputLayout ∧
      components = componentsOf inputLayout outputLayout := by
  rw [compoundComponents, htype] at h
  obtain ⟨inputLayout, hinput, h⟩ := bind_eq_ok.mp h
  obtain ⟨outputLayout, houtput, h⟩ := bind_eq_ok.mp h
  exact ⟨inputLayout, outputLayout, ⟨hinput, houtput⟩, (Except.ok.inj h).symm⟩

section

variable (h : op.HasLayouts inputLayout outputLayout)
  (hcompound : (componentsOf inputLayout outputLayout).isCompound = false)

include h hcompound

theorem HasLayouts.splitCompound_eq_none : op.splitCompound = .ok none := by
  rw [splitCompound, h.compoundComponents_eq]
  exact if_neg (by rw [hcompound]; exact Bool.false_ne_true)

theorem HasLayouts.lower_eq :
    op.lower = op.lowerSingle (componentsOf inputLayout outputLayout) := by
  rw [lower, h.compoundComponents_eq]
  exact if_neg (by rw [hcompound]; exact Bool.false_ne_true)

end

/-- What is compound is split at its bounce layout. -/
theorem HasLayouts.splitCompound_eq_some (h : op.HasLayouts inputLayout outputLayout)
    (hcompound : (componentsOf inputLayout outputLayout).isCompound) (layout : MetalLayoutAttr)
    (hbounce : ∀ type, bounceLayout (componentsOf inputLayout outputLayout) inputLayout
      outputLayout type = .ok layout) :
    ∃ first second, op.splitCompound = .ok (some (first, second)) ∧
      first.HasLayouts inputLayout layout ∧ second.HasLayouts layout outputLayout := by
  obtain ⟨⟨type, htype⟩, ⟨type', htype'⟩⟩ := h.castTensor
  let bounced := OperandType.tensor ⟨type.shape, type.elementType, some layout⟩
  refine ⟨⟨op.input, bounced, none⟩, ⟨bounced, op.output, none⟩, ?_, ⟨h.input, rfl⟩,
    ⟨rfl, h.output⟩⟩
  have hparts : op.bounceCompound (componentsOf inputLayout outputLayout)
      = .ok (⟨op.input, bounced, none⟩, ⟨bounced, op.output, none⟩) := by
    have hinput : op.input.castTensor = .ok type := by
      rw [htype]
      rfl
    have houtput : op.output.castTensor = .ok type' := by
      rw [htype']
      rfl
    apply bind_eq_ok.mpr
    refine ⟨type', houtput, bind_eq_ok.mpr ⟨inputLayout, h.input, ?_⟩⟩
    apply bind_eq_ok.mpr
    refine ⟨outputLayout, h.output, bind_eq_ok.mpr ⟨layout, hbounce type', ?_⟩⟩
    exact bind_eq_ok.mpr ⟨type, hinput, rfl⟩
  rw [splitCompound, h.compoundComponents_eq]
  show (if _ then (op.bounceCompound _).map some else _) = _
  rw [if_pos hcompound, hparts]
  rfl

end OneOperation

/-! ## The tree of splits -/

/-- Splitting an operation ends, and every part of it is safe. -/
def Good (op : ToLayoutOp) : Prop :=
  Acc (Child split) op ∧ ∀ part, Relation.ReflTransGen (Child split) part op → part.Safe

section Good

variable {op : ToLayoutOp}

theorem good_of_unsplit (hsplit : op.split = none) (hsafe : op.Safe) : op.Good := by
  have hno : ∀ part, ¬ Child split part op := by
    rintro part ⟨first, second, h, -⟩
    rw [hsplit] at h
    cases h
  refine ⟨Acc.intro op fun part hpart => absurd hpart (hno part), ?_⟩
  intro part hpart
  rcases Relation.ReflTransGen.cases_tail hpart with rfl | ⟨child, -, hchild⟩
  · exact hsafe
  · exact absurd hchild (hno child)

theorem good_of_split {first second : ToLayoutOp}
    (hsplit : op.splitCompound = .ok (some (first, second)))
    (hfirst : first.Good) (hsecond : second.Good) : op.Good := by
  by_cases hfolds : op.folds
  · exact good_of_unsplit (if_pos hfolds) (Or.inl hfolds)
  · have heq : op.split = some (first, second) := by
      rw [split, if_neg hfolds, hsplit]
      rfl
    have hchild : ∀ part, Child split part op → part.Good := by
      rintro part ⟨first', second', h, hpart⟩
      rw [heq] at h
      obtain ⟨rfl, rfl⟩ := Prod.mk.inj (Option.some.inj h)
      rcases hpart with rfl | rfl
      · exact hfirst
      · exact hsecond
    refine ⟨Acc.intro op fun part hpart => (hchild part hpart).1, ?_⟩
    intro part hpart
    rcases Relation.ReflTransGen.cases_tail hpart with rfl | ⟨child, hdesc, hpart⟩
    · exact Or.inr ⟨_, hsplit, fun h => nomatch h⟩
    · exact (hchild child hpart).2 part hdesc

end Good

/-! ## Supported conversions are lowered -/

section Supported

variable {op : ToLayoutOp} {inputLayout outputLayout : MetalLayoutAttr}

theorem componentsOf_isLayoutChange (h : Compatible inputLayout outputLayout) :
    (componentsOf inputLayout outputLayout).isLayoutChange = false := by
  simp [componentsOf, h.1]

/-- **A movement alone** is lowered to a data movement or a copy. -/
theorem good_of_moves (h : op.HasLayouts inputLayout outputLayout)
    (hcompat : Compatible inputLayout outputLayout)
    (hformat : inputLayout.elementType = outputLayout.elementType)
    (hmoves : Moves inputLayout outputLayout) : op.Good := by
  have hlayout := componentsOf_isLayoutChange hcompat
  have hmove : (componentsOf inputLayout outputLayout).isGridChange ∨
      (componentsOf inputLayout outputLayout).isMemorySpaceChange := by
    rcases hmoves with hmem | ⟨hgrid, -⟩
    · right
      simpa [componentsOf] using hmem
    · left
      simpa [componentsOf] using hgrid
  have hcompound : (componentsOf inputLayout outputLayout).isCompound = false := by
    have hf : (componentsOf inputLayout outputLayout).isFormatChange = false := by
      simp [componentsOf, hformat]
    simp only [CompoundComponents.isCompound, CompoundComponents.count, hlayout, hf]
    cases (componentsOf inputLayout outputLayout).isGridChange ||
      (componentsOf inputLayout outputLayout).isMemorySpaceChange <;> rfl
  have hnone := h.splitCompound_eq_none hcompound
  refine good_of_unsplit (by simp [split, hnone, Except.toOption]) (Or.inr ⟨none, hnone, ?_⟩)
  intro _
  have hlower : op.lower = op.lowerDatamovementGeneric inputLayout outputLayout := by
    rw [h.lower_eq hcompound, lowerSingle,
      if_neg (by rw [hlayout]; exact Bool.false_ne_true), if_pos hmove, h.input, h.output]
    rfl
  rw [hlower, lowerDatamovementGeneric]
  split_ifs with hsystem
  · -- exactly one of the two is on the host
    have hone : ¬ (inputLayout.memorySpace = .system ↔ outputLayout.memorySpace = .system) := by
      intro hiff
      rcases hmoves with hmem | ⟨-, hdevice⟩
      · rcases hsystem with hin | hout
        · exact hmem (hin.trans (hiff.mp hin).symm)
        · exact hmem ((hiff.mpr hout).trans hout.symm)
      · rcases hsystem with hin | hout
        · exact hdevice hin
        · exact hdevice (hiff.mpr hout)
    rw [lowerSystemLayoutChange, if_neg hone]
    split_ifs <;> exact ⟨_, rfl⟩
  · rw [not_or] at hsystem
    obtain ⟨_, hencoding⟩ := exists_castEncoding h.output hsystem.2
    rw [hencoding]
    exact ⟨_, rfl⟩

/-- **A format conversion alone** is lowered when one of the formats is tiled. -/
theorem good_of_format (h : op.HasLayouts inputLayout outputLayout)
    (hlinear : inputLayout.linear = outputLayout.linear)
    (hgrid : inputLayout.grid = outputLayout.grid)
    (hmem : inputLayout.memorySpace = outputLayout.memorySpace)
    (htiled : isTiled inputLayout ≠ isTiled outputLayout) (hencoded : op.Encoded) : op.Good := by
  have hformat : inputLayout.elementType ≠ outputLayout.elementType := by
    intro heq
    exact htiled (by rw [isTiled, isTiled, heq])
  have hcomponents : componentsOf inputLayout outputLayout = ⟨false, false, true, false⟩ := by
    simp [componentsOf, hlinear, hgrid, hmem, hformat]
  have hcompound : (componentsOf inputLayout outputLayout).isCompound = false := by
    rw [hcomponents]
    rfl
  have hnone := h.splitCompound_eq_none hcompound
  refine good_of_unsplit (by simp [split, hnone, Except.toOption]) (Or.inr ⟨none, hnone, ?_⟩)
  intro _
  have hlower : op.lower = op.lowerFormatConversionGeneric inputLayout outputLayout := by
    rw [h.lower_eq hcompound, hcomponents, lowerSingle, h.input, h.output]
    rfl
  obtain ⟨⟨_, hinput⟩, ⟨_, houtput⟩⟩ := hencoded
  rw [hlower, lowerFormatConversionGeneric, if_neg htiled, hinput, houtput]
  by_cases htile : isTiled inputLayout
  · exact ⟨_, if_pos htile⟩
  · exact ⟨_, if_neg htile⟩

/-- What stays in L1 carries layouts. -/
theorem HasLayouts.encoded (h : op.HasLayouts inputLayout outputLayout)
    (hin : inputLayout.memorySpace = .deviceL1) (hout : outputLayout.memorySpace = .deviceL1) :
    op.Encoded :=
  ⟨exists_castEncoding h.input (by rw [hin]; decide),
    exists_castEncoding h.output (by rw [hout]; decide)⟩

/-- A movement together with a change between scalars and tiles is compound. -/
theorem isCompound_of_tiled (htiled : isTiled inputLayout ≠ isTiled outputLayout)
    (hmove : inputLayout.grid ≠ outputLayout.grid ∨
      inputLayout.memorySpace ≠ outputLayout.memorySpace) :
    (componentsOf inputLayout outputLayout).isCompound := by
  have hformat : inputLayout.elementType ≠ outputLayout.elementType := by
    intro heq
    exact htiled (by rw [isTiled, isTiled, heq])
  have hor : ((componentsOf inputLayout outputLayout).isGridChange ||
      (componentsOf inputLayout outputLayout).isMemorySpaceChange) = true := by
    rcases hmove with h | h <;> simp [componentsOf, h]
  have hf : (componentsOf inputLayout outputLayout).isFormatChange = true := by
    simp [componentsOf, hformat]
  simp only [CompoundComponents.isCompound, CompoundComponents.count, hor, hf]
  cases (componentsOf inputLayout outputLayout).isLayoutChange <;> rfl

theorem two_le_of_linear_eq {layout layout' : MetalLayoutAttr} (h : WellFormed layout)
    (h' : WellFormed layout') (hlinear : layout.linear = layout'.linear)
    (htiled : isTiled layout) : 2 ≤ layout'.grid.length := by
  rw [← h'.linear, ← hlinear, h.linear]
  exact h.tiled htiled

section

variable (h : op.HasLayouts inputLayout outputLayout) (hin : WellFormed inputLayout)
  (hout : WellFormed outputLayout) (hlinear : inputLayout.linear = outputLayout.linear)
  (htiled : isTiled inputLayout ≠ isTiled outputLayout)

include h hin hout hlinear htiled

/-- **Within L1**, tiled data is what is moved to another grid. -/
theorem good_of_tiled_l1 (hinL1 : inputLayout.memorySpace = .deviceL1)
    (houtL1 : outputLayout.memorySpace = .deviceL1) : op.Good := by
  by_cases hgrid : inputLayout.grid = outputLayout.grid
  · exact good_of_format h hlinear hgrid (hinL1.trans houtL1.symm) htiled (h.encoded hinL1 houtL1)
  · have hcompound := isCompound_of_tiled htiled (Or.inl hgrid)
    by_cases htile : isTiled inputLayout
    · -- move, then untilize
      have hscalar : isTiled outputLayout = false := by
        rw [htile] at htiled
        simpa using htiled.symm
      obtain ⟨memref, hbounce, -⟩ := hout.withElementType (e := inputLayout.elementType)
        fun _ => two_le_of_linear_eq hin hout hlinear htile
      obtain ⟨first, second, hsplit, hfirst, hsecond⟩ := h.splitCompound_eq_some hcompound
        { outputLayout with
          memref := memref, elementType := inputLayout.elementType } (fun type => by
          rw [bounceLayout, if_neg (not_not.mpr hinL1), if_neg (not_not.mpr houtL1),
            if_pos htiled, if_pos htile]
          exact hbounce)
      refine good_of_split hsplit ?_ ?_
      · exact good_of_moves hfirst ⟨hlinear, Or.inr rfl⟩ rfl (Or.inr ⟨hgrid, by rw [hinL1]; decide⟩)
      · refine good_of_format hsecond rfl rfl rfl ?_ (hsecond.encoded houtL1 houtL1)
        show isTiled inputLayout ≠ _
        exact htiled
    · -- tilize, then move
      have htile' : isTiled outputLayout := by
        rw [Bool.not_eq_true] at htile
        rw [htile] at htiled
        simpa using htiled.symm
      obtain ⟨memref, hbounce, -⟩ := hin.withElementType (e := outputLayout.elementType)
        fun _ => two_le_of_linear_eq hout hin hlinear.symm htile'
      obtain ⟨first, second, hsplit, hfirst, hsecond⟩ := h.splitCompound_eq_some hcompound
        { inputLayout with
          memref := memref, elementType := outputLayout.elementType } (fun type => by
          rw [bounceLayout, if_neg (not_not.mpr hinL1), if_neg (not_not.mpr houtL1),
            if_pos htiled, if_neg htile]
          exact hbounce)
      refine good_of_split hsplit ?_ ?_
      · exact good_of_format hfirst rfl rfl rfl htiled (hfirst.encoded hinL1 hinL1)
      · exact good_of_moves hsecond ⟨hlinear, Or.inr rfl⟩ rfl
          (Or.inr ⟨hgrid, by show inputLayout.memorySpace ≠ _; rw [hinL1]; decide⟩)

/-- **From L1**, the format is converted before the data is written. -/
theorem good_of_tiled_from_l1 (hinL1 : inputLayout.memorySpace = .deviceL1) : op.Good := by
  by_cases houtL1 : outputLayout.memorySpace = .deviceL1
  · exact good_of_tiled_l1 h hin hout hlinear htiled hinL1 houtL1
  · have hmem : inputLayout.memorySpace ≠ outputLayout.memorySpace := by
      rw [hinL1]
      exact Ne.symm houtL1
    obtain ⟨memref, hbounce, hwf⟩ := hout.withMemorySpace .deviceL1
    obtain ⟨first, second, hsplit, hfirst, hsecond⟩ := h.splitCompound_eq_some
      (isCompound_of_tiled htiled (Or.inr hmem))
      { outputLayout with memref := memref, memorySpace := .deviceL1 } (fun type => by
        rw [bounceLayout, if_neg (not_not.mpr hinL1), if_pos houtL1]
        exact hbounce)
    refine good_of_split hsplit ?_ ?_
    · exact good_of_tiled_l1 hfirst hin hwf hlinear htiled hinL1 rfl
    · exact good_of_moves hsecond ⟨rfl, Or.inr rfl⟩ rfl (Or.inl (Ne.symm houtL1))

/-- **Tilizing or untilizing**, with any movement. -/
theorem good_of_tiled (hencoded : inputLayout.grid = outputLayout.grid →
    inputLayout.memorySpace = outputLayout.memorySpace → op.Encoded) : op.Good := by
  by_cases hinL1 : inputLayout.memorySpace = .deviceL1
  · exact good_of_tiled_from_l1 h hin hout hlinear htiled hinL1
  · by_cases hmove : inputLayout.grid ≠ outputLayout.grid ∨
        inputLayout.memorySpace ≠ outputLayout.memorySpace
    · obtain ⟨memref, hbounce, hwf⟩ := hin.withMemorySpace .deviceL1
      obtain ⟨first, second, hsplit, hfirst, hsecond⟩ := h.splitCompound_eq_some
        (isCompound_of_tiled htiled hmove)
        { inputLayout with memref := memref, memorySpace := .deviceL1 } (fun type => by
          rw [bounceLayout, if_pos hinL1]
          exact hbounce)
      refine good_of_split hsplit ?_ ?_
      · exact good_of_moves hfirst ⟨rfl, Or.inr rfl⟩ rfl (Or.inl hinL1)
      · exact good_of_tiled_from_l1 hsecond hwf hout hlinear htiled rfl
    · rw [not_or, not_not, not_not] at hmove
      exact good_of_format h hlinear hmove.1 hmove.2 htiled (hencoded hmove.1 hmove.2)

end

/-- **Supported conversions** are lowered. -/
theorem Supported.good (h : op.Supported) (hinput : op.input.Valid) (houtput : op.output.Valid) :
    op.Good := by
  rcases h with hfolds | ⟨inputLayout, outputLayout, hlayouts, hcompat, hcase⟩
  · exact good_of_unsplit (if_pos hfolds) (Or.inl hfolds)
  · by_cases htiled : isTiled inputLayout = isTiled outputLayout
    · have hformat := hcompat.2.resolve_left (not_not.mpr htiled)
      exact good_of_moves hlayouts hcompat hformat
        (hcase.resolve_left fun hconverts => hconverts.1 htiled)
    · refine good_of_tiled hlayouts (hinput.wellFormed hlayouts.input)
        (houtput.wellFormed hlayouts.output) hcompat.1 htiled fun hgrid hmem => ?_
      rcases hcase with hconverts | hne | ⟨hne, -⟩
      · exact hconverts.2 hgrid hmem
      · exact absurd hmem hne
      · exact absurd hgrid hne

end Supported

/-! ## Only supported conversions are lowered -/

section OnlySupported

variable {op : ToLayoutOp} {inputLayout outputLayout : MetalLayoutAttr}

/-- The layouts of a supported conversion are compatible. -/
theorem Supported.compatible (h : op.Supported)
    (hlayouts : op.HasLayouts inputLayout outputLayout) : Compatible inputLayout outputLayout := by
  rcases h with hfolds | ⟨inputLayout', outputLayout', hlayouts', hcompat, -⟩
  · obtain ⟨⟨type, htype⟩, -⟩ := hlayouts.castTensor
    rw [folds, htype] at hfolds
    have hsame := hlayouts.output
    rw [getOutputLayout, ← of_decide_eq_true hfolds, ← htype] at hsame
    obtain rfl := Except.ok.inj (hlayouts.input.symm.trans hsame)
    exact ⟨rfl, Or.inr rfl⟩
  · obtain rfl := Except.ok.inj (hlayouts.input.symm.trans hlayouts'.input)
    obtain rfl := Except.ok.inj (hlayouts.output.symm.trans hlayouts'.output)
    exact hcompat

/-- A conversion that is lowered as it is. -/
theorem supported_of_lower (hsplit : op.splitCompound = .ok none)
    {lowered : Option Lowered} (hlower : op.lower = .ok lowered) : op.Supported := by
  obtain ⟨components, hcomponents, hlower⟩ := bind_eq_ok.mp hlower
  have hcompound : components.isCompound = false := by
    obtain ⟨components', hcomponents', hsplit⟩ := bind_eq_ok.mp hsplit
    obtain rfl := Except.ok.inj (hcomponents.symm.trans hcomponents')
    split_ifs at hsplit with hcompound
    · cases hbounce : op.bounceCompound components with
      | error message =>
        rw [hbounce] at hsplit
        cases hsplit
      | ok parts =>
        rw [hbounce] at hsplit
        cases Except.ok.inj hsplit
    · exact Bool.eq_false_of_not_eq_true hcompound
  rw [if_neg (by rw [hcompound]; exact Bool.false_ne_true), lowerSingle] at hlower
  cases hinput : op.input with
  | memref type =>
    -- the lowering asks for the layouts of tensors
    have hno : ∀ layout, op.getInputLayout ≠ .ok layout := by
      intro layout hlayout
      rw [getInputLayout, hinput] at hlayout
      cases hlayout
    split_ifs at hlower
    · obtain ⟨layout, hlayout, -⟩ := bind_eq_ok.mp hlower
      exact absurd hlayout (hno layout)
    · obtain ⟨layout, hlayout, -⟩ := bind_eq_ok.mp hlower
      exact absurd hlayout (hno layout)
  | tensor type =>
    obtain ⟨inputLayout, outputLayout, hlayouts, rfl⟩ := hasLayouts_of_components hinput hcomponents
    right
    refine ⟨inputLayout, outputLayout, hlayouts, ?_⟩
    rw [hlayouts.input, hlayouts.output] at hlower
    split_ifs at hlower with hlayout hmove hformat
    · -- a data movement
      have hlinear : inputLayout.linear = outputLayout.linear := by
        simpa [componentsOf] using hlayout
      have hsame : inputLayout.elementType = outputLayout.elementType := by
        by_contra hne
        have hf : (componentsOf inputLayout outputLayout).isFormatChange = true := by
          simp [componentsOf, hne]
        have hor : ((componentsOf inputLayout outputLayout).isGridChange ||
            (componentsOf inputLayout outputLayout).isMemorySpaceChange) = true := by
          rcases hmove with h | h <;> simp [h]
        simp [CompoundComponents.isCompound, CompoundComponents.count, hf, hor] at hcompound
      refine ⟨⟨hlinear, Or.inr hsame⟩, Or.inr ?_⟩
      have hgeneric : op.lowerDatamovementGeneric inputLayout outputLayout = .ok lowered := hlower
      by_cases hmem : inputLayout.memorySpace = outputLayout.memorySpace
      · right
        have hgrid : inputLayout.grid ≠ outputLayout.grid := by
          rcases hmove with h | h
          · simpa [componentsOf] using h
          · simp [componentsOf, hmem] at h
        refine ⟨hgrid, fun hsystem => ?_⟩
        rw [lowerDatamovementGeneric, if_pos (Or.inl hsystem), lowerSystemLayoutChange,
          if_pos (by rw [hmem])] at hgeneric
        cases hgeneric
      · exact Or.inl hmem
    · -- a format conversion
      have hlinear : inputLayout.linear = outputLayout.linear := by
        simpa [componentsOf] using hlayout
      have hgeneric : op.lowerFormatConversionGeneric inputLayout outputLayout
          = .ok lowered := hlower
      have htiled : isTiled inputLayout ≠ isTiled outputLayout := by
        intro heq
        rw [lowerFormatConversionGeneric, if_pos heq] at hgeneric
        cases hgeneric
      rw [lowerFormatConversionGeneric, if_neg htiled] at hgeneric
      obtain ⟨layout, hinput, hgeneric⟩ := bind_eq_ok.mp hgeneric
      obtain ⟨layout', houtput, -⟩ := bind_eq_ok.mp hgeneric
      exact ⟨⟨hlinear, Or.inl htiled⟩, Or.inl ⟨htiled, fun _ _ => ⟨⟨layout, hinput⟩, layout',
        houtput⟩⟩⟩

/-- A compound conversion with one linear map moves data and changes between scalars and tiles. -/
theorem converts_of_isCompound (hcompat : Compatible inputLayout outputLayout)
    (hcompound : (componentsOf inputLayout outputLayout).isCompound) :
    op.Converts inputLayout outputLayout := by
  have hl := componentsOf_isLayoutChange hcompat
  constructor
  · refine hcompat.2.resolve_right fun hformat => ?_
    have hf : (componentsOf inputLayout outputLayout).isFormatChange = false := by
      simp [componentsOf, hformat]
    have hmove := Bool.toNat_le ((componentsOf inputLayout outputLayout).isGridChange ||
      (componentsOf inputLayout outputLayout).isMemorySpaceChange)
    simp only [CompoundComponents.isCompound, CompoundComponents.count, hf, hl, decide_eq_true_eq,
      Bool.toNat_false] at hcompound
    omega
  · intro hgrid hmem
    have hmove : ((componentsOf inputLayout outputLayout).isGridChange ||
        (componentsOf inputLayout outputLayout).isMemorySpaceChange) = false := by
      simp [componentsOf, hgrid, hmem]
    have hf := Bool.toNat_le (componentsOf inputLayout outputLayout).isFormatChange
    simp only [CompoundComponents.isCompound, CompoundComponents.count, hmove, hl,
      decide_eq_true_eq, Bool.toNat_false] at hcompound
    omega

/-- **Bounces between compatible layouts.**  When both halves of a bounce are compatible, so is
the whole. -/
theorem compatible_of_bounce {layout : MetalLayoutAttr} {type : TensorType}
    (hbounce : bounceLayout (componentsOf inputLayout outputLayout) inputLayout outputLayout type
      = .ok layout)
    (hfirst : Compatible inputLayout layout) (hsecond : Compatible layout outputLayout) :
    Compatible inputLayout outputLayout := by
  refine ⟨hfirst.1.trans hsecond.1, ?_⟩
  unfold bounceLayout at hbounce
  split_ifs at hbounce with hin hout htiled htile hscalar hgrid hlayout
  · -- the input in L1
    obtain ⟨-, -, hformat, -⟩ := withMemorySpace_eq_ok hbounce
    have := hsecond.2
    rwa [isTiled, hformat] at this
  · -- the output in L1
    obtain ⟨-, -, hformat, -⟩ := withMemorySpace_eq_ok hbounce
    have := hfirst.2
    rwa [isTiled, isTiled, hformat] at this
  · exact Or.inl htiled
  · exact Or.inl htiled
  · -- the linear map would change, and both halves keep it
    have hlinear : inputLayout.linear ≠ outputLayout.linear := by
      simpa [componentsOf] using hscalar.1
    exact absurd (hfirst.1.trans hsecond.1) hlinear
  · -- the output on the grid of the input
    obtain ⟨shape, -, hget⟩ := bind_eq_ok.mp hbounce
    obtain ⟨-, -, hformat, -⟩ := wellFormed_of_get hget
    have := hfirst.2
    rwa [isTiled, isTiled, hformat] at this

/-- **Only supported conversions** are lowered. -/
theorem Good.supported (h : op.Good) : op.Supported := by
  obtain ⟨hacc, hsafe⟩ := h
  induction hacc with
  | intro op _ ih =>
    rcases hsafe op Relation.ReflTransGen.refl with hfolds | ⟨parts, hsplit, hlower⟩
    · exact Or.inl hfolds
    · by_cases hfolds : op.folds
      · exact Or.inl hfolds
      cases parts with
      | none =>
        obtain ⟨lowered, hlower⟩ := hlower rfl
        exact supported_of_lower hsplit hlower
      | some parts =>
        obtain ⟨first, second⟩ := parts
        have hsome : op.split = some (first, second) := by
          rw [split, if_neg hfolds, hsplit]
          rfl
        have hchild : ∀ part, part = first ∨ part = second → part.Supported := by
          intro part hpart
          have hpart' : Child split part op := ⟨first, second, hsome, hpart⟩
          exact ih part hpart' fun part' hdesc => hsafe part' (hdesc.tail hpart')
        obtain ⟨components, hcomponents, hcompound, hbounce⟩ := splitCompound_eq_ok_some hsplit
        obtain ⟨outputType, houtputType, hbounce⟩ := bind_eq_ok.mp hbounce
        obtain ⟨inputLayout, hinput, hbounce⟩ := bind_eq_ok.mp hbounce
        obtain ⟨outputLayout, houtput, hbounce⟩ := bind_eq_ok.mp hbounce
        obtain ⟨layout, hlayout, hbounced⟩ := bind_eq_ok.mp hbounce
        have hlayouts : op.HasLayouts inputLayout outputLayout := ⟨hinput, houtput⟩
        obtain rfl := Except.ok.inj (hlayouts.compoundComponents_eq.symm.trans hcomponents)
        obtain ⟨hfirst, hmiddle, hsecond, hmid⟩ := bounce_eq_ok hbounced
        have hcompat := compatible_of_bounce hlayout ((hchild first (Or.inl rfl)).compatible
            ⟨(congrArg layoutOf hfirst).trans hinput, hmid⟩)
          ((hchild second (Or.inr rfl)).compatible ⟨(congrArg layoutOf hmiddle).symm.trans hmid,
              (congrArg layoutOf hsecond).trans houtput⟩)
        exact Or.inr ⟨inputLayout, outputLayout, hlayouts, hcompat,
          Or.inl (converts_of_isCompound hcompat hcompound)⟩

end OnlySupported

/-! ## Chains -/

/-- An unsplit conversion that is safe changes one component, or is folded. -/
theorem single_of_safe {op : ToLayoutOp} (hsplit : op.split = none) (h : op.Safe) : op.Single := by
  rcases h with hfolds | ⟨parts, hparts, hlower⟩
  · exact Or.inl hfolds
  · by_cases hfolds : op.folds
    · exact Or.inl hfolds
    · right
      rw [split, if_neg hfolds, hparts] at hsplit
      obtain rfl : parts = none := hsplit
      obtain ⟨lowered, hlower⟩ := hlower rfl
      obtain ⟨components, hcomponents, hlower⟩ := bind_eq_ok.mp hlower
      refine ⟨components, hcomponents, ?_⟩
      have hle : ¬ components.isCompound := by
        intro hcompound
        rw [splitCompound, hcomponents] at hparts
        have hparts' : (op.bounceCompound components).map some = .ok none := by
          rw [← hparts]
          exact (if_pos hcompound).symm
        cases hbounce : op.bounceCompound components with
        | error message =>
          rw [hbounce] at hparts'
          cases hparts'
        | ok both =>
          rw [hbounce] at hparts'
          cases Except.ok.inj hparts'
      rw [if_neg hle, lowerSingle] at hlower
      rw [CompoundComponents.isCompound, decide_eq_true_iff, Nat.not_lt] at hle
      refine le_antisymm hle ?_
      rw [CompoundComponents.count]
      -- a conversion that changes no component is not lowered
      split_ifs at hlower with hlayout hmove hformat
      · have hor : (components.isGridChange || components.isMemorySpaceChange) = true := by
          rcases hmove with h | h <;> simp [h]
        rw [hor, Bool.toNat_true]
        omega
      · rw [hformat, Bool.toNat_true]
        omega

/-- **Chains and trees.**  Splitting an operation is safe in every order exactly when every part
of it is safe and its splits end. -/
theorem lowersSafely_iff_good (op : ToLayoutOp) : op.LowersSafely ↔ op.Good := by
  constructor
  · intro h
    refine ⟨ends_iff.mp h.ends op (by simp), fun part hpart => ?_⟩
    obtain ⟨chain, hreach, hmem⟩ := reachable_of_descendant hpart
    exact h.safe chain hreach part hmem
  · intro h
    have hends : Ends split [op] := ends_singleton h.1
    have hsafe : ∀ chain, Reachable split [op] chain → ∀ link ∈ chain, link.Safe := by
      intro chain hreach link hlink
      obtain ⟨origin, horigin, hdesc⟩ := mem_of_reachable hreach link hlink
      obtain rfl := List.mem_singleton.mp horigin
      exact h.2 link hdesc
    have hlinked : Linked input output op.input op.output [op] := ⟨rfl, rfl⟩
    exact {
      ends := hends
      reaches := exists_unsplit hends
      linked := fun chain hreach => hlinked.reachable (fun _ => split_ends) hreach
      single := fun chain hreach hunsplit link hlink =>
        single_of_safe (hunsplit link hlink) (hsafe chain hreach link hlink)
      safe := hsafe }

/-- **Lowering layout conversions.**  Splitting a conversion between well formed layouts ends,
in any order, in single changes that are all lowered, exactly for the supported conversions. -/
theorem lowersSafely_iff (op : ToLayoutOp) (hinput : op.input.Valid) (houtput : op.output.Valid) :
    op.LowersSafely ↔ op.Supported := by
  rw [lowersSafely_iff_good]
  exact ⟨Good.supported, fun h => h.good hinput houtput⟩

/-! ## Examples -/

/-- The type of a tensor of `64 × 64` with a layout in L1. -/
def onCore (linear : List MLIR.AffineExpr) (grid memref : List ℕ) (elementType : ElementType) :
    OperandType :=
  .tensor ⟨[64, 64], .scalar .float32,
    some ⟨⟨2, 0, linear⟩, .undef, grid, memref, elementType, .deviceL1⟩⟩

/-- Tiles of `32 × 32`. -/
def tiles : ElementType := .tile (.get .float32)

/-- From the host to tiles on two cores. -/
def hostToTiles : ToLayoutOp where
  input := .tensor ⟨[64, 64], .scalar .float32, none⟩
  output := onCore [.dim 0, .dim 1] [2, 1] [1, 2] tiles
  layout := none

/-- The transfer of host data to tiles on two cores is lowered. -/
theorem hostToTiles_lowersSafely : hostToTiles.LowersSafely := by
  refine (lowersSafely_iff hostToTiles ?_ ?_).mpr (Or.inr ⟨_, _, ⟨rfl, rfl⟩, ⟨?_, ?_⟩, ?_⟩)
  · intro type htype layout hlayout
    cases htype
    cases hlayout
  · intro type htype layout hlayout
    cases htype
    cases hlayout
    exact ⟨rfl, rfl, fun _ => le_refl 2⟩
  · decide
  · exact Or.inl (by decide)
  · exact Or.inr (Or.inl (by decide))

/-- Tiles that are transposed while they move from one core to two. -/
def transposedTiles : ToLayoutOp where
  input := onCore [.dim 0, .dim 1] [1, 1] [2, 2] tiles
  output := onCore [.dim 1, .dim 0] [2, 1] [1, 2] tiles
  layout := none

/-- Splitting them ends never: they bounce to scalars, and these back to tiles. -/
theorem transposedTiles_not_ends : transposedTiles.input.Valid ∧ transposedTiles.output.Valid ∧
    ¬ Ends split [transposedTiles] := by
  refine ⟨?_, ?_, fun hends => ?_⟩
  · intro type htype layout hlayout
    cases htype
    cases hlayout
    exact ⟨rfl, rfl, fun _ => le_refl 2⟩
  · intro type htype layout hlayout
    cases htype
    cases hlayout
    exact ⟨rfl, rfl, fun _ => le_refl 2⟩
  · let scalars := onCore [.dim 0, .dim 1] [1, 1] [64, 64] (.scalar .float32)
    let back : ToLayoutOp := ⟨scalars, transposedTiles.output, none⟩
    have hback : Child split back transposedTiles :=
      ⟨⟨transposedTiles.input, scalars, none⟩, back, rfl, Or.inr rfl⟩
    have hagain : Child split transposedTiles back :=
      ⟨⟨scalars, transposedTiles.input, none⟩, transposedTiles, rfl, Or.inr rfl⟩
    exact hends.not_child_self (.tail (.single hagain) hback)

end ToLayoutOp

end LowerToLayout
