/-
# The legal layouts of an operation

`LegalLayoutAnalysis` selects the layouts that the optimizer may choose for the result of an
operation: all interleaved ones, and a limited number of sharded ones with the largest grids.  An
override of the user restricts them.

* `applyOverrides`, `incompatibleWithOverride`, `analysisImplementation` : the translated functions;
* `satisfies` : what an override asks for;
* `Honours` : what the analysis is meant to return;
* `analysis_eq` : what it returns for an operation whose layout it selects;
* `honours_iff` : when it returns what it is meant to.
-/
import TTMLIR.ConvActivation
import TTMLIR.Selection

namespace TTNN

namespace LegalLayouts

open ConvActivation (OpKind TensorPageLayout Conv2dConfigOverrideParams conv2dConfigOf)
open OverrideString (Str)
open Fallible Selection TTNNLayoutAttr

/-! ## The translated functions -/

/-- How the analysis goes wrong: the table of overrides is not there, a layout has no memory layout,
or an assertion fails. -/
inductive Failure : Type where
  | noOverrideTable
  | noMemLayout
  | assertion (message : String)

/-- `OutputLayoutOverrideParams`. -/
structure OutputLayoutOverrideParams : Type where
  grid : Option (ℕ × ℕ)
  bufferType : Option BufferType
  tensorMemoryLayout : Option TensorMemoryLayout
  memoryLayout : Option PassOverrides.Layout
  dataType : Option DataType

/-- A layout in its place of the table of possible layouts. -/
structure Categorized (scalarType : DataType) (page : TensorPageLayout) (sharded : Bool)
    (L : TTNNLayoutAttr) : Prop where
  scalarType : L.getScalarElementType = scalarType
  page : L.isTiled = decide (page = .tiled)
  memory : L.memLayout.any TensorMemoryLayout.isSharded = sharded

/-- The possible layouts of a scalar type and a page layout. -/
structure PageLayouts (scalarType : DataType) (page : TensorPageLayout) : Type where
  interleaved : List TTNNLayoutAttr
  sharded : List TTNNLayoutAttr
  categorized : (∀ L ∈ interleaved, Categorized scalarType page false L) ∧
    ∀ L ∈ sharded, Categorized scalarType page true L

/-- `TensorTypeLayoutsForPageLayout`. -/
abbrev ScalarLayouts (scalarType : DataType) : Type :=
  (page : TensorPageLayout) → PageLayouts scalarType page

/-- `LegalLayoutAnalysisInput`; the tables of overrides are pointers. -/
structure LegalLayoutAnalysisInput : Type where
  possibleLayouts : (scalarType : DataType) → Option (ScalarLayouts scalarType)
  maxShardedConfigs : ℕ
  outputLayoutOverrides : Option (Str → Option OutputLayoutOverrideParams)
  conv2dConfigOverrides : Option (Str → Option Conv2dConfigOverrideParams)
  rowMajorEnabled : Bool

/-- What the analysis reads of an operation: its kind, the name of its location when it is a
`NameLoc`, the types of its results, and the data types of its first two operands. -/
structure AnalysedOp : Type where
  kind : OpKind
  loc : Option Str
  resultTypes : List ValueType
  operandDataTypes : Option DataType × Option DataType

/-- The type of the first result, when it is a tensor. -/
def AnalysedOp.tensorType (op : AnalysedOp) : Option RankedTensorType := op.resultTypes.head?.join

/-- `isa<EmptyOp>`. -/
def AnalysedOp.isEmptyOp (op : AnalysedOp) : Bool :=
  match op.kind with
  | .empty _ => true
  | _ => false

/-- The layout that a full override asks for. -/
structure FullOverride : Type where
  grid : ℕ × ℕ
  bufferType : BufferType
  tensorMemoryLayout : TensorMemoryLayout
  memoryLayout : PassOverrides.Layout
  dataType : Option DataType

/-- `fullLayoutOverride`, with the values of the parameters. -/
def OutputLayoutOverrideParams.fullLayoutOverride (override : OutputLayoutOverrideParams) :
    Option FullOverride :=
  match override.grid, override.bufferType, override.tensorMemoryLayout, override.memoryLayout with
  | some grid, some bufferType, some tensorMemoryLayout, some memoryLayout =>
    some ⟨grid, bufferType, tensorMemoryLayout, memoryLayout, override.dataType⟩
  | _, _, _, _ => none

/-- The layout that is built for a full override. -/
def FullOverride.layout (override : FullOverride) (type : RankedTensorType) :
    Except String TTNNLayoutAttr :=
  let scalarType := override.dataType.getD type.encoding.getScalarElementType
  let elementType : ElementType :=
    if override.memoryLayout = .tile then .tile (.get scalarType) else .scalar scalarType
  get type.shape elementType override.bufferType [override.grid.1, override.grid.2]
    (some override.tensorMemoryLayout) [(0, -1)]

/-- `incompatibleWithOverride`. -/
def incompatibleWithOverride (override : OutputLayoutOverrideParams) (L : TTNNLayoutAttr) :
    Except Failure Bool :=
  if override.grid.any (fun grid => L.grid.getD 0 0 ≠ grid.1 ∨ L.grid.getD 1 0 ≠ grid.2) then
    .ok true
  else if override.bufferType.any (fun bufferType => L.getBufferType ≠ bufferType) then .ok true
  else
    match override.tensorMemoryLayout, L.memLayout with
    | some _, none => .error .noMemLayout
    | some expected, some memLayout =>
      if memLayout ≠ expected then .ok true
      else .ok (override.memoryLayout.any fun l => L.isTiled ≠ decide (l = .tile))
    | none, _ => .ok (override.memoryLayout.any fun l => L.isTiled ≠ decide (l = .tile))

section Analysis

variable (sort : List TTNNLayoutAttr → List TTNNLayoutAttr) (input : LegalLayoutAnalysisInput)
  (op : AnalysedOp)

/-- The last step, for convolutions with a name. -/
def overrideConv2d (configs : List ConvActivation.OpConfig) : List ConvActivation.OpConfig :=
  match op.loc, op.kind with
  | some name, .conv2d _ _ =>
    let overrides := (input.conv2dConfigOverrides.bind (· name)).getD fun _ => none
    configs.map fun config => { config with
      opSpecificAttr := some (conv2dConfigOf op.operandDataTypes.1 op.operandDataTypes.2 overrides) }
  | _, _ => configs

/-- The override of an operation, where the table is there. -/
def overrideOf : Option OutputLayoutOverrideParams :=
  op.loc.bind fun name => input.outputLayoutOverrides.bind (· name)

/-- `LegalLayoutAnalysis::applyOverrides`, or nothing where it returns false. -/
def applyOverrides : Except Failure (Option (List ConvActivation.OpConfig)) :=
  match (overrideOf input op).bind OutputLayoutOverrideParams.fullLayoutOverride with
  | none => .ok none
  | some override =>
    match op.tensorType with
    | none => .error (.assertion "cast<RankedTensorType>")
    | some type =>
      match override.layout type with
      | .error message => .error (.assertion message)
      | .ok layout => .ok (some (overrideConv2d input op [⟨layout, none⟩]))

/-- Whether the row major layouts are considered. -/
def rowMajorAllowed : Bool :=
  input.rowMajorEnabled ||
    decide ((overrideOf input op).bind OutputLayoutOverrideParams.memoryLayout = some .rowMajor)

/-- The page layouts that are considered, in the order of the loop. -/
def pages : List TensorPageLayout :=
  if rowMajorAllowed input op then [.rowMajor, .tiled] else [.tiled]

/-- The number of sharded layouts that are taken of every page layout. -/
def maxShardedConfigs : ℕ :=
  if rowMajorAllowed input op then input.maxShardedConfigs / 2 else input.maxShardedConfigs

/-- The scalar type whose layouts are possible. -/
def scalarElementType (type : RankedTensorType) : DataType :=
  ((overrideOf input op).bind OutputLayoutOverrideParams.dataType).getD
    type.encoding.getScalarElementType

/-- The sharded layouts that are taken of a page layout. -/
def takenOf {scalarType : DataType} (layouts : ScalarLayouts scalarType)
    (page : TensorPageLayout) : List TTNNLayoutAttr :=
  (sort (layouts page).sharded).take (maxShardedConfigs input op)

/-- The layouts that are collected before the override is applied. -/
def collected {scalarType : DataType} (layouts : ScalarLayouts scalarType) : List TTNNLayoutAttr :=
  ((pages input op).map fun page => (layouts page).interleaved).flatten ++
    sort ((pages input op).map (takenOf sort input op layouts)).flatten

/-- The partial override: configurations that conflict with it are removed. -/
def applyPartialOverride (configs : List ConvActivation.OpConfig) :
    Except Failure (List ConvActivation.OpConfig) :=
  match overrideOf input op with
  | none => .ok configs
  | some override =>
    removeIf (fun config => incompatibleWithOverride override config.outputLayout) configs

/-- `LegalLayoutAnalysis::analysisImplementation`. -/
def analysisImplementation : Except Failure (List ConvActivation.OpConfig) :=
  match op.tensorType with
  | none => .ok []
  | some type =>
    if op.isEmptyOp then .ok []
    else if op.kind.cantChangeOutputLayout then .ok [⟨type.encoding, none⟩]
    else if op.loc.isSome && input.outputLayoutOverrides.isNone then .error .noOverrideTable
    else
      match input.possibleLayouts (scalarElementType input op type) with
      | none => .error (.assertion "Scalar type not found in all possible layouts")
      | some layouts => do
          let legal ← applyPartialOverride input op
            ((collected sort input op layouts).map (⟨·, none⟩))
          let analysisResult := overrideConv2d input op legal
          if analysisResult.isEmpty then .error (.assertion "At least one legal layout must be found.")
          else .ok analysisResult

/-- `runAnalysis`. -/
def runAnalysis : Except Failure (List ConvActivation.OpConfig) := do
  match ← applyOverrides input op with
  | some analysisResult => return analysisResult
  | none => analysisImplementation sort input op

end Analysis

/-! ## What the analysis is for -/

/-- A layout has what an override asks for, apart from the data type. -/
def layoutSatisfies (override : OutputLayoutOverrideParams) (L : TTNNLayoutAttr) : Bool :=
  override.grid.all (fun grid => L.grid.getD 0 0 = grid.1 ∧ L.grid.getD 1 0 = grid.2) &&
    override.bufferType.all (fun bufferType => L.getBufferType = bufferType) &&
    override.tensorMemoryLayout.all (fun memLayout => L.memLayout = some memLayout) &&
    override.memoryLayout.all fun layout => L.isTiled = decide (layout = .tile)

/-- A layout has what an override asks for. -/
def satisfies (override : OutputLayoutOverrideParams) (L : TTNNLayoutAttr) : Bool :=
  layoutSatisfies override L && override.dataType.all fun d => L.getScalarElementType = d

section Specification

variable (input : LegalLayoutAnalysisInput) (op : AnalysedOp)

/-- A layout has what the override of an operation, if there is one, asks for. -/
def accepted (L : TTNNLayoutAttr) : Bool := (overrideOf input op).all (satisfies · L)

/-- A possible layout of the result. -/
def Possible (L : TTNNLayoutAttr) : Prop :=
  ∃ type layouts, op.tensorType = some type ∧
    input.possibleLayouts (scalarElementType input op type) = some layouts ∧
    ∃ page, L ∈ (layouts page).interleaved ∨ L ∈ (layouts page).sharded

/-- The analysis selects the layout of the result: it is a tensor, it is not filled in later, it may
be changed, and no layout is asked for in full. -/
structure Selects (type : RankedTensorType) : Prop where
  notFull : (overrideOf input op).bind OutputLayoutOverrideParams.fullLayoutOverride = none
  tensorType : op.tensorType = some type
  notEmpty : op.isEmptyOp = false
  canChange : op.kind.cantChangeOutputLayout = false

/-- The sharded layouts of a page layout among some configurations. -/
def shardedOf (page : TensorPageLayout) (configs : List ConvActivation.OpConfig) :
    List TTNNLayoutAttr :=
  (configs.map ConvActivation.OpConfig.outputLayout).filter fun L =>
    L.isTiled = decide (page = .tiled) ∧ L.memLayout.any TensorMemoryLayout.isSharded

/-- **What the analysis is meant to return**: nothing that is absent is read, all configurations have
what the override asks for, there is one if there can be one, and the sharded ones are the largest of
those with what the override asks for. -/
structure Honours (result : Except Failure (List ConvActivation.OpConfig)) : Prop where
  reads : result ≠ .error .noOverrideTable ∧ result ≠ .error .noMemLayout
  satisfied : ∀ configs, result = .ok configs →
    ∀ config ∈ configs, accepted input op config.outputLayout = true
  nonempty : (∃ L, Possible input op L ∧ accepted input op L = true) →
    ∃ configs, result = .ok configs ∧ configs ≠ []
  largest : ∀ configs, result = .ok configs → ∀ type, Selects input op type → ∀ layouts,
    input.possibleLayouts (scalarElementType input op type) = some layouts →
      ∀ page ∈ pages input op,
        Largest getGridVolume (maxShardedConfigs input op) (shardedOf page configs)
          ((layouts page).sharded.filter (accepted input op))

/-! ## The condition -/

/-- The memory layout of a layout is read, and absent. -/
def ReadsMissing (override : OutputLayoutOverrideParams) (L : TTNNLayoutAttr) : Prop :=
  override.grid.all (fun grid => L.grid.getD 0 0 = grid.1 ∧ L.grid.getD 1 0 = grid.2) = true ∧
    override.bufferType.all (fun bufferType => L.getBufferType = bufferType) = true ∧
    override.tensorMemoryLayout ≠ none ∧ L.memLayout = none

/-- **Selections that go right**: a name comes with a table, no absent memory layout is read, a
layout is left if one is possible, and the limit on sharded layouts does not cut one that the
override accepts in favour of one that it rejects. -/
structure Selectable (type : RankedTensorType) : Prop where
  table : op.loc.isSome = true → input.outputLayoutOverrides.isNone = false
  memLayouts : ∀ layouts, input.possibleLayouts (scalarElementType input op type) = some layouts →
    ∀ page ∈ pages input op, ∀ L ∈ (layouts page).interleaved, ∀ override,
      overrideOf input op = some override → ¬ ReadsMissing override L
  available : ∀ layouts, input.possibleLayouts (scalarElementType input op type) = some layouts →
    (∃ L, Possible input op L ∧ accepted input op L = true) →
      ∃ page ∈ pages input op, ∃ L, accepted input op L = true ∧
        (L ∈ (layouts page).interleaved ∨
          (L ∈ (layouts page).sharded ∧ maxShardedConfigs input op ≠ 0))
  undisplaced : ∀ layouts, input.possibleLayouts (scalarElementType input op type) = some layouts →
    ∀ page ∈ pages input op, ¬ Displaced getGridVolume (maxShardedConfigs input op)
      (accepted input op) (layouts page).sharded

/-- **The condition**: a layout that is asked for in full can be built, an operation that is passed
over has no possible layout that it asks for, a layout that may not be changed is the one asked for,
and selections go right. -/
def HoldsWhen : Prop :=
  match (overrideOf input op).bind OutputLayoutOverrideParams.fullLayoutOverride, op.tensorType with
  | some override, some type => (∃ L, Possible input op L ∧ accepted input op L = true) →
      ∃ L, override.layout type = .ok L
  | some _, none => True
  | none, none => True
  | none, some type =>
    if op.isEmptyOp then ¬ ∃ L, Possible input op L ∧ accepted input op L = true
    else if op.kind.cantChangeOutputLayout then accepted input op type.encoding = true
    else Selectable input op type

end Specification

/-! ## One layout -/

/-- **The check of one layout**: it reads an absent memory layout, or it says whether the layout has
what the override asks for. -/
theorem incompatibleWithOverride_cases (override : OutputLayoutOverrideParams)
    (L : TTNNLayoutAttr) :
    (ReadsMissing override L ∧ incompatibleWithOverride override L = .error .noMemLayout) ∨
      (¬ ReadsMissing override L ∧
        incompatibleWithOverride override L = .ok (!layoutSatisfies override L)) := by
  obtain ⟨grid, bufferType, tensorMemoryLayout, memoryLayout, dataType⟩ := override
  have hgrid : grid.any (fun grid => L.grid.getD 0 0 ≠ grid.1 ∨ L.grid.getD 1 0 ≠ grid.2) =
      !grid.all (fun grid => L.grid.getD 0 0 = grid.1 ∧ L.grid.getD 1 0 = grid.2) := by
    cases grid with
    | none => rfl
    | some g =>
      show decide (_ ∨ _) = !decide (_ ∧ _)
      rw [← decide_not, decide_eq_decide, not_and_or]
  have hbuffer : bufferType.any (fun bufferType => L.getBufferType ≠ bufferType) =
      !bufferType.all (fun bufferType => L.getBufferType = bufferType) := by
    cases bufferType <;> simp
  have hpage : memoryLayout.any (fun l => L.isTiled ≠ decide (l = .tile)) =
      !memoryLayout.all (fun l => L.isTiled = decide (l = .tile)) := by
    cases memoryLayout <;> simp
  simp only [incompatibleWithOverride, ReadsMissing, layoutSatisfies, hgrid, hbuffer, hpage]
  cases grid.all (fun grid => L.grid.getD 0 0 = grid.1 ∧ L.grid.getD 1 0 = grid.2) with
  | false => exact .inr ⟨by simp, by simp⟩
  | true =>
    cases bufferType.all (fun bufferType => L.getBufferType = bufferType) with
    | false => exact .inr ⟨by simp, by simp⟩
    | true =>
      cases tensorMemoryLayout with
      | none => exact .inr ⟨by simp, by simp⟩
      | some expected =>
        cases hm : L.memLayout with
        | none => exact .inl ⟨by simp, by simp⟩
        | some m =>
          refine .inr ⟨by simp, ?_⟩
          by_cases heq : m = expected <;> simp [heq]

section Analysis

variable {sort : List TTNNLayoutAttr → List TTNNLayoutAttr} {input : LegalLayoutAnalysisInput}
  {op : AnalysedOp} {type : RankedTensorType}

variable {L : TTNNLayoutAttr}

theorem satisfies_eq {override : OutputLayoutOverrideParams}
    (hoverride : overrideOf input op = some override)
    (hscalar : L.getScalarElementType = scalarElementType input op type) :
    accepted input op L = layoutSatisfies override L := by
  have hdata : override.dataType.all (fun d => L.getScalarElementType = d) = true := by
    rw [hscalar, scalarElementType, hoverride]
    cases h : override.dataType with
    | none => rfl
    | some d => simp [h]
  rw [accepted, hoverride, Option.all_some, satisfies, hdata, Bool.and_true]

/-! ## What is collected -/

variable {scalarType : DataType} {layouts : ScalarLayouts scalarType}

/-- The layouts that are collected: the interleaved ones and those that are taken. -/
theorem mem_collected (hsort : SortsBy getGridVolume sort) :
    L ∈ collected sort input op layouts ↔ ∃ page ∈ pages input op,
      L ∈ (layouts page).interleaved ∨ L ∈ takenOf sort input op layouts page := by
  rw [collected, List.mem_append, (hsort.perm _).mem_iff]
  simp only [List.mem_flatten, List.mem_map]
  constructor
  · rintro (⟨_, ⟨page, hpage, rfl⟩, hL⟩ | ⟨_, ⟨page, hpage, rfl⟩, hL⟩)
    · exact ⟨page, hpage, .inl hL⟩
    · exact ⟨page, hpage, .inr hL⟩
  · rintro ⟨page, hpage, hL | hL⟩
    · exact .inl ⟨_, ⟨page, hpage, rfl⟩, hL⟩
    · exact .inr ⟨_, ⟨page, hpage, rfl⟩, hL⟩

theorem mem_sharded_of_mem_takenOf (hsort : SortsBy getGridVolume sort) {page : TensorPageLayout}
    (hL : L ∈ takenOf sort input op layouts page) : L ∈ (layouts page).sharded :=
  (hsort.perm _).mem_iff.mp (List.mem_of_mem_take hL)

theorem categorized_of_mem_collected (hsort : SortsBy getGridVolume sort)
    (hL : L ∈ collected sort input op layouts) : L.getScalarElementType = scalarType := by
  obtain ⟨page, -, hL | hL⟩ := (mem_collected hsort).mp hL
  · exact ((layouts page).categorized.1 L hL).scalarType
  · exact ((layouts page).categorized.2 L (mem_sharded_of_mem_takenOf hsort hL)).scalarType

theorem nodup_pages (input : LegalLayoutAnalysisInput) (op : AnalysedOp) :
    (pages input op).Nodup := by
  rw [pages]
  split_ifs <;> simp

/-- **The sharded layouts of a page layout** that are left are those that are taken and accepted. -/
theorem perm_shardedOf (hsort : SortsBy getGridVolume sort)
    {page : TensorPageLayout} (hpage : page ∈ pages input op)
    {configs : List ConvActivation.OpConfig}
    (hconfigs : configs.map ConvActivation.OpConfig.outputLayout =
      (collected sort input op layouts).filter (accepted input op)) :
    (shardedOf page configs).Perm
      ((takenOf sort input op layouts page).filter (accepted input op)) := by
  set ofPage : TTNNLayoutAttr → Bool := fun L =>
    L.isTiled = decide (page = .tiled) ∧ L.memLayout.any TensorMemoryLayout.isSharded with hofPage
  have hcomm : ∀ p q : TTNNLayoutAttr → Bool, ∀ l : List TTNNLayoutAttr,
      (l.filter q).filter p = (l.filter p).filter q := by
    intro p q l
    rw [List.filter_filter, List.filter_filter]
    exact List.filter_congr fun x _ => Bool.and_comm _ _
  have hinterleaved : ((pages input op).map fun page =>
      (layouts page).interleaved).flatten.filter ofPage = [] := by
    refine List.filter_eq_nil_iff.mpr fun L hL => ?_
    obtain ⟨_, hmem, hL⟩ := List.mem_flatten.mp hL
    obtain ⟨page', -, rfl⟩ := List.mem_map.mp hmem
    simp [hofPage, ((layouts page').categorized.1 L hL).memory]
  have hall : List.Forall₂ (fun page l => l = takenOf sort input op layouts page)
      (pages input op) ((pages input op).map (takenOf sort input op layouts)) :=
    List.forall₂_map_right_iff.mpr (List.forall₂_same.mpr fun _ _ => rfl)
  have hother : ∀ page' l, l = takenOf sort input op layouts page' → page' ≠ page →
      l.filter ofPage = [] := by
    rintro page' l rfl hne
    refine List.filter_eq_nil_iff.mpr fun L hL => ?_
    have hspec := (layouts page').categorized.2 L (mem_sharded_of_mem_takenOf hsort hL)
    have hdiffer : decide (page' = .tiled) ≠ decide (page = .tiled) := by
      cases page <;> cases page' <;> simp at hne ⊢
    simp [hofPage, hspec.page, hdiffer]
  obtain ⟨l, hl, hflatten⟩ := filter_flatten_of_unique hall (nodup_pages input op) hpage hother
  have hself : l.filter ofPage = l := by
    rw [hl]
    refine List.filter_eq_self.mpr fun L hL => ?_
    have hspec := (layouts page).categorized.2 L (mem_sharded_of_mem_takenOf hsort hL)
    simp [hofPage, hspec.page, hspec.memory]
  rw [shardedOf, hconfigs, hcomm, collected, List.filter_append, hinterleaved, List.nil_append]
  refine (((hsort.perm _).filter ofPage).filter (accepted input op)).trans ?_
  rw [hflatten, hself, hl]

theorem map_overrideConv2d (configs : List ConvActivation.OpConfig) :
    (overrideConv2d input op configs).map ConvActivation.OpConfig.outputLayout =
      configs.map ConvActivation.OpConfig.outputLayout := by
  rw [overrideConv2d]
  split
  · rw [List.map_map]
    rfl
  · rfl

/-! ## The result of the analysis -/

/-- Nothing absent is read while the layouts of a result are selected. -/
def ReadsPresent (input : LegalLayoutAnalysisInput) (op : AnalysedOp) {scalarType : DataType}
    (layouts : ScalarLayouts scalarType) : Prop :=
  ∀ page ∈ pages input op, ∀ L ∈ (layouts page).interleaved, ∀ override,
    overrideOf input op = some override → ¬ ReadsMissing override L

theorem runAnalysis_of_notFull
    (hfull : (overrideOf input op).bind OutputLayoutOverrideParams.fullLayoutOverride = none) :
    runAnalysis sort input op = analysisImplementation sort input op := by
  rw [runAnalysis, applyOverrides, hfull]
  rfl

variable {layouts : ScalarLayouts (scalarElementType input op type)}

/-- **The partial override** keeps the layouts that are accepted. -/
theorem applyPartialOverride_eq (hsort : SortsBy getGridVolume sort)
    (hpresent : ReadsPresent input op layouts) :
    applyPartialOverride input op ((collected sort input op layouts).map (⟨·, none⟩)) =
      .ok (((collected sort input op layouts).filter (accepted input op)).map (⟨·, none⟩)) := by
  rw [applyPartialOverride]
  cases hoverride : overrideOf input op with
  | none =>
    have hall : (collected sort input op layouts).filter (accepted input op) =
        collected sort input op layouts :=
      List.filter_eq_self.mpr fun L _ => by rw [accepted, hoverride]; rfl
    rw [hall]
  | some override =>
    show removeIf _ _ = _
    rw [removeIf_eq_filter (q := fun config => accepted input op config.outputLayout),
      List.filter_map]
    · rfl
    · intro config hconfig
      obtain ⟨L, hL, rfl⟩ := List.mem_map.mp hconfig
      have hscalar := categorized_of_mem_collected hsort hL
      show incompatibleWithOverride override L = .ok (!accepted input op L)
      rw [satisfies_eq hoverride hscalar]
      rcases incompatibleWithOverride_cases override L with ⟨hmissing, -⟩ | ⟨-, heq⟩
      · exfalso
        obtain ⟨page, hpage, hL | hL⟩ := (mem_collected hsort).mp hL
        · exact hpresent page hpage L hL override hoverride hmissing
        · have hmemory := ((layouts page).categorized.2 L
            (mem_sharded_of_mem_takenOf hsort hL)).memory
          rw [hmissing.2.2.2] at hmemory
          cases hmemory
      · exact heq

/-- The analysis up to the partial override. -/
theorem runAnalysis_of_selects (hselects : Selects input op type)
    (htable : op.loc.isSome = true → input.outputLayoutOverrides.isNone = false)
    (hlayouts : input.possibleLayouts (scalarElementType input op type) = some layouts) :
    runAnalysis sort input op = (do
      let legal ← applyPartialOverride input op
        ((collected sort input op layouts).map (⟨·, none⟩))
      if (overrideConv2d input op legal).isEmpty then
        .error (.assertion "At least one legal layout must be found.")
      else .ok (overrideConv2d input op legal)) := by
  have hnull : (op.loc.isSome && input.outputLayoutOverrides.isNone) = false := by
    cases hloc : op.loc.isSome with
    | false => rfl
    | true => rw [htable hloc]; rfl
  rw [runAnalysis_of_notFull hselects.notFull, analysisImplementation, hselects.tensorType]
  simp only [hselects.notEmpty, hselects.canChange, hnull, Bool.false_eq_true, if_false, hlayouts]

/-- **Selecting layouts**: the collected ones that the override accepts. -/
theorem analysis_eq (hsort : SortsBy getGridVolume sort) (hselects : Selects input op type)
    (htable : op.loc.isSome = true → input.outputLayoutOverrides.isNone = false)
    (hlayouts : input.possibleLayouts (scalarElementType input op type) = some layouts)
    (hpresent : ReadsPresent input op layouts) :
    ∃ configs, configs.map ConvActivation.OpConfig.outputLayout =
        (collected sort input op layouts).filter (accepted input op) ∧
      runAnalysis sort input op = if configs = [] then
        .error (.assertion "At least one legal layout must be found.") else .ok configs := by
  refine ⟨overrideConv2d input op
    (((collected sort input op layouts).filter (accepted input op)).map (⟨·, none⟩)), ?_, ?_⟩
  · rw [map_overrideConv2d, List.map_map]
    exact List.map_id _
  · rw [runAnalysis_of_selects hselects htable hlayouts, applyPartialOverride_eq hsort hpresent]
    show (if (overrideConv2d input op _).isEmpty = true then _ else _) = _
    simp only [List.isEmpty_iff]

/-- A partial override that reads an absent memory layout. -/
theorem applyPartialOverride_eq_error (hsort : SortsBy getGridVolume sort)
    (hmissing : ¬ ReadsPresent input op layouts) :
    applyPartialOverride input op ((collected sort input op layouts).map (⟨·, none⟩)) =
      .error .noMemLayout := by
  simp only [ReadsPresent, not_forall, not_not] at hmissing
  obtain ⟨page, hpage, L, hL, override, hoverride, hreads⟩ := hmissing
  have hmem : L ∈ collected sort input op layouts := (mem_collected hsort).mpr ⟨page, hpage, .inl hL⟩
  rw [applyPartialOverride, hoverride]
  show removeIf _ _ = _
  cases hremoved : removeIf (fun config : ConvActivation.OpConfig =>
      incompatibleWithOverride override config.outputLayout)
        ((collected sort input op layouts).map (⟨·, none⟩)) with
  | ok configs =>
    obtain ⟨remove, hremove⟩ := exists_ok_of_removeIf_eq_ok hremoved ⟨L, none⟩
      (List.mem_map_of_mem hmem)
    rcases incompatibleWithOverride_cases override L with ⟨-, heq⟩ | ⟨hnot, -⟩
    · rw [heq] at hremove
      cases hremove
    · exact absurd hreads hnot
  | error failure =>
    obtain ⟨config, -, hfailure⟩ := exists_of_removeIf_eq_error hremoved
    rcases incompatibleWithOverride_cases override config.outputLayout with ⟨-, heq⟩ | ⟨-, heq⟩
    · rw [heq] at hfailure
      rw [← Except.error.inj hfailure]
    · rw [heq] at hfailure
      cases hfailure

/-- **Selections that go wrong**: an absent memory layout is read. -/
theorem analysis_eq_error (hsort : SortsBy getGridVolume sort) (hselects : Selects input op type)
    (htable : op.loc.isSome = true → input.outputLayoutOverrides.isNone = false)
    (hlayouts : input.possibleLayouts (scalarElementType input op type) = some layouts)
    (hmissing : ¬ ReadsPresent input op layouts) :
    runAnalysis sort input op = .error .noMemLayout := by
  rw [runAnalysis_of_selects hselects htable hlayouts, applyPartialOverride_eq_error hsort hmissing]
  rfl

/-! ## The condition is the right one -/

theorem analysis_noOverrideTable (hselects : Selects input op type)
    (hloc : op.loc.isSome = true) (htable : input.outputLayoutOverrides.isNone = true) :
    runAnalysis sort input op = .error .noOverrideTable := by
  rw [runAnalysis_of_notFull hselects.notFull, analysisImplementation, hselects.tensorType]
  simp only [hselects.notEmpty, hselects.canChange, hloc, htable, Bool.and_self,
    Bool.false_eq_true, if_false, if_true]

/-- The possible layouts of a result that is selected. -/
theorem possible_iff (htype : op.tensorType = some type)
    (hlayouts : input.possibleLayouts (scalarElementType input op type) = some layouts) :
    Possible input op L ↔ ∃ page, L ∈ (layouts page).interleaved ∨ L ∈ (layouts page).sharded := by
  constructor
  · rintro ⟨type', layouts', htype', hlayouts', hL⟩
    rw [htype] at htype'
    cases htype'
    rw [hlayouts] at hlayouts'
    cases hlayouts'
    exact hL
  · intro hL
    exact ⟨type, layouts, htype, hlayouts, hL⟩

theorem analysis_noScalarType (hselects : Selects input op type)
    (htable : op.loc.isSome = true → input.outputLayoutOverrides.isNone = false)
    (hlayouts : input.possibleLayouts (scalarElementType input op type) = none) :
    runAnalysis sort input op =
      .error (.assertion "Scalar type not found in all possible layouts") := by
  have hnull : (op.loc.isSome && input.outputLayoutOverrides.isNone) = false := by
    cases hloc : op.loc.isSome with
    | false => rfl
    | true => rw [htable hloc]; rfl
  rw [runAnalysis_of_notFull hselects.notFull, analysisImplementation, hselects.tensorType]
  simp only [hselects.notEmpty, hselects.canChange, hnull, Bool.false_eq_true, if_false, hlayouts]

/-- Selections that are what they are meant to be go right. -/
theorem selectable_of_honours (hselects : Selects input op type)
    (hall : ∀ sort, SortsBy getGridVolume sort → Honours input op (runAnalysis sort input op)) :
    Selectable input op type := by
  have hsort := sortsBy_insertionSort (α := TTNNLayoutAttr) getGridVolume
  have htable : op.loc.isSome = true → input.outputLayoutOverrides.isNone = false := by
    intro hloc
    by_contra hnone
    exact (hall _ hsort).reads.1
      (analysis_noOverrideTable hselects hloc (Bool.eq_true_of_not_eq_false hnone))
  have hpresent : ∀ layouts, input.possibleLayouts (scalarElementType input op type) =
      some layouts → ReadsPresent input op layouts := by
    intro layouts hlayouts
    by_contra hmissing
    exact (hall _ hsort).reads.2 (analysis_eq_error hsort hselects htable hlayouts hmissing)
  refine ⟨htable, hpresent, fun layouts hlayouts hpossible => ?_,
    fun layouts hlayouts page hpage => ?_⟩
  · obtain ⟨configs, hmap, hrun⟩ :=
      analysis_eq hsort hselects htable hlayouts (hpresent layouts hlayouts)
    obtain ⟨configs', hok, hne⟩ := (hall _ hsort).nonempty hpossible
    rw [hrun] at hok
    split_ifs at hok with hnil
    have hfilter : configs.map ConvActivation.OpConfig.outputLayout ≠ [] := by simpa using hnil
    rw [hmap] at hfilter
    obtain ⟨L, hL⟩ := List.exists_mem_of_ne_nil _ hfilter
    obtain ⟨hL, haccepted⟩ := List.mem_filter.mp hL
    obtain ⟨page, hpage, hL | hL⟩ := (mem_collected hsort).mp hL
    · exact ⟨page, hpage, L, haccepted, .inl hL⟩
    · refine ⟨page, hpage, L, haccepted, .inr ⟨mem_sharded_of_mem_takenOf hsort hL, ?_⟩⟩
      intro hzero
      rw [takenOf, hzero] at hL
      cases hL
  · refine (largest_filter_take_iff _ _ _ _).mp fun sort hsort => ?_
    obtain ⟨configs, hmap, hrun⟩ :=
      analysis_eq hsort hselects htable hlayouts (hpresent layouts hlayouts)
    have hperm := perm_shardedOf hsort hpage hmap
    by_cases hnil : configs = []
    · -- nothing is left, so that nothing that is possible is accepted
      have hnone : (layouts page).sharded.filter (accepted input op) = [] := by
        refine List.filter_eq_nil_iff.mpr fun L hL haccepted => ?_
        have hpossible : Possible input op L :=
          (possible_iff hselects.tensorType hlayouts).mpr ⟨page, .inr hL⟩
        obtain ⟨configs', hok, -⟩ := (hall sort hsort).nonempty ⟨L, hpossible, haccepted⟩
        rw [hrun, if_pos hnil] at hok
        cases hok
      have htaken : (takenOf sort input op layouts page).filter (accepted input op) = [] := by
        rw [hnil] at hperm
        exact hperm.symm.eq_nil
      rw [hnone, ← takenOf, htaken]
      exact ⟨[], List.Perm.refl _, by simp, Nat.zero_le _, by simp⟩
    · rw [if_neg hnil] at hrun
      exact ((hall sort hsort).largest configs hrun type hselects layouts hlayouts page hpage).perm
        hperm.symm

/-- Selections that go right are what they are meant to be. -/
theorem honours_of_selectable (hselects : Selects input op type) (hright : Selectable input op type)
    (hsort : SortsBy getGridVolume sort) : Honours input op (runAnalysis sort input op) := by
  obtain ⟨htable, hpresent, havailable, hundisplaced⟩ := hright
  cases hlayouts : input.possibleLayouts (scalarElementType input op type) with
  | none =>
    rw [analysis_noScalarType hselects htable hlayouts]
    refine ⟨⟨by simp, by simp⟩, by simp, ?_, by simp⟩
    rintro ⟨L, ⟨type', layouts, htype, hsome, -⟩, -⟩
    rw [hselects.tensorType] at htype
    cases htype
    rw [hlayouts] at hsome
    cases hsome
  | some layouts =>
    obtain ⟨configs, hmap, hrun⟩ :=
      analysis_eq hsort hselects htable hlayouts (hpresent layouts hlayouts)
    have hlargest : ∀ page ∈ pages input op, Largest getGridVolume (maxShardedConfigs input op)
        (shardedOf page configs) ((layouts page).sharded.filter (accepted input op)) :=
      fun page hpage => ((largest_filter_take_iff _ _ _ _).mpr
        (hundisplaced layouts hlayouts page hpage) sort hsort).perm
          (perm_shardedOf hsort hpage hmap)
    have hok : ∀ configs', runAnalysis sort input op = .ok configs' → configs' = configs := by
      intro configs' hrun'
      rw [hrun] at hrun'
      split_ifs at hrun' with hnil
      exact (Except.ok.inj hrun').symm
    refine ⟨?_, fun configs' hrun' config hconfig => ?_, fun hpossible => ?_,
      fun configs' hrun' type' hselects' layouts' hlayouts' page hpage => ?_⟩
    · rw [hrun]
      split_ifs <;> simp
    · rw [hok configs' hrun'] at hconfig
      have hmem := List.mem_map_of_mem (f := ConvActivation.OpConfig.outputLayout) hconfig
      rw [hmap] at hmem
      exact (List.mem_filter.mp hmem).2
    · have hne : configs ≠ [] := by
        rintro rfl
        obtain ⟨page, hpage, L, haccepted, hL | ⟨hL, hlimit⟩⟩ :=
          havailable layouts hlayouts hpossible
        · have hmem : L ∈ (collected sort input op layouts).filter (accepted input op) :=
            List.mem_filter.mpr ⟨(mem_collected hsort).mpr ⟨page, hpage, .inl hL⟩, haccepted⟩
          rw [← hmap] at hmem
          cases hmem
        · obtain ⟨cut, hperm, -, -, hfull⟩ := hlargest page hpage
          have hmem : L ∈ cut := by
            have hin := hperm.mem_iff.mpr (List.mem_filter.mpr ⟨hL, haccepted⟩)
            simpa [shardedOf] using hin
          exact hlimit (hfull (List.ne_nil_of_mem hmem)).symm
      rw [hrun, if_neg hne]
      exact ⟨configs, rfl, hne⟩
    · have htype := hselects.tensorType
      rw [hselects'.tensorType] at htype
      cases htype
      rw [hlayouts] at hlayouts'
      cases hlayouts'
      rw [hok configs' hrun']
      exact hlargest page hpage

/-- A layout that is built for a full override has what it asks for. -/
theorem satisfies_of_full {override : OutputLayoutOverrideParams} {full : FullOverride}
    (hfull : override.fullLayoutOverride = some full)
    (hL : full.layout type = .ok L) : satisfies override L = true := by
  obtain ⟨grid, bufferType, tensorMemoryLayout, memoryLayout, dataType⟩ := override
  cases grid with
  | none => cases hfull
  | some grid =>
    cases bufferType with
    | none => cases hfull
    | some bufferType =>
      cases tensorMemoryLayout with
      | none => cases hfull
      | some m =>
        cases memoryLayout with
        | none => cases hfull
        | some layout =>
          cases hfull
          obtain ⟨he, hb, hgrid, hm⟩ := parts_of_get hL
          have hscalar : L.getScalarElementType =
              dataType.getD type.encoding.getScalarElementType := by
            rw [getScalarElementType, he]
            by_cases htile : layout = .tile <;> simp [htile, TileType.get]
          have htiled : L.isTiled = decide (layout = .tile) := by
            rw [isTiled, he]
            by_cases htile : layout = .tile <;> simp [htile, ElementType.isTile]
          cases dataType with
          | none => simp [satisfies, layoutSatisfies, hgrid, hb, hm, htiled]
          | some d => simp [satisfies, layoutSatisfies, hgrid, hb, hm, htiled, hscalar]

/-- No layout is possible without a tensor type. -/
theorem not_possible {input : LegalLayoutAnalysisInput} {op : AnalysedOp}
    (hnone : op.tensorType = none) : ¬ ∃ L, Possible input op L ∧ accepted input op L = true := by
  rintro ⟨L, ⟨type, -, htype, -⟩, -⟩
  rw [hnone] at htype
  cases htype

/-- Under a full override the layout it describes is built, or nothing is possible. -/
theorem honours_iff_of_full {input : LegalLayoutAnalysisInput} {op : AnalysedOp} {full : FullOverride}
    (hfull : (overrideOf input op).bind OutputLayoutOverrideParams.fullLayoutOverride = some full) :
    (∀ sort, SortsBy getGridVolume sort → Honours input op (runAnalysis sort input op)) ↔
      HoldsWhen input op := by
  have hsort := sortsBy_insertionSort (α := TTNNLayoutAttr) getGridVolume
  rw [HoldsWhen, hfull]
  have hnot : ∀ type, ¬ Selects input op type := fun type h => by
    have hnotFull := h.notFull
    rw [hfull] at hnotFull
    cases hnotFull
  cases htype : op.tensorType with
  | none =>
    have hrun : ∀ sort, runAnalysis sort input op =
        .error (.assertion "cast<RankedTensorType>") := by
      intro sort
      rw [runAnalysis, applyOverrides, hfull, htype]
      rfl
    refine iff_of_true (fun sort _ => ?_) trivial
    rw [hrun]
    exact ⟨⟨by simp, by simp⟩, by simp, fun h => absurd h (not_possible htype), by simp⟩
  | some type =>
    cases hL : full.layout type with
    | error message =>
      have hrun : ∀ sort, runAnalysis sort input op = .error (.assertion message) := by
        intro sort
        rw [runAnalysis, applyOverrides, hfull, htype]
        simp only [hL]
        rfl
      constructor
      · intro hall hpossible
        obtain ⟨configs, hok, -⟩ := (hall _ hsort).nonempty hpossible
        rw [hrun] at hok
        cases hok
      · intro hbuilt sort _
        rw [hrun]
        refine ⟨⟨by simp, by simp⟩, by simp, fun hpossible => ?_, by simp⟩
        obtain ⟨L, hL'⟩ := hbuilt hpossible
        rw [hL] at hL'
        cases hL'
    | ok L =>
      refine iff_of_true (fun sort _ => ?_) fun _ => ⟨L, hL⟩
      have hrun : runAnalysis sort input op =
          .ok (overrideConv2d input op [⟨L, none⟩]) := by
        rw [runAnalysis, applyOverrides, hfull, htype]
        simp only [hL]
        rfl
      have hmap : (overrideConv2d input op [⟨L, none⟩]).map
          ConvActivation.OpConfig.outputLayout =
            [(⟨L, none⟩ : ConvActivation.OpConfig)].map
              ConvActivation.OpConfig.outputLayout := map_overrideConv2d _
      rw [hrun]
      refine ⟨⟨by simp, by simp⟩, fun configs hok config hconfig => ?_, fun _ =>
        ⟨_, rfl, fun hnil => ?_⟩, fun _ _ type' hselects => absurd hselects (hnot type')⟩
      · cases hok
        have hmem := List.mem_map_of_mem (f := ConvActivation.OpConfig.outputLayout) hconfig
        rw [hmap, List.map_singleton, List.mem_singleton] at hmem
        obtain ⟨override, hoverride, hfull'⟩ := Option.bind_eq_some_iff.mp hfull
        rw [hmem, accepted, hoverride, Option.all_some]
        exact satisfies_of_full hfull' hL
      · rw [hnil] at hmap
        cases hmap

/-- **Legal layouts and overrides.**  Whatever the order of sharded layouts with grids of one volume,
the analysis returns what it is meant to exactly when the condition holds. -/
theorem honours_iff (input : LegalLayoutAnalysisInput) (op : AnalysedOp) :
    (∀ sort, SortsBy getGridVolume sort → Honours input op (runAnalysis sort input op)) ↔
      HoldsWhen input op := by
  have hsort := sortsBy_insertionSort (α := TTNNLayoutAttr) getGridVolume
  rw [HoldsWhen]
  cases hfull : (overrideOf input op).bind OutputLayoutOverrideParams.fullLayoutOverride with
  | some full => exact (honours_iff_of_full hfull).trans (by rw [HoldsWhen, hfull])
  | none =>
    have hrun : ∀ sort, runAnalysis sort input op = analysisImplementation sort input op :=
      fun sort => runAnalysis_of_notFull hfull
    cases htype : op.tensorType with
    | none =>
      refine iff_of_true (fun sort _ => ?_) trivial
      rw [hrun, analysisImplementation, htype]
      refine ⟨⟨by simp, by simp⟩, fun configs hok config hconfig => ?_,
        fun h => absurd h (not_possible htype), fun _ _ type hselects => ?_⟩
      · cases hok
        cases hconfig
      · have htype' := hselects.tensorType
        rw [htype] at htype'
        cases htype'
    | some type =>
      have hselected : ∀ type', Selects input op type' →
          op.isEmptyOp = false ∧ op.kind.cantChangeOutputLayout = false :=
        fun type' h => ⟨h.notEmpty, h.canChange⟩
      show _ ↔ if op.isEmptyOp = true then _ else _
      split_ifs with hempty hchange
      · have hrun' : ∀ sort, runAnalysis sort input op = .ok [] := by
          intro sort
          rw [hrun, analysisImplementation, htype]
          exact if_pos hempty
        constructor
        · intro hall hpossible
          obtain ⟨configs, hok, hne⟩ := (hall _ hsort).nonempty hpossible
          rw [hrun'] at hok
          exact hne (Except.ok.inj hok).symm
        · intro hnone sort _
          rw [hrun']
          refine ⟨⟨by simp, by simp⟩, fun configs hok config hconfig => ?_,
            fun h => absurd h hnone, fun _ _ type' hselects => ?_⟩
          · cases hok
            cases hconfig
          · rw [(hselected type' hselects).1] at hempty
            cases hempty
      · have hrun' : ∀ sort, runAnalysis sort input op = .ok [⟨type.encoding, none⟩] := by
          intro sort
          rw [hrun, analysisImplementation, htype]
          exact (if_neg hempty).trans (if_pos hchange)
        constructor
        · intro hall
          exact (hall _ hsort).satisfied _ (hrun' _) _ List.mem_cons_self
        · intro haccepted sort _
          rw [hrun']
          refine ⟨⟨by simp, by simp⟩, fun configs hok config hconfig => ?_,
            fun _ => ⟨_, rfl, by simp⟩, fun _ _ type' hselects => ?_⟩
          · cases hok
            rw [List.mem_singleton.mp hconfig]
            exact haccepted
          · rw [(hselected type' hselects).2] at hchange
            cases hchange
      · have hselects : Selects input op type :=
          ⟨hfull, htype, Bool.eq_false_iff.mpr hempty, Bool.eq_false_iff.mpr hchange⟩
        exact ⟨selectable_of_honours hselects, fun h sort hsort =>
          honours_of_selectable hselects h hsort⟩

end Analysis

/-! ## A layout that is cut -/

/-- The tensor of `64 × 64` in tiles on a single core. -/
def onOneCore : TTNNLayoutAttr where
  linear := ⟨2, 0, [MLIR.AffineExpr.dim 0, MLIR.AffineExpr.dim 1]⟩
  grid := [1, 1]
  memref := ⟨[2, 2], .tile (.get .bfloat16), .l1⟩
  memLayout := some .blockSharded
  verified := rfl

/-- The sharded layouts on four cores and on one, in tiles. -/
def shardedTiles (scalarType : DataType) (h : scalarType = .bfloat16) : ScalarLayouts scalarType :=
  fun page => match page with
    | .rowMajor => ⟨[], [], by simp, by simp⟩
    | .tiled => ⟨[], [Derivation.onFourCores, onOneCore], by simp, by
        subst h
        exact List.forall_mem_cons.mpr ⟨⟨rfl, rfl, rfl⟩,
          List.forall_mem_singleton.mpr ⟨rfl, rfl, rfl⟩⟩⟩

/-- One sharded layout may be chosen; the override asks for a single core. -/
def singleCoreInput : LegalLayoutAnalysisInput where
  possibleLayouts scalarType :=
    if h : scalarType = .bfloat16 then some (shardedTiles scalarType h) else none
  maxShardedConfigs := 1
  outputLayoutOverrides := some fun _ => some ⟨some (1, 1), none, none, none, none⟩
  conv2dConfigOverrides := none
  rowMajorEnabled := false

/-- An operation with a name and a tensor result. -/
def namedOp : AnalysedOp where
  kind := .relu
  loc := some ['r']
  resultTypes := [some ⟨[64, 64], Derivation.onFourCores⟩]
  operandDataTypes := (some .bfloat16, none)

/-- **The limit comes before the override**: the layout on a single core is cut, and none is left. -/
theorem singleCore_not_honours :
    ¬ Honours singleCoreInput namedOp (runAnalysis (fun layouts => layouts.insertionSort
      fun L L' => getGridVolume L' ≤ getGridVolume L) singleCoreInput namedOp) := by
  intro h
  obtain ⟨configs, hok, -⟩ := h.nonempty ⟨onOneCore, ⟨⟨[64, 64], Derivation.onFourCores⟩,
    shardedTiles .bfloat16 rfl, rfl, rfl, .tiled, .inr (by decide)⟩, rfl⟩
  have herror : (runAnalysis (fun layouts => layouts.insertionSort
      fun L L' => getGridVolume L' ≤ getGridVolume L) singleCoreInput namedOp).toOption.isNone =
        true := by rfl
  rw [hok] at herror
  cases herror

end LegalLayouts

end TTNN
