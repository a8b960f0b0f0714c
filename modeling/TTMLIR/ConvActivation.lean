/-
# Activations fused into convolutions

`TTNNFusing.cpp` stores the activation of a relu in the configuration of the convolution
before it.  The optimizer then replaces configurations: `LegalLayoutAnalysis.cpp` builds one
for each convolution with a name, and `Optimizer.cpp` writes it over the one that is there.

* `matchAndRewrite`, `FusingStep` : the fusion, and what the greedy driver does with it;
* `LegalLayoutAnalysisInput.run`, `applyConfig` : the analysis, and its application;
* `FusingStep.eval_eq` : the fusion keeps what a function computes;
* `survives_iff` : when both passes together keep configurations and activations.
-/
import TTMLIR.PassOverrides
import TTMLIR.OpConfig

open OverrideString PassOverrides SSA TTNN

namespace ConvActivation

/-! ## Configurations of convolutions -/

/-- The fields of `Conv2dConfigAttr`. -/
inductive Field : Type where
  | param (k : Conv2d.Param)
  | coreGrid
  deriving DecidableEq, Repr

/-- The values of a field. -/
abbrev Field.Value : Field → Type
  | .param .activation => Str
  | .param k => k.kind.Value
  | .coreGrid => List ((ℕ × ℕ) × (ℕ × ℕ))

/-- `Conv2dConfigAttr`: the fields that are present. -/
abbrev Conv2dConfigAttr : Type := (k : Field) → Option k.Value

/-- `Conv2dConfigOverrideParams`: the fields that an override sets. -/
abbrev Conv2dConfigOverrideParams : Type := (k : Field) → Option k.Value

/-- The attribute without fields. -/
def Conv2dConfigAttr.empty : Conv2dConfigAttr := fun _ => none

/-- `Conv2dConfigAttrParams`: absent fields are filled in. -/
def Conv2dConfigAttr.params (attr : Conv2dConfigAttr) : Conv2dConfigAttr
  | .param .dtype => some ((attr (.param .dtype)).getD .bfloat16)
  | .param .weightsDtype => some ((attr (.param .weightsDtype)).getD .bfloat16)
  | .param .activation => some ((attr (.param .activation)).getD [])
  | .param .deallocateActivation => some ((attr (.param .deallocateActivation)).getD false)
  | .param .reallocateHaloOutput => some ((attr (.param .reallocateHaloOutput)).getD false)
  | .param .actBlockHOverride => some ((attr (.param .actBlockHOverride)).getD (0 : UInt32))
  | .param .actBlockWDiv => some ((attr (.param .actBlockWDiv)).getD (1 : UInt32))
  | .param .reshardIfNotOptimal => some ((attr (.param .reshardIfNotOptimal)).getD false)
  | .param .overrideShardingConfig => some ((attr (.param .overrideShardingConfig)).getD false)
  | .param .shardLayout => some ((attr (.param .shardLayout)).getD .heightSharded)
  | .coreGrid => attr .coreGrid
  | .param .transposeShards => some ((attr (.param .transposeShards)).getD false)
  | .param .outputLayout => some ((attr (.param .outputLayout)).getD .tile)
  | .param .preprocessWeightsOnDevice =>
    some ((attr (.param .preprocessWeightsOnDevice)).getD false)
  | .param .alwaysPreprocessWeights => some ((attr (.param .alwaysPreprocessWeights)).getD false)
  | .param .enableActDoubleBuffer => some ((attr (.param .enableActDoubleBuffer)).getD false)
  | .param .enableWeightsDoubleBuffer =>
    some ((attr (.param .enableWeightsDoubleBuffer)).getD false)
  | .param .enableSplitReader => some ((attr (.param .enableSplitReader)).getD false)
  | .param .enableSubblockPadding => some ((attr (.param .enableSubblockPadding)).getD false)

/-- `Conv2dConfigAttr::withActivation`. -/
def Conv2dConfigAttr.withActivation (attr : Conv2dConfigAttr) (activation : Str) :
    Conv2dConfigAttr :=
  Function.update attr.params (.param .activation) (some activation)

/-- The activation of an optional attribute; absent and empty are none. -/
def activationOf (config : Option Conv2dConfigAttr) : Str :=
  (config.bind fun attr => attr (.param .activation)).getD []

/-- `srcOp.getConv2dConfig() && srcOp.getConv2dConfig()->hasActivation()`. -/
def hasActivation (config : Option Conv2dConfigAttr) : Bool := activationOf config ≠ []

/-- The attribute that `applyConv2dConfigOverrides` builds.  The data types are those of the
operands, whatever the override says. -/
def conv2dConfigOf (dtype weightsDtype : Option DataType)
    (overrides : Conv2dConfigOverrideParams) : Conv2dConfigAttr
  | .param .dtype => dtype
  | .param .weightsDtype => weightsDtype
  | .param .activation => some ((overrides (.param .activation)).getD [])
  | .param .deallocateActivation => some ((overrides (.param .deallocateActivation)).getD false)
  | .param .reallocateHaloOutput => some ((overrides (.param .reallocateHaloOutput)).getD true)
  | .param .actBlockHOverride => some ((overrides (.param .actBlockHOverride)).getD (0 : UInt32))
  | .param .actBlockWDiv => some ((overrides (.param .actBlockWDiv)).getD (1 : UInt32))
  | .param .reshardIfNotOptimal => some ((overrides (.param .reshardIfNotOptimal)).getD false)
  | .param .overrideShardingConfig =>
    some ((overrides (.param .overrideShardingConfig)).getD false)
  | .param .shardLayout => overrides (.param .shardLayout)
  | .coreGrid => overrides .coreGrid
  | .param .transposeShards => some ((overrides (.param .transposeShards)).getD false)
  | .param .outputLayout => some ((overrides (.param .outputLayout)).getD .tile)
  | .param .preprocessWeightsOnDevice =>
    some ((overrides (.param .preprocessWeightsOnDevice)).getD false)
  | .param .alwaysPreprocessWeights =>
    some ((overrides (.param .alwaysPreprocessWeights)).getD false)
  | .param .enableActDoubleBuffer =>
    some ((overrides (.param .enableActDoubleBuffer)).getD false)
  | .param .enableWeightsDoubleBuffer =>
    some ((overrides (.param .enableWeightsDoubleBuffer)).getD false)
  | .param .enableSplitReader => some ((overrides (.param .enableSplitReader)).getD false)
  | .param .enableSubblockPadding =>
    some ((overrides (.param .enableSubblockPadding)).getD false)

/-- **Fields that are not overridden get the default**, whatever else is overridden. -/
theorem conv2dConfigOf_eq_default {dtype weightsDtype : Option DataType}
    {overrides : Conv2dConfigOverrideParams} {k : Field} (h : overrides k = none) :
    conv2dConfigOf dtype weightsDtype overrides k =
      conv2dConfigOf dtype weightsDtype (fun _ => none) k := by
  rcases k with k | _
  · cases k with
    | dtype | weightsDtype => rfl
    | _ => simp only [conv2dConfigOf, h]
  · exact h

/-! ## Functions -/

/-- `MemoryConfigAttr`. -/
structure MemoryConfigAttr : Type where
  bufferType : BufferType
  shardShape : List ℕ
  memLayout : Option TensorMemoryLayout
  deriving DecidableEq

/-- The operations the two passes tell apart.  Other attributes are kept as they are printed;
`other` says whether the operation is of the TTNN dialect. -/
inductive OpKind : Type where
  | conv2d (attrs : String) (config : Option Conv2dConfigAttr)
  | relu
  | reshape (attrs : String)
  | empty (attrs : String)
  | toLayout (attrs : String) (memoryConfig : Option MemoryConfigAttr)
  | other (ttnn : Bool) (name : String)

/-- What an operation is, and the name of its location when it is a `NameLoc`. -/
structure OpName : Type where
  loc : Option Str
  kind : OpKind

abbrev Op : Type := Operation OpName ValueType

namespace OpKind

def isRelu : OpKind → Bool
  | relu => true
  | _ => false

def isReshape : OpKind → Bool
  | reshape _ => true
  | _ => false

/-- `isa<TTNNDialect>(op->getDialect())`. -/
def isTTNN : OpKind → Bool
  | other ttnn _ => ttnn
  | _ => true

/-- `cantChangeOutputLayout`. -/
def cantChangeOutputLayout : OpKind → Bool
  | empty _ | toLayout _ _ => true
  | kind => !kind.isTTNN

end OpKind

/-- The only result of an operation, or its first one. -/
def resultOf (op : Op) : Value := .opResult op.id 0

/-- The users of a value, one for each use; `none` is the terminator. -/
def users (b : Block OpName ValueType) (v : Value) : List (Option Op) :=
  (b.ops.flatMap fun op => (op.operands.filter fun w => w = v).map fun _ => some op) ++
    (b.returns.filter fun w => w = v).map fun _ => none

/-- `allUsersOfType`. -/
def allUsersOfType (p : OpKind → Bool) (b : Block OpName ValueType) (v : Value) : Bool :=
  (users b v).all fun
    | some op => p op.name.kind
    | none => false

/-- `v.hasOneUse()`. -/
def hasOneUse (b : Block OpName ValueType) (v : Value) : Bool := (users b v).length = 1

/-- `*v.getUsers().begin()`, unless it is the terminator. -/
def firstUser (b : Block OpName ValueType) (v : Value) : Option Op := (users b v).head?.join

/-- What the verifiers of the operations check. -/
structure Verified (b : Block OpName ValueType) : Prop extends b.WellFormed where
  conv2d : ∀ op ∈ b.ops, ∀ attrs config, op.name.kind = .conv2d attrs config →
    ∃ type, op.resultTypes = [some type]
  relu : ∀ op ∈ b.ops, op.name.kind = .relu →
    op.operands.length = 1 ∧ op.numResults = 1
  reshape : ∀ op ∈ b.ops, ∀ attrs, op.name.kind = .reshape attrs →
    op.operands.length = 1 ∧ op.numResults = 1

/-! ## The fusion -/

/-- `TTNNConv2dWithActivation::isFusable`. -/
def isFusable (b : Block OpName ValueType) (srcOp : Op) (config : Option Conv2dConfigAttr) :
    Bool :=
  if hasActivation config then false
  else if !hasOneUse b (resultOf srcOp) then false
  else if allUsersOfType OpKind.isRelu b (resultOf srcOp) then true
  else if !allUsersOfType OpKind.isReshape b (resultOf srcOp) then false
  else match firstUser b (resultOf srcOp) with
    | none => false
    | some reshapeOp =>
      hasOneUse b (resultOf reshapeOp) && allUsersOfType OpKind.isRelu b (resultOf reshapeOp)

/-- `TTNNConv2dWithActivation::getReluOp`. -/
def getReluOp (b : Block OpName ValueType) (srcOp : Op) : Option Op :=
  if allUsersOfType OpKind.isRelu b (resultOf srcOp) then firstUser b (resultOf srcOp)
  else (firstUser b (resultOf srcOp)).bind fun reshapeOp => firstUser b (resultOf reshapeOp)

/-- `srcOp.setConv2dConfigAttr(config)`. -/
def setConv2dConfigAttr (srcOp : Op) (attrs : String) (config : Conv2dConfigAttr) (op : Op) : Op :=
  if op.id = srcOp.id then { op with name := { op.name with kind := .conv2d attrs (some config) } }
  else op

/-- Uses of one value become uses of another. -/
def redirect (old new v : Value) : Value := if v = old then new else v

/-- `TTNNConv2dWithActivation::matchAndRewrite`. -/
def matchAndRewrite (b : Block OpName ValueType) (srcOp : Op) : Option (Block OpName ValueType) :=
  match srcOp.name.kind with
  | .conv2d attrs config =>
    if !isFusable b srcOp config then none
    else match getReluOp b srcOp with
      | none => none
      | some reluOp => reluOp.operands.head?.map fun reluInput =>
        Block.replaceUses (redirect (resultOf reluOp) reluInput)
          { b with ops := b.ops.map (setConv2dConfigAttr srcOp attrs
              ((config.getD .empty).withActivation "relu".toList)) }
  | _ => none

/-- `applyPatternsGreedily` applies the pattern somewhere, or erases an operation without
users. -/
inductive FusingStep : Block OpName ValueType → Block OpName ValueType → Prop where
  | rewrite {b b' : Block OpName ValueType} {srcOp : Op} (mem : srcOp ∈ b.ops)
      (result : matchAndRewrite b srcOp = some b') : FusingStep b b'
  | erase {b : Block OpName ValueType} {op : Op} (mem : op ∈ b.ops)
      (dead : ∀ v ∈ op.results, users b v = []) :
      FusingStep b { b with ops := b.ops.filter fun o => o.id ≠ op.id }

/-! ## The analysis -/

/-- `OpConfig`. -/
structure OpConfig : Type where
  outputLayout : TTNNLayoutAttr
  opSpecificAttr : Option Conv2dConfigAttr

/-- `TensorPageLayout`. -/
inductive TensorPageLayout : Type where
  | rowMajor
  | tiled
  deriving DecidableEq, Repr

/-- `TensorLayoutsForPageLayout`: the layouts for one page layout. -/
structure PageLayouts : Type where
  interleaved : List TTNNLayoutAttr
  sharded : List TTNNLayoutAttr

/-- `LegalLayoutAnalysisInput`, with the layouts of all types. -/
structure LegalLayoutAnalysisInput : Type where
  possibleLayouts : RankedTensorType → DataType → Option (TensorPageLayout → PageLayouts)
  maxShardedConfigs : ℕ
  outputLayoutOverrides : Str → Option OutputLayout.OutputLayoutOverrideParams
  conv2dConfigOverrides : Str → Option Conv2dConfigOverrideParams
  rowMajorEnabled : Bool

/-- The type of a value. -/
def getType (argTypes : List ValueType) (b : Block OpName ValueType) : Value → ValueType
  | .blockArg n => argTypes[n]?.join
  | .opResult id k => ((b.ops.find? fun op => op.id = id).bind fun op => op.resultTypes[k]?).join

/-- `elementTypeToDataType` of the type of an operand. -/
def operandDataType (argTypes : List ValueType) (b : Block OpName ValueType) (op : Op) (i : ℕ) :
    Option DataType :=
  (op.operands[i]?.bind (getType argTypes b)).map fun type => type.encoding.getScalarElementType

/-- `applyConv2dConfigOverrides`. -/
def applyConv2dConfigOverrides (argTypes : List ValueType) (b : Block OpName ValueType) (op : Op)
    (overrides : Conv2dConfigOverrideParams) (analysisResult : List OpConfig) : List OpConfig :=
  analysisResult.map fun opConfig =>
    { opConfig with opSpecificAttr := some (conv2dConfigOf (operandDataType argTypes b op 0)
        (operandDataType argTypes b op 1) overrides) }

/-- `override.memoryLayout`. -/
def memoryLayoutOf (override : OutputLayout.OutputLayoutOverrideParams) :
    Option PassOverrides.Layout :=
  override .memoryLayout

/-- `incompatibleWithOverride`. -/
def incompatibleWithOverride (layout : TTNNLayoutAttr)
    (override : OutputLayout.OutputLayoutOverrideParams) : Bool :=
  (override .grid).any (fun grid => layout.grid.map (fun n : ℕ => (n : ℤ)) ≠
      [grid.1.val, grid.2.val])
    || (override .bufferType).any (fun bufferType => layout.getBufferType ≠ bufferType)
    || (override .tensorMemoryLayout).any (fun memLayout => layout.memLayout ≠ some memLayout)
    || (memoryLayoutOf override).any (fun memoryLayout =>
        layout.isTiled ≠ decide (memoryLayout = .tile))

namespace LegalLayoutAnalysisInput

variable (input : LegalLayoutAnalysisInput) (argTypes : List ValueType)
  (b : Block OpName ValueType)

/-- The override of the configuration of an operation with a name; the default has no fields. -/
def conv2dOverride (name : Str) : Conv2dConfigOverrideParams :=
  (input.conv2dConfigOverrides name).getD fun _ => none

/-- The last step of the analysis, for convolutions with a name. -/
def overrideConv2d (op : Op) (analysisResult : List OpConfig) : List OpConfig :=
  match op.name.loc, op.name.kind with
  | some name, .conv2d _ _ =>
    applyConv2dConfigOverrides argTypes b op (input.conv2dOverride name) analysisResult
  | _, _ => analysisResult

/-- `LegalLayoutAnalysis::applyOverrides`, or nothing where it returns false. -/
def applyOverrides (op : Op) (type : RankedTensorType) : Checked (Option (List OpConfig)) :=
  match op.name.loc.bind input.outputLayoutOverrides with
  | none => .ok none
  | some override =>
    match override .grid, override .bufferType, override .tensorMemoryLayout,
        memoryLayoutOf override with
    | some grid, some bufferType, some memLayout, some memoryLayout =>
      let elementType := (override .dataType).getD type.encoding.getScalarElementType
      match TTNNLayoutAttr.get type.shape
        (if memoryLayout = .tile then .tile (.get elementType) else .scalar elementType)
        bufferType [grid.1.val.toNat, grid.2.val.toNat] (some memLayout) [(0, -1)] with
      | .error message => .error (.assertion message)
      | .ok layout => .ok (some (overrideConv2d input argTypes b op [⟨layout, none⟩]))
    | _, _, _, _ => .ok none

/-- Layouts from the largest grid down. -/
def sortByGridVolume (layouts : List TTNNLayoutAttr) : List TTNNLayoutAttr :=
  layouts.mergeSort fun a b => b.getGridVolume ≤ a.getGridVolume

/-- The layouts of `analysisImplementation` before they are filtered. -/
def collectLayouts (rowMajorAllowed : Bool) (layouts : TensorPageLayout → PageLayouts) :
    List TTNNLayoutAttr :=
  let maxShardedConfigs :=
    if rowMajorAllowed then input.maxShardedConfigs / 2 else input.maxShardedConfigs
  let rowMajor : PageLayouts := if rowMajorAllowed then layouts .rowMajor else ⟨[], []⟩
  let shardedLayouts := (sortByGridVolume rowMajor.sharded).take maxShardedConfigs ++
    (sortByGridVolume (layouts .tiled).sharded).take maxShardedConfigs
  rowMajor.interleaved ++ (layouts .tiled).interleaved ++ sortByGridVolume shardedLayouts

/-- `LegalLayoutAnalysis::analysisImplementation` for an operation with a tensor. -/
def analysisImplementation (op : Op) (type : RankedTensorType) : Checked (List OpConfig) :=
  if op.name.kind.cantChangeOutputLayout then .ok [⟨type.encoding, none⟩]
  else
    let override := op.name.loc.bind input.outputLayoutOverrides
    let scalarElementType :=
      (override.bind fun params => params .dataType).getD type.encoding.getScalarElementType
    let rowMajorAllowed := input.rowMajorEnabled ||
      decide (override.bind memoryLayoutOf = some .rowMajor)
    match input.possibleLayouts type scalarElementType with
    | none => .error (.assertion "Scalar type not found in all possible layouts")
    | some layouts =>
      let legal := (input.collectLayouts rowMajorAllowed layouts).filter fun layout =>
        !override.any (incompatibleWithOverride layout)
      let analysisResult := overrideConv2d input argTypes b op (legal.map (⟨·, none⟩))
      if analysisResult.isEmpty then .error (.assertion "At least one legal layout must be found.")
      else .ok analysisResult

/-- The legal configurations of an operation. -/
def run (op : Op) (type : RankedTensorType) : Checked (List OpConfig) :=
  (applyOverrides input argTypes b op type).bind fun
    | some analysisResult => .ok analysisResult
    | none => analysisImplementation input argTypes b op type

end LegalLayoutAnalysisInput

/-- The type of the operations that the optimizer looks at. -/
def analysedType (constEval : Bool) (op : Op) : Option RankedTensorType :=
  if constEval then none
  else match op.name.kind with
    | .empty _ => none
    | _ => op.resultTypes.head?.join

/-- `MemoryConfigAttr::get` for a layout. -/
def memoryConfigOf (layout : TTNNLayoutAttr) : MemoryConfigAttr :=
  ⟨layout.getBufferType, layout.memref.shape, layout.memLayout⟩

/-- The application of a chosen configuration.  No operation of the dialect is in
destination-passing style. -/
def applyConfig (constEval : Bool) (chosen : ℕ → Option OpConfig) (op : Op) : Op :=
  match analysedType constEval op, chosen op.id with
  | some type, some config =>
    { op with
      resultTypes := op.resultTypes.set 0 (some ⟨type.shape, config.outputLayout⟩)
      name := { op.name with
        kind := match op.name.kind with
          | .toLayout attrs _ => .toLayout attrs (some (memoryConfigOf config.outputLayout))
          | .conv2d attrs conv2dConfig =>
            .conv2d attrs (config.opSpecificAttr.or conv2dConfig)
          | kind => kind } }
  | _, _ => op

/-- A function that both passes are run on, with the choice that is made among the legal
configurations.  The analysis ends without a failed assertion for every operation. -/
structure Compilation : Type where
  input : LegalLayoutAnalysisInput
  constEval : Bool
  argTypes : List ValueType
  source : Block OpName ValueType
  verified : Verified source
  fused : Block OpName ValueType
  fuses : Relation.ReflTransGen FusingStep source fused
  chosen : ℕ → Option OpConfig
  chosen_mem : ∀ op ∈ fused.ops, ∀ type, analysedType constEval op = some type →
    ∃ configs, input.run argTypes fused op type = .ok configs ∧
      ∃ config ∈ configs, chosen op.id = some config

/-- The function that both passes leave. -/
def Compilation.optimized (c : Compilation) : Block OpName ValueType :=
  { c.fused with ops := c.fused.ops.map (applyConfig c.constEval c.chosen) }

/-! ## What the passes should keep -/

/-- What operations compute.  A convolution applies the activation that its configuration
names, and a relu of a reshaped value is the reshaped relu. -/
structure Semantics (α : Type) : Type where
  conv2d : String → List α → α
  activate : Str → α → α
  relu : α → α
  reshape : String → α → α
  empty : String → List α → α
  toLayout : String → List α → α
  other : Bool → String → List α → ℕ → α
  activate_nil : ∀ x, activate [] x = x
  activate_relu : ∀ x, activate "relu".toList x = relu x
  relu_reshape : ∀ attrs x, relu (reshape attrs x) = reshape attrs (relu x)

/-- The results of an operation. -/
def Semantics.sem {α : Type} (S : Semantics α) : Sem OpName α := fun name vs k =>
  match name.kind with
  | .conv2d attrs config => some (S.activate (activationOf config) (S.conv2d attrs vs))
  | .relu => vs.head?.map S.relu
  | .reshape attrs => vs.head?.map (S.reshape attrs)
  | .empty attrs => some (S.empty attrs vs)
  | .toLayout attrs _ => some (S.toLayout attrs vs)
  | .other ttnn mnemonic => some (S.other ttnn mnemonic vs k)

namespace Compilation

variable (c : Compilation)

/-- What an override sets for an operation: operations without a name have none. -/
def overrideOf (op : Op) : Conv2dConfigOverrideParams :=
  (op.name.loc.map c.input.conv2dOverride).getD fun _ => none

/-- What the analysis takes for fields that are not set. -/
def defaults (op : Op) : Conv2dConfigAttr :=
  conv2dConfigOf (operandDataType c.argTypes c.fused op 0)
    (operandDataType c.argTypes c.fused op 1) fun _ => none

/-- The value of a field: what is present, or what the analysis takes for it. -/
def fieldValue (op : Op) (config : Option Conv2dConfigAttr) (k : Field) : Option k.Value :=
  (config.bind fun attr => attr k).or (c.defaults op k)

/-- **Configurations survive**: an override changes the fields that it sets and no other, and
the function computes what it did before both passes unless an override sets another
activation. -/
structure Survives : Prop where
  fieldsKept : ∀ op ∈ c.fused.ops, ∀ attrs config, op.name.kind = .conv2d attrs config →
    ∃ op' ∈ c.optimized.ops, op'.id = op.id ∧
      ∃ config', op'.name.kind = .conv2d attrs config' ∧
        ∀ k, c.overrideOf op k = none → c.fieldValue op config' k = c.fieldValue op config k
  meaning : (∀ op ∈ c.fused.ops, ∀ attrs config, op.name.kind = .conv2d attrs config →
      ∀ activation : Str, c.overrideOf op (.param .activation) = some activation →
        activation = activationOf config) →
    ∀ (α : Type) (S : Semantics α) (args : List α), args.length = c.source.numArgs →
      c.optimized.eval S.sem args = c.source.eval S.sem args

/-- The fields that are present in the configuration of a convolution with a name are those
that the analysis takes, where no override sets them. -/
def PresentFieldsDefault : Prop :=
  c.constEval = false → ∀ op ∈ c.fused.ops, op.name.loc.isSome → ∀ attrs config,
    op.name.kind = .conv2d attrs (some config) → ∀ k, c.overrideOf op k = none →
      ∀ v, config k = some v → c.defaults op k = some v

end Compilation

/-! ## Users -/

variable {b b' : Block OpName ValueType} {v : Value} {op : Op}

theorem some_mem_users : some op ∈ users b v ↔ op ∈ b.ops ∧ v ∈ op.operands := by
  simp only [users, List.mem_append, List.mem_flatMap, List.mem_map, List.mem_filter,
    decide_eq_true_eq]
  constructor
  · rintro (⟨o, ho, w, ⟨hw, rfl⟩, heq⟩ | ⟨w, -, heq⟩)
    · obtain rfl := Option.some.inj heq
      exact ⟨ho, hw⟩
    · cases heq
  · rintro ⟨hop, hv⟩
    exact Or.inl ⟨op, hop, v, ⟨hv, rfl⟩, rfl⟩

theorem none_mem_users : none ∈ users b v ↔ v ∈ b.returns := by
  simp [users]

/-- **A value with one user**: no other operation reads it, and it is not returned. -/
structure OnlyUser (b : Block OpName ValueType) (v : Value) (op : Op) : Prop where
  mem : op ∈ b.ops
  reads : v ∈ op.operands
  only : ∀ o ∈ b.ops, v ∈ o.operands → o = op
  not_returned : v ∉ b.returns

/-- The checks on users find the only user. -/
theorem exists_onlyUser {p : OpKind → Bool} (hone : hasOneUse b v = true)
    (hall : allUsersOfType p b v = true) :
    ∃ op, firstUser b v = some op ∧ OnlyUser b v op ∧ p op.name.kind = true := by
  obtain ⟨user, husers⟩ := List.length_eq_one_iff.mp (of_decide_eq_true hone)
  rw [allUsersOfType, husers, List.all_cons, Bool.and_eq_true] at hall
  cases user with
  | none => exact absurd hall.1 (by simp)
  | some op =>
    have hop : some op ∈ users b v := by simp [husers]
    refine ⟨op, by rw [firstUser, husers]; rfl, ⟨(some_mem_users.mp hop).1,
      (some_mem_users.mp hop).2, ?_, ?_⟩, hall.1⟩
    · intro o ho hv
      have hmem := some_mem_users.mpr ⟨ho, hv⟩
      rw [husers, List.mem_singleton] at hmem
      exact Option.some.inj hmem
    · intro hreturn
      have hmem := none_mem_users.mpr hreturn
      rw [husers, List.mem_singleton] at hmem
      cases hmem

/-! ## What is fused -/

/-- **A relu that a convolution takes over**: it reads the convolution, or a reshape of the
convolution, and nothing else does. -/
structure Fusion (b : Block OpName ValueType) (srcOp reluOp : Op) (reluInput : Value) : Prop where
  relu_mem : reluOp ∈ b.ops
  relu_kind : reluOp.name.kind = .relu
  relu_operands : reluOp.operands = [reluInput]
  relu_user : OnlyUser b reluInput reluOp
  path : reluInput = resultOf srcOp ∨
    ∃ reshapeOp attrs, reshapeOp.name.kind = .reshape attrs ∧
      reshapeOp.operands = [resultOf srcOp] ∧ reluInput = resultOf reshapeOp ∧
        OnlyUser b (resultOf srcOp) reshapeOp

theorem kind_of_isRelu {kind : OpKind} (h : kind.isRelu = true) : kind = .relu := by
  cases kind with
  | relu => rfl
  | _ => cases h

theorem kind_of_isReshape {kind : OpKind} (h : kind.isReshape = true) :
    ∃ attrs, kind = .reshape attrs := by
  cases kind with
  | reshape attrs => exact ⟨attrs, rfl⟩
  | _ => cases h

theorem operands_eq_singleton (hlen : op.operands.length = 1) (hv : v ∈ op.operands) :
    op.operands = [v] := by
  obtain ⟨w, hw⟩ := List.length_eq_one_iff.mp hlen
  rw [hw, List.mem_singleton] at hv
  rw [hw, hv]

/-- **What `matchAndRewrite` does.** -/
theorem matchAndRewrite_spec (hb : Verified b) {srcOp : Op}
    (h : matchAndRewrite b srcOp = some b') :
    ∃ attrs config reluOp reluInput, srcOp.name.kind = .conv2d attrs config ∧
      hasActivation config = false ∧ Fusion b srcOp reluOp reluInput ∧
        b' = Block.replaceUses (redirect (resultOf reluOp) reluInput)
          { b with ops := b.ops.map (setConv2dConfigAttr srcOp attrs
              ((config.getD .empty).withActivation "relu".toList)) } := by
  unfold matchAndRewrite at h
  split at h
  · next attrs config hkind =>
      split_ifs at h with hfusable
      rw [Bool.not_eq_true', Bool.not_eq_false] at hfusable
      have hresult : ∀ reluOp reluInput, getReluOp b srcOp = some reluOp →
          reluOp.operands = [reluInput] → b' =
            Block.replaceUses (redirect (resultOf reluOp) reluInput)
              { b with ops := b.ops.map (setConv2dConfigAttr srcOp attrs
                  ((config.getD .empty).withActivation "relu".toList)) } := by
        intro reluOp reluInput hget hoperands
        rw [hget] at h
        simp only [hoperands] at h
        exact (Option.some.inj h).symm
      unfold isFusable at hfusable
      split_ifs at hfusable with hactivation hone hrelu hreshape
      · -- the relu reads the convolution
        rw [Bool.not_eq_true', Bool.not_eq_false] at hone
        obtain ⟨reluOp, hfirst, huser, hkind'⟩ := exists_onlyUser hone hrelu
        have hrelu' := kind_of_isRelu hkind'
        have hoperands := operands_eq_singleton (hb.relu reluOp huser.mem hrelu').1 huser.reads
        have hget : getReluOp b srcOp = some reluOp := by rw [getReluOp, if_pos hrelu, hfirst]
        exact ⟨attrs, config, reluOp, _, hkind, by simpa using hactivation,
          ⟨huser.mem, hrelu', hoperands, huser, Or.inl rfl⟩, hresult _ _ hget hoperands⟩
      · -- the relu reads a reshape of the convolution
        rw [Bool.not_eq_true', Bool.not_eq_false] at hone hreshape
        obtain ⟨reshapeOp, hfirst, huser, hkind'⟩ := exists_onlyUser hone hreshape
        obtain ⟨reshapeAttrs, hreshape'⟩ := kind_of_isReshape hkind'
        rw [hfirst] at hfusable
        simp only [Bool.and_eq_true] at hfusable
        obtain ⟨reluOp, hfirst', huser', hkind''⟩ := exists_onlyUser hfusable.1 hfusable.2
        have hrelu' := kind_of_isRelu hkind''
        have hoperands := operands_eq_singleton (hb.relu reluOp huser'.mem hrelu').1 huser'.reads
        have hinput := operands_eq_singleton
          (hb.reshape reshapeOp huser.mem reshapeAttrs hreshape').1 huser.reads
        have hget : getReluOp b srcOp = some reluOp := by
          rw [getReluOp, if_neg hrelu, hfirst]
          exact hfirst'
        exact ⟨attrs, config, reluOp, _, hkind, by simpa using hactivation,
          ⟨huser'.mem, hrelu', hoperands, huser',
            Or.inr ⟨reshapeOp, reshapeAttrs, hreshape', hinput, rfl, huser⟩⟩,
          hresult _ _ hget hoperands⟩
  · cases h

/-! ## The fusion keeps functions well formed -/

/-- Operations with the results they had are scoped when their operands are visible. -/
theorem scoped_map_of_operands {visible : List Value} {ops : List Op} {F : Op → Op}
    (hresults : ∀ op, (F op).results = op.results)
    (hoperands : ∀ pre op post, ops = pre ++ op :: post → ∀ v ∈ (F op).operands,
      v ∈ visible ++ pre.flatMap Operation.results) : Scoped visible (ops.map F) := by
  induction ops generalizing visible with
  | nil => trivial
  | cons op ops ih =>
    rw [List.map_cons]
    refine ⟨fun v hv => by simpa using hoperands [] op ops rfl v hv, ih ?_⟩
    intro pre o post hops v hv
    have h := hoperands (op :: pre) o post (by rw [hops, List.cons_append]) v hv
    rw [hresults, List.append_assoc]
    rwa [List.flatMap_cons] at h

section Rewrite

variable (srcOp : Op) (attrs : String) (config : Conv2dConfigAttr) (g : Value → Value)

/-- An operation after the rewrite. -/
def rewritten (op : Op) : Op := (setConv2dConfigAttr srcOp attrs config op).mapOperands g

theorem rewritten_id (op : Op) : (rewritten srcOp attrs config g op).id = op.id := by
  unfold rewritten setConv2dConfigAttr
  split_ifs <;> rfl

theorem rewritten_operands (op : Op) :
    (rewritten srcOp attrs config g op).operands = op.operands.map g := by
  unfold rewritten setConv2dConfigAttr
  split_ifs <;> rfl

theorem rewritten_resultTypes (op : Op) :
    (rewritten srcOp attrs config g op).resultTypes = op.resultTypes := by
  unfold rewritten setConv2dConfigAttr
  split_ifs <;> rfl

theorem rewritten_results (op : Op) : (rewritten srcOp attrs config g op).results = op.results := by
  rw [Operation.results, Operation.results, Operation.numResults, Operation.numResults,
    rewritten_id, rewritten_resultTypes]

theorem rewritten_kind_of_ne (h : op.id ≠ srcOp.id) :
    (rewritten srcOp attrs config g op).name = op.name := by
  unfold rewritten setConv2dConfigAttr
  rw [if_neg h]
  rfl

theorem rewritten_kind_self :
    (rewritten srcOp attrs config g srcOp).name.kind = .conv2d attrs (some config) := by
  unfold rewritten setConv2dConfigAttr
  rw [if_pos rfl]
  rfl

theorem replaceUses_ops : (Block.replaceUses g
        { b with ops := b.ops.map (setConv2dConfigAttr srcOp attrs config) }).ops =
      b.ops.map (rewritten srcOp attrs config g) := by
  rw [Block.replaceUses, List.map_map]
  rfl

end Rewrite

/-- An operand is visible wherever the result is. -/
theorem mem_scope_of_result {numArgs : ℕ} {ops pre post : List Op}
    (hnodup : (ops.map Operation.id).Nodup) (hscoped : Scoped (entryScope numArgs) ops)
    (hop : op ∈ ops) (hops : ops = pre ++ post) {k : ℕ}
    (hresult : Value.opResult op.id k ∈ scope numArgs pre) (hv : v ∈ op.operands) :
    v ∈ scope numArgs pre := by
  obtain ⟨o, ho, hid, -⟩ := opResult_mem_scope.mp hresult
  obtain rfl : o = op := eq_of_id_eq hnodup (by simp [hops, ho]) hop hid.symm
  obtain ⟨p, q, rfl⟩ := List.append_of_mem ho
  rw [hops, List.append_assoc] at hscoped
  have hmem := hscoped.operands_mem v hv
  rw [scope, List.mem_append] at hmem ⊢
  rw [List.flatMap_append]
  exact hmem.imp id fun h => List.mem_append_left _ h

variable {srcOp reluOp : Op} {reluInput : Value} {attrs : String}
  {config : Option Conv2dConfigAttr}

/-- **A rewritten function is well formed.** -/
theorem Fusion.verified (hfusion : Fusion b srcOp reluOp reluInput) (hb : Verified b)
    (hsrc : srcOp ∈ b.ops) (hkind : srcOp.name.kind = .conv2d attrs config)
    (config' : Conv2dConfigAttr) :
    Verified (Block.replaceUses (redirect (resultOf reluOp) reluInput)
      { b with ops := b.ops.map (setConv2dConfigAttr srcOp attrs config') }) := by
  set g := redirect (resultOf reluOp) reluInput with hg
  have hvisible : ∀ pre post, b.ops = pre ++ post → ∀ v ∈ scope b.numArgs pre,
      g v ∈ scope b.numArgs pre := by
    intro pre post hops v hv
    rw [hg, redirect]
    split_ifs with heq
    · rw [heq] at hv
      exact mem_scope_of_result hb.nodup hb.dominated hfusion.relu_mem hops hv
        (by simp [hfusion.relu_operands])
    · exact hv
  have hback : ∀ op' ∈ b.ops.map (rewritten srcOp attrs config' g), ∃ op ∈ b.ops,
      op' = rewritten srcOp attrs config' g op ∧ (op = srcOp ∨ op'.name = op.name) := by
    intro op' hop'
    obtain ⟨op, hop, rfl⟩ := List.mem_map.mp hop'
    refine ⟨op, hop, rfl, ?_⟩
    by_cases hid : op.id = srcOp.id
    · exact Or.inl (eq_of_id_eq hb.nodup hop hsrc hid)
    · exact Or.inr (rewritten_kind_of_ne srcOp attrs config' g hid)
  constructor
  · constructor
    · rw [replaceUses_ops, List.map_map]
      have hids : Operation.id ∘ rewritten srcOp attrs config' g = Operation.id := by
        funext op
        exact rewritten_id srcOp attrs config' g op
      rw [hids]
      exact hb.nodup
    · rw [replaceUses_ops]
      refine scoped_map_of_operands (rewritten_results srcOp attrs config' g) ?_
      intro pre op post hops v hv
      rw [rewritten_operands] at hv
      obtain ⟨w, hw, rfl⟩ := List.mem_map.mp hv
      exact hvisible pre (op :: post) hops w
        ((hops ▸ hb.dominated : Scoped _ (pre ++ op :: post)).operands_mem w hw)
    · intro v hv
      obtain ⟨w, hw, rfl⟩ := List.mem_map.mp hv
      have hscope := hvisible b.ops [] (by simp) w (hb.returns_mem w hw)
      rw [replaceUses_ops, scope, List.flatMap_map]
      simp only [rewritten_results]
      exact hscope
  · intro op' hop' attrs' config'' hkind'
    rw [replaceUses_ops] at hop'
    obtain ⟨op, hop, rfl, rfl | hname⟩ := hback op' hop'
    · rw [rewritten_resultTypes]
      exact hb.conv2d op hop _ _ hkind
    · rw [rewritten_resultTypes]
      exact hb.conv2d op hop _ _ (hname ▸ hkind')
  · intro op' hop' hkind'
    rw [replaceUses_ops] at hop'
    obtain ⟨op, hop, rfl, rfl | hname⟩ := hback op' hop'
    · rw [rewritten_kind_self] at hkind'
      cases hkind'
    · rw [rewritten_operands, List.length_map, Operation.numResults, rewritten_resultTypes]
      exact hb.relu op hop (hname ▸ hkind')
  · intro op' hop' attrs' hkind'
    rw [replaceUses_ops] at hop'
    obtain ⟨op, hop, rfl, rfl | hname⟩ := hback op' hop'
    · rw [rewritten_kind_self] at hkind'
      cases hkind'
    · rw [rewritten_operands, List.length_map, Operation.numResults, rewritten_resultTypes]
      exact hb.reshape op hop attrs' (hname ▸ hkind')

/-- **An erased operation leaves a well-formed function.** -/
theorem Verified.erase (hb : Verified b) (hop : op ∈ b.ops)
    (hdead : ∀ v ∈ op.results, users b v = []) :
    Verified { b with ops := b.ops.filter fun o => o.id ≠ op.id } := by
  have hmem : ∀ o ∈ b.ops.filter (fun o => o.id ≠ op.id), o ∈ b.ops :=
    fun o ho => (List.mem_filter.mp ho).1
  have hkeep : ∀ pre post, b.ops = pre ++ post → ∀ v ∈ scope b.numArgs pre, v ∉ op.results →
      v ∈ scope b.numArgs (pre.filter fun o => o.id ≠ op.id) := by
    intro pre post hops v hv hnot
    rw [scope, List.mem_append] at hv ⊢
    refine hv.imp id fun hv => ?_
    obtain ⟨o, ho, hvo⟩ := List.mem_flatMap.mp hv
    refine List.mem_flatMap.mpr ⟨o, List.mem_filter.mpr ⟨ho, ?_⟩, hvo⟩
    rw [decide_eq_true_eq]
    intro hid
    exact hnot (eq_of_id_eq hb.nodup (by simp [hops, ho]) hop hid ▸ hvo)
  constructor
  · constructor
    · exact hb.nodup.sublist (List.filter_sublist.map _)
    · have hscoped := @scoped_filter_map_of_before _ _ (entryScope b.numArgs) b.ops id
        (fun o => o.id ≠ op.id) ?_
      · rwa [show Operation.mapOperands (id : Value → Value) = (id : Op → Op) from ?_,
          List.map_id] at hscoped
        funext o
        rw [Operation.mapOperands, List.map_id]
        rfl
      · intro pre o post hops _ v hv
        refine hkeep pre (o :: post) hops v
          ((hops ▸ hb.dominated : Scoped _ (pre ++ o :: post)).operands_mem v hv) fun hres => ?_
        have huser : some o ∈ users b v := some_mem_users.mpr ⟨by simp [hops], hv⟩
        rw [hdead v hres] at huser
        cases huser
    · intro v hv
      refine hkeep b.ops [] (by simp) v (hb.returns_mem v hv) fun hres => ?_
      have huser : none ∈ users b v := none_mem_users.mpr hv
      rw [hdead v hres] at huser
      cases huser
  · exact fun o ho => hb.conv2d o (hmem o ho)
  · exact fun o ho => hb.relu o (hmem o ho)
  · exact fun o ho => hb.reshape o (hmem o ho)

theorem FusingStep.verified (hstep : FusingStep b b') (hb : Verified b) :
    Verified b' ∧ b'.numArgs = b.numArgs := by
  cases hstep with
  | rewrite hmem hresult =>
    obtain ⟨attrs, config, reluOp, reluInput, hkind, -, hfusion, rfl⟩ :=
      matchAndRewrite_spec hb hresult
    exact ⟨hfusion.verified hb hmem hkind _, rfl⟩
  | erase hmem hdead => exact ⟨hb.erase hmem hdead, rfl⟩

/-- **The fusion keeps functions well formed.** -/
theorem verified_of_fuses (hfuses : Relation.ReflTransGen FusingStep b b') (hb : Verified b) :
    Verified b' ∧ b'.numArgs = b.numArgs := by
  induction hfuses with
  | refl => exact ⟨hb, rfl⟩
  | tail _ hstep ih =>
    obtain ⟨hverified, hnum⟩ := hstep.verified ih.1
    exact ⟨hverified, hnum.trans ih.2⟩

/-! ## The fusion keeps what functions compute -/

variable {config : Option Conv2dConfigAttr}

section Meaning

variable {α : Type} (S : Semantics α)

/-- Verified operations have results on all operand values. -/
theorem sem_isSome (hb : Verified b) : ∀ op ∈ b.ops, ∀ vs : List α,
    vs.length = op.operands.length → ∀ k < op.numResults, (S.sem op.name vs k).isSome := by
  intro op hop vs hlen k _
  have hhead : op.operands.length = 1 → ∃ x, vs.head? = some x := by
    intro hone
    obtain ⟨x, hx⟩ := List.length_eq_one_iff.mp (hlen.trans hone)
    exact ⟨x, by rw [hx]; rfl⟩
  unfold Semantics.sem
  split
  · rfl
  · next hkind =>
      obtain ⟨x, hx⟩ := hhead (hb.relu op hop hkind).1
      rw [hx]
      rfl
  · next attrs hkind =>
      obtain ⟨x, hx⟩ := hhead (hb.reshape op hop attrs hkind).1
      rw [hx]
      rfl
  · rfl
  · rfl
  · rfl

variable {args : List α}

/-- **A function computes the values that satisfy its equations.** -/
theorem exists_values (hb : Verified b) (hargs : args.length = b.numArgs) :
    ∃ ρ : Value → α, (∀ n < b.numArgs, args[n]? = some (ρ (.blockArg n))) ∧
      Solves S.sem b.ops ρ := by
  have : Inhabited α := ⟨S.conv2d "" []⟩
  exact exists_solves hb.toWellFormed (sem_isSome S hb) hargs

theorem sem_of_relu {name : OpName} (h : name.kind = .relu) (x : α) (k : ℕ) :
    S.sem name [x] k = some (S.relu x) := by
  rw [Semantics.sem, h]
  rfl

theorem sem_of_reshape {name : OpName} {attrs : String} (h : name.kind = .reshape attrs) (x : α)
    (k : ℕ) : S.sem name [x] k = some (S.reshape attrs x) := by
  rw [Semantics.sem, h]
  rfl

theorem sem_of_conv2d {name : OpName} {attrs : String}
    (h : name.kind = .conv2d attrs config) (vs : List α) (k : ℕ) :
    S.sem name vs k = some (S.activate (activationOf config) (S.conv2d attrs vs)) := by
  rw [Semantics.sem, h]

theorem activationOf_withActivation (attr : Conv2dConfigAttr) (activation : Str) :
    activationOf (some (attr.withActivation activation)) = activation := by
  rw [activationOf, Option.bind_some, Conv2dConfigAttr.withActivation, Function.update_self]
  rfl

/-- **The values after a fusion**: the relu is applied to the convolution, to its reshape, and
once more by the relu that nothing reads. -/
def fusedValues (srcOp reluOp : Op) (reluInput : Value) (ρ : Value → α) (v : Value) : α :=
  if v = resultOf srcOp ∨ v = reluInput ∨ v = resultOf reluOp then S.relu (ρ v) else ρ v

theorem id_eq_of_resultOf {op op' : Op} {k : ℕ} (h : Value.opResult op.id k = resultOf op') :
    op.id = op'.id := (Value.opResult.inj h).1

variable {S}

section Fused

variable {ρ : Value → α} (hfusion : Fusion b srcOp reluOp reluInput)

include hfusion

/-- The convolution reads neither its result nor the input of the relu. -/
theorem Fusion.not_mem_operands (hsrc : srcOp ∈ b.ops)
    (hkind : srcOp.name.kind = .conv2d attrs config) :
    resultOf srcOp ∉ srcOp.operands ∧ reluInput ∉ srcOp.operands := by
  have hnotRelu : reluInput ∉ srcOp.operands := by
    intro h
    rw [hfusion.relu_user.only srcOp hsrc h, hfusion.relu_kind] at hkind
    cases hkind
  refine ⟨fun h => ?_, hnotRelu⟩
  rcases hfusion.path with heq | ⟨reshapeOp, attrs', hreshape, -, -, huser⟩
  · exact hnotRelu (heq ▸ h)
  · rw [huser.only srcOp hsrc h, hreshape] at hkind
    cases hkind

variable (hb : Verified b)

include hb

theorem Fusion.id_ne (hsrc : srcOp ∈ b.ops) (hkind : srcOp.name.kind = .conv2d attrs config) :
    srcOp.id ≠ reluOp.id := by
  intro h
  rw [eq_of_id_eq hb.nodup hsrc hfusion.relu_mem h, hfusion.relu_kind] at hkind
  cases hkind

/-- The input of the relu is not its result. -/
theorem Fusion.reluInput_ne (hid : srcOp.id ≠ reluOp.id) : reluInput ≠ resultOf reluOp := by
  rcases hfusion.path with rfl | ⟨reshapeOp, attrs', hreshape, -, rfl, huser⟩
  · exact fun h => hid (id_eq_of_resultOf h)
  · intro h
    rw [eq_of_id_eq hb.nodup huser.mem hfusion.relu_mem (id_eq_of_resultOf h), hfusion.relu_kind]
      at hreshape
    cases hreshape

/-- The results of the operations off the path are the values they were. -/
theorem Fusion.fusedValues_result {op : Op} (hop : op ∈ b.ops) (hsrcOp : op.id ≠ srcOp.id)
    (hreluOp : op.id ≠ reluOp.id) (hpath : resultOf srcOp ∉ op.operands) (k : ℕ) :
    fusedValues S srcOp reluOp reluInput ρ (.opResult op.id k) = ρ (.opResult op.id k) := by
  rw [fusedValues, if_neg]
  rintro (h | h | h)
  · exact hsrcOp (id_eq_of_resultOf h)
  · rcases hfusion.path with heq | ⟨reshapeOp, attrs', -, hreads, heq, huser⟩
    · exact hsrcOp (id_eq_of_resultOf (h.trans heq))
    · have hsame := eq_of_id_eq hb.nodup hop huser.mem (id_eq_of_resultOf (h.trans heq))
      exact hpath (by rw [hsame, hreads]; simp)
  · exact hreluOp (id_eq_of_resultOf h)

variable (hρ : Solves S.sem b.ops ρ)

include hρ

theorem Fusion.relu_value : ρ (resultOf reluOp) = S.relu (ρ reluInput) := by
  have hnum : reluOp.numResults = 1 := (hb.relu reluOp hfusion.relu_mem hfusion.relu_kind).2
  have h := hρ reluOp hfusion.relu_mem 0 (by omega)
  rw [hfusion.relu_operands, List.map_cons, List.map_nil, sem_of_relu S hfusion.relu_kind] at h
  exact (Option.some.inj h).symm

/-- Values read elsewhere are the values they were. -/
theorem Fusion.fusedValues_redirect {v : Value} (hv : v ≠ resultOf srcOp) (hv' : v ≠ reluInput) :
    fusedValues S srcOp reluOp reluInput ρ (redirect (resultOf reluOp) reluInput v) = ρ v := by
  rw [redirect]
  split_ifs with heq
  · rw [fusedValues, if_pos (Or.inr (Or.inl rfl)), heq, hfusion.relu_value hb hρ]
  · rw [fusedValues, if_neg]
    rintro (h | h | h)
    exacts [hv h, hv' h, heq h]

theorem Fusion.map_fusedValues {operands : List Value} (h₁ : resultOf srcOp ∉ operands)
    (h₂ : reluInput ∉ operands) :
    (operands.map (redirect (resultOf reluOp) reluInput)).map
      (fusedValues S srcOp reluOp reluInput ρ) = operands.map ρ := by
  rw [List.map_map]
  exact List.map_congr_left fun v hv =>
    hfusion.fusedValues_redirect hb hρ (fun h => h₁ (h ▸ hv)) fun h => h₂ (h ▸ hv)

/-- **The values after a fusion** satisfy the equations of the rewritten operations. -/
theorem Fusion.solves (hsrc : srcOp ∈ b.ops) (hkind : srcOp.name.kind = .conv2d attrs config)
    (hactivation : hasActivation config = false) {config' : Conv2dConfigAttr}
    (hconfig' : activationOf (some config') = "relu".toList) :
    Solves S.sem
      (b.ops.map (rewritten srcOp attrs config' (redirect (resultOf reluOp) reluInput)))
      (fusedValues S srcOp reluOp reluInput ρ) := by
  set g := redirect (resultOf reluOp) reluInput with hg
  set σ := fusedValues S srcOp reluOp reluInput ρ with hσ
  have hrelukind := hfusion.relu_kind
  have hid := hfusion.id_ne hb hsrc hkind
  have hsrcResult : g (resultOf srcOp) = resultOf srcOp := by
    have hne : resultOf srcOp ≠ resultOf reluOp := fun h => hid (id_eq_of_resultOf h)
    rw [hg, redirect, if_neg hne]
  have hreluInput : g reluInput = reluInput := by
    rw [hg, redirect, if_neg (hfusion.reluInput_ne hb hid)]
  have hσrelu : σ reluInput = S.relu (ρ reluInput) := by
    rw [hσ, fusedValues, if_pos (Or.inr (Or.inl rfl))]
  have hσsrc : σ (resultOf srcOp) = S.relu (ρ (resultOf srcOp)) := by
    rw [hσ, fusedValues, if_pos (Or.inl rfl)]
  intro op' hop' k hk
  obtain ⟨op, hop, rfl⟩ := List.mem_map.mp hop'
  rw [Operation.numResults, rewritten_resultTypes] at hk
  rw [rewritten_operands, rewritten_id]
  have hsem := hρ op hop k hk
  by_cases hsrcOp : op.id = srcOp.id
  · -- the convolution
    obtain rfl := eq_of_id_eq hb.nodup hop hsrc hsrcOp
    obtain rfl : k = 0 := by
      obtain ⟨type, htype⟩ := hb.conv2d op hop attrs config hkind
      rw [htype, List.length_singleton] at hk
      omega
    have hnot := hfusion.not_mem_operands hop hkind
    rw [hfusion.map_fusedValues hb hρ hnot.1 hnot.2,
      sem_of_conv2d S (rewritten_kind_self op attrs config' g), hconfig', S.activate_relu]
    rw [sem_of_conv2d S hkind, of_decide_eq_false hactivation |> not_not.mp,
      S.activate_nil] at hsem
    rw [Option.some.inj hsem]
    exact congrArg some hσsrc.symm
  · rw [rewritten_kind_of_ne srcOp attrs config' g hsrcOp]
    by_cases hreluOp : op.id = reluOp.id
    · -- the relu, which nothing reads
      obtain rfl := eq_of_id_eq hb.nodup hop hfusion.relu_mem hreluOp
      obtain rfl : k = 0 := by
        have hone := (hb.relu op hop hrelukind).2
        rw [Operation.numResults] at hone
        omega
      rw [hfusion.relu_operands, List.map_cons, List.map_nil, List.map_cons, List.map_nil,
        hreluInput, hσrelu, sem_of_relu S hrelukind, ← hfusion.relu_value hb hρ]
      have hvalue : σ (resultOf op) = S.relu (ρ (resultOf op)) := by
        rw [hσ, fusedValues, if_pos (Or.inr (Or.inr rfl))]
      exact congrArg some hvalue.symm
    · by_cases hpath : resultOf srcOp ∈ op.operands
      · -- the reshape between them
        rcases hfusion.path with heq | ⟨reshapeOp, attrs', hreshape, hreads, heq, huser⟩
        · exact absurd (congrArg Operation.id (hfusion.relu_user.only op hop (heq ▸ hpath)))
            hreluOp
        · obtain rfl := huser.only op hop hpath
          obtain rfl : k = 0 := by
            have hone := (hb.reshape op hop attrs' hreshape).2
            rw [Operation.numResults] at hone
            omega
          rw [hreads, List.map_cons, List.map_nil, sem_of_reshape S hreshape] at hsem
          rw [hreads, List.map_cons, List.map_nil, List.map_cons, List.map_nil, hsrcResult,
            hσsrc, sem_of_reshape S hreshape, ← S.relu_reshape, Option.some.inj hsem]
          have hvalue := hσrelu
          rw [heq] at hvalue
          exact congrArg some hvalue.symm
      · -- all other operations
        have hnotRelu : reluInput ∉ op.operands := fun h =>
          hreluOp (congrArg Operation.id (hfusion.relu_user.only op hop h))
        rw [hfusion.map_fusedValues hb hρ hpath hnotRelu, hsem]
        exact congrArg some (hfusion.fusedValues_result hb hop hsrcOp hreluOp hpath k).symm

end Fused

theorem Fusion.eval_eq (hfusion : Fusion b srcOp reluOp reluInput) (hb : Verified b)
    (hsrc : srcOp ∈ b.ops) (hkind : srcOp.name.kind = .conv2d attrs config)
    (hactivation : hasActivation config = false) {config' : Conv2dConfigAttr}
    (hconfig' : activationOf (some config') = "relu".toList)
    (hargs : args.length = b.numArgs) :
    (Block.replaceUses (redirect (resultOf reluOp) reluInput)
      { b with ops := b.ops.map (setConv2dConfigAttr srcOp attrs config') }).eval S.sem args =
        b.eval S.sem args := by
  obtain ⟨ρ, hρargs, hρ⟩ := exists_values S hb hargs
  have hsolves := hfusion.solves hb hρ hsrc hkind hactivation hconfig'
  have hverified := hfusion.verified hb hsrc hkind config'
  rw [eval_eq_of_solves hb.toWellFormed hρargs hρ]
  rw [eval_eq_of_solves hverified.toWellFormed (ρ := fusedValues S srcOp reluOp reluInput ρ) ?_
    (by rw [replaceUses_ops]; exact hsolves)]
  · congr 1
    show (b.returns.map (redirect (resultOf reluOp) reluInput)).map _ = _
    refine hfusion.map_fusedValues hb hρ (fun hv => ?_) hfusion.relu_user.not_returned
    rcases hfusion.path with heq | ⟨reshapeOp, attrs', -, -, -, huser⟩
    · exact hfusion.relu_user.not_returned (heq ▸ hv)
    · exact huser.not_returned hv
  · intro n hn
    rw [hρargs n hn, fusedValues, if_neg]
    rintro (h | h | h)
    · cases h
    · rcases hfusion.path with heq | ⟨reshapeOp, attrs', -, -, heq, -⟩
      · cases h.trans heq
      · cases h.trans heq
    · cases h

/-- **Each step of the fusion** keeps what a function computes. -/
theorem FusingStep.eval_eq (hstep : FusingStep b b') (hb : Verified b)
    (hargs : args.length = b.numArgs) : b'.eval S.sem args = b.eval S.sem args := by
  cases hstep with
  | rewrite hmem hresult =>
    obtain ⟨attrs, config, reluOp, reluInput, hkind, hactivation, hfusion, rfl⟩ :=
      matchAndRewrite_spec hb hresult
    exact hfusion.eval_eq hb hmem hkind hactivation (activationOf_withActivation _ _) hargs
  | @erase op hmem hdead =>
    obtain ⟨ρ, hρargs, hρ⟩ := exists_values S hb hargs
    rw [eval_eq_of_solves hb.toWellFormed hρargs hρ]
    exact eval_eq_of_solves (hb.erase hmem hdead).toWellFormed hρargs
      fun o ho => hρ o (List.mem_filter.mp ho).1

/-- **The fusion keeps what a function computes.** -/
theorem eval_eq_of_fuses (hfuses : Relation.ReflTransGen FusingStep b b') (hb : Verified b)
    (hargs : args.length = b.numArgs) : b'.eval S.sem args = b.eval S.sem args := by
  induction hfuses with
  | refl => rfl
  | tail hfuses hstep ih =>
    obtain ⟨hverified, hnum⟩ := verified_of_fuses hfuses hb
    rw [hstep.eval_eq hverified (hargs.trans hnum.symm), ih]

end Meaning

/-! ## The optimizer -/

section Optimizer

variable (input : LegalLayoutAnalysisInput) (argTypes : List ValueType)

/-- The attribute that the analysis gives to a convolution with a name. -/
def analysedConfig (b : Block OpName ValueType) (op : Op) : Option Conv2dConfigAttr :=
  op.name.loc.map fun name => conv2dConfigOf (operandDataType argTypes b op 0)
    (operandDataType argTypes b op 1) (input.conv2dOverride name)

variable {input argTypes} {op : Op} {type : RankedTensorType}

theorem opSpecificAttr_of_mem_overrideConv2d {layouts : List TTNNLayoutAttr}
    (hkind : op.name.kind = .conv2d attrs config) {opConfig : OpConfig}
    (h : opConfig ∈ input.overrideConv2d argTypes b op (layouts.map (⟨·, none⟩))) :
    opConfig.opSpecificAttr = analysedConfig input argTypes b op := by
  unfold LegalLayoutAnalysisInput.overrideConv2d at h
  rw [hkind] at h
  rw [analysedConfig]
  cases hloc : op.name.loc with
  | none =>
    rw [hloc] at h
    obtain ⟨layout, -, rfl⟩ := List.mem_map.mp h
    rfl
  | some name =>
    rw [hloc] at h
    obtain ⟨_, -, rfl⟩ := List.mem_map.mp h
    rfl

/-- **The analysis of a convolution** gives the same attribute to all configurations. -/
theorem opSpecificAttr_of_run (hkind : op.name.kind = .conv2d attrs config)
    {configs : List OpConfig} (h : input.run argTypes b op type = .ok configs)
    {opConfig : OpConfig} (hmem : opConfig ∈ configs) :
    opConfig.opSpecificAttr = analysedConfig input argTypes b op := by
  rw [LegalLayoutAnalysisInput.run] at h
  obtain ⟨result, hresult, hrest⟩ := Checked.bind_eq_ok.mp h
  cases result with
  | some analysisResult =>
    obtain rfl := Except.ok.inj hrest
    unfold LegalLayoutAnalysisInput.applyOverrides at hresult
    split at hresult
    · cases hresult
    · split at hresult
      · simp only at hresult
        split at hresult
        · cases hresult
        · obtain rfl := Option.some.inj (Except.ok.inj hresult)
          have hsingle : ∀ l : TTNNLayoutAttr, [l].map (fun l => (⟨l, none⟩ : OpConfig)) =
              [⟨l, none⟩] := fun _ => rfl
          rw [← hsingle] at hmem
          exact opSpecificAttr_of_mem_overrideConv2d hkind hmem
      · cases hresult
  | none =>
    have hchange : op.name.kind.cantChangeOutputLayout = false := by
      rw [hkind]
      rfl
    simp only [LegalLayoutAnalysisInput.analysisImplementation, hchange, Bool.false_eq_true,
      if_false] at hrest
    split at hrest
    · cases hrest
    · split_ifs at hrest
      obtain rfl := Except.ok.inj hrest
      exact opSpecificAttr_of_mem_overrideConv2d hkind hmem

end Optimizer

namespace Compilation

variable {c : Compilation} {op : Op}

theorem fused_verified (c : Compilation) : Verified c.fused :=
  (verified_of_fuses c.fuses c.verified).1

/-- The configuration of a convolution after both passes. -/
def finalConfig (c : Compilation) (op : Op) (config : Option Conv2dConfigAttr) :
    Option Conv2dConfigAttr :=
  if c.constEval then config
  else (analysedConfig c.input c.argTypes c.fused op).or config

/-- **The application of a configuration to a convolution.** -/
theorem kind_applyConfig (hop : op ∈ c.fused.ops) (hkind : op.name.kind = .conv2d attrs config) :
    (applyConfig c.constEval c.chosen op).name.kind = .conv2d attrs (c.finalConfig op config) := by
  rw [finalConfig]
  by_cases heval : c.constEval = true
  · have htype : analysedType c.constEval op = none := by rw [analysedType, if_pos heval]
    rw [if_pos heval, applyConfig, htype, hkind]
  · obtain ⟨type, htypes⟩ := c.fused_verified.conv2d op hop attrs config hkind
    have htype : analysedType c.constEval op = some type := by
      rw [analysedType, if_neg heval, hkind]
      simp only [htypes]
      rfl
    obtain ⟨configs, hrun, opConfig, hmem, hchosen⟩ := c.chosen_mem op hop type htype
    rw [if_neg heval, applyConfig, htype, hchosen]
    simp only [hkind]
    rw [opSpecificAttr_of_run hkind hrun hmem]

section

variable (constEval : Bool) (chosen : ℕ → Option OpConfig) (op : Op)

theorem id_applyConfig : (applyConfig constEval chosen op).id = op.id := by
  unfold applyConfig
  split <;> rfl

theorem operands_applyConfig : (applyConfig constEval chosen op).operands = op.operands := by
  unfold applyConfig
  split <;> rfl

theorem numResults_applyConfig : (applyConfig constEval chosen op).numResults = op.numResults := by
  unfold applyConfig
  split
  · rw [Operation.numResults, List.length_set, Operation.numResults]
  · rfl

end

theorem sem_applyConfig {α : Type} (S : Semantics α) (constEval : Bool)
    (chosen : ℕ → Option OpConfig) (op : Op)
    (hkind : ∀ attrs config, op.name.kind ≠ .conv2d attrs config) :
    S.sem (applyConfig constEval chosen op).name = S.sem op.name := by
  unfold applyConfig
  split
  · funext vs k
    simp only [Semantics.sem]
    cases h : op.name.kind with
    | conv2d attrs config => exact absurd h (hkind attrs config)
    | _ => rfl
  · rfl

/-- **The optimizer keeps what a function computes** when it keeps the activations. -/
theorem eval_optimized {α : Type} (S : Semantics α)
    (hactivation : ∀ op ∈ c.fused.ops, ∀ attrs config, op.name.kind = .conv2d attrs config →
      activationOf (c.finalConfig op config) = activationOf config) {args : List α}
    (hargs : args.length = c.fused.numArgs) :
    c.optimized.eval S.sem args = c.fused.eval S.sem args := by
  have hb := c.fused_verified
  obtain ⟨ρ, hρargs, hρ⟩ := exists_values S hb hargs
  have hresults : ∀ op, (applyConfig c.constEval c.chosen op).results = op.results := by
    intro op
    rw [Operation.results, Operation.results, numResults_applyConfig, id_applyConfig]
  have hwf : c.optimized.WellFormed := by
    constructor
    · rw [optimized, List.map_map]
      have hids : Operation.id ∘ applyConfig c.constEval c.chosen = Operation.id := by
        funext op
        exact id_applyConfig _ _ op
      rw [hids]
      exact hb.nodup
    · refine scoped_map_of_operands hresults fun pre op post hops v hv => ?_
      rw [operands_applyConfig] at hv
      exact (hops ▸ hb.dominated : Scoped _ (pre ++ op :: post)).operands_mem v hv
    · intro v hv
      rw [scope, optimized, List.flatMap_map]
      simp only [hresults]
      exact hb.returns_mem v hv
  rw [eval_eq_of_solves hb.toWellFormed hρargs hρ]
  refine eval_eq_of_solves hwf hρargs ?_
  intro op' hop' k hk
  obtain ⟨op, hop, rfl⟩ := List.mem_map.mp hop'
  rw [numResults_applyConfig] at hk
  rw [operands_applyConfig, id_applyConfig, ← hρ op hop k hk]
  cases hkind : op.name.kind with
  | conv2d attrs config =>
    rw [sem_of_conv2d S (kind_applyConfig hop hkind), sem_of_conv2d S hkind,
      hactivation op hop attrs config hkind]
  | _ =>
    rw [sem_applyConfig S _ _ op fun attrs config h => ?_]
    rw [hkind] at h
    cases h

theorem overrideOf_of_loc {name : Str} (h : op.name.loc = some name) :
    c.overrideOf op = c.input.conv2dOverride name := by
  rw [overrideOf, h]
  rfl

theorem activationOf_eq_getD (c : Compilation) (op : Op) (config : Option Conv2dConfigAttr) :
    activationOf config = (c.fieldValue op config (.param .activation)).getD ([] : Str) := by
  rw [activationOf, fieldValue]
  cases config.bind fun attr => attr (.param .activation) with
  | none => rfl
  | some activation => rfl

/-- **Present fields are kept** where they are what the analysis takes. -/
theorem fieldValue_finalConfig_iff (c : Compilation) (op : Op) (config : Option Conv2dConfigAttr)
    {k : Field} (hoverride : c.overrideOf op k = none) :
    c.fieldValue op (c.finalConfig op config) k = c.fieldValue op config k ↔
      (c.constEval = false → op.name.loc.isSome → ∀ attr, config = some attr →
        ∀ v, attr k = some v → c.defaults op k = some v) := by
  by_cases heval : c.constEval = true
  · rw [finalConfig, if_pos heval]
    exact iff_of_true rfl fun h => absurd (heval.symm.trans h) (by decide)
  · cases hloc : op.name.loc with
    | none =>
      have hsame : c.finalConfig op config = config := by
        rw [finalConfig, if_neg heval, analysedConfig, hloc]
        rfl
      rw [hsame]
      exact iff_of_true rfl fun _ h => nomatch h
    | some name =>
      have hfinal : c.fieldValue op (c.finalConfig op config) k = c.defaults op k := by
        rw [finalConfig, if_neg heval, analysedConfig, hloc, fieldValue]
        show (conv2dConfigOf _ _ (c.input.conv2dOverride name) k).or _ = _
        rw [overrideOf_of_loc hloc] at hoverride
        rw [conv2dConfigOf_eq_default hoverride]
        exact Option.or_self
      rw [hfinal, fieldValue]
      constructor
      · rintro h - - attr rfl v hv
        rw [h, Option.bind_some, hv]
        rfl
      · intro h
        cases config with
        | none => rfl
        | some attr =>
          cases hv : attr k with
          | none => rw [Option.bind_some, hv, Option.none_or]
          | some v =>
            rw [Option.bind_some, hv, Option.some_or, h (by simpa using heval) rfl attr rfl v hv]

/-- The activations after both passes. -/
theorem activationOf_finalConfig (hfields : ∀ k, c.overrideOf op k = none →
      c.fieldValue op (c.finalConfig op config) k = c.fieldValue op config k)
    (hoverride : ∀ activation : Str, c.overrideOf op (.param .activation) = some activation →
      activation = activationOf config) :
    activationOf (c.finalConfig op config) = activationOf config := by
  cases hactivation : c.overrideOf op (.param .activation) with
  | none =>
    rw [activationOf_eq_getD c op, activationOf_eq_getD c op config,
      hfields (.param .activation) hactivation]
  | some activation =>
    cases hloc : op.name.loc with
    | none =>
      rw [overrideOf, hloc] at hactivation
      cases hactivation
    | some name =>
      rw [finalConfig]
      split_ifs
      · rfl
      · rw [overrideOf_of_loc hloc] at hactivation
        rw [analysedConfig, hloc]
        show Option.getD (some ((c.input.conv2dOverride name (.param .activation)).getD [])) [] = _
        rw [hactivation]
        exact hoverride activation (overrideOf_of_loc hloc ▸ hactivation)

/-- **When fused activations and configurations survive.** -/
theorem survives_iff (c : Compilation) : c.Survives ↔ c.PresentFieldsDefault := by
  have hfields : c.PresentFieldsDefault ↔ ∀ op ∈ c.fused.ops, ∀ attrs config,
      op.name.kind = .conv2d attrs config → ∀ k, c.overrideOf op k = none →
        c.fieldValue op (c.finalConfig op config) k = c.fieldValue op config k := by
    constructor
    · intro h op hop attrs config hkind k hoverride
      rw [fieldValue_finalConfig_iff c op config hoverride]
      rintro heval hloc attr rfl v hv
      exact h heval op hop hloc attrs attr hkind k hoverride v hv
    · intro h heval op hop hloc attrs attr hkind k hoverride v hv
      exact (fieldValue_finalConfig_iff c op (some attr) hoverride).mp
        (h op hop attrs _ hkind k hoverride) heval hloc attr rfl v hv
  rw [hfields]
  constructor
  · intro h op hop attrs config hkind k hoverride
    obtain ⟨op', hop', hid, config', hkind', hkept⟩ := h.fieldsKept op hop attrs config hkind
    obtain ⟨o, ho, rfl⟩ := List.mem_map.mp hop'
    obtain rfl := eq_of_id_eq c.fused_verified.nodup ho hop
      ((id_applyConfig _ _ o).symm.trans hid)
    rw [kind_applyConfig hop hkind] at hkind'
    rw [(OpKind.conv2d.inj hkind').2]
    exact hkept k hoverride
  · intro h
    constructor
    · intro op hop attrs config hkind
      exact ⟨_, List.mem_map_of_mem hop, id_applyConfig _ _ op, _, kind_applyConfig hop hkind,
        h op hop attrs config hkind⟩
    · intro hoverrides α S args hargs
      have hnum := (verified_of_fuses c.fuses c.verified).2
      rw [← eval_eq_of_fuses c.fuses c.verified hargs]
      refine eval_optimized S (fun op hop attrs config hkind => ?_) (hargs.trans hnum.symm)
      exact activationOf_finalConfig (h op hop attrs config hkind)
        (hoverrides op hop attrs config hkind)

/-- A tensor type. -/
def tensor : ValueType := some ⟨[64, 64], Derivation.onFourCores⟩

/-- A convolution with a name, and the relu of it. -/
def reluOfConv : Block OpName ValueType where
  numArgs := 2
  ops :=
    [⟨0, ⟨some "conv".toList, .conv2d "" none⟩, [.blockArg 0, .blockArg 1], [tensor]⟩,
      ⟨1, ⟨none, .relu⟩, [.opResult 0 0], [tensor]⟩]
  returns := [.opResult 1 0]

/-- The same function when the convolution has the activation. -/
def convWithRelu : Block OpName ValueType where
  numArgs := 2
  ops :=
    [⟨0, ⟨some "conv".toList, .conv2d ""
      (some (Conv2dConfigAttr.empty.withActivation "relu".toList))⟩,
        [.blockArg 0, .blockArg 1], [tensor]⟩]
  returns := [.opResult 0 0]

theorem reluOfConv_fuses : Relation.ReflTransGen FusingStep reluOfConv convWithRelu := by
  have hrewrite := FusingStep.rewrite (b := reluOfConv) List.mem_cons_self rfl
  refine (Relation.ReflTransGen.single hrewrite).tail ?_
  exact @FusingStep.erase _ ⟨1, ⟨none, .relu⟩, [.opResult 0 0], [tensor]⟩
    (List.mem_cons_of_mem _ List.mem_cons_self) (by decide)

/-- One layout, and no overrides. -/
def oneLayout : LegalLayoutAnalysisInput where
  possibleLayouts _ _ := some fun _ => ⟨[Derivation.onFourCores], []⟩
  maxShardedConfigs := 0
  outputLayoutOverrides _ := none
  conv2dConfigOverrides _ := none
  rowMajorEnabled := false

theorem run_oneLayout {argTypes : List ValueType} {b : Block OpName ValueType}
    {name : Str} {attrs : String} (type : RankedTensorType)
    (hloc : op.name.loc = some name) (hkind : op.name.kind = .conv2d attrs config) :
    oneLayout.run argTypes b op type = .ok [⟨Derivation.onFourCores, some (conv2dConfigOf
      (operandDataType argTypes b op 0) (operandDataType argTypes b op 1) fun _ => none)⟩] := by
  have hnone : oneLayout.applyOverrides argTypes b op type = .ok none := by
    rw [LegalLayoutAnalysisInput.applyOverrides, hloc]
    rfl
  have hlayouts : oneLayout.collectLayouts false
      (fun _ => ⟨[Derivation.onFourCores], []⟩) = [Derivation.onFourCores] := by
    simp [LegalLayoutAnalysisInput.collectLayouts, LegalLayoutAnalysisInput.sortByGridVolume]
  rw [LegalLayoutAnalysisInput.run, hnone]
  show oneLayout.analysisImplementation argTypes b op type = _
  have hchange : ¬ (OpKind.conv2d attrs config).cantChangeOutputLayout = true := fun h => nomatch h
  rw [LegalLayoutAnalysisInput.analysisImplementation, hkind, hloc, if_neg hchange]
  show (if (oneLayout.overrideConv2d argTypes b op (((oneLayout.collectLayouts false
    fun _ => ⟨[Derivation.onFourCores], []⟩).filter fun _ => true).map (⟨·, none⟩))).isEmpty
      then _
      else Except.ok (oneLayout.overrideConv2d argTypes b op (((oneLayout.collectLayouts false
        fun _ => ⟨[Derivation.onFourCores], []⟩).filter fun _ => true).map (⟨·, none⟩)))) = _
  rw [hlayouts]
  unfold LegalLayoutAnalysisInput.overrideConv2d
  rw [hkind, hloc]
  rfl

/-- The compilation of the convolution and its relu without overrides. -/
def reluCompilation : Compilation where
  input := oneLayout
  constEval := false
  argTypes := [tensor, tensor]
  source := reluOfConv
  verified := {
    nodup := by decide
    dominated := by decide
    returns_mem := by decide
    conv2d := by simp [reluOfConv, tensor]
    relu := by simp [reluOfConv, Operation.numResults]
    reshape := by simp [reluOfConv] }
  fused := convWithRelu
  fuses := reluOfConv_fuses
  chosen := fun _ => some ⟨Derivation.onFourCores, some (conv2dConfigOf
    (some Derivation.onFourCores.getScalarElementType)
    (some Derivation.onFourCores.getScalarElementType) fun _ => none)⟩
  chosen_mem := by
    intro op hop type htype
    obtain rfl := List.mem_singleton.mp hop
    obtain rfl := Option.some.inj htype
    exact ⟨_, run_oneLayout _ rfl rfl, _, List.mem_singleton_self _, rfl⟩

/-- Convolutions give a negative number. -/
def negative : Semantics ℤ where
  conv2d _ _ := -1
  activate activation x := if activation = "relu".toList then max x 0 else x
  relu x := max x 0
  reshape _ x := x
  empty _ _ := 0
  toLayout _ _ := 0
  other _ _ _ _ := 0
  activate_nil _ := rfl
  activate_relu _ := rfl
  relu_reshape _ _ := rfl

/-- **A fused relu is lost**: the function gives a negative number after both passes. -/
theorem not_survives_reluCompilation : ¬ reluCompilation.Survives := by
  intro h
  have hoverride : ∀ op ∈ reluCompilation.fused.ops,
      reluCompilation.overrideOf op (.param .activation) = none := by
    intro op hop
    obtain rfl := List.mem_singleton.mp hop
    rfl
  have heq := h.meaning (fun op hop _ _ _ _ hset => by
    rw [hoverride op hop] at hset
    cases hset) ℤ negative [0, 0] rfl
  have hoptimized : reluCompilation.optimized.eval negative.sem [0, 0] = some [-1] := by rfl
  have hsource : reluCompilation.source.eval negative.sem [0, 0] = some [0] := by rfl
  rw [hoptimized, hsource] at heq
  exact absurd heq (by decide)

end Compilation

end ConvActivation
