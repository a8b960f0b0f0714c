/-
# Scaling the weight of a convolution

`Conv2dWithMultiply` (`TTIRFusing.cpp`) removes a multiplication after a convolution: the
weight is multiplied with the scale instead.

* `getConv2dAndScale`, `matchAndRewrite` : the pattern;
* `Preserves` : what the operations it creates are meant to compute;
* `elem_scaledWeight` : the weight it creates;
* `preserves_iff_unbiased` : the new convolution computes the product exactly when there is no
  bias, or the scale does not change the bias.
-/
import TTMLIR.TTIRGraph

namespace TTIR

open MixedRadix SSA Fallible

namespace Conv2dMultiply

/-! ## The pattern -/

/-- `isConstant`: a constant argument, or a value created before the convolution. -/
def isConstant (g : Graph) (conv2dOp : Op) : Value → Bool
  | .blockArg n => g.constParams.contains n
  | .opResult id _ => (lookup g.ops id).any fun op =>
    op.name.isCreation && decide (index g.ops op.id < index g.ops conv2dOp.id)

/-- `hasValidScaleShape`: the scale has the shape `(1, 1, 1, out_channels)`. -/
def hasValidScaleShape (weightType scaleType : List ℕ) : Bool :=
  scaleType.length = 4 && scaleType.getD 0 0 = 1 && scaleType.getD 1 0 = 1 &&
    scaleType.getD 2 0 = 1 && scaleType.getD 3 0 = weightType.getD 0 0

/-- `dyn_cast<Conv2dOp>`: the attributes of a convolution. -/
def asConv2d : OpName → Option Conv2dAttrs
  | .conv2d attrs => some attrs
  | _ => none

/-- `getWeight()`. -/
def getWeight (conv2dOp : Op) : Option Value := conv2dOp.operands[1]?

/-- `isCommutable`. -/
def isCommutable (g : Graph) (conv2dOp : Op) (scale : Value) : Bool :=
  (asConv2d conv2dOp.name).isSome && g.hasOneUse (result conv2dOp) &&
    isConstant g conv2dOp scale &&
    (getWeight conv2dOp).any fun weight =>
      isConstant g conv2dOp weight && hasValidScaleShape (g.type weight) (g.type scale)

/-- The convolution that defines a factor, when it is commutable with the other factor. -/
def commutableConv2d (g : Graph) (factor other : Value) : Option (Op × Value) :=
  ((g.getDefiningOp factor).filter fun conv2dOp => isCommutable g conv2dOp other).map
    fun conv2dOp => (conv2dOp, other)

/-- `getConv2dAndScale`. -/
def getConv2dAndScale (g : Graph) (multiplyOp : Op) : Option (Op × Value) := do
  let lhs ← multiplyOp.operands[0]?
  let rhs ← multiplyOp.operands[1]?
  commutableConv2d g lhs rhs <|> commutableConv2d g rhs lhs

/-- The shape of the reshaped scale: first and last extents are swapped. -/
def swapEnds (shape : List ℕ) : List ℕ :=
  (shape.set 0 (shape.getD 3 0)).set 3 (shape.getD 0 0)

/-- `createReshapedScale`: a fresh destination and the reshape. -/
def createReshapedScale (g : Graph) (id : ℕ) (scale : Value) : List Op :=
  [⟨id, .empty (swapEnds (g.type scale)), [], [swapEnds (g.type scale)]⟩,
    ⟨id + 1, .reshape ((swapEnds (g.type scale)).map toI32), [scale, .opResult id 0],
      [swapEnds (g.type scale)]⟩]

/-- `createScaledWeights`: a fresh destination and the product. -/
def createScaledWeights (g : Graph) (id : ℕ) (weight reshapedScale : Value) : List Op :=
  [⟨id, .empty (g.type weight), [], [g.type weight]⟩,
    ⟨id + 1, .multiply, [weight, reshapedScale, .opResult id 0], [g.type weight]⟩]

/-- What replaces the multiplication: the operations that are created before the convolution,
and the convolution with its new weight.  All uses of the product become uses of it. -/
structure Rewrite where
  conv2dOp : Op
  scale : Value
  created : List Op
  newConv : Op
deriving DecidableEq, Repr

/-- `matchAndRewrite`. -/
def matchAndRewrite (g : Graph) (multiplyOp : Op) : Option Rewrite := do
  let (conv2dOp, scale) ← getConv2dAndScale g multiplyOp
  let weight ← getWeight conv2dOp
  let id := freshId g.ops
  return {
    conv2dOp := conv2dOp
    scale := scale
    created := createReshapedScale g id scale ++
      createScaledWeights g (id + 2) weight (.opResult (id + 1) 0)
    newConv := { conv2dOp with operands := conv2dOp.operands.set 1 (.opResult (id + 3) 0) } }

/-- The created operations and the new convolution read what is visible before the
convolution, and the convolution computes the product. -/
structure Preserves {α : Type} [NonUnitalNonAssocSemiring α] [Div α] (I : Interp α) (g : Graph)
    (multiplyOp : Op) (new : Rewrite) (ρ : Value → Tensor α) : Prop where
  visible : ∀ pre post, g.ops = pre ++ new.conv2dOp :: post →
    Scoped (scope g.numArgs pre) (new.created ++ [new.newConv])
  value : ∃ env y, run (sem I) (new.created ++ [new.newConv]) (fun v => some (ρ v)) = some env ∧
    env (result new.newConv) = some y ∧ (ρ (result multiplyOp)).Agree y

/-- The bias of a convolution. -/
def getBias (conv2dOp : Op) : Option Value :=
  if conv2dOp.operands.length = 4 then conv2dOp.operands[2]? else none

/-- There is no bias, or scaling does not change it at any output index. -/
def BiasUnscaled {α : Type} [Mul α] (g : Graph) (new : Rewrite) (ρ : Value → Tensor α) : Prop :=
  ∀ bias, getBias new.conv2dOp = some bias → ∀ idx, InShape idx (g.type (result new.conv2dOp)) →
    (ρ bias).elem (clamp (ρ bias).shape idx) * (ρ new.scale).elem (clamp (ρ new.scale).shape idx) =
      (ρ bias).elem (clamp (ρ bias).shape idx)

/-! ## What the pattern has found -/

/-- The convolution and the multiplication, with their operands and types. -/
structure Match (g : Graph) (multiplyOp : Op) (new : Rewrite) where
  attrs : Conv2dAttrs
  input : Value
  weight : Value
  bias : Option Value
  init : Value
  multiplyInit : Value
  type : List ℕ
  multiplyType : List ℕ
  conv_mem : new.conv2dOp ∈ g.ops
  conv_name : new.conv2dOp.name = .conv2d attrs
  conv_operands : new.conv2dOp.operands = input :: weight :: (bias.toList ++ [init])
  conv_types : new.conv2dOp.resultTypes = [type]
  init_type : g.type init = type
  valid : (Conv2dOp.mk (g.type input) (g.type weight) (bias.map g.type) type attrs).Valid
  multiply_operands : multiplyOp.operands = [result new.conv2dOp, new.scale, multiplyInit] ∨
    multiplyOp.operands = [new.scale, result new.conv2dOp, multiplyInit]
  multiply_types : multiplyOp.resultTypes = [multiplyType]
  scale_constant : isConstant g new.conv2dOp new.scale = true
  weight_constant : isConstant g new.conv2dOp weight = true
  scale_type : g.type new.scale = [1, 1, 1, (g.type weight).getD 0 0]
  created : new.created = createReshapedScale g (freshId g.ops) new.scale ++
    createScaledWeights g (freshId g.ops + 2) weight (.opResult (freshId g.ops + 1) 0)
  newConv : new.newConv = { new.conv2dOp with
    operands := input :: .opResult (freshId g.ops + 3) 0 :: (bias.toList ++ [init]) }

/-- The convolution, with the shapes of its operands and result. -/
def Match.conv2dOp {g : Graph} {multiplyOp : Op} {new : Rewrite} (m : Match g multiplyOp new) :
    Conv2dOp :=
  ⟨g.type m.input, g.type m.weight, m.bias.map g.type, m.type, m.attrs⟩

variable {pre post : List Op}

section Match

variable {g : Graph} {multiplyOp : Op} {new : Rewrite}

theorem exists_of_asConv2d {name : OpName} (h : (asConv2d name).isSome = true) :
    ∃ attrs, name = .conv2d attrs := by
  cases name with
  | conv2d attrs => exact ⟨attrs, rfl⟩
  | _ => cases h

theorem eq_of_hasValidScaleShape {weightType scaleType : List ℕ}
    (h : hasValidScaleShape weightType scaleType = true) :
    scaleType = [1, 1, 1, weightType.getD 0 0] := by
  simp only [hasValidScaleShape, Bool.and_eq_true, decide_eq_true_eq] at h
  obtain ⟨⟨⟨⟨hlength, h0⟩, h1⟩, h2⟩, h3⟩ := h
  match scaleType, hlength with
  | [_, _, _, _], _ =>
    simp only [List.getD_cons_zero, List.getD_cons_succ] at h0 h1 h2 h3
    rw [h0, h1, h2, h3]

theorem commutableConv2d_spec {factor other : Value} {found : Op × Value}
    (h : commutableConv2d g factor other = some found) :
    g.getDefiningOp factor = some found.1 ∧ isCommutable g found.1 other = true ∧
      found.2 = other := by
  obtain ⟨conv2dOp, hconv, rfl⟩ := Option.map_eq_some_iff.mp h
  obtain ⟨hdef, hcommutable⟩ := Option.filter_eq_some_iff.mp hconv
  exact ⟨hdef, hcommutable, rfl⟩

/-- **The pattern finds** a convolution and a constant scale of it. -/
theorem exists_match (hg : g.Verified) (hmultiply : multiplyOp ∈ g.ops)
    (hname : multiplyOp.name = .multiply) (h : matchAndRewrite g multiplyOp = some new) :
    Nonempty (Match g multiplyOp new) := by
  obtain ⟨⟨conv2dOp, scale⟩, hfound, h⟩ := Option.bind_eq_some_iff.mp h
  obtain ⟨weight, hweight, hnew⟩ := Option.bind_eq_some_iff.mp h
  obtain rfl := Option.some.inj hnew
  have hverify := hg.ops multiplyOp hmultiply
  rw [verifyOp, hname] at hverify
  obtain ⟨lhs, rhs, multiplyInit, multiplyType, hoperands, htypes, -, -⟩ :=
    verifyBinary_spec hverify
  rw [getConv2dAndScale, hoperands] at hfound
  -- either factor may be the convolution
  obtain ⟨factor, hdef, hcommutable, hfactors⟩ : ∃ factor,
      g.getDefiningOp factor = some conv2dOp ∧ isCommutable g conv2dOp scale = true ∧
        (multiplyOp.operands = [factor, scale, multiplyInit] ∨
          multiplyOp.operands = [scale, factor, multiplyInit]) := by
    change (commutableConv2d g lhs rhs <|> commutableConv2d g rhs lhs) = _ at hfound
    rcases Option.or_eq_some_iff.mp (Option.orElse_eq_or.symm.trans hfound) with
      hfound | ⟨-, hfound⟩
    · obtain ⟨hdef, hcommutable, hother⟩ := commutableConv2d_spec hfound
      obtain rfl : scale = rhs := hother
      exact ⟨lhs, hdef, hcommutable, .inl hoperands⟩
    · obtain ⟨hdef, hcommutable, hother⟩ := commutableConv2d_spec hfound
      obtain rfl : scale = lhs := hother
      exact ⟨rhs, hdef, hcommutable, .inr hoperands⟩
  simp only [isCommutable, Bool.and_eq_true, hweight, Option.any_some] at hcommutable
  obtain ⟨⟨⟨hconv, -⟩, hscaleConstant⟩, hweightConstant, hscaleShape⟩ := hcommutable
  obtain ⟨attrs, hconvName⟩ := exists_of_asConv2d hconv
  have hconvMem := (getDefiningOp_spec hdef).1
  have hverifyConv := hg.ops conv2dOp hconvMem
  rw [verifyOp, hconvName] at hverifyConv
  obtain ⟨x, w, bias, init, r, hconvOperands, hconvTypes, hinit, hvalid⟩ :=
    verifyConv2d_spec hverifyConv
  obtain rfl : w = weight := by
    rw [getWeight, hconvOperands] at hweight
    exact Option.some.inj hweight
  have hfactor : factor = result conv2dOp := by
    refine eq_result_of_getDefiningOp hg.toWellFormed hmultiply ?_ hdef
      (by simp [Operation.numResults, hconvTypes])
    rcases hfactors with hfactors | hfactors <;> simp [hfactors]
  subst hfactor
  exact ⟨{
    attrs := attrs, input := x, weight := w, bias := bias, init := init
    multiplyInit := multiplyInit, type := r, multiplyType := multiplyType
    conv_mem := hconvMem, conv_name := hconvName, conv_operands := hconvOperands
    conv_types := hconvTypes, init_type := hinit, valid := hvalid
    multiply_operands := hfactors, multiply_types := htypes
    scale_constant := hscaleConstant, weight_constant := hweightConstant
    scale_type := eq_of_hasValidScaleShape hscaleShape
    created := rfl
    newConv := by simp [hconvOperands] }⟩

/-- A constant that is read somewhere is visible before the convolution. -/
theorem mem_scope_of_isConstant (hg : g.WellFormed) {conv2dOp : Op}
    (hops : g.ops = pre ++ conv2dOp :: post) {v : Value} (hv : v ∈ scope g.numArgs g.ops)
    (hconstant : isConstant g conv2dOp v = true) : v ∈ scope g.numArgs pre := by
  cases v with
  | blockArg n => exact blockArg_mem_scope.mpr (blockArg_mem_scope.mp hv)
  | opResult id k =>
    obtain ⟨op, hop, rfl, hk⟩ := opResult_mem_scope.mp hv
    have hlookup := (lookup_eq_some_iff hg.nodup).mpr ⟨hop, rfl⟩
    simp only [isConstant, hlookup, Option.any_some, Bool.and_eq_true,
      decide_eq_true_eq] at hconstant
    have hnodup := hg.nodup
    have hlt := hconstant.2
    rw [hops] at hnodup hop hlt
    exact opResult_mem_scope.mpr ⟨op, mem_prefix_of_index_lt hnodup hop hlt, rfl, hk⟩

theorem Match.scale_mem (m : Match g multiplyOp new) : new.scale ∈ multiplyOp.operands := by
  rcases m.multiply_operands with h | h <;> simp [h]

/-- **The created operations** read what is visible before the convolution. -/
theorem Match.scoped (m : Match g multiplyOp new) (hg : g.WellFormed)
    (hmultiply : multiplyOp ∈ g.ops)
    (hops : g.ops = pre ++ new.conv2dOp :: post) :
    Scoped (scope g.numArgs pre) (new.created ++ [new.newConv]) := by
  have hscale := mem_scope_of_isConstant hg hops
    (hg.dominated.mem_of_mem_operands hmultiply m.scale_mem) m.scale_constant
  have hweight := mem_scope_of_isConstant hg hops
    (hg.dominated.mem_of_mem_operands m.conv_mem (by simp [m.conv_operands])) m.weight_constant
  have hdominated := hg.dominated
  rw [hops] at hdominated
  have hoperands := hdominated.operands_mem
  rw [m.conv_operands] at hoperands
  rw [m.created, m.newConv]
  have hresults : ∀ id name operands type, (⟨id, name, operands, [type]⟩ : Op).results =
      [.opResult id 0] := fun _ _ _ _ => rfl
  simp only [createReshapedScale, createScaledWeights, List.cons_append, List.nil_append, Scoped,
    hresults]
  refine ⟨by simp, by simp [hscale], by simp, by simp [hweight], fun v hv => ?_, trivial⟩
  rcases List.mem_cons.mp hv with rfl | hv
  · simp [hoperands m.input (by simp)]
  · rcases List.mem_cons.mp hv with rfl | hv
    · simp
    · simp [hoperands v (List.mem_cons_of_mem _ (List.mem_cons_of_mem _ hv))]

end Match

/-! ## The new weight -/

section Weight

variable {α : Type}

/-- The weight multiplied with the reshaped scale. -/
def scaledWeight [Mul α] (w scale : Tensor α) : Tensor α :=
  Tensor.zip (· * ·) w.shape w (scale.reshape (swapEnds scale.shape))

theorem elem_reshapedScale {scale : Tensor α} {f n : ℕ} (hscale : scale.shape = [1, 1, 1, n])
    (hf : f < n) : (scale.reshape (swapEnds scale.shape)).elem [f, 0, 0, 0] =
      scale.elem [0, 0, 0, f] := by
  simp [Tensor.reshape, hscale, swapEnds, unravel, Nat.div_eq_of_lt hf, Nat.mod_eq_of_lt hf]

/-- **The new weight** is the old one times the scale of its output channel. -/
theorem elem_scaledWeight [Mul α] {w scale : Tensor α} {n m kh kw : ℕ}
    (hw : w.shape = [n, m, kh, kw]) (hscale : scale.shape = [1, 1, 1, n]) {f c : ℕ} {ks : List ℕ}
    (hidx : InShape (f :: c :: ks) w.shape) : (scaledWeight w scale).elem (f :: c :: ks) =
      w.elem (f :: c :: ks) * scale.elem [0, 0, 0, f] := by
  have hclamp : clamp (swapEnds scale.shape) (f :: c :: ks) = [f, 0, 0, 0] := by
    rw [hw] at hidx
    have hf : f < n := (List.forall₂_cons.mp hidx).1
    have hlength := hidx.length_eq
    match ks, hlength with
    | [_, _], _ => simp [clamp, hscale, swapEnds, Nat.mod_one, Nat.mod_eq_of_lt hf]
  have hf : f < n := by
    rw [hw] at hidx
    exact (List.forall₂_cons.mp hidx).1
  show w.elem (clamp w.shape (f :: c :: ks)) * (scale.reshape (swapEnds scale.shape)).elem
    (clamp (swapEnds scale.shape) (f :: c :: ks)) = _
  rw [clamp_of_inShape hidx, hclamp, elem_reshapedScale hscale hf]

end Weight

/-! ## What the new operations compute -/

section Values

variable {α : Type} [CommRing α] {I : Interp α} {g : Graph} {multiplyOp : Op}
  {new : Rewrite} {ρ : Value → Tensor α}

/-- A convolution of the graph with another weight. -/
def Match.conv (m : Match g multiplyOp new) (ρ : Value → Tensor α) (w : Tensor α) :
    Option (Tensor α) := m.conv2dOp.apply (ρ m.input) w (m.bias.map ρ)

/-- The values of the created operations and of the new convolution. -/
def Match.values (m : Match g multiplyOp new) (I : Interp α) (ρ : Value → Tensor α)
    (y : Tensor α) : Value → Tensor α := fun v =>
  if v = result new.newConv then y
  else if v = .opResult (freshId g.ops) 0 then
    ⟨swapEnds (g.type new.scale), I.empty (swapEnds (g.type new.scale))⟩
  else if v = .opResult (freshId g.ops + 1) 0 then
    (ρ new.scale).reshape (swapEnds (g.type new.scale))
  else if v = .opResult (freshId g.ops + 2) 0 then ⟨g.type m.weight, I.empty (g.type m.weight)⟩
  else if v = .opResult (freshId g.ops + 3) 0 then scaledWeight (ρ m.weight) (ρ new.scale)
  else ρ v

/-- The new operations do not change the values that are visible before the convolution. -/
theorem Match.values_of_mem (m : Match g multiplyOp new) (hg : g.WellFormed)
    (hops : g.ops = pre ++ new.conv2dOp :: post) (y : Tensor α) {v : Value}
    (hv : v ∈ scope g.numArgs pre) : m.values I ρ y v = ρ v := by
  cases v with
  | blockArg n => simp [Match.values, result]
  | opResult id k =>
    obtain ⟨op, hop, rfl, -⟩ := opResult_mem_scope.mp hv
    have hfresh : op.id < freshId g.ops := lt_freshId (by simp [hops, hop])
    have hne : op.id ≠ new.conv2dOp.id := by
      have hnodup := hg.nodup
      rw [hops, List.map_append, List.map_cons] at hnodup
      exact (List.nodup_append.mp hnodup).2.2 _ (List.mem_map_of_mem hop) _ (by simp)
    have h0 : op.id ≠ freshId g.ops := by omega
    have h1 : op.id ≠ freshId g.ops + 1 := by omega
    have h2 : op.id ≠ freshId g.ops + 2 := by omega
    have h3 : op.id ≠ freshId g.ops + 3 := by omega
    simp [Match.values, result, m.newConv, hne, h0, h1, h2, h3]

variable [Div α]

theorem Match.exists_weight (m : Match g multiplyOp new) : ∃ c kh kw,
    g.type m.weight = [(g.type m.weight).getD 0 0, c, kh, kw] :=
  ⟨_, _, _, Conv2dOp.eq_of_length_four m.valid.weight_length⟩

/-- The values of what the convolution and the multiplication read have their types. -/
structure Match.Shapes (m : Match g multiplyOp new) (ρ : Value → Tensor α) : Prop where
  input : (ρ m.input).shape = g.type m.input
  weight : (ρ m.weight).shape = g.type m.weight
  bias : ∀ b, m.bias = some b → (ρ b).shape = g.type b
  init : (ρ m.init).shape = m.type
  scale : (ρ new.scale).shape = [1, 1, 1, (g.type m.weight).getD 0 0]

theorem Match.shapes (m : Match g multiplyOp new) (hg : g.WellFormed)
    (hmultiply : multiplyOp ∈ g.ops) (hρ : Run I g ρ) : m.Shapes ρ where
  input := hρ.shape_operand hg m.conv_mem (by simp [m.conv_operands])
  weight := hρ.shape_operand hg m.conv_mem (by simp [m.conv_operands])
  bias b hb := hρ.shape_operand hg m.conv_mem (by simp [m.conv_operands, hb])
  init := (hρ.shape_operand hg m.conv_mem (by simp [m.conv_operands])).trans m.init_type
  scale := (hρ.shape_operand hg hmultiply m.scale_mem).trans m.scale_type

theorem Match.sem_conv (m : Match g multiplyOp new) (shapes : m.Shapes ρ) {w : Tensor α}
    (hw : w.shape = g.type m.weight) :
    sem I (.conv2d m.attrs) (ρ m.input :: w :: ((m.bias.map ρ).toList ++ [ρ m.init])) 0 =
      m.conv ρ w := by
  rw [sem_conv2d, Match.conv, Match.conv2dOp, shapes.input, hw, shapes.init]
  cases hbias : m.bias with
  | none => rfl
  | some b => simp only [Option.map_some, shapes.bias b hbias]

/-- **The new operations compute** a convolution with the scaled weight. -/
theorem Match.solves (m : Match g multiplyOp new) (hg : g.WellFormed)
    (shapes : m.Shapes ρ) (hops : g.ops = pre ++ new.conv2dOp :: post)
    (hscale : new.scale ∈ scope g.numArgs pre) (hweight : m.weight ∈ scope g.numArgs pre)
    (hconv : ∀ v ∈ new.conv2dOp.operands, v ∈ scope g.numArgs pre) {y : Tensor α}
    (hy : m.conv ρ (scaledWeight (ρ m.weight) (ρ new.scale)) = some y) :
    Solves (sem I) (new.created ++ [new.newConv]) (m.values I ρ y) := by
  have hid : new.conv2dOp.id < freshId g.ops := lt_freshId m.conv_mem
  have h0 : new.conv2dOp.id ≠ freshId g.ops := by omega
  have h1 : new.conv2dOp.id ≠ freshId g.ops + 1 := by omega
  have h2 : new.conv2dOp.id ≠ freshId g.ops + 2 := by omega
  have h3 : new.conv2dOp.id ≠ freshId g.ops + 3 := by omega
  -- the values of the results
  have hempty : m.values I ρ y (.opResult (freshId g.ops) 0) =
      ⟨swapEnds (g.type new.scale), I.empty (swapEnds (g.type new.scale))⟩ := by
    simp [Match.values, result, m.newConv, h0.symm]
  have hreshape : m.values I ρ y (.opResult (freshId g.ops + 1) 0) =
      (ρ new.scale).reshape (swapEnds (g.type new.scale)) := by
    simp [Match.values, result, m.newConv, h1.symm]
  have hempty' : m.values I ρ y (.opResult (freshId g.ops + 2) 0) =
      ⟨g.type m.weight, I.empty (g.type m.weight)⟩ := by
    simp [Match.values, result, m.newConv, h2.symm]
  have hproduct : m.values I ρ y (.opResult (freshId g.ops + 3) 0) =
      scaledWeight (ρ m.weight) (ρ new.scale) := by
    simp [Match.values, result, m.newConv, h3.symm]
  have hresult : m.values I ρ y (.opResult new.conv2dOp.id 0) = y := by
    simp [Match.values, result, m.newConv]
  have hold := fun v hv => m.values_of_mem (I := I) (ρ := ρ) hg hops y (v := v) hv
  rw [m.conv_operands] at hconv
  intro op hop k hk
  rw [m.created, m.newConv] at hop
  simp only [createReshapedScale, createScaledWeights, List.cons_append, List.nil_append,
    List.mem_cons, List.not_mem_nil, or_false] at hop
  obtain rfl | rfl | rfl | rfl | rfl := hop
  · obtain rfl : k = 0 := Nat.lt_one_iff.mp hk
    exact congrArg some hempty.symm
  · obtain rfl : k = 0 := Nat.lt_one_iff.mp hk
    simp only [List.map_cons, List.map_nil, hold _ hscale, hempty, hreshape]
    rfl
  · obtain rfl : k = 0 := Nat.lt_one_iff.mp hk
    exact congrArg some hempty'.symm
  · obtain rfl : k = 0 := Nat.lt_one_iff.mp hk
    obtain ⟨c, kh, kw, hw⟩ := m.exists_weight
    have hshape : broadcastedShape (ρ m.weight).shape
        ((ρ new.scale).reshape (swapEnds (g.type new.scale))).shape = some (ρ m.weight).shape := by
      show broadcastedShape _ (swapEnds (g.type new.scale)) = _
      rw [shapes.weight, hw, m.scale_type, broadcastedShape_of_length (by simp [swapEnds])]
      simp [swapEnds, getBroadcastedShape]
    simp only [List.map_cons, List.map_nil, hold _ hweight, hreshape, hproduct, sem, hshape,
      Option.map_some]
    rw [scaledWeight, shapes.scale, m.scale_type]
  · obtain rfl : k = 0 := by
      have hone : new.conv2dOp.resultTypes.length = 1 := by rw [m.conv_types]; rfl
      simp only [Operation.numResults, hone] at hk
      omega
    have hbias : m.bias.toList.map (m.values I ρ y) = (m.bias.map ρ).toList := by
      cases hb : m.bias with
      | none => rfl
      | some b =>
        have hmem : b ∈ scope g.numArgs pre := hconv b (by simp [hb])
        simp [hold _ hmem]
    simp only [List.map_cons, List.map_append, List.map_nil, m.conv_name, hbias, hproduct,
      hold _ (hconv m.input (by simp)), hold _ (hconv m.init (by simp)), hresult]
    rw [m.sem_conv (w := scaledWeight (ρ m.weight) (ρ new.scale)) shapes shapes.weight, hy]

theorem Match.conv_eq (m : Match g multiplyOp new) (shapes : m.Shapes ρ) (hρ : Run I g ρ) :
    m.conv ρ (ρ m.weight) = some (ρ (result new.conv2dOp)) := by
  have hvalue := hρ.eq_result m.conv_mem m.conv_types
  have hbias : m.bias.toList.map ρ = (m.bias.map ρ).toList := by cases m.bias <;> rfl
  simp only [m.conv_name, m.conv_operands, List.map_cons, List.map_append, List.map_nil,
    hbias] at hvalue
  rw [← m.sem_conv shapes shapes.weight]
  exact hvalue

/-- The convolution has windows, and its type is the shape they give. -/
theorem Match.exists_windows (m : Match g multiplyOp new) (hg : g.Verified) (shapes : m.Shapes ρ)
    (hρ : Run I g ρ) : ∃ wh ww, m.conv2dOp.windows = .ok (wh, ww) ∧
      m.type = m.conv2dOp.resultShape wh ww := by
  obtain ⟨⟨wh, ww⟩, hwindows⟩ := m.valid.windows_ok
  change m.conv2dOp.windows = _ at hwindows
  refine ⟨wh, ww, hwindows, ?_⟩
  rw [← hρ.shape_result hg.toWellFormed m.conv_mem m.conv_types]
  have hconv := m.conv_eq shapes hρ
  rw [Match.conv] at hconv
  cases hbias : m.bias with
  | none =>
    rw [hbias, Option.map_none, Conv2dOp.apply_none hwindows, Option.some.injEq] at hconv
    rw [← hconv, Conv2dOp.unbiased_shape]
  | some b =>
    rw [hbias, Option.map_some, Conv2dOp.apply_some hwindows, Option.some.injEq] at hconv
    rw [← hconv]
    rfl

theorem broadcastedShape_scale {shape : List ℕ} {n : ℕ} (hlength : shape.length = 4)
    (hn : Conv2dOp.dim shape 3 = n) : broadcastedShape shape [1, 1, 1, n] = some shape ∧
      broadcastedShape [1, 1, 1, n] shape = some shape := by
  have hshape : getBroadcastedShape shape [1, 1, 1, n] = some shape := by
    rw [Conv2dOp.eq_of_length_four hlength, hn, getBroadcastedShape_eq_left_iff]
    exact .cons (.inr rfl) (.cons (.inr rfl) (.cons (.inr rfl) (.cons (.inl rfl) .nil)))
  rw [broadcastedShape_of_length (t := [1, 1, 1, n]) hlength,
    broadcastedShape_of_length (s := [1, 1, 1, n]) hlength.symm, getBroadcastedShape_comm _ shape]
  exact ⟨hshape, hshape⟩

/-- **The product of the graph**: its type is that of the convolution, and every element is
scaled. -/
theorem Match.product_eq (m : Match g multiplyOp new) (hg : g.Verified)
    (hmultiply : multiplyOp ∈ g.ops) (hname : multiplyOp.name = .multiply) (shapes : m.Shapes ρ)
    (hρ : Run I g ρ) : (ρ (result multiplyOp)).shape = m.type ∧
      ∀ idx, InShape idx m.type → (ρ (result multiplyOp)).elem idx =
        (ρ (result new.conv2dOp)).elem idx *
          (ρ new.scale).elem (clamp (ρ new.scale).shape idx) := by
  have hvalue := hρ.eq_result hmultiply m.multiply_types
  have hconv := hρ.shape_result hg.toWellFormed m.conv_mem m.conv_types
  obtain ⟨wh, ww, -, htype⟩ := m.exists_windows hg shapes hρ
  have hout : m.conv2dOp.output = m.conv2dOp.resultShape wh ww := htype
  have hchannels : Conv2dOp.dim m.type 3 = (g.type m.weight).getD 0 0 :=
    Conv2dOp.dim_output_three hout
  obtain ⟨hleft, hright⟩ := broadcastedShape_scale m.valid.output_length hchannels
  -- the factors in either order
  rcases m.multiply_operands with hoperands | hoperands
  · simp only [hname, hoperands, List.map_cons, List.map_nil, sem, hconv, shapes.scale, hleft,
      Option.map_some, Option.some.injEq] at hvalue
    rw [← hvalue]
    refine ⟨rfl, fun idx hidx => ?_⟩
    simp only [Tensor.zip, hconv, clamp_of_inShape hidx]
  · simp only [hname, hoperands, List.map_cons, List.map_nil, sem, hconv, shapes.scale, hright,
      Option.map_some, Option.some.injEq] at hvalue
    rw [← hvalue]
    refine ⟨rfl, fun idx hidx => ?_⟩
    simp only [Tensor.zip, hconv, clamp_of_inShape hidx]
    exact mul_comm _ _

omit [Div α] in
/-- **Two convolutions.**  With the scaled weight, a convolution scales everything but the
bias. -/
theorem Match.conv_scaled (m : Match g multiplyOp new) (shapes : m.Shapes ρ)
    {wh ww : Convolution.Window} (hwindows : m.conv2dOp.windows = .ok (wh, ww))
    (htype : m.type = m.conv2dOp.resultShape wh ww) :
    ∃ u u' : Tensor α, u.shape = m.type ∧ u'.shape = m.type ∧
      (∀ idx, InShape idx m.type → u'.elem idx =
        u.elem idx * (ρ new.scale).elem (clamp (ρ new.scale).shape idx)) ∧
      m.conv ρ (ρ m.weight) = some (match m.bias with
        | none => u
        | some b => Tensor.zip (· + ·) m.type u (ρ b)) ∧
      m.conv ρ (scaledWeight (ρ m.weight) (ρ new.scale)) = some (match m.bias with
        | none => u'
        | some b => Tensor.zip (· + ·) m.type u' (ρ b)) := by
  obtain ⟨c, kh, kw, hw⟩ := m.exists_weight
  have hout : m.conv2dOp.output = m.conv2dOp.resultShape wh ww := htype
  have hweight := shapes.weight
  rw [hw] at hweight
  refine ⟨m.conv2dOp.unbiased wh ww (ρ m.input) (ρ m.weight),
    m.conv2dOp.unbiased wh ww (ρ m.input) (scaledWeight (ρ m.weight) (ρ new.scale)),
    (Conv2dOp.unbiased_shape ..).trans htype.symm, (Conv2dOp.unbiased_shape ..).trans htype.symm, ?_,
    ?_, ?_⟩
  · intro idx hidx
    refine (Conv2dOp.elem_unbiased_of_scaled (r := fun f => (ρ new.scale).elem [0, 0, 0, f])
      m.valid htype (fun f c ks hin => elem_scaledWeight hweight shapes.scale
        (by rwa [shapes.weight])) hidx).trans ?_
    have hlength : idx.length = 4 := hidx.length_eq.trans m.valid.output_length
    match idx, hlength with
    | [b, oh, ow, f], _ =>
      have hf : f < (g.type m.weight).getD 0 0 := Conv2dOp.channel_lt hout hidx
      rw [shapes.scale, clamp_scale hf]
      rfl
  all_goals
    unfold Match.conv
    cases m.bias with
    | none => exact Conv2dOp.apply_none hwindows _ _
    | some b =>
      rw [htype]
      exact Conv2dOp.apply_some hwindows _ _ _

theorem Match.getBias_eq (m : Match g multiplyOp new) : getBias new.conv2dOp = m.bias := by
  rw [getBias, m.conv_operands]
  cases m.bias <;> rfl

/-- The new convolution and the product agree when there is no bias that scaling changes. -/
theorem Match.agree_iff (m : Match g multiplyOp new) (hg : g.Verified)
    (hmultiply : multiplyOp ∈ g.ops) (hname : multiplyOp.name = .multiply) (shapes : m.Shapes ρ)
    (hρ : Run I g ρ) {y : Tensor α}
    (hy : m.conv ρ (scaledWeight (ρ m.weight) (ρ new.scale)) = some y) :
    (ρ (result multiplyOp)).Agree y ↔ BiasUnscaled g new ρ := by
  obtain ⟨hproductShape, hproduct⟩ := m.product_eq hg hmultiply hname shapes hρ
  obtain ⟨wh, ww, hwindows, htype⟩ := m.exists_windows hg shapes hρ
  obtain ⟨u, u', hu, hu', hscaled, hconv, hconv'⟩ := m.conv_scaled shapes hwindows htype
  rw [m.conv_eq shapes hρ, Option.some.injEq] at hconv
  obtain rfl := Option.some.inj (hconv'.symm.trans hy)
  rw [BiasUnscaled, m.getBias_eq, type_result hg.toWellFormed m.conv_mem m.conv_types]
  cases hbias : m.bias with
  | none =>
    refine ⟨fun _ b hb => (nomatch hb), fun _ => ⟨hproductShape.trans hu'.symm, ?_⟩⟩
    intro idx hidx
    rw [hproductShape] at hidx
    rw [hproduct idx hidx, hconv, hbias]
    exact (hscaled idx hidx).symm
  | some b =>
    simp only [hbias] at hconv
    -- `(u + b) * s = u * s + b` exactly when `b * s = b`
    have helem : ∀ idx, InShape idx m.type →
        ((ρ (result multiplyOp)).elem idx = (Tensor.zip (· + ·) m.type u' (ρ b)).elem idx ↔
          (ρ b).elem (clamp (ρ b).shape idx) * (ρ new.scale).elem (clamp (ρ new.scale).shape idx) =
            (ρ b).elem (clamp (ρ b).shape idx)) := by
      intro idx hidx
      rw [hproduct idx hidx, hconv]
      simp only [Tensor.zip, hu, hu', clamp_of_inShape hidx, hscaled idx hidx, add_mul]
      exact add_right_inj _
    constructor
    · rintro ⟨-, hagree⟩ _ hb idx hidx
      obtain rfl := Option.some.inj hb
      exact (helem idx hidx).mp (hagree idx (hproductShape ▸ hidx))
    · intro hunscaled
      refine ⟨hproductShape, fun idx hidx => ?_⟩
      rw [hproductShape] at hidx
      exact (helem idx hidx).mpr (hunscaled b rfl idx hidx)

/-- **The product is kept exactly when** there is no bias, or scaling does not change it. -/
theorem preserves_iff_unbiased (hg : g.Verified) (hmultiply : multiplyOp ∈ g.ops)
    (hname : multiplyOp.name = .multiply) (h : matchAndRewrite g multiplyOp = some new)
    (hρ : Run I g ρ) : Preserves I g multiplyOp new ρ ↔ BiasUnscaled g new ρ := by
  obtain ⟨m⟩ := exists_match hg hmultiply hname h
  have shapes := m.shapes hg.toWellFormed hmultiply hρ
  obtain ⟨wh, ww, hwindows, htype⟩ := m.exists_windows hg shapes hρ
  obtain ⟨u, u', -, -, -, -, hconv⟩ := m.conv_scaled shapes hwindows htype
  obtain ⟨pre, post, hops⟩ := List.append_of_mem m.conv_mem
  have hdominated := hg.dominated
  rw [hops] at hdominated
  -- the value of the new convolution is determined
  have hsolves := m.solves (I := I) hg.toWellFormed shapes hops
    (mem_scope_of_isConstant hg.toWellFormed hops
      (hg.dominated.mem_of_mem_operands hmultiply m.scale_mem) m.scale_constant)
    (mem_scope_of_isConstant hg.toWellFormed hops
      (hg.dominated.mem_of_mem_operands m.conv_mem (by simp [m.conv_operands]))
      m.weight_constant) hdominated.operands_mem hconv
  obtain ⟨env, hrun, henv⟩ := run_of_solves (m.scoped hg.toWellFormed hmultiply hops)
    (fun v hv => congrArg some (m.values_of_mem hg.toWellFormed hops _ hv).symm) hsolves
  have hvalue := henv (result new.newConv) (List.mem_append_right _ (List.mem_flatMap.mpr
    ⟨new.newConv, by simp, Operation.opResult_mem_results.mpr ⟨rfl, by
      simp [m.newConv, Operation.numResults, m.conv_types]⟩⟩))
  rw [Match.values, if_pos rfl] at hvalue
  have hagree := m.agree_iff hg hmultiply hname shapes hρ hconv
  constructor
  · rintro ⟨-, env', y, hrun', hy, hagree'⟩
    obtain rfl := Option.some.inj (hrun.symm.trans hrun')
    obtain rfl := Option.some.inj (hvalue.symm.trans hy)
    exact hagree.mp hagree'
  · intro hunscaled
    exact ⟨fun pre post hops => m.scoped hg.toWellFormed hmultiply hops,
      env, _, hrun, hvalue, hagree.mpr hunscaled⟩

end Values

/-! ## A convolution with a bias -/

/-- A convolution of two pixels to two channels with a bias, and its product with a scale for each
channel. -/
def pixelGraph : Graph where
  numArgs := 4
  argTypes := [[1, 2, 1, 1], [2, 1, 1, 1], [1, 1, 1, 2], [1, 1, 1, 2]]
  constParams := [1, 2, 3]
  ops := [⟨0, .empty [1, 2, 1, 2], [], [[1, 2, 1, 2]]⟩,
    ⟨1, .conv2d ⟨.int 1, .int 0, .int 1, 1, none⟩,
      [.blockArg 0, .blockArg 1, .blockArg 2, .opResult 0 0], [[1, 2, 1, 2]]⟩,
    ⟨2, .empty [1, 2, 1, 2], [], [[1, 2, 1, 2]]⟩,
    ⟨3, .multiply, [.opResult 1 0, .blockArg 3, .opResult 2 0], [[1, 2, 1, 2]]⟩]
  returns := [.opResult 3 0]

/-- The product of the pixels. -/
def pixelMultiply : Op :=
  ⟨3, .multiply, [.opResult 1 0, .blockArg 3, .opResult 2 0], [[1, 2, 1, 2]]⟩

theorem pixelGraph_verified : pixelGraph.Verified :=
  { nodup := by decide, dominated := by decide, returns_mem := by decide, ops := by decide }

/-- Integers, with nothing in fresh tensors. -/
def integers : Interp ℤ where
  exp := id
  empty _ _ := 0
  other _ _ _ := none

/-- A tensor of one number. -/
def filled (shape : List ℕ) (n : ℤ) : Tensor ℤ := ⟨shape, fun _ => n⟩

/-- The convolution of the graph. -/
def pixelOp : Conv2dOp :=
  ⟨[1, 2, 1, 1], [2, 1, 1, 1], some [1, 1, 1, 2], [1, 2, 1, 2],
    ⟨.int 1, .int 0, .int 1, 1, none⟩⟩

/-- The convolution of ones with weights of one. -/
def pixelConv (bias : ℤ) : Tensor ℤ :=
  Tensor.zip (· + ·) [1, 2, 1, 2]
    (pixelOp.unbiased .unit .unit (filled [1, 2, 1, 1] 1) (filled [2, 1, 1, 1] 1))
    (filled [1, 1, 1, 2] bias)

/-- A scale for the first channel, and one more for the second. -/
def pixelScale (scale : ℤ) : Tensor ℤ := ⟨[1, 1, 1, 2], fun idx => scale + idx.getD 3 0⟩

/-- The values of the graph for a bias and a scale. -/
def pixelValues (bias scale : ℤ) : Value → Tensor ℤ
  | .blockArg 0 => filled [1, 2, 1, 1] 1
  | .blockArg 1 => filled [2, 1, 1, 1] 1
  | .blockArg 2 => filled [1, 1, 1, 2] bias
  | .blockArg 3 => pixelScale scale
  | .opResult 1 0 => pixelConv bias
  | .opResult 3 0 => Tensor.zip (· * ·) [1, 2, 1, 2] (pixelConv bias) (pixelScale scale)
  | _ => filled [1, 2, 1, 2] 0

theorem pixelGraph_run (bias scale : ℤ) : Run integers pixelGraph (pixelValues bias scale) where
  solves := by
    have hshape : pixelOp.resultShape .unit .unit = [1, 2, 1, 2] := by decide
    intro op hop k hk
    obtain rfl : k = 0 := by
      have hone : ∀ op ∈ pixelGraph.ops, op.numResults = 1 := by decide
      have := hone op hop
      omega
    simp only [pixelGraph, List.mem_cons, List.not_mem_nil, or_false] at hop
    obtain rfl | rfl | rfl | rfl := hop
    · rfl
    · exact congrArg (fun shape => some (Tensor.zip (· + ·) shape _ _)) hshape
    · rfl
    · rfl
  typed := by
    intro v hv
    rcases List.mem_append.mp hv with hv | hv
    · obtain ⟨n, hn, rfl⟩ := List.mem_map.mp hv
      have hn' : n < 4 := List.mem_range.mp hn
      interval_cases n <;> rfl
    · obtain ⟨op, hop, hres⟩ := List.mem_flatMap.mp hv
      simp only [pixelGraph, List.mem_cons, List.not_mem_nil, or_false] at hop
      obtain rfl | rfl | rfl | rfl := hop <;>
      · obtain rfl := List.mem_singleton.mp hres
        rfl

/-- What the pattern creates for the pixels. -/
def pixelRewrite : Rewrite := ((matchAndRewrite pixelGraph pixelMultiply).get (by decide))

/-- Without a bias to speak of, the product is kept. -/
theorem preserves_pixel : Preserves integers pixelGraph pixelMultiply pixelRewrite
    (pixelValues 0 2) ↔ BiasUnscaled pixelGraph pixelRewrite (pixelValues 0 2) :=
  preserves_iff_unbiased pixelGraph_verified (by decide) rfl (Option.some_get _).symm
    (pixelGraph_run 0 2)

/-- **A bias of one and a scale of two.**  The product is four, and the new convolution
computes three. -/
theorem biasedPixel_not_preserved : pixelGraph.Verified ∧
    matchAndRewrite pixelGraph pixelMultiply = some pixelRewrite ∧
    Run integers pixelGraph (pixelValues 1 2) ∧
    ¬ Preserves integers pixelGraph pixelMultiply pixelRewrite (pixelValues 1 2) := by
  refine ⟨pixelGraph_verified, (Option.some_get _).symm, pixelGraph_run 1 2, ?_⟩
  rintro ⟨-, env, y, hrun, hy, hagree⟩
  obtain rfl := Option.some.inj hrun
  obtain rfl := Option.some.inj hy
  have helem := hagree.2 [0, 0, 0, 0] (by decide)
  revert helem
  decide

end Conv2dMultiply

end TTIR
