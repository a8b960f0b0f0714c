/-
# Elementwise operations on the host

`ElementwiseBinaryOpConversionPattern` of `TTIRToLinalg.cpp`.  A `linalg` elementwise operation
reads operands of one shape, so that an operand of another shape is first collapsed, which removes
the unit dimensions it is stretched along, and then broadcast.

* `getBroadcastDims`, `getCollapseDims`, `matchAndRewrite` : the translated code;
* `CollapseShapeOp`, `LinalgBroadcastOp` : the two operations, with what their verifiers ask;
* `Stretches` : the shapes an operand can be stretched to;
* `collapseLoop_spec` : the groups, by induction on the loop;
* `elementwise_reads` : every operand is read where right-aligned broadcasting reads it.
-/
import TTMLIR.Fallible
import TTMLIR.TensorOps

namespace TTIRToLinalg

open MixedRadix TTIR Fallible

/-! ## The translated code -/

/-- The loop of `getBroadcastDims`, from dimension `i` on. -/
def broadcastLoop (sizeDiff : ℕ) : ℕ → List (ℕ × ℕ) → List ℕ
  | _, [] => []
  | i, (inputDim, targetDim) :: dims =>
    if i < sizeDiff ∨ inputDim ≠ targetDim then i :: broadcastLoop sizeDiff (i + 1) dims
    else broadcastLoop sizeDiff (i + 1) dims

/-- `getBroadcastDims`. -/
def getBroadcastDims (inputShape targetShape : List ℕ) : Except String (List ℕ) :=
  if targetShape.length < inputShape.length then
    .error "targetShape cannot be smaller than inputShape!"
  else
    let sizeDiff := targetShape.length - inputShape.length
    let paddedInput := List.replicate sizeDiff 1 ++ inputShape
    .ok (broadcastLoop sizeDiff 0 (paddedInput.zip targetShape))

/-- The loop of `getCollapseDims`: `collapseDims` is the group that is being collected. -/
def collapseLoop : ℕ → List (ℕ × ℕ) → List ℕ → List (List ℕ) → List ℕ × List (List ℕ)
  | _, [], collapseDims, reassocIndexes => (collapseDims, reassocIndexes)
  | i, (inputDim, targetDim) :: dims, collapseDims, reassocIndexes =>
    if inputDim = targetDim then
      collapseLoop (i + 1) dims [] (reassocIndexes ++ [collapseDims ++ [i]])
    else collapseLoop (i + 1) dims (collapseDims ++ [i]) reassocIndexes

/-- `getCollapseDims`. -/
def getCollapseDims (inputShape targetShape : List ℕ) : List (List ℕ) :=
  let sizeDiff := targetShape.length - inputShape.length
  let (collapseDims, reassocIndexes) :=
    collapseLoop 0 (inputShape.zip (targetShape.drop sizeDiff)) [] []
  if collapseDims = [] then reassocIndexes
  else
    match reassocIndexes.getLast? with
    | none => [collapseDims]
    | some back => reassocIndexes.dropLast ++ [back ++ collapseDims]

/-- What is emitted for an operand: the groups of a `tensor.collapse_shape`, and the dimensions of a
`linalg.broadcast`. -/
structure Emitted : Type where
  collapse : Option (List (List ℕ))
  broadcast : Option (List ℕ)
  deriving DecidableEq

/-- The body of the loop over the operands. -/
def lowerInput (broadcastedShape input : List ℕ) : Except String Emitted := do
  let broadcastDims ← getBroadcastDims input broadcastedShape
  let collapseDimGroups :=
    if broadcastDims.length ≠ broadcastedShape.length then getCollapseDims input broadcastedShape
    else []
  if broadcastDims = [] then return ⟨none, none⟩
  else
    return ⟨if collapseDimGroups.length ≠ input.length then some collapseDimGroups else none,
      some broadcastDims⟩

/-- `ElementwiseBinaryOpConversionPattern::matchAndRewrite`: the shape of the operation, and what is
emitted for its operands. -/
def matchAndRewrite (lhsShape rhsShape : List ℕ) : Except String (List ℕ × List Emitted) :=
  match broadcastedShape lhsShape rhsShape with
  | none => .error "Operands are not broadcastable!"
  | some shape => do return (shape, ← [lhsShape, rhsShape].mapM (lowerInput shape))

/-! ## The operations of other dialects -/

section Operations

variable {α : Type}

/-- The verifier of `tensor.collapse_shape`: the groups are consecutive and cover the dimensions;
a scalar has no groups, and comes from a tensor of one element. -/
def CollapseShapeOp.Verified (shape : List ℕ) (groups : List (List ℕ)) : Prop :=
  if groups = [] then ∀ n ∈ shape, n = 1
  else groups.flatten = List.range shape.length ∧ ∀ group ∈ groups, group ≠ []

/-- The shape of the result. -/
def CollapseShapeOp.resultShape (shape : List ℕ) (groups : List (List ℕ)) : List ℕ :=
  groups.map fun group => (group.map fun d => shape.getD d 1).prod

/-- The dimensions of the result of a `linalg.broadcast` that its operand has. -/
def LinalgBroadcastOp.kept (init dims : List ℕ) : List ℕ :=
  (List.range init.length).filter fun d => d ∉ dims

/-- The verifier of `linalg.broadcast`. -/
structure LinalgBroadcastOp.Verified (input init dims : List ℕ) : Prop where
  rank : input.length + dims.length = init.length
  inRange : ∀ d ∈ dims, d < init.length
  shapes : ∀ i < input.length, input.getD i 0 = init.getD ((kept init dims).getD i 0) 0

/-- The result of a `linalg.broadcast`. -/
def LinalgBroadcastOp.apply (x : Tensor α) (init dims : List ℕ) : Tensor α :=
  ⟨init, fun idx => x.elem ((kept init dims).map fun d => idx.getD d 0)⟩

/-- The operand after the first operation. -/
def Emitted.collapsed (e : Emitted) (x : Tensor α) : Tensor α :=
  match e.collapse with
  | none => x
  | some groups => x.reshape (CollapseShapeOp.resultShape x.shape groups)

/-- The operand as the elementwise operation reads it. -/
def Emitted.apply (e : Emitted) (shape : List ℕ) (x : Tensor α) : Tensor α :=
  match e.broadcast with
  | none => e.collapsed x
  | some dims => LinalgBroadcastOp.apply (e.collapsed x) shape dims

/-- The shape of the operand after the first operation. -/
def Emitted.collapsedShape (e : Emitted) (input : List ℕ) : List ℕ :=
  match e.collapse with
  | none => input
  | some groups => CollapseShapeOp.resultShape input groups

/-- What is emitted for an operand is well formed, and has the shape of the operation. -/
structure Emitted.Wellformed (e : Emitted) (shape input : List ℕ) : Prop where
  collapse : ∀ groups, e.collapse = some groups → CollapseShapeOp.Verified input groups
  broadcast : ∀ dims, e.broadcast = some dims →
    LinalgBroadcastOp.Verified (e.collapsedShape input) shape dims
  result : e.broadcast = none → e.collapsedShape input = shape

end Operations

/-- The verifier of elementwise operations: the shape all operands are stretched to. -/
def broadcastedShapes (shapes : List (List ℕ)) : Option (List ℕ) :=
  shapes.foldlM broadcastedShape []

/-! ## Shapes that are stretched -/

/-- **An operand is stretched** along dimensions it lacks or has with extent one. -/
def Stretches (input target : List ℕ) : Prop :=
  input.length ≤ target.length ∧
    List.Forall₂ (fun m n => m = n ∨ m = 1) input (target.drop (target.length - input.length))

theorem stretches_self (shape : List ℕ) : Stretches shape shape := by
  refine ⟨Nat.le_refl _, ?_⟩
  rw [Nat.sub_self, List.drop_zero]
  exact List.forall₂_same.mpr fun _ _ => .inl rfl

variable {s t r : List ℕ}

/-- Stretching twice. -/
theorem Stretches.trans (hst : Stretches s t) (htr : Stretches t r) : Stretches s r := by
  refine ⟨Nat.le_trans hst.1 htr.1, ?_⟩
  have hlength : t.length - s.length + (r.length - t.length) = r.length - s.length := by
    have h₁ := hst.1
    have h₂ := htr.1
    omega
  have hdrop := List.forall₂_drop (t.length - s.length) htr.2
  rw [List.drop_drop, Nat.add_comm, hlength] at hdrop
  have hcomp : ∀ m n p : ℕ, (m = n ∨ m = 1) → (n = p ∨ n = 1) → m = p ∨ m = 1 := by omega
  refine List.forall₂_iff_get.mpr ⟨?_, fun j h₁ h₂ => ?_⟩
  · exact hst.2.length_eq.trans hdrop.length_eq
  · have hj : j < (t.drop (t.length - s.length)).length := hst.2.length_eq ▸ h₁
    exact hcomp _ _ _ (hst.2.get h₁ hj) (hdrop.get hj h₂)

/-- Both shapes are stretched to their broadcast, when they have one rank. -/
theorem forall₂_of_getBroadcastedShape (h : getBroadcastedShape s t = some r) :
    List.Forall₂ (fun m n => m = n ∨ m = 1) s r ∧ List.Forall₂ (fun m n => m = n ∨ m = 1) t r := by
  induction s generalizing t r with
  | nil =>
    cases t with
    | nil =>
      obtain rfl := Option.some.inj h
      exact ⟨.nil, .nil⟩
    | cons _ _ => cases h
  | cons m s ih =>
    cases t with
    | nil => cases h
    | cons n t =>
      obtain ⟨e, es, rfl, hes, he⟩ := getBroadcastedShape_cons h
      obtain ⟨hs, ht⟩ := ih hes
      exact ⟨.cons (by omega) hs, .cons (by omega) ht⟩

theorem stretches_of_padFront {rank : ℕ} {s r : List ℕ} (hrank : s.length ≤ rank)
    (h : List.Forall₂ (fun m n => m = n ∨ m = 1) (padFront rank s) r) : Stretches s r := by
  have hlength : r.length = rank := by
    rw [← h.length_eq, padFront, List.length_append, List.length_replicate]
    omega
  refine ⟨by omega, ?_⟩
  have hdrop := List.forall₂_drop (rank - s.length) h
  rwa [padFront, List.drop_left' List.length_replicate, ← hlength] at hdrop

/-- **Both shapes are stretched to their broadcast.** -/
theorem stretches_of_broadcastedShape (h : broadcastedShape s t = some r) :
    Stretches s r ∧ Stretches t r := by
  obtain ⟨hs, ht⟩ := forall₂_of_getBroadcastedShape h
  exact ⟨stretches_of_padFront (by omega) hs, stretches_of_padFront (by omega) ht⟩

/-- All shapes are stretched to the broadcast of them all. -/
theorem stretches_of_broadcastedShapes {shapes : List (List ℕ)} {r : List ℕ}
    (h : broadcastedShapes shapes = some r) : ∀ s ∈ shapes, Stretches s r := by
  have hfold : ∀ acc, shapes.foldlM broadcastedShape acc = some r →
      Stretches acc r ∧ ∀ s ∈ shapes, Stretches s r := by
    clear h
    induction shapes with
    | nil =>
      intro acc h
      obtain rfl := Option.some.inj h
      exact ⟨stretches_self _, by simp⟩
    | cons s shapes ih =>
      intro acc h
      rw [List.foldlM_cons] at h
      obtain ⟨acc', hacc', h⟩ := Option.bind_eq_some_iff.mp h
      obtain ⟨hstretch, hrest⟩ := ih acc' h
      obtain ⟨h₁, h₂⟩ := stretches_of_broadcastedShape hacc'
      exact ⟨h₁.trans hstretch, List.forall_mem_cons.mpr ⟨h₂.trans hstretch, hrest⟩⟩
  exact (hfold [] h).2

/-! ## The two loops -/

section Loops

variable {S T : ℕ → ℕ}

/-- The loop of `getBroadcastDims` finds the dimensions before the operand, and those whose extents
differ. -/
theorem broadcastLoop_eq (sizeDiff i n : ℕ) :
    broadcastLoop sizeDiff i ((List.range' i n).map fun d => (S d, T d)) =
      (List.range' i n).filter fun d => d < sizeDiff ∨ S d ≠ T d := by
  induction n generalizing i with
  | zero => rfl
  | succ n ih =>
    rw [List.range'_succ, List.map_cons, broadcastLoop, ih]
    by_cases h : i < sizeDiff ∨ S i ≠ T i
    · rw [if_pos h, List.filter_cons_of_pos (by simpa using h)]
    · rw [if_neg h, List.filter_cons_of_neg (by simpa using h)]

/-- **The loop of `getCollapseDims`**: the groups and what is left over list the dimensions in
order, and each group has the extent of its last dimension, the others being one. -/
theorem collapseLoop_spec (i n : ℕ) (collapseDims : List ℕ) (reassocIndexes : List (List ℕ))
    (hstretch : ∀ d ∈ List.range' i n, S d = T d ∨ S d = 1)
    (hone : (collapseDims.map S).prod = 1) (hne : ∀ group ∈ reassocIndexes, group ≠ []) :
    let result := collapseLoop i ((List.range' i n).map fun d => (S d, T d)) collapseDims
      reassocIndexes
    result.2.flatten ++ result.1 = reassocIndexes.flatten ++ collapseDims ++ List.range' i n ∧
      (result.1.map S).prod = 1 ∧ (∀ group ∈ result.2, group ≠ []) ∧
      (result.2.map fun group => (group.map S).prod) =
        (reassocIndexes.map fun group => (group.map S).prod) ++
          ((List.range' i n).filter fun d => S d = T d).map S := by
  induction n generalizing i collapseDims reassocIndexes with
  | zero => simpa [collapseLoop] using ⟨hone, hne⟩
  | succ n ih =>
    rw [List.range'_succ] at hstretch ⊢
    obtain ⟨hi, hrest⟩ := List.forall_mem_cons.mp hstretch
    rw [List.map_cons, collapseLoop]
    by_cases h : S i = T i
    · rw [if_pos h, List.filter_cons_of_pos (by simpa using h)]
      have hne' : ∀ group ∈ reassocIndexes ++ [collapseDims ++ [i]], group ≠ [] := by
        intro group hgroup
        rcases List.mem_append.mp hgroup with hgroup | hgroup
        · exact hne group hgroup
        · rw [List.mem_singleton.mp hgroup]
          simp
      obtain ⟨hflat, hone', hgroups, hprods⟩ := ih (i + 1) [] _ hrest rfl hne'
      refine ⟨?_, hone', hgroups, ?_⟩
      · rw [hflat]
        simp
      · rw [hprods]
        simp [hone]
    · rw [if_neg h, List.filter_cons_of_neg (by simpa using h)]
      have hone' : ((collapseDims ++ [i]).map S).prod = 1 := by
        simp [hone, hi.resolve_left h]
      obtain ⟨hflat, hone'', hgroups, hprods⟩ := ih (i + 1) _ _ hrest hone' hne
      refine ⟨?_, hone'', hgroups, hprods⟩
      rw [hflat]
      simp

end Loops

/-! ## One operand -/

section Operand

variable {input target : List ℕ}

/-- The extent of the operand, by dimension of the operand. -/
def extent (input : List ℕ) (d : ℕ) : ℕ := input.getD d 1

/-- The extent of the target in the same place. -/
def targetExtent (input target : List ℕ) (d : ℕ) : ℕ :=
  target.getD (target.length - input.length + d) 0

/-- The dimensions of the operand that are not stretched. -/
def equalDims (input target : List ℕ) : List ℕ :=
  (List.range input.length).filter fun d => extent input d = targetExtent input target d

theorem map_range_getD (l : List ℕ) (a : ℕ) : (List.range l.length).map (l.getD · a) = l := by
  apply List.ext_getElem
  · simp
  · intro d h₁ h₂
    rw [List.getElem_map, List.getElem_range, List.getD_eq_getElem _ _ h₂]

theorem Stretches.extent_eq (h : Stretches input target) {d : ℕ} (hd : d < input.length) :
    extent input d = targetExtent input target d ∨ extent input d = 1 := by
  have hlen := h.1
  have hd' : d < (target.drop (target.length - input.length)).length := h.2.length_eq ▸ hd
  have hget := h.2.get hd hd'
  have ht : target.length - input.length + d < target.length := by omega
  rw [List.get_eq_getElem, List.get_eq_getElem, List.getElem_drop] at hget
  rw [extent, targetExtent, List.getD_eq_getElem _ _ hd, List.getD_eq_getElem _ _ ht]
  exact hget

/-- **The dimensions that are broadcast.** -/
theorem getBroadcastDims_eq (h : Stretches input target) :
    getBroadcastDims input target = .ok ((List.range target.length).filter fun d =>
      d < target.length - input.length ∨
        (padFront target.length input).getD d 0 ≠ target.getD d 0) := by
  have hlen := h.1
  have hpad : (padFront target.length input).length = target.length := by
    rw [padFront, List.length_append, List.length_replicate]
    omega
  have hzip : (padFront target.length input).zip target = (List.range' 0 target.length).map
      fun d => ((padFront target.length input).getD d 0, target.getD d 0) := by
    apply List.ext_getElem
    · simp [hpad]
    · intro d h₁ h₂
      have hd : d < target.length := by simpa using h₂
      have hd' : d < (padFront target.length input).length := by omega
      simp [hd, hd']
  rw [getBroadcastDims, if_neg (by omega)]
  show Except.ok (broadcastLoop (target.length - input.length) 0
    ((padFront target.length input).zip target)) = _
  rw [hzip, broadcastLoop_eq (S := fun d => (padFront target.length input).getD d 0)
    (T := fun d => target.getD d 0), ← List.range_eq_range']

/-- **The dimensions that are kept** are those of the operand that are not stretched. -/
theorem kept_eq (h : Stretches input target) :
    LinalgBroadcastOp.kept target ((List.range target.length).filter fun d =>
      d < target.length - input.length ∨
        (padFront target.length input).getD d 0 ≠ target.getD d 0) =
      (equalDims input target).map (target.length - input.length + ·) := by
  have hlen := h.1
  have hrange : List.range target.length = List.range (target.length - input.length) ++
      (List.range input.length).map (target.length - input.length + ·) := by
    rw [← List.range_add, Nat.sub_add_cancel hlen]
  have hkept : LinalgBroadcastOp.kept target ((List.range target.length).filter fun d =>
      d < target.length - input.length ∨
        (padFront target.length input).getD d 0 ≠ target.getD d 0) =
      (List.range target.length).filter fun d => ¬ (d < target.length - input.length ∨
        (padFront target.length input).getD d 0 ≠ target.getD d 0) := by
    refine List.filter_congr fun d hd => ?_
    simp [List.mem_range.mp hd]
  have hpad : ∀ d < input.length, (padFront target.length input).getD
      (target.length - input.length + d) 0 = extent input d := by
    intro d hd
    rw [padFront, extent, List.getD_append_right _ _ _ _ (by simp), List.length_replicate,
      Nat.add_sub_cancel_left, List.getD_eq_getElem _ _ hd, List.getD_eq_getElem _ _ hd]
  rw [hkept, equalDims, hrange, List.filter_append, List.filter_map]
  have hfront : (List.range (target.length - input.length)).filter (fun d =>
      ¬ (d < target.length - input.length ∨
        (padFront target.length input).getD d 0 ≠ target.getD d 0)) = [] := by
    rw [List.filter_eq_nil_iff]
    intro d hd
    simp [List.mem_range.mp hd]
  rw [hfront, List.nil_append]
  refine congrArg _ (List.filter_congr fun d hd => ?_)
  have hd' := List.mem_range.mp hd
  show decide (¬ (_ ∨ _)) = decide _
  rw [hpad d hd', targetExtent]
  refine decide_eq_decide.mpr ?_
  constructor
  · intro hnot
    by_contra hne
    exact hnot (.inr hne)
  · rintro heq (hlt | hne)
    · exact absurd hlt (Nat.not_lt.mpr (Nat.le_add_right _ _))
    · exact hne heq

/-- **The groups**: they cover the dimensions of the operand, and have the extents that are not
stretched. -/
theorem getCollapseDims_spec (h : Stretches input target) (hne : equalDims input target ≠ []) :
    (getCollapseDims input target).flatten = List.range input.length ∧
      (∀ group ∈ getCollapseDims input target, group ≠ []) ∧
      CollapseShapeOp.resultShape input (getCollapseDims input target) =
        (equalDims input target).map (extent input) := by
  have hlen := h.1
  have hzip : input.zip (target.drop (target.length - input.length)) =
      (List.range' 0 input.length).map fun d =>
        (extent input d, targetExtent input target d) := by
    apply List.ext_getElem
    · simp
      omega
    · intro d h₁ h₂
      have hd : d < input.length := by simpa using h₂
      have ht : target.length - input.length + d < target.length := by omega
      simp [extent, targetExtent, hd, ht]
  obtain ⟨hflat, hone, hgroups, hprods⟩ := collapseLoop_spec (S := extent input)
    (T := targetExtent input target) 0 input.length [] []
    (fun d hd => h.extent_eq (by simpa using hd)) rfl (by simp)
  rw [← hzip] at hflat hone hgroups hprods
  rw [← List.range_eq_range'] at hflat hprods
  simp only [List.flatten_nil, List.nil_append, List.map_nil] at hflat hprods
  generalize hresult : collapseLoop 0 (input.zip (target.drop (target.length - input.length))) []
    [] = result at hflat hone hgroups hprods
  obtain ⟨collapseDims, reassocIndexes⟩ := result
  simp only at hflat hone hgroups hprods
  have hdef : getCollapseDims input target =
      if collapseDims = [] then reassocIndexes
      else
        match reassocIndexes.getLast? with
        | none => [collapseDims]
        | some back => reassocIndexes.dropLast ++ [back ++ collapseDims] := by
    rw [getCollapseDims]
    simp only [hresult]
  rw [hdef]
  by_cases hnil : collapseDims = []
  · rw [if_pos hnil]
    rw [hnil, List.append_nil] at hflat
    exact ⟨hflat, hgroups, hprods⟩
  · rw [if_neg hnil]
    -- some dimension is not stretched, so that there is a last group
    have hne' : reassocIndexes ≠ [] := by
      intro hnil'
      rw [hnil'] at hprods
      exact hne (List.map_eq_nil_iff.mp hprods.symm)
    obtain ⟨front, back, rfl⟩ : ∃ front back, reassocIndexes = front ++ [back] :=
      ⟨_, _, (List.dropLast_append_getLast hne').symm⟩
    rw [List.getLast?_append_of_ne_nil _ (by simp), List.getLast?_singleton]
    simp only [List.dropLast_concat]
    refine ⟨?_, ?_, ?_⟩
    · rw [← hflat]
      simp
    · intro group hgroup
      rcases List.mem_append.mp hgroup with hgroup | hgroup
      · exact hgroups group (List.mem_append_left _ hgroup)
      · rw [List.mem_singleton.mp hgroup]
        simp [hnil]
    · refine Eq.trans ?_ hprods
      have hlast : ((back ++ collapseDims).map (extent input)).prod =
          (back.map (extent input)).prod := by
        rw [List.map_append, List.prod_append, hone, mul_one]
      rw [CollapseShapeOp.resultShape, List.map_append, List.map_append]
      exact congrArg (front.map _ ++ [·]) hlast

/-- The place of an operand's dimension in the target, at an index of the target. -/
def coordinateOf (input target idx : List ℕ) (d : ℕ) : ℕ :=
  idx.getD (target.length - input.length + d) 0

variable {idx : List ℕ}

theorem clamp_eq (hlen : input.length ≤ target.length) (hidx : idx.length = target.length) :
    clamp input idx = (List.range input.length).map fun d =>
      coordinateOf input target idx d % extent input d := by
  rw [clamp, hidx]
  apply List.ext_getElem
  · simp
    omega
  · intro d h₁ h₂
    have hd : d < input.length := by simpa using h₂
    have hi : target.length - input.length + d < idx.length := by omega
    simp [coordinateOf, extent, hd, hi]

/-- The index at which the operand is read is one of its indices. -/
theorem inShape_clamp (h : Stretches input target) (hidx : InShape idx target) :
    InShape (clamp input idx) input := by
  have hlen := h.1
  rw [clamp_eq hlen hidx.length_eq]
  refine List.forall₂_iff_get.mpr ⟨by simp, fun d h₁ h₂ => ?_⟩
  have ht : target.length - input.length + d < target.length := by omega
  have hlt := getD_lt_of_inShape hidx ht
  have hpos : 0 < extent input d := by
    rcases h.extent_eq h₂ with heq | heq
    · rw [heq, targetExtent]
      omega
    · omega
  have hget : input[d] = extent input d := (List.getD_eq_getElem _ _ h₂).symm
  rw [List.get_eq_getElem, List.get_eq_getElem, List.getElem_map, List.getElem_range, hget]
  exact Nat.mod_lt _ hpos

theorem coordinateOf_mod (hidx : InShape idx target)
    (hlen : input.length ≤ target.length) {d : ℕ} (hd : d ∈ equalDims input target) :
    coordinateOf input target idx d % extent input d = coordinateOf input target idx d := by
  obtain ⟨hd, heq⟩ := List.mem_filter.mp hd
  have hd' := List.mem_range.mp hd
  rw [of_decide_eq_true heq, targetExtent]
  exact Nat.mod_eq_of_lt (getD_lt_of_inShape hidx (by omega))

/-- **The offset** of what is read is the one in the collapsed operand. -/
theorem rowMajor_equalDims (h : Stretches input target) (hidx : InShape idx target) :
    rowMajor ((equalDims input target).map (extent input))
        ((equalDims input target).map (coordinateOf input target idx)) =
      rowMajor input (clamp input idx) := by
  have hlen := h.1
  have hfilter := (rowMajor_filter (fun d => extent input d = targetExtent input target d)
    (List.range input.length) (extent input)
    (fun d => coordinateOf input target idx d % extent input d) fun d hd hne => by
      have hone := (h.extent_eq (List.mem_range.mp hd)).resolve_left hne
      rw [hone]
      exact ⟨rfl, Nat.mod_one _⟩).1
  have hcoords : (equalDims input target).map (coordinateOf input target idx) =
      (equalDims input target).map fun d =>
        coordinateOf input target idx d % extent input d :=
    List.map_congr_left fun d hd => (coordinateOf_mod hidx hlen hd).symm
  rw [hcoords, clamp_eq hlen hidx.length_eq]
  exact hfilter.trans (congrArg (rowMajor · _) (map_range_getD input 1))

theorem equalDims_eq_range (hlength : (equalDims input target).length = input.length) :
    equalDims input target = List.range input.length :=
  List.filter_sublist.eq_of_length (by rw [List.length_range]; exact hlength)

/-- The groups that are used: none when every dimension of the target is broadcast. -/
def groupsOf (input target : List ℕ) : List (List ℕ) :=
  if equalDims input target = [] then [] else getCollapseDims input target

theorem resultShape_groupsOf (h : Stretches input target) :
    CollapseShapeOp.resultShape input (groupsOf input target) =
      (equalDims input target).map (extent input) := by
  rw [groupsOf]
  split_ifs with hnil
  · rw [hnil]
    rfl
  · exact (getCollapseDims_spec h hnil).2.2

/-- They can be collapsed. -/
theorem verified_groupsOf (h : Stretches input target) :
    CollapseShapeOp.Verified input (groupsOf input target) := by
  rw [CollapseShapeOp.Verified]
  by_cases hnil : equalDims input target = []
  · rw [if_pos (by rw [groupsOf, if_pos hnil])]
    intro n hn
    obtain ⟨d, hd, rfl⟩ := List.getElem_of_mem hn
    have hne : extent input d ≠ targetExtent input target d := by
      intro heq
      have hmem : d ∈ equalDims input target :=
        List.mem_filter.mpr ⟨List.mem_range.mpr hd, decide_eq_true heq⟩
      rw [hnil] at hmem
      cases hmem
    rw [← (h.extent_eq hd).resolve_left hne, extent, List.getD_eq_getElem _ _ hd]
  · obtain ⟨hflat, hgroups, hshape⟩ := getCollapseDims_spec h hnil
    rw [groupsOf, if_neg hnil, if_neg]
    · exact ⟨hflat, hgroups⟩
    · intro hgnil
      rw [hgnil] at hshape
      exact hnil (List.map_eq_nil_iff.mp hshape.symm)

/-- The dimensions that are broadcast. -/
def broadcastDimsOf (input target : List ℕ) : List ℕ :=
  (List.range target.length).filter fun d => d < target.length - input.length ∨
    (padFront target.length input).getD d 0 ≠ target.getD d 0

/-- Every dimension of the target is broadcast, or is a dimension of the operand. -/
theorem length_broadcastDimsOf (h : Stretches input target) :
    (equalDims input target).length + (broadcastDimsOf input target).length = target.length := by
  have hkept := congrArg List.length (kept_eq h)
  rw [List.length_map] at hkept
  have hfilter : LinalgBroadcastOp.kept target (broadcastDimsOf input target) =
      (List.range target.length).filter fun d => ¬ (d < target.length - input.length ∨
        (padFront target.length input).getD d 0 ≠ target.getD d 0) := by
    refine List.filter_congr fun d hd => ?_
    simp [broadcastDimsOf, List.mem_range.mp hd]
  rw [← hkept]
  show (LinalgBroadcastOp.kept target (broadcastDimsOf input target)).length + _ = _
  rw [hfilter, broadcastDimsOf, ← List.countP_eq_length_filter, ← List.countP_eq_length_filter,
    Nat.add_comm]
  have hcount := List.length_eq_countP_add_countP (l := List.range target.length)
    fun d => decide (d < target.length - input.length ∨
      (padFront target.length input).getD d 0 ≠ target.getD d 0)
  rw [List.length_range] at hcount
  simpa using hcount.symm

/-- An operand of which nothing is stretched has the shape of the target. -/
theorem eq_target (h : Stretches input target)
    (hlength : (equalDims input target).length = target.length) : input = target := by
  have hle : (equalDims input target).length ≤ input.length := by
    have hsub := (List.filter_sublist (l := List.range input.length)
      (p := fun d => extent input d = targetExtent input target d)).length_le
    rwa [List.length_range] at hsub
  have hlen : input.length = target.length := by
    have := h.1
    omega
  have hall := equalDims_eq_range (hlength.trans hlen.symm)
  apply List.ext_getElem hlen
  intro d h₁ h₂
  have hmem : d ∈ equalDims input target := by rw [hall]; exact List.mem_range.mpr h₁
  have heq : extent input d = targetExtent input target d :=
    of_decide_eq_true (List.mem_filter.mp hmem).2
  rw [extent, targetExtent, hlen, Nat.sub_self, Nat.zero_add, List.getD_eq_getElem _ _ h₁,
    List.getD_eq_getElem _ _ h₂] at heq
  exact heq

/-- What is emitted for an operand. -/
def emittedFor (input target : List ℕ) : Emitted :=
  if broadcastDimsOf input target = [] then ⟨none, none⟩
  else ⟨if (equalDims input target).length ≠ input.length then some (groupsOf input target)
    else none, some (broadcastDimsOf input target)⟩

/-- The code emits that. -/
theorem lowerInput_eq (h : Stretches input target) :
    lowerInput target input = .ok (emittedFor input target) := by
  have hlength := length_broadcastDimsOf h
  have hgroups : (if (broadcastDimsOf input target).length ≠ target.length then
      getCollapseDims input target else []) = groupsOf input target := by
    rw [groupsOf]
    by_cases hnil : equalDims input target = []
    · rw [if_pos hnil, if_neg]
      rw [hnil, List.length_nil] at hlength
      omega
    · rw [if_neg hnil, if_pos]
      have hpos := List.length_pos_of_ne_nil hnil
      omega
  have hcount : (groupsOf input target).length = (equalDims input target).length := by
    have hshape := congrArg List.length (resultShape_groupsOf h)
    rwa [CollapseShapeOp.resultShape, List.length_map, List.length_map] at hshape
  rw [lowerInput, getBroadcastDims_eq h]
  show (if broadcastDimsOf input target = [] then Except.ok (⟨none, none⟩ : Emitted)
    else Except.ok ⟨if (if (broadcastDimsOf input target).length ≠ target.length then
        getCollapseDims input target else []).length ≠ input.length then
          some (if (broadcastDimsOf input target).length ≠ target.length then
            getCollapseDims input target else []) else none,
      some (broadcastDimsOf input target)⟩) = _
  rw [hgroups, hcount, emittedFor]
  split_ifs <;> rfl

theorem collapsedShape_emittedFor (h : Stretches input target)
    (hne : broadcastDimsOf input target ≠ []) :
    (emittedFor input target).collapsedShape input =
      (equalDims input target).map (extent input) := by
  rw [emittedFor, if_neg hne]
  by_cases hlength : (equalDims input target).length = input.length
  · rw [if_neg (by simpa using hlength), equalDims_eq_range hlength]
    exact (map_range_getD input 1).symm
  · rw [if_pos hlength]
    exact resultShape_groupsOf h

/-- **What is emitted is well formed.** -/
theorem wellformed_emittedFor (h : Stretches input target) :
    (emittedFor input target).Wellformed target input := by
  have hlength := length_broadcastDimsOf h
  by_cases hne : broadcastDimsOf input target = []
  · rw [emittedFor, if_pos hne]
    rw [hne, List.length_nil, Nat.add_zero] at hlength
    exact ⟨by simp, by simp, fun _ => eq_target h hlength⟩
  · have hshape := collapsedShape_emittedFor h hne
    refine ⟨?_, ?_, ?_⟩
    · intro groups hgroups
      rw [emittedFor, if_neg hne] at hgroups
      simp only at hgroups
      split_ifs at hgroups with hcount
      obtain rfl := Option.some.inj hgroups
      exact verified_groupsOf h
    · intro dims hdims
      rw [emittedFor, if_neg hne] at hdims
      obtain rfl := Option.some.inj hdims
      rw [hshape]
      refine ⟨by rw [List.length_map]; exact hlength, fun d hd =>
        List.mem_range.mp (List.mem_filter.mp hd).1, fun i hi => ?_⟩
      rw [List.length_map] at hi
      have hi' : i < ((equalDims input target).map
          (target.length - input.length + ·)).length := by simpa using hi
      have heq : extent input (equalDims input target)[i] =
          targetExtent input target (equalDims input target)[i] :=
        of_decide_eq_true (List.mem_filter.mp (List.getElem_mem hi)).2
      rw [show LinalgBroadcastOp.kept target (broadcastDimsOf input target) = _ from kept_eq h,
        List.getD_eq_getElem _ _ (by simpa using hi), List.getElem_map, heq,
        List.getD_eq_getElem _ _ hi', List.getElem_map]
      rfl
    · intro hnone
      rw [emittedFor, if_neg hne] at hnone
      cases hnone

/-- **The operand is read** where right-aligned broadcasting reads it. -/
theorem elem_emittedFor {α : Type} (x : Tensor α) (h : Stretches x.shape target)
    (hidx : InShape idx target) :
    ((emittedFor x.shape target).apply target x).elem idx = x.elem (clamp x.shape idx) := by
  have hlength := length_broadcastDimsOf h
  by_cases hne : broadcastDimsOf x.shape target = []
  · rw [hne, List.length_nil, Nat.add_zero] at hlength
    have hshape := eq_target h hlength
    rw [emittedFor, if_pos hne, clamp_of_inShape (hshape ▸ hidx)]
    rfl
  · have hkept : (LinalgBroadcastOp.kept target (broadcastDimsOf x.shape target)).map
        (fun d => idx.getD d 0) =
          (equalDims x.shape target).map (coordinateOf x.shape target idx) := by
      rw [show LinalgBroadcastOp.kept target (broadcastDimsOf x.shape target) = _ from kept_eq h,
        List.map_map]
      rfl
    have hread : ((emittedFor x.shape target).apply target x).elem idx =
        ((emittedFor x.shape target).collapsed x).elem
          ((equalDims x.shape target).map (coordinateOf x.shape target idx)) := by
      rw [← hkept, Emitted.apply]
      simp only [emittedFor, if_neg hne]
      rfl
    rw [hread]
    by_cases hcount : (equalDims x.shape target).length = x.shape.length
    · have hcollapsed : (emittedFor x.shape target).collapsed x = x := by
        rw [emittedFor, if_neg hne, if_neg (by simpa using hcount)]
        rfl
      have hcoords : (equalDims x.shape target).map (coordinateOf x.shape target idx) =
          clamp x.shape idx := by
        rw [clamp_eq h.1 hidx.length_eq, ← equalDims_eq_range hcount]
        exact List.map_congr_left fun d hd => (coordinateOf_mod hidx h.1 hd).symm
      rw [hcollapsed, hcoords]
    · have hcollapsed : (emittedFor x.shape target).collapsed x =
          x.reshape ((equalDims x.shape target).map (extent x.shape)) := by
        rw [emittedFor, if_neg hne, if_pos hcount, ← resultShape_groupsOf h]
        rfl
      rw [hcollapsed]
      show x.elem (unravel x.shape (rowMajor _ _)) = _
      rw [rowMajor_equalDims h hidx, unravel_rowMajor (inShape_clamp h hidx)]

end Operand

/-! ## The operation -/

/-- **Elementwise operations read as broadcasting does.**  For operands of any number and any ranks
that broadcast, what is emitted for each is well formed and is read, at every index of the result,
at the index of right-aligned broadcasting; for two operands this is what the pattern emits. -/
theorem elementwise_reads {α : Type} (operands : List (Tensor α)) {shape : List ℕ}
    (h : broadcastedShapes (operands.map Tensor.shape) = some shape) :
    ∃ emitted, operands.mapM (fun x => lowerInput shape x.shape) = .ok emitted ∧
      List.Forall₂ (fun (x : Tensor α) (e : Emitted) => e.Wellformed shape x.shape ∧
        ∀ idx, InShape idx shape → (e.apply shape x).elem idx = x.elem (clamp x.shape idx))
        operands emitted ∧
      ∀ lhs rhs, operands = [lhs, rhs] →
        matchAndRewrite lhs.shape rhs.shape = .ok (shape, emitted) := by
  have hstretch : ∀ x ∈ operands, Stretches x.shape shape := fun x hx =>
    stretches_of_broadcastedShapes h _ (List.mem_map.mpr ⟨x, hx, rfl⟩)
  have hlower : operands.mapM (fun x => lowerInput shape x.shape) =
      .ok (operands.map fun x => emittedFor x.shape shape) :=
    mapM_eq_ok_map fun x hx => lowerInput_eq (hstretch x hx)
  refine ⟨_, hlower, ?_, ?_⟩
  · rw [List.forall₂_map_right_iff]
    exact List.forall₂_same.mpr fun x hx => ⟨wellformed_emittedFor (hstretch x hx),
      fun idx hidx => elem_emittedFor x (hstretch x hx) hidx⟩
  · rintro lhs rhs rfl
    have hpair : broadcastedShape lhs.shape rhs.shape = some shape := by
      have hfold : (broadcastedShape [] lhs.shape >>= fun acc =>
          broadcastedShape acc rhs.shape >>= fun acc => some acc) = some shape := h
      rw [broadcastedShape_nil] at hfold
      simpa using hfold
    have hlist : [lhs.shape, rhs.shape].mapM (lowerInput shape) =
        .ok ([lhs.shape, rhs.shape].map fun input => emittedFor input shape) :=
      mapM_eq_ok_map fun input hinput => lowerInput_eq (by
        rcases List.mem_cons.mp hinput with rfl | hinput
        · exact hstretch lhs (by simp)
        · obtain rfl := List.mem_singleton.mp hinput
          exact hstretch rhs (by simp))
    rw [matchAndRewrite, hpair]
    simp only [hlist]
    rfl

/-- A tensor with a unit dimension in the middle. -/
def gapped : Tensor ℕ := ⟨[4, 1, 3], rowMajor [4, 1, 3]⟩

/-- A column. -/
def column : Tensor ℕ := ⟨[5, 1], rowMajor [5, 1]⟩

/-- Their sum has an element for each of both, and they are read there. -/
theorem gapped_column_reads : ∃ emitted,
    matchAndRewrite gapped.shape column.shape = .ok ([4, 5, 3], emitted) ∧
      List.Forall₂ (fun (x : Tensor ℕ) (e : Emitted) => e.Wellformed [4, 5, 3] x.shape ∧
        ∀ idx, InShape idx [4, 5, 3] →
          (e.apply [4, 5, 3] x).elem idx = x.elem (clamp x.shape idx))
        [gapped, column] emitted := by
  have hshape : broadcastedShapes [gapped.shape, column.shape] = some [4, 5, 3] := rfl
  obtain ⟨emitted, -, hreads, hpair⟩ := elementwise_reads [gapped, column] hshape
  exact ⟨emitted, hpair _ _ rfl, hreads⟩

end TTIRToLinalg
