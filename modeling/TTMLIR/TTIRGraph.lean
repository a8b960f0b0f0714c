/-
# Graphs of tensor operations

Functions of one block over the operations that the fusion patterns look at: names with
attributes, shapes as types, verifiers, and what the operations compute.  Operations write
into a destination, their last operand, which has the type of the result.

* `OpName`, `Graph` : the operations, and functions with the types of their arguments;
* `verifyOp`, `Graph.Verified` : the verifiers;
* `sem`, `Run` : what the operations compute, and the values of a graph;
* `getDefiningOp`, `countUsers` : what the patterns ask;
* `getDefiningOp_spec`, `mem_scope_of_result` : operations that define operands, and what is
  visible where they are used.
-/
import TTMLIR.SSA
import TTMLIR.BroadcastCommute
import TTMLIR.Conv2dOp

namespace TTIR

open MixedRadix SSA

/-! ## Graphs -/

/-- The operations.  Those the patterns do not tell apart are kept as they are printed, with
attributes and types; `creation` is one with the trait `TTCreationOpTrait`. -/
inductive OpName where
  | empty (shape : List ℕ)
  | creation (printed : String)
  | exp
  | div
  | multiply
  | sum (keepDim : Bool) (dimArg : Option (List ℤ))
  | broadcast (broadcastDimensions : List ℕ)
  | softmax (dimension : ℤ)
  | reshape (shape : List ℤ)
  | conv2d (attrs : Conv2dAttrs)
  | other (printed : String)
deriving DecidableEq, Repr

namespace OpName

/-- `hasTrait<TTCreationOpTrait>`. -/
def isCreation : OpName → Bool
  | empty _ | creation _ => true
  | _ => false

end OpName

abbrev Op : Type := Operation OpName (List ℕ)

/-- A function: its block, the types of its arguments, and the arguments that are parameters
or constants. -/
structure Graph extends Block OpName (List ℕ) where
  argTypes : List (List ℕ)
  constParams : List ℕ
deriving DecidableEq, Repr

/-- The only result of an operation, or its first one. -/
def result (op : Op) : Value := .opResult op.id 0

namespace Graph

/-- `value.getType()`. -/
def type (g : Graph) : Value → List ℕ
  | .blockArg n => g.argTypes.getD n []
  | .opResult id k => ((lookup g.ops id).map fun op => op.resultTypes.getD k []).getD []

/-- `value.getDefiningOp()`. -/
def getDefiningOp (g : Graph) : Value → Option Op
  | .blockArg _ => none
  | .opResult id _ => lookup g.ops id

/-- `countUsers`: the number of uses. -/
def countUsers (g : Graph) (v : Value) : ℕ :=
  (g.ops.flatMap (·.operands) ++ g.returns).count v

/-- `value.hasOneUse()`. -/
def hasOneUse (g : Graph) (v : Value) : Bool := g.countUsers v = 1

end Graph

/-! ## Verifiers -/

/-- `detail::verifyBroadcastable`, the loop over the operands. -/
def broadcastOperands : List ℕ → List (List ℕ) → Except String (List ℕ)
  | shape, [] => .ok shape
  | shape, s :: shapes =>
    match broadcastedShape shape s with
    | none => .error s!"operand shape ({join s}) is not broadcast compatible with inferred operand shapes ({join shape})"
    | some shape' => broadcastOperands shape' shapes

/-- `detail::verifyBroadcastable`. -/
def verifyBroadcastable (operands : List (List ℕ)) (result : List ℕ) : Except String Unit := do
  let shape ← broadcastOperands [] operands
  if shape ≠ result then
    .error s!"result shape ({join result}) doesn't match expected shape after broadcasting ({join shape})"
  else .ok ()

/-- The dimensions that `verifyReduceOp` marks as reduced. -/
def reduceDimsMask (rank : ℕ) : Option (List ℤ) → Except String (List Bool)
  | none => .ok (List.replicate rank true)
  | some dims =>
    match dims.find? fun d => ¬ InBounds rank d with
    | some d => .error s!"Reduce dimension {d} is out of range for input tensor of rank {rank}"
    | none =>
      if ¬ dims.Nodup then .error "Reduce dimensions are not unique"
      else .ok ((List.range rank).map fun i : ℕ => dims.any fun d => wrapDim rank d = i)

/-- The shape that `verifyReduceOp` expects. -/
def expectedOutputShape (keepDim : Bool) (input : List ℕ) (mask : List Bool) : List ℕ :=
  let shape := (input.zip mask).filterMap fun (n, reduced) =>
    if !reduced then some n else if keepDim then some 1 else none
  if shape = [] ∧ !keepDim then [1] else shape

/-- `verifyReduceOp`. -/
def verifyReduceOp (input : List ℕ) (reduceDims : Option (List ℤ)) (keepDim : Bool)
    (output : List ℕ) : Except String Unit := do
  let mask ← reduceDimsMask input.length reduceDims
  let expected := expectedOutputShape keepDim input mask
  if output ≠ expected then
    .error s!"Expected output shape ({join expected}), got ({join output})"
  else .ok ()

/-- `SoftmaxOp::verify`. -/
def verifySoftmax (input output : List ℕ) (dim : ℤ) : Except String Unit :=
  if input ≠ output then .error "Input and output shapes must be the same"
  else if dim ≥ input.length ∨ dim < -input.length then
    .error "Dimension attribute must be within the bounds of the input tensor"
  else .ok ()

/-- The destination has the type of the result. -/
def verifyInit (init result : List ℕ) : Except String Unit :=
  if init ≠ result then .error "expected type of operand to match type of corresponding result"
  else .ok ()

/-- An operation with one operand, a destination and one result. -/
def verifyUnary (check : List ℕ → List ℕ → Except String Unit) :
    List (List ℕ) → List (List ℕ) → Except String Unit
  | [x, init], [r] => do verifyInit init r; check x r
  | _, _ => .error "unexpected number of operands or results"

/-- An operation with two operands, a destination and one result. -/
def verifyBinary (check : List ℕ → List ℕ → List ℕ → Except String Unit) :
    List (List ℕ) → List (List ℕ) → Except String Unit
  | [x, y, init], [r] => do verifyInit init r; check x y r
  | _, _ => .error "unexpected number of operands or results"

/-- A convolution, with or without a bias. -/
def verifyConv2d (attrs : Conv2dAttrs) : List (List ℕ) → List (List ℕ) → Except String Unit
  | [x, w, init], [r] => do verifyInit init r; (Conv2dOp.mk x w none r attrs).verify
  | [x, w, b, init], [r] => do verifyInit init r; (Conv2dOp.mk x w (some b) r attrs).verify
  | _, _ => .error "unexpected number of operands or results"

/-- An operation without operands and with one result of its type. -/
def verifyEmpty (shape : List ℕ) : List (List ℕ) → List (List ℕ) → Except String Unit
  | [], [r] => if shape ≠ r then .error "unexpected type" else .ok ()
  | _, _ => .error "unexpected number of operands or results"

/-- The verifier of an operation, on the types of its operands and results. -/
def verifyTypes : OpName → List (List ℕ) → List (List ℕ) → Except String Unit
  | .empty shape => verifyEmpty shape
  | .exp => verifyUnary fun x r => verifyBroadcastable [x] r
  | .div => verifyBinary fun x y r => verifyBroadcastable [x, y] r
  | .multiply => verifyBinary fun x y r => verifyBroadcastable [x, y] r
  | .sum keepDim dimArg => verifyUnary fun x r => verifyReduceOp x dimArg keepDim r
  | .broadcast dims => verifyUnary fun x r => (BroadcastOp.mk x dims r).verify
  | .softmax dim => verifyUnary fun x r => verifySoftmax x r dim
  | .reshape shape => verifyUnary fun x r => (ReshapeOp.mk x shape r).verify
  | .conv2d attrs => verifyConv2d attrs
  | .creation _ => fun _ _ => .ok ()
  | .other _ => fun _ _ => .ok ()

/-- The verifier of an operation of a graph. -/
def verifyOp (g : Graph) (op : Op) : Except String Unit :=
  verifyTypes op.name (op.operands.map g.type) op.resultTypes

/-- Graphs that pass the verifiers. -/
structure Graph.Verified (g : Graph) : Prop extends g.WellFormed where
  ops : ∀ op ∈ g.ops, verifyOp g op = .ok ()

/-! ## Values -/

section Values

variable {α : Type}

/-- The exponential, the unspecified contents of a fresh tensor of a shape, and what the
operations compute that the patterns do not look at. -/
structure Interp (α : Type) where
  exp : α → α
  empty : List ℕ → List ℕ → α
  other : OpName → List (Tensor α) → ℕ → Option (Tensor α)

/-- What the operations compute. -/
def sem [NonUnitalNonAssocSemiring α] [Div α] (I : Interp α) : Sem OpName (Tensor α)
  | .empty shape, [], 0 => some ⟨shape, I.empty shape⟩
  | .exp, [x, _], 0 => some (x.map I.exp)
  | .div, [x, y, _], 0 =>
    (broadcastedShape x.shape y.shape).map fun s => Tensor.zip (· / ·) s x y
  | .multiply, [x, y, _], 0 =>
    (broadcastedShape x.shape y.shape).map fun s => Tensor.zip (· * ·) s x y
  | .sum true (some [d]), [x, _], 0 => some (x.sumKeepDim (wrapDim x.shape.length d).toNat)
  | .broadcast dims, [x, _], 0 => some (x.broadcast dims)
  | .softmax d, [x, _], 0 => some (x.softmax I.exp (wrapDim x.shape.length d).toNat)
  | .reshape _, [x, init], 0 => some (x.reshape init.shape)
  | .conv2d attrs, [x, w, init], 0 =>
    (Conv2dOp.mk x.shape w.shape none init.shape attrs).apply x w none
  | .conv2d attrs, [x, w, b, init], 0 =>
    (Conv2dOp.mk x.shape w.shape (some b.shape) init.shape attrs).apply x w (some b)
  | name, vs, k => I.other name vs k

/-- The values of a graph: every operation computes its results, and every value has its
type. -/
structure Run [NonUnitalNonAssocSemiring α] [Div α] (I : Interp α) (g : Graph)
    (ρ : Value → Tensor α) : Prop where
  solves : Solves (sem I) g.ops ρ
  typed : ∀ v ∈ scope g.numArgs g.ops, (ρ v).shape = g.type v

end Values

/-! ## Verified operations -/

section Verified

variable {g : Graph} {op : Op}

theorem verifyInit_eq_ok {init r : List ℕ} (h : verifyInit init r = .ok ()) : init = r := by
  unfold verifyInit at h
  split_ifs at h with hne
  exact not_not.mp hne

/-- A verified operation with one operand. -/
theorem verifyUnary_spec {check : List ℕ → List ℕ → Except String Unit}
    (h : verifyUnary check (op.operands.map g.type) op.resultTypes = .ok ()) :
    ∃ x init r, op.operands = [x, init] ∧ op.resultTypes = [r] ∧ g.type init = r ∧
      check (g.type x) r = .ok () := by
  unfold verifyUnary at h
  split at h
  · next x init r hoperands hresults =>
    obtain ⟨v, vs, hv, rfl, hvs⟩ := List.map_eq_cons_iff.mp hoperands
    obtain ⟨w, ws, rfl, rfl, hws⟩ := List.map_eq_cons_iff.mp hvs
    obtain rfl := List.map_eq_nil_iff.mp hws
    obtain ⟨_, hinit, h⟩ := Fallible.bind_eq_ok.mp h
    exact ⟨v, w, r, hv, hresults, verifyInit_eq_ok hinit, h⟩
  · cases h

/-- A verified operation with two operands. -/
theorem verifyBinary_spec {check : List ℕ → List ℕ → List ℕ → Except String Unit}
    (h : verifyBinary check (op.operands.map g.type) op.resultTypes = .ok ()) :
    ∃ x y init r, op.operands = [x, y, init] ∧ op.resultTypes = [r] ∧ g.type init = r ∧
      check (g.type x) (g.type y) r = .ok () := by
  unfold verifyBinary at h
  split at h
  · next x y init r hoperands hresults =>
    obtain ⟨v, vs, hv, rfl, hvs⟩ := List.map_eq_cons_iff.mp hoperands
    obtain ⟨u, us, rfl, rfl, hus⟩ := List.map_eq_cons_iff.mp hvs
    obtain ⟨w, ws, rfl, rfl, hws⟩ := List.map_eq_cons_iff.mp hus
    obtain rfl := List.map_eq_nil_iff.mp hws
    obtain ⟨_, hinit, h⟩ := Fallible.bind_eq_ok.mp h
    exact ⟨v, u, w, r, hv, hresults, verifyInit_eq_ok hinit, h⟩
  · cases h

/-- A verified convolution. -/
theorem verifyConv2d_spec {attrs : Conv2dAttrs}
    (h : verifyConv2d attrs (op.operands.map g.type) op.resultTypes = .ok ()) :
    ∃ x w bias init r, op.operands = x :: w :: (Option.toList bias ++ [init]) ∧
      op.resultTypes = [r] ∧ g.type init = r ∧
      (Conv2dOp.mk (g.type x) (g.type w) (bias.map g.type) r attrs).Valid := by
  unfold verifyConv2d at h
  split at h
  · next x w init r hoperands hresults =>
    obtain ⟨v, vs, hv, rfl, hvs⟩ := List.map_eq_cons_iff.mp hoperands
    obtain ⟨u, us, rfl, rfl, hus⟩ := List.map_eq_cons_iff.mp hvs
    obtain ⟨i, is, rfl, rfl, his⟩ := List.map_eq_cons_iff.mp hus
    obtain rfl := List.map_eq_nil_iff.mp his
    obtain ⟨_, hinit, h⟩ := Fallible.bind_eq_ok.mp h
    exact ⟨v, u, none, i, r, hv, hresults, verifyInit_eq_ok hinit, Conv2dOp.verify_spec h⟩
  · next x w b init r hoperands hresults =>
    obtain ⟨v, vs, hv, rfl, hvs⟩ := List.map_eq_cons_iff.mp hoperands
    obtain ⟨u, us, rfl, rfl, hus⟩ := List.map_eq_cons_iff.mp hvs
    obtain ⟨b, bs, rfl, rfl, hbs⟩ := List.map_eq_cons_iff.mp hus
    obtain ⟨i, is, rfl, rfl, his⟩ := List.map_eq_cons_iff.mp hbs
    obtain rfl := List.map_eq_nil_iff.mp his
    obtain ⟨_, hinit, h⟩ := Fallible.bind_eq_ok.mp h
    exact ⟨v, u, some b, i, r, hv, hresults, verifyInit_eq_ok hinit, Conv2dOp.verify_spec h⟩
  · cases h

variable {α : Type}

theorem sem_conv2d [NonUnitalNonAssocSemiring α] [Div α] (I : Interp α)
    (attrs : Conv2dAttrs) (x w : Tensor α) (bias : Option (Tensor α)) (init : Tensor α) :
    sem I (.conv2d attrs) (x :: w :: (bias.toList ++ [init])) 0 =
      (Conv2dOp.mk x.shape w.shape (bias.map Tensor.shape) init.shape attrs).apply x w bias := by
  cases bias <;> rfl

theorem verifyBroadcastable_two {x y r : List ℕ} (h : verifyBroadcastable [x, y] r = .ok ()) :
    broadcastedShape x y = some r := by
  obtain ⟨s, hs, h⟩ := Fallible.bind_eq_ok.mp h
  split_ifs at h with hne
  obtain rfl := not_not.mp hne
  rw [broadcastOperands, broadcastedShape_nil] at hs
  simp only [broadcastOperands] at hs
  cases hxy : broadcastedShape x y with
  | none => rw [hxy] at hs; cases hs
  | some s' =>
    rw [hxy] at hs
    exact congrArg some (Except.ok.inj hs)

theorem verifyBroadcastable_one {x r : List ℕ} (h : verifyBroadcastable [x] r = .ok ()) :
    x = r := by
  obtain ⟨s, hs, h⟩ := Fallible.bind_eq_ok.mp h
  split_ifs at h with hne
  obtain rfl := not_not.mp hne
  rw [broadcastOperands, broadcastedShape_nil] at hs
  exact Except.ok.inj hs

variable {v : Value}

/-- The defining operation is in the graph, and has the value as a result. -/
theorem getDefiningOp_spec (h : g.getDefiningOp v = some op) :
    op ∈ g.ops ∧ ∃ k, v = .opResult op.id k := by
  cases v with
  | blockArg n => cases h
  | opResult id k =>
    refine ⟨List.mem_of_find?_eq_some h, k, ?_⟩
    have hid : op.id = id := by simpa using List.find?_some h
    rw [hid]

theorem eq_result_of_getDefiningOp (hg : g.WellFormed) {user : Op} (huser : user ∈ g.ops)
    (hv : v ∈ user.operands) (h : g.getDefiningOp v = some op)
    (hone : op.numResults = 1) : v = result op := by
  obtain ⟨hop, k, rfl⟩ := getDefiningOp_spec h
  rcases List.mem_append.mp (hg.dominated.mem_of_mem_operands huser hv) with hmem | hmem
  · exact absurd hmem opResult_not_mem_entryScope
  · obtain ⟨d, hd, hres⟩ := List.mem_flatMap.mp hmem
    obtain ⟨hid, hk⟩ := Operation.opResult_mem_results.mp hres
    rw [eq_of_id_eq hg.nodup hop hd hid] at hone ⊢
    obtain rfl : k = 0 := by omega
    rfl

/-- **Operands of operands are visible.**  An operand of the operation that defines an operand
is visible where the latter is. -/
theorem mem_scope_of_result (hg : g.WellFormed) {pre post : List Op} {d : Op}
    (hops : g.ops = pre ++ op :: post) (hd : d ∈ g.ops) (hresult : result d ∈ op.operands)
    (hv : v ∈ d.operands) : v ∈ scope g.numArgs pre := by
  have hdominated := hg.dominated
  rw [hops] at hdominated
  obtain ⟨a, ha, hid, -⟩ := opResult_mem_scope.mp (hdominated.operands_mem _ hresult)
  obtain rfl : d = a := eq_of_id_eq hg.nodup hd (by simp [hops, ha]) hid
  obtain ⟨p, q, rfl⟩ := List.append_of_mem ha
  rw [List.append_assoc, List.cons_append] at hdominated
  have hmem := hdominated.operands_mem v hv
  rw [scope, List.mem_append] at hmem ⊢
  rw [List.flatMap_append, List.mem_append]
  exact hmem.imp id Or.inl

theorem type_result (hg : g.WellFormed) (hop : op ∈ g.ops) {r : List ℕ}
    (hr : op.resultTypes = [r]) : g.type (result op) = r := by
  have hlookup := (lookup_eq_some_iff hg.nodup).mpr ⟨hop, rfl⟩
  simp [Graph.type, result, hlookup, hr]

variable {ρ : Value → Tensor α}

section

variable [NonUnitalNonAssocSemiring α] [Div α] {I : Interp α} (h : Run I g ρ)

include h

/-- The result of an operation is what it computes. -/
theorem Run.eq_result (hop : op ∈ g.ops) {r : List ℕ} (hr : op.resultTypes = [r]) :
    sem I op.name (op.operands.map ρ) 0 = some (ρ (result op)) :=
  h.solves op hop 0 (by rw [Operation.numResults, hr]; exact Nat.one_pos)

/-- Operands have the shapes of their types. -/
theorem Run.shape_operand (hg : g.WellFormed) (hop : op ∈ g.ops)
    (hv : v ∈ op.operands) : (ρ v).shape = g.type v :=
  h.typed v (hg.dominated.mem_of_mem_operands hop hv)

theorem Run.shape_result (hg : g.WellFormed) (hop : op ∈ g.ops) {r : List ℕ}
    (hr : op.resultTypes = [r]) : (ρ (result op)).shape = r := by
  have hmem : result op ∈ scope g.numArgs g.ops :=
    opResult_mem_scope.mpr ⟨op, hop, rfl, by rw [Operation.numResults, hr]; exact Nat.one_pos⟩
  rw [h.typed _ hmem, type_result hg hop hr]

end

end Verified

end TTIR
