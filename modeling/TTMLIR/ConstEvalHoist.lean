/-
# Const-eval hoisting

`ConstEvalHoistTransform` of `ConstEvalHoist.cpp` moves each subgraph of the analysis to a
function of its own and replaces it by a `load_cached` call at the start of the function.

* `createConstEvalFunction`, `processFunction` : the transform as it computes, with the
  assertions of the clone step;
* `processOps_eq_some`, `scoped_of_processOps` : cloning succeeds exactly on subgraphs that
  are closed;
* `Calling` : the function while it is rewritten;
* `Calling.create`, `Calling.closed_after`, `Calling.solves_after` : hoisting one subgraph
  keeps dominance, the other subgraphs and all values.
-/
import TTMLIR.Clone
import TTMLIR.ConstEvalSubgraphs

open SSA

namespace ConstEval

variable {α : Type}

/-! ## The transform -/

/-- A function made for a subgraph, with its `const_eval` attribute. -/
structure ConstEvalFunc : Type where
  name : String
  argTypes : List Ty
  resultTypes : List Ty
  block : Block OpName Ty

/-- The function being rewritten, with a fresh identity for the next operation. -/
structure Host : Type where
  block : Block OpName Ty
  nextId : ℕ

/-- A rewritten function with the functions made for its subgraphs. -/
structure HoistedModule : Type where
  host : Block OpName Ty
  constEvalFuncs : List ConstEvalFunc

/-- The clones made so far and the values they stand for. -/
structure CloneState : Type where
  valueMap : Value → Option Value
  body : List Op

/-- `ConstEvalHoistTransform::processOp`; `none` where the subgraph depends on an
out-of-scope value. -/
def CloneState.processOp (st : CloneState) (op : Op) : Option CloneState := do
  let remappedOperands ← op.operands.mapM st.valueMap
  let id := st.body.length
  some
    { valueMap := fun v =>
        match st.valueMap v with
        | some w => some w
        | none =>
          match v with
          | .opResult o k =>
            if o = op.id ∧ k < op.numResults then some (.opResult id k) else none
          | .blockArg _ => none
      body := st.body ++ [{ op with id := id, operands := remappedOperands }] }

/-- Whether a value has a use whose owner is not among the given operations. -/
def usedOutside (block : Block OpName Ty) (opSet : List ℕ) (result : Value) : Bool :=
  result ∈ block.returns ||
    block.ops.any fun user => result ∈ user.operands && user.id ∉ opSet

/-- `collectSubgraphBoundary`. -/
def collectSubgraphBoundary (block : Block OpName Ty) (opVec : List ℕ) : List Value :=
  (deref block.ops opVec).flatMap fun op => op.results.filter (usedOutside block opVec)

/-- `getType` of the result of an operation. -/
def getType (ops : List Op) : Value → Ty
  | .blockArg _ => .device
  | .opResult id k => ((lookup ops id).bind (·.resultTypes[k]?)).getD .device

/-- The name of the function made for a subgraph. -/
def newFuncName (f : Function) (subgraphIdx : ℕ) : String :=
  f.name ++ "_const_eval_" ++ toString subgraphIdx

/-- The argument `i` of the new function stands for the `i`-th input. -/
def inputMap (inputs : List ℕ) : Value → Option Value
  | .blockArg n => if n ∈ inputs then some (.blockArg (inputs.idxOf n)) else none
  | .opResult _ _ => none

/-- `replaceAllUsesWith`, for all outputs: the `i`-th becomes the `i`-th result of the call. -/
def redirect (outputs : List Value) (callId : ℕ) (v : Value) : Value :=
  if v ∈ outputs then .opResult callId (outputs.idxOf v) else v

/-- The call of the function made for a subgraph. -/
def loadCachedOp (name : String) (inputs : List ℕ) (outputTypes : List Ty) (id : ℕ) : Op where
  id := id
  name := .loadCached name
  operands := inputs.map .blockArg
  resultTypes := outputTypes

/-- `createConstEvalFunction`. -/
def createConstEvalFunction (f : Function) (sharedOps : List ℕ) (host : Host)
    (subgraph : ConstEvalSubgraph) (subgraphIdx : ℕ) : Option (Host × ConstEvalFunc) := do
  let inputs := subgraph.inputParameters.sort (· ≤ ·)
  let outputs := collectSubgraphBoundary host.block subgraph.ops
  let inputTypes := inputs.map fun n => ((f.args[n]?).map Argument.type).getD .device
  let outputTypes := outputs.map (getType host.block.ops)
  let st ← (deref host.block.ops (sharedOps ++ subgraph.ops)).foldlM CloneState.processOp
    ⟨inputMap inputs, []⟩
  let returnValues ← outputs.mapM st.valueMap
  if subgraphIdx ≤ host.block.ops.length then
    let name := newFuncName f subgraphIdx
    let callOp := loadCachedOp name inputs outputTypes host.nextId
    let replaceUses := redirect outputs host.nextId
    let ops := (host.block.ops.insertIdx subgraphIdx callOp).map
      (Operation.mapOperands replaceUses)
    some
      ({ block :=
          { numArgs := host.block.numArgs
            ops := ops.filter (·.id ∉ subgraph.ops)
            returns := host.block.returns.map replaceUses }
         nextId := host.nextId + 1 },
       { name := name
         argTypes := inputTypes
         resultTypes := outputTypes
         block := { numArgs := inputs.length, ops := st.body, returns := returnValues } })
  else
    none

/-- The loop of `processFunction` over the subgraphs. -/
def createAll (f : Function) (sharedOps : List ℕ) :
    List ConstEvalSubgraph → ℕ → Host → Option (Host × List ConstEvalFunc)
  | [], _, host => some (host, [])
  | subgraph :: subgraphs, subgraphIdx, host => do
      let (host, newFunc) ← createConstEvalFunction f sharedOps host subgraph subgraphIdx
      let (host, newFuncs) ← createAll f sharedOps subgraphs (subgraphIdx + 1) host
      some (host, newFunc :: newFuncs)

/-- `processFunction`; `none` where an assertion fails. -/
def processFunction (f : Function) (ord : IterationOrder) : Option HoistedModule := do
  let results := getAnalysisResults f ord
  let (host, newFuncs) ← createAll f results.sharedOps results.subgraphs 0
    ⟨f.toBlock, freshId f.ops⟩
  some ⟨host.block, newFuncs⟩

/-! ## What functions compute -/

/-- An uninterpreted meaning of operations: name, attributes, operand values, result. -/
abbrev Interp (α : Type) : Type := String → List (String × String) → List α → ℕ → α

/-- The meaning of operations where no call is made. -/
def opSem (I : Interp α) : Sem OpName α
  | .op name attrs _, vs, k => some (I name attrs vs k)
  | .loadCached _, _, _ => none

theorem isSome_opSem (I : Interp α) {name : OpName} (hname : name.isLoadCached = false)
    (vs : List α) (k : ℕ) : (opSem I name vs k).isSome := by
  cases name with
  | op _ _ _ => rfl
  | loadCached _ => cases hname

/-- The meaning of a call: the result of the function it names. -/
def callResult (I : Interp α) (funcs : List ConstEvalFunc) (callee : String) (vs : List α)
    (k : ℕ) : Option α := do
  let func ← funcs.find? (·.name = callee)
  let results ← func.block.eval (opSem I) vs
  results[k]?

/-- The meaning of operations in a rewritten function. -/
def callSem (I : Interp α) (funcs : List ConstEvalFunc) : Sem OpName α
  | .op name attrs _, vs, k => some (I name attrs vs k)
  | .loadCached callee, vs, k => callResult I funcs callee vs k

/-- What a rewritten function returns. -/
def HoistedModule.eval (I : Interp α) (m : HoistedModule) (args : List α) : Option (List α) :=
  m.host.eval (callSem I m.constEvalFuncs) args

/-- The meaning of operations when the results of the calls are those cached by an earlier
run on other arguments. -/
def cachedSem (I : Interp α) (m : HoistedModule) (earlier : List α) : Sem OpName α
  | .op name attrs _, vs, k => some (I name attrs vs k)
  | .loadCached callee, _, k => do
      let call ← m.host.ops.find? (·.name = .loadCached callee)
      let vs ← call.operands.mapM (argEnv earlier)
      callResult I m.constEvalFuncs callee vs k

/-- What a rewritten function returns with the calls cached by an earlier run. -/
def HoistedModule.evalCached (I : Interp α) (m : HoistedModule) (earlier args : List α) :
    Option (List α) :=
  m.host.eval (cachedSem I m earlier) args

/-! ## The clone step -/

/-- A value map is defined on the visible values, and sends them where `m` does. -/
def Agrees (valueMap : Value → Option Value) (m : Value → Value) (visible : List Value) : Prop :=
  ∀ v, valueMap v = if v ∈ visible then some (m v) else none

variable {v : Value}

section

variable {valueMap : Value → Option Value} {m : Value → Value} {visible : List Value}
  (h : Agrees valueMap m visible) {vs : List Value}

include h

theorem Agrees.mapM_eq_some (hvs : ∀ v ∈ vs, v ∈ visible) : vs.mapM valueMap = some (vs.map m) :=
  @SSA.mapM_eq_some _ m valueMap vs fun v hv => by rw [h v, if_pos (hvs v hv)]

theorem Agrees.mapM_eq_none (hv : v ∈ vs) (hnot : v ∉ visible) : vs.mapM valueMap = none := by
  induction vs with
  | nil => cases hv
  | cons w vs ih =>
    rw [List.mapM_cons]
    rcases List.mem_cons.mp hv with rfl | hv
    · rw [h v, if_neg hnot]
      rfl
    · rw [ih hv]
      cases valueMap w <;> rfl

end

variable {op : Op}

/-- One clone, where every operand is visible. -/
theorem processOp_eq_some {st : CloneState} {m : Value → Value} {visible : List Value}
    (h : Agrees st.valueMap m visible) (hfresh : ∀ v ∈ op.results, v ∉ visible)
    (hop : ∀ v ∈ op.operands, v ∈ visible) :
    ∃ st', st.processOp op = some st' ∧ st'.body = st.body ++ [op.clone m st.body.length] ∧
      Agrees st'.valueMap (mapResults m op st.body.length) (visible ++ op.results) := by
  rw [CloneState.processOp, h.mapM_eq_some hop]
  refine ⟨_, rfl, rfl, fun v => ?_⟩
  show (match st.valueMap v with | some w => _ | none => _) = _
  rw [h v]
  by_cases hv : v ∈ visible
  · have hres : v ∉ op.results := fun hres => hfresh v hres hv
    rw [if_pos hv, if_pos (List.mem_append_left _ hv), mapResults_of_not_mem hres]
  · rw [if_neg hv]
    cases v with
    | blockArg n => rw [if_neg (by simpa using hv)]
    | opResult o k =>
      show (if o = op.id ∧ k < op.numResults then _ else _) = _
      by_cases hres : o = op.id ∧ k < op.numResults
      · rw [if_pos hres, if_pos (List.mem_append_right _
          (Operation.opResult_mem_results.mpr hres)), mapResults, if_pos hres]
      · rw [if_neg hres, if_neg]
        rw [List.mem_append, Operation.opResult_mem_results]
        exact fun hor => hor.elim hv hres

/-- **All clones**, of scoped operations: the loop makes the copies under the map. -/
theorem processOps_eq_some {st : CloneState} {m : Value → Value} {visible : List Value}
    {ops : List Op} (h : Agrees st.valueMap m visible) (hnodup : (ops.map Operation.id).Nodup)
    (hfresh : ∀ op ∈ ops, ∀ v ∈ op.results, v ∉ visible) (hscoped : Scoped visible ops) :
    ∃ st', ops.foldlM CloneState.processOp st = some st' ∧
      st'.body = st.body ++ (cloneAll m st.body.length ops).1 ∧
      Agrees st'.valueMap (cloneAll m st.body.length ops).2
        (visible ++ ops.flatMap Operation.results) := by
  induction ops generalizing st m visible with
  | nil => exact ⟨st, rfl, by simp [cloneAll], by simpa [cloneAll] using h⟩
  | cons op ops ih =>
    obtain ⟨hop, hops⟩ := hscoped
    obtain ⟨hid, hnodup'⟩ := List.nodup_cons.mp hnodup
    obtain ⟨st', hst', hbody, hagrees⟩ := processOp_eq_some h (hfresh op (by simp)) hop
    obtain ⟨st'', hst'', hbody', hagrees'⟩ := ih hagrees hnodup' (by
      intro o ho v hv hmem
      rcases List.mem_append.mp hmem with hmem | hmem
      · exact hfresh o (List.mem_cons_of_mem _ ho) v hv hmem
      · exact hid (Operation.id_eq_of_mem_results hmem hv ▸ List.mem_map_of_mem ho)) hops
    have hlength : st'.body.length = st.body.length + 1 := by simp [hbody]
    rw [hlength] at hbody' hagrees'
    rw [List.foldlM_cons, hst', cloneAll_cons]
    refine ⟨st'', hst'', ?_, ?_⟩
    · rw [hbody', hbody, List.append_assoc]
      rfl
    · simpa only [List.flatMap_cons, List.append_assoc] using hagrees'

/-- **A clone loop that succeeds** has met no value out of scope. -/
theorem scoped_of_processOps {st st' : CloneState} {m : Value → Value} {visible : List Value}
    {ops : List Op} (h : Agrees st.valueMap m visible) (hnodup : (ops.map Operation.id).Nodup)
    (hfresh : ∀ op ∈ ops, ∀ v ∈ op.results, v ∉ visible)
    (hst' : ops.foldlM CloneState.processOp st = some st') : Scoped visible ops := by
  induction ops generalizing st m visible with
  | nil => trivial
  | cons op ops ih =>
    obtain ⟨hid, hnodup'⟩ := List.nodup_cons.mp hnodup
    rw [List.foldlM_cons] at hst'
    by_cases hop : ∀ v ∈ op.operands, v ∈ visible
    · obtain ⟨st₁, hst₁, -, hagrees⟩ := processOp_eq_some h (hfresh op (by simp)) hop
      rw [hst₁] at hst'
      refine ⟨hop, ih hagrees hnodup' (fun o ho v hv hmem => ?_) hst'⟩
      rcases List.mem_append.mp hmem with hmem | hmem
      · exact hfresh o (List.mem_cons_of_mem _ ho) v hv hmem
      · exact hid (Operation.id_eq_of_mem_results hmem hv ▸ List.mem_map_of_mem ho)
    · push Not at hop
      obtain ⟨v, hv, hnot⟩ := hop
      rw [CloneState.processOp, h.mapM_eq_none hv hnot] at hst'
      cases hst'

/-! ## One subgraph -/

/-- The operations cloned for a subgraph, as they are in the rewritten function. -/
def emitted (sharedOps : List ℕ) (ops : List Op) (subgraph : ConstEvalSubgraph) : List Op :=
  deref ops (sharedOps ++ subgraph.ops)

/-- The arguments a subgraph may read. -/
def inputValues (subgraph : ConstEvalSubgraph) : List Value :=
  (subgraph.inputParameters.sort (· ≤ ·)).map .blockArg

/-- **A closed subgraph**: each operand of each operation is one of the recorded parameters,
or the result of an operation of the same subgraph or of a shared one that is cloned
before. -/
def Closed (sharedOps : List ℕ) (ops : List Op) (subgraph : ConstEvalSubgraph) : Prop :=
  Scoped (inputValues subgraph) (emitted sharedOps ops subgraph)

/-- A function made for a subgraph is well formed, and calls no other. -/
structure ConstEvalFunc.WellFormed (newFunc : ConstEvalFunc) : Prop where
  block : newFunc.block.WellFormed
  source : ∀ op ∈ newFunc.block.ops, op.name.isLoadCached = false
  shared : SharedWellFormed newFunc.block.ops

/-- A call of a function, with an operand for each argument and a result for each returned
value. -/
structure Calls (callOp : Op) (newFunc : ConstEvalFunc) : Prop where
  name : callOp.name = .loadCached newFunc.name
  operands : callOp.operands.length = newFunc.block.numArgs
  results : callOp.numResults = newFunc.block.returns.length

/-- The function being rewritten after some calls: the calls come first and read parameters
and constants only, and the other operations hold what is still to be cloned. -/
structure Calling (f : Function) (sharedOps : List ℕ) (subgraphs : List ConstEvalSubgraph)
    (host : Host) (calls rest : List Op) : Prop where
  numArgs : host.block.numArgs = f.numArgs
  ops_eq : host.block.ops = calls ++ rest
  wellFormed : host.block.WellFormed
  lt_nextId : ∀ op ∈ host.block.ops, op.id < host.nextId
  call_names : calls.map Operation.name =
    (List.range calls.length).map fun i => .loadCached (newFuncName f i)
  call_operands : ∀ op ∈ calls, ∀ v ∈ op.operands, ∃ n ∈ populateConstParams f, v = .blockArg n
  rest_source : ∀ op ∈ rest, op.name.isLoadCached = false
  rest_shared : SharedWellFormed rest
  shared_mem : ∀ id ∈ sharedOps, id ∈ rest.map Operation.id
  subgraph_mem : ∀ sg ∈ subgraphs, ∀ id ∈ sg.ops, id ∈ rest.map Operation.id
  nodup : ∀ sg ∈ subgraphs, (sharedOps ++ sg.ops).Nodup
  disjoint : subgraphs.Pairwise fun sg sg' => sg.ops.Disjoint sg'.ops
  inputs : ∀ sg ∈ subgraphs, ∀ n ∈ sg.inputParameters, n ∈ populateConstParams f

section Step

variable {f : Function} {sharedOps : List ℕ} {sg : ConstEvalSubgraph}
  {sgs : List ConstEvalSubgraph} {host : Host} {calls rest : List Op}

/-- The map of the inputs of a subgraph to the arguments of its function, total. -/
def inputRename (inputs : List ℕ) : Value → Value
  | .blockArg n => .blockArg (inputs.idxOf n)
  | .opResult id k => .opResult id k

theorem agrees_inputMap (sg : ConstEvalSubgraph) :
    Agrees (inputMap (sg.inputParameters.sort (· ≤ ·)))
      (inputRename (sg.inputParameters.sort (· ≤ ·))) (inputValues sg) := by
  intro v
  cases v with
  | blockArg n => simp [inputMap, inputRename, inputValues]
  | opResult id k => simp [inputMap, inputValues]

theorem opResult_not_mem_inputValues (sg : ConstEvalSubgraph) (id k : ℕ) :
    Value.opResult id k ∉ inputValues sg := by
  simp [inputValues]

theorem fresh_emitted (ops : List Op) : ∀ op ∈ emitted sharedOps ops sg, ∀ v ∈ op.results,
    v ∉ inputValues sg := by
  intro op _ v hv
  obtain ⟨k, -, rfl⟩ := Operation.mem_results.mp hv
  exact opResult_not_mem_inputValues sg _ _

theorem insertIdx_length_append {β : Type} (l r : List β) (a : β) :
    (l ++ r).insertIdx l.length a = l ++ a :: r := by
  induction l with
  | nil => simp
  | cons b l ih => simp [ih]

namespace Calling

variable (h : Calling f sharedOps (sg :: sgs) host calls rest)
include h

theorem ids_mem : ∀ id ∈ sharedOps ++ sg.ops, id ∈ host.block.ops.map Operation.id := by
  intro id hid
  rw [h.ops_eq, List.map_append]
  rcases List.mem_append.mp hid with hid | hid
  · exact List.mem_append_right _ (h.shared_mem id hid)
  · exact List.mem_append_right _ (h.subgraph_mem sg (by simp) id hid)

theorem map_id_emitted :
    (emitted sharedOps host.block.ops sg).map Operation.id = sharedOps ++ sg.ops :=
  map_id_deref h.wellFormed.nodup h.ids_mem

theorem nodup_emitted : ((emitted sharedOps host.block.ops sg).map Operation.id).Nodup := by
  rw [h.map_id_emitted]
  exact h.nodup sg (by simp)

theorem call_id_not_mem (hop : op ∈ calls) : op.id ∉ rest.map Operation.id := by
  have hnodup := h.wellFormed.nodup
  rw [h.ops_eq, List.map_append] at hnodup
  exact fun hmem => (List.nodup_append.mp hnodup).2.2 _ (List.mem_map_of_mem hop) _ hmem rfl

theorem mem_rest_of_id_mem (hop : op ∈ host.block.ops)
    (hid : op.id ∈ rest.map Operation.id) : op ∈ rest := by
  rw [h.ops_eq] at hop
  rcases List.mem_append.mp hop with hop | hop
  · exact absurd hid (h.call_id_not_mem hop)
  · exact hop

theorem emitted_mem_rest (hop : op ∈ emitted sharedOps host.block.ops sg) : op ∈ rest := by
  obtain ⟨hmem, hid⟩ := (mem_deref h.wellFormed.nodup).mp hop
  refine h.mem_rest_of_id_mem hmem ?_
  rcases List.mem_append.mp hid with hid | hid
  · exact h.shared_mem _ hid
  · exact h.subgraph_mem sg (by simp) _ hid

theorem mem_outputs : v ∈ collectSubgraphBoundary host.block sg.ops ↔
    (∃ op ∈ rest, op.id ∈ sg.ops ∧ v ∈ op.results) ∧ usedOutside host.block sg.ops v := by
  simp only [collectSubgraphBoundary, List.mem_flatMap, List.mem_filter,
    mem_deref h.wellFormed.nodup]
  constructor
  · rintro ⟨op, ⟨hop, hid⟩, hv, hused⟩
    exact ⟨⟨op, h.mem_rest_of_id_mem hop (h.subgraph_mem sg (by simp) _ hid), hid, hv⟩, hused⟩
  · rintro ⟨⟨op, hop, hid, hv⟩, hused⟩
    exact ⟨op, ⟨h.ops_eq ▸ List.mem_append_right _ hop, hid⟩, hv, hused⟩

theorem blockArg_not_mem_outputs (n : ℕ) :
    Value.blockArg n ∉ collectSubgraphBoundary host.block sg.ops := by
  rw [h.mem_outputs]
  rintro ⟨⟨op, -, -, hv⟩, -⟩
  simp at hv

theorem redirect_blockArg (n id : ℕ) :
    redirect (collectSubgraphBoundary host.block sg.ops) id (.blockArg n) = .blockArg n := by
  rw [redirect, if_neg (h.blockArg_not_mem_outputs n)]

theorem map_redirect_calls (id : ℕ) : calls.map (Operation.mapOperands
      (redirect (collectSubgraphBoundary host.block sg.ops) id)) = calls := by
  refine map_mapOperands_eq_self fun op hop v hv => ?_
  obtain ⟨n, -, rfl⟩ := h.call_operands op hop v hv
  exact h.redirect_blockArg n id

end Calling

/-- The outputs of a subgraph. -/
abbrev outputs (host : Host) (sg : ConstEvalSubgraph) : List Value :=
  collectSubgraphBoundary host.block sg.ops

/-- The call of the function of a subgraph. -/
def callOf (f : Function) (host : Host) (sg : ConstEvalSubgraph) (subgraphIdx : ℕ) : Op :=
  loadCachedOp (newFuncName f subgraphIdx) (sg.inputParameters.sort (· ≤ ·))
    ((outputs host sg).map (getType host.block.ops)) host.nextId

theorem redirect_of_not_mem {out : List Value} (hv : v ∉ out) (id : ℕ) : redirect out id v = v := by
  rw [redirect, if_neg hv]

theorem redirect_mem (hv : v ∈ outputs host sg) (i : ℕ) :
    redirect (outputs host sg) host.nextId v ∈ (callOf f host sg i).results := by
  rw [redirect, if_pos hv, Operation.opResult_mem_results]
  refine ⟨rfl, ?_⟩
  simpa [Operation.numResults, callOf, loadCachedOp] using List.idxOf_lt_length_of_mem hv

/-- The other operations after the subgraph is erased and its outputs are replaced. -/
def remaining (host : Host) (sg : ConstEvalSubgraph) (rest : List Op) : List Op :=
  (rest.filter (·.id ∉ sg.ops)).map
    (Operation.mapOperands (redirect (outputs host sg) host.nextId))

/-- The rewritten function after a call is inserted. -/
def hostAfter (f : Function) (host : Host) (sg : ConstEvalSubgraph) (calls rest : List Op) :
    Host where
  block :=
    { numArgs := host.block.numArgs
      ops := calls ++ callOf f host sg calls.length :: remaining host sg rest
      returns := host.block.returns.map (redirect (outputs host sg) host.nextId) }
  nextId := host.nextId + 1

/-- The copies in the function of a subgraph, and the map to them. -/
def clones (sharedOps : List ℕ) (host : Host) (sg : ConstEvalSubgraph) :
    List Op × (Value → Value) :=
  cloneAll (inputRename (sg.inputParameters.sort (· ≤ ·))) 0
    (emitted sharedOps host.block.ops sg)

/-- The function of a subgraph. -/
def funcOf (f : Function) (sharedOps : List ℕ) (host : Host) (sg : ConstEvalSubgraph)
    (subgraphIdx : ℕ) : ConstEvalFunc where
  name := newFuncName f subgraphIdx
  argTypes := (sg.inputParameters.sort (· ≤ ·)).map fun n =>
    ((f.args[n]?).map Argument.type).getD .device
  resultTypes := (outputs host sg).map (getType host.block.ops)
  block :=
    { numArgs := (sg.inputParameters.sort (· ≤ ·)).length
      ops := (clones sharedOps host sg).1
      returns := (outputs host sg).map (clones sharedOps host sg).2 }

namespace Calling

variable (h : Calling f sharedOps (sg :: sgs) host calls rest)
include h

theorem outputs_mem (hv : v ∈ outputs host sg) :
    v ∈ inputValues sg ++ (emitted sharedOps host.block.ops sg).flatMap Operation.results := by
  obtain ⟨⟨op, hop, hid, hres⟩, -⟩ := h.mem_outputs.mp hv
  refine List.mem_append_right _ (List.mem_flatMap.mpr ⟨op, ?_, hres⟩)
  exact (mem_deref h.wellFormed.nodup).mpr
    ⟨h.ops_eq ▸ List.mem_append_right _ hop, List.mem_append_right _ hid⟩

theorem filter_calls : calls.filter (·.id ∉ sg.ops) = calls := by
  rw [List.filter_eq_self]
  intro op hop
  rw [decide_eq_true_eq]
  exact fun hid => h.call_id_not_mem hop (h.subgraph_mem sg (by simp) _ hid)

theorem nextId_not_mem : host.nextId ∉ sg.ops := by
  intro hmem
  obtain ⟨op, hop, hid⟩ := List.mem_map.mp (h.ids_mem _ (List.mem_append_right _ hmem))
  have hlt := h.lt_nextId op hop
  omega

/-- The new list of operations. -/
theorem ops_after : ((host.block.ops.insertIdx calls.length (callOf f host sg calls.length)).map
      (Operation.mapOperands (redirect (outputs host sg) host.nextId))).filter
      (·.id ∉ sg.ops) =
    calls ++ callOf f host sg calls.length :: remaining host sg rest := by
  have hcall : (callOf f host sg calls.length).mapOperands
      (redirect (outputs host sg) host.nextId) = callOf f host sg calls.length := by
    rw [callOf, loadCachedOp, Operation.mapOperands, List.map_map]
    congr 1
    exact List.map_congr_left fun n _ => h.redirect_blockArg n host.nextId
  have hid : (callOf f host sg calls.length).id ∉ sg.ops := h.nextId_not_mem
  rw [h.ops_eq, insertIdx_length_append, List.map_append, List.map_cons, List.filter_append,
    h.map_redirect_calls, h.filter_calls, hcall, List.filter_cons_of_pos (by simpa using hid),
    remaining, List.filter_map]
  rfl

/-- **A closed subgraph is hoisted.** -/
theorem create_eq_some (hclosed : Closed sharedOps host.block.ops sg) :
    createConstEvalFunction f sharedOps host sg calls.length =
      some (hostAfter f host sg calls rest, funcOf f sharedOps host sg calls.length) := by
  obtain ⟨st, hst, hbody, hagrees⟩ := (@processOps_eq_some
    ⟨inputMap (sg.inputParameters.sort (· ≤ ·)), []⟩ _ _ _) (agrees_inputMap sg)
    h.nodup_emitted (fresh_emitted _) hclosed
  have hreturns := hagrees.mapM_eq_some fun v hv => h.outputs_mem hv
  have hlength : calls.length ≤ host.block.ops.length := by simp [h.ops_eq]
  have hops := h.ops_after
  rw [callOf] at hops
  rw [emitted] at hst
  rw [createConstEvalFunction, hst]
  simp only [Option.bind_eq_bind, Option.bind_some, hreturns, hlength, if_true, hops]
  rw [hbody]
  rfl

/-- **A subgraph that is hoisted is closed.** -/
theorem closed_of_create {host' : Host} {newFunc : ConstEvalFunc} {i : ℕ}
    (hcreate : createConstEvalFunction f sharedOps host sg i = some (host', newFunc)) :
    Closed sharedOps host.block.ops sg := by
  rw [createConstEvalFunction] at hcreate
  cases hst : (deref host.block.ops (sharedOps ++ sg.ops)).foldlM CloneState.processOp
      ⟨inputMap (sg.inputParameters.sort (· ≤ ·)), []⟩ with
  | none =>
    rw [hst] at hcreate
    cases hcreate
  | some st =>
    exact (@scoped_of_processOps ⟨inputMap (sg.inputParameters.sort (· ≤ ·)), []⟩ _ _ _ _)
      (agrees_inputMap sg) h.nodup_emitted (fresh_emitted _) hst

/-- A value that is not replaced and is the result of another operation stays visible: that
operation is not erased. -/
theorem not_mem_subgraph_of_used (hv : v ∉ outputs host sg)
    (hused : usedOutside host.block sg.ops v) {a : Op} (ha : a ∈ rest) (hva : v ∈ a.results) :
    a.id ∉ sg.ops := by
  intro hid
  exact hv (h.mem_outputs.mpr ⟨⟨a, ha, hid, hva⟩, hused⟩)

theorem usedOutside_of_mem_operands (hop : op ∈ rest) (hid : op.id ∉ sg.ops)
    (hv : v ∈ op.operands) : usedOutside host.block sg.ops v := by
  simp only [usedOutside, Bool.or_eq_true, List.any_eq_true, Bool.and_eq_true, decide_eq_true_eq]
  exact Or.inr ⟨op, h.ops_eq ▸ List.mem_append_right _ hop, hv, hid⟩

/-- The operations that are left stay scoped. -/
theorem scoped_remaining :
    Scoped (entryScope host.block.numArgs ++ calls.flatMap Operation.results ++
        (callOf f host sg calls.length).results) (remaining host sg rest) := by
  have hscoped := h.wellFormed.dominated
  have hnodup := h.wellFormed.nodup
  rw [h.ops_eq] at hscoped hnodup
  rw [List.map_append] at hnodup
  have hrest := (scoped_append.mp hscoped).2
  refine scoped_filter_map hrest (List.nodup_append.mp hnodup).2.1 ?_ ?_
  · intro a ha v hv hmem
    obtain ⟨k, -, rfl⟩ := Operation.mem_results.mp hv
    rcases List.mem_append.mp hmem with hmem | hmem
    · simp at hmem
    · obtain ⟨c, hc, hvc⟩ := List.mem_flatMap.mp hmem
      refine h.call_id_not_mem hc ?_
      rw [Operation.id_eq_of_mem_results hvc hv]
      exact List.mem_map_of_mem ha
  · intro op hop hkept v hv
    have hid : op.id ∉ sg.ops := by simpa using hkept
    by_cases hout : v ∈ outputs host sg
    · exact Or.inl (List.mem_append_right _ (redirect_mem hout _))
    · rw [redirect_of_not_mem hout]
      rcases List.mem_append.mp (hrest.mem_of_mem_operands hop hv) with hmem | hmem
      · exact Or.inl (List.mem_append_left _ hmem)
      · obtain ⟨a, ha, hva⟩ := List.mem_flatMap.mp hmem
        refine Or.inr ⟨rfl, a, ha, ?_, hva⟩
        simpa using h.not_mem_subgraph_of_used hout (h.usedOutside_of_mem_operands hop hid hv) ha hva

/-- **The rewritten function is well formed**: in particular the results of the new call
dominate their uses. -/
theorem wellFormed_after : (hostAfter f host sg calls rest).block.WellFormed where
  nodup := by
    have hnodup := h.wellFormed.nodup
    rw [h.ops_eq, List.map_append] at hnodup
    obtain ⟨hcalls, hrest, hdisj⟩ := List.nodup_append.mp hnodup
    have hsub : ((remaining host sg rest).map Operation.id).Sublist (rest.map Operation.id) := by
      rw [remaining, List.map_map]
      exact List.filter_sublist.map Operation.id
    have hfresh : ∀ op ∈ calls ++ rest, op.id ≠ host.nextId := fun op hop =>
      (h.lt_nextId op (h.ops_eq ▸ hop)).ne
    show ((calls ++ callOf f host sg calls.length :: remaining host sg rest).map _).Nodup
    rw [List.map_append, List.map_cons]
    refine List.nodup_append.mpr ⟨hcalls, List.nodup_cons.mpr ⟨fun hmem => ?_, hsub.nodup hrest⟩,
      ?_⟩
    · obtain ⟨op, hop, hid⟩ := List.mem_map.mp (hsub.subset hmem)
      exact hfresh op (List.mem_append_right _ hop) hid
    · intro x hx y hy
      rcases List.mem_cons.mp hy with rfl | hy
      · obtain ⟨op, hop, rfl⟩ := List.mem_map.mp hx
        exact hfresh op (List.mem_append_left _ hop)
      · exact hdisj x hx y (hsub.subset hy)
  dominated := by
    have hscoped := h.wellFormed.dominated
    rw [h.ops_eq] at hscoped
    show Scoped (entryScope host.block.numArgs)
      (calls ++ callOf f host sg calls.length :: remaining host sg rest)
    refine scoped_append.mpr ⟨(scoped_append.mp hscoped).1, ?_, h.scoped_remaining⟩
    intro v hv
    obtain ⟨n, hn, rfl⟩ := List.mem_map.mp hv
    have hparam := h.inputs sg (by simp) n ((Finset.mem_sort _).mp hn)
    refine List.mem_append_left _ (blockArg_mem_entryScope.mpr ?_)
    rw [h.numArgs]
    exact Finset.mem_range.mp (Finset.mem_filter.mp hparam).1
  returns_mem := by
    intro w hw
    obtain ⟨v, hv, rfl⟩ := List.mem_map.mp hw
    have hvisible := h.wellFormed.returns_mem v hv
    rw [h.ops_eq, scope, List.flatMap_append, ← List.append_assoc] at hvisible
    show _ ∈ scope host.block.numArgs
      (calls ++ callOf f host sg calls.length :: remaining host sg rest)
    rw [scope, List.flatMap_append, List.flatMap_cons]
    by_cases hout : v ∈ outputs host sg
    · exact List.mem_append_right _ (List.mem_append_right _
        (List.mem_append_left _ (redirect_mem hout _)))
    · rw [redirect_of_not_mem hout]
      rcases List.mem_append.mp hvisible with hmem | hmem
      · rcases List.mem_append.mp hmem with hmem | hmem
        · exact List.mem_append_left _ hmem
        · exact List.mem_append_right _ (List.mem_append_left _ hmem)
      · obtain ⟨a, ha, hva⟩ := List.mem_flatMap.mp hmem
        have hused : usedOutside host.block sg.ops v := by simp [usedOutside, hv]
        have hid := h.not_mem_subgraph_of_used hout hused ha hva
        refine List.mem_append_right _ (List.mem_append_right _ (List.mem_append_right _ ?_))
        refine List.mem_flatMap.mpr ⟨a.mapOperands _, List.mem_map_of_mem (List.mem_filter.mpr
          ⟨ha, by simpa using hid⟩), hva⟩

/-- **One subgraph** leaves a function of the same kind, with one call more. -/
theorem create : Calling f sharedOps sgs (hostAfter f host sg calls rest)
    (calls ++ [callOf f host sg calls.length]) (remaining host sg rest) where
  numArgs := h.numArgs
  ops_eq := by simp [hostAfter]
  wellFormed := h.wellFormed_after
  lt_nextId := by
    intro op hop
    show op.id < host.nextId + 1
    rcases List.mem_append.mp hop with hop | hop
    · exact (h.lt_nextId op (h.ops_eq ▸ List.mem_append_left _ hop)).trans (Nat.lt_succ_self _)
    · rcases List.mem_cons.mp hop with rfl | hop
      · exact Nat.lt_succ_self _
      · obtain ⟨a, ha, rfl⟩ := List.mem_map.mp hop
        have hlt := h.lt_nextId a (h.ops_eq ▸ List.mem_append_right _ (List.mem_filter.mp ha).1)
        exact hlt.trans (Nat.lt_succ_self _)
  call_names := by
    rw [List.map_append, h.call_names, List.length_append, List.length_singleton,
      List.range_succ, List.map_append]
    rfl
  call_operands := by
    intro op hop v hv
    rcases List.mem_append.mp hop with hop | hop
    · exact h.call_operands op hop v hv
    · obtain rfl := List.mem_singleton.mp hop
      obtain ⟨n, hn, rfl⟩ := List.mem_map.mp hv
      exact ⟨n, h.inputs sg (by simp) n ((Finset.mem_sort _).mp hn), rfl⟩
  rest_source := by
    intro op hop
    obtain ⟨a, ha, rfl⟩ := List.mem_map.mp hop
    exact h.rest_source a (List.mem_filter.mp ha).1
  rest_shared := by
    intro op hop hsh
    obtain ⟨a, ha, rfl⟩ := List.mem_map.mp hop
    obtain ⟨hoperands, htypes⟩ := h.rest_shared a (List.mem_filter.mp ha).1 hsh
    exact ⟨by rw [Operation.mapOperands_operands, hoperands]; rfl, htypes⟩
  shared_mem := by
    intro id hid
    obtain ⟨a, ha, rfl⟩ := List.mem_map.mp (h.shared_mem id hid)
    have hnot : a.id ∉ sg.ops := fun hmem =>
      (List.nodup_append.mp (h.nodup sg (by simp))).2.2 _ hid _ hmem rfl
    rw [remaining, List.map_map]
    exact List.mem_map.mpr ⟨a, List.mem_filter.mpr ⟨ha, by simpa using hnot⟩, rfl⟩
  subgraph_mem := by
    intro sg' hsg' id hid
    obtain ⟨a, ha, rfl⟩ := List.mem_map.mp (h.subgraph_mem sg' (List.mem_cons_of_mem _ hsg') id hid)
    have hnot : a.id ∉ sg.ops := fun hmem =>
      (List.pairwise_cons.mp h.disjoint).1 sg' hsg' hmem hid
    rw [remaining, List.map_map]
    exact List.mem_map.mpr ⟨a, List.mem_filter.mpr ⟨ha, by simpa using hnot⟩, rfl⟩
  nodup := fun sg' hsg' => h.nodup sg' (List.mem_cons_of_mem _ hsg')
  disjoint := (List.pairwise_cons.mp h.disjoint).2
  inputs := fun sg' hsg' => h.inputs sg' (List.mem_cons_of_mem _ hsg')

/-- The operations of the other subgraphs are the old ones with replaced operands. -/
theorem emitted_after {sg' : ConstEvalSubgraph} (hsg' : sg' ∈ sgs) :
    emitted sharedOps (hostAfter f host sg calls rest).block.ops sg' =
      (emitted sharedOps host.block.ops sg').map
        (Operation.mapOperands (redirect (outputs host sg) host.nextId)) := by
  rw [emitted, emitted, deref, deref, List.map_filterMap]
  refine List.filterMap_congr fun id hid => ?_
  have hrest : id ∈ rest.map Operation.id := by
    rcases List.mem_append.mp hid with hid | hid
    · exact h.shared_mem id hid
    · exact h.subgraph_mem sg' (List.mem_cons_of_mem _ hsg') id hid
  have hnot : id ∉ sg.ops := by
    intro hmem
    rcases List.mem_append.mp hid with hid | hid
    · exact (List.nodup_append.mp (h.nodup sg (by simp))).2.2 _ hid _ hmem rfl
    · exact (List.pairwise_cons.mp h.disjoint).1 sg' hsg' hmem hid
  obtain ⟨a, ha, rfl⟩ := List.mem_map.mp hrest
  have hold : lookup host.block.ops a.id = some a :=
    (lookup_eq_some_iff h.wellFormed.nodup).mpr ⟨h.ops_eq ▸ List.mem_append_right _ ha, rfl⟩
  rw [hold]
  refine (lookup_eq_some_iff h.wellFormed_after.nodup).mpr ⟨?_, rfl⟩
  refine List.mem_append_right _ (List.mem_cons_of_mem _ (List.mem_map_of_mem ?_))
  exact List.mem_filter.mpr ⟨ha, by simpa using hnot⟩

/-- **Hoisting one subgraph neither opens nor closes another.** -/
theorem closed_after {sg' : ConstEvalSubgraph} (hsg' : sg' ∈ sgs) :
    Closed sharedOps (hostAfter f host sg calls rest).block.ops sg' ↔
      Closed sharedOps host.block.ops sg' := by
  rw [Closed, Closed, h.emitted_after hsg']
  refine scoped_map_mapOperands fun w hw v => ?_
  by_cases hout : v ∈ outputs host sg
  · obtain ⟨⟨op, hop, hid, hv⟩, -⟩ := h.mem_outputs.mp hout
    rw [redirect, if_pos hout]
    rcases List.mem_append.mp hw with hw | hw
    · obtain ⟨n, -, rfl⟩ := List.mem_map.mp hw
      constructor
      · intro heq
        cases heq
      · rintro rfl
        simp at hv
    · -- the value belongs to an operation of another subgraph or a shared one
      obtain ⟨a, ha, hwa⟩ := List.mem_flatMap.mp hw
      obtain ⟨hmem, haid⟩ := (mem_deref h.wellFormed.nodup).mp ha
      constructor
      · rintro rfl
        have hlt := h.lt_nextId a hmem
        have heq := (Operation.opResult_mem_results.mp hwa).1
        omega
      · rintro rfl
        rw [Operation.id_eq_of_mem_results hv hwa] at hid
        rcases List.mem_append.mp haid with haid | haid
        · exact absurd rfl ((List.nodup_append.mp (h.nodup sg (by simp))).2.2 _ haid _ hid)
        · exact absurd haid ((List.pairwise_cons.mp h.disjoint).1 sg' hsg' hid)
  · rw [redirect_of_not_mem hout]

end Calling

/-! ## What one subgraph computes -/

/-- The values in the rewritten function: each result of the new call has the value of the
output it replaces. -/
def valuesAfter (host : Host) (sg : ConstEvalSubgraph) (ρ : Value → α) : Value → α
  | .blockArg n => ρ (.blockArg n)
  | .opResult id k =>
    if id = host.nextId then ρ ((outputs host sg).getD k (.opResult id k))
    else ρ (.opResult id k)

/-- A meaning of operations under which operations that are no calls mean what they do, and
calls run the given functions. -/
structure Runs (I : Interp α) (sem : Sem OpName α) (newFuncs : List ConstEvalFunc) : Prop where
  op : ∀ name, name.isLoadCached = false → sem name = opSem I name
  call : ∀ newFunc ∈ newFuncs, ∀ vs k, sem (.loadCached newFunc.name) vs k =
    (newFunc.block.eval (opSem I) vs).bind fun results => results[k]?

theorem valuesAfter_of_ne {ρ : Value → α}
    (hv : ∀ k, v ≠ .opResult host.nextId k) : valuesAfter host sg ρ v = ρ v := by
  cases v with
  | blockArg n => rfl
  | opResult id k =>
    have hne : id ≠ host.nextId := fun heq => hv k (heq ▸ rfl)
    rw [valuesAfter, if_neg hne]

theorem valuesAfter_redirect {ρ : Value → α} (hv : ∀ k, v ≠ .opResult host.nextId k) :
    valuesAfter host sg ρ (redirect (outputs host sg) host.nextId v) = ρ v := by
  by_cases hout : v ∈ outputs host sg
  · have hlt := List.idxOf_lt_length_of_mem hout
    rw [redirect, if_pos hout, valuesAfter, if_pos rfl, List.getD_eq_getElem _ _ hlt,
      List.getElem_idxOf]
  · rw [redirect_of_not_mem hout, valuesAfter_of_ne hv]

namespace Calling

variable (h : Calling f sharedOps (sg :: sgs) host calls rest)
include h

/-- The function of a closed subgraph is well formed. -/
theorem wellFormed_funcOf (hclosed : Closed sharedOps host.block.ops sg) (i : ℕ) :
    (funcOf f sharedOps host sg i).block.WellFormed := by
  obtain ⟨hscoped, hmap⟩ := (@scoped_cloneAll _ _
    (inputRename (sg.inputParameters.sort (· ≤ ·))) _ 0 _
    (entryScope (sg.inputParameters.sort (· ≤ ·)).length)) hclosed (by
      intro v hv
      obtain ⟨n, hn, rfl⟩ := List.mem_map.mp hv
      exact blockArg_mem_entryScope.mpr (List.idxOf_lt_length_of_mem hn))
  refine ⟨?_, hscoped, ?_⟩
  · show ((clones sharedOps host sg).1.map Operation.id).Nodup
    rw [clones, map_id_cloneAll]
    exact List.nodup_range'
  · intro w hw
    obtain ⟨v, hv, rfl⟩ := List.mem_map.mp hw
    exact hmap v (h.outputs_mem hv)

theorem funcOf_wellFormed (hclosed : Closed sharedOps host.block.ops sg) (i : ℕ) :
    (funcOf f sharedOps host sg i).WellFormed where
  block := h.wellFormed_funcOf hclosed i
  source := by
    intro op hop
    obtain ⟨a, ha, m, j, rfl⟩ := exists_of_mem_cloneAll hop
    exact h.rest_source a (h.emitted_mem_rest ha)
  shared := by
    intro op hop hsh
    obtain ⟨a, ha, m, j, rfl⟩ := exists_of_mem_cloneAll hop
    obtain ⟨hoperands, htypes⟩ := h.rest_shared a (h.emitted_mem_rest ha) hsh
    exact ⟨by rw [Operation.clone_operands, hoperands]; rfl, htypes⟩

omit h in
theorem calls_callOf (i : ℕ) : Calls (callOf f host sg i) (funcOf f sharedOps host sg i) where
  name := rfl
  operands := by simp [callOf, loadCachedOp, funcOf]
  results := by simp [Operation.numResults, callOf, loadCachedOp, funcOf]

/-- **The function of a closed subgraph computes its outputs** from the values of its
inputs. -/
theorem eval_funcOf {I : Interp α} {sem : Sem OpName α} {ρ : Value → α}
    {newFuncs : List ConstEvalFunc} (hruns : Runs I sem newFuncs)
    (hclosed : Closed sharedOps host.block.ops sg) (hsolves : Solves sem host.block.ops ρ)
    (i : ℕ) : (funcOf f sharedOps host sg i).block.eval (opSem I)
        (((sg.inputParameters.sort (· ≤ ·)).map Value.blockArg).map ρ) =
      some ((outputs host sg).map ρ) := by
  set inputs := sg.inputParameters.sort (· ≤ ·) with hinputs
  have hemitted : Solves (opSem I) (emitted sharedOps host.block.ops sg) ρ := by
    intro op hop k hk
    have hrest := h.emitted_mem_rest hop
    rw [← hruns.op op.name (h.rest_source op hrest)]
    exact hsolves op (h.ops_eq ▸ List.mem_append_right _ hrest) k hk
  -- the arguments of the new function have the values of the inputs
  set ρ₀ : Value → α := fun v => match v with
    | .blockArg j => ρ (.blockArg (inputs.getD j 0))
    | .opResult id k => ρ (.opResult id k) with hρ₀
  obtain ⟨ρ', hsame, hmap, hsolves'⟩ := (@exists_solves_cloneAll _ _ _
    (inputRename inputs) _ _ 0 _ (entryScope inputs.length) _ ρ₀) hclosed (by
      intro v hv
      obtain ⟨n, hn, rfl⟩ := List.mem_map.mp hv
      exact blockArg_mem_entryScope.mpr (List.idxOf_lt_length_of_mem hn)) hemitted (by simp) (by
      intro v hv
      obtain ⟨n, hn, rfl⟩ := List.mem_map.mp hv
      have hlt : inputs.idxOf n < inputs.length := List.idxOf_lt_length_of_mem hn
      show ρ (.blockArg (inputs.getD (inputs.idxOf n) 0)) = _
      rw [List.getD_eq_getElem _ _ hlt, List.getElem_idxOf])
  have hargs : ∀ n < inputs.length, ((inputs.map Value.blockArg).map ρ)[n]? =
      some (ρ' (.blockArg n)) := by
    intro n hn
    rw [hsame _ fun _ _ _ heq => by cases heq]
    simp [hρ₀, List.getElem?_eq_getElem hn]
  rw [eval_eq_of_solves (h.wellFormed_funcOf hclosed i) hargs hsolves']
  show some (((outputs host sg).map _).map ρ') = _
  rw [List.map_map]
  exact congrArg some (List.map_congr_left fun v hv => hmap v (h.outputs_mem hv))

theorem ne_nextId (hop : op ∈ host.block.ops) (hv : v ∈ op.results)
    (k : ℕ) : v ≠ .opResult host.nextId k := by
  rintro rfl
  have hlt := h.lt_nextId op hop
  have heq := (Operation.opResult_mem_results.mp hv).1
  omega

theorem ne_nextId_of_mem_operands (hop : op ∈ host.block.ops)
    (hv : v ∈ op.operands) (k : ℕ) : v ≠ .opResult host.nextId k := by
  rcases List.mem_append.mp (h.wellFormed.dominated.mem_of_mem_operands hop hv) with hmem | hmem
  · rintro rfl
    simp at hmem
  · obtain ⟨a, ha, hva⟩ := List.mem_flatMap.mp hmem
    exact h.ne_nextId ha hva k

/-- **The rewritten function has the old values.** -/
theorem solves_after {I : Interp α} {sem : Sem OpName α} {ρ : Value → α}
    {newFuncs : List ConstEvalFunc} (hruns : Runs I sem newFuncs)
    (hmem : funcOf f sharedOps host sg calls.length ∈ newFuncs)
    (hclosed : Closed sharedOps host.block.ops sg) (hsolves : Solves sem host.block.ops ρ) :
    Solves sem (hostAfter f host sg calls rest).block.ops (valuesAfter host sg ρ) := by
  -- an operation of the old function whose operands are replaced or kept
  have hold : ∀ op ∈ host.block.ops, ∀ operands : List Value,
      operands.map (valuesAfter host sg ρ) = op.operands.map ρ → ∀ k < op.numResults,
      sem op.name (operands.map (valuesAfter host sg ρ)) k =
        some (valuesAfter host sg ρ (.opResult op.id k)) := by
    intro op hop operands hoperands k hk
    have hne := h.ne_nextId hop (Operation.opResult_mem_results.mpr ⟨rfl, hk⟩)
    rw [hoperands, valuesAfter_of_ne hne]
    exact hsolves op hop k hk
  intro op hop
  rcases List.mem_append.mp hop with hop | hop
  · have hmem' : op ∈ host.block.ops := h.ops_eq ▸ List.mem_append_left _ hop
    refine hold op hmem' op.operands (List.map_congr_left fun v hv => ?_)
    exact valuesAfter_of_ne (h.ne_nextId_of_mem_operands hmem' hv)
  · rcases List.mem_cons.mp hop with rfl | hop
    · intro k hk
      have hk' : k < (outputs host sg).length := by
        simpa [Operation.numResults, callOf, loadCachedOp] using hk
      have hoperands : (callOf f host sg calls.length).operands.map (valuesAfter host sg ρ) =
          ((sg.inputParameters.sort (· ≤ ·)).map Value.blockArg).map ρ :=
        List.map_congr_left fun v hv => by
          obtain ⟨n, -, rfl⟩ := List.mem_map.mp hv
          rfl
      have hcall := hruns.call _ hmem (((sg.inputParameters.sort (· ≤ ·)).map Value.blockArg).map ρ) k
      rw [h.eval_funcOf hruns hclosed hsolves] at hcall
      rw [hoperands]
      refine Eq.trans hcall ?_
      show ((outputs host sg).map ρ)[k]? = some (valuesAfter host sg ρ (.opResult host.nextId k))
      rw [valuesAfter, if_pos rfl, List.getD_eq_getElem _ _ hk', List.getElem?_map,
        List.getElem?_eq_getElem hk']
      rfl
    · obtain ⟨a, ha, rfl⟩ := List.mem_map.mp hop
      have hmem' : a ∈ host.block.ops :=
        h.ops_eq ▸ List.mem_append_right _ (List.mem_filter.mp ha).1
      refine hold a hmem' _ ?_
      rw [Operation.mapOperands_operands, List.map_map]
      exact List.map_congr_left fun v hv =>
        valuesAfter_redirect (h.ne_nextId_of_mem_operands hmem' hv)

theorem returns_after (ρ : Value → α) :
    (hostAfter f host sg calls rest).block.returns.map (valuesAfter host sg ρ) =
      host.block.returns.map ρ := by
  show (host.block.returns.map _).map _ = _
  rw [List.map_map]
  refine List.map_congr_left fun v hv => valuesAfter_redirect fun k => ?_
  rcases List.mem_append.mp (h.wellFormed.returns_mem v hv) with hmem | hmem
  · rintro rfl
    simp at hmem
  · obtain ⟨a, ha, hva⟩ := List.mem_flatMap.mp hmem
    exact h.ne_nextId ha hva k

end Calling

end Step

end ConstEval
