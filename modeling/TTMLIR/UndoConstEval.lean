/-
# Undoing const-eval

`undoConstEvalImpl` of `ConstEvalHoist.cpp` inlines every function made by const-eval
hoisting at its call, and then merges the operations with the duplicate trait that have the
same name and attributes.

* `inlineConstEvalFunction`, `deduplicateSharedOps`, `undoConstEvalImpl` : the pass as it
  computes;
* `solves_deduplicateSharedOps` : merging keeps all values;
* `Fits.wellFormed_inlined`, `Fits.solves_inlined` : inlining one function keeps dominance and
  all values;
* `undoConstEval_correct` : every function of a module returns the same values afterwards, and only
  operations with the same values and types are merged;
* `undo_processFunction_iff` : hoisting and undoing, one after the other.
-/
import TTMLIR.ConstEvalClosure
import TTMLIR.Fallible

open SSA

namespace ConstEval

variable {α : Type}

/-! ## The pass -/

/-- The state of the walk of `deduplicateSharedOps`. -/
structure DedupState : Type where
  block : Block OpName Ty
  sharedOps : OpName → Option Op
  opsToErase : List ℕ

/-- The uses of the results of `op` become uses of the results of the first instance. -/
def replaceResults (op firstOp : Op) : Value → Value
  | .blockArg n => .blockArg n
  | .opResult id k =>
    if id = op.id ∧ k < op.numResults then .opResult firstOp.id k else .opResult id k

/-- One operation of the walk; the key is the name with the attributes. -/
def DedupState.visit (st : DedupState) (op : Op) : DedupState :=
  if isSharedOp op then
    match st.sharedOps op.name with
    | none => { st with sharedOps := Function.update st.sharedOps op.name (some op) }
    | some firstOp =>
      { st with
        block := st.block.replaceUses (replaceResults op firstOp)
        opsToErase := st.opsToErase ++ [op.id] }
  else
    st

/-- `deduplicateSharedOps`. -/
def deduplicateSharedOps (block : Block OpName Ty) : Block OpName Ty :=
  let st := block.ops.foldl DedupState.visit ⟨block, fun _ => none, []⟩
  { st.block with ops := st.block.ops.filter (·.id ∉ st.opsToErase) }

/-- The map of the arguments of a function to the operands of its call. -/
def argumentMap (callOp : Op) : Value → Value
  | .blockArg n => callOp.operands.getD n (.blockArg n)
  | .opResult id k => .opResult id k

/-- The uses of the results of the call become uses of the returned values. -/
def returnMap (callOp : Op) (returned : List Value) : Value → Value
  | .blockArg n => .blockArg n
  | .opResult id k =>
    if id = callOp.id then returned.getD k (.opResult id k) else .opResult id k

/-- `inlineConstEvalFunction`; `none` where an operand or a result of the call is missing. -/
def inlineConstEvalFunction (block : Block OpName Ty) (funcOp : ConstEvalFunc) (callOp : Op) :
    Option (Block OpName Ty) :=
  if funcOp.block.numArgs ≤ callOp.operands.length ∧
      funcOp.block.returns.length ≤ callOp.numResults then
    let (clones, valueMapper) := cloneAll (argumentMap callOp) (freshId block.ops) funcOp.block.ops
    let inserted : Block OpName Ty :=
      { block with ops := block.ops.flatMap fun op => if op.id = callOp.id then clones else [op] }
    some (inserted.replaceUses (returnMap callOp (funcOp.block.returns.map valueMapper)))
  else
    none

/-- The functions of a module: those that are processed, and those made by hoisting, which
have the `const_eval` attribute. -/
structure Module : Type where
  hosts : List (Block OpName Ty)
  constEvalFuncs : List ConstEvalFunc

/-- The callee of a call. -/
def getCallee (op : Op) : String :=
  match op.name with
  | .op _ _ _ => ""
  | .loadCached callee => callee

/-- The calls of a block. -/
def loadCachedOps (block : Block OpName Ty) : List Op := block.ops.filter (·.name.isLoadCached)

/-- The calls of a module, each with the position of its parent function. -/
def Module.calls (m : Module) : List (ℕ × Op) :=
  m.hosts.zipIdx.flatMap fun (host, parent) => (loadCachedOps host).map fun op => (parent, op)

/-- The entries of `funcToCall`: the name of a function, the position of the parent of its
call and the identity of the call. -/
structure FuncCall : Type where
  callee : String
  parent : ℕ
  callOp : ℕ

/-- `funcToCall`; `none` where a callee does not exist or is called more than once. -/
def Module.funcToCall (m : Module) : Option (List FuncCall) :=
  m.calls.foldlM (fun funcToCall (parent, op) =>
    if m.constEvalFuncs.any (·.name = getCallee op) ∧
        ¬ funcToCall.any (·.callee = getCallee op) then
      some (funcToCall ++ [⟨getCallee op, parent, op.id⟩])
    else
      none) []

/-- The body of the inlining loop; `none` where the function is never called. -/
def inlineStep (funcToCall : List FuncCall) (st : List (Block OpName Ty) × List ℕ)
    (funcOp : ConstEvalFunc) : Option (List (Block OpName Ty) × List ℕ) := do
  let call ← funcToCall.find? (·.callee = funcOp.name)
  let parentFunc ← st.1[call.parent]?
  let callOp ← lookup parentFunc.ops call.callOp
  let inlined ← inlineConstEvalFunction parentFunc funcOp callOp
  some (st.1.set call.parent inlined, st.2 ++ [call.parent])

/-- The inlining loop: the functions after it, and `parentFuncs`. -/
def Module.inlineAll (m : Module) : Option (List (Block OpName Ty) × List ℕ) := do
  let funcToCall ← m.funcToCall
  m.constEvalFuncs.foldlM (inlineStep funcToCall) (m.hosts, [])

/-- The merging loop over `parentFuncs`. -/
def deduplicateAll (parentFuncs : List ℕ) (hosts : List (Block OpName Ty)) :
    List (Block OpName Ty) :=
  parentFuncs.foldl (fun hosts parent => hosts.modify parent deduplicateSharedOps) hosts

/-- `undoConstEvalImpl`: the functions that are left. -/
def undoConstEvalImpl (m : Module) : Option (List (Block OpName Ty)) := do
  let (hosts, parentFuncs) ← m.inlineAll
  some (deduplicateAll parentFuncs hosts)

/-! ## Merging shared operations -/

/-- **The walk after a prefix**: the uses are replaced by `g`, which keeps the results of the
operations that stay and sends those of a merged one to an earlier instance that stays. -/
structure DedupInv (b : Block OpName Ty) (pre : List Op) (st : DedupState)
    (g : Value → Value) : Prop where
  block_eq : st.block = b.replaceUses g
  blockArg : ∀ n, g (.blockArg n) = .blockArg n
  first : ∀ name a, st.sharedOps name = some a →
    a ∈ pre ∧ isSharedOp a ∧ a.name = name ∧ a.id ∉ st.opsToErase
  erased : ∀ id ∈ st.opsToErase, ∃ op ∈ pre, op.id = id
  kept : ∀ op ∈ b.ops, op.id ∉ st.opsToErase → ∀ v ∈ op.results, g v = v
  merged : ∀ op ∈ b.ops, op.id ∈ st.opsToErase → isSharedOp op ∧ ∃ a ∈ b.ops,
    isSharedOp a ∧ a.name = op.name ∧ a.id ∉ st.opsToErase ∧
      index b.ops a.id < index b.ops op.id ∧
      ∀ k < op.numResults, g (.opResult op.id k) = .opResult a.id k

theorem replaceUses_replaceUses (b : Block OpName Ty) (g g' : Value → Value) :
    (b.replaceUses g).replaceUses g' = b.replaceUses fun v => g' (g v) := by
  simp [Block.replaceUses, Operation.mapOperands, Function.comp_def]

theorem replaceUses_self (b : Block OpName Ty) : (b.replaceUses fun v => v) = b := by
  rw [Block.replaceUses, map_mapOperands_eq_self fun _ _ _ _ => rfl, List.map_id']

theorem replaceResults_of_ne {op firstOp : Op} {v : Value} (hv : v ∉ op.results) :
    replaceResults op firstOp v = v := by
  cases v with
  | blockArg n => rfl
  | opResult id k =>
    rw [replaceResults, if_neg fun h => hv (Operation.opResult_mem_results.mpr h)]

theorem dedupInv_start (b : Block OpName Ty) : DedupInv b [] ⟨b, fun _ => none, []⟩ fun v => v where
  block_eq := (replaceUses_self b).symm
  blockArg _ := rfl
  first _ _ h := by cases h
  erased _ h := by cases h
  kept _ _ _ _ _ := rfl
  merged _ _ h := by cases h

variable {b : Block OpName Ty}

theorem DedupInv.mono {pre : List Op} {st : DedupState}
    {g : Value → Value} (h : DedupInv b pre st g) (op : Op) : DedupInv b (pre ++ [op]) st g where
  block_eq := h.block_eq
  blockArg := h.blockArg
  first name a ha := by
    obtain ⟨hmem, hrest⟩ := h.first name a ha
    exact ⟨List.mem_append_left _ hmem, hrest⟩
  erased id hid := by
    obtain ⟨o, ho, heq⟩ := h.erased id hid
    exact ⟨o, List.mem_append_left _ ho, heq⟩
  kept := h.kept
  merged := h.merged

section Visit

variable {b : Block OpName Ty} {pre post : List Op} {op : Op} {st : DedupState}
  {g : Value → Value}

section

variable (hb : b.WellFormed) (hops : b.ops = pre ++ op :: post) (h : DedupInv b pre st g)

include hb hops h

theorem DedupInv.not_erased : op.id ∉ st.opsToErase := by
  intro hid
  obtain ⟨o, ho, heq⟩ := h.erased _ hid
  have hlt := index_lt_index (hops ▸ hb.nodup) ho
  rw [heq] at hlt
  exact absurd hlt (lt_irrefl _)

/-- The first instance of a key is recorded. -/
theorem DedupInv.visit_first (hsh : isSharedOp op) : DedupInv b (pre ++ [op])
      { st with sharedOps := Function.update st.sharedOps op.name (some op) } g where
  block_eq := h.block_eq
  blockArg := h.blockArg
  first name a ha := by
    by_cases hname : name = op.name
    · rw [hname] at ha ⊢
      simp only [Function.update_self, Option.some.injEq] at ha
      subst ha
      exact ⟨by simp, hsh, rfl, show op.id ∉ st.opsToErase from h.not_erased hb hops⟩
    · simp only [Function.update_of_ne hname] at ha
      exact (h.mono op).first name a ha
  erased := (h.mono op).erased
  kept := h.kept
  merged := h.merged

/-- A later instance of a key is merged into the first. -/
theorem DedupInv.visit_duplicate (hsh : isSharedOp op) {firstOp : Op}
    (hfirst : st.sharedOps op.name = some firstOp) :
    DedupInv b (pre ++ [op])
      { st with
        block := st.block.replaceUses (replaceResults op firstOp)
        opsToErase := st.opsToErase ++ [op.id] }
      fun v => replaceResults op firstOp (g v) := by
  obtain ⟨hfmem, hfsh, hfname, hfkept⟩ := h.first _ _ hfirst
  have hnodup := hb.nodup
  have hop : op ∈ b.ops := by simp [hops]
  have hnot_erased := h.not_erased hb hops
  -- what was visited before is another operation
  have hpre : ∀ a ∈ pre, a.id ≠ op.id ∧ index b.ops a.id < index b.ops op.id := by
    intro a ha
    have hlt : index b.ops a.id < index b.ops op.id := by
      rw [hops]
      exact index_lt_index (hops ▸ hnodup) ha
    refine ⟨fun heq => ?_, hlt⟩
    rw [heq] at hlt
    exact absurd hlt (lt_irrefl _)
  refine ⟨?_, fun n => ?_, fun name a ha => ?_, fun id hid => ?_, fun o ho hkept v hv => ?_,
    fun o ho herased => ?_⟩
  · rw [h.block_eq, replaceUses_replaceUses]
  · rw [h.blockArg]
    rfl
  · obtain ⟨hapre, hash, haname, hakept⟩ := h.first name a ha
    refine ⟨List.mem_append_left _ hapre, hash, haname, ?_⟩
    rw [List.mem_append, List.mem_singleton]
    exact fun hor => hor.elim hakept (hpre a hapre).1
  · rcases List.mem_append.mp hid with hid | hid
    · exact (h.mono op).erased id hid
    · exact ⟨op, by simp, (List.mem_singleton.mp hid).symm⟩
  · have hkept' : o.id ∉ st.opsToErase := fun hid => hkept (List.mem_append_left _ hid)
    have hne : o.id ≠ op.id := fun heq => hkept (List.mem_append_right _ (by simp [heq]))
    rw [h.kept o ho hkept' v hv]
    exact replaceResults_of_ne fun hv' => hne (Operation.id_eq_of_mem_results hv hv')
  · by_cases hoid : o.id = op.id
    · obtain rfl := eq_of_id_eq hnodup ho hop hoid
      refine ⟨hsh, firstOp, hops ▸ List.mem_append_left _ hfmem, hfsh, hfname, ?_,
        (hpre firstOp hfmem).2, fun k hk => ?_⟩
      · rw [List.mem_append, List.mem_singleton]
        exact fun hor => hor.elim hfkept (hpre firstOp hfmem).1
      · rw [h.kept o ho hnot_erased _ (Operation.opResult_mem_results.mpr ⟨rfl, hk⟩),
          replaceResults, if_pos ⟨rfl, hk⟩]
    · have herased' : o.id ∈ st.opsToErase := by
        rcases List.mem_append.mp herased with hid | hid
        · exact hid
        · exact absurd (List.mem_singleton.mp hid) hoid
      obtain ⟨hosh, a, ha, hash, haname, hakept, halt, hak⟩ := h.merged o ho herased'
      have hane : a.id ≠ op.id := by
        intro heq
        obtain ⟨o', ho', heq'⟩ := h.erased _ herased'
        have hlt := (hpre o' ho').2
        rw [heq', ← heq] at hlt
        omega
      refine ⟨hosh, a, ha, hash, haname, ?_, halt, fun k hk => ?_⟩
      · rw [List.mem_append, List.mem_singleton]
        exact fun hor => hor.elim hakept hane
      · rw [hak k hk, replaceResults, if_neg fun hand => hane hand.1]

/-- **One operation of the walk.** -/
theorem DedupInv.visit : ∃ g', DedupInv b (pre ++ [op]) (st.visit op) g' := by
  rw [DedupState.visit]
  by_cases hsh : isSharedOp op
  · rw [if_pos hsh]
    cases hfirst : st.sharedOps op.name with
    | none => exact ⟨g, h.visit_first hb hops hsh⟩
    | some firstOp => exact ⟨_, h.visit_duplicate hb hops hsh hfirst⟩
  · rw [if_neg hsh]
    exact ⟨g, h.mono op⟩

end

end Visit

/-- The whole walk. -/
theorem exists_dedupInv (hb : b.WellFormed) :
    ∃ g, DedupInv b b.ops (b.ops.foldl DedupState.visit ⟨b, fun _ => none, []⟩) g := by
  have key : ∀ post pre st g, b.ops = pre ++ post → DedupInv b pre st g →
      ∃ g', DedupInv b b.ops (post.foldl DedupState.visit st) g' := by
    intro post
    induction post with
    | nil =>
      intro pre st g hops h
      rw [List.append_nil] at hops
      exact ⟨g, hops ▸ h⟩
    | cons op post ih =>
      intro pre st g hops h
      obtain ⟨g', h'⟩ := h.visit hb hops
      exact ih (pre ++ [op]) _ g' (by simpa using hops) h'
  exact key b.ops [] _ _ rfl (dedupInv_start b)

/-- **What merging does**: the block with its uses replaced by `g`, and without the merged
operations. -/
theorem exists_deduplicate (hb : b.WellFormed) : ∃ (g : Value → Value) (erase : List ℕ),
    deduplicateSharedOps b =
      { b.replaceUses g with
        ops := (b.ops.filter (·.id ∉ erase)).map (Operation.mapOperands g) } ∧
    (∀ n, g (.blockArg n) = .blockArg n) ∧
    (∀ op ∈ b.ops, op.id ∉ erase → ∀ v ∈ op.results, g v = v) ∧
    ∀ op ∈ b.ops, op.id ∈ erase → isSharedOp op ∧ ∃ a ∈ b.ops, isSharedOp a ∧
      a.name = op.name ∧ a.id ∉ erase ∧ index b.ops a.id < index b.ops op.id ∧
      ∀ k < op.numResults, g (.opResult op.id k) = .opResult a.id k := by
  obtain ⟨g, h⟩ := exists_dedupInv hb
  refine ⟨g, _, ?_, h.blockArg, h.kept, h.merged⟩
  rw [deduplicateSharedOps]
  simp only [h.block_eq]
  rw [Block.replaceUses, List.filter_map]
  rfl

variable {op : Op}

section Deduplicate

variable {b : Block OpName Ty}

theorem SharedWellFormed.numResults_eq {ops : List Op} (h : SharedWellFormed ops) {a : Op}
    (ha : a ∈ ops) (hsh : isSharedOp a) : a.numResults = 1 := by
  rw [Operation.numResults, (h a ha hsh).2]
  rfl

/-- **Shared operations with one key have one value.** -/
theorem value_eq_of_name_eq {ops : List Op} (hshared : SharedWellFormed ops)
    {sem : Sem OpName α} {ρ : Value → α} (hsolves : Solves sem ops ρ) {a op : Op} (ha : a ∈ ops)
    (hop : op ∈ ops) (hash : isSharedOp a) (hsh : isSharedOp op) (hname : a.name = op.name)
    {k : ℕ} (hk : k < op.numResults) : ρ (.opResult a.id k) = ρ (.opResult op.id k) := by
  have hka : k < a.numResults := by
    rw [hshared.numResults_eq ha hash]
    rwa [hshared.numResults_eq hop hsh] at hk
  have hval := hsolves a ha k hka
  rw [(hshared a ha hash).1, hname, ← (hshared op hop hsh).1, hsolves op hop k hk] at hval
  exact (Option.some.inj hval).symm

/-- **Merging keeps dominance.** -/
theorem wellFormed_deduplicateSharedOps (hb : b.WellFormed) (hshared : SharedWellFormed b.ops) :
    (deduplicateSharedOps b).WellFormed := by
  obtain ⟨g, erase, heq, harg, hkept, hmerged⟩ := exists_deduplicate hb
  rw [heq]
  -- where a value that is read goes
  have hmem : ∀ pre : List Op, pre.Sublist b.ops →
      (∀ a ∈ b.ops, ∀ op ∈ pre, index b.ops a.id < index b.ops op.id → a ∈ pre) →
      ∀ v ∈ scope b.numArgs pre, g v ∈ entryScope b.numArgs ++
        (pre.filter (·.id ∉ erase)).flatMap Operation.results := by
    intro pre hsub hdown v hv
    cases v with
    | blockArg n =>
      rw [harg]
      exact List.mem_append_left _ (by simpa using hv)
    | opResult id k =>
      obtain ⟨o, ho, rfl, hk⟩ := opResult_mem_scope.mp hv
      have hoops := hsub.subset ho
      have hres : Value.opResult o.id k ∈ o.results := Operation.opResult_mem_results.mpr ⟨rfl, hk⟩
      refine List.mem_append_right _ (List.mem_flatMap.mpr ?_)
      by_cases hid : o.id ∈ erase
      · obtain ⟨hosh, a, ha, hash, -, hakept, hlt, hak⟩ := hmerged o hoops hid
        refine ⟨a, List.mem_filter.mpr ⟨hdown a ha o ho hlt, by simpa using hakept⟩, ?_⟩
        rw [hak k hk, Operation.opResult_mem_results]
        refine ⟨rfl, ?_⟩
        rw [hshared.numResults_eq ha hash]
        rwa [hshared.numResults_eq hoops hosh] at hk
      · rw [hkept o hoops hid _ hres]
        exact ⟨o, List.mem_filter.mpr ⟨ho, by simpa using hid⟩, hres⟩
  have hresults : ∀ l : List Op, (l.map (Operation.mapOperands g)).flatMap Operation.results =
      l.flatMap Operation.results := fun l => by
    rw [List.flatMap_map]
    rfl
  refine ⟨?_, ?_, ?_⟩
  · show (((b.ops.filter _).map _).map Operation.id).Nodup
    rw [List.map_map]
    exact hb.nodup.sublist (List.filter_sublist.map Operation.id)
  · refine scoped_filter_map_of_before fun pre op post hops _ v hv => ?_
    have hscoped := hb.dominated
    have hnodup := hb.nodup
    rw [hops] at hscoped hnodup
    refine hmem pre (hops ▸ List.sublist_append_left _ _) (fun a ha o ho hlt => ?_) v
      (hscoped.operands_mem v hv)
    have hlt' := index_lt_index hnodup ho
    rw [hops] at ha hlt
    exact mem_prefix_of_index_lt hnodup ha (hlt.trans hlt')
  · intro w hw
    obtain ⟨v, hv, rfl⟩ := List.mem_map.mp hw
    have h := hmem b.ops (List.Sublist.refl _) (fun a ha _ _ _ => ha) v (hb.returns_mem v hv)
    show g v ∈ scope b.numArgs ((b.ops.filter _).map _)
    rw [scope, hresults]
    exact h

/-- **Merging keeps all values.** -/
theorem solves_deduplicateSharedOps (hb : b.WellFormed) (hshared : SharedWellFormed b.ops)
    {sem : Sem OpName α} {ρ : Value → α} (hsolves : Solves sem b.ops ρ) :
    Solves sem (deduplicateSharedOps b).ops ρ ∧
      (deduplicateSharedOps b).returns.map ρ = b.returns.map ρ := by
  obtain ⟨g, erase, heq, harg, hkept, hmerged⟩ := exists_deduplicate hb
  have hvalue : ∀ v ∈ scope b.numArgs b.ops, ρ (g v) = ρ v := by
    intro v hv
    cases v with
    | blockArg n => rw [harg]
    | opResult id k =>
      obtain ⟨o, ho, rfl, hk⟩ := opResult_mem_scope.mp hv
      by_cases hid : o.id ∈ erase
      · obtain ⟨hosh, a, ha, hash, hname, -, -, hak⟩ := hmerged o ho hid
        rw [hak k hk]
        exact value_eq_of_name_eq hshared hsolves ha ho hash hosh hname hk
      · rw [hkept o ho hid _ (Operation.opResult_mem_results.mpr ⟨rfl, hk⟩)]
  rw [heq]
  constructor
  · intro op hop k hk
    obtain ⟨o, ho, rfl⟩ := List.mem_map.mp hop
    have homem := (List.mem_filter.mp ho).1
    have hoperands : (o.operands.map g).map ρ = o.operands.map ρ := by
      rw [List.map_map]
      exact List.map_congr_left fun v hv =>
        hvalue v (hb.dominated.mem_of_mem_operands homem hv)
    rw [Operation.mapOperands_operands, hoperands]
    exact hsolves o homem k hk
  · show (b.returns.map g).map ρ = _
    rw [List.map_map]
    exact List.map_congr_left fun v hv => hvalue v (hb.returns_mem v hv)

theorem exists_of_mem_deduplicateSharedOps (hb : b.WellFormed)
    (hop : op ∈ (deduplicateSharedOps b).ops) : ∃ o ∈ b.ops, ∃ g, op = o.mapOperands g := by
  obtain ⟨g, erase, heq, -⟩ := exists_deduplicate hb
  rw [heq] at hop
  obtain ⟨o, ho, rfl⟩ := List.mem_map.mp hop
  exact ⟨o, (List.mem_filter.mp ho).1, g, rfl⟩

theorem sharedWellFormed_deduplicateSharedOps (hb : b.WellFormed)
    (hshared : SharedWellFormed b.ops) : SharedWellFormed (deduplicateSharedOps b).ops := by
  intro op hop hsh
  obtain ⟨o, ho, g, rfl⟩ := exists_of_mem_deduplicateSharedOps hb hop
  obtain ⟨hoperands, htypes⟩ := hshared o ho hsh
  exact ⟨by rw [Operation.mapOperands_operands, hoperands]; rfl, htypes⟩

end Deduplicate

/-- **Sound merging**: an operation that is merged away is a shared one, and another shared
operation with the same key, result types and values is left. -/
def MergesSoundly (b : Block OpName Ty) : Prop :=
  ∀ op ∈ b.ops, op.id ∉ (deduplicateSharedOps b).ops.map Operation.id → isSharedOp op ∧
    ∃ a ∈ b.ops, a.id ∈ (deduplicateSharedOps b).ops.map Operation.id ∧ isSharedOp a ∧
      a.name = op.name ∧ a.resultTypes = op.resultTypes ∧
      ∀ {α : Type} {sem : Sem OpName α} {ρ : Value → α}, Solves sem b.ops ρ →
        ∀ k < op.numResults, ρ (.opResult a.id k) = ρ (.opResult op.id k)

theorem mergesSoundly (hb : b.WellFormed) (hshared : SharedWellFormed b.ops) : MergesSoundly b := by
  obtain ⟨g, erase, heq, -, -, hmerged⟩ := exists_deduplicate hb
  have hleft : ∀ o ∈ b.ops, o.id ∉ erase →
      o.id ∈ (deduplicateSharedOps b).ops.map Operation.id := by
    intro o ho hid
    rw [heq]
    exact List.mem_map.mpr ⟨o.mapOperands g, List.mem_map_of_mem
      (List.mem_filter.mpr ⟨ho, by simpa using hid⟩), rfl⟩
  intro op hop hgone
  have hid : op.id ∈ erase := by
    by_contra hid
    exact hgone (hleft op hop hid)
  obtain ⟨hsh, a, ha, hash, hname, hakept, -⟩ := hmerged op hop hid
  refine ⟨hsh, a, ha, hleft a ha hakept, hash, hname, ?_, ?_⟩
  · rw [(hshared a ha hash).2, (hshared op hop hsh).2]
  · intro β sem ρ hsolves k hk
    exact value_eq_of_name_eq hshared hsolves ha hop hash hsh hname hk

/-! ## Inlining one function -/

/-- A call of a function in a block. -/
structure Fits (b : Block OpName Ty) (funcOp : ConstEvalFunc) (callOp : Op) : Prop
    extends Calls callOp funcOp where
  host : b.WellFormed
  func_wf : funcOp.WellFormed
  call_mem : callOp ∈ b.ops

/-- The copies of the body of a function at a call, and the map to them. -/
def bodyCopies (b : Block OpName Ty) (funcOp : ConstEvalFunc) (callOp : Op) :
    List Op × (Value → Value) :=
  cloneAll (argumentMap callOp) (freshId b.ops) funcOp.block.ops

/-- The replacement of the results of a call. -/
def returnedMap (b : Block OpName Ty) (funcOp : ConstEvalFunc) (callOp : Op) : Value → Value :=
  returnMap callOp (funcOp.block.returns.map (bodyCopies b funcOp callOp).2)

/-- The block with the function inlined at the call. -/
def inlinedBlock (b : Block OpName Ty) (funcOp : ConstEvalFunc) (callOp : Op) :
    Block OpName Ty :=
  let inserted : Block OpName Ty :=
    { b with ops := b.ops.flatMap fun op =>
        if op.id = callOp.id then (bodyCopies b funcOp callOp).1 else [op] }
  inserted.replaceUses (returnedMap b funcOp callOp)

section Inline

variable {b : Block OpName Ty} {funcOp : ConstEvalFunc} {callOp : Op} {pre post : List Op}

theorem Fits.inline_eq (h : Fits b funcOp callOp) :
    inlineConstEvalFunction b funcOp callOp = some (inlinedBlock b funcOp callOp) := by
  rw [inlineConstEvalFunction, if_pos ⟨h.operands.ge, h.results.ge⟩]
  rfl

theorem Fits.id_ne (h : Fits b funcOp callOp) (hops : b.ops = pre ++ callOp :: post)
    (hop : op ∈ pre ∨ op ∈ post) : op.id ≠ callOp.id := by
  have hnodup := h.host.nodup
  rw [hops, List.map_append, List.map_cons] at hnodup
  obtain ⟨-, hpost, hdisj⟩ := List.nodup_append.mp hnodup
  rcases hop with hop | hop
  · exact hdisj _ (List.mem_map_of_mem hop) _ (by simp)
  · exact fun heq => (List.nodup_cons.mp hpost).1 (heq ▸ List.mem_map_of_mem hop)

/-- The body takes the place of the call. -/
theorem Fits.inlined_ops (h : Fits b funcOp callOp) (hops : b.ops = pre ++ callOp :: post) :
    (inlinedBlock b funcOp callOp).ops =
      pre.map (Operation.mapOperands (returnedMap b funcOp callOp)) ++
        ((bodyCopies b funcOp callOp).1.map (Operation.mapOperands (returnedMap b funcOp callOp)) ++
          post.map (Operation.mapOperands (returnedMap b funcOp callOp))) := by
  have hkeep : ∀ l : List Op, (∀ op ∈ l, op.id ≠ callOp.id) → (l.flatMap fun op =>
      if op.id = callOp.id then (bodyCopies b funcOp callOp).1 else [op]) = l := by
    intro l hl
    induction l with
    | nil => rfl
    | cons op l ih =>
      rw [List.flatMap_cons, if_neg (hl op (by simp)),
        ih fun o ho => hl o (List.mem_cons_of_mem _ ho)]
      rfl
  show (b.ops.flatMap _).map _ = _
  rw [hops, List.flatMap_append, List.flatMap_cons, if_pos rfl,
    hkeep pre fun op hop => h.id_ne hops (Or.inl hop),
    hkeep post fun op hop => h.id_ne hops (Or.inr hop), List.map_append, List.map_append]

theorem returnedMap_of_ne {v : Value} (hv : ∀ k, v ≠ .opResult callOp.id k) :
    returnedMap b funcOp callOp v = v := by
  cases v with
  | blockArg n => rfl
  | opResult id k =>
    have hne : id ≠ callOp.id := fun heq => hv k (heq ▸ rfl)
    rw [returnedMap, returnMap, if_neg hne]

theorem returnedMap_result {k : ℕ} (hk : k < funcOp.block.returns.length) :
    returnedMap b funcOp callOp (.opResult callOp.id k) =
      (bodyCopies b funcOp callOp).2 funcOp.block.returns[k] := by
  rw [returnedMap, returnMap, if_pos rfl, List.getD_eq_getElem _ _ (by simpa using hk)]
  simp

section

variable (h : Fits b funcOp callOp)

include h

theorem Fits.argumentMap_mem (hops : b.ops = pre ++ callOp :: post) :
    ∀ v ∈ entryScope funcOp.block.numArgs, argumentMap callOp v ∈ scope b.numArgs pre := by
  intro v hv
  obtain ⟨n, hn, rfl⟩ := List.mem_map.mp hv
  have hlt : n < callOp.operands.length := by
    rw [h.operands]
    exact List.mem_range.mp hn
  show callOp.operands.getD n _ ∈ _
  rw [List.getD_eq_getElem _ _ hlt]
  exact (hops ▸ h.host.dominated).operands_mem _ (List.getElem_mem hlt)

theorem Fits.scoped_bodyCopies (hops : b.ops = pre ++ callOp :: post) :
    Scoped (scope b.numArgs pre) (bodyCopies b funcOp callOp).1 ∧
      ∀ v ∈ scope funcOp.block.numArgs funcOp.block.ops, (bodyCopies b funcOp callOp).2 v ∈
          scope b.numArgs pre ++ (bodyCopies b funcOp callOp).1.flatMap Operation.results :=
  scoped_cloneAll h.func_wf.block.dominated (h.argumentMap_mem hops)

theorem Fits.lt_freshId : callOp.id < freshId b.ops := SSA.lt_freshId h.call_mem

section

variable (hops : b.ops = pre ++ callOp :: post)

include hops

/-- Neither the values before the call nor those of the body are results of the call. -/
theorem Fits.ne_result {v : Value} (hv : v ∈ scope b.numArgs pre ++
      (bodyCopies b funcOp callOp).1.flatMap Operation.results) (k : ℕ) :
    v ≠ .opResult callOp.id k := by
  rintro rfl
  rcases List.mem_append.mp hv with hv | hv
  · obtain ⟨a, ha, hid, -⟩ := opResult_mem_scope.mp hv
    exact h.id_ne hops (Or.inl ha) hid.symm
  · obtain ⟨a, ha, hva⟩ := List.mem_flatMap.mp hv
    have hle := (id_of_mem_cloneAll ha).1
    have hid := (Operation.opResult_mem_results.mp hva).1
    have hlt := h.lt_freshId
    omega

theorem Fits.inlined_ops_eq :
    (inlinedBlock b funcOp callOp).ops = pre ++ ((bodyCopies b funcOp callOp).1 ++
      post.map (Operation.mapOperands (returnedMap b funcOp callOp))) := by
  have hscoped := h.host.dominated
  rw [hops] at hscoped
  rw [h.inlined_ops hops, map_mapOperands_eq_self, map_mapOperands_eq_self]
  · intro op hop v hv
    refine returnedMap_of_ne (h.ne_result hops ?_)
    exact (h.scoped_bodyCopies hops).1.mem_of_mem_operands hop hv
  · intro op hop v hv
    refine returnedMap_of_ne (h.ne_result hops (List.mem_append_left _ ?_))
    exact (scoped_append.mp hscoped).1.mem_of_mem_operands hop hv

/-- What replaces a value that is visible after the call is visible after the body. -/
theorem Fits.returnedMap_mem {v : Value} (hv : v ∈ scope b.numArgs pre ++ callOp.results) :
    returnedMap b funcOp callOp v ∈
      scope b.numArgs pre ++ (bodyCopies b funcOp callOp).1.flatMap Operation.results := by
  rcases List.mem_append.mp hv with hv | hv
  · have hleft := List.mem_append_left ((bodyCopies b funcOp callOp).1.flatMap Operation.results) hv
    rw [returnedMap_of_ne (h.ne_result hops hleft)]
    exact hleft
  · obtain ⟨k, hk, rfl⟩ := Operation.mem_results.mp hv
    rw [h.results] at hk
    rw [returnedMap_result hk]
    exact (h.scoped_bodyCopies hops).2 _ (h.func_wf.block.returns_mem _ (List.getElem_mem hk))

/-- The operations after the call are scoped after the body. -/
theorem Fits.scoped_post :
    Scoped (scope b.numArgs pre ++ (bodyCopies b funcOp callOp).1.flatMap Operation.results)
      (post.map (Operation.mapOperands (returnedMap b funcOp callOp))) := by
  have hscoped := h.host.dominated
  have hnodup := h.host.nodup
  rw [hops] at hscoped hnodup
  obtain ⟨-, -, hpost⟩ := scoped_append.mp hscoped
  rw [List.map_append, List.map_cons] at hnodup
  obtain ⟨-, hnodup', hdisj⟩ := List.nodup_append.mp hnodup
  have hresult := (@scoped_filter_map _ _ _ (returnedMap b funcOp callOp) _
    (scope b.numArgs pre ++ (bodyCopies b funcOp callOp).1.flatMap Operation.results)
    fun _ => true) hpost (List.nodup_cons.mp hnodup').2 ?_ ?_
  · simpa using hresult
  · intro a ha v hv hmem
    rcases List.mem_append.mp hmem with hmem | hmem
    · rcases List.mem_append.mp hmem with hmem | hmem
      · obtain ⟨k, -, rfl⟩ := Operation.mem_results.mp hv
        simp at hmem
      · obtain ⟨c, hc, hvc⟩ := List.mem_flatMap.mp hmem
        exact hdisj _ (List.mem_map_of_mem hc) _ (List.mem_cons_of_mem _ (List.mem_map_of_mem ha))
          (Operation.id_eq_of_mem_results hvc hv)
    · exact h.id_ne hops (Or.inr ha) (Operation.id_eq_of_mem_results hv hmem)
  · intro op hop _ v hv
    by_cases hbefore : v ∈ scope b.numArgs pre ++ callOp.results
    · exact Or.inl (h.returnedMap_mem hops hbefore)
    · rcases List.mem_append.mp (hpost.mem_of_mem_operands hop hv) with hmem | hmem
      · exact absurd hmem hbefore
      · obtain ⟨a, ha, hva⟩ := List.mem_flatMap.mp hmem
        refine Or.inr ⟨returnedMap_of_ne fun k heq => ?_, a, ha, rfl, hva⟩
        rw [heq] at hva
        exact h.id_ne hops (Or.inr ha) (Operation.opResult_mem_results.mp hva).1.symm

end

/-- **Inlining keeps dominance.** -/
theorem Fits.wellFormed_inlined : (inlinedBlock b funcOp callOp).WellFormed := by
  obtain ⟨pre, post, hops⟩ := List.append_of_mem h.call_mem
  have hscoped := h.host.dominated
  have hnodup := h.host.nodup
  rw [hops] at hscoped hnodup
  have hids : (post.map (Operation.mapOperands (returnedMap b funcOp callOp))).map Operation.id =
      post.map Operation.id := by
    rw [List.map_map]
    rfl
  refine ⟨?_, ?_, ?_⟩
  · rw [h.inlined_ops_eq hops, List.map_append, List.map_append, hids, bodyCopies, map_id_cloneAll]
    rw [List.map_append, List.map_cons] at hnodup
    obtain ⟨hpre, hpost, hdisj⟩ := List.nodup_append.mp hnodup
    have hlt : ∀ x ∈ pre.map Operation.id ++ post.map Operation.id, x < freshId b.ops := by
      intro x hx
      rw [← List.map_append] at hx
      obtain ⟨op, hop, rfl⟩ := List.mem_map.mp hx
      refine SSA.lt_freshId (hops ▸ ?_)
      rcases List.mem_append.mp hop with hop | hop
      · exact List.mem_append_left _ hop
      · exact List.mem_append_right _ (List.mem_cons_of_mem _ hop)
    refine List.nodup_append.mpr ⟨hpre, List.nodup_append.mpr
      ⟨List.nodup_range', (List.nodup_cons.mp hpost).2, ?_⟩, ?_⟩
    · intro x hx y hy
      have h1 := (List.mem_range'_1.mp hx).1
      have h2 := hlt y (List.mem_append_right _ hy)
      omega
    · intro x hx y hy
      rcases List.mem_append.mp hy with hy | hy
      · have h1 := (List.mem_range'_1.mp hy).1
        have h2 := hlt x (List.mem_append_left _ hx)
        omega
      · exact hdisj x hx y (List.mem_cons_of_mem _ hy)
  · rw [h.inlined_ops_eq hops]
    show Scoped (entryScope b.numArgs) _
    exact scoped_append.mpr ⟨(scoped_append.mp hscoped).1,
      scoped_append.mpr ⟨(h.scoped_bodyCopies hops).1, h.scoped_post hops⟩⟩
  · intro w hw
    obtain ⟨v, hv, rfl⟩ := List.mem_map.mp hw
    have hvisible := h.host.returns_mem v hv
    have hresults : (post.map (Operation.mapOperands (returnedMap b funcOp callOp))).flatMap
        Operation.results = post.flatMap Operation.results := by
      rw [List.flatMap_map]
      rfl
    show _ ∈ scope b.numArgs _
    rw [h.inlined_ops_eq hops, scope, List.flatMap_append, List.flatMap_append, hresults,
      ← List.append_assoc, ← List.append_assoc]
    by_cases hbefore : v ∈ scope b.numArgs pre ++ callOp.results
    · exact List.mem_append_left _ (h.returnedMap_mem hops hbefore)
    · rw [hops, scope, List.flatMap_append, List.flatMap_cons, ← List.append_assoc,
        ← List.append_assoc] at hvisible
      rcases List.mem_append.mp hvisible with hmem | hmem
      · exact absurd hmem hbefore
      · obtain ⟨a, ha, hva⟩ := List.mem_flatMap.mp hmem
        rw [returnedMap_of_ne fun k heq => h.id_ne hops (Or.inr ha)
          (Operation.opResult_mem_results.mp (heq ▸ hva)).1.symm]
        exact List.mem_append_right _ hmem

end

/-- **Inlining keeps all values.** -/
theorem Fits.solves_inlined [Inhabited α] (h : Fits b funcOp callOp) {I : Interp α}
    {sem : Sem OpName α} {newFuncs : List ConstEvalFunc} (hruns : Runs I sem newFuncs)
    (hmem : funcOp ∈ newFuncs) {ρ : Value → α} (hsolves : Solves sem b.ops ρ) :
    ∃ ρ' : Value → α, (∀ n, ρ' (.blockArg n) = ρ (.blockArg n)) ∧
      Solves sem (inlinedBlock b funcOp callOp).ops ρ' ∧
      (inlinedBlock b funcOp callOp).returns.map ρ' = b.returns.map ρ := by
  obtain ⟨pre, post, hops⟩ := List.append_of_mem h.call_mem
  -- the values of the body on the operands of the call
  obtain ⟨ρf, hargs, hbody⟩ := (@exists_solves _ _ _ (opSem I) _ _) h.func_wf.block
    (fun op hop vs _ k _ => isSome_opSem I (h.func_wf.source op hop) vs k)
    (show (callOp.operands.map ρ).length = _ by rw [List.length_map, h.operands])
  have heval := eval_eq_of_solves h.func_wf.block hargs hbody
  have hresult : ∀ k (hk : k < funcOp.block.returns.length),
      ρf funcOp.block.returns[k] = ρ (.opResult callOp.id k) := by
    intro k hk
    have hcall := hsolves callOp h.call_mem k (by rw [h.results]; exact hk)
    rw [h.name, hruns.call funcOp hmem, heval] at hcall
    simpa [List.getElem?_eq_getElem hk] using hcall
  obtain ⟨ρ', hsame, hmap, hcopies⟩ := (@exists_solves_cloneAll _ _ _
    (argumentMap callOp) _ _ (freshId b.ops) _ (scope b.numArgs pre) _ ρ) h.func_wf.block.dominated
    (h.argumentMap_mem hops) hbody (by
      intro i hi k hmem'
      obtain ⟨a, ha, rfl, -⟩ := opResult_mem_scope.mp hmem'
      have hlt := SSA.lt_freshId (hops ▸ List.mem_append_left _ ha : a ∈ b.ops)
      omega) (by
      intro v hv
      obtain ⟨n, hn, rfl⟩ := List.mem_map.mp hv
      have hn' := List.mem_range.mp hn
      have hlt : n < callOp.operands.length := by
        rw [h.operands]
        exact hn'
      have harg := hargs n hn'
      rw [List.getElem?_map, List.getElem?_eq_getElem hlt] at harg
      show ρ (callOp.operands.getD n _) = _
      rw [List.getD_eq_getElem _ _ hlt]
      exact Option.some.inj harg)
  have hold : ∀ op ∈ b.ops, ∀ k, ρ' (.opResult op.id k) = ρ (.opResult op.id k) := by
    intro op hop k
    refine hsame _ fun i hi k' heq => ?_
    have hlt := SSA.lt_freshId hop
    have hid := (Value.opResult.inj heq).1
    omega
  have harg : ∀ n, ρ' (.blockArg n) = ρ (.blockArg n) := fun n =>
    hsame _ fun i hi k' heq => by cases heq
  have hvalue : ∀ v ∈ scope b.numArgs b.ops, ρ' (returnedMap b funcOp callOp v) = ρ v := by
    intro v hv
    cases v with
    | blockArg n => exact harg n
    | opResult id k =>
      obtain ⟨o, ho, rfl, hk⟩ := opResult_mem_scope.mp hv
      by_cases hid : o.id = callOp.id
      · obtain rfl := eq_of_id_eq h.host.nodup ho h.call_mem hid
        rw [h.results] at hk
        rw [returnedMap_result hk, ← hresult k hk]
        exact hmap _ (h.func_wf.block.returns_mem _ (List.getElem_mem hk))
      · rw [returnedMap_of_ne fun k' heq => hid (Value.opResult.inj heq).1]
        exact hold o ho k
  refine ⟨ρ', harg, ?_, ?_⟩
  · have hkept : ∀ op ∈ b.ops, ∀ operands : List Value,
        operands.map ρ' = op.operands.map ρ → ∀ k < op.numResults,
        sem op.name (operands.map ρ') k = some (ρ' (.opResult op.id k)) := by
      intro op hop operands hoperands k hk
      rw [hoperands, hold op hop k]
      exact hsolves op hop k hk
    rw [h.inlined_ops hops]
    intro op hop
    rcases List.mem_append.mp hop with hop | hop
    · obtain ⟨o, ho, rfl⟩ := List.mem_map.mp hop
      have homem : o ∈ b.ops := hops ▸ List.mem_append_left _ ho
      refine hkept o homem _ ?_
      rw [Operation.mapOperands_operands, List.map_map]
      exact List.map_congr_left fun v hv =>
        hvalue v (h.host.dominated.mem_of_mem_operands homem hv)
    · rcases List.mem_append.mp hop with hop | hop
      · -- a copy of the body
        obtain ⟨o, ho, rfl⟩ := List.mem_map.mp hop
        obtain ⟨o', ho', m', i, heq⟩ := exists_of_mem_cloneAll ho
        have hplain : o.name.isLoadCached = false := by
          rw [heq]
          exact h.func_wf.source o' ho'
        have hself : o.operands.map (returnedMap b funcOp callOp) = o.operands :=
          (List.map_congr_left fun v hv => returnedMap_of_ne (h.ne_result hops
            ((h.scoped_bodyCopies hops).1.mem_of_mem_operands ho hv))).trans (List.map_id _)
        intro k hk
        rw [Operation.mapOperands_operands, hself, Operation.mapOperands_name,
          hruns.op o.name hplain]
        exact hcopies o ho k hk
      · obtain ⟨o, ho, rfl⟩ := List.mem_map.mp hop
        have homem : o ∈ b.ops := hops ▸ List.mem_append_right _ (List.mem_cons_of_mem _ ho)
        refine hkept o homem _ ?_
        rw [Operation.mapOperands_operands, List.map_map]
        exact List.map_congr_left fun v hv =>
          hvalue v (h.host.dominated.mem_of_mem_operands homem hv)
  · show (b.returns.map _).map ρ' = _
    rw [List.map_map]
    exact List.map_congr_left fun v hv => hvalue v (h.host.returns_mem v hv)

end Inline

/-! ## Calls -/

theorem getCallee_of_name {callee : String} (h : op.name = .loadCached callee) :
    getCallee op = callee := by
  rw [getCallee, h]

theorem name_of_isLoadCached (h : op.name.isLoadCached) : op.name = .loadCached (getCallee op) := by
  cases hname : op.name with
  | op _ _ _ =>
    rw [hname] at h
    cases h
  | loadCached callee => rw [getCallee_of_name hname]

/-- What identifies a call while operands are replaced. -/
structure CallSig : Type where
  id : ℕ
  name : OpName
  operands : ℕ
  results : ℕ
  deriving DecidableEq

def callSig (op : Op) : CallSig := ⟨op.id, op.name, op.operands.length, op.numResults⟩

/-- The calls of a block, as far as they stay the same. -/
def callSigs (b : Block OpName Ty) : List CallSig := (loadCachedOps b).map callSig

theorem callSig_mapOperands (g : Value → Value) (op : Op) :
    callSig (op.mapOperands g) = callSig op := by
  simp [callSig, Operation.mapOperands, Operation.numResults]

theorem filter_map_mapOperands (g : Value → Value) (ops : List Op) :
    ((ops.map (Operation.mapOperands g)).filter (·.name.isLoadCached)).map callSig =
      (ops.filter (·.name.isLoadCached)).map callSig := by
  rw [List.filter_map, List.map_map]
  exact List.map_congr_left fun op _ => callSig_mapOperands g op

/-- **Inlining removes one call** and changes no other. -/
theorem Fits.callSigs_inlined {funcOp : ConstEvalFunc} {callOp : Op}
    (h : Fits b funcOp callOp) : callSigs (inlinedBlock b funcOp callOp) =
      (callSigs b).filter (·.id ≠ callOp.id) := by
  obtain ⟨pre, post, hops⟩ := List.append_of_mem h.call_mem
  have hbody : (bodyCopies b funcOp callOp).1.filter (·.name.isLoadCached) = [] := by
    rw [List.filter_eq_nil_iff]
    intro op hop
    obtain ⟨o, ho, m, i, rfl⟩ := exists_of_mem_cloneAll hop
    simp [h.func_wf.source o ho]
  have hkeep : ∀ l : List Op, (∀ op ∈ l, op.id ≠ callOp.id) →
      ((l.filter (·.name.isLoadCached)).map callSig).filter (·.id ≠ callOp.id) =
        (l.filter (·.name.isLoadCached)).map callSig := by
    intro l hl
    rw [List.filter_eq_self]
    intro s hs
    obtain ⟨op, hop, rfl⟩ := List.mem_map.mp hs
    exact decide_eq_true (hl op (List.mem_filter.mp hop).1)
  have hload : callOp.name.isLoadCached := by
    rw [h.name]
    rfl
  have hgone : ¬ (decide ((callSig callOp).id ≠ callOp.id)) = true := by
    simp [callSig]
  rw [callSigs, loadCachedOps, h.inlined_ops_eq hops, List.filter_append, List.filter_append,
    hbody, List.nil_append, List.map_append, filter_map_mapOperands, callSigs, loadCachedOps,
    hops, List.filter_append,
    List.filter_cons_of_pos (p := fun op : Op => op.name.isLoadCached) hload,
    List.map_append, List.map_cons, List.filter_append,
    hkeep pre fun op hop => h.id_ne hops (Or.inl hop),
    List.filter_cons_of_neg (p := fun s : CallSig => s.id ≠ callOp.id) hgone,
    hkeep post fun op hop => h.id_ne hops (Or.inr hop)]

/-! ## Modules -/

/-- A module whose functions are well formed, and in which every function made by hoisting
is called exactly once, with fitting operands and results. -/
structure CalledModule : Type extends Module where
  host_wf : ∀ b ∈ hosts, b.WellFormed
  host_shared : ∀ b ∈ hosts, SharedWellFormed b.ops
  func_wf : ∀ funcOp ∈ constEvalFuncs, funcOp.WellFormed
  names : (constEvalFuncs.map ConstEvalFunc.name).Nodup
  once : (toModule.calls.map fun call => getCallee call.2).Perm
    (constEvalFuncs.map ConstEvalFunc.name)
  fits : ∀ b ∈ hosts, ∀ op ∈ b.ops, ∀ funcOp ∈ constEvalFuncs,
    op.name = .loadCached funcOp.name → Calls op funcOp

theorem Module.mem_calls {m : Module} {parent : ℕ} :
    (parent, op) ∈ m.calls ↔ ∃ b, m.hosts[parent]? = some b ∧ op ∈ loadCachedOps b := by
  simp only [Module.calls, List.mem_flatMap, List.mem_map, Prod.mk.injEq, Prod.exists]
  constructor
  · rintro ⟨b, j, hb, o, ho, rfl, rfl⟩
    exact ⟨b, List.mem_zipIdx_iff_getElem?.mp hb, ho⟩
  · rintro ⟨b, hb, hop⟩
    exact ⟨b, parent, List.mem_zipIdx_iff_getElem?.mpr hb, op, hop, rfl, rfl⟩

namespace CalledModule

variable (m : CalledModule)

theorem callees_nodup : (m.calls.map fun call => getCallee call.2).Nodup :=
  m.once.nodup_iff.mpr m.names

theorem call_unique {c d : ℕ × Op} (hc : c ∈ m.calls) (hd : d ∈ m.calls)
    (h : getCallee c.2 = getCallee d.2) : c = d :=
  List.inj_on_of_nodup_map m.callees_nodup hc hd h

/-- **The assertions on callees hold**: every call is recorded. -/
theorem funcToCall_eq : m.funcToCall =
    some (m.calls.map fun call => ⟨getCallee call.2, call.1, call.2.id⟩) := by
  have key : ∀ (l : List (ℕ × Op)) (acc : List FuncCall),
      (∀ c ∈ l, getCallee c.2 ∈ m.constEvalFuncs.map ConstEvalFunc.name) →
      (acc.map FuncCall.callee ++ l.map fun call => getCallee call.2).Nodup →
      l.foldlM (fun funcToCall (call : ℕ × Op) =>
        if m.constEvalFuncs.any (·.name = getCallee call.2) ∧
            ¬ funcToCall.any (·.callee = getCallee call.2) then
          some (funcToCall ++ [⟨getCallee call.2, call.1, call.2.id⟩])
        else
          none) acc =
        some (acc ++ l.map fun call => ⟨getCallee call.2, call.1, call.2.id⟩) := by
    intro l
    induction l with
    | nil => intro acc _ _; simp
    | cons c l ih =>
      intro acc hmem hnodup
      have hexists : m.constEvalFuncs.any (·.name = getCallee c.2) := by
        obtain ⟨funcOp, hf, hname⟩ := List.mem_map.mp (hmem c (by simp))
        exact List.any_eq_true.mpr ⟨funcOp, hf, by simpa using hname⟩
      have hnew : ¬ acc.any (·.callee = getCallee c.2) := by
        intro hany
        obtain ⟨e, he, hcallee⟩ := List.any_eq_true.mp hany
        refine (List.nodup_append.mp hnodup).2.2 e.callee (List.mem_map_of_mem he)
          (getCallee c.2) (by simp) (by simpa using hcallee)
      rw [List.foldlM_cons, if_pos ⟨hexists, hnew⟩]
      simp only [Option.bind_eq_bind, Option.bind_some]
      rw [ih _ (fun d hd => hmem d (List.mem_cons_of_mem _ hd)) (by simpa using hnodup)]
      simp
  rw [Module.funcToCall]
  refine (key m.calls [] (fun c hc => ?_) ?_).trans (by simp)
  · exact m.once.subset (List.mem_map_of_mem hc)
  · simpa using m.callees_nodup

end CalledModule

/-! ## The run -/

/-- **A function while calls are inlined**: `b'` is `b` after the functions in `inlined` are
inlined.  It has the other calls of `b`, and the values of `b`. -/
structure Undone (m : CalledModule) (inlined : List String) (b b' : Block OpName Ty) : Prop where
  numArgs : b'.numArgs = b.numArgs
  wellFormed : b'.WellFormed
  shared : SharedWellFormed b'.ops
  sigs : callSigs b' = (callSigs b).filter fun s => s.name ∉ inlined.map OpName.loadCached
  values : ∀ {α : Type} [Inhabited α] {I : Interp α} {sem : Sem OpName α} {ρ : Value → α},
    Runs I sem m.constEvalFuncs → Solves sem b.ops ρ → ∃ ρ' : Value → α,
      (∀ n, ρ' (.blockArg n) = ρ (.blockArg n)) ∧ Solves sem b'.ops ρ' ∧
      b'.returns.map ρ' = b.returns.map ρ

variable {m : CalledModule}

theorem Undone.refl (hb : b.WellFormed) (hshared : SharedWellFormed b.ops) : Undone m [] b b where
  numArgs := rfl
  wellFormed := hb
  shared := hshared
  sigs := by simp
  values := fun _ hsolves => ⟨_, fun _ => rfl, hsolves, rfl⟩

theorem mem_callSigs {s : CallSig} :
    s ∈ callSigs b ↔ ∃ op ∈ b.ops, op.name.isLoadCached ∧ callSig op = s := by
  simp [callSigs, loadCachedOps, and_assoc]

variable {b b' : Block OpName Ty} {inlined : List String}

/-- A function without a call of `funcOp` is not concerned by its inlining. -/
theorem Undone.skip
    (h : Undone m inlined b b') {name : String} (hnone : ∀ op ∈ b.ops, op.name ≠ .loadCached name) :
    Undone m (inlined ++ [name]) b b' where
  numArgs := h.numArgs
  wellFormed := h.wellFormed
  shared := h.shared
  sigs := by
    rw [h.sigs]
    refine List.filter_congr fun s hs => ?_
    obtain ⟨op, hop, -, rfl⟩ := mem_callSigs.mp hs
    have hne : op.name ≠ .loadCached name := hnone op hop
    simp [callSig, hne]
  values := h.values

/-- **Inlining one more function** where it is called. -/
theorem Undone.inline (h : Undone m inlined b b') (hb : b ∈ m.hosts) {funcOp : ConstEvalFunc}
    (hfunc : funcOp ∈ m.constEvalFuncs) (hnot : funcOp.name ∉ inlined)
    (hop : op ∈ b.ops) (hname : op.name = .loadCached funcOp.name)
    (hunique : ∀ o ∈ b.ops, o.name = .loadCached funcOp.name → o = op) :
    ∃ op', lookup b'.ops op.id = some op' ∧
      inlineConstEvalFunction b' funcOp op' = some (inlinedBlock b' funcOp op') ∧
      Undone m (inlined ++ [funcOp.name]) b (inlinedBlock b' funcOp op') := by
  have hload : op.name.isLoadCached := by
    rw [hname]
    rfl
  have hsig : callSig op ∈ callSigs b' := by
    rw [h.sigs, List.mem_filter]
    refine ⟨mem_callSigs.mpr ⟨op, hop, hload, rfl⟩, ?_⟩
    simpa [callSig, hname] using hnot
  obtain ⟨op', hop', -, heq⟩ := mem_callSigs.mp hsig
  obtain ⟨hid, hname', hoperands, hresults⟩ := CallSig.mk.inj heq
  have hcalls := m.fits b hb op hop funcOp hfunc hname
  have hfits : Fits b' funcOp op' :=
    { name := hname'.trans hname
      operands := hoperands.trans hcalls.operands
      results := hresults.trans hcalls.results
      host := h.wellFormed
      func_wf := m.func_wf funcOp hfunc
      call_mem := hop' }
  refine ⟨op', (lookup_eq_some_iff h.wellFormed.nodup).mpr ⟨hop', hid⟩, hfits.inline_eq, ?_⟩
  refine ⟨h.numArgs, hfits.wellFormed_inlined, ?_, ?_, fun hruns hsolves => ?_⟩
  · -- the operations are old ones and copies, with other operands
    obtain ⟨pre, post, hops⟩ := List.append_of_mem hop'
    have hreplace : ∀ (g : Value → Value) (o : Op),
        (isSharedOp o → o.operands = [] ∧ o.resultTypes = [.device]) →
        isSharedOp (o.mapOperands g) →
        (o.mapOperands g).operands = [] ∧ (o.mapOperands g).resultTypes = [.device] := by
      intro g o ho hsh
      obtain ⟨hoperands', htypes⟩ := ho hsh
      exact ⟨by rw [Operation.mapOperands_operands, hoperands']; rfl, htypes⟩
    intro o ho hsh
    rw [hfits.inlined_ops hops] at ho
    rcases List.mem_append.mp ho with ho | ho
    · obtain ⟨o', ho', rfl⟩ := List.mem_map.mp ho
      exact hreplace _ o' (h.shared o' (hops ▸ List.mem_append_left _ ho')) hsh
    · rcases List.mem_append.mp ho with ho | ho
      · obtain ⟨o', ho', rfl⟩ := List.mem_map.mp ho
        refine hreplace _ o' (fun hsh' => ?_) hsh
        obtain ⟨a, ha, m', i, rfl⟩ := exists_of_mem_cloneAll ho'
        obtain ⟨hoperands', htypes⟩ := (m.func_wf funcOp hfunc).shared a ha hsh'
        exact ⟨by rw [Operation.clone_operands, hoperands']; rfl, htypes⟩
      · obtain ⟨o', ho', rfl⟩ := List.mem_map.mp ho
        exact hreplace _ o'
          (h.shared o' (hops ▸ List.mem_append_right _ (List.mem_cons_of_mem _ ho'))) hsh
  · rw [hfits.callSigs_inlined, h.sigs, List.filter_filter]
    refine List.filter_congr fun s hs => ?_
    obtain ⟨o, ho, hoload, rfl⟩ := mem_callSigs.mp hs
    have hiff : o.id = op'.id ↔ o.name = .loadCached funcOp.name := by
      constructor
      · intro hoid
        rw [eq_of_id_eq (m.host_wf b hb).nodup ho hop (hoid.trans hid)]
        exact hname
      · intro honame
        rw [hunique o ho honame]
        exact hid.symm
    simp [callSig, hiff, and_comm, not_or]
  · obtain ⟨ρ₁, harg₁, hsolves₁, hreturns₁⟩ := h.values hruns hsolves
    obtain ⟨ρ₂, harg₂, hsolves₂, hreturns₂⟩ := hfits.solves_inlined hruns hfunc hsolves₁
    exact ⟨ρ₂, fun n => (harg₂ n).trans (harg₁ n), hsolves₂, hreturns₂.trans hreturns₁⟩

section Run

variable (m : CalledModule)

/-- The functions of a module after the functions in `inlined` are inlined. -/
def AllUndone (inlined : List String) (hosts : List (Block OpName Ty)) : Prop :=
  List.Forall₂ (Undone m inlined) m.hosts hosts

/-- **One step of the inlining loop.** -/
theorem inlineStep_eq_some {hosts : List (Block OpName Ty)}
    {parents : List ℕ} (h : AllUndone m inlined hosts) {funcOp : ConstEvalFunc}
    (hfunc : funcOp ∈ m.constEvalFuncs) (hnot : funcOp.name ∉ inlined) :
    ∃ st, inlineStep (m.calls.map fun call => ⟨getCallee call.2, call.1, call.2.id⟩)
        (hosts, parents) funcOp = some st ∧ AllUndone m (inlined ++ [funcOp.name]) st.1 := by
  -- the call of the function and its parent
  obtain ⟨c, hc, hcallee⟩ := List.mem_map.mp
    (m.once.symm.subset (List.mem_map_of_mem (f := ConstEvalFunc.name) hfunc))
  obtain ⟨parent, op⟩ := c
  obtain ⟨b, hb, hop⟩ := Module.mem_calls.mp hc
  obtain ⟨hopmem, hload⟩ := List.mem_filter.mp hop
  have hname : op.name = .loadCached funcOp.name := by
    rw [name_of_isLoadCached hload]
    exact congrArg _ hcallee
  have hother : ∀ j b', m.hosts[j]? = some b' → ∀ o ∈ b'.ops,
      o.name = .loadCached funcOp.name → (j, o) = (parent, op) := by
    intro j b' hb' o ho honame
    have hoload : o.name.isLoadCached := by
      rw [honame]
      rfl
    refine m.call_unique (Module.mem_calls.mpr ⟨b', hb', List.mem_filter.mpr ⟨ho, hoload⟩⟩) hc ?_
    exact (getCallee_of_name honame).trans hcallee.symm
  have hfind : (m.calls.map fun call => (⟨getCallee call.2, call.1, call.2.id⟩ : FuncCall)).find?
      (·.callee = funcOp.name) = some ⟨getCallee op, parent, op.id⟩ := by
    refine find?_eq_some_of_unique (List.mem_map.mpr ⟨_, hc, rfl⟩) (by simpa using hcallee) ?_
    intro e he hcallee'
    obtain ⟨d, hd, rfl⟩ := List.mem_map.mp he
    have hsame := m.call_unique hd hc ((of_decide_eq_true hcallee').trans hcallee.symm)
    rw [hsame]
  have hbmem : b ∈ m.hosts := List.mem_of_getElem? hb
  obtain ⟨hlength, hall⟩ := List.forall₂_iff_get.mp h
  obtain ⟨hlt, hbget⟩ := List.getElem?_eq_some_iff.mp hb
  have hlt' : parent < hosts.length := hlength ▸ hlt
  have hundone : Undone m inlined b hosts[parent] := hbget ▸ hall parent hlt hlt'
  obtain ⟨op', hlookup, hinline, hstep⟩ := hundone.inline hbmem hfunc hnot hopmem hname
    fun o ho honame => congrArg Prod.snd (hother parent b hb o ho honame)
  refine ⟨(hosts.set parent (inlinedBlock hosts[parent] funcOp op'), parents ++ [parent]), ?_, ?_⟩
  · rw [inlineStep, hfind]
    simp only [Option.bind_eq_bind, Option.bind_some, List.getElem?_eq_getElem hlt', hlookup,
      hinline]
  · refine List.forall₂_iff_get.mpr ⟨by simpa using hlength, fun j hj hj' => ?_⟩
    have hj'' : j < hosts.length := by simpa using hj'
    rw [List.get_eq_getElem, List.get_eq_getElem, List.getElem_set]
    by_cases hparent : parent = j
    · subst hparent
      rw [if_pos rfl, hbget]
      exact hstep
    · rw [if_neg hparent]
      refine (hall j hj hj'').skip fun o ho honame => hparent ?_
      exact (congrArg Prod.fst (hother j _ (List.getElem?_eq_getElem hj) o ho honame)).symm

/-- The inlining loop over some functions. -/
theorem foldlM_inlineStep (funcs : List ConstEvalFunc)
    {st : List (Block OpName Ty) × List ℕ} (h : AllUndone m inlined st.1)
    (hfuncs : ∀ funcOp ∈ funcs, funcOp ∈ m.constEvalFuncs)
    (hnodup : (inlined ++ funcs.map ConstEvalFunc.name).Nodup) :
    ∃ st', funcs.foldlM (inlineStep
        (m.calls.map fun call => ⟨getCallee call.2, call.1, call.2.id⟩)) st = some st' ∧
      AllUndone m (inlined ++ funcs.map ConstEvalFunc.name) st'.1 := by
  induction funcs generalizing inlined st with
  | nil => exact ⟨st, rfl, by simpa using h⟩
  | cons funcOp funcs ih =>
    have hnot : funcOp.name ∉ inlined := fun hmem =>
      (List.nodup_append.mp hnodup).2.2 _ hmem _ (by simp) rfl
    obtain ⟨st₁, hst₁, h₁⟩ := (@inlineStep_eq_some _ m _ st.2) h (hfuncs funcOp (by simp)) hnot
    obtain ⟨st₂, hst₂, h₂⟩ := ih h₁ (fun f hf => hfuncs f (List.mem_cons_of_mem _ hf))
      (by simpa using hnodup)
    refine ⟨st₂, ?_, by simpa using h₂⟩
    rw [List.foldlM_cons, hst₁]
    exact hst₂

/-- **The inlining loop goes through**, and every function is called by none afterwards. -/
theorem inlineAll_eq_some : ∃ hosts parents, m.inlineAll = some (hosts, parents) ∧
    AllUndone m (m.constEvalFuncs.map ConstEvalFunc.name) hosts := by
  have hstart : AllUndone m [] m.hosts := List.forall₂_same.mpr fun b hb =>
    Undone.refl (m.host_wf b hb) (m.host_shared b hb)
  obtain ⟨st, hst, h⟩ := (@foldlM_inlineStep _ m m.constEvalFuncs (m.hosts, [])) hstart
    (fun _ hf => hf) (by simpa using m.names)
  refine ⟨st.1, st.2, ?_, h⟩
  rw [Module.inlineAll, m.funcToCall_eq]
  exact hst

/-- **A function after inlining**: it has no calls, and the values of the function before. -/
structure Restored (b b' : Block OpName Ty) : Prop where
  numArgs : b'.numArgs = b.numArgs
  wellFormed : b'.WellFormed
  shared : SharedWellFormed b'.ops
  source : ∀ op ∈ b'.ops, op.name.isLoadCached = false
  values : ∀ {α : Type} [Inhabited α] {I : Interp α} {sem : Sem OpName α} {ρ : Value → α},
    Runs I sem m.constEvalFuncs → Solves sem b.ops ρ → ∃ ρ' : Value → α,
      (∀ n, ρ' (.blockArg n) = ρ (.blockArg n)) ∧ Solves sem b'.ops ρ' ∧
      b'.returns.map ρ' = b.returns.map ρ

theorem CalledModule.exists_callee {b : Block OpName Ty} (hb : b ∈ m.hosts)
    (hop : op ∈ b.ops) (hload : op.name.isLoadCached) :
    ∃ funcOp ∈ m.constEvalFuncs, op.name = .loadCached funcOp.name := by
  obtain ⟨j, hj⟩ := List.mem_iff_getElem?.mp hb
  have hcall : (j, op) ∈ m.calls := Module.mem_calls.mpr ⟨b, hj, List.mem_filter.mpr ⟨hop, hload⟩⟩
  obtain ⟨funcOp, hfunc, hname⟩ := List.mem_map.mp
    (m.once.subset (List.mem_map_of_mem (f := fun call : ℕ × Op => getCallee call.2) hcall))
  exact ⟨funcOp, hfunc, by rw [name_of_isLoadCached hload, hname]⟩

/-- After all functions are inlined no call is left. -/
theorem Undone.restored (hb : b ∈ m.hosts)
    (h : Undone m (m.constEvalFuncs.map ConstEvalFunc.name) b b') : Restored m b b' where
  numArgs := h.numArgs
  wellFormed := h.wellFormed
  shared := h.shared
  source := by
    intro op hop
    by_contra hload
    rw [Bool.not_eq_false] at hload
    have hsig := mem_callSigs.mpr ⟨op, hop, hload, rfl⟩
    rw [h.sigs, List.mem_filter] at hsig
    obtain ⟨hmem, hnot⟩ := hsig
    obtain ⟨o, ho, hoload, heq⟩ := mem_callSigs.mp hmem
    obtain ⟨funcOp, hfunc, hname⟩ := m.exists_callee hb ho hoload
    have hname' : op.name = .loadCached funcOp.name := (CallSig.mk.inj heq).2.1.symm.trans hname
    refine absurd hnot ?_
    simp only [callSig, hname', decide_eq_true_eq, not_not]
    exact List.mem_map_of_mem (List.mem_map_of_mem hfunc)
  values := h.values

/-- Merging keeps what is restored. -/
theorem Restored.deduplicate (h : Restored m b b') : Restored m b (deduplicateSharedOps b') where
  numArgs := by
    obtain ⟨g, erase, heq, -⟩ := exists_deduplicate h.wellFormed
    rw [heq]
    exact h.numArgs
  wellFormed := wellFormed_deduplicateSharedOps h.wellFormed h.shared
  shared := sharedWellFormed_deduplicateSharedOps h.wellFormed h.shared
  source := by
    intro op hop
    obtain ⟨o, ho, g, rfl⟩ := exists_of_mem_deduplicateSharedOps h.wellFormed hop
    exact h.source o ho
  values := by
    intro α _ I sem ρ hruns hsolves
    obtain ⟨ρ', hargs, hsolves', hreturns⟩ := h.values hruns hsolves
    obtain ⟨hdedup, hreturns'⟩ := solves_deduplicateSharedOps h.wellFormed h.shared hsolves'
    exact ⟨ρ', hargs, hdedup, hreturns'.trans hreturns⟩

/-- The merging loop keeps what is restored. -/
theorem forall₂_deduplicateAll (parents : List ℕ) {hosts : List (Block OpName Ty)}
    (h : List.Forall₂ (Restored m) m.hosts hosts) :
    List.Forall₂ (Restored m) m.hosts (deduplicateAll parents hosts) := by
  induction parents generalizing hosts with
  | nil => exact h
  | cons parent parents ih =>
    refine ih ?_
    obtain ⟨hlength, hall⟩ := List.forall₂_iff_get.mp h
    refine List.forall₂_iff_get.mpr ⟨by simpa using hlength, fun j hj hj' => ?_⟩
    have hj'' : j < hosts.length := by simpa using hj'
    rw [List.get_eq_getElem, List.get_eq_getElem, List.getElem_modify]
    split_ifs
    · exact (hall j hj hj'').deduplicate
    · exact hall j hj hj''

/-- Every function of the module has values on any arguments. -/
theorem CalledModule.exists_values [Inhabited α] (I : Interp α) {b : Block OpName Ty}
    (hb : b ∈ m.hosts) {args : List α} (hargs : args.length = b.numArgs) :
    ∃ ρ : Value → α, (∀ n < b.numArgs, args[n]? = some (ρ (.blockArg n))) ∧
      Solves (callSem I m.constEvalFuncs) b.ops ρ := by
  have hruns := runs_callSem I m.names
  refine exists_solves (m.host_wf b hb) (fun op hop vs hvs k hk => ?_) hargs
  by_cases hload : op.name.isLoadCached
  · obtain ⟨funcOp, hfunc, hname⟩ := m.exists_callee hb hop hload
    have hcalls := m.fits b hb op hop funcOp hfunc hname
    have hwf := m.func_wf funcOp hfunc
    obtain ⟨ρ, hρ, hsolves⟩ := (@exists_solves _ _ _ (opSem I) _ _) hwf.block
      (fun o ho vs _ k _ => isSome_opSem I (hwf.source o ho) vs k)
      (show vs.length = _ by rw [hvs, hcalls.operands])
    rw [hname, hruns.call funcOp hfunc, eval_eq_of_solves hwf.block hρ hsolves]
    rw [hcalls.results] at hk
    simp [List.getElem?_eq_getElem hk]
  · rw [hruns.op op.name (by simpa using hload)]
    exact isSome_opSem I (by simpa using hload) vs k

/-- **A function that returns what another one returned**, without calls. -/
structure ReturnsSame (newFuncs : List ConstEvalFunc) (b b' : Block OpName Ty) : Prop where
  wellFormed : b'.WellFormed
  source : ∀ op ∈ b'.ops, op.name.isLoadCached = false
  eval : ∀ {α : Type} [Inhabited α] (I : Interp α) (args : List α), args.length = b.numArgs →
    b'.eval (opSem I) args = b.eval (callSem I newFuncs) args

theorem Restored.returnsSame (hb : b ∈ m.hosts)
    (h : Restored m b b') : ReturnsSame m.constEvalFuncs b b' where
  wellFormed := h.wellFormed
  source := h.source
  eval := by
    intro α _ I args hargs
    obtain ⟨ρ, hρ, hsolves⟩ := m.exists_values I hb hargs
    have hruns := runs_callSem I m.names
    obtain ⟨ρ', hargs', hsolves', hreturns⟩ := h.values hruns hsolves
    rw [eval_eq_of_solves (m.host_wf b hb) hρ hsolves, ← hreturns]
    refine eval_eq_of_solves h.wellFormed (fun n hn => ?_) fun op hop k hk => ?_
    · rw [hargs' n]
      exact hρ n (h.numArgs ▸ hn)
    · rw [← hruns.op op.name (h.source op hop)]
      exact hsolves' op hop k hk

/-- **Undoing const-eval is correct.**  Every function is inlined at its call; every run of
the merging loop merges only operations of the same key, types and values; and every
function of the module returns what it returned. -/
theorem undoConstEval_correct (m : CalledModule) : ∃ hosts parentFuncs,
    m.inlineAll = some (hosts, parentFuncs) ∧
    undoConstEvalImpl m.toModule = some (deduplicateAll parentFuncs hosts) ∧
    (∀ i, ∀ b ∈ deduplicateAll (parentFuncs.take i) hosts, MergesSoundly b) ∧
    List.Forall₂ (ReturnsSame m.constEvalFuncs) m.hosts (deduplicateAll parentFuncs hosts) := by
  obtain ⟨hosts, parents, hinline, hundone⟩ := inlineAll_eq_some m
  have hmem : ∀ {R S : Block OpName Ty → Block OpName Ty → Prop} {l : List (Block OpName Ty)},
      (∀ b b', b ∈ m.hosts → R b b' → S b b') → List.Forall₂ R m.hosts l →
        List.Forall₂ S m.hosts l := by
    intro R S l himp hR
    obtain ⟨hlength, hall⟩ := List.forall₂_iff_get.mp hR
    exact List.forall₂_iff_get.mpr ⟨hlength, fun i h₁ h₂ =>
      himp _ _ (List.get_mem _ _) (hall i h₁ h₂)⟩
  have hrestored : List.Forall₂ (Restored m) m.hosts hosts :=
    hmem (fun b b' hb h => h.restored m hb) hundone
  refine ⟨hosts, parents, hinline, ?_, fun i b hb => ?_, ?_⟩
  · rw [undoConstEvalImpl, hinline]
    rfl
  · obtain ⟨hlength, hall⟩ := List.forall₂_iff_get.mp
      (forall₂_deduplicateAll m (parents.take i) hrestored)
    obtain ⟨j, hj, rfl⟩ := List.getElem_of_mem hb
    have h := hall j (hlength ▸ hj) hj
    exact mergesSoundly h.wellFormed h.shared
  · exact hmem (fun b b' hb h => h.returnsSame m hb) (forall₂_deduplicateAll m parents hrestored)

end Run

/-! ## Hoisting, then undoing -/

/-- **Hoisting makes modules of this kind.** -/
theorem calledModule_of_processFunction {f : Function} {ord : IterationOrder}
    {m : HoistedModule} (hm : processFunction f ord = some m) :
    ∃ c : CalledModule, c.toModule = ⟨[m.host], m.constEvalFuncs⟩ := by
  obtain ⟨calls, rest, h⟩ := exists_hoisted hm
  have hload : ∀ op ∈ calls, ∃ newFunc ∈ m.constEvalFuncs, Calls op newFunc := fun op hop =>
    Fallible.exists_of_forall₂ h.calls_eq hop
  have hcalls : loadCachedOps m.host = calls := by
    rw [loadCachedOps, h.ops_eq, List.filter_append, List.filter_eq_self.mpr,
      List.filter_eq_nil_iff.mpr, List.append_nil]
    · exact fun op hop => by simp [h.source op hop]
    · intro op hop
      obtain ⟨newFunc, -, hc⟩ := hload op hop
      rw [hc.name]
      rfl
  refine ⟨{ hosts := [m.host]
            constEvalFuncs := m.constEvalFuncs
            host_wf := by simpa using h.wellFormed
            host_shared := ?_
            func_wf := h.funcs
            names := h.names
            once := ?_
            fits := ?_ }, rfl⟩
  · intro b hb op hop hsh
    rw [List.mem_singleton.mp hb, h.ops_eq] at hop
    rcases List.mem_append.mp hop with hop | hop
    · obtain ⟨newFunc, -, hc⟩ := hload op hop
      rw [isSharedOp, hc.name] at hsh
      cases hsh
    · exact h.shared op hop hsh
  · have hmap : List.Forall₂ (fun op newFunc => getCallee op = newFunc.name) calls
        m.constEvalFuncs := h.calls_eq.imp fun op newFunc hc => getCallee_of_name hc.name
    have heq : calls.map getCallee = m.constEvalFuncs.map ConstEvalFunc.name := by
      rwa [← List.forall₂_eq_eq_eq, List.forall₂_map_left_iff, List.forall₂_map_right_iff]
    simp [Module.calls, hcalls, Function.comp_def, ← heq]
  · intro b hb op hop newFunc hf hname
    rw [List.mem_singleton.mp hb] at hop
    obtain ⟨newFunc', hf', hc⟩ := hload op (hcalls ▸ List.mem_filter.mpr ⟨hop, by rw [hname]; rfl⟩)
    have hsame : newFunc' = newFunc := List.inj_on_of_nodup_map h.names hf' hf
      (OpName.loadCached.inj (hc.name.symm.trans hname))
    exact hsame ▸ hc

/-- **Hoisting, then undoing.**  It gives back a function with the same values, exactly when the
operands of the creation operations that are pulled in are available. -/
theorem undo_processFunction_iff (f : Function) (ord : IterationOrder) :
    (∃ m b, processFunction f ord = some m ∧
      undoConstEvalImpl ⟨[m.host], m.constEvalFuncs⟩ = some [b] ∧
      (∀ op ∈ b.ops, op.name.isLoadCached = false) ∧
      ∀ {α : Type} [Inhabited α] (I : Interp α) (args : List α), args.length = f.numArgs →
        b.eval (opSem I) args = f.eval (opSem I) args) ↔ CreationOperandsAvailable f := by
  rw [← closed_iff f ord, ← processFunction_isSome_iff]
  refine ⟨fun ⟨m, _, hm, _⟩ => ⟨m, hm⟩, fun ⟨m, hm⟩ => ?_⟩
  obtain ⟨c, hc⟩ := calledModule_of_processFunction hm
  have hhosts : c.hosts = [m.host] := congrArg Module.hosts hc
  have hfuncs : c.constEvalFuncs = m.constEvalFuncs := congrArg Module.constEvalFuncs hc
  have hmem : m.host ∈ c.hosts := by simp [hhosts]
  obtain ⟨hosts, parents, hinline, hundone⟩ := inlineAll_eq_some c
  rw [AllUndone, hhosts, List.forall₂_cons_left_iff] at hundone
  obtain ⟨b₀, _, hundone, hnil, rfl⟩ := hundone
  cases hnil
  have hrestored := @forall₂_deduplicateAll c parents [b₀]
    (hhosts ▸ .cons (hundone.restored c hmem) .nil)
  rw [hhosts, List.forall₂_cons_left_iff] at hrestored
  obtain ⟨b, _, hrestored, hnil, hb⟩ := hrestored
  cases hnil
  have hsame := hrestored.returnsSame c hmem
  refine ⟨m, b, hm, ?_, hsame.source, fun I args hargs => ?_⟩
  · rw [← hc, undoConstEvalImpl, hinline]
    exact congrArg some hb
  · obtain ⟨calls, rest, h⟩ := exists_hoisted hm
    rw [hsame.eval I args (hargs.trans h.numArgs.symm), hfuncs]
    exact (processFunction_preserves hm).eval I args hargs

end ConstEval
