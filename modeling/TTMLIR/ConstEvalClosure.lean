/-
# Closed subgraphs

The whole run of the hoisting transform, and when it goes through.  The analysis pulls a
creation operation into a subgraph without a look at its operands, so that the subgraph may
read a value it does not have.

* `createAll_isSome_iff`, `createAll_preserves` : the loop over the subgraphs;
* `processFunction_isSome_iff`, `processFunction_preserves` : the whole function;
* `CreationOperandsAvailable` : what the creation operations have to read;
* `closedAnalysis_iff`, `hoist_preserves_iff` : the analysis is closed, and hoisting is
  correct, exactly then.
-/
import TTMLIR.ConstEvalHoist

open SSA

namespace ConstEval

variable {α : Type}

/-! ## All subgraphs -/

theorem Runs.mono {I : Interp α} {sem : Sem OpName α} {newFuncs newFuncs' : List ConstEvalFunc}
    (h : Runs I sem newFuncs) (hsub : ∀ newFunc ∈ newFuncs', newFunc ∈ newFuncs) :
    Runs I sem newFuncs' :=
  ⟨h.op, fun newFunc hmem => h.call newFunc (hsub newFunc hmem)⟩

variable {f : Function}

/-- **The loop succeeds** exactly when every subgraph is closed. -/
theorem createAll_isSome_iff {sharedOps : List ℕ} {sgs : List ConstEvalSubgraph}
    {host : Host} {calls rest : List Op} (h : Calling f sharedOps sgs host calls rest) :
    (∃ r, createAll f sharedOps sgs calls.length host = some r) ↔
      ∀ sg ∈ sgs, Closed sharedOps host.block.ops sg := by
  induction sgs generalizing host calls rest with
  | nil => exact ⟨fun _ _ hsg => absurd hsg List.not_mem_nil, fun _ => ⟨_, rfl⟩⟩
  | cons sg sgs ih =>
    rw [createAll, List.forall_mem_cons]
    by_cases hclosed : Closed sharedOps host.block.ops sg
    · have hrest := ih h.create
      rw [List.length_append, List.length_singleton] at hrest
      have hafter : (∀ sg' ∈ sgs, Closed sharedOps (hostAfter f host sg calls rest).block.ops sg') ↔
          ∀ sg' ∈ sgs, Closed sharedOps host.block.ops sg' :=
        forall₂_congr fun sg' hsg' => h.closed_after hsg'
      rw [h.create_eq_some hclosed, ← hafter, ← hrest]
      simp only [Option.bind_eq_bind, Option.bind_some, hclosed, true_and]
      cases createAll f sharedOps sgs (calls.length + 1) (hostAfter f host sg calls rest) with
      | none => simp
      | some r => simp
    · cases hcreate : createConstEvalFunction f sharedOps host sg calls.length with
      | none => simp [hclosed]
      | some r => exact absurd (h.closed_of_create hcreate) hclosed

/-- **The loop keeps dominance and meaning.** -/
theorem createAll_preserves {sharedOps : List ℕ} {sgs : List ConstEvalSubgraph}
    {host host' : Host} {calls rest : List Op} {newFuncs : List ConstEvalFunc}
    (h : Calling f sharedOps sgs host calls rest)
    (hall : createAll f sharedOps sgs calls.length host = some (host', newFuncs)) :
    (∃ newCalls rest', Calling f sharedOps [] host' (calls ++ newCalls) rest' ∧
        List.Forall₂ Calls newCalls newFuncs) ∧
      newFuncs.map ConstEvalFunc.name = (List.range' calls.length sgs.length).map (newFuncName f) ∧
      (∀ newFunc ∈ newFuncs, newFunc.WellFormed) ∧
      ∀ {α : Type} {I : Interp α} {sem : Sem OpName α} {ρ : Value → α}, Runs I sem newFuncs →
        Solves sem host.block.ops ρ → ∃ ρ' : Value → α,
          (∀ n, ρ' (.blockArg n) = ρ (.blockArg n)) ∧ Solves sem host'.block.ops ρ' ∧
          host'.block.returns.map ρ' = host.block.returns.map ρ := by
  induction sgs generalizing host calls rest newFuncs with
  | nil =>
    cases hall
    exact ⟨⟨[], rest, by rwa [List.append_nil], .nil⟩, rfl, by simp,
      fun _ hsolves => ⟨_, fun _ => rfl, hsolves, rfl⟩⟩
  | cons sg sgs ih =>
    have hclosed := (createAll_isSome_iff h).mp ⟨_, hall⟩ sg (by simp)
    rw [createAll, h.create_eq_some hclosed] at hall
    simp only [Option.bind_eq_bind, Option.bind_some] at hall
    cases hrest : createAll f sharedOps sgs (calls.length + 1) (hostAfter f host sg calls rest) with
    | none =>
      rw [hrest] at hall
      cases hall
    | some r =>
      rw [hrest] at hall
      cases hall
      obtain ⟨⟨newCalls, rest', hcalling, hcalls⟩, hnames, hfuncs, hmeaning⟩ := ih h.create (by
          rw [List.length_append, List.length_singleton]
          exact hrest)
      refine ⟨⟨_ :: newCalls, rest', by simpa using hcalling, .cons (Calling.calls_callOf _) hcalls⟩,
        ?_, List.forall_mem_cons.mpr ⟨h.funcOf_wellFormed hclosed _, hfuncs⟩,
        fun hruns hsolves => ?_⟩
      · rw [List.map_cons, hnames, List.length_append, List.length_singleton,
          List.length_cons, List.range'_succ, List.map_cons]
        rfl
      · obtain ⟨ρ', hargs, hsolves', hreturns⟩ := hmeaning
          (hruns.mono fun _ hmem => List.mem_cons_of_mem _ hmem)
          (h.solves_after hruns (by simp) hclosed hsolves)
        exact ⟨ρ', fun n => (hargs n).trans rfl, hsolves', hreturns.trans (h.returns_after _)⟩

/-! ## The whole function -/

/-- The function before the first subgraph is hoisted. -/
theorem calling_start (f : Function) (ord : IterationOrder) :
    Calling f (getAnalysisResults f ord).sharedOps (getAnalysisResults f ord).subgraphs
      ⟨f.toBlock, freshId f.ops⟩ [] f.ops where
  numArgs := rfl
  ops_eq := rfl
  wellFormed := f.toWellFormed
  lt_nextId := fun _ hop => lt_freshId hop
  call_names := rfl
  call_operands := fun _ hop => by cases hop
  rest_source := f.source
  rest_shared := f.shared_wf
  shared_mem := by
    intro id hid
    rw [sharedOps_eq] at hid
    obtain ⟨b, hb, rfl⟩ := List.mem_map.mp hid
    exact List.mem_map_of_mem (List.mem_filter.mp hb).1
  subgraph_mem := by
    intro sg hsg id hid
    obtain ⟨a, -, -, hdesc⟩ := describes_of_mem ord hsg
    rw [hdesc.ops_eq] at hid
    obtain ⟨b, hb, rfl⟩ := List.mem_map.mp hid
    exact List.mem_map_of_mem (List.mem_filter.mp hb).1
  nodup := by
    intro sg hsg
    obtain ⟨a, -, -, hdesc⟩ := describes_of_mem ord hsg
    rw [sharedOps_eq]
    refine List.nodup_append.mpr ⟨f.nodup.sublist (List.filter_sublist.map _), ?_, ?_⟩
    · rw [hdesc.ops_eq]
      exact f.nodup.sublist (List.filter_sublist.map _)
    · rintro x hx y hy rfl
      obtain ⟨b, hb, rfl⟩ := List.mem_map.mp hx
      obtain ⟨hbmem, hshared⟩ := List.mem_filter.mp hb
      exact ((hdesc.mem_ops b hbmem).mp hy).1.not_isSharedOp hshared
  disjoint := disjoint_subgraphs ord
  inputs := by
    intro sg hsg n hn
    obtain ⟨a, -, -, hdesc⟩ := describes_of_mem ord hsg
    obtain ⟨b, hb, -, hbn⟩ := (hdesc.mem_inputParameters n).mp hn
    exact ((isConstEval_iff f b).mp hb).2.2.1 n hbn

/-- **A function is hoisted** exactly when every subgraph of its analysis is closed. -/
theorem processFunction_isSome_iff (f : Function) (ord : IterationOrder) :
    (∃ m, processFunction f ord = some m) ↔ ∀ sg ∈ (getAnalysisResults f ord).subgraphs,
        Closed (getAnalysisResults f ord).sharedOps f.ops sg := by
  have hall := createAll_isSome_iff (calling_start f ord)
  rw [List.length_nil] at hall
  rw [← hall, processFunction]
  cases createAll f (getAnalysisResults f ord).sharedOps (getAnalysisResults f ord).subgraphs 0
      ⟨f.toBlock, freshId f.ops⟩ with
  | none => simp
  | some r => simp

/-- **What a rewritten function has to be.**  Values dominate their uses; on all arguments it
returns what the original returns; its calls read parameters and constants only; and it
returns the same when the results of the calls were cached by an earlier run with the same
parameters and constants. -/
structure Preserves (f : Function) (m : HoistedModule) : Prop where
  wellFormed : m.host.WellFormed
  eval : ∀ {α : Type} [Inhabited α] (I : Interp α) (args : List α), args.length = f.numArgs →
    m.eval I args = f.eval (opSem I) args
  inputs : ∀ op ∈ m.host.ops, op.name.isLoadCached → ∀ v ∈ op.operands,
    ∃ n ∈ populateConstParams f, v = .blockArg n
  cached : ∀ {α : Type} [Inhabited α] (I : Interp α) (earlier args : List α),
    args.length = f.numArgs → (∀ n ∈ populateConstParams f, earlier[n]? = args[n]?) →
    m.evalCached I earlier args = f.eval (opSem I) args

theorem newFuncName_injective (f : Function) : Function.Injective (newFuncName f) := by
  intro i j hij
  exact Nat.repr_injective ((String.append_right_inj _).mp hij)

theorem find?_eq_some_of_unique {β : Type} {p : β → Bool} {l : List β} {a : β} (ha : a ∈ l)
    (hp : p a) (hunique : ∀ b ∈ l, p b → b = a) : l.find? p = some a := by
  cases h : l.find? p with
  | none => exact absurd hp (List.find?_eq_none.mp h a ha)
  | some b => rw [hunique b (List.mem_of_find?_eq_some h) (List.find?_some h)]

/-- With different names, a call runs the function it names. -/
theorem runs_callSem (I : Interp α) {newFuncs : List ConstEvalFunc}
    (hnodup : (newFuncs.map ConstEvalFunc.name).Nodup) : Runs I (callSem I newFuncs) newFuncs where
  op := by
    intro name hname
    cases name with
    | op _ _ _ => rfl
    | loadCached _ => cases hname
  call := by
    intro newFunc hmem vs k
    have hfind : newFuncs.find? (·.name = newFunc.name) = some newFunc :=
      find?_eq_some_of_unique hmem (by simp) fun b hb hname =>
        List.inj_on_of_nodup_map hnodup hb hmem (by simpa using hname)
    show callResult I newFuncs newFunc.name vs k = _
    rw [callResult, hfind]
    rfl

theorem exists_values [Inhabited α] (f : Function) (I : Interp α) {args : List α}
    (hargs : args.length = f.numArgs) :
    ∃ ρ : Value → α, (∀ n < f.numArgs, args[n]? = some (ρ (.blockArg n))) ∧
      Solves (opSem I) f.ops ρ ∧ f.eval (opSem I) args = some (f.returns.map ρ) := by
  obtain ⟨ρ, hρ, hsolves⟩ := (@exists_solves _ _ _ (opSem I) _ _) f.toWellFormed
    (fun op hop vs _ k _ => isSome_opSem I (f.source op hop) vs k) hargs
  exact ⟨ρ, hρ, hsolves, eval_eq_of_solves f.toWellFormed hρ hsolves⟩

/-- A rewritten function: its calls, one for each new function, the other operations, and
values that satisfy its equations. -/
structure Hoisted (f : Function) (m : HoistedModule) (calls rest : List Op) : Prop where
  wellFormed : m.host.WellFormed
  numArgs : m.host.numArgs = f.numArgs
  ops_eq : m.host.ops = calls ++ rest
  source : ∀ op ∈ rest, op.name.isLoadCached = false
  shared : SharedWellFormed rest
  calls_eq : List.Forall₂ Calls calls m.constEvalFuncs
  funcs : ∀ newFunc ∈ m.constEvalFuncs, newFunc.WellFormed
  names : (m.constEvalFuncs.map ConstEvalFunc.name).Nodup
  call_names : (calls.map Operation.name).Nodup
  call_operands : ∀ op ∈ calls, ∀ v ∈ op.operands, ∃ n ∈ populateConstParams f, v = .blockArg n
  values : ∀ {α : Type} [Inhabited α] (I : Interp α) (args : List α), args.length = f.numArgs →
    ∃ ρ : Value → α, (∀ n < f.numArgs, args[n]? = some (ρ (.blockArg n))) ∧
      Solves (callSem I m.constEvalFuncs) m.host.ops ρ ∧
      f.eval (opSem I) args = some (m.host.returns.map ρ)

variable {ord : IterationOrder}

/-- What `processFunction` returns. -/
theorem exists_hoisted {m : HoistedModule}
    (hm : processFunction f ord = some m) : ∃ calls rest, Hoisted f m calls rest := by
  rw [processFunction] at hm
  cases hall : createAll f (getAnalysisResults f ord).sharedOps
      (getAnalysisResults f ord).subgraphs 0 ⟨f.toBlock, freshId f.ops⟩ with
  | none =>
    rw [hall] at hm
    cases hm
  | some r =>
    rw [hall] at hm
    cases hm
    obtain ⟨host, newFuncs⟩ := r
    obtain ⟨⟨calls, rest, hcalling, hcalls⟩, hnames, hfuncs, hmeaning⟩ :=
      createAll_preserves (calling_start f ord) hall
    rw [List.nil_append] at hcalling
    have hnodup : (newFuncs.map ConstEvalFunc.name).Nodup := by
      rw [hnames]
      exact List.Nodup.map (newFuncName_injective f) List.nodup_range'
    refine ⟨calls, rest, hcalling.wellFormed, hcalling.numArgs, hcalling.ops_eq,
      hcalling.rest_source, hcalling.rest_shared, hcalls, hfuncs, hnodup, ?_,
      hcalling.call_operands, ?_⟩
    · rw [hcalling.call_names]
      refine List.Nodup.map (fun i j hij => ?_) List.nodup_range
      exact newFuncName_injective f (OpName.loadCached.inj hij)
    · intro α _ I args hargs
      obtain ⟨ρ, hρ, hsolves, heval⟩ := exists_values f I hargs
      have hruns := runs_callSem I hnodup
      obtain ⟨ρ', hargs', hsolves', hreturns⟩ := hmeaning hruns (ρ := ρ) (by
        intro op hop k hk
        rw [hruns.op op.name (f.source op hop)]
        exact hsolves op hop k hk)
      refine ⟨ρ', fun n hn => ?_, hsolves', ?_⟩
      · rw [hargs' n]
        exact hρ n hn
      · rw [heval, hreturns]

section

variable {f : Function} {m : HoistedModule} {calls rest : List Op} (h : Hoisted f m calls rest)

include h

theorem Hoisted.isCall {op : Op} (hop : op ∈ m.host.ops)
    (hload : op.name.isLoadCached) : op ∈ calls := by
  rw [h.ops_eq] at hop
  rcases List.mem_append.mp hop with hop | hop
  · exact hop
  · rw [h.source op hop] at hload
    cases hload

theorem Hoisted.find?_eq_some {op : Op} (hop : op ∈ m.host.ops) {callee : String}
    (hname : op.name = .loadCached callee) :
    m.host.ops.find? (·.name = .loadCached callee) = some op := by
  have hcall : ∀ b ∈ m.host.ops, b.name = .loadCached callee → b ∈ calls := fun b hb hbname =>
    h.isCall hb (by rw [hbname]; rfl)
  refine find?_eq_some_of_unique hop (by simp [hname]) fun b hb hb' => ?_
  have hbname : b.name = .loadCached callee := by simpa using hb'
  exact List.inj_on_of_nodup_map h.call_names (hcall b hb hbname) (hcall op hop hname)
    (hbname.trans hname.symm)

/-- **Cached results stay valid**: values that satisfy the equations with calls run now
satisfy those with calls run earlier on the same parameters and constants. -/
theorem Hoisted.solves_cachedSem {I : Interp α} {earlier : List α} {ρ : Value → α}
    (hearlier : ∀ n ∈ populateConstParams f, earlier[n]? = some (ρ (.blockArg n)))
    (hsolves : Solves (callSem I m.constEvalFuncs) m.host.ops ρ) :
    Solves (cachedSem I m earlier) m.host.ops ρ := by
  intro op hop k hk
  rw [← hsolves op hop k hk]
  cases hname : op.name with
  | op _ _ _ => rfl
  | loadCached callee =>
    have hload : op.name.isLoadCached := by rw [hname]; rfl
    have hoperands : op.operands.mapM (argEnv earlier) = some (op.operands.map ρ) :=
      mapM_eq_some _ fun v hv => by
        obtain ⟨n, hn, rfl⟩ := h.call_operands op (h.isCall hop hload) v hv
        exact hearlier n hn
    show Option.bind (m.host.ops.find? _) _ = _
    rw [h.find?_eq_some hop hname]
    show Option.bind (op.operands.mapM (argEnv earlier)) _ = _
    rw [hoperands]
    rfl

end

/-- **A rewritten function is correct.** -/
theorem processFunction_preserves {m : HoistedModule}
    (hm : processFunction f ord = some m) : Preserves f m := by
  obtain ⟨calls, rest, h⟩ := exists_hoisted hm
  refine ⟨h.wellFormed, ?_, fun op hop hload => h.call_operands op (h.isCall hop hload), ?_⟩
  · intro α _ I args hargs
    obtain ⟨ρ, hρ, hsolves, heval⟩ := h.values I args hargs
    rw [heval]
    exact eval_eq_of_solves h.wellFormed (by rw [h.numArgs]; exact hρ) hsolves
  · intro α _ I earlier args hargs hagree
    obtain ⟨ρ, hρ, hsolves, heval⟩ := h.values I args hargs
    rw [heval]
    refine eval_eq_of_solves h.wellFormed (by rw [h.numArgs]; exact hρ)
      (h.solves_cachedSem (fun n hn => ?_) hsolves)
    rw [hagree n hn]
    exact hρ n (Finset.mem_range.mp (Finset.mem_filter.mp hn).1)

/-! ## When the subgraphs are closed -/

/-- **The operands of the creation operations that are pulled in are available**: each is
the result of a shared operation, a parameter or constant that a const-eval operation of the
same component reads, or the result of an operation collected in the same component. -/
def CreationOperandsAvailable (f : Function) : Prop :=
  ∀ c b, isCreationOp c → Linked f c b → ∀ v ∈ c.operands,
    (∃ a ∈ f.ops, isSharedOp a ∧ v ∈ a.results) ∨
    (∃ n, v = .blockArg n ∧ ∃ b', IsConstEval f b' ∧ SameComponent f c b' ∧
      .blockArg n ∈ b'.operands) ∨
    ∃ a, Member f a ∧ SameComponent f c a ∧ v ∈ a.results

theorem mem_emitted {sg : ConstEvalSubgraph} {a : Op} :
    a ∈ emitted (getAnalysisResults f ord).sharedOps f.ops sg ↔
      a ∈ f.ops ∧ (isSharedOp a ∨ a.id ∈ sg.ops) := by
  rw [emitted, mem_deref f.nodup, List.mem_append, sharedOps_eq]
  refine and_congr_right fun ha => or_congr_left ?_
  constructor
  · intro hid
    obtain ⟨b, hb, hba⟩ := List.mem_map.mp hid
    obtain ⟨hbmem, hshared⟩ := List.mem_filter.mp hb
    exact eq_of_id_eq f.nodup hbmem ha hba ▸ hshared
  · exact fun hshared => List.mem_map_of_mem (List.mem_filter.mpr ⟨ha, hshared⟩)

/-- Closed subgraphs have the operands of their creation operations. -/
theorem creationOperandsAvailable_of_closed (h : ∀ sg ∈ (getAnalysisResults f ord).subgraphs,
      Closed (getAnalysisResults f ord).sharedOps f.ops sg) : CreationOperandsAvailable f := by
  intro c b _ hlinked v hv
  obtain ⟨sg, hsg, hc, hdesc⟩ := exists_mem_subgraphs ord hlinked.member
  have hmem : c ∈ emitted (getAnalysisResults f ord).sharedOps f.ops sg :=
    mem_emitted.mpr ⟨hlinked.2.1, Or.inr hc⟩
  rcases List.mem_append.mp ((h sg hsg).mem_of_mem_operands hmem hv) with hin | hres
  · obtain ⟨n, hn, rfl⟩ := List.mem_map.mp hin
    exact Or.inr (Or.inl ⟨n, rfl, (hdesc.mem_inputParameters n).mp ((Finset.mem_sort _).mp hn)⟩)
  · obtain ⟨a, ha, hva⟩ := List.mem_flatMap.mp hres
    obtain ⟨hamem, hshared | hid⟩ := mem_emitted.mp ha
    · exact Or.inl ⟨a, hamem, hshared, hva⟩
    · obtain ⟨hmember, hsame⟩ := (hdesc.mem_ops a hamem).mp hid
      exact Or.inr (Or.inr ⟨a, hmember, hsame, hva⟩)

/-- What an operation of a subgraph reads: an input, a result of a shared operation, or a
result of an operation of the subgraph. -/
theorem operand_available (h : CreationOperandsAvailable f)
    {sg : ConstEvalSubgraph} {a₀ op : Op} (hdesc : Describes f a₀ sg) (hop : op ∈ f.ops)
    (hid : op.id ∈ sg.ops) {v : Value} (hv : v ∈ op.operands) :
    v ∈ inputValues sg ∨ (∃ a ∈ f.ops, isSharedOp a ∧ v ∈ a.results) ∨
      ∃ a ∈ f.ops, a.id ∈ sg.ops ∧ v ∈ a.results := by
  obtain ⟨hmember, hsame⟩ := (hdesc.mem_ops op hop).mp hid
  have hinput : ∀ n, ∀ b, IsConstEval f b → SameComponent f a₀ b → .blockArg n ∈ b.operands →
      Value.blockArg n ∈ inputValues sg := fun n b hb hab hbn =>
    List.mem_map_of_mem ((Finset.mem_sort _).mpr
      ((hdesc.mem_inputParameters n).mpr ⟨b, hb, hab, hbn⟩))
  rcases hmember with hce | ⟨hc, b, hlinked⟩
  · obtain ⟨pre, post, hops⟩ := List.append_of_mem hop
    rcases operand_cases hops hv with ⟨n, rfl⟩ | ⟨a, hapre, hva⟩
    · exact Or.inl (hinput n op hce hsame hv)
    · have ha : a ∈ f.ops := hops ▸ List.mem_append_left _ hapre
      by_cases hshared : isSharedOp a
      · exact Or.inr (Or.inl ⟨a, ha, hshared, hva⟩)
      · have hlink : Linked f a op := ⟨hce, ha, hshared, v, hv, hva⟩
        exact Or.inr (Or.inr ⟨a, ha, (hdesc.mem_ops a ha).mpr
          ⟨hlink.member, hsame.trans _ _ _ ((Relation.EqvGen.rel _ _ hlink).symm _ _)⟩, hva⟩)
  · rcases h op b hc hlinked v hv with hshared | ⟨n, rfl, b', hb', hsame', hbn⟩ | ⟨a, ha, hsame', hva⟩
    · exact Or.inr (Or.inl hshared)
    · exact Or.inl (hinput n b' hb' (hsame.trans _ _ _ hsame') hbn)
    · exact Or.inr (Or.inr ⟨a, ha.mem, (hdesc.mem_ops a ha.mem).mpr
        ⟨ha, hsame.trans _ _ _ hsame'⟩, hva⟩)

/-- **Subgraphs are closed** when the operands of the creation operations are available. -/
theorem closed_of_creationOperandsAvailable
    (h : CreationOperandsAvailable f) {sg : ConstEvalSubgraph}
    (hsg : sg ∈ (getAnalysisResults f ord).subgraphs) :
    Closed (getAnalysisResults f ord).sharedOps f.ops sg := by
  obtain ⟨a₀, -, -, hdesc⟩ := describes_of_mem ord hsg
  have hemitted : emitted (getAnalysisResults f ord).sharedOps f.ops sg =
      f.ops.filter isSharedOp ++ f.ops.filter (·.id ∈ sg.ops) := by
    have happend : deref f.ops ((getAnalysisResults f ord).sharedOps ++ sg.ops) =
        deref f.ops (getAnalysisResults f ord).sharedOps ++ deref f.ops sg.ops :=
      List.filterMap_append
    have hsg_ops := congrArg (deref f.ops) hdesc.ops_eq
    rw [deref_map_id_filter f.nodup] at hsg_ops
    rw [emitted, happend, sharedOps_eq, deref_map_id_filter f.nodup, hsg_ops]
  rw [Closed, hemitted]
  -- shared operations read nothing
  have hshared : ∀ visible : List Value, ∀ l : List Op,
      (∀ op ∈ l, op.operands = []) → Scoped visible l := by
    intro visible l hl
    induction l generalizing visible with
    | nil => trivial
    | cons op l ih =>
      refine ⟨fun v hv => ?_, ih _ fun o ho => hl o (List.mem_cons_of_mem _ ho)⟩
      rw [hl op (by simp)] at hv
      cases hv
  refine scoped_append.mpr ⟨hshared _ _ fun op hop => ?_, ?_⟩
  · obtain ⟨hmem, hsh⟩ := List.mem_filter.mp hop
    exact (f.shared_wf op hmem hsh).1
  · have hscoped := (@scoped_filter_map _ _ _ (fun v => v) _
      (inputValues sg ++ (f.ops.filter isSharedOp).flatMap Operation.results)
      fun op : Op => op.id ∈ sg.ops)
      f.dominated f.nodup (by
        intro a _ v hv hmem
        obtain ⟨k, -, rfl⟩ := Operation.mem_results.mp hv
        simp at hmem) (by
        intro op hop hid v hv
        rcases operand_available h hdesc hop (by simpa using hid) hv with hin | hsh | hsub
        · exact Or.inl (List.mem_append_left _ hin)
        · obtain ⟨a, ha, hash, hva⟩ := hsh
          exact Or.inl (List.mem_append_right _ (List.mem_flatMap.mpr
            ⟨a, List.mem_filter.mpr ⟨ha, hash⟩, hva⟩))
        · obtain ⟨a, ha, hid', hva⟩ := hsub
          exact Or.inr ⟨rfl, a, ha, by simpa using hid', hva⟩)
    rwa [map_mapOperands_eq_self fun _ _ _ _ => rfl] at hscoped

theorem closed_iff (f : Function) (ord : IterationOrder) :
    (∀ sg ∈ (getAnalysisResults f ord).subgraphs,
      Closed (getAnalysisResults f ord).sharedOps f.ops sg) ↔ CreationOperandsAvailable f :=
  ⟨creationOperandsAvailable_of_closed, fun h _ hsg => closed_of_creationOperandsAvailable h hsg⟩

/-- **What the analysis has to give.**  Every subgraph is closed; no clone step meets a value
out of scope; different subgraphs share no operation; and every const-eval operation is in
exactly one subgraph. -/
structure ClosedAnalysis (f : Function) (ord : IterationOrder) : Prop where
  closed : ∀ sg ∈ (getAnalysisResults f ord).subgraphs,
    Closed (getAnalysisResults f ord).sharedOps f.ops sg
  in_scope : ∃ m, processFunction f ord = some m
  disjoint : (getAnalysisResults f ord).subgraphs.Pairwise fun sg sg' => sg.ops.Disjoint sg'.ops
  exists_unique : ∀ op, IsConstEval f op →
    ∃! sg, sg ∈ (getAnalysisResults f ord).subgraphs ∧ op.id ∈ sg.ops

theorem existsUnique_subgraph (ord : IterationOrder) {op : Op} (hop : IsConstEval f op) :
    ∃! sg, sg ∈ (getAnalysisResults f ord).subgraphs ∧ op.id ∈ sg.ops := by
  obtain ⟨sg, hsg, hid, -⟩ := exists_mem_subgraphs ord (Or.inl hop)
  refine ⟨sg, ⟨hsg, hid⟩, ?_⟩
  rintro sg' ⟨hsg', hid'⟩
  by_contra hne
  have hsymm : Std.Symm fun sg sg' : ConstEvalSubgraph => sg.ops.Disjoint sg'.ops :=
    ⟨fun _ _ hdisj => hdisj.symm⟩
  exact (disjoint_subgraphs ord).forall hsg hsg' (Ne.symm hne) hid hid'

/-- **The analysis is closed exactly when the operands of the creation operations it pulls
in are available.** -/
theorem closedAnalysis_iff (f : Function) (ord : IterationOrder) :
    ClosedAnalysis f ord ↔ CreationOperandsAvailable f := by
  rw [← closed_iff f ord]
  constructor
  · exact fun h => h.closed
  · exact fun h => ⟨h, (processFunction_isSome_iff f ord).mpr h, disjoint_subgraphs ord,
      fun op hop => existsUnique_subgraph ord hop⟩

/-- **Hoisting is correct exactly when the operands of the creation operations it pulls in
are available.** -/
theorem hoist_preserves_iff (f : Function) (ord : IterationOrder) :
    (∃ m, processFunction f ord = some m ∧ Preserves f m) ↔ CreationOperandsAvailable f := by
  rw [← closed_iff f ord, ← processFunction_isSome_iff]
  constructor
  · rintro ⟨m, hm, -⟩
    exact ⟨m, hm⟩
  · rintro ⟨m, hm⟩
    exact ⟨m, hm, processFunction_preserves hm⟩

/-! ## A creation operation on a device argument -/

/-- `%0 = zeros(%arg0)`, `%1 = add(%0, %0)`, `return %1` with the device as argument. -/
def zerosOnDevice : Function where
  numArgs := 1
  ops :=
    [{ id := 0, name := .op "ttnn.zeros" [] .creation, operands := [.blockArg 0],
       resultTypes := [.tensor "tensor<32x32xbf16>"] },
     { id := 1, name := .op "ttnn.add" [] .none, operands := [.opResult 0 0, .opResult 0 0],
       resultTypes := [.tensor "tensor<32x32xbf16>"] }]
  returns := [.opResult 1 0]
  nodup := by decide
  dominated := by decide
  returns_mem := by decide
  name := "forward"
  args := [{ type := .device, argumentType := none }]
  numArgs_eq := rfl
  shared_wf := by decide
  source := by decide

/-- The containers iterated in the order they were filled. -/
def IterationOrder.stored : IterationOrder where
  smallSet := fun l => l
  denseMap := fun l => l
  smallSet_perm := fun l => .refl l
  denseMap_perm := fun l => .refl l

theorem zerosOnDevice_operand : ¬ CreationOperandsAvailable zerosOnDevice := by
  intro h
  have hops : ∀ a ∈ zerosOnDevice.ops, a = zerosOnDevice.ops[0] ∨ a = zerosOnDevice.ops[1] := by
    decide
  have hplain : ∀ a, isPlain a → a ∈ zerosOnDevice.ops → a = zerosOnDevice.ops[1] := by
    intro a ha hmem
    rcases hops a hmem with rfl | rfl
    · exact absurd ha (by decide)
    · rfl
  have hce : IsConstEval zerosOnDevice zerosOnDevice.ops[1] := by
    refine (isConstEval_iff _ _).mpr ⟨by decide, by decide, fun n hn => ?_, ?_⟩
    · exact absurd hn (by simp [zerosOnDevice])
    · rintro a ⟨hmem, ha, v, hv, hva⟩
      obtain rfl := hplain a ha hmem
      have hself : ∀ w ∈ zerosOnDevice.ops[1].operands, w ∉ zerosOnDevice.ops[1].results := by
        decide
      exact absurd hva (hself v hv)
  have hlinked : Linked zerosOnDevice zerosOnDevice.ops[0] zerosOnDevice.ops[1] :=
    ⟨hce, by decide, by decide, .opResult 0 0, by decide, by decide⟩
  rcases h _ _ (by decide) hlinked (.blockArg 0) (by decide) with
    ⟨a, -, -, ha⟩ | ⟨n, -, b, hb, -, hbn⟩ | ⟨a, -, -, ha⟩
  · simp at ha
  · obtain rfl := hplain b hb.isPlain hb.mem
    exact absurd hbn (by simp [zerosOnDevice])
  · simp at ha

theorem zerosOnDevice_not_closedAnalysis : ¬ ClosedAnalysis zerosOnDevice .stored := fun h =>
  zerosOnDevice_operand ((closed_iff _ _).mp h.closed)

theorem zerosOnDevice_not_hoisted :
    ¬ ∃ m, processFunction zerosOnDevice .stored = some m ∧ Preserves zerosOnDevice m := by
  rintro ⟨m, hm, -⟩
  exact zerosOnDevice_operand
    ((closed_iff _ _).mp ((processFunction_isSome_iff _ _).mp ⟨m, hm⟩))

end ConstEval
