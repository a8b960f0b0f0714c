/-
# The subgraphs of the const-eval analysis

After any prefix of a function the classes of the disjoint sets are the components of the
links among the const-eval operations of the prefix; at the end the collected subgraphs are
the components of the function.

* `Inv` : what the members of the analysis are after a prefix;
* `inv_processOp`, `inv_buildConstEvalSubgraphs` : one operation, and the whole function;
* `describes_of_mem`, `exists_mem_subgraphs`, `disjoint_subgraphs` : each subgraph is a
  component, each operation to collect is in one, and in no other.
-/
import TTMLIR.ConstEvalAnalyze

open SSA Batteries

namespace ConstEval

variable {f : Function}

/-! ## Operations and their values -/

theorem getDefiningOp_of_mem_results {a : Op} {v : Value} (ha : a ∈ f.ops) (hv : v ∈ a.results) :
    getDefiningOp f v = some a := by
  obtain ⟨k, -, rfl⟩ := Operation.mem_results.mp hv
  exact (lookup_eq_some_iff f.nodup).mpr ⟨ha, rfl⟩

theorem eq_of_mem_results {a b : Op} {v : Value} (ha : a ∈ f.ops) (hb : b ∈ f.ops)
    (hva : v ∈ a.results) (hvb : v ∈ b.results) : a = b :=
  eq_of_id_eq f.nodup ha hb (Operation.id_eq_of_mem_results hva hvb)

variable {op : Op} {pre post : List Op}

theorem operand_cases (hops : f.ops = pre ++ op :: post) {v : Value} (hv : v ∈ op.operands) :
    (∃ n, v = .blockArg n) ∨ ∃ a ∈ pre, v ∈ a.results := by
  cases v with
  | blockArg n => exact Or.inl ⟨n, rfl⟩
  | opResult id k => exact Or.inr (exists_of_opResult_mem_operands (hops ▸ f.dominated) hv)

theorem not_reads_of_mem_prefix {op z : Op}
    (hops : f.ops = pre ++ op :: post) (hz : z ∈ pre) : ¬ z.Reads op := by
  intro hreads
  have hmem : z ∈ pre ++ op :: post := List.mem_append_left _ hz
  have hnodup := hops ▸ f.nodup
  have h1 := index_lt_index hnodup hz
  have h2 := index_lt_of_reads hnodup (hops ▸ f.dominated) hmem hreads
  omega

theorem not_mem_pre (hops : f.ops = pre ++ op :: post) : op ∉ pre := by
  intro hmem
  have h := index_lt_index (hops ▸ f.nodup) hmem
  omega

/-! ## The operands of one operation -/

/-- An operand `operandIsConstEval` accepts: a parameter or constant, a value of a subgraph,
or a result of an operation with a trait. -/
def Accepted (f : Function) (s : ConstEvalAnalyze) : Value → Prop
  | .blockArg n => n ∈ populateConstParams f
  | .opResult id k => (∃ i, s.valueToSubgraphMap (.opResult id k) = some i) ∨
      ∃ d, getDefiningOp f (.opResult id k) = some d ∧ (isSharedOp d ∨ isCreationOp d)

/-- `deps'` are the dependencies `deps` with those of the operands `vs`. -/
structure Records (f : Function) (s : ConstEvalAnalyze) (deps : Dependencies) (vs : List Value)
    (deps' : Dependencies) : Prop where
  inputParams : ∀ n, n ∈ deps'.inputParams ↔ n ∈ deps.inputParams ∨ Value.blockArg n ∈ vs
  dependentSubgraphIds : ∀ i, i ∈ deps'.dependentSubgraphIds ↔
    i ∈ deps.dependentSubgraphIds ∨ ∃ v ∈ vs, s.valueToSubgraphMap v = some i
  creationOps : ∀ c, c ∈ deps'.creationOps ↔ c ∈ deps.creationOps ∨
    ∃ v ∈ vs, s.valueToSubgraphMap v = none ∧ getDefiningOp f v = some c ∧ isCreationOp c

theorem Records.refl (s : ConstEvalAnalyze) (deps : Dependencies) : Records f s deps [] deps :=
  ⟨by simp, by simp, by simp⟩

variable {s : ConstEvalAnalyze}

theorem Records.append {deps deps' deps'' : Dependencies}
    {vs vs' : List Value} (h : Records f s deps vs deps') (h' : Records f s deps' vs' deps'') :
    Records f s deps (vs ++ vs') deps'' := by
  refine ⟨fun n => ?_, fun i => ?_, fun c => ?_⟩
  · rw [h'.inputParams, h.inputParams, List.mem_append, or_assoc]
  · rw [h'.dependentSubgraphIds, h.dependentSubgraphIds, or_assoc]
    simp only [List.mem_append, or_and_right, exists_or]
  · rw [h'.creationOps, h.creationOps, or_assoc]
    simp only [List.mem_append, or_and_right, exists_or]

/-- **One operand**: it is accepted or not, and an accepted one is recorded. -/
theorem operandIsConstEval_spec
    (hargs : ∀ n, s.valueToSubgraphMap (.blockArg n) = none) (deps : Dependencies) (v : Value) :
    ((∃ deps', operandIsConstEval f s deps v = some deps') ↔ Accepted f s v) ∧
      ∀ deps', operandIsConstEval f s deps v = some deps' → Records f s deps [v] deps' := by
  cases v with
  | blockArg n =>
    rw [operandIsConstEval]
    split_ifs with hn
    · refine ⟨by simp [Accepted, hn], ?_⟩
      rintro _ ⟨⟩
      refine ⟨fun m => ?_, fun i => ?_, fun c => ?_⟩
      · simp [or_comm]
      · simp [hargs]
      · simp [getDefiningOp]
    · exact ⟨by simp [Accepted, hn], by simp⟩
  | opResult id k =>
    rw [operandIsConstEval, Accepted]
    cases hmap : s.valueToSubgraphMap (.opResult id k) with
    | some i =>
      refine ⟨by simp, ?_⟩
      rintro _ ⟨⟩
      refine ⟨fun m => ?_, fun j => ?_, fun c => ?_⟩
      · simp
      · simp [hmap, or_comm, eq_comm]
      · simp [hmap]
    | none =>
      cases hdef : getDefiningOp f (.opResult id k) with
      | none => exact ⟨by simp, by simp⟩
      | some d =>
        by_cases hs : isSharedOp d
        · have hc := not_isCreationOp_of_isSharedOp hs
          simp only [hs, if_true]
          refine ⟨by simp [hs], ?_⟩
          rintro _ ⟨⟩
          refine ⟨fun m => ?_, fun j => ?_, fun c => ?_⟩
          · simp
          · simp [hmap]
          · simp only [List.mem_singleton, exists_eq_left, hdef, Option.some.injEq]
            constructor
            · exact Or.inl
            · rintro (h | ⟨-, rfl, h⟩)
              · exact h
              · exact absurd h hc
        · by_cases hc : isCreationOp d
          · simp only [hs, hc, if_true, if_false, Bool.false_eq_true]
            refine ⟨by simp [hc], ?_⟩
            rintro _ ⟨⟩
            refine ⟨fun m => ?_, fun j => ?_, fun c => ?_⟩
            · simp
            · simp [hmap]
            · simp only [List.mem_insert_iff, List.mem_singleton, exists_eq_left, hdef,
                Option.some.injEq, hmap, true_and]
              constructor
              · rintro (rfl | h)
                · exact Or.inr ⟨rfl, hc⟩
                · exact Or.inl h
              · rintro (h | ⟨rfl, -⟩)
                · exact Or.inr h
                · exact Or.inl rfl
          · simp only [hs, hc, if_false, Bool.false_eq_true]
            exact ⟨by simp [hs, hc], by simp⟩

/-- **All operands**: the operation is accepted when every operand is. -/
theorem foldlM_operandIsConstEval
    (hargs : ∀ n, s.valueToSubgraphMap (.blockArg n) = none) (deps : Dependencies)
    (vs : List Value) :
    ((∃ deps', vs.foldlM (operandIsConstEval f s) deps = some deps') ↔ ∀ v ∈ vs, Accepted f s v) ∧
      ∀ deps', vs.foldlM (operandIsConstEval f s) deps = some deps' →
        Records f s deps vs deps' := by
  induction vs generalizing deps with
  | nil =>
    refine ⟨by simp, ?_⟩
    rintro _ ⟨⟩
    exact .refl s deps
  | cons v vs ih =>
    obtain ⟨hiff, hrec⟩ := operandIsConstEval_spec (f := f) hargs deps v
    rw [List.foldlM_cons]
    cases hv : operandIsConstEval f s deps v with
    | none =>
      have hnot : ¬ Accepted f s v := fun h => by
        obtain ⟨d, hd⟩ := hiff.mpr h
        rw [hv] at hd
        cases hd
      refine ⟨by simp [hnot], by simp⟩
    | some d =>
      have hacc := hiff.mp ⟨d, hv⟩
      obtain ⟨hiff', hrec'⟩ := ih d
      refine ⟨?_, fun deps' h => ?_⟩
      · simpa [hacc] using hiff'
      · exact (hrec d hv).append (hrec' deps' h)

/-! ## The subgraph of one operation -/

/-- **The target of an operation**: the classes of the dependent subgraphs become one, and
the target is in it, or is a class of its own. -/
theorem targetSubgraph_spec {sets : UnionFind} {ids : List ℕ} (hids : ∀ i ∈ ids, i < sets.size) :
    sets.size ≤ (targetSubgraph sets ids).1.size ∧
    (targetSubgraph sets ids).2 < (targetSubgraph sets ids).1.size ∧
    (∀ a b, (targetSubgraph sets ids).1.Equiv a b ↔
      sets.Equiv a b ∨ sets.Touches ids a ∧ sets.Touches ids b) ∧
    ∀ b < sets.size, (targetSubgraph sets ids).1.Equiv (targetSubgraph sets ids).2 b ↔
      sets.Touches ids b := by
  match ids with
  | [] =>
    have hsize : sets.push.size = sets.size + 1 := by simp [UnionFind.size]
    refine ⟨by simp [targetSubgraph, hsize], by simp [targetSubgraph, hsize], ?_, ?_⟩
    · simp [targetSubgraph, UnionFind.Touches]
    · intro b hb
      rw [targetSubgraph, UnionFind.equiv_push]
      constructor
      · intro h
        have hlt := UnionFind.rootD_lt.mpr hb
        rw [← show sets.rootD sets.size = sets.rootD b from h] at hlt
        exact absurd (UnionFind.rootD_lt.mp hlt) (lt_irrefl _)
      · rintro ⟨i, hi, -⟩
        exact absurd hi (by simp)
  | [id] =>
    refine ⟨le_rfl, hids id (by simp), fun a b => ?_, fun b _ => ?_⟩
    · simp only [targetSubgraph, UnionFind.Touches, List.mem_singleton, exists_eq_left]
      constructor
      · exact Or.inl
      · rintro (h | ⟨ha, hb⟩)
        · exact h
        · exact ha.trans hb.symm
    · simp only [targetSubgraph, UnionFind.Touches, List.mem_singleton, exists_eq_left]
      exact ⟨Eq.symm, Eq.symm⟩
  | id :: id' :: ids =>
    have hid := hids id (by simp)
    obtain ⟨hsize, hroot, hequiv⟩ := (sets.unionAll id (id' :: ids)).findD_spec id
    have hunion := (@UnionFind.equiv_unionAll _ _ (id' :: ids)) hid
      fun y hy => hids y (List.mem_cons_of_mem _ hy)
    have htouch : sets.Touches (id :: id' :: ids) id := ⟨id, by simp, rfl⟩
    rw [UnionFind.size_unionAll] at hsize
    have htarget : targetSubgraph sets (id :: id' :: ids) =
        (sets.unionAll id (id' :: ids)).findD id := rfl
    rw [htarget, hsize, hroot]
    refine ⟨le_rfl, ?_, fun a b => (hequiv a b).trans (hunion a b), fun b _ => ?_⟩
    · rw [← @UnionFind.size_unionAll sets id (id' :: ids)]
      exact UnionFind.rootD_lt.mpr (by rwa [UnionFind.size_unionAll])
    · rw [hequiv, UnionFind.equiv_rootD_l, hunion]
      constructor
      · rintro (h | ⟨-, h⟩)
        · exact ⟨id, by simp, h.symm⟩
        · exact h
      · intro h
        exact Or.inr ⟨htouch, h⟩

/-! ## The invariant -/

/-- The links to the const-eval operations of a prefix. -/
def LinkedIn (f : Function) (pre : List Op) (a b : Op) : Prop := b ∈ pre ∧ Linked f a b

/-- The operations collected after a prefix. -/
def MemberIn (f : Function) (pre : List Op) (a : Op) : Prop :=
  a ∈ pre ∧ IsConstEval f a ∨ isCreationOp a ∧ ∃ b, LinkedIn f pre a b

/-- **The analysis after a prefix of the function.** -/
structure Inv (f : Function) (pre : List Op) (s : ConstEvalAnalyze) : Prop where
  sharedOps : s.sharedOps = (pre.filter isSharedOp).map Operation.id
  value_arg : ∀ n, s.valueToSubgraphMap (.blockArg n) = none
  value_eq : ∀ a ∈ f.ops, ∀ v ∈ a.results, s.valueToSubgraphMap v = s.opToSubgraphMap a.id
  isSome_iff : ∀ a ∈ f.ops, (∃ i, s.opToSubgraphMap a.id = some i) ↔ MemberIn f pre a
  lt_size : ∀ a ∈ f.ops, ∀ i, s.opToSubgraphMap a.id = some i → i < s.sets.size
  equiv_iff : ∀ a ∈ f.ops, ∀ b ∈ f.ops, ∀ i j, s.opToSubgraphMap a.id = some i →
    s.opToSubgraphMap b.id = some j →
      (s.sets.Equiv i j ↔ Relation.EqvGen (LinkedIn f pre) a b)
  params_mem : ∀ b ∈ pre, IsConstEval f b → ∀ i, s.opToSubgraphMap b.id = some i →
    ∀ n, Value.blockArg n ∈ b.operands → n ∈ s.subgraphParams i
  params_of_mem : ∀ i, ∀ n ∈ s.subgraphParams i, ∃ b ∈ pre, IsConstEval f b ∧
    s.opToSubgraphMap b.id = some i ∧ Value.blockArg n ∈ b.operands

theorem inv_empty (f : Function) : Inv f [] .empty where
  sharedOps := rfl
  value_arg _ := rfl
  value_eq _ _ _ _ := rfl
  isSome_iff a _ := by simp [ConstEvalAnalyze.empty, MemberIn, LinkedIn]
  lt_size _ _ _ h := by cases h
  equiv_iff _ _ _ _ _ _ h := by cases h
  params_mem _ hb := by cases hb
  params_of_mem _ _ h := by cases h

theorem linkedIn_append_of_not {pre : List Op} (hop : ¬ IsConstEval f op) :
    LinkedIn f (pre ++ [op]) = LinkedIn f pre := by
  funext a b
  simp only [LinkedIn, List.mem_append, List.mem_singleton, eq_iff_iff]
  constructor
  · rintro ⟨hb | rfl, hlinked⟩
    · exact ⟨hb, hlinked⟩
    · exact absurd hlinked.1 hop
  · rintro ⟨hb, hlinked⟩
    exact ⟨Or.inl hb, hlinked⟩

theorem memberIn_append_of_not {pre : List Op} (hop : ¬ IsConstEval f op) (a : Op) :
    MemberIn f (pre ++ [op]) a ↔ MemberIn f pre a := by
  rw [MemberIn, MemberIn, linkedIn_append_of_not hop]
  simp only [List.mem_append, List.mem_singleton]
  constructor
  · rintro (⟨ha | rfl, hce⟩ | h)
    · exact Or.inl ⟨ha, hce⟩
    · exact absurd hce hop
    · exact Or.inr h
  · rintro (⟨ha, hce⟩ | h)
    · exact Or.inl ⟨Or.inl ha, hce⟩
    · exact Or.inr h

/-- **An operation that is not collected** changes the shared operations at most. -/
theorem Inv.skip {pre : List Op} (hs : Inv f pre s) (hop : ¬ IsConstEval f op) {shared : List ℕ}
    (hshared : shared = ((pre ++ [op]).filter isSharedOp).map Operation.id) :
    Inv f (pre ++ [op]) { s with sharedOps := shared } where
  sharedOps := hshared
  value_arg := hs.value_arg
  value_eq := hs.value_eq
  isSome_iff a ha := (hs.isSome_iff a ha).trans (memberIn_append_of_not hop a).symm
  lt_size := hs.lt_size
  equiv_iff a ha b hb i j hi hj := by
    rw [linkedIn_append_of_not hop]
    exact hs.equiv_iff a ha b hb i j hi hj
  params_mem b hb hce := by
    rcases List.mem_append.mp hb with hb | hb
    · exact hs.params_mem b hb hce
    · rw [List.mem_singleton.mp hb] at hce
      exact absurd hce hop
  params_of_mem i n hn := by
    obtain ⟨b, hb, h⟩ := hs.params_of_mem i n hn
    exact ⟨b, List.mem_append_left _ hb, h⟩

/-! ## A const-eval operation -/

section Step

variable {pre post : List Op} {op : Op} {s : ConstEvalAnalyze}

variable {a : Op}

theorem memberIn_mem (h : MemberIn f pre a) : Member f a := by
  rcases h with ⟨-, h⟩ | ⟨hc, b, -, hb⟩
  · exact Or.inl h
  · exact Or.inr ⟨hc, b, hb⟩

/-- An operand is accepted unless it is an argument of another kind, or a result of an
operation without a trait that is not const-eval. -/
theorem accepted_iff (hops : f.ops = pre ++ op :: post) (hs : Inv f pre s) {v : Value}
    (hv : v ∈ op.operands) : Accepted f s v ↔ (∀ n, v = .blockArg n → n ∈ populateConstParams f) ∧
        ∀ a ∈ f.ops, v ∈ a.results → isPlain a → IsConstEval f a := by
  rcases operand_cases hops hv with ⟨n, rfl⟩ | ⟨a, hapre, hva⟩
  · simp [Accepted]
  · have ha : a ∈ f.ops := hops ▸ List.mem_append_left _ hapre
    obtain ⟨k, -, rfl⟩ := Operation.mem_results.mp hva
    rw [Accepted, hs.value_eq a ha _ hva, hs.isSome_iff a ha]
    constructor
    · intro h
      refine ⟨by simp, fun b hb hvb hplain => ?_⟩
      obtain rfl := eq_of_mem_results ha hb hva hvb
      obtain ⟨hc, hsh⟩ := isPlain_iff.mp hplain
      rcases h with (⟨-, h⟩ | ⟨hc', -⟩) | ⟨d, hd, hd'⟩
      · exact h
      · exact absurd hc' hc
      · rw [getDefiningOp_of_mem_results ha hva] at hd
        cases hd
        exact absurd hd' (by simp [hc, hsh])
    · rintro ⟨-, h⟩
      by_cases hplain : isPlain a
      · exact Or.inl (Or.inl ⟨hapre, h a ha hva hplain⟩)
      · refine Or.inr ⟨a, getDefiningOp_of_mem_results ha hva, ?_⟩
        by_contra hnot
        exact hplain (isPlain_iff.mpr ⟨fun h => hnot (Or.inr h), fun h => hnot (Or.inl h)⟩)

/-- **The operands of an operation without a trait are all accepted exactly when it is
const-eval.** -/
theorem accepted_all_iff (hops : f.ops = pre ++ op :: post) (hs : Inv f pre s)
    (hplain : isPlain op) : (∀ v ∈ op.operands, Accepted f s v) ↔ IsConstEval f op := by
  have hop : op ∈ f.ops := by rw [hops]; simp
  rw [isConstEval_iff]
  constructor
  · intro h
    refine ⟨hop, hplain, fun n hn => ?_, ?_⟩
    · exact ((accepted_iff hops hs hn).mp (h _ hn)).1 n rfl
    · rintro a ⟨ha, haplain, v, hv, hva⟩
      exact ((accepted_iff hops hs hv).mp (h v hv)).2 a ha hva haplain
  · rintro ⟨-, -, hargs, hreads⟩ v hv
    refine (accepted_iff hops hs hv).mpr ⟨?_, fun a ha hva haplain => ?_⟩
    · rintro n rfl
      exact hargs n hv
    · exact hreads a ⟨ha, haplain, v, hv, hva⟩

/-- The operation itself and the creation operations it is the first to read. -/
def New (f : Function) (s : ConstEvalAnalyze) (op a : Op) : Prop :=
  a = op ∨ a ∈ f.ops ∧ isCreationOp a ∧ op.Reads a ∧ s.opToSubgraphMap a.id = none

variable {deps : Dependencies}

section

variable (hops : f.ops = pre ++ op :: post) (hs : Inv f pre s)

include hops hs

/-- The subgraphs the dependencies name are those of the operations that are read. -/
theorem mem_dependentSubgraphIds (hdeps : Records f s ⟨∅, [], []⟩ op.operands deps) (i : ℕ) :
    i ∈ deps.dependentSubgraphIds ↔ ∃ a ∈ f.ops, op.Reads a ∧ s.opToSubgraphMap a.id = some i := by
  rw [hdeps.dependentSubgraphIds]
  constructor
  · rintro (h | ⟨v, hv, hi⟩)
    · cases h
    · rcases operand_cases hops hv with ⟨n, rfl⟩ | ⟨a, ha, hva⟩
      · rw [hs.value_arg] at hi
        cases hi
      · have ha' : a ∈ f.ops := hops ▸ List.mem_append_left _ ha
        exact ⟨a, ha', ⟨v, hv, hva⟩, (hs.value_eq a ha' v hva) ▸ hi⟩
  · rintro ⟨a, ha, ⟨v, hv, hva⟩, hi⟩
    exact Or.inr ⟨v, hv, (hs.value_eq a ha v hva).trans hi⟩

/-- The creation operations the dependencies name are the new ones. -/
theorem mem_creationOps (hdeps : Records f s ⟨∅, [], []⟩ op.operands deps) (c : Op) :
    c ∈ deps.creationOps ↔
      c ∈ f.ops ∧ isCreationOp c ∧ op.Reads c ∧ s.opToSubgraphMap c.id = none := by
  rw [hdeps.creationOps]
  constructor
  · rintro (h | ⟨v, hv, hnone, hdef, hc⟩)
    · cases h
    · rcases operand_cases hops hv with ⟨n, rfl⟩ | ⟨a, ha, hva⟩
      · cases hdef
      · have ha' : a ∈ f.ops := hops ▸ List.mem_append_left _ ha
        rw [getDefiningOp_of_mem_results ha' hva] at hdef
        cases hdef
        exact ⟨ha', hc, ⟨v, hv, hva⟩, (hs.value_eq _ ha' v hva) ▸ hnone⟩
  · rintro ⟨ha, hc, ⟨v, hv, hva⟩, hnone⟩
    exact Or.inr ⟨v, hv, (hs.value_eq c ha v hva).trans hnone,
      getDefiningOp_of_mem_results ha hva, hc⟩

/-- An operation that is read by `op` is collected already, or is new. -/
theorem memberIn_or_new (hop : IsConstEval f op) (ha : a ∈ f.ops) (hshared : ¬ isSharedOp a)
    (hreads : op.Reads a) : MemberIn f pre a ∨ New f s op a := by
  by_cases hc : isCreationOp a
  · cases hmap : s.opToSubgraphMap a.id with
    | none => exact Or.inr (Or.inr ⟨ha, hc, hreads, hmap⟩)
    | some i => exact Or.inl ((hs.isSome_iff a ha).mp ⟨i, hmap⟩)
  · obtain ⟨v, hv, hva⟩ := hreads
    rcases operand_cases hops hv with ⟨n, rfl⟩ | ⟨b, hb, hvb⟩
    · simp at hva
    · have hb' : b ∈ f.ops := hops ▸ List.mem_append_left _ hb
      obtain rfl := eq_of_mem_results ha hb' hva hvb
      have hce := ((isConstEval_iff f op).mp hop).2.2.2 a
        ⟨ha, isPlain_iff.mpr ⟨hc, hshared⟩, v, hv, hva⟩
      exact Or.inl (Or.inl ⟨hb, hce⟩)

theorem New.opToSubgraphMap_eq
    (hop : IsConstEval f op) (h : New f s op a) : s.opToSubgraphMap a.id = none := by
  rcases h with rfl | ⟨-, -, -, hnone⟩
  · cases hmap : s.opToSubgraphMap a.id with
    | none => rfl
    | some i =>
      rcases (hs.isSome_iff a hop.mem).mp ⟨i, hmap⟩ with ⟨hmem, -⟩ | ⟨hc, -⟩
      · exact absurd hmem (not_mem_pre hops)
      · exact absurd hc hop.not_isCreationOp
  · exact hnone

/-- New operations have no link yet. -/
theorem New.isolated (hop : IsConstEval f op) (h : New f s op a) (z : Op) :
    ¬ LinkedIn f pre a z ∧ ¬ LinkedIn f pre z a := by
  have hnone := h.opToSubgraphMap_eq hops hs hop
  constructor
  · rintro ⟨hz, hlinked⟩
    rcases h with rfl | ⟨ha, hc, -, -⟩
    · exact not_reads_of_mem_prefix hops hz hlinked.2.2.2
    · obtain ⟨i, hi⟩ := (hs.isSome_iff a ha).mpr (Or.inr ⟨hc, z, hz, hlinked⟩)
      rw [hnone] at hi
      cases hi
  · rintro ⟨ha, hlinked⟩
    rcases h with rfl | ⟨-, hc, -, -⟩
    · exact not_mem_pre hops ha
    · exact hlinked.1.not_isCreationOp hc

end

/-- The operations that `op` reads and that are not shared: the ends of its star of links. -/
def StarEnd (f : Function) (op a : Op) : Prop := a ∈ f.ops ∧ ¬ isSharedOp a ∧ op.Reads a

theorem linkedIn_append (hop : IsConstEval f op) (a b : Op) :
    LinkedIn f (pre ++ [op]) a b ↔ LinkedIn f pre a b ∨ b = op ∧ StarEnd f op a := by
  simp only [LinkedIn, List.mem_append, List.mem_singleton]
  constructor
  · rintro ⟨hb | rfl, hlinked⟩
    · exact Or.inl ⟨hb, hlinked⟩
    · exact Or.inr ⟨rfl, hlinked.2⟩
  · rintro (⟨hb, hlinked⟩ | ⟨rfl, hend⟩)
    · exact ⟨Or.inl hb, hlinked⟩
    · exact ⟨Or.inr rfl, hop, hend⟩

variable {ids : List ℕ}

/-- A collected operation is connected to the star of `op` exactly when its subgraph is in a
class of the dependent subgraphs. -/
theorem nearStar_iff (hops : f.ops = pre ++ op :: post) (hs : Inv f pre s) (hop : IsConstEval f op)
    (hids : ∀ i, i ∈ ids ↔ ∃ a ∈ f.ops, op.Reads a ∧ s.opToSubgraphMap a.id = some i)
    (ha : a ∈ f.ops) {i : ℕ} (hi : s.opToSubgraphMap a.id = some i) :
    NearStar (LinkedIn f pre) op (StarEnd f op) a ↔ s.sets.Touches ids i := by
  have hnotnew : ¬ New f s op a := fun h => by
    rw [h.opToSubgraphMap_eq hops hs hop] at hi
    cases hi
  constructor
  · rintro (h | ⟨y, ⟨hy, hshared, hreads⟩, hay⟩)
    · have hiso : New f s op op := Or.inl rfl
      have heq := eq_of_eqvGen_isolated (hiso.isolated hops hs hop) (h.symm _ _)
      exact absurd (Or.inl heq.symm) hnotnew
    · rcases memberIn_or_new hops hs hop hy hshared hreads with hmem | hnew
      · obtain ⟨j, hj⟩ := (hs.isSome_iff y hy).mpr hmem
        exact ⟨j, (hids j).mpr ⟨y, hy, hreads, hj⟩, (hs.equiv_iff a ha y hy i j hi hj).mpr hay⟩
      · have heq := eq_of_eqvGen_isolated (hnew.isolated hops hs hop) (hay.symm _ _)
        exact absurd (heq ▸ hnew) hnotnew
  · rintro ⟨j, hj, hij⟩
    obtain ⟨y, hy, hreads, hyj⟩ := (hids j).mp hj
    have hmem := memberIn_mem ((hs.isSome_iff y hy).mp ⟨j, hyj⟩)
    exact Or.inr ⟨y, ⟨hy, hmem.not_isSharedOp, hreads⟩, (hs.equiv_iff a ha y hy i j hi hyj).mp hij⟩

theorem New.nearStar (h : New f s op a) : NearStar (LinkedIn f pre) op (StarEnd f op) a := by
  rcases h with rfl | ⟨ha, hc, hreads, -⟩
  · exact Or.inl (.refl _)
  · exact Or.inr ⟨a, ⟨ha, fun hsh => not_isCreationOp_of_isSharedOp hsh hc, hreads⟩, .refl _⟩

/-- What is collected after a const-eval operation. -/
theorem memberIn_append (hops : f.ops = pre ++ op :: post) (hs : Inv f pre s)
    (hop : IsConstEval f op) (ha : a ∈ f.ops) :
    MemberIn f (pre ++ [op]) a ↔ MemberIn f pre a ∨ New f s op a := by
  constructor
  · rintro (⟨hmem, hce⟩ | ⟨hc, b, hlinked⟩)
    · rcases List.mem_append.mp hmem with hmem | hmem
      · exact Or.inl (Or.inl ⟨hmem, hce⟩)
      · exact Or.inr (Or.inl (List.mem_singleton.mp hmem))
    · rcases (linkedIn_append hop a b).mp hlinked with h | ⟨-, hend⟩
      · exact Or.inl (Or.inr ⟨hc, b, h⟩)
      · exact memberIn_or_new hops hs hop ha hend.2.1 hend.2.2
  · rintro ((⟨hmem, hce⟩ | ⟨hc, b, hlinked⟩) | rfl | ⟨-, hc, hreads, -⟩)
    · exact Or.inl ⟨List.mem_append_left _ hmem, hce⟩
    · exact Or.inr ⟨hc, b, (linkedIn_append hop a b).mpr (Or.inl hlinked)⟩
    · exact Or.inl ⟨by simp, hop⟩
    · refine Or.inr ⟨hc, op, (linkedIn_append hop a op).mpr (Or.inr ⟨rfl, ha, ?_, hreads⟩)⟩
      exact fun hsh => not_isCreationOp_of_isSharedOp hsh hc

@[simp] theorem assign_opToSubgraphMap (target : ℕ) (s : ConstEvalAnalyze) (a : Op) :
    (s.assign target a).opToSubgraphMap =
      Function.update s.opToSubgraphMap a.id (some target) := rfl

@[simp] theorem assign_valueToSubgraphMap (target : ℕ) (s : ConstEvalAnalyze) (a : Op)
    (v : Value) : (s.assign target a).valueToSubgraphMap v =
      if v ∈ a.results then some target else s.valueToSubgraphMap v := rfl

theorem foldl_assign (target : ℕ) (l : List Op) (s : ConstEvalAnalyze) :
    (l.foldl (ConstEvalAnalyze.assign target) s).sets = s.sets ∧
      (l.foldl (ConstEvalAnalyze.assign target) s).subgraphParams = s.subgraphParams ∧
      (l.foldl (ConstEvalAnalyze.assign target) s).sharedOps = s.sharedOps := by
  induction l generalizing s with
  | nil => exact ⟨rfl, rfl, rfl⟩
  | cons a l ih => exact ih (s.assign target a)

theorem foldl_assign_opToSubgraphMap (target : ℕ) (l : List Op) (s : ConstEvalAnalyze)
    (id : ℕ) : (l.foldl (ConstEvalAnalyze.assign target) s).opToSubgraphMap id =
      if id ∈ l.map Operation.id then some target else s.opToSubgraphMap id := by
  induction l generalizing s with
  | nil => rfl
  | cons a l ih =>
    rw [List.foldl_cons, ih, List.map_cons, assign_opToSubgraphMap]
    by_cases hl : id ∈ l.map Operation.id
    · rw [if_pos hl, if_pos (List.mem_cons_of_mem _ hl)]
    · rw [if_neg hl]
      by_cases hid : id = a.id
      · rw [hid, Function.update_self, if_pos (by simp)]
      · rw [Function.update_of_ne hid, if_neg fun h => (List.mem_cons.mp h).elim hid hl]

theorem foldl_assign_valueToSubgraphMap (target : ℕ) (l : List Op) (s : ConstEvalAnalyze)
    (v : Value) : (l.foldl (ConstEvalAnalyze.assign target) s).valueToSubgraphMap v =
      if v ∈ l.flatMap Operation.results then some target else s.valueToSubgraphMap v := by
  induction l generalizing s with
  | nil => rfl
  | cons a l ih =>
    rw [List.foldl_cons, ih, List.flatMap_cons, assign_valueToSubgraphMap]
    by_cases hl : v ∈ l.flatMap Operation.results
    · rw [if_pos hl, if_pos (List.mem_append_right _ hl)]
    · rw [if_neg hl]
      by_cases hv : v ∈ a.results
      · rw [if_pos hv, if_pos (List.mem_append_left _ hv)]
      · rw [if_neg hv, if_neg fun h => (List.mem_append.mp h).elim hv hl]

/-- `s'` is `s` after the const-eval operation `op` is collected into the subgraph `target`,
where `ids` are the subgraphs it depends on. -/
structure Collects (f : Function) (s : ConstEvalAnalyze) (op : Op) (s' : ConstEvalAnalyze)
    (target : ℕ) (ids : List ℕ) : Prop where
  mem_ids : ∀ i, i ∈ ids ↔ ∃ a ∈ f.ops, op.Reads a ∧ s.opToSubgraphMap a.id = some i
  size_le : s.sets.size ≤ s'.sets.size
  target_lt : target < s'.sets.size
  equiv_iff : ∀ a b, s'.sets.Equiv a b ↔
    s.sets.Equiv a b ∨ s.sets.Touches ids a ∧ s.sets.Touches ids b
  target_equiv : ∀ b < s.sets.size, s'.sets.Equiv target b ↔ s.sets.Touches ids b
  map_new : ∀ a ∈ f.ops, New f s op a → s'.opToSubgraphMap a.id = some target
  map_old : ∀ a ∈ f.ops, ¬ New f s op a → s'.opToSubgraphMap a.id = s.opToSubgraphMap a.id
  value_arg : ∀ n, s'.valueToSubgraphMap (.blockArg n) = none
  value_eq : ∀ a ∈ f.ops, ∀ v ∈ a.results, s'.valueToSubgraphMap v = s'.opToSubgraphMap a.id
  params : ∀ i n, n ∈ s'.subgraphParams i ↔
    n ∈ s.subgraphParams i ∨ i = target ∧ Value.blockArg n ∈ op.operands
  sharedOps : s'.sharedOps = s.sharedOps

/-- **What `addToSubgraph` does.** -/
theorem collects_addToSubgraph (ord : IterationOrder) (hops : f.ops = pre ++ op :: post)
    (hs : Inv f pre s) (hop : IsConstEval f op) (hdeps : Records f s ⟨∅, [], []⟩ op.operands deps) :
    ∃ target ids, Collects f s op (addToSubgraph ord s op deps) target ids := by
  set ids := ord.smallSet deps.dependentSubgraphIds with hids
  have hmem_ids : ∀ i, i ∈ ids ↔ ∃ a ∈ f.ops, op.Reads a ∧ s.opToSubgraphMap a.id = some i := by
    intro i
    rw [hids, (ord.smallSet_perm _).mem_iff, mem_dependentSubgraphIds hops hs hdeps]
  obtain ⟨hsize, htarget, hequiv, hclass⟩ := (@targetSubgraph_spec s.sets ids) (by
    intro i hi
    obtain ⟨a, ha, -, hai⟩ := (hmem_ids i).mp hi
    exact hs.lt_size a ha i hai)
  set sets := (targetSubgraph s.sets ids).1 with hsets
  set target := (targetSubgraph s.sets ids).2 with htarget'
  set new := op :: deps.creationOps with hnew
  set s' := new.foldl (ConstEvalAnalyze.assign target) { s with sets := sets } with hs'
  obtain ⟨h_sets, h_params, h_shared⟩ := foldl_assign target new { s with sets := sets }
  have hmem_new : ∀ a, a ∈ new ↔ New f s op a := by
    intro a
    rw [hnew, List.mem_cons, mem_creationOps hops hs hdeps]
    rfl
  have hid_new : ∀ a ∈ f.ops, a.id ∈ new.map Operation.id ↔ New f s op a := by
    intro a ha
    rw [List.mem_map]
    constructor
    · rintro ⟨b, hb, hid⟩
      have hb' := (hmem_new b).mp hb
      have hbmem : b ∈ f.ops := by
        rcases hb' with rfl | h
        · exact hop.mem
        · exact h.1
      exact eq_of_id_eq f.nodup hbmem ha hid ▸ hb'
    · exact fun h => ⟨a, (hmem_new a).mpr h, rfl⟩
  have hres_new : ∀ a ∈ f.ops, ∀ v ∈ a.results,
      v ∈ new.flatMap Operation.results ↔ New f s op a := by
    intro a ha v hv
    rw [List.mem_flatMap]
    constructor
    · rintro ⟨b, hb, hvb⟩
      rw [← hid_new a ha]
      exact List.mem_map.mpr ⟨b, hb, (Operation.id_eq_of_mem_results hvb hv)⟩
    · exact fun h => ⟨a, (hmem_new a).mpr h, hv⟩
  -- what is recorded comes from the operation and its creation operations alone
  have hadd : addToSubgraph ord s op deps =
      { s' with
        subgraphParams :=
          Function.update s'.subgraphParams target (s'.subgraphParams target ∪ deps.inputParams) } :=
    rfl
  rw [hadd]
  refine ⟨target, ids, hmem_ids, h_sets ▸ hsize, h_sets ▸ htarget, ?_, ?_, ?_, ?_, ?_, ?_, ?_,
    h_shared⟩
  · exact h_sets ▸ hequiv
  · exact h_sets ▸ hclass
  · intro a ha h
    exact (foldl_assign_opToSubgraphMap ..).trans (if_pos ((hid_new a ha).mpr h))
  · intro a ha h
    exact (foldl_assign_opToSubgraphMap ..).trans (if_neg fun hid => h ((hid_new a ha).mp hid))
  · intro n
    refine (foldl_assign_valueToSubgraphMap ..).trans ?_
    rw [if_neg (by simp)]
    exact hs.value_arg n
  · intro a ha v hv
    refine (foldl_assign_valueToSubgraphMap ..).trans (Eq.trans ?_
      (foldl_assign_opToSubgraphMap ..).symm)
    show (if _ then _ else s.valueToSubgraphMap v) = _
    rw [hs.value_eq a ha v hv]
    by_cases h : New f s op a
    · rw [if_pos ((hres_new a ha v hv).mpr h), if_pos ((hid_new a ha).mpr h)]
    · rw [if_neg fun hmem => h ((hres_new a ha v hv).mp hmem),
        if_neg fun hmem => h ((hid_new a ha).mp hmem)]
  · intro i n
    show n ∈ Function.update s'.subgraphParams target _ i ↔ _
    rw [h_params]
    by_cases hi : i = target
    · rw [hi, Function.update_self, Finset.mem_union, hdeps.inputParams]
      simp
    · rw [Function.update_of_ne hi]
      simp [hi]

variable {s' : ConstEvalAnalyze}

theorem Collects.cases {target : ℕ} (h : Collects f s op s' target ids) (ha : a ∈ f.ops) {i : ℕ}
    (hi : s'.opToSubgraphMap a.id = some i) :
    New f s op a ∧ i = target ∨ ¬ New f s op a ∧ s.opToSubgraphMap a.id = some i := by
  by_cases hnew : New f s op a
  · rw [h.map_new a ha hnew] at hi
    exact Or.inl ⟨hnew, (Option.some.inj hi).symm⟩
  · rw [h.map_old a ha hnew] at hi
    exact Or.inr ⟨hnew, hi⟩

section

variable (hops : f.ops = pre ++ op :: post) (hs : Inv f pre s) (hop : IsConstEval f op)
  {target : ℕ} (h : Collects f s op s' target ids)

include hops hs hop h

/-- **The classes are the components after a const-eval operation.** -/
theorem Collects.equiv {a b : Op} (ha : a ∈ f.ops) (hb : b ∈ f.ops) {i j : ℕ}
    (hi : s'.opToSubgraphMap a.id = some i) (hj : s'.opToSubgraphMap b.id = some j) :
    s'.sets.Equiv i j ↔ Relation.EqvGen (LinkedIn f (pre ++ [op])) a b := by
  rw [eqvGen_star (linkedIn_append hop)]
  -- a new operation is connected to another one only through the star
  have hsplit : ∀ x y, New f s op x → ¬ New f s op y → ¬ Relation.EqvGen (LinkedIn f pre) x y := by
    intro x y hx hy hxy
    exact hy (eq_of_eqvGen_isolated (hx.isolated hops hs hop) hxy ▸ hx)
  rcases h.cases ha hi with ⟨hanew, rfl⟩ | ⟨haold, hai⟩
  · rcases h.cases hb hj with ⟨hbnew, rfl⟩ | ⟨hbold, hbj⟩
    · exact ⟨fun _ => Or.inr ⟨hanew.nearStar, hbnew.nearStar⟩, fun _ => rfl⟩
    · rw [h.target_equiv j (hs.lt_size b hb j hbj), ← nearStar_iff hops hs hop h.mem_ids hb hbj]
      constructor
      · exact fun hnear => Or.inr ⟨hanew.nearStar, hnear⟩
      · rintro (hab | ⟨-, hnear⟩)
        · exact absurd hab (hsplit a b hanew hbold)
        · exact hnear
  · rcases h.cases hb hj with ⟨hbnew, rfl⟩ | ⟨hbold, hbj⟩
    · have hsymm : s'.sets.Equiv i j ↔ s'.sets.Equiv j i := ⟨Eq.symm, Eq.symm⟩
      rw [hsymm, h.target_equiv i (hs.lt_size a ha i hai),
        ← nearStar_iff hops hs hop h.mem_ids ha hai]
      constructor
      · exact fun hnear => Or.inr ⟨hnear, hbnew.nearStar⟩
      · rintro (hab | ⟨hnear, -⟩)
        · exact absurd (hab.symm _ _) (hsplit b a hbnew haold)
        · exact hnear
    · rw [h.equiv_iff, hs.equiv_iff a ha b hb i j hai hbj,
        nearStar_iff hops hs hop h.mem_ids ha hai, nearStar_iff hops hs hop h.mem_ids hb hbj]

/-- **The invariant after a const-eval operation.** -/
theorem Collects.inv : Inv f (pre ++ [op]) s' where
  sharedOps := by
    have hnot : ¬ isSharedOp op := (isPlain_iff.mp hop.isPlain).2
    rw [h.sharedOps, hs.sharedOps, List.filter_append, List.filter_cons_of_neg hnot]
    simp
  value_arg := h.value_arg
  value_eq := h.value_eq
  isSome_iff a ha := by
    rw [memberIn_append hops hs hop ha, ← hs.isSome_iff a ha]
    by_cases hnew : New f s op a
    · exact ⟨fun _ => Or.inr hnew, fun _ => ⟨target, h.map_new a ha hnew⟩⟩
    · rw [h.map_old a ha hnew]
      exact ⟨Or.inl, fun hor => hor.resolve_right hnew⟩
  lt_size a ha i hi := by
    rcases h.cases ha hi with ⟨-, rfl⟩ | ⟨-, hai⟩
    · exact h.target_lt
    · exact (hs.lt_size a ha i hai).trans_le h.size_le
  equiv_iff a ha b hb i j hi hj := h.equiv hops hs hop ha hb hi hj
  params_mem b hb hce i hi n hn := by
    rw [h.params]
    rcases List.mem_append.mp hb with hpre | hlast
    · rcases h.cases hce.mem hi with ⟨hnew, -⟩ | ⟨-, hbi⟩
      · rcases hnew with rfl | ⟨-, hc, -⟩
        · exact absurd hpre (not_mem_pre hops)
        · exact absurd hc hce.not_isCreationOp
      · exact Or.inl (hs.params_mem b hpre hce i hbi n hn)
    · obtain rfl := List.mem_singleton.mp hlast
      rw [h.map_new b hce.mem (Or.inl rfl)] at hi
      exact Or.inr ⟨(Option.some.inj hi).symm, hn⟩
  params_of_mem i n hn := by
    rcases (h.params i n).mp hn with hn | ⟨rfl, hn⟩
    · obtain ⟨b, hb, hce, hbi, hbn⟩ := hs.params_of_mem i n hn
      refine ⟨b, List.mem_append_left _ hb, hce, ?_, hbn⟩
      rw [h.map_old b hce.mem ?_]
      · exact hbi
      · intro hnew
        rw [hnew.opToSubgraphMap_eq hops hs hop] at hbi
        cases hbi
    · exact ⟨op, by simp, hop, h.map_new op hop.mem (Or.inl rfl), hn⟩

end

end Step

/-! ## The whole function -/

/-- **One operation** keeps the invariant. -/
theorem inv_processOp (ord : IterationOrder) (hops : f.ops = pre ++ op :: post) (hs : Inv f pre s) :
    Inv f (pre ++ [op]) (processOp f ord s op) := by
  rw [processOp]
  by_cases hc : isCreationOp op
  · have hnot : ¬ isSharedOp op := fun hsh => not_isCreationOp_of_isSharedOp hsh hc
    rw [if_pos hc]
    refine hs.skip (fun hce => hce.not_isCreationOp hc) ?_
    rw [hs.sharedOps, List.filter_append, List.filter_cons_of_neg hnot]
    simp
  · rw [if_neg hc]
    by_cases hsh : isSharedOp op
    · rw [if_pos hsh]
      refine hs.skip (fun hce => (isPlain_iff.mp hce.isPlain).2 hsh) ?_
      rw [hs.sharedOps, List.filter_append, List.filter_cons_of_pos hsh]
      simp
    · rw [if_neg hsh]
      obtain ⟨hiff, hrec⟩ := foldlM_operandIsConstEval (f := f) hs.value_arg ⟨∅, [], []⟩ op.operands
      have hplain : isPlain op := isPlain_iff.mpr ⟨hc, hsh⟩
      rw [accepted_all_iff hops hs hplain] at hiff
      cases hdeps : op.operands.foldlM (operandIsConstEval f s) ⟨∅, [], []⟩ with
      | none =>
        refine hs.skip (fun hce => ?_) ?_
        · obtain ⟨deps, h⟩ := hiff.mpr hce
          rw [hdeps] at h
          cases h
        · rw [hs.sharedOps, List.filter_append, List.filter_cons_of_neg hsh]
          simp
      | some deps =>
        have hop := hiff.mp ⟨deps, hdeps⟩
        obtain ⟨target, ids, h⟩ := collects_addToSubgraph ord hops hs hop (hrec deps hdeps)
        exact h.inv hops hs hop

/-- **The analysis of a whole function**: the classes are the components. -/
theorem inv_buildConstEvalSubgraphs (f : Function) (ord : IterationOrder) :
    Inv f f.ops (buildConstEvalSubgraphs f ord) := by
  have key : ∀ post pre s, f.ops = pre ++ post → Inv f pre s →
      Inv f f.ops (post.foldl (processOp f ord) s) := by
    intro post
    induction post with
    | nil =>
      intro pre s hops hs
      rwa [hops, List.append_nil]
    | cons op post ih =>
      intro pre s hops hs
      exact ih (pre ++ [op]) _ (by simpa using hops) (inv_processOp ord hops hs)
  exact key f.ops [] _ rfl (inv_empty f)

/-! ## The subgraphs -/

section Results

variable (ord : IterationOrder)

theorem linkedIn_ops : LinkedIn f f.ops = Linked f := by
  funext a b
  simp only [LinkedIn, eq_iff_iff]
  exact ⟨And.right, fun h => ⟨h.1.mem, h⟩⟩

theorem memberIn_ops (a : Op) : MemberIn f f.ops a ↔ Member f a := by
  rw [MemberIn, linkedIn_ops]
  constructor
  · rintro (⟨-, h⟩ | h)
    · exact Or.inl h
    · exact Or.inr h
  · rintro (h | h)
    · exact Or.inl ⟨h.mem, h⟩
    · exact Or.inr h

theorem rootOf_eq_some {s : ConstEvalAnalyze} {a : Op} {r : ℕ} :
    s.rootOf a = some r ↔ ∃ i, s.opToSubgraphMap a.id = some i ∧ s.sets.rootD i = r := by
  simp [ConstEvalAnalyze.rootOf, (UnionFind.findD_spec s.sets _).2.1]

theorem exists_rootOf_iff {a : Op} (ha : a ∈ f.ops) :
    (∃ r, (buildConstEvalSubgraphs f ord).rootOf a = some r) ↔ Member f a := by
  have hs := inv_buildConstEvalSubgraphs f ord
  rw [← memberIn_ops, ← hs.isSome_iff a ha]
  simp only [rootOf_eq_some]
  constructor
  · rintro ⟨r, i, hi, -⟩
    exact ⟨i, hi⟩
  · rintro ⟨i, hi⟩
    exact ⟨_, i, hi, rfl⟩

/-- Operations have one root when they are in one component. -/
theorem rootOf_eq_iff {a b : Op} (ha : a ∈ f.ops) (hb : b ∈ f.ops) {r : ℕ}
    (hr : (buildConstEvalSubgraphs f ord).rootOf a = some r) :
    (buildConstEvalSubgraphs f ord).rootOf b = some r ↔ Member f b ∧ SameComponent f a b := by
  have hs := inv_buildConstEvalSubgraphs f ord
  obtain ⟨i, hi, hir⟩ := rootOf_eq_some.mp hr
  rw [SameComponent, ← linkedIn_ops, ← exists_rootOf_iff ord hb]
  constructor
  · intro h
    obtain ⟨j, hj, hjr⟩ := rootOf_eq_some.mp h
    exact ⟨⟨r, h⟩, (hs.equiv_iff a ha b hb i j hi hj).mp (hir.trans hjr.symm)⟩
  · rintro ⟨⟨r', hr'⟩, hab⟩
    obtain ⟨j, hj, -⟩ := rootOf_eq_some.mp hr'
    have hij : _ = _ := (hs.equiv_iff a ha b hb i j hi hj).mpr hab
    exact rootOf_eq_some.mpr ⟨j, hj, hij.symm.trans hir⟩

theorem mem_foldl_union {g : ℕ → Finset ℕ} {n : ℕ} (l : List ℕ) (acc : Finset ℕ) :
    n ∈ l.foldl (fun params i => params ∪ g i) acc ↔ n ∈ acc ∨ ∃ i ∈ l, n ∈ g i := by
  induction l generalizing acc with
  | nil => simp
  | cons i l ih =>
    rw [List.foldl_cons, ih, Finset.mem_union, or_assoc]
    simp

/-- **The subgraph of a root is the component of its operations.** -/
theorem describes_subgraph {a : Op} (ha : a ∈ f.ops) {r : ℕ}
    (hr : (buildConstEvalSubgraphs f ord).rootOf a = some r) :
    Describes f a ((buildConstEvalSubgraphs f ord).subgraph f.ops r) := by
  have hs := inv_buildConstEvalSubgraphs f ord
  set s := buildConstEvalSubgraphs f ord with hs'
  have hmem : ∀ b ∈ f.ops, b.id ∈ (s.subgraph f.ops r).ops ↔ s.rootOf b = some r := by
    intro b hb
    simp only [ConstEvalAnalyze.subgraph, List.mem_map, List.mem_filter, decide_eq_true_eq]
    constructor
    · rintro ⟨c, ⟨hc, hroot⟩, hid⟩
      exact eq_of_id_eq f.nodup hc hb hid ▸ hroot
    · exact fun h => ⟨b, ⟨hb, h⟩, rfl⟩
  refine ⟨?_, fun b hb => ?_, fun n => ?_⟩
  · have hfilter : f.ops.filter (·.id ∈ (s.subgraph f.ops r).ops) =
        f.ops.filter (s.rootOf · = some r) :=
      List.filter_congr fun b hb => by rw [decide_eq_decide]; exact hmem b hb
    rw [hfilter]
    rfl
  · rw [hmem b hb, hs']
    exact rootOf_eq_iff ord ha hb hr
  · show n ∈ List.foldl _ _ _ ↔ _
    rw [mem_foldl_union]
    simp only [Finset.notMem_empty, false_or, List.mem_filterMap, List.mem_filter,
      decide_eq_true_eq]
    constructor
    · rintro ⟨i, ⟨c, ⟨-, hcr⟩, hci⟩, hn⟩
      obtain ⟨b, hb, hce, hbi, hbn⟩ := hs.params_of_mem i n hn
      obtain ⟨j, hj, hjr⟩ := rootOf_eq_some.mp hcr
      rw [hci] at hj
      obtain rfl := Option.some.inj hj
      have hbr : s.rootOf b = some r := rootOf_eq_some.mpr ⟨i, hbi, hjr⟩
      exact ⟨b, hce, ((rootOf_eq_iff ord ha hb hr).mp hbr).2, hbn⟩
    · rintro ⟨b, hce, hab, hbn⟩
      have hbr := (rootOf_eq_iff ord ha hce.mem hr).mpr ⟨Or.inl hce, hab⟩
      obtain ⟨i, hi, -⟩ := rootOf_eq_some.mp hbr
      exact ⟨i, ⟨b, ⟨hce.mem, hbr⟩, hi⟩, hs.params_mem b hce.mem hce i hi n hbn⟩

theorem mem_roots {s : ConstEvalAnalyze} {r : ℕ} :
    r ∈ ord.denseMap (f.ops.filterMap s.rootOf).dedup ↔ ∃ a ∈ f.ops, s.rootOf a = some r := by
  rw [(ord.denseMap_perm _).mem_iff, List.mem_dedup, List.mem_filterMap]

/-- **Every subgraph is the component of an operation.** -/
theorem describes_of_mem {sg : ConstEvalSubgraph}
    (hsg : sg ∈ (getAnalysisResults f ord).subgraphs) :
    ∃ a, Member f a ∧ a.id ∈ sg.ops ∧ Describes f a sg := by
  obtain ⟨r, hr, rfl⟩ := List.mem_map.mp hsg
  obtain ⟨a, ha, har⟩ := (mem_roots ord).mp hr
  have hdesc := describes_subgraph ord ha har
  have hmember := (exists_rootOf_iff ord ha).mp ⟨r, har⟩
  exact ⟨a, hmember, (hdesc.mem_ops a ha).mpr ⟨hmember, .refl a⟩, hdesc⟩

/-- **Every operation to collect is in a subgraph.** -/
theorem exists_mem_subgraphs {a : Op} (ha : Member f a) :
    ∃ sg ∈ (getAnalysisResults f ord).subgraphs, a.id ∈ sg.ops ∧ Describes f a sg := by
  obtain ⟨r, har⟩ := (exists_rootOf_iff ord ha.mem).mpr ha
  have hdesc := describes_subgraph ord ha.mem har
  exact ⟨_, List.mem_map.mpr ⟨r, (mem_roots ord).mpr ⟨a, ha.mem, har⟩, rfl⟩,
    (hdesc.mem_ops a ha.mem).mpr ⟨ha, .refl a⟩, hdesc⟩

/-- **Different subgraphs share no operation.** -/
theorem disjoint_subgraphs :
    (getAnalysisResults f ord).subgraphs.Pairwise fun sg sg' => sg.ops.Disjoint sg'.ops := by
  have hnodup : (ord.denseMap (f.ops.filterMap (buildConstEvalSubgraphs f ord).rootOf).dedup).Nodup :=
    (ord.denseMap_perm _).nodup_iff.mpr (List.nodup_dedup _)
  refine List.Pairwise.map _ (fun r r' hne => ?_) hnodup
  intro id hid hid'
  simp only [ConstEvalAnalyze.subgraph, List.mem_map, List.mem_filter, decide_eq_true_eq]
    at hid hid'
  obtain ⟨a, ⟨ha, har⟩, rfl⟩ := hid
  obtain ⟨b, ⟨hb, hbr⟩, hba⟩ := hid'
  obtain rfl := eq_of_id_eq f.nodup hb ha hba
  rw [har] at hbr
  exact hne (Option.some.inj hbr)

theorem sharedOps_eq : (getAnalysisResults f ord).sharedOps =
    (f.ops.filter isSharedOp).map Operation.id :=
  (inv_buildConstEvalSubgraphs f ord).sharedOps

end Results

end ConstEval
