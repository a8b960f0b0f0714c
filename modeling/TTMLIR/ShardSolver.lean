/-
# The shard solver

`ShardSolver.cpp` keeps a bitset of configurations for every operation of a shard chain, and for
every edge between them the paths, the pairs of configurations that fit together.

* `update`, `updateSolver`, `resolve`, `set` : the translated functions;
* `updateLoop_spec` : the worklist, for edges that are settled or wait on it;
* `resolve_spec` : resolving finds the largest supported bitsets, or that some are empty;
* `selected_compatible` : selected configurations fit together, in any order of selections.

The paths that `update` drops would not be counted again either way, as bitsets only shrink.
-/
import Mathlib.Algebra.Order.BigOperators.Group.Finset
import TTMLIR.ArcConsistency

namespace ShardSolver

open ArcConsistency

/-- `std::bitset<64>`. -/
abbrev Bitset := Finset (Fin 64)

structure Edge (Op : Type) : Type where
  producerOp : Op
  consumerOp : Op
  operandIndex : ℕ
  deriving DecidableEq

/-- The other end of an edge at an operation. -/
def Edge.otherOp {Op : Type} [DecidableEq Op] (op : Op) (e : Edge Op) : Op :=
  if e.consumerOp = op then e.producerOp else e.consumerOp

/-- What the solver reads: the operations that define operands, the users, the operations of the
chain, and the paths of edges. -/
structure Chain (Op : Type) : Type where
  operands : Op → List (Option Op)
  users : Op → List Op
  isDestinationStyle : Op → Bool
  shardSpecs : List Op
  paths : Edge Op → Finset (Fin 64 × Fin 64)

/-- The bitsets, and the selected configurations by their indices. -/
structure State (Op : Type) : Type where
  bitsets : Op → Bitset
  selected : Op → Option (Fin 64)

variable {Op : Type} [DecidableEq Op]

namespace Chain

variable (c : Chain Op) (bitsets : Op → Bitset) (e : Edge Op)

/-- The edges of the constructor. -/
def edges : List (Edge Op) :=
  c.shardSpecs.flatMap fun op => (c.operands op).zipIdx.filterMap fun operand =>
    operand.1.bind fun producer =>
      if producer ∈ c.shardSpecs then some ⟨producer, op, operand.2⟩ else none

/-- `getOperandPathSetsPts` and `getUserPathSetsPts`. -/
def pathSets (op : Op) : List (Edge Op) :=
  c.edges.filter (·.consumerOp = op) ++ c.edges.filter (·.producerOp = op)

def Supported : Prop :=
  ArcConsistency.Supported (c.paths e) (bitsets e.producerOp) (bitsets e.consumerOp)

instance : Decidable (c.Supported bitsets e) := inferInstanceAs (Decidable (_ ∧ _))

/-- `PathSet::update`: whether the bitsets change, and the bitsets. -/
def update : Bool × (Op → Bitset) :=
  if c.Supported bitsets e then (false, bitsets)
  else (true, revise (c.paths e) e.producerOp e.consumerOp bitsets)

/-- `PathSet::empty`. -/
def Empty : Prop :=
  prune (c.paths e) (bitsets e.producerOp) (bitsets e.consumerOp) = ∅ ∨
    bitsets e.producerOp = ∅ ∨ bitsets e.consumerOp = ∅

instance : Decidable (c.Empty bitsets e) := inferInstanceAs (Decidable (_ ∨ _ ∨ _))

/-- The updates at an operation, with the other ends of what changed. -/
def visit (op : Op) : List (Edge Op) → (Op → Bitset) → Option ((Op → Bitset) × List Op)
  | [], bitsets => some (bitsets, [])
  | e :: pathSets, bitsets =>
    if c.Empty (c.update bitsets e).2 e then none
    else (visit op pathSets (c.update bitsets e).2).map fun rest =>
      (rest.1, if (c.update bitsets e).1 then e.otherOp op :: rest.2 else rest.2)

def addOperandsAndUsers (op : Op) (ignoreOp : Option Op) : List Op :=
  ((c.operands op).filterMap id).filter (fun producer => c.isDestinationStyle producer ∧
      some producer ≠ ignoreOp ∧ producer ∈ c.shardSpecs) ++
    (c.users op).filter fun user => some user ≠ ignoreOp ∧ user ∈ c.shardSpecs

end Chain

variable {c : Chain Op} {D D' D'' T : Op → Bitset} {e : Edge Op} {op : Op}

theorem consumerOp_mem (he : e ∈ c.edges) : e.consumerOp ∈ c.shardSpecs := by
  obtain ⟨op, hop, he⟩ := List.mem_flatMap.mp he
  obtain ⟨operand, -, he⟩ := List.mem_filterMap.mp he
  obtain ⟨producer, -, he⟩ := Option.bind_eq_some_iff.mp he
  split_ifs at he
  obtain rfl := Option.some.inj he
  exact hop

theorem mem_pathSets :
    e ∈ c.pathSets op ↔ e ∈ c.edges ∧ (e.consumerOp = op ∨ e.producerOp = op) := by
  simp [Chain.pathSets, ← and_or_left]

/-! ## Updates -/

/-- **What an update may do**: it loses no supported bitsets. -/
structure Shrinks (c : Chain Op) (D D' : Op → Bitset) : Prop where
  le : D' ≤ D
  keeps : ∀ T ≤ D, (∀ e ∈ c.edges, c.Supported T e) → T ≤ D'

theorem Shrinks.refl : Shrinks c D D := ⟨le_rfl, fun _ hT _ => hT⟩

theorem Shrinks.trans (h : Shrinks c D D') (h' : Shrinks c D' D'') : Shrinks c D D'' :=
  ⟨h'.le.trans h.le, fun T hT hT' => h'.keeps T (h.keeps T hT hT') hT'⟩

/-- An edge is supported, or its revision takes values away. -/
theorem update_cases : c.update D e = (false, D) ∧ c.Supported D e ∨
    c.update D e = (true, revise (c.paths e) e.producerOp e.consumerOp D) ∧
      (c.update D e).2 < D := by
  unfold Chain.update
  split_ifs with h
  · exact .inl ⟨rfl, h⟩
  · exact .inr ⟨rfl, lt_of_le_of_ne revise_le fun heq => h (supported_of_revise_eq heq)⟩

/-- An update only takes unsupported values away. -/
theorem shrinks_update (he : e ∈ c.edges) : Shrinks c D (c.update D e).2 := by
  obtain ⟨h, -⟩ | ⟨h, hlt⟩ := @update_cases _ _ c D e
  · exact h ▸ .refl
  · exact ⟨hlt.le, fun T hT hT' => h ▸ le_revise hT (hT' e he)⟩

theorem foldl_update {edges : List (Edge Op)} (hmem : ∀ e ∈ edges, e ∈ c.edges) :
    Shrinks c D (edges.foldl (fun D e => (c.update D e).2) D) := by
  induction edges generalizing D with
  | nil => exact .refl
  | cons e edges ih =>
    obtain ⟨he, hmem⟩ := List.forall_mem_cons.mp hmem
    exact (shrinks_update he).trans (ih hmem)

/-- Every configuration at the edge has a partner. -/
def Settled (c : Chain Op) (D : Op → Bitset) (e : Edge Op) : Prop :=
  c.Supported D e ∧ (D e.producerOp).Nonempty

/-- **What the updates at an operation do.** -/
structure Visited (c : Chain Op) (op : Op) (edges : List (Edge Op)) (D D' : Op → Bitset)
    (ops : List Op) : Prop extends Shrinks c D D' where
  frame : ∀ x, x = op ∨ x ∈ ops ∨ D' x = D x
  lt : ops ≠ [] → D' < D
  settled : ops = [] → D' = D ∧ ∀ e ∈ edges, Settled c D' e

theorem Visited.cons {edges : List (Edge Op)} {ops : List Op} (he : e ∈ c.pathSets op)
    (hempty : ¬c.Empty (c.update D e).2 e) (h : Visited c op edges (c.update D e).2 D' ops) :
    Visited c op (e :: edges) D D' (if (c.update D e).1 then e.otherOp op :: ops else ops) := by
  obtain ⟨hmem, hop⟩ := mem_pathSets.mp he
  have hshrinks := (shrinks_update hmem).trans h.toShrinks
  obtain ⟨hsame, hsupported⟩ | ⟨hchanged, hlt⟩ := @update_cases _ _ c D e
  · rw [hsame] at h hempty ⊢
    refine ⟨hshrinks, h.frame, h.lt, fun hops => ?_⟩
    obtain ⟨rfl, hsettled⟩ := h.settled hops
    refine ⟨rfl, List.forall_mem_cons.mpr ⟨⟨hsupported, ?_⟩, hsettled⟩⟩
    exact Finset.nonempty_iff_ne_empty.mpr fun h => hempty (.inr (.inl h))
  · rw [hchanged] at h hlt ⊢
    refine ⟨hshrinks, fun x => ?_, fun _ => h.le.trans_lt hlt, fun hops => by cases hops⟩
    simp only [if_pos, List.mem_cons]
    by_cases hend : x = e.producerOp ∨ x = e.consumerOp
    · have hother : x = op ∨ x = e.otherOp op := by grind [Edge.otherOp]
      tauto
    · have hsame : revise (c.paths e) e.producerOp e.consumerOp D x = D x :=
        revise_of_ne (not_or.mp hend).1 (not_or.mp hend).2
      exact (h.frame x).imp_right (.imp .inr (·.trans hsame))

/-- What running out of paths means. -/
def Stuck (c : Chain Op) (D : Op → Bitset) : Prop :=
  ∃ D', Shrinks c D D' ∧ ∃ e ∈ c.edges, c.Empty D' e

/-- Running out of paths later on is running out of them now. -/
theorem Stuck.trans (hs : Stuck c D') (h : Shrinks c D D') : Stuck c D :=
  hs.imp fun _ h' => ⟨h.trans h'.1, h'.2⟩

theorem visit_spec {edges : List (Edge Op)} (hmem : ∀ e ∈ edges, e ∈ c.pathSets op) :
    (c.visit op edges D = none → Stuck c D) ∧
      ∀ r, c.visit op edges D = some r → Visited c op edges D r.1 r.2 := by
  induction edges generalizing D with
  | nil =>
    refine ⟨(by cases ·), fun r h => ?_⟩
    obtain rfl := Option.some.inj h
    exact ⟨.refl, fun _ => .inr (.inr rfl), fun h => absurd rfl h, by simp⟩
  | cons e edges ih =>
    obtain ⟨he, hmem⟩ := List.forall_mem_cons.mp hmem
    have hshrinks := shrinks_update (D := D) (mem_pathSets.mp he).1
    rw [Chain.visit]
    by_cases hempty : c.Empty (c.update D e).2 e
    · rw [if_pos hempty]
      exact ⟨fun _ => ⟨_, hshrinks, e, (mem_pathSets.mp he).1, hempty⟩, fun r h => by cases h⟩
    rw [if_neg hempty]
    obtain ⟨hnone, hsome⟩ := @ih (c.update D e).2 hmem
    refine ⟨fun h => (hnone (Option.map_eq_none_iff.mp h)).trans hshrinks, fun r h => ?_⟩
    obtain ⟨rest, hrest, rfl⟩ := Option.map_eq_some_iff.mp h
    exact .cons he hempty (hsome rest hrest)

/-! ## The worklist -/

def weight [Fintype Op] (bitsets : Op → Bitset) : ℕ := ∑ op, (bitsets op).card

omit [DecidableEq Op] in
/-- Fewer values weigh less. -/
theorem weight_lt [Fintype Op] (h : D' < D) : weight D' < weight D := by
  obtain ⟨hle, op, hlt⟩ := Pi.lt_def.mp h
  exact Finset.sum_lt_sum (fun op _ => Finset.card_le_card (hle op))
    ⟨op, Finset.mem_univ op, Finset.card_lt_card hlt⟩

theorem visited {r : (Op → Bitset) × List Op} (h : c.visit op (c.pathSets op) D = some r) :
    Visited c op (c.pathSets op) D r.1 r.2 := (visit_spec fun _ he => he).2 r h

namespace Chain

variable (c)

/-- The loop of `updateSolver`: the last operation of `needsUpdate` comes first here. -/
def updateLoop [Fintype Op] (needsUpdate : List Op) (bitsets : Op → Bitset) :
    Option (Op → Bitset) :=
  match needsUpdate with
  | [] => some bitsets
  | op :: rest =>
    match _h : c.visit op (c.pathSets op) bitsets with
    | none => none
    | some r =>
      if _hr : r.2 = [] then updateLoop rest r.1
      else
        let added := r.2.flatMap fun other => other :: c.addOperandsAndUsers other op
        updateLoop (added.reverse ++ op :: rest) r.1
termination_by (weight bitsets, needsUpdate.length)
decreasing_by
  · rw [((visited _h).settled _hr).1]
    exact .right _ (Nat.lt_succ_self _)
  · exact .left _ _ (weight_lt ((visited _h).lt _hr))

variable [Fintype Op]

def updateSolver (root : Op) (expandRoot : Bool) (bitsets : Op → Bitset) : Option (Op → Bitset) :=
  if expandRoot then
    c.updateLoop ((c.addOperandsAndUsers root none).reverse ++ [root])
      ((c.pathSets root).foldl (fun bitsets e => (c.update bitsets e).2) bitsets)
  else c.updateLoop [root] bitsets

/-- The end of `resolveStep`. -/
def resolve (bitsets : Op → Bitset) : Option (Op → Bitset) :=
  c.shardSpecs.foldlM (fun bitsets op => c.updateSolver op false bitsets) bitsets

/-- `set`, with the index of the configuration. -/
def set (s : State Op) (op : Op) (selection : Fin 64) : Option (State Op) :=
  if s.selected op ≠ none ∨ selection ∉ s.bitsets op then none
  else (c.updateSolver op true (Function.update s.bitsets op {selection})).map fun bitsets =>
    ⟨bitsets, Function.update s.selected op selection⟩

/-- The states that a client reaches by selecting, in any order. -/
def Reachable (bitsets : Op → Bitset) : Type := {s : State Op // Relation.ReflTransGen
  (fun s s' => ∃ op selection, c.set s op selection = some s') ⟨bitsets, fun _ => none⟩ s}

end Chain

/-- What a worklist does: it runs out of paths, or settles all edges that are not pending. -/
def Outcome (c : Chain Op) (pending : Edge Op → Prop) (D : Op → Bitset) :
    Option (Op → Bitset) → Prop
  | none => Stuck c D
  | some D' => Shrinks c D D' ∧ ∀ e ∈ c.edges, Settled c D' e ∨ pending e

variable {pending : Edge Op → Prop} {r : Option (Op → Bitset)}

theorem Outcome.trans (h : Shrinks c D D') (hr : Outcome c pending D' r) :
    Outcome c pending D r := by
  cases r with
  | none => exact Stuck.trans hr h
  | some D'' => exact ⟨h.trans hr.1, hr.2⟩

/-- What everything is settled in is kept. -/
theorem Outcome.exists_some (h : Outcome c pending D r) (hT : T ≤ D)
    (hsettled : ∀ e ∈ c.edges, Settled c T e) : ∃ D', r = some D' ∧ T ≤ D' := by
  cases r with
  | none =>
    obtain ⟨D', h', e, he, hempty⟩ := h
    have hT' := h'.keeps T hT fun e he => (hsettled e he).1
    obtain ⟨a, ha⟩ := (hsettled e he).2
    obtain ⟨b, hb, hab⟩ := (hsettled e he).1.exists_snd ha
    simp only [Chain.Empty, Finset.eq_empty_iff_forall_notMem] at hempty
    obtain hempty | hempty | hempty := hempty
    · exact absurd (Finset.mem_filter.mpr ⟨hab, hT' _ ha, hT' _ hb⟩) (hempty _)
    · exact absurd (hT' _ ha) (hempty a)
    · exact absurd (hT' _ hb) (hempty b)
  | some D' => exact ⟨D', rfl, h.1.keeps T hT fun e he => (hsettled e he).1⟩

variable [Fintype Op]

/-- **The worklist.**  An edge is settled, pending, or has an end on the worklist. -/
theorem updateLoop_spec {needsUpdate : List Op} (h : ∀ e ∈ c.edges, Settled c D e ∨ pending e ∨
    e.producerOp ∈ needsUpdate ∨ e.consumerOp ∈ needsUpdate) :
    Outcome c pending D (c.updateLoop needsUpdate D) := by
  fun_induction c.updateLoop needsUpdate D with
  | case1 D => exact ⟨.refl, fun e he => (h e he).imp_right (by simpa using ·)⟩
  | case2 D op rest hvisit => exact (visit_spec fun _ he => he).1 hvisit
  | case3 D op rest r hvisit hr ih =>
    have hv := visited hvisit
    obtain ⟨heq, hsettled⟩ := hv.settled hr
    refine .trans hv.toShrinks (ih fun e he => ?_)
    have hop := fun h => hsettled e (mem_pathSets.mpr ⟨he, h⟩)
    have := h e he
    rw [heq] at hop ⊢
    simp only [List.mem_cons] at this
    tauto
  | case4 D op rest r hvisit hr added ih =>
    have hv := visited hvisit
    refine .trans hv.toShrinks (ih fun e he => ?_)
    -- what changed is on the worklist again
    have hstack : ∀ x, r.1 x = D x ∨ x ∈ added.reverse ++ op :: rest := by
      intro x
      obtain rfl | hx | hx := hv.frame x
      · simp
      · have hadded : x ∈ added := List.mem_flatMap.mpr ⟨x, hx, List.mem_cons_self⟩
        simp [hadded]
      · exact .inl hx
    obtain hproducer | hmem := hstack e.producerOp
    · obtain hconsumer | hmem := hstack e.consumerOp
      · refine (h e he).imp (fun h => ?_) (.imp_right (.imp (List.mem_append_right _)
          (List.mem_append_right _)))
        rwa [Settled, Chain.Supported, hproducer, hconsumer]
      · exact .inr (.inr (.inr hmem))
    · exact .inr (.inr (.inl hmem))

/-- The operations of the chain, one after the other. -/
theorem foldlM_updateSolver {ops : List Op}
    (h : ∀ e ∈ c.edges, Settled c D e ∨ pending e ∨ e.consumerOp ∈ ops) :
    Outcome c pending D (ops.foldlM (fun D op => c.updateSolver op false D) D) := by
  induction ops generalizing D with
  | nil => exact ⟨.refl, fun e he => (h e he).imp_right (by simpa using ·)⟩
  | cons op ops ih =>
    have hloop : Outcome c (fun e => pending e ∨ e.consumerOp ∈ ops) D (c.updateLoop [op] D) := by
      refine updateLoop_spec fun e he => (h e he).imp_right fun h => ?_
      simp only [List.mem_cons] at h ⊢
      tauto
    rw [List.foldlM_cons]
    show Outcome c pending D ((c.updateLoop [op] D).bind _)
    generalize c.updateLoop [op] D = r at hloop
    cases r with
    | none => exact hloop
    | some D' => exact .trans hloop.1 (ih hloop.2)

/-- **Resolving.**  It succeeds exactly when there are bitsets in which every configuration has
partners, and finds the largest ones. -/
theorem resolve_spec (c : Chain Op) (D : Op → Bitset) :
    ((c.resolve D).isSome ↔ ∃ T ≤ D, ∀ e ∈ c.edges, Settled c T e) ∧
      ∀ D', c.resolve D = some D' → (∀ e ∈ c.edges, Settled c D' e) ∧
        IsGreatest {T | T ≤ D ∧ ∀ e ∈ c.edges, c.Supported T e} D' := by
  have houtcome : Outcome c (fun _ => False) D (c.resolve D) :=
    foldlM_updateSolver fun e he => .inr (.inr (consumerOp_mem he))
  have hspec : ∀ D', c.resolve D = some D' → Shrinks c D D' ∧ ∀ e ∈ c.edges, Settled c D' e := by
    intro D' hD'
    rw [hD'] at houtcome
    exact ⟨houtcome.1, fun e he => (houtcome.2 e he).resolve_right id⟩
  refine ⟨⟨fun h => ?_, fun ⟨T, hT, hsettled⟩ => ?_⟩, fun D' hD' => ?_⟩
  · obtain ⟨D', hD'⟩ := Option.isSome_iff_exists.mp h
    exact ⟨D', (hspec D' hD').1.le, (hspec D' hD').2⟩
  · obtain ⟨D', hD', -⟩ := houtcome.exists_some hT hsettled
    exact hD' ▸ rfl
  · obtain ⟨hshrinks, hsettled⟩ := hspec D' hD'
    exact ⟨hsettled, ⟨hshrinks.le, fun e he => (hsettled e he).1⟩,
      fun T hT => hshrinks.keeps T hT.1 hT.2⟩

/-! ## Selecting -/

variable {s : State Op}

/-- **One selection** settles the edges at the operation. -/
theorem updateSolver_spec : Outcome c (fun e => ¬(e.producerOp = op ∨ e.consumerOp = op)) D
    (c.updateSolver op true D) := by
  rw [Chain.updateSolver, if_pos rfl]
  refine .trans (foldl_update fun e he => (mem_pathSets.mp he).1) (updateLoop_spec fun e _ => ?_)
  simp only [List.mem_append, List.mem_singleton]
  tauto

/-- What is selected fits together. -/
def Compatible (c : Chain Op) (s : State Op) : Prop := ∀ e ∈ c.edges, ∀ i j,
  s.selected e.producerOp = some i → s.selected e.consumerOp = some j → (i, j) ∈ c.paths e

/-- **Solutions.**  Selections in any order fit together. -/
theorem selected_compatible (s : c.Reachable D) : Compatible c s.1 := by
  obtain ⟨s, h⟩ := s
  suffices hinv : (∀ x i, s.selected x = some i → s.bitsets x ⊆ {i}) ∧ Compatible c s from hinv.2
  induction h with
  | refl => simp [Compatible]
  | @tail s s' _ hstep ih =>
    obtain ⟨op, selection, hset⟩ := hstep
    unfold Chain.set at hset
    split_ifs at hset
    obtain ⟨D, hD, rfl⟩ := Option.map_eq_some_iff.mp hset
    obtain ⟨hshrinks, hsettled⟩ : Outcome c _ _ (some D) := hD ▸ updateSolver_spec
    have hbitsets : ∀ x i, Function.update s.selected op selection x = some i → D x ⊆ {i} := by
      intro x i hx
      have hle := hshrinks.le x
      by_cases hop : x = op
      · rw [hop, Function.update_self] at hx hle
        exact hop ▸ Option.some.inj hx ▸ hle
      · rw [Function.update_of_ne hop] at hx hle
        exact hle.trans (ih.1 x i hx)
    refine ⟨hbitsets, fun e he i j hi hj => ?_⟩
    obtain ⟨hsupported, a, ha⟩ | hop := hsettled e he
    · -- the selected configurations are all that is left at a settled edge
      obtain ⟨b, hb, hab⟩ := hsupported.exists_snd ha
      obtain rfl := Finset.mem_singleton.mp (hbitsets _ i hi ha)
      obtain rfl := Finset.mem_singleton.mp (hbitsets _ j hj hb)
      exact hab
    · obtain ⟨hproducer, hconsumer⟩ := not_or.mp hop
      refine ih.2 e he i j ?_ ?_
      · rwa [← Function.update_of_ne hproducer (some selection) s.selected]
      · rwa [← Function.update_of_ne hconsumer (some selection) s.selected]

end ShardSolver
