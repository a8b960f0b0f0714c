/-
# Legal orders of a dependency graph

A dependency graph has finitely many nodes and a well-founded dependency relation.  A
legal order lists nodes so that each one comes after everything it depends on.

* `DepGraph.Legal` : legal orders, built by appending a ready node;
* `Legal.exists_ready` : a legal order that misses a node can be continued;
* `Legal.exists_complete` : and can be continued until it is complete;
* `Legal.filter` : the part of a legal order in a down-closed set is legal;
* `before_in_every_complete_iff` : the nodes that come before `b` in every complete legal
  order are exactly those `b` transitively depends on.
-/
import Mathlib

namespace TopologicalOrder

/-- Finitely many nodes with a well-founded dependency relation between them; `dep a b`
says that `b` depends on `a`. -/
structure DepGraph (α : Type) : Type where
  nodes : Finset α
  dep : α → α → Prop
  dep_mem : ∀ a b, dep a b → a ∈ nodes
  wf : WellFounded dep

namespace DepGraph

variable {α : Type} (G : DepGraph α)

/-- Legal orders: each node comes once, after everything it depends on. -/
inductive Legal : List α → Prop where
  | nil : Legal []
  | snoc {order : List α} {b : α} (h : Legal order) (hb : b ∈ G.nodes) (hnew : b ∉ order)
      (hready : ∀ a, G.dep a b → a ∈ order) : Legal (order ++ [b])

/-- A complete order lists every node. -/
def Complete (order : List α) : Prop := ∀ a ∈ G.nodes, a ∈ order

/-- `a` comes before `b` in an order. -/
def Before (order : List α) (a b : α) : Prop := ∃ pre, pre ++ [b] <+: order ∧ a ∈ pre

variable {G}

/-! ## What a legal order keeps -/

namespace Legal

variable {order : List α}

theorem nodup (h : G.Legal order) : order.Nodup := by
  induction h with
  | nil => exact List.nodup_nil
  | snoc _ _ hnew _ ih =>
    exact List.Nodup.append ih (List.nodup_singleton _) (by simpa using hnew)

theorem subset (h : G.Legal order) : ∀ a ∈ order, a ∈ G.nodes := by
  induction h with
  | nil => simp
  | snoc _ hb _ _ ih =>
    intro a ha
    rcases List.mem_append.mp ha with ha | ha
    · exact ih a ha
    · obtain rfl := List.mem_singleton.mp ha
      exact hb

theorem of_prefix {order pre : List α} (h : G.Legal order) (hpre : pre <+: order) :
    G.Legal pre := by
  induction h with
  | nil =>
    obtain rfl := List.prefix_nil.mp hpre
    exact Legal.nil
  | @snoc order b h hb hnew hready ih =>
    rcases List.prefix_concat_iff.mp hpre with rfl | hpre
    · exact Legal.snoc h hb hnew hready
    · exact ih hpre

theorem mem_of_dep (h : G.Legal order) {a b : α} (hb : b ∈ order)
    (hdep : G.dep a b) : a ∈ order := by
  induction h with
  | nil => simp at hb
  | snoc _ _ _ hready ih =>
    rcases List.mem_append.mp hb with hb | hb
    · exact List.mem_append_left _ (ih hb)
    · obtain rfl := List.mem_singleton.mp hb
      exact List.mem_append_left _ (hready a hdep)

theorem mem_of_transGen (h : G.Legal order) {a b : α} (hb : b ∈ order)
    (hdep : Relation.TransGen G.dep a b) : a ∈ order := by
  induction hdep with
  | single hdep => exact h.mem_of_dep hb hdep
  | tail _ hdep ih => exact ih (h.mem_of_dep hb hdep)

theorem ready_of_snoc {b : α} (h : G.Legal (order ++ [b])) {a : α}
    (hdep : G.dep a b) : a ∈ order := by
  generalize hl : order ++ [b] = l at h
  cases h with
  | nil => simp at hl
  | snoc _ _ _ hready =>
    obtain ⟨rfl, hb⟩ := List.append_inj' hl rfl
    obtain rfl := (List.cons.inj hb).1
    exact hready a hdep

/-- **Transitive dependencies come first.** -/
theorem before_of_transGen (h : G.Legal order) {a b : α} (hb : b ∈ order)
    (hdep : Relation.TransGen G.dep a b) : Before order a b := by
  obtain ⟨pre, post, rfl⟩ := List.append_of_mem hb
  have hpre : pre ++ [b] <+: pre ++ b :: post := ⟨post, by simp⟩
  refine ⟨pre, hpre, ?_⟩
  have hlegal := h.of_prefix hpre
  have hlegal' := hlegal.of_prefix (List.prefix_append pre [b])
  cases hdep with
  | single hdep => exact hlegal.ready_of_snoc hdep
  | tail hpath hdep => exact hlegal'.mem_of_transGen (hlegal.ready_of_snoc hdep) hpath

/-! ## Continuing a legal order -/

/-- **Progress.**  A legal order that misses a node can be continued by a ready one. -/
theorem exists_ready (h : ¬ G.Complete order) :
    ∃ b ∈ G.nodes, b ∉ order ∧ ∀ a, G.dep a b → a ∈ order := by
  unfold Complete at h
  push Not at h
  obtain ⟨b, ⟨hb, hnew⟩, hmin⟩ := G.wf.has_min {b | b ∈ G.nodes ∧ b ∉ order} h
  refine ⟨b, hb, hnew, fun a hdep => ?_⟩
  by_contra ha
  exact hmin a ⟨G.dep_mem a b hdep, ha⟩ hdep

/-- **Completion.**  A legal order is the start of a complete legal order. -/
theorem exists_complete (h : G.Legal order) :
    ∃ later, G.Legal (order ++ later) ∧ G.Complete (order ++ later) := by
  classical
  -- induction on the number of nodes still missing
  induction hn : (G.nodes \ order.toFinset).card using Nat.strong_induction_on
    generalizing order with
  | _ n ih =>
    by_cases hcomplete : G.Complete order
    · exact ⟨[], by simpa using h, by simpa using hcomplete⟩
    · obtain ⟨b, hb, hnew, hready⟩ := exists_ready hcomplete
      have hlegal := Legal.snoc h hb hnew hready
      have hless : (G.nodes \ (order ++ [b]).toFinset).card < n := by
        rw [← hn]
        apply Finset.card_lt_card
        refine ⟨fun x hx => ?_, fun hsub => ?_⟩
        · simp only [Finset.mem_sdiff, List.mem_toFinset, List.mem_append] at hx ⊢
          exact ⟨hx.1, fun hx' => hx.2 (Or.inl hx')⟩
        · have hmem := hsub (Finset.mem_sdiff.mpr ⟨hb, by simpa using hnew⟩)
          simp at hmem
      obtain ⟨later, hlater, hall⟩ := ih _ hless hlegal rfl
      exact ⟨b :: later, by simpa using hlater, by simpa using hall⟩

/-- The part of a legal order in a down-closed set is legal. -/
theorem filter (h : G.Legal order) (p : α → Bool)
    (hdown : ∀ a b, G.dep a b → p b → p a) : G.Legal (order.filter p) := by
  induction h with
  | nil => exact Legal.nil
  | @snoc order b _ hb hnew hready ih =>
    rw [List.filter_append]
    by_cases hp : p b
    · rw [List.filter_cons_of_pos hp]
      refine Legal.snoc ih hb (fun hmem => hnew (List.mem_of_mem_filter hmem)) ?_
      intro a hdep
      exact List.mem_filter.mpr ⟨hready a hdep, hdown a b hdep hp⟩
    · rw [List.filter_cons_of_neg hp]
      simpa using ih

end Legal

/-- A node that `b` does not depend on can come after `b`. -/
theorem exists_complete_not_before {a b : α} (hb : b ∈ G.nodes)
    (hne : a ≠ b) (hdep : ¬ Relation.TransGen G.dep a b) :
    ∃ order, G.Legal order ∧ G.Complete order ∧ ¬ Before order a b := by
  classical
  obtain ⟨all, hall, hcomplete⟩ := (Legal.nil (G := G)).exists_complete
  rw [List.nil_append] at hall hcomplete
  -- `b` and everything it depends on go first
  have hfirst := hall.filter (fun x => decide (x = b ∨ Relation.TransGen G.dep x b)) (by
    intro x y hxy hy
    simp only [decide_eq_true_eq] at hy ⊢
    rcases hy with rfl | hy
    · exact Or.inr (Relation.TransGen.single hxy)
    · exact Or.inr (Relation.TransGen.head hxy hy))
  obtain ⟨later, hlegal, hcompl⟩ := hfirst.exists_complete
  refine ⟨_, hlegal, hcompl, ?_⟩
  rintro ⟨pre, hpre, hapre⟩
  set first := all.filter (fun x => decide (x = b ∨ Relation.TransGen G.dep x b)) with hf
  have hbfirst : b ∈ first := List.mem_filter.mpr ⟨hcomplete b hb, by simp⟩
  have hafirst : a ∉ first := by
    intro hmem
    have := (List.mem_filter.mp hmem).2
    simp only [decide_eq_true_eq] at this
    exact this.elim hne hdep
  -- `b` occurs once, so `pre` ends inside the first part
  rcases List.prefix_or_prefix_of_prefix hpre (List.prefix_append first later) with hin | hin
  · exact hafirst (hin.subset (List.mem_append_left _ hapre))
  · rcases List.prefix_concat_iff.mp hin with heq | hin
    · exact hafirst (heq ▸ List.mem_append_left _ hapre)
    · have hnodup := (hlegal.of_prefix hpre).nodup
      have hbpre : b ∈ pre := hin.subset hbfirst
      exact (List.nodup_append.mp hnodup).2.2 b hbpre b (by simp) rfl

/-- **Forced precedence.**  Of two distinct nodes, one comes before the other in every
complete legal order exactly when the other transitively depends on it. -/
theorem before_in_every_complete_iff {a b : α} (hb : b ∈ G.nodes) (hne : a ≠ b) :
    (∀ order, G.Legal order → G.Complete order → Before order a b) ↔
      Relation.TransGen G.dep a b := by
  constructor
  · intro h
    by_contra hdep
    obtain ⟨order, hlegal, hcomplete, hnot⟩ := exists_complete_not_before hb hne hdep
    exact hnot (h order hlegal hcomplete)
  · intro hdep order hlegal hcomplete
    exact hlegal.before_of_transGen (hcomplete b hb) hdep

end DepGraph

end TopologicalOrder
