/-
# Chains whose links are split

A chain is a list of links, and a link may be split into two.  Links are split one at a time
and in any order.

* `Step`, `Child` : one split in a chain, and the parts of one link;
* `ends_iff` : splitting a chain ends exactly when splitting each of its links does;
* `exists_unsplit` : a chain whose splitting ends has an unsplit form;
* `mem_of_reachable` : the links of the chains reached are descendants of the first ones;
* `Linked` : links that follow each other, which splits keep.
-/
import Mathlib.Logic.Relation
import Mathlib.Tactic.Common

namespace Splitting

variable {α β : Type} (split : α → Option (α × α))

/-- One link of a chain is split. -/
inductive Step : List α → List α → Prop
  | mk (before after : List α) {link first second : α}
      (h : split link = some (first, second)) :
      Step (before ++ link :: after) (before ++ first :: second :: after)

/-- One of the two parts of a link. -/
def Child (part link : α) : Prop :=
  ∃ first second, split link = some (first, second) ∧ (part = first ∨ part = second)

/-- The chains that splitting reaches. -/
abbrev Reachable : List α → List α → Prop := Relation.ReflTransGen (Step split)

/-- Splitting a chain ends, in whatever order. -/
abbrev Ends (chain : List α) : Prop := Acc (fun later earlier => Step split earlier later) chain

variable {split}

/-- A split in a chain is one in its front or one in its back. -/
theorem step_append {front back chain : List α} (h : Step split (front ++ back) chain) :
    (∃ front', Step split front front' ∧ chain = front' ++ back) ∨
      ∃ back', Step split back back' ∧ chain = front ++ back' := by
  generalize hwhole : front ++ back = whole at h
  cases h with
  | @mk before after link first second hsplit =>
    rcases List.append_eq_append_iff.mp hwhole with ⟨gap, rfl, rfl⟩ | ⟨gap, rfl, hgap⟩
    · -- the link lies in the back
      right
      exact ⟨gap ++ first :: second :: after, Step.mk gap after hsplit, by simp⟩
    · rcases gap with _ | ⟨head, gap⟩
      · right
        rw [List.nil_append] at hgap
        subst hgap
        exact ⟨first :: second :: after, Step.mk [] after hsplit, by simp⟩
      · left
        rw [List.cons_append, List.cons.injEq] at hgap
        obtain ⟨rfl, rfl⟩ := hgap
        exact ⟨before ++ first :: second :: gap, Step.mk before gap hsplit, by simp⟩

theorem Ends.append {front back : List α} (hfront : Ends split front) (hback : Ends split back) :
    Ends split (front ++ back) := by
  induction hfront generalizing back with
  | intro front hsmaller ihfront =>
    induction hback with
    | intro back hback ihback =>
      constructor
      intro chain hstep
      rcases step_append hstep with ⟨front', hfront', rfl⟩ | ⟨back', hback', rfl⟩
      · exact ihfront front' hfront' (Acc.intro back hback)
      · exact ihback back' hback'

/-- Splitting ends in a single link if the splits of the link end. -/
theorem ends_singleton {link : α} (h : Acc (Child split) link) : Ends split [link] := by
  induction h with
  | intro link _ ih =>
    constructor
    intro chain hstep
    generalize hsingle : [link] = single at hstep
    cases hstep with
    | @mk before after link' first second hsplit =>
      obtain ⟨rfl, rfl, rfl⟩ : before = [] ∧ link' = link ∧ after = [] := by
        rcases before with _ | ⟨head, before⟩
        · simpa [eq_comm] using hsingle
        · simp at hsingle
      have hfirst : Ends split [first] := ih first ⟨first, second, hsplit, Or.inl rfl⟩
      have hsecond : Ends split [second] := ih second ⟨first, second, hsplit, Or.inr rfl⟩
      exact hfirst.append hsecond

/-- **Termination of a chain is termination of its links.** -/
theorem ends_iff {chain : List α} : Ends split chain ↔ ∀ link ∈ chain, Acc (Child split) link := by
  constructor
  · intro h
    induction h with
    | intro chain _ ih =>
      intro link hlink
      constructor
      rintro part ⟨first, second, hsplit, hpart⟩
      obtain ⟨before, after, rfl⟩ := List.append_of_mem hlink
      refine ih _ (Step.mk before after hsplit) part ?_
      rcases hpart with rfl | rfl <;> simp
  · intro h
    induction chain with
    | nil =>
      constructor
      intro chain hstep
      generalize hnil : ([] : List α) = empty at hstep
      cases hstep with
      | mk before after hsplit => simp at hnil
    | cons link chain ih =>
      have hlink : Ends split [link] := ends_singleton (h link (by simp))
      exact hlink.append (ih fun link' hlink' => h link' (by simp [hlink']))

/-- A link that is a part of itself is split for ever. -/
theorem Ends.not_child_self {link : α} (h : Ends split [link]) :
    ¬ Relation.TransGen (Child split) link link := by
  have hacc := (ends_iff.mp h link (by simp)).transGen
  intro hloop
  clear h
  induction hacc with
  | intro link _ ih => exact ih link hloop hloop

theorem exists_unsplit {chain : List α} (h : Ends split chain) :
    ∃ chain', Reachable split chain chain' ∧ ∀ link ∈ chain', split link = none := by
  induction h with
  | intro chain _ ih =>
    by_cases hall : ∀ link ∈ chain, split link = none
    · exact ⟨chain, Relation.ReflTransGen.refl, hall⟩
    · push Not at hall
      obtain ⟨link, hlink, hsome⟩ := hall
      obtain ⟨⟨first, second⟩, hsplit⟩ := Option.ne_none_iff_exists'.mp hsome
      obtain ⟨before, after, rfl⟩ := List.append_of_mem hlink
      obtain ⟨chain', hreach, hunsplit⟩ := ih _ (Step.mk before after hsplit)
      exact ⟨chain', Relation.ReflTransGen.head (Step.mk before after hsplit) hreach, hunsplit⟩

variable {chain chain' : List α}

/-- The links of a chain that is reached descend from the first links. -/
theorem mem_of_reachable (h : Reachable split chain chain') :
    ∀ link' ∈ chain', ∃ link ∈ chain, Relation.ReflTransGen (Child split) link' link := by
  induction h with
  | refl => exact fun link hlink => ⟨link, hlink, Relation.ReflTransGen.refl⟩
  | tail _ hstep ih =>
    cases hstep with
    | @mk before after link first second hsplit =>
      -- a part descends from the link that was split
      have hpart : ∀ part, part = first ∨ part = second →
          ∃ link ∈ chain, Relation.ReflTransGen (Child split) part link := by
        intro part hpart
        obtain ⟨origin, horigin, hdesc⟩ := ih link (by simp)
        exact ⟨origin, horigin, Relation.ReflTransGen.head ⟨first, second, hsplit, hpart⟩ hdesc⟩
      intro link' hlink'
      rcases List.mem_append.mp hlink' with hbefore | hrest
      · exact ih link' (by simp [hbefore])
      · rcases List.mem_cons.mp hrest with rfl | hrest
        · exact hpart _ (Or.inl rfl)
        · rcases List.mem_cons.mp hrest with rfl | hafter
          · exact hpart _ (Or.inr rfl)
          · exact ih link' (by simp [hafter])

theorem reachable_of_descendant {link' link : α}
    (h : Relation.ReflTransGen (Child split) link' link) :
    ∃ chain, Reachable split [link] chain ∧ link' ∈ chain := by
  induction h using Relation.ReflTransGen.head_induction_on with
  | refl => exact ⟨[link], Relation.ReflTransGen.refl, by simp⟩
  | head hchild _ ih =>
    obtain ⟨first, second, hsplit, hpart⟩ := hchild
    obtain ⟨chain, hreach, hmem⟩ := ih
    obtain ⟨before, after, rfl⟩ := List.append_of_mem hmem
    refine ⟨_, Relation.ReflTransGen.tail hreach (Step.mk before after hsplit), ?_⟩
    rcases hpart with rfl | rfl <;> simp

/-! ## Linked chains -/

variable (source target : α → β)

/-- The first link starts at `start`, each next one where the last one ends, and the last one
ends at `stop`. -/
def Linked (start stop : β) : List α → Prop
  | [] => start = stop
  | link :: rest => source link = start ∧ Linked (target link) stop rest

variable {source target}

section

variable {start stop : β}
  (hsplit : ∀ link first second, split link = some (first, second) →
    source first = source link ∧ target first = source second ∧ target second = target link)
  (h : Linked source target start stop chain)

include hsplit h

/-- Splits that keep the ends of a link keep a chain linked. -/
theorem Linked.step (hstep : Step split chain chain') : Linked source target start stop chain' := by
  cases hstep with
  | @mk before after link first second hlink =>
    obtain ⟨hsource, hmiddle, htarget⟩ := hsplit link first second hlink
    induction before generalizing start with
    | nil =>
      obtain ⟨hstart, hrest⟩ := h
      refine ⟨hsource.trans hstart, hmiddle.symm, ?_⟩
      rw [htarget]
      exact hrest
    | cons head before ih => exact ⟨h.1, ih h.2⟩

theorem Linked.reachable (hreach : Reachable split chain chain') :
    Linked source target start stop chain' := by
  induction hreach with
  | refl => exact h
  | tail _ hstep ih => exact ih.step hsplit hstep

end

end Splitting
