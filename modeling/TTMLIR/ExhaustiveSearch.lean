/-
# Exhaustive search

What a search through all candidates needs, whatever the candidates are.

* `keepBest` : one step of a search that replaces the best candidate only by a better one;
* `foldl_keepBest_spec` : what it has found at the end;
* `orders` : all orders of a list, in lexicographic order;
* `exists_mask` : every subset of a list is the one a bit mask selects.
-/
import Mathlib.Algebra.Order.Group.Nat
import Mathlib.Data.List.Nodup
import Mathlib.Data.List.Induction
import Mathlib.Data.List.Lex
import Mathlib.Data.List.Perm.Basic

namespace Search

/-! ## Keeping the best -/

section Best

variable {α κ : Type*} [LinearOrder κ] (key : α → Option κ)

/-- Replace what was best so far, with its value, by a candidate of a greater value. -/
def keepBest (best : Option α × κ) (a : α) : Option α × κ :=
  match key a with
  | none => best
  | some k => if best.2 < k then (some a, k) else best

/-- What a search has found: nothing, and no candidate is above the bound it started from, or
a candidate of the greatest value. -/
inductive Found (candidates : List α) (bound : κ) : Option α × κ → Prop where
  | nothing (h : ∀ a ∈ candidates, ∀ k, key a = some k → k ≤ bound) :
      Found candidates bound (none, bound)
  | best (a : α) (k : κ) (mem : a ∈ candidates) (value : key a = some k) (above : bound < k)
      (greatest : ∀ a' ∈ candidates, ∀ k', key a' = some k' → k' ≤ k) :
      Found candidates bound (some a, k)

variable {key}

/-- One more candidate. -/
theorem Found.step {candidates : List α} {bound : κ} {st : Option α × κ}
    (h : Found key candidates bound st) (a : α) :
    Found key (candidates ++ [a]) bound (keepBest key st a) := by
  have hmem : ∀ a', a' ∈ candidates ++ [a] ↔ a' ∈ candidates ∨ a' = a := by
    intro a'
    rw [List.mem_append, List.mem_singleton]
  rw [keepBest]
  cases hkey : key a with
  | none =>
    have hno : ∀ {a' : α} {k : κ}, a' ∈ candidates ++ [a] → key a' = some k → a' ∈ candidates := by
      intro a' k ha' hk
      rcases (hmem a').mp ha' with hold | rfl
      · exact hold
      · exact nomatch hkey.symm.trans hk
    cases h with
    | nothing hall => exact .nothing fun a' ha' k hk => hall a' (hno ha' hk) k hk
    | best b k hb hvalue habove hgreatest =>
      exact .best b k ((hmem b).mpr (.inl hb)) hvalue habove
        fun a' ha' k' hk' => hgreatest a' (hno ha' hk') k' hk'
  | some k =>
    show Found key _ bound (if st.2 < k then (some a, k) else st)
    have hextend : ∀ {top : κ}, k ≤ top → (∀ a' ∈ candidates, ∀ k', key a' = some k' → k' ≤ top) →
        ∀ a' ∈ candidates ++ [a], ∀ k', key a' = some k' → k' ≤ top := by
      intro top hk hall a' ha' k' hk'
      rcases (hmem a').mp ha' with hold | rfl
      · exact hall a' hold k' hk'
      · obtain rfl := Option.some.inj (hkey.symm.trans hk')
        exact hk
    split
    · rename_i hlt
      cases h with
      | nothing hall =>
        exact .best a k ((hmem a).mpr (.inr rfl)) hkey hlt
          (hextend le_rfl fun a' ha' k' hk' => (hall a' ha' k' hk').trans hlt.le)
      | best b kb hb hvalue habove hgreatest =>
        exact .best a k ((hmem a).mpr (.inr rfl)) hkey (habove.trans hlt)
          (hextend le_rfl fun a' ha' k' hk' => (hgreatest a' ha' k' hk').trans hlt.le)
    · rename_i hge
      cases h with
      | nothing hall => exact .nothing (hextend (not_lt.mp hge) hall)
      | best b kb hb hvalue habove hgreatest =>
        exact .best b kb ((hmem b).mpr (.inl hb)) hvalue habove (hextend (not_lt.mp hge) hgreatest)

/-- **A search through a list finds a best candidate.** -/
theorem foldl_keepBest_spec (key : α → Option κ) (candidates : List α) (bound : κ) :
    Found key candidates bound (candidates.foldl (keepBest key) (none, bound)) := by
  induction candidates using List.reverseRecOn with
  | nil => exact .nothing nofun
  | append_singleton candidates a ih =>
    rw [List.foldl_append]
    exact ih.step a

end Best

/-! ## All orders -/

section Orders

variable {α : Type*} [DecidableEq α]

/-- The orders of a list that start with its first element, then those that start with its
second one, and so on. -/
def ordersAux : ℕ → List α → List (List α)
  | 0, _ => [[]]
  | n + 1, l => l.flatMap fun a => (ordersAux n (l.erase a)).map (a :: ·)

/-- All orders of a list. -/
def orders (l : List α) : List (List α) := ordersAux l.length l

theorem mem_ordersAux {n : ℕ} {l : List α} (hn : l.length = n) {order : List α} :
    order ∈ ordersAux n l ↔ order.Perm l := by
  induction n generalizing l order with
  | zero =>
    rw [List.length_eq_zero_iff.mp hn, ordersAux, List.mem_singleton, List.perm_nil]
  | succ n ih =>
    rw [ordersAux, List.mem_flatMap]
    constructor
    · rintro ⟨a, ha, horder⟩
      obtain ⟨rest, hrest, rfl⟩ := List.mem_map.mp horder
      have hlen : (l.erase a).length = n := by rw [List.length_erase_of_mem ha, hn]; rfl
      exact (((ih hlen).mp hrest).cons a).trans (List.perm_cons_erase ha).symm
    · intro hperm
      cases order with
      | nil =>
        have := hperm.length_eq
        rw [hn] at this
        exact nomatch this
      | cons a rest =>
        have ha : a ∈ l := hperm.subset List.mem_cons_self
        have hlen : (l.erase a).length = n := by rw [List.length_erase_of_mem ha, hn]; rfl
        refine ⟨a, ha, List.mem_map.mpr ⟨rest, (ih hlen).mpr ?_, rfl⟩⟩
        exact (hperm.trans (List.perm_cons_erase ha)).cons_inv

theorem mem_orders {l order : List α} : order ∈ orders l ↔ order.Perm l := mem_ordersAux rfl

end Orders

/-! ## Subsets -/

/-- **Every subset is selected by a mask.** -/
theorem exists_mask {α : Type*} [DecidableEq α] (l : List α) (p : α → Bool) :
    ∃ mask < 2 ^ l.length, ∀ a ∈ l, mask.testBit (l.idxOf a) = p a := by
  refine ⟨Nat.ofBits fun i : Fin l.length => p l[i], Nat.ofBits_lt_two_pow _, fun a ha => ?_⟩
  have hlt := List.idxOf_lt_length_of_mem ha
  rw [Nat.testBit_ofBits_lt _ _ hlt]
  exact congrArg p (List.getElem_idxOf hlt)

theorem zipIdx_eq_map {α : Type*} [DecidableEq α] {l : List α} (h : l.Nodup) :
    l.zipIdx = l.map fun a => (a, l.idxOf a) := by
  apply List.ext_getElem
  · rw [List.length_zipIdx, List.length_map]
  · intro i hi hi'
    rw [List.length_map] at hi'
    rw [List.getElem_zipIdx, List.getElem_map, Nat.zero_add, h.idxOf_getElem i hi']

end Search
