/-
# Lists rearranged by positions

A list of positions picks the entries of another list.  A permutation of `0, …, n - 1` picks
each entry once, and its inverse puts them back.

* `gather`, with `gather_gather`, `zipWith_gather`, `forall₂_gather`;
* `inverse` : the inverse of a permutation, with `gather_inverse_gather`;
* `swapped` : the permutation that exchanges two positions.
-/
import Mathlib.Data.List.Nodup
import Mathlib.Data.List.Range
import Mathlib.Data.List.GetD

namespace Rearrange

variable {α β γ : Type*}

/-- The entries at a list of positions. -/
def gather [Inhabited α] (positions : List ℕ) (l : List α) : List α :=
  positions.map fun i => l.getD i default

/-- A list of positions that names each of `0, …, n - 1` once. -/
abbrev IsPermutation (n : ℕ) (p : List ℕ) : Prop := p.Perm (List.range n)

/-- The position of each position. -/
def inverse (p : List ℕ) : List ℕ := (List.range p.length).map p.idxOf

/-- The positions below `n`, with two of them exchanged. -/
def swapped (n i j : ℕ) : List ℕ :=
  (List.range n).map fun k => if k = i then j else if k = j then i else k

/-! ## Gathering -/

section Gather

variable [Inhabited α] [Inhabited β] [Inhabited γ]

@[simp] theorem length_gather (p : List ℕ) (l : List α) : (gather p l).length = p.length :=
  List.length_map _

variable {p : List ℕ}

/-- An element of the gathered list. -/
theorem getElem_gather {l : List α} {i : ℕ} (hi : i < p.length)
    (hp : p[i] < l.length) (h : i < (gather p l).length) : (gather p l)[i] = l[p[i]] := by
  simp [gather, List.getD, hp]

/-- Gathering all positions in order changes nothing. -/
theorem gather_range (l : List α) : gather (List.range l.length) l = l := by
  apply List.ext_getElem (by simp)
  intro i h _
  have hi : i < (List.range l.length).length := by simpa using h
  rw [getElem_gather hi (by simpa using hi)]
  simp

/-- Gathering twice is gathering the gathered positions. -/
theorem gather_gather {p q : List ℕ} (hp : ∀ i ∈ p, i < q.length) (l : List α) :
    gather p (gather q l) = gather (gather p q) l := by
  simp only [gather, List.map_map]
  apply List.map_congr_left
  intro i hi
  simp [List.getD, hp i hi]

/-- What is appended is not gathered. -/
theorem gather_append {l : List α} (hp : ∀ i ∈ p, i < l.length) (l' : List α) :
    gather p (l ++ l') = gather p l := by
  apply List.map_congr_left
  intro i hi
  rw [List.getD_append _ _ _ _ (hp i hi)]

/-- Gathering commutes with an operation on both lists. -/
theorem zipWith_gather (f : α → β → γ) {a : List α} {b : List β}
    (hp : ∀ i ∈ p, i < a.length) (hlen : a.length = b.length) :
    List.zipWith f (gather p a) (gather p b) = gather p (List.zipWith f a b) := by
  rw [gather, gather, gather, List.zipWith_map, List.zipWith_self]
  apply List.map_congr_left
  intro i hi
  have hia := hp i hi
  have hib : i < b.length := hlen ▸ hia
  have hi' : i < (List.zipWith f a b).length := List.length_zipWith ▸ lt_min hia hib
  rw [List.getD_eq_getElem _ _ hia, List.getD_eq_getElem _ _ hib, List.getD_eq_getElem _ _ hi',
    List.getElem_zipWith]

/-- Related lists stay related. -/
theorem forall₂_gather {R : α → β → Prop} {a : List α} {b : List β}
    (h : List.Forall₂ R a b) (hp : ∀ i ∈ p, i < a.length) :
    List.Forall₂ R (gather p a) (gather p b) := by
  rw [gather, gather, List.forall₂_map_left_iff, List.forall₂_map_right_iff, List.forall₂_same]
  intro i hi
  have hia := hp i hi
  have hib : i < b.length := h.length_eq ▸ hia
  simp only [List.getD, List.getElem?_eq_getElem hia, List.getElem?_eq_getElem hib,
    Option.getD_some]
  exact List.forall₂_iff_get.mp h |>.2 i hia hib

end Gather

/-! ## Permutations -/

section Permutations

variable {n : ℕ} {p : List ℕ}

theorem IsPermutation.length_eq (h : IsPermutation n p) : p.length = n := by
  rw [List.Perm.length_eq h, List.length_range]

theorem IsPermutation.lt (h : IsPermutation n p) {i : ℕ} (hi : i ∈ p) : i < n :=
  List.mem_range.mp ((List.Perm.mem_iff h).mp hi)

theorem IsPermutation.mem (h : IsPermutation n p) {i : ℕ} (hi : i < n) : i ∈ p :=
  (List.Perm.mem_iff h).mpr (List.mem_range.mpr hi)

theorem IsPermutation.nodup (h : IsPermutation n p) : p.Nodup :=
  (List.Perm.nodup_iff h).mpr List.nodup_range

@[simp] theorem length_inverse (p : List ℕ) : (inverse p).length = p.length := by
  simp [inverse]

/-- The inverse of a permutation is one. -/
theorem IsPermutation.inverse (h : IsPermutation n p) : IsPermutation n (inverse p) := by
  have hmap : p.map p.idxOf = List.range n := by
    apply List.ext_getElem (by simp [h.length_eq])
    intro i hi _
    have hi' : i < p.length := by simpa using hi
    simp [h.nodup.idxOf_getElem i hi']
  have hperm := (List.Perm.symm h).map p.idxOf
  rw [hmap] at hperm
  rw [IsPermutation, Rearrange.inverse, h.length_eq]
  exact hperm

/-- The inverse, gathered by the permutation, counts up. -/
theorem IsPermutation.gather_inverse (h : IsPermutation n p) :
    gather p (Rearrange.inverse p) = List.range n := by
  apply List.ext_getElem (by simp [h.length_eq])
  intro i hi _
  have hi' : i < p.length := by simpa using hi
  have hlt : p[i] < (Rearrange.inverse p).length := by
    rw [length_inverse, h.length_eq]
    exact h.lt (List.getElem_mem hi')
  rw [getElem_gather hi' hlt]
  simp [Rearrange.inverse, h.nodup.idxOf_getElem i hi']

/-- The permutation, gathered by its inverse, counts up. -/
theorem IsPermutation.inverse_gather (h : IsPermutation n p) :
    gather (Rearrange.inverse p) p = List.range n := by
  apply List.ext_getElem (by simp [h.length_eq])
  intro i hi _
  have hi' : i < p.length := by simpa using hi
  have hmem : i ∈ p := h.mem (h.length_eq ▸ hi')
  have hbound : i < (Rearrange.inverse p).length := by simpa using hi'
  have hlt : (Rearrange.inverse p)[i] < p.length := by
    simp [Rearrange.inverse, List.idxOf_lt_length_of_mem hmem]
  rw [getElem_gather hbound hlt]
  simp [Rearrange.inverse]

variable [Inhabited α]

section

variable (h : IsPermutation n p) {l : List α} (hl : l.length = n)

include h hl

/-- **Putting back.**  What a permutation gathers, its inverse puts back. -/
theorem IsPermutation.gather_inverse_gather : gather (Rearrange.inverse p) (gather p l) = l := by
  rw [gather_gather (fun i hi => by rw [h.length_eq]; exact h.inverse.lt hi), h.inverse_gather,
    ← hl, gather_range]

/-- Gathering by the inverse is undone by the permutation. -/
theorem IsPermutation.gather_gather_inverse : gather p (gather (Rearrange.inverse p) l) = l := by
  rw [gather_gather (fun i hi => by rw [length_inverse, h.length_eq]; exact h.lt hi),
    h.gather_inverse, ← hl, gather_range]

/-- The inverse of the inverse gathers as the permutation does. -/
theorem IsPermutation.gather_inverse_inverse :
    gather (Rearrange.inverse (Rearrange.inverse p)) l = gather p l := by
  have hlength : (gather p l).length = n := by rw [length_gather, h.length_eq]
  calc gather (Rearrange.inverse (Rearrange.inverse p)) l
      = gather (Rearrange.inverse (Rearrange.inverse p))
          (gather (Rearrange.inverse p) (gather p l)) := by rw [h.gather_inverse_gather hl]
    _ = gather p l := h.inverse.gather_inverse_gather hlength

end

end Permutations

/-! ## Exchanging two positions -/

section Swapped

variable {n i j : ℕ}

@[simp] theorem length_swapped (n i j : ℕ) : (swapped n i j).length = n := by
  simp [swapped]

/-- Exchanging two positions is a permutation. -/
theorem isPermutation_swapped (hi : i < n) (hj : j < n) : IsPermutation n (swapped n i j) := by
  have hnodup : (swapped n i j).Nodup := by
    apply List.Nodup.map_on _ List.nodup_range
    intro x _ y _ hxy
    split_ifs at hxy <;> omega
  apply (List.perm_ext_iff_of_nodup hnodup List.nodup_range).mpr
  intro k
  rw [List.mem_range]
  constructor
  · intro hk
    obtain ⟨x, hx, rfl⟩ := List.mem_map.mp hk
    have := List.mem_range.mp hx
    split_ifs <;> assumption
  · intro hk
    apply List.mem_map.mpr
    refine ⟨if k = i then j else if k = j then i else k, ?_, ?_⟩
    · rw [List.mem_range]
      split_ifs <;> assumption
    · split_ifs <;> omega

end Swapped

end Rearrange
