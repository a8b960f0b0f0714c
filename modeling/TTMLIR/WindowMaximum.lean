/-
# Maxima over windows

The value of a windowed maximum at one output position, for any number of dimensions: the
maximum of what the window covers.  Positions of the padding, and the holes of a dilated input,
hold the least element.

* `Window.Reads` : an output position reads an input position, along one dimension;
* `Window.extent` : the number of output positions;
* `windowMax` : the maximum over a window, with `windowMax_le_iff`;
* `windowMax_eq_iff` : two windows have the same maxima when they cover the same positions;
* `sameReads_iff` : they do when they cover the same positions along every dimension, or none;
* `windowMax_gather` : the dimensions may be rearranged.
-/
import TTMLIR.MixedRadix
import TTMLIR.Rearrange

namespace Pooling

open MixedRadix Rearrange

/-! ## Windows -/

/-- One dimension of a window. -/
structure Window where
  size : ℤ
  stride : ℤ
  padLow : ℤ
  padHigh : ℤ
  baseDilation : ℤ
  dilation : ℤ
deriving DecidableEq, Repr

namespace Window

/-- The window that reads its own position. -/
def unit : Window := ⟨1, 1, 0, 0, 1, 1⟩

instance : Inhabited Window := ⟨unit⟩

/-- Output position `o` reads input position `p`. -/
def Reads (w : Window) (o p : ℕ) : Prop :=
  ∃ j ∈ List.range w.size.toNat, o * w.stride + j * w.dilation - w.padLow = p * w.baseDilation

instance (w : Window) (o p : ℕ) : Decidable (w.Reads o p) :=
  inferInstanceAs (Decidable (∃ j ∈ List.range _, _))

/-- The extent of `n` positions with holes between them. -/
def dilatedExtent (n dilation : ℤ) : ℤ := if n ≤ 0 then 0 else (n - 1) * dilation + 1

/-- The number of positions of a window on `n` input positions. -/
def extent (w : Window) (n : ℕ) : ℕ :=
  let padded := w.padLow + dilatedExtent n w.baseDilation + w.padHigh
  let window := dilatedExtent w.size w.dilation
  if padded = 0 ∨ padded < window then 0 else ((padded - window) / w.stride + 1).toNat

/-- Two windows read the same of `n` input positions for an output position. -/
def SameReads (w w' : Window) (n o : ℕ) : Prop := ∀ p < n, w.Reads o p ↔ w'.Reads o p

/-- A window reads none of `n` input positions for an output position. -/
def Blank (w : Window) (n o : ℕ) : Prop := ∀ p < n, ¬ w.Reads o p

instance (w w' : Window) (n o : ℕ) : Decidable (w.SameReads w' n o) :=
  inferInstanceAs (Decidable (∀ p < n, _))

instance (w : Window) (n o : ℕ) : Decidable (w.Blank n o) :=
  inferInstanceAs (Decidable (∀ p < n, _))

@[simp] theorem unit_extent (n : ℕ) : unit.extent n = n := by
  have hone : dilatedExtent 1 1 = 1 := rfl
  have hn : dilatedExtent n 1 = n := by
    rw [dilatedExtent]
    split_ifs <;> omega
  rw [extent]
  simp only [unit, hone, hn]
  split_ifs <;> omega

theorem sameReads_refl (w : Window) (n o : ℕ) : w.SameReads w n o := fun _ _ => Iff.rfl

end Window

/-- The output shape of windows on an input shape. -/
def extents (ws : List Window) (shape : List ℕ) : List ℕ := List.zipWith Window.extent ws shape

/-- Output index `o` reads input index `p`. -/
def ReadsAt (ws : List Window) (o p : List ℕ) : Prop :=
  ∀ d < ws.length, (ws.getD d default).Reads (o.getD d 0) (p.getD d 0)

instance (ws : List Window) (o p : List ℕ) : Decidable (ReadsAt ws o p) :=
  inferInstanceAs (Decidable (∀ d < ws.length, _))

/-- The input indices that an output index reads. -/
def readIndices (ws : List Window) (shape o : List ℕ) : List (List ℕ) :=
  ((List.range shape.prod).map (unravel shape)).filter (ReadsAt ws o)

/-- The maximum over a window. -/
def windowMax {α : Type*} [LinearOrder α] [OrderBot α] (ws : List Window) (shape : List ℕ)
    (x : List ℕ → α) (o : List ℕ) : α :=
  ((readIndices ws shape o).map x).foldr max ⊥

/-! ## Maxima -/

theorem mem_readIndices {ws : List Window} {shape o p : List ℕ} :
    p ∈ readIndices ws shape o ↔ InShape p shape ∧ ReadsAt ws o p := by
  rw [readIndices, List.mem_filter, decide_eq_true_iff, List.mem_map]
  apply and_congr_left'
  constructor
  · rintro ⟨k, hk, rfl⟩
    exact inShape_unravel shape k (List.mem_range.mp hk)
  · intro hp
    exact ⟨rowMajor shape p, List.mem_range.mpr (rowMajor_lt hp), unravel_rowMajor hp⟩

section Maximum

variable {α : Type*} [LinearOrder α] [OrderBot α]

theorem foldr_max_le_iff (l : List α) (b : α) : l.foldr max ⊥ ≤ b ↔ ∀ a ∈ l, a ≤ b := by
  induction l with
  | nil => simp
  | cons a l ih => rw [List.foldr_cons, max_le_iff, ih, List.forall_mem_cons]

/-- A window maximum is bounded when every element it reads is. -/
theorem windowMax_le_iff {ws : List Window} {shape : List ℕ} {x : List ℕ → α} {o : List ℕ}
    {b : α} : windowMax ws shape x o ≤ b ↔ ∀ p, InShape p shape → ReadsAt ws o p → x p ≤ b := by
  rw [windowMax, foldr_max_le_iff, List.forall_mem_map]
  constructor
  · intro h p hp hreads
    exact h p (mem_readIndices.mpr ⟨hp, hreads⟩)
  · intro h p hp
    exact h p (mem_readIndices.mp hp).1 (mem_readIndices.mp hp).2

theorem windowMax_congr {ws ws' : List Window} {shape o : List ℕ}
    (h : ∀ p, InShape p shape → (ReadsAt ws o p ↔ ReadsAt ws' o p)) (x : List ℕ → α) :
    windowMax ws shape x o = windowMax ws' shape x o := by
  apply eq_of_forall_ge_iff
  intro b
  rw [windowMax_le_iff, windowMax_le_iff]
  refine forall₂_congr fun p hp => ?_
  rw [h p hp]

end Maximum

/-- A single marked element shows which windows read it. -/
theorem windowMax_mark {ws : List Window} {shape o p : List ℕ} (hp : InShape p shape) :
    windowMax ws shape (fun q => decide (q = p)) o = true ↔ ReadsAt ws o p := by
  rw [← not_iff_not, Bool.not_eq_true, ← bot_eq_false, ← le_bot_iff, windowMax_le_iff]
  constructor
  · intro h hreads
    have hmark := h p hp hreads
    rw [decide_eq_true rfl] at hmark
    exact absurd hmark (by decide)
  · intro h q _ hreads
    have hne : q ≠ p := fun heq => h (heq ▸ hreads)
    rw [decide_eq_false hne]
    exact bot_le

/-- **Windows with the same maxima cover the same positions.** -/
theorem windowMax_eq_iff {ws ws' : List Window} {shape o : List ℕ} :
    (∀ (α : Type) [LinearOrder α] [OrderBot α] (x : List ℕ → α),
      windowMax ws shape x o = windowMax ws' shape x o) ↔
    ∀ p, InShape p shape → (ReadsAt ws o p ↔ ReadsAt ws' o p) := by
  constructor
  · intro h p hp
    rw [← windowMax_mark hp, h Bool, windowMax_mark hp]
  · intro h α _ _ x
    exact windowMax_congr h x

/-! ## One dimension at a time -/

section Dimensions

variable {ws ws' : List Window} {shape o : List ℕ}

theorem exists_inShape {P : ℕ → ℕ → Prop} (h : ∀ d < shape.length, ∃ i < shape.getD d 0, P d i) :
    ∃ p, InShape p shape ∧ ∀ d < shape.length, P d (p.getD d 0) := by
  choose! f hf using h
  refine ⟨(List.range shape.length).map f, List.forall₂_iff_get.mpr ⟨by simp, ?_⟩, ?_⟩
  · intro d h₁ h₂
    have hlt := (hf d h₂).1
    rw [List.getD_eq_getElem _ 0 h₂] at hlt
    simpa using hlt
  · intro d hd
    rw [List.getD_eq_getElem _ 0 (by simpa using hd)]
    simpa using (hf d hd).2

/-- Nothing is read when one dimension reads nothing. -/
theorem forall_not_readsAt_iff (hws : ws.length = shape.length) :
    (∀ p, InShape p shape → ¬ ReadsAt ws o p) ↔
      ∃ d < shape.length, (ws.getD d default).Blank (shape.getD d 0) (o.getD d 0) := by
  constructor
  · intro h
    by_contra hnone
    push Not at hnone
    obtain ⟨p, hp, hreads⟩ := exists_inShape
      (P := fun d i => (ws.getD d default).Reads (o.getD d 0) i) fun d hd => by
        have hsome := hnone d hd
        rw [Window.Blank] at hsome
        push Not at hsome
        exact hsome
    exact h p hp fun d hd => hreads d (hws ▸ hd)
  · rintro ⟨d, hd, hblank⟩ p hp hreads
    exact hblank _ (getD_lt_of_inShape hp hd) (hreads d (hws ▸ hd))

/-- **The same positions, dimension by dimension.**  Windows cover the same positions when
they do along every dimension, or both cover nothing along some dimension. -/
theorem sameReads_iff (hws : ws.length = shape.length) (hws' : ws'.length = shape.length) :
    (∀ p, InShape p shape → (ReadsAt ws o p ↔ ReadsAt ws' o p)) ↔
      ((∃ d < shape.length, (ws.getD d default).Blank (shape.getD d 0) (o.getD d 0)) ∧
        ∃ d < shape.length, (ws'.getD d default).Blank (shape.getD d 0) (o.getD d 0)) ∨
      ∀ d < shape.length,
        (ws.getD d default).SameReads (ws'.getD d default) (shape.getD d 0) (o.getD d 0) := by
  rw [← forall_not_readsAt_iff hws, ← forall_not_readsAt_iff hws']
  constructor
  · intro h
    by_cases hnone : ∀ p, InShape p shape → ¬ ReadsAt ws o p
    · exact .inl ⟨hnone, fun p hp hreads => hnone p hp ((h p hp).mpr hreads)⟩
    push Not at hnone
    obtain ⟨q, hq, hreads⟩ := hnone
    have hreads' := (h q hq).mp hreads
    refine .inr fun d hd i hi => ?_
    -- only dimension `d` of the index that is read is changed
    have hset : InShape (q.set d i) shape := by
      refine List.forall₂_iff_get.mpr ⟨by rw [List.length_set, hq.length_eq], ?_⟩
      intro e h₁ h₂
      rw [List.length_set] at h₁
      simp only [List.get_eq_getElem, List.getElem_set]
      split_ifs with hde
      · subst hde
        rwa [List.getD_eq_getElem _ 0 hd] at hi
      · exact (List.forall₂_iff_get.mp hq).2 e h₁ h₂
    have hget : ∀ e, (q.set d i).getD e 0 = if d = e then i else q.getD e 0 := by
      intro e
      have hdq : d < q.length := hq.length_eq ▸ hd
      rw [List.getD_eq_getElem?_getD, List.getElem?_set, List.getD_eq_getElem?_getD]
      split_ifs
      · rfl
      · rfl
    have hiff : ∀ vs : List Window, vs.length = shape.length → ReadsAt vs o q →
        (ReadsAt vs o (q.set d i) ↔ (vs.getD d default).Reads (o.getD d 0) i) := by
      intro vs hvs hq'
      constructor
      · intro hall
        have := hall d (hvs ▸ hd)
        rwa [hget, if_pos rfl] at this
      · intro hone e he
        rw [hget]
        split_ifs with hde
        · subst hde
          exact hone
        · exact hq' e he
    rw [← hiff ws hws hreads, ← hiff ws' hws' hreads']
    exact h _ hset
  · rintro (⟨hnone, hnone'⟩ | hsame) p hp
    · exact iff_of_false (hnone p hp) (hnone' p hp)
    · have hlt := fun d hd => getD_lt_of_inShape hp (i := d) hd
      constructor
      · intro hreads d hd
        have hd' : d < shape.length := hws' ▸ hd
        exact (hsame d hd' _ (hlt d hd')).mp (hreads d (hws ▸ hd'))
      · intro hreads d hd
        have hd' : d < shape.length := hws ▸ hd
        exact (hsame d hd' _ (hlt d hd')).mpr (hreads d (hws' ▸ hd'))

end Dimensions

/-! ## Rearranged dimensions -/

section Gather

variable {n : ℕ} {perm : List ℕ} (hperm : IsPermutation n perm)

include hperm

variable {ws : List Window}

/-- Rearranged windows read rearranged indices. -/
theorem readsAt_gather (hws : ws.length = n) (o p : List ℕ) :
    ReadsAt (gather perm ws) (gather perm o) (gather perm p) ↔ ReadsAt ws o p := by
  have hget : ∀ {β : Type} [Inhabited β] (l : List β) (d : ℕ) (hd : d < perm.length) (b : β),
      (gather perm l).getD d b = l.getD perm[d] default := by
    intro β _ l d hd b
    rw [List.getD_eq_getElem _ _ (by rwa [length_gather])]
    simp only [gather, List.getElem_map]
  constructor
  · intro h d hd
    -- dimension `d` stands at its position in the permutation
    obtain ⟨e, he, hed⟩ := List.getElem_of_mem (hperm.mem (hws ▸ hd))
    have hreads := h e (by rwa [length_gather])
    rw [hget _ e he, hget _ e he, hget _ e he, hed] at hreads
    exact hreads
  · intro h d hd
    rw [length_gather] at hd
    rw [hget _ d hd, hget _ d hd, hget _ d hd]
    exact h _ (hws ▸ hperm.lt (List.getElem_mem hd))

/-- **Rearranging the dimensions keeps the maximum.** -/
theorem windowMax_gather {α : Type*} [LinearOrder α] [OrderBot α]
    (hws : ws.length = n) {shape o : List ℕ} (hshape : shape.length = n) (x : List ℕ → α) :
    windowMax (gather perm ws) (gather perm shape) (fun q => x (gather (inverse perm) q))
      (gather perm o) = windowMax ws shape x o := by
  apply eq_of_forall_ge_iff
  intro b
  rw [windowMax_le_iff, windowMax_le_iff]
  constructor
  · intro h p hp hreads
    have hlen : p.length = n := hp.length_eq.trans hshape
    have hbound := h (gather perm p) (forall₂_gather hp fun i hi => hlen ▸ hperm.lt hi)
      ((readsAt_gather hperm hws o p).mpr hreads)
    rwa [hperm.gather_inverse_gather hlen] at hbound
  · intro h q hq hreads
    have hlen : q.length = n := by rw [hq.length_eq, length_gather, hperm.length_eq]
    have hback : gather perm (gather (inverse perm) q) = q := hperm.gather_gather_inverse hlen
    apply h
    · have hin := forall₂_gather hq fun i hi => hlen ▸ hperm.inverse.lt hi
      rwa [hperm.gather_inverse_gather hshape] at hin
    · rwa [← readsAt_gather hperm hws, hback]

omit hperm in
theorem extents_gather {shape : List ℕ} {p : List ℕ}
    (hp : ∀ i ∈ p, i < ws.length) (hws : ws.length = shape.length) :
    extents (gather p ws) (gather p shape) = gather p (extents ws shape) :=
  zipWith_gather _ hp hws

end Gather

end Pooling
