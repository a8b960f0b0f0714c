/-
# Reductions over windows

A reduction combines the elements of a list by a binary function, in an order of its choice: any
binary tree over the elements in their order, with the initial value put in anywhere.  A windowed
reduction combines what the positions of a window read; those in the padding, and in the holes of
a dilated input, read the initial value.

* `Reduces` : the values that a reduction may give;
* `Reduces.eq_foldr` : with a neutral initial value there is only one;
* `slots`, `mem_slots_iff` : what the positions of a window read;
* `foldr_slots`, `foldr_reads_max` : padding with a neutral value adds nothing;
* `windowSum`, `sum_eq_iff` : the sum over a window.
-/
import TTMLIR.WindowMaximum

namespace Pooling

open MixedRadix

/-! ## Reductions -/

/-- The values that a reduction of a list may give. -/
inductive Reduces {β : Type*} (body : β → β → β) (init : β) : List β → β → Prop where
  | init : Reduces body init [] init
  | element (b : β) : Reduces body init [b] b
  | node {l l' : List β} {b b' : β} (h : Reduces body init l b) (h' : Reduces body init l' b') :
      Reduces body init (l ++ l') (body b b')

namespace Reduces

variable {β : Type*} {body : β → β → β} {init : β} {l : List β} {b : β}

theorem init_body (h : Reduces body init l b) : Reduces body init l (body init b) :=
  Reduces.node .init h

theorem body_init (h : Reduces body init l b) : Reduces body init l (body b init) := by
  have hnode := Reduces.node h .init
  rwa [List.append_nil] at hnode

theorem exists_reduces (body : β → β → β) (init : β) (l : List β) : ∃ b, Reduces body init l b := by
  induction l with
  | nil => exact ⟨init, .init⟩
  | cons a l ih =>
    obtain ⟨b, hb⟩ := ih
    exact ⟨body a b, Reduces.node (.element a) hb⟩

/-- **With an associative function and its neutral value**, every order gives one value. -/
theorem eq_foldr [Std.Associative body] [Std.LawfulIdentity body init]
    (h : Reduces body init l b) : b = l.foldr body init := by
  have hassoc : ∀ a b c : β, body (body a b) c = body a (body b c) := Std.Associative.assoc
  have hfold : ∀ (l : List β) (c : β), l.foldr body c = body (l.foldr body init) c := by
    intro l c
    induction l with
    | nil => exact (Std.LawfulLeftIdentity.left_id c).symm
    | cons a l ih => rw [List.foldr_cons, ih, List.foldr_cons, hassoc]
  induction h with
  | init => rfl
  | element b => exact (Std.LawfulRightIdentity.right_id b).symm
  | node _ _ ih ih' => rw [List.foldr_append, hfold, ← ih, ← ih']

theorem eq_of_forall_eq {c : β} (hinit : init = c) (hbody : body c c = c)
    (hl : ∀ a ∈ l, a = c) (h : Reduces body init l b) : b = c := by
  induction h with
  | init => exact hinit
  | element b => exact hl b (by simp)
  | node _ _ ih ih' =>
    rw [ih fun a ha => hl a (List.mem_append_left _ ha),
      ih' fun a ha => hl a (List.mem_append_right _ ha), hbody]

end Reduces

/-! ## The positions of a window -/

/-- The input position that the position `j` of a window reads for the output position `o`; there
is none in the padding and in the holes of a dilated input. -/
def Window.slot (w : Window) (n o j : ℕ) : Option ℕ :=
  let q : ℤ := o * w.stride + j * w.dilation - w.padLow
  if 0 ≤ q ∧ q % w.baseDilation = 0 ∧ q / w.baseDilation < n then
    some (q / w.baseDilation).toNat
  else none

/-- The input index that an index of the window reads. -/
def slotAt : List Window → List ℕ → List ℕ → List ℕ → Option (List ℕ)
  | w :: ws, n :: shape, o :: os, j :: js => do
      let p ← w.slot n o j
      let ps ← slotAt ws shape os js
      return p :: ps
  | _, _, _, _ => some []

/-- The shape of a window. -/
def sizes (ws : List Window) : List ℕ := ws.map fun w => w.size.toNat

/-- The indices of a window, in row-major order. -/
def windowIndices (ws : List Window) : List (List ℕ) :=
  (List.range (sizes ws).prod).map (unravel (sizes ws))

/-- What the indices of a window read. -/
def slots (ws : List Window) (shape o : List ℕ) : List (Option (List ℕ)) :=
  (windowIndices ws).map (slotAt ws shape o)

/-- The input indices that are read. -/
def reads (ws : List Window) (shape o : List ℕ) : List (List ℕ) :=
  (windowIndices ws).filterMap (slotAt ws shape o)

/-- A window with sizes, strides and dilations as they should be. -/
structure Window.Positive (w : Window) : Prop where
  size : 0 < w.size
  stride : 0 < w.stride
  baseDilation : 0 < w.baseDilation
  dilation : 0 < w.dilation

variable {ws : List Window}

theorem mem_windowIndices {j : List ℕ} : j ∈ windowIndices ws ↔ InShape j (sizes ws) := by
  rw [windowIndices, List.mem_map]
  constructor
  · rintro ⟨k, hk, rfl⟩
    exact inShape_unravel _ k (List.mem_range.mp hk)
  · intro hj
    exact ⟨rowMajor _ j, List.mem_range.mpr (rowMajor_lt hj), unravel_rowMajor hj⟩

theorem nodup_windowIndices (ws : List Window) : (windowIndices ws).Nodup := by
  apply List.Nodup.map_on _ List.nodup_range
  intro k hk k' hk' heq
  rw [← rowMajor_unravel _ k (List.mem_range.mp hk), heq,
    rowMajor_unravel _ k' (List.mem_range.mp hk')]

theorem mem_reads {shape o p : List ℕ} : p ∈ reads ws shape o ↔ some p ∈ slots ws shape o := by
  rw [reads, slots, List.mem_filterMap, List.mem_map]

/-- A position reads an input position when the window does so there. -/
theorem Window.slot_eq_some_iff {w : Window} (hw : 0 < w.baseDilation) {n o j p : ℕ} :
    w.slot n o j = some p ↔
      p < n ∧ (o * w.stride + j * w.dilation - w.padLow : ℤ) = p * w.baseDilation := by
  rw [Window.slot]
  constructor
  · intro h
    simp only [Option.ite_none_right_eq_some, Option.some.injEq] at h
    obtain ⟨⟨hpos, hmod, hlt⟩, hp⟩ := h
    have hdiv := Int.ediv_mul_cancel (Int.dvd_of_emod_eq_zero hmod)
    have hquot : 0 ≤ (o * w.stride + j * w.dilation - w.padLow : ℤ) / w.baseDilation :=
      Int.ediv_nonneg hpos hw.le
    have hcast : (p : ℤ) = (o * w.stride + j * w.dilation - w.padLow : ℤ) / w.baseDilation := by
      rw [← hp, Int.toNat_of_nonneg hquot]
    rw [hcast, hdiv]
    exact ⟨by exact_mod_cast hcast ▸ hlt, rfl⟩
  · rintro ⟨hlt, heq⟩
    have hquot : ((p : ℤ) * w.baseDilation) / w.baseDilation = p := Int.mul_ediv_cancel _ hw.ne'
    simp only [heq, hquot, Int.mul_emod_left, Int.toNat_natCast]
    rw [if_pos]
    exact ⟨mul_nonneg (Int.natCast_nonneg p) hw.le, trivial, by exact_mod_cast hlt⟩

theorem readsAt_cons {w : Window} {o p : ℕ} {os ps : List ℕ} :
    ReadsAt (w :: ws) (o :: os) (p :: ps) ↔ w.Reads o p ∧ ReadsAt ws os ps := by
  constructor
  · intro h
    refine ⟨h 0 (by simp), fun d hd => ?_⟩
    exact h (d + 1) (by simpa using hd)
  · rintro ⟨h, hs⟩ d hd
    cases d with
    | zero => exact h
    | succ d => exact hs d (by simpa using hd)

/-- **What a window reads**: the input indices that its reading relation names. -/
theorem mem_slots_iff {shape o p : List ℕ} (hws : ∀ w ∈ ws, w.Positive)
    (hshape : ws.length = shape.length) (ho : o.length = ws.length) :
    some p ∈ slots ws shape o ↔ InShape p shape ∧ ReadsAt ws o p := by
  have hiff : (∃ j, InShape j (sizes ws) ∧ slotAt ws shape o j = some p) ↔
      InShape p shape ∧ ReadsAt ws o p := by
    induction ws generalizing shape o p with
    | nil =>
      obtain rfl := List.length_eq_zero_iff.mp hshape.symm
      constructor
      · rintro ⟨j, -, hp⟩
        obtain rfl := Option.some.inj hp
        exact ⟨.nil, fun d hd => absurd hd (by simp)⟩
      · rintro ⟨hp, -⟩
        obtain rfl := List.forall₂_nil_right_iff.mp hp
        exact ⟨[], .nil, rfl⟩
    | cons w ws ih =>
      obtain ⟨n, shape, rfl⟩ := List.exists_cons_of_length_eq_add_one hshape.symm
      obtain ⟨o, os, rfl⟩ := List.exists_cons_of_length_eq_add_one ho
      have ih := fun p => ih (o := os) (p := p)
        (fun v hv => hws v (List.mem_cons_of_mem _ hv)) (by simpa using hshape)
        (by simpa using ho)
      have hpos := (hws w (by simp)).baseDilation
      constructor
      · rintro ⟨j, hj, hp⟩
        obtain ⟨j, js, hjlt, hjs, rfl⟩ := List.forall₂_cons_right_iff.mp hj
        obtain ⟨i, hi, hp⟩ := Option.bind_eq_some_iff.mp hp
        obtain ⟨is, his, hp⟩ := Option.bind_eq_some_iff.mp hp
        obtain rfl := Option.some.inj hp
        obtain ⟨hilt, hieq⟩ := (Window.slot_eq_some_iff hpos).mp hi
        obtain ⟨hislt, hisreads⟩ := (ih is).mp ⟨js, hjs, his⟩
        exact ⟨.cons hilt hislt, readsAt_cons.mpr ⟨⟨j, List.mem_range.mpr hjlt, hieq⟩, hisreads⟩⟩
      · rintro ⟨hp, hreads⟩
        obtain ⟨i, is, hilt, hislt, rfl⟩ := List.forall₂_cons_right_iff.mp hp
        obtain ⟨⟨j, hj, hieq⟩, hisreads⟩ := readsAt_cons.mp hreads
        obtain ⟨js, hjs, his⟩ := (ih is).mpr ⟨hislt, hisreads⟩
        refine ⟨j :: js, .cons (List.mem_range.mp hj) hjs, ?_⟩
        rw [slotAt, (Window.slot_eq_some_iff hpos).mpr ⟨hilt, hieq⟩, his]
        rfl
  rw [← hiff, slots, List.mem_map]
  refine exists_congr fun j => ?_
  rw [mem_windowIndices]

/-- No input index is read twice. -/
theorem nodup_reads {shape o : List ℕ} (hws : ∀ w ∈ ws, w.Positive)
    (hshape : ws.length = shape.length) (ho : o.length = ws.length) : (reads ws shape o).Nodup := by
  have hinj : ∀ j j' p, InShape j (sizes ws) → InShape j' (sizes ws) →
      slotAt ws shape o j = some p → slotAt ws shape o j' = some p → j = j' := by
    induction ws generalizing shape o with
    | nil =>
      intro j j' p hj hj' _ _
      rw [List.forall₂_nil_right_iff.mp hj, List.forall₂_nil_right_iff.mp hj']
    | cons w ws ih =>
      obtain ⟨n, shape, rfl⟩ := List.exists_cons_of_length_eq_add_one hshape.symm
      obtain ⟨o, os, rfl⟩ := List.exists_cons_of_length_eq_add_one ho
      intro j j' p hj hj' hp hp'
      obtain ⟨j, js, -, hjs, rfl⟩ := List.forall₂_cons_right_iff.mp hj
      obtain ⟨j', js', -, hjs', rfl⟩ := List.forall₂_cons_right_iff.mp hj'
      obtain ⟨i, hi, hp⟩ := Option.bind_eq_some_iff.mp hp
      obtain ⟨is, his, hp⟩ := Option.bind_eq_some_iff.mp hp
      obtain rfl := Option.some.inj hp
      obtain ⟨i', hi', hp'⟩ := Option.bind_eq_some_iff.mp hp'
      obtain ⟨is', his', hp'⟩ := Option.bind_eq_some_iff.mp hp'
      obtain ⟨rfl, rfl⟩ := List.cons.inj (Option.some.inj hp')
      have hpos := hws w (by simp)
      obtain ⟨-, hieq⟩ := (Window.slot_eq_some_iff hpos.baseDilation).mp hi
      obtain ⟨-, hieq'⟩ := (Window.slot_eq_some_iff hpos.baseDilation).mp hi'
      have hmul : (j : ℤ) * w.dilation = j' * w.dilation := by linarith
      have hj : j = j' := by exact_mod_cast Int.eq_of_mul_eq_mul_right hpos.dilation.ne' hmul
      rw [hj, ih (fun v hv => hws v (List.mem_cons_of_mem _ hv)) (by simpa using hshape)
        (by simpa using ho) js js' is' hjs hjs' his his']
  -- a filter of distinct indices, by an injective function
  have hpair : (windowIndices ws).Pairwise fun j j' =>
      ∀ p, slotAt ws shape o j = some p → ∀ p', slotAt ws shape o j' = some p' → p ≠ p' := by
    refine (nodup_windowIndices ws).imp_of_mem fun {j j'} hj hj' hne p hp p' hp' hpp => ?_
    subst hpp
    exact hne (hinj j j' p (mem_windowIndices.mp hj) (mem_windowIndices.mp hj') hp hp')
  exact List.pairwise_filterMap.mpr hpair

/-! ## Folds over a window -/

/-- Neutral values in the padding add nothing. -/
theorem foldr_slots {β : Type*} (op : β → β → β) (e : β) [Std.LawfulLeftIdentity op e]
    (x : List ℕ → β) (ws : List Window) (shape o : List ℕ) :
    ((slots ws shape o).map fun s => s.elim e x).foldr op e
      = ((reads ws shape o).map x).foldr op e := by
  rw [slots, reads, List.map_map]
  induction windowIndices ws with
  | nil => rfl
  | cons j js ih =>
    rw [List.map_cons, List.foldr_cons, ih, List.filterMap_cons]
    cases h : slotAt ws shape o j with
    | none =>
      rw [Function.comp_apply, h]
      exact Std.LawfulLeftIdentity.left_id _
    | some p =>
      rw [Function.comp_apply, h]
      rfl

/-- The maximum over what is read. -/
theorem foldr_reads_max {β : Type*} [LinearOrder β] [OrderBot β]
    {shape o : List ℕ} (hws : ∀ w ∈ ws, w.Positive) (hshape : ws.length = shape.length)
    (ho : o.length = ws.length) (x : List ℕ → β) :
    ((reads ws shape o).map x).foldr max ⊥ = windowMax ws shape x o := by
  apply eq_of_forall_ge_iff
  intro b
  rw [foldr_max_le_iff, windowMax_le_iff, List.forall_mem_map]
  constructor
  · intro h p hp hreads
    exact h p (mem_reads.mpr ((mem_slots_iff hws hshape ho).mpr ⟨hp, hreads⟩))
  · intro h p hp
    obtain ⟨hp, hreads⟩ := (mem_slots_iff hws hshape ho).mp (mem_reads.mp hp)
    exact h p hp hreads

/-- The sum over a window. -/
def windowSum {β : Type*} [AddMonoid β] (ws : List Window) (shape : List ℕ) (x : List ℕ → β)
    (o : List ℕ) : β :=
  ((reads ws shape o).map x).sum

/-- A sum over distinct indices sees a mark. -/
theorem sum_mark {l : List (List ℕ)} (hl : l.Nodup) (p : List ℕ) :
    (l.map fun q => if q = p then (1 : ℚ) else 0).sum = if p ∈ l then 1 else 0 := by
  induction l with
  | nil => rfl
  | cons a l ih =>
    rw [List.nodup_cons] at hl
    rw [List.map_cons, List.sum_cons, ih hl.2]
    by_cases hap : a = p
    · subst hap
      rw [if_pos rfl, if_neg hl.1, if_pos (by simp), add_zero]
    · have hmem : p ∈ a :: l ↔ p ∈ l := by simp [Ne.symm hap]
      rw [if_neg hap, zero_add]
      simp only [hmem]

/-- **Sums over distinct indices** agree when the indices do. -/
theorem sum_eq_iff {l l' : List (List ℕ)} (hl : l.Nodup) (hl' : l'.Nodup) :
    (∀ x : List ℕ → ℚ, (l.map x).sum = (l'.map x).sum) ↔ ∀ p, p ∈ l ↔ p ∈ l' := by
  constructor
  · intro h p
    have hmark := h fun q => if q = p then 1 else 0
    rw [sum_mark hl, sum_mark hl'] at hmark
    by_cases hp : p ∈ l <;> by_cases hp' : p ∈ l' <;> simp_all
  · intro h x
    exact (((List.perm_ext_iff_of_nodup hl hl').mpr h).map x).sum_eq

end Pooling
