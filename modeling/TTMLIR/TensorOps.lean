/-
# Elementwise operations and reductions of tensors

What further operations compute on the tensors of `BroadcastReshape.lean`, and the rules by
which their shapes are checked.

* `clamp` : the index of an operand that is stretched to the shape of a result;
* `map`, `zip`, `sumKeepDim`, `softmax` : the operations;
* `broadcastedShape` : the common shape of operands of any ranks;
* `clamp_of_inShape` : an operand of the shape of the result is read at the index itself.
-/
import TTMLIR.BroadcastReshape

namespace TTIR

open MixedRadix

/-! ## Shapes that broadcast -/

/-- Extents of one put before a shape, up to a rank. -/
def padFront (rank : ℕ) (shape : List ℕ) : List ℕ :=
  List.replicate (rank - shape.length) 1 ++ shape

/-- `OpTrait::util::getBroadcastedShape` for shapes of any ranks, aligned at their last
dimensions. -/
def broadcastedShape (s t : List ℕ) : Option (List ℕ) :=
  getBroadcastedShape (padFront (max s.length t.length) s) (padFront (max s.length t.length) t)

/-- The index at which an operand that is stretched is read. -/
def clamp (shape idx : List ℕ) : List ℕ :=
  List.zipWith (· % ·) (idx.drop (idx.length - shape.length)) shape

/-- A shape of the wanted rank is not padded. -/
theorem padFront_self (s : List ℕ) : padFront s.length s = s := by
  rw [padFront, Nat.sub_self, List.replicate_zero, List.nil_append]

theorem broadcastedShape_of_length {s t : List ℕ} (h : s.length = t.length) :
    broadcastedShape s t = getBroadcastedShape s t := by
  have hs : max s.length t.length = s.length := by omega
  have ht : max s.length t.length = t.length := by omega
  rw [broadcastedShape]
  nth_rewrite 1 [hs]
  rw [ht, padFront_self, padFront_self]

/-- Broadcasting the empty shape is broadcasting a scalar. -/
theorem broadcastedShape_nil (s : List ℕ) : broadcastedShape [] s = some s := by
  have hmax : max ([] : List ℕ).length s.length = s.length := by simp
  rw [broadcastedShape, hmax, padFront_self, padFront]
  induction s with
  | nil => rfl
  | cons n s ih =>
    simp only [List.length_cons, List.length_nil, Nat.sub_zero, List.replicate_succ,
      List.append_nil, getBroadcastedShape] at ih ⊢
    by_cases hn : n = 1
    · subst hn
      simp [ih (by simp)]
    · have hne : ¬ ((1 : ℕ) = n ∨ n = 1) := by omega
      simp [hne, ih (by simp)]

theorem getBroadcastedShape_self (s : List ℕ) : getBroadcastedShape s s = some s := by
  induction s with
  | nil => rfl
  | cons n s ih => simp [getBroadcastedShape, ih]

theorem broadcastedShape_self (s : List ℕ) : broadcastedShape s s = some s := by
  rw [broadcastedShape_of_length rfl, getBroadcastedShape_self]

/-- Broadcasting goes dimension by dimension. -/
theorem getBroadcastedShape_cons {m n : ℕ} {ms ns r : List ℕ}
    (h : getBroadcastedShape (m :: ms) (n :: ns) = some r) :
    ∃ e es, r = e :: es ∧ getBroadcastedShape ms ns = some es ∧
      (e = m ∧ (m = n ∨ n = 1) ∨ e = n ∧ m = 1) := by
  rw [getBroadcastedShape] at h
  split_ifs at h with h1 h2
  · obtain ⟨es, hes, rfl⟩ := Option.map_eq_some_iff.mp h
    exact ⟨m, es, rfl, hes, .inl ⟨rfl, h1⟩⟩
  · obtain ⟨es, hes, rfl⟩ := Option.map_eq_some_iff.mp h
    exact ⟨n, es, rfl, hes, .inr ⟨rfl, h2⟩⟩

/-- A shape is the broadcast of itself and another one when no dimension of the other is
longer. -/
theorem getBroadcastedShape_eq_left_iff {n b : List ℕ} :
    getBroadcastedShape n b = some n ↔ List.Forall₂ (fun n b => b = n ∨ b = 1) n b := by
  constructor
  · intro h
    induction n generalizing b with
    | nil =>
      cases b with
      | nil => exact .nil
      | cons _ _ => cases h
    | cons m n ih =>
      cases b with
      | nil => cases h
      | cons e b =>
        obtain ⟨e', es, heq, hes, he⟩ := getBroadcastedShape_cons h
        obtain ⟨rfl, rfl⟩ := List.cons.inj heq
        refine .cons ?_ (ih hes)
        omega
  · intro h
    induction h with
    | nil => rfl
    | cons h _ ih =>
      rw [getBroadcastedShape, if_pos (h.imp Eq.symm id), ih]
      rfl

/-- Broadcasting does not depend on the order of the operands. -/
theorem getBroadcastedShape_comm (s t : List ℕ) :
    getBroadcastedShape s t = getBroadcastedShape t s := by
  induction s generalizing t with
  | nil => cases t <;> rfl
  | cons m s ih =>
    cases t with
    | nil => rfl
    | cons n t =>
      rw [getBroadcastedShape, getBroadcastedShape, ih t]
      by_cases hmn : m = n
      · rw [hmn]
      · by_cases hm : m = 1 <;> by_cases hn : n = 1 <;> simp [hm, hn, hmn, Ne.symm hmn] <;> omega

theorem broadcastedShape_nil_right (s : List ℕ) : broadcastedShape s [] = some s := by
  rw [broadcastedShape, getBroadcastedShape_comm, Nat.max_comm]
  exact broadcastedShape_nil s

/-! ## Reading a stretched operand -/

theorem clamp_of_length {shape idx : List ℕ} (h : idx.length = shape.length) :
    clamp shape idx = List.zipWith (· % ·) idx shape := by
  rw [clamp, h, Nat.sub_self, List.drop_zero]

/-- Indices of the shape are not clamped. -/
theorem clamp_of_inShape {shape idx : List ℕ} (h : InShape idx shape) : clamp shape idx = idx := by
  rw [clamp_of_length h.length_eq]
  induction h with
  | nil => rfl
  | cons hlt _ ih => rw [List.zipWith_cons_cons, Nat.mod_eq_of_lt hlt, ih]

/-- A scale is read at the output channel alone. -/
theorem clamp_scale {a b c o n : ℕ} (ho : o < n) : clamp [1, 1, 1, n] [a, b, c, o] =
    [0, 0, 0, o] := by
  simp [clamp, Nat.mod_one, Nat.mod_eq_of_lt ho]

namespace Tensor

variable {α β γ : Type*}

/-! ## Operations -/

/-- An operation on every element. -/
def map (f : α → β) (x : Tensor α) : Tensor β := ⟨x.shape, fun idx => f (x.elem idx)⟩

/-- An operation on the elements of two tensors, stretched to the shape of the result. -/
def zip (f : α → β → γ) (shape : List ℕ) (x : Tensor α) (y : Tensor β) : Tensor γ :=
  ⟨shape, fun idx => f (x.elem (clamp x.shape idx)) (y.elem (clamp y.shape idx))⟩

/-- The sums along one dimension, which is kept with extent one. -/
def sumKeepDim [AddCommMonoid α] (x : Tensor α) (d : ℕ) : Tensor α :=
  ⟨x.shape.set d 1, fun idx => ∑ k ∈ Finset.range (x.shape.getD d 0), x.elem (idx.set d k)⟩

/-- Every element divided by the sum of the elements along one dimension. -/
def normalize [AddCommMonoid α] [Div α] (x : Tensor α) (d : ℕ) : Tensor α :=
  ⟨x.shape, fun idx =>
    x.elem idx / ∑ k ∈ Finset.range (x.shape.getD d 0), x.elem (idx.set d k)⟩

/-- The normalized exponentials along one dimension. -/
def softmax [AddCommMonoid α] [Div α] (exp : α → α) (x : Tensor α) (d : ℕ) : Tensor α :=
  (x.map exp).normalize d

end Tensor

end TTIR
