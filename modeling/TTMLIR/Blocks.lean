/-
# Tensors cut into blocks and joined again

A tensor whose extent along a dimension is a multiple of `n` has `n` blocks of equal extent
along it.  Tensors of one shape are joined along a dimension by putting them one behind the
other.

* `block` : one of the blocks;
* `Joins` : what a tensor joined from others contains;
* `joins_join` : the joined tensor as a function;
* `agree_of_joins_blocks` : joining the blocks of a tensor gives the tensor back.
-/
import TTMLIR.BroadcastReshape

namespace TTIR

namespace Tensor

open MixedRadix

variable {α : Type*}

/-- The `i`-th of `n` blocks along a dimension. -/
def block (d n i : ℕ) (x : Tensor α) : Tensor α :=
  ⟨x.shape.set d (x.shape.getD d 0 / n),
    fun idx => x.elem (idx.set d (i * (x.shape.getD d 0 / n) + idx.getD d 0))⟩

/-- The tensors, all of one shape, are put one behind the other along a dimension. -/
structure Joins (d : ℕ) (partShape : List ℕ) (parts : List (Tensor α)) (whole : Tensor α) :
    Prop where
  shape : whole.shape = partShape.set d (parts.length * partShape.getD d 0)
  elem : ∀ idx part, InShape idx whole.shape →
    parts[idx.getD d 0 / partShape.getD d 0]? = some part →
      whole.elem idx = part.elem (idx.set d (idx.getD d 0 % partShape.getD d 0))

/-- Tensors of one shape, joined along a dimension. -/
def join (d : ℕ) (shape : List ℕ) (parts : List (Tensor α)) (default : Tensor α) : Tensor α :=
  ⟨shape.set d (parts.length * shape.getD d 0), fun idx =>
    (parts.getD (idx.getD d 0 / shape.getD d 0) default).elem
      (idx.set d (idx.getD d 0 % shape.getD d 0))⟩

/-- The joined tensor joins its parts. -/
theorem joins_join (d : ℕ) (shape : List ℕ) (parts : List (Tensor α)) (default : Tensor α) :
    Joins d shape parts (join d shape parts default) where
  shape := rfl
  elem idx part _ hpart := by
    show (parts.getD (idx.getD d 0 / shape.getD d 0) default).elem _ = _
    rw [List.getD_eq_getElem?_getD, hpart]
    rfl

/-! ## Agreement -/

theorem Agree.refl (x : Tensor α) : x.Agree x := ⟨rfl, fun _ _ => rfl⟩

/-! ## Entries of a list set at a position -/

section Set

variable {d : ℕ}

theorem getD_set_of_lt {l : List ℕ} (h : d < l.length) (a : ℕ) : (l.set d a).getD d 0 = a := by
  rw [List.getD_eq_getElem?_getD, List.getElem?_set_self h]
  rfl

theorem set_getD_of_lt {l : List ℕ} (h : d < l.length) : l.set d (l.getD d 0) = l := by
  rw [List.getD_eq_getElem _ _ h, List.set_getElem_self]

/-- Another coordinate in a dimension of another extent. -/
theorem inShape_set_set {idx shape : List ℕ} (h : InShape idx shape) {a n : ℕ} (ha : a < n) :
    InShape (idx.set d a) (shape.set d n) := by
  induction h generalizing d with
  | nil => exact .nil
  | cons hlt hrest ih =>
    cases d with
    | zero => exact .cons ha hrest
    | succ d => exact .cons hlt ih

end Set

/-! ## Blocks joined again -/

variable {x y : Tensor α} {d n : ℕ}

/-- **Blocks joined again.**  Tensors that agree with the blocks of a tensor are joined to a
tensor that agrees with it. -/
theorem agree_of_joins_blocks (hd : d < x.shape.length) (hn : 0 < n)
    (hdvd : n ∣ x.shape.getD d 0) {parts : List (Tensor α)} (hparts : parts.length = n)
    (hblocks : ∀ i (hi : i < parts.length), (parts[i]).Agree (x.block d n i))
    (h : Joins d (x.shape.set d (x.shape.getD d 0 / n)) parts y) : y.Agree x := by
  obtain ⟨len, hlen⟩ := hdvd
  have hdiv : x.shape.getD d 0 / n = len := by rw [hlen, Nat.mul_div_cancel_left _ hn]
  have hshape := h.shape
  rw [hdiv, getD_set_of_lt hd, List.set_set, hparts, ← hlen, set_getD_of_lt hd] at hshape
  refine ⟨hshape, fun idx hidx => ?_⟩
  have hinx : InShape idx x.shape := hshape ▸ hidx
  have hidxd : d < idx.length := hinx.length_eq ▸ hd
  have hlt : idx.getD d 0 < n * len := hlen ▸ getD_lt_of_inShape hinx hd
  have hpos : 0 < len := Nat.pos_of_mul_pos_left (Nat.zero_lt_of_lt hlt)
  have hi : idx.getD d 0 / len < parts.length := by
    rw [hparts, Nat.div_lt_iff_lt_mul hpos]
    exact hlt
  have hjoin := h.elem idx parts[idx.getD d 0 / len] hidx
    (by rw [hdiv, getD_set_of_lt hd, List.getElem?_eq_getElem hi])
  rw [hdiv, getD_set_of_lt hd] at hjoin
  have hagree := hblocks _ hi
  have hinside : InShape (idx.set d (idx.getD d 0 % len)) (parts[idx.getD d 0 / len]).shape := by
    rw [hagree.1]
    show InShape _ (x.shape.set d (x.shape.getD d 0 / n))
    rw [hdiv]
    exact inShape_set_set hinx (Nat.mod_lt _ hpos)
  rw [hjoin, hagree.2 _ hinside]
  show x.elem ((idx.set d (idx.getD d 0 % len)).set d _) = x.elem idx
  rw [hdiv, getD_set_of_lt hidxd, List.set_set, Nat.div_add_mod', set_getD_of_lt hidxd]

end Tensor

end TTIR
