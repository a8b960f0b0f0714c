/-
# Commuting transposes and permutes above a broadcast

`TTIRCommuteTransposesAboveBroadcast` and `TTIRCommutePermuteAboveBroadcast` rewrite
`broadcast; transpose` into `transpose; broadcast`, and the same for a permute.  Both fire when
all users of the broadcast are the same manipulation.

* `TransposeOp`, `PermuteOp` : the operations and their verifiers;
* `Tensor.permute`, `Tensor.transpose` : what they compute, with `broadcast_permute`;
* `matchAndRewriteTM` : the two patterns;
* `Commutes` : the rewritten operations verify and compute the same tensor;
* `commutes_iff` : when they do.

The verifier of a transpose takes negative dimensions from the back, and the pattern takes the
attribute as an index.  The driver folds an operation when it visits it, and the folder of a
transpose counts its dimensions from the front; it visits operations from the last one on, so a
transpose is not folded yet if its block is listed in front of the block of the broadcast.
-/
import TTMLIR.BroadcastReshape
import TTMLIR.Fallible
import TTMLIR.Rearrange

namespace TTIR

open MixedRadix Rearrange Fallible

/-! ## Manipulations of tensors -/

namespace Tensor

variable {α : Type*}

/-- Dimension `i` of the result is dimension `p[i]` of the tensor. -/
def permute (x : Tensor α) (p : List ℕ) : Tensor α :=
  ⟨gather p x.shape, fun idx => x.elem (gather (inverse p) idx)⟩

/-- A permuted broadcast is the broadcast of the permuted tensor. -/
theorem broadcast_permute (x : Tensor α) {p dims : List ℕ}
    (hp : IsPermutation x.shape.length p) (hdims : dims.length = x.shape.length) :
    ((x.broadcast dims).permute p).Agree ((x.permute p).broadcast (gather p dims)) := by
  have hmem : ∀ i ∈ p, i < x.shape.length := fun i hi => hp.lt hi
  refine ⟨(zipWith_gather _ hmem hdims.symm).symm, fun idx hidx => ?_⟩
  show x.elem _ = x.elem _
  congr 1
  have hlen : idx.length = p.length := by
    rw [hidx.length_eq]
    exact length_gather p _
  have hback : gather (inverse p) (x.permute p).shape = x.shape := hp.gather_inverse_gather rfl
  -- put the index back before and after it is clamped
  rw [← zipWith_gather _ (fun i hi => by rw [hlen, hp.length_eq]; exact hp.inverse.lt hi)
    (by rw [hlen]; exact (length_gather p _).symm), hback]

end Tensor

/-! ## The operations -/

/-- A dimension counted from the back when it is negative. -/
def wrapDim (rank : ℕ) (dim : ℤ) : ℤ := if dim < 0 then dim + rank else dim

/-- `ttir.transpose`: the shapes of its operand and result, and its attributes. -/
structure TransposeOp where
  input : List ℕ
  dim0 : ℤ
  dim1 : ℤ
  output : List ℕ
deriving DecidableEq, Repr

/-- A dimension that the verifier of a transpose accepts. -/
def InBounds (rank : ℕ) (dim : ℤ) : Prop := dim < rank ∧ -rank ≤ dim

instance (rank : ℕ) (dim : ℤ) : Decidable (InBounds rank dim) :=
  inferInstanceAs (Decidable (_ ∧ _))

namespace TransposeOp

/-- The dimensions that are exchanged. -/
def dims (op : TransposeOp) : ℕ × ℕ :=
  ((wrapDim op.input.length op.dim0).toNat, (wrapDim op.input.length op.dim1).toNat)

/-- `TransposeOp::verify`. -/
def verify (op : TransposeOp) : Except String Unit :=
  if op.input.length < 2 then .error "Input must be at least a 2D tensor"
  else if op.input.length ≠ op.output.length then
    .error "Input must have the same rank as output"
  else if ¬ InBounds op.input.length op.dim0 then
    .error "Dimension 0 attribute must be within the bounds of the input tensor"
  else if ¬ InBounds op.input.length op.dim1 then
    .error "Dimension 1 attribute must be within the bounds of the input tensor"
  else if op.output.getD op.dims.1 0 ≠ op.input.getD op.dims.2 0 ∨
      op.output.getD op.dims.2 0 ≠ op.input.getD op.dims.1 0 then
    .error "Input-output transpose dimension mismatch."
  else .ok ()

/-- `TransposeOp::fold`, where it changes the dimensions: `sortTansposeDims` and
`forcePositiveTransposeDims`. -/
def foldInPlace (op : TransposeOp) : Option TransposeOp :=
  if op.dim0 = op.dim1 then none
  else if ¬ op.dim0 < op.dim1 then some { op with dim0 := op.dim1, dim1 := op.dim0 }
  else if op.dim0 ≥ 0 ∧ op.dim1 ≥ 0 then none
  else if op.dim0 < 0 then some { op with dim0 := op.dim0 + op.input.length }
  else some { op with dim1 := op.dim1 + op.input.length }

/-- The permutation that a transpose is. -/
def permutation (op : TransposeOp) : List ℕ := swapped op.input.length op.dims.1 op.dims.2

end TransposeOp

/-- `input[i]` of a vector. -/
def elementAt (l : List ℕ) (i : ℤ) : Except String ℕ :=
  if 0 ≤ i ∧ i < l.length then .ok (l.getD i.toNat 0) else .error "idx < size()"

/-- `ttmlir::utils::applyPermutation`. -/
def applyPermutation (input : List ℕ) (permutation : List ℤ) : Except String (List ℕ) :=
  if input.length ≠ permutation.length then .error "input.size() == permutation.size()"
  else permutation.mapM (elementAt input)

/-- `ttir.permute`: the shapes of its operand and result, and its attribute. -/
structure PermuteOp where
  input : List ℕ
  permutation : List ℤ
  output : List ℕ
deriving DecidableEq, Repr

/-- `PermuteOp::verify`. -/
def PermuteOp.verify (op : PermuteOp) : Except String Unit :=
  if op.input.length ≠ op.permutation.length ∨
      ¬ op.permutation.Perm ((List.range op.input.length).map fun n : ℕ => (n : ℤ)) then
    .error "Expected a permutation"
  else do
    let expectedResultShape ← applyPermutation op.input op.permutation
    if expectedResultShape ≠ op.output then .error "Expected result shape" else .ok ()

/-- A user of a broadcast, with its types. -/
inductive TM where
  | transpose (op : TransposeOp)
  | permute (op : PermuteOp)
  | reshape (op : ReshapeOp)
  | other
deriving DecidableEq, Repr

namespace TM

/-- The attributes that `checkIdenticalTms` compares. -/
def toUser : TM → User
  | transpose op => .transpose op.dim0 op.dim1
  | permute op => .permute op.permutation
  | reshape op => .reshape op
  | other => .other

/-- The shape of the operand. -/
def input : TM → List ℕ
  | transpose op => op.input
  | permute op => op.input
  | reshape op => op.input
  | other => []

/-- The shape of the result. -/
def output : TM → List ℕ
  | transpose op => op.output
  | permute op => op.output
  | reshape op => op.output
  | other => []

/-- The verifiers. -/
def verify : TM → Except String Unit
  | transpose op => op.verify
  | permute op => op.verify
  | reshape op => op.verify
  | other => .ok ()

/-- What a manipulation computes; its result has the declared shape. -/
def apply {α : Type*} (x : Tensor α) : TM → Option (Tensor α)
  | transpose op => some (x.permute op.permutation)
  | permute op => some (x.permute (op.permutation.map Int.toNat))
  | reshape op => some (x.reshape op.output)
  | other => none

/-- A manipulation of tensors of one shape that verifies and computes what its types say. -/
structure Typed (tm : TM) (shape : List ℕ) : Prop where
  input : tm.input = shape
  verify : tm.verify = .ok ()
  output : ∀ {α : Type} (x y : Tensor α), x.shape = shape → tm.apply x = some y →
    tm.output = y.shape

/-- No dimension is counted from the back. -/
def FromFront : TM → Prop
  | transpose op => 0 ≤ op.dim0 ∧ 0 ≤ op.dim1
  | _ => True

/-- The folder has nothing to do: a transpose has two dimensions, in their final form. -/
def Folded : TM → Prop
  | transpose op => op.dim0 ≠ op.dim1 ∧ op.foldInPlace = none
  | _ => True

/-- A folded transpose counts its dimensions from the front. -/
theorem FromFront.of_folded {tm : TM} (h : tm.Folded) : tm.FromFront := by
  cases tm with
  | transpose op =>
    obtain ⟨hne, hfold⟩ := h
    rw [TransposeOp.foldInPlace, if_neg hne] at hfold
    split_ifs at hfold with hsorted hfront
    exact hfront
  | _ => trivial

end TM

/-! ## The patterns -/

/-- The two patterns, by the manipulation they look for. -/
inductive TMPattern where
  | transposes
  | permutes
deriving DecidableEq, Repr

/-- `dyn_cast<TMOpType>`. -/
def TMPattern.isa : TMPattern → TM → Bool
  | .transposes, .transpose _ => true
  | .permutes, .permute _ => true
  | _, _ => false

/-- The search for a user to commute; both patterns are viable for every user, and favorable
when all users are identical. -/
def TMPattern.findUserToCommute (pattern : TMPattern) (users : List TM) : Option TM :=
  users.find? fun user => pattern.isa user && isCommuteFavorable (users.map TM.toUser)

/-- `std::swap` of two elements of a vector. -/
def swapElements (l : List ℕ) (i j : ℤ) : Except String (List ℕ) := do
  let a ← elementAt l i
  let b ← elementAt l j
  .ok ((l.set i.toNat b).set j.toNat a)

/-- The two operations a rewrite creates. All users of the broadcast are replaced with
`newBroadcast`. -/
structure TMRewrite where
  newTM : TM
  newBroadcast : BroadcastOp
deriving DecidableEq, Repr

/-- The manipulation above the broadcast, and the new broadcast dimensions. -/
def newTMAndBroadcastDims (op : BroadcastOp) : TM → Except String (TM × List ℕ)
  | .transpose user => do
      let newShape ← swapElements op.input user.dim0 user.dim1
      let newBroadcastDimensions ← swapElements op.broadcastDimensions user.dim0 user.dim1
      .ok (.transpose ⟨op.input, user.dim0, user.dim1, newShape⟩, newBroadcastDimensions)
  | .permute user => do
      let newShape ← applyPermutation op.input user.permutation
      let newBroadcastDimensions ← applyPermutation op.broadcastDimensions user.permutation
      .ok (.permute ⟨op.input, user.permutation, newShape⟩, newBroadcastDimensions)
  | _ => .error "no pattern commutes this manipulation"

/-- `performCommuteRewrite` of both patterns. -/
def performTMRewrite (op : BroadcastOp) (users : List TM) (user : TM) :
    Except String TMRewrite := do
  let (newTM, newBroadcastDimensions) ← newTMAndBroadcastDims op user
  if newBroadcastDimensions.length ≠ user.output.length then
    .error "newBroadcastDimensions.size() == tmResultType.getRank()"
  else if ¬ users.all fun u => checkIdenticalTms user.toUser u.toUser then
    .error "shouldCommute should have ensured this is true"
  else .ok ⟨newTM, ⟨newTM.output, newBroadcastDimensions, user.output⟩⟩

/-- `matchAndRewriteImpl` of both patterns: `none` when the pattern does not fire. -/
def matchAndRewriteTM (pattern : TMPattern) (op : BroadcastOp) (users : List TM) :
    Except String (Option TMRewrite) :=
  match pattern.findUserToCommute users with
  | none => .ok none
  | some user => (performTMRewrite op users user).map some

/-- The rewrite is performed, its operations verify, and what replaces the users of the
broadcast has their shape and their elements. -/
def Commutes (pattern : TMPattern) (op : BroadcastOp) (users : List TM) : Prop :=
  ∃ rewrite, matchAndRewriteTM pattern op users = .ok (some rewrite) ∧
    rewrite.newTM.Typed op.input ∧ rewrite.newBroadcast.verify = .ok () ∧
    rewrite.newBroadcast.input = rewrite.newTM.output ∧
    ∀ user ∈ users, rewrite.newBroadcast.output = user.output ∧
      ∀ {α : Type} (x : Tensor α), x.shape = op.input →
        ∃ before moved, user.apply (x.broadcast op.broadcastDimensions) = some before ∧
          rewrite.newTM.apply x = some moved ∧
          before.Agree (moved.broadcast rewrite.newBroadcast.broadcastDimensions)

/-! ## Vectors -/

section Vectors

variable {l : List ℕ}

theorem elementAt_natCast {i : ℕ} (hi : i < l.length) : elementAt l i = .ok (l.getD i 0) := by
  rw [elementAt, if_pos ⟨Int.natCast_nonneg i, Int.ofNat_lt.mpr hi⟩, Int.toNat_natCast]

theorem elementAt_of_neg {i : ℤ} (hi : i < 0) : elementAt l i = .error "idx < size()" := by
  rw [elementAt, if_neg fun h => absurd h.1 (not_le.mpr hi)]

theorem applyPermutation_natCast {p : List ℕ} (hp : IsPermutation l.length p) :
    applyPermutation l (p.map fun n : ℕ => (n : ℤ)) = .ok (gather p l) := by
  rw [applyPermutation, if_neg (by rw [List.length_map, hp.length_eq]; exact not_not.mpr rfl),
    mapM_eq_ok_map (g := fun i => l.getD i.toNat 0)]
  · rw [List.map_map]
    rfl
  · intro i hi
    obtain ⟨n, hn, rfl⟩ := List.mem_map.mp hi
    exact elementAt_natCast (hp.lt hn)

/-- Two elements are swapped by gathering. -/
theorem swapElements_natCast {i j : ℕ} (hi : i < l.length) (hj : j < l.length) :
    swapElements l i j = .ok (gather (swapped l.length i j) l) := by
  have hswap : (l.set i (l.getD j 0)).set j (l.getD i 0) = gather (swapped l.length i j) l := by
    apply List.ext_getElem (by simp)
    intro k hk _
    have hk' : k < l.length := by simpa using hk
    have hbound : k < (swapped l.length i j).length := by simpa using hk'
    have hentry : (swapped l.length i j)[k] = if k = i then j else if k = j then i else k := by
      simp [swapped]
    have hlt : (swapped l.length i j)[k] < l.length := by
      rw [hentry]
      split_ifs <;> assumption
    rw [getElem_gather hbound hlt]
    simp only [hentry, List.getElem_set, List.getD, List.getElem?_eq_getElem hi,
      List.getElem?_eq_getElem hj, Option.getD_some]
    by_cases hki : k = i
    · subst hki
      by_cases hkj : j = k
      · subst hkj
        simp
      · simp [hkj]
    · by_cases hkj : k = j
      · subst hkj
        simp [hki]
      · simp [hki, hkj, Ne.symm hki, Ne.symm hkj]
  rw [swapElements, elementAt_natCast hi, elementAt_natCast hj, ← hswap, Int.toNat_natCast,
    Int.toNat_natCast]
  rfl

theorem swapElements_of_neg {i j : ℤ} (h : i < 0 ∨ j < 0) (r : List ℕ) :
    swapElements l i j ≠ .ok r := by
  intro hok
  obtain ⟨a, ha, hok⟩ := bind_eq_ok.mp hok
  obtain ⟨b, hb, -⟩ := bind_eq_ok.mp hok
  rcases h with h | h
  · rw [elementAt_of_neg h] at ha
    cases ha
  · rw [elementAt_of_neg h] at hb
    cases hb

end Vectors

/-! ## What the verifiers promise -/

theorem TransposeOp.verify_spec {op : TransposeOp} (h : op.verify = .ok ()) :
    2 ≤ op.input.length ∧ InBounds op.input.length op.dim0 ∧ InBounds op.input.length op.dim1 := by
  unfold TransposeOp.verify at h
  split_ifs at h with h1 h2 h3 h4 h5
  exact ⟨by omega, h3, h4⟩

theorem TransposeOp.dims_lt {op : TransposeOp} (h : op.verify = .ok ()) :
    op.dims.1 < op.input.length ∧ op.dims.2 < op.input.length := by
  obtain ⟨-, h0, h1⟩ := op.verify_spec h
  unfold InBounds at h0 h1
  simp only [TransposeOp.dims, wrapDim]
  constructor <;> split_ifs <;> omega

/-- A verified permute permutes the dimensions. -/
theorem PermuteOp.verify_spec {op : PermuteOp} (h : op.verify = .ok ()) :
    ∃ p : List ℕ, op.permutation = p.map (fun n : ℕ => (n : ℤ)) ∧
      IsPermutation op.input.length p ∧ op.output = gather p op.input := by
  unfold PermuteOp.verify at h
  split_ifs at h with hperm
  rw [not_or, not_not, not_not] at hperm
  obtain ⟨hlen, hperm⟩ := hperm
  have hback : (op.permutation.map Int.toNat).map (fun n : ℕ => (n : ℤ)) = op.permutation := by
    rw [List.map_map]
    refine (List.map_congr_left ?_).trans (List.map_id _)
    intro i hi
    obtain ⟨n, -, rfl⟩ := List.mem_map.mp (hperm.mem_iff.mp hi)
    rfl
  have hp : IsPermutation op.input.length (op.permutation.map Int.toNat) := by
    have := hperm.map Int.toNat
    rw [List.map_map] at this
    exact this.trans (List.Perm.of_eq (List.map_id _))
  refine ⟨op.permutation.map Int.toNat, hback.symm, hp, ?_⟩
  obtain ⟨expected, hexpected, h⟩ := bind_eq_ok.mp h
  rw [← hback, applyPermutation_natCast hp] at hexpected
  obtain rfl := Except.ok.inj hexpected
  split_ifs at h with hout
  exact (not_not.mp hout).symm

theorem map_toNat_map_natCast (p : List ℕ) : (p.map fun n : ℕ => (n : ℤ)).map Int.toNat = p := by
  rw [List.map_map]
  exact List.map_id p

theorem PermuteOp.verify_gather {input p : List ℕ} (hp : IsPermutation input.length p) :
    (PermuteOp.mk input (p.map (↑)) (gather p input)).verify = .ok () := by
  have hperm : ¬ (input.length ≠ (p.map fun n : ℕ => (n : ℤ)).length ∨
      ¬ (p.map fun n : ℕ => (n : ℤ)).Perm ((List.range input.length).map fun n : ℕ => (n : ℤ))) := by
    rw [not_or, not_not, not_not, List.length_map, hp.length_eq]
    exact ⟨rfl, List.Perm.map _ hp⟩
  rw [PermuteOp.verify, if_neg hperm, applyPermutation_natCast hp]
  exact if_neg (not_not.mpr rfl)

/-- The shapes that broadcast to a common shape agree, or are one, at every dimension. -/
theorem getBroadcastedShape_ne_none_iff {a b : List ℕ} :
    getBroadcastedShape a b ≠ none ↔ List.Forall₂ (fun m n => m = n ∨ n = 1 ∨ m = 1) a b := by
  induction a generalizing b with
  | nil =>
    cases b with
    | nil => simp [getBroadcastedShape]
    | cons n ns => simp [getBroadcastedShape]
  | cons m ms ih =>
    cases b with
    | nil => simp [getBroadcastedShape]
    | cons n ns =>
      rw [getBroadcastedShape, List.forall₂_cons, ← ih]
      by_cases h : m = n ∨ n = 1
      · rw [if_pos h, ne_eq, Option.map_eq_none_iff]
        exact ⟨fun hne => ⟨h.elim Or.inl fun h => Or.inr (Or.inl h), hne⟩, And.right⟩
      · rw [if_neg h]
        by_cases hm : m = 1
        · rw [if_pos hm, ne_eq, Option.map_eq_none_iff]
          exact ⟨fun hne => ⟨Or.inr (Or.inr hm), hne⟩, And.right⟩
        · rw [if_neg hm]
          refine ⟨fun hne => absurd rfl hne, ?_⟩
          rintro ⟨hcase | hcase | hcase, -⟩
          · exact absurd (Or.inl hcase) h
          · exact absurd (Or.inr hcase) h
          · exact absurd hcase hm

/-- The verifier of a broadcast, by its checks. -/
theorem BroadcastOp.verify_iff {op : BroadcastOp} : op.verify = .ok () ↔
    List.Forall₂ (fun m n => m = n ∨ n = 1 ∨ m = 1) op.input op.output ∧
      op.broadcastDimensions.length = op.input.length ∧
      op.output = List.zipWith (· * ·) op.input op.broadcastDimensions := by
  constructor
  · intro h
    obtain ⟨hlen, hout⟩ := op.verify_spec h
    refine ⟨?_, hlen, hout⟩
    unfold BroadcastOp.verify at h
    split_ifs at h with hrank hshape
    exact getBroadcastedShape_ne_none_iff.mp hshape
  · rintro ⟨hshape, hlen, hout⟩
    have hloop : ∀ (ms ds : List ℕ) (i : ℕ),
        op.verifyDims i ms ds (List.zipWith (· * ·) ms ds) = .ok () := by
      intro ms
      induction ms with
      | nil => exact fun ds i => by cases ds <;> rfl
      | cons m ms ih =>
        intro ds i
        cases ds with
        | nil => rfl
        | cons d ds =>
          rw [List.zipWith_cons_cons, BroadcastOp.verifyDims, if_neg (not_not.mpr rfl)]
          exact ih ds (i + 1)
    rw [BroadcastOp.verify, if_neg (not_not.mpr hshape.length_eq),
      if_neg (getBroadcastedShape_ne_none_iff.mpr hshape), if_neg (not_not.mpr hlen)]
    have hdims := hloop op.input op.broadcastDimensions 0
    rw [← hout] at hdims
    exact hdims

theorem BroadcastOp.verify_gather {op : BroadcastOp} (h : op.verify = .ok ()) {p : List ℕ}
    (hp : IsPermutation op.input.length p) :
    BroadcastOp.verify
      ⟨gather p op.input, gather p op.broadcastDimensions, gather p op.output⟩ = .ok () := by
  obtain ⟨hshape, hlen, hout⟩ := BroadcastOp.verify_iff.mp h
  apply BroadcastOp.verify_iff.mpr
  have hmem : ∀ i ∈ p, i < op.input.length := fun i hi => hp.lt hi
  refine ⟨forall₂_gather hshape hmem, ?_, ?_⟩
  · rw [length_gather, length_gather]
  · show gather p op.output = _
    rw [hout]
    exact (zipWith_gather _ hmem hlen.symm).symm

/-! ## The rewrite -/

section Rewrite

variable {op : BroadcastOp} {users : List TM} {user : TM}

variable {pattern : TMPattern}

/-- What makes users replaceable by one another: the same attributes on the same operand. -/
theorem TM.Typed.eq_of_identical {shape : List ℕ} {u : TM}
    (huser : user.Typed shape) (hu : u.Typed shape) (hisa : pattern.isa user)
    (hsame : checkIdenticalTms user.toUser u.toUser) :
    u.output = user.output ∧ ∀ {α : Type} (x : Tensor α), u.apply x = user.apply x := by
  have hinput : u.input = user.input := hu.input.trans huser.input.symm
  have happly : ∀ {α : Type} (x : Tensor α), u.apply x = user.apply x := by
    intro α x
    cases user with
    | transpose t =>
      cases u with
      | transpose t' =>
        have hdims : t.dim0 = t'.dim0 ∧ t.dim1 = t'.dim1 := of_decide_eq_true hsame
        have hinput' : t'.input = t.input := hinput
        simp only [TM.apply, TransposeOp.permutation, TransposeOp.dims, hinput', hdims.1, hdims.2]
      | _ => cases hsame
    | permute t =>
      cases u with
      | permute t' =>
        have hperm : t.permutation = t'.permutation := of_decide_eq_true hsame
        simp only [TM.apply, hperm]
      | _ => cases hsame
    | reshape t => cases pattern <;> cases hisa
    | other => cases pattern <;> cases hisa
  refine ⟨?_, happly⟩
  obtain ⟨y, hy⟩ : ∃ y, user.apply (⟨shape, fun _ => ()⟩ : Tensor Unit) = some y := by
    cases user with
    | transpose t => exact ⟨_, rfl⟩
    | permute t => exact ⟨_, rfl⟩
    | reshape t => exact ⟨_, rfl⟩
    | other => cases pattern <;> cases hisa
  rw [hu.output _ y rfl ((happly _).trans hy), huser.output _ y rfl hy]

theorem BroadcastOp.rank_eq (hop : op.verify = .ok ()) : op.output.length = op.input.length :=
  (BroadcastOp.verify_iff.mp hop).1.length_eq.symm

/-- A transposed shape verifies. -/
theorem typed_transpose {shape : List ℕ} {dim0 dim1 : ℤ} (hrank : 2 ≤ shape.length)
    (h0 : InBounds shape.length dim0) (h1 : InBounds shape.length dim1) :
    (TM.transpose ⟨shape, dim0, dim1, gather (swapped shape.length
      (wrapDim shape.length dim0).toNat (wrapDim shape.length dim1).toNat) shape⟩).Typed shape := by
  set t : TransposeOp := ⟨shape, dim0, dim1, gather (swapped shape.length
    (wrapDim shape.length dim0).toNat (wrapDim shape.length dim1).toNat) shape⟩ with ht
  have hlt : t.dims.1 < shape.length ∧ t.dims.2 < shape.length := by
    unfold InBounds at h0 h1
    simp only [ht, TransposeOp.dims, wrapDim]
    constructor <;> split_ifs <;> omega
  have hentry : ∀ k < shape.length, t.output.getD k 0
      = shape.getD (if k = t.dims.1 then t.dims.2 else if k = t.dims.2 then t.dims.1 else k) 0 := by
    intro k hk
    show (gather (swapped shape.length t.dims.1 t.dims.2) shape).getD k 0 = _
    simp [gather, swapped, List.getD, hk]
  refine ⟨rfl, ?_, ?_⟩
  · show t.verify = .ok ()
    have hlen : t.input.length = t.output.length := by
      show shape.length = (gather _ shape).length
      rw [length_gather, length_swapped]
    have hmatch : ¬ (t.output.getD t.dims.1 0 ≠ t.input.getD t.dims.2 0 ∨
        t.output.getD t.dims.2 0 ≠ t.input.getD t.dims.1 0) := by
      rw [hentry _ hlt.1, hentry _ hlt.2, if_pos rfl]
      by_cases hsame : t.dims.2 = t.dims.1
      · rw [if_pos hsame, hsame]
        simp [ht]
      · rw [if_neg hsame, if_pos rfl]
        simp [ht]
    rw [TransposeOp.verify, if_neg (not_lt.mpr hrank), if_neg (not_not.mpr hlen),
      if_neg (not_not.mpr h0), if_neg (not_not.mpr h1), if_neg hmatch]
  · rintro α x y hx hy
    obtain rfl := Option.some.inj hy
    show gather _ shape = gather t.permutation x.shape
    rw [hx]
    rfl

theorem typed_permute {shape p : List ℕ} (hp : IsPermutation shape.length p) :
    (TM.permute ⟨shape, p.map fun n : ℕ => (n : ℤ), gather p shape⟩).Typed shape := by
  have hback : (p.map fun n : ℕ => (n : ℤ)).map Int.toNat = p := by
    rw [List.map_map]
    exact List.map_id p
  refine ⟨rfl, ?_, ?_⟩
  · exact PermuteOp.verify_gather hp
  · rintro α x y hx hy
    obtain rfl := Option.some.inj hy
    show gather p shape = gather ((p.map fun n : ℕ => (n : ℤ)).map Int.toNat) x.shape
    rw [hback, hx]

/-- **The operations of the rewrite**, for a manipulation with dimensions from the front: both
the manipulation and the broadcast dimensions are permuted as the user permutes. -/
theorem TM.Typed.exists_newTM (hop : op.verify = .ok ())
    (h : user.Typed op.output) (hisa : pattern.isa user) (hfront : user.FromFront) :
    ∃ p newTM, IsPermutation op.input.length p ∧
      newTMAndBroadcastDims op user = .ok (newTM, gather p op.broadcastDimensions) ∧
      newTM.Typed op.input ∧ newTM.output = gather p op.input ∧
      user.output = gather p op.output ∧
      ∀ {α : Type} (x : Tensor α), user.apply x = some (x.permute p) ∧
        (x.shape = op.input → newTM.apply x = some (x.permute p)) := by
  have hrank := BroadcastOp.rank_eq hop
  obtain ⟨-, hdims, -⟩ := BroadcastOp.verify_iff.mp hop
  cases user with
  | transpose t =>
    have hinput : t.input = op.output := h.input
    obtain ⟨htwo, h0, h1⟩ := TransposeOp.verify_spec h.verify
    obtain ⟨hlt0, hlt1⟩ := TransposeOp.dims_lt h.verify
    rw [hinput, hrank] at htwo h0 h1 hlt0 hlt1
    obtain ⟨hf0, hf1⟩ : 0 ≤ t.dim0 ∧ 0 ≤ t.dim1 := hfront
    -- from the front, a dimension is its own position
    have hwrap : ∀ {d : ℤ}, 0 ≤ d → wrapDim op.input.length d = d := fun hd =>
      if_neg (not_lt.mpr hd)
    have hpos : t.dims = (t.dim0.toNat, t.dim1.toNat) := by
      rw [TransposeOp.dims, hinput, hrank, hwrap hf0, hwrap hf1]
    rw [hpos] at hlt0 hlt1
    have hpermutation : t.permutation = swapped op.input.length t.dim0.toNat t.dim1.toNat := by
      rw [TransposeOp.permutation, hpos, hinput, hrank]
    refine ⟨swapped op.input.length t.dim0.toNat t.dim1.toNat, .transpose ⟨op.input, t.dim0, t.dim1,
        gather (swapped op.input.length t.dim0.toNat t.dim1.toNat) op.input⟩,
      isPermutation_swapped hlt0 hlt1, ?_, ?_, rfl, ?_, ?_⟩
    · have hshape := swapElements_natCast hlt0 hlt1
      have hnew := swapElements_natCast (l := op.broadcastDimensions)
        (by rw [hdims]; exact hlt0) (by rw [hdims]; exact hlt1)
      rw [Int.toNat_of_nonneg hf0, Int.toNat_of_nonneg hf1] at hshape hnew
      rw [newTMAndBroadcastDims, hshape, hnew, hdims]
      rfl
    · have := typed_transpose htwo h0 h1
      rw [hwrap hf0, hwrap hf1] at this
      exact this
    · have := h.output (⟨op.output, fun _ => ()⟩ : Tensor Unit) _ rfl rfl
      rw [← hpermutation]
      exact this
    · intro α x
      refine ⟨?_, fun hx => ?_⟩
      · rw [TM.apply, hpermutation]
      · rw [TM.apply, TransposeOp.permutation, TransposeOp.dims, hwrap hf0, hwrap hf1]
  | permute t =>
    have hinput : t.input = op.output := h.input
    obtain ⟨p, hperm, hp, hout⟩ := PermuteOp.verify_spec h.verify
    rw [hinput, hrank] at hp
    have hback : (p.map fun n : ℕ => (n : ℤ)).map Int.toNat = p := by
      rw [List.map_map]
      exact List.map_id p
    refine ⟨p, .permute ⟨op.input, t.permutation, gather p op.input⟩, hp, ?_, ?_, rfl, ?_, ?_⟩
    · have hp' : IsPermutation op.broadcastDimensions.length p := by rwa [hdims]
      rw [newTMAndBroadcastDims, hperm, applyPermutation_natCast hp, applyPermutation_natCast hp']
      rfl
    · rw [hperm]
      exact typed_permute hp
    · rw [← hinput]
      exact hout
    · intro α x
      refine ⟨?_, fun _ => ?_⟩ <;> rw [TM.apply, hperm, hback]
  | reshape t => cases pattern <;> cases hisa
  | other => cases pattern <;> cases hisa

/-- A manipulation with a dimension from the back is not commuted. -/
theorem newTMAndBroadcastDims_of_not_fromFront (hfront : ¬ user.FromFront)
    (result : TM × List ℕ) : newTMAndBroadcastDims op user ≠ .ok result := by
  cases user with
  | transpose t =>
    intro hok
    obtain ⟨newShape, hswap, -⟩ := bind_eq_ok.mp hok
    refine swapElements_of_neg ?_ newShape hswap
    by_contra hnot
    rw [not_or, not_lt, not_lt] at hnot
    exact hfront hnot
  | permute t => exact absurd trivial hfront
  | reshape t => exact absurd trivial hfront
  | other => exact absurd trivial hfront

/-- The user that a pattern commutes: one of its kind, identical to all others. -/
theorem TMPattern.found (h : pattern.findUserToCommute users = some user) :
    user ∈ users ∧ pattern.isa user ∧ ∀ u ∈ users, checkIdenticalTms user.toUser u.toUser := by
  have hmem := List.mem_of_find?_eq_some h
  have hprop := List.find?_some h
  rw [Bool.and_eq_true] at hprop
  obtain ⟨hisa, hfavorable⟩ := hprop
  refine ⟨hmem, hisa, ?_⟩
  rw [isCommuteFavorable, Bool.and_eq_true] at hfavorable
  cases users with
  | nil => cases hmem
  | cons u₀ us =>
    have hall : ∀ u ∈ u₀ :: us, checkIdenticalTms u₀.toUser u.toUser := by
      intro u hu
      have := List.all_eq_true.mp hfavorable.2 u.toUser (List.mem_map_of_mem hu)
      exact this
    intro u hu
    have h₀ := hall user hmem
    have h₁ := hall u hu
    -- for transposes and permutes, identical means equal attributes
    cases user with
    | transpose t =>
      cases u₀ with
      | transpose t₀ =>
        cases u with
        | transpose t₁ =>
          have e₀ : t₀.dim0 = t.dim0 ∧ t₀.dim1 = t.dim1 := of_decide_eq_true h₀
          have e₁ : t₀.dim0 = t₁.dim0 ∧ t₀.dim1 = t₁.dim1 := of_decide_eq_true h₁
          exact decide_eq_true ⟨e₀.1.symm.trans e₁.1, e₀.2.symm.trans e₁.2⟩
        | _ => cases h₁
      | _ => cases h₀
    | permute t =>
      cases u₀ with
      | permute t₀ =>
        cases u with
        | permute t₁ =>
          have e₀ : t₀.permutation = t.permutation := of_decide_eq_true h₀
          have e₁ : t₀.permutation = t₁.permutation := of_decide_eq_true h₁
          exact decide_eq_true (e₀.symm.trans e₁)
        | _ => cases h₁
      | _ => cases h₀
    | reshape t => cases pattern <;> cases hisa
    | other => cases pattern <;> cases hisa

/-- **Commuting above a broadcast.**  Where a pattern finds a user to commute, the rewritten
operations verify and compute the same tensor exactly when the dimensions of the user are
counted from the front, as those of a folded user are. -/
theorem commutes_iff {pattern : TMPattern} (user : TM) (hop : op.verify = .ok ())
    (husers : ∀ u ∈ users, u.Typed op.output)
    (hfound : pattern.findUserToCommute users = some user) :
    (Commutes pattern op users ↔ user.FromFront) ∧ (user.Folded → user.FromFront) := by
  obtain ⟨hmem, hisa, hidentical⟩ := TMPattern.found hfound
  refine ⟨?_, .of_folded⟩
  constructor
  · rintro ⟨rewrite, hrewrite, -⟩
    by_contra hfront
    rw [matchAndRewriteTM, hfound] at hrewrite
    change (performTMRewrite op users user).map some = _ at hrewrite
    cases hperform : performTMRewrite op users user with
    | error message =>
      rw [hperform] at hrewrite
      cases hrewrite
    | ok result =>
      obtain ⟨pair, hpair, -⟩ := bind_eq_ok.mp hperform
      exact newTMAndBroadcastDims_of_not_fromFront hfront pair hpair
  · intro hfront
    obtain ⟨p, newTM, hp, hnew, htyped, hnewOutput, houtput, happly⟩ :=
      (husers user hmem).exists_newTM hop hisa hfront
    obtain ⟨hshape, hdims, hproduct⟩ := BroadcastOp.verify_iff.mp hop
    have hperform : performTMRewrite op users user
        = .ok ⟨newTM, ⟨newTM.output, gather p op.broadcastDimensions, user.output⟩⟩ := by
      rw [performTMRewrite, hnew]
      have hlen : ¬ (gather p op.broadcastDimensions).length ≠ user.output.length := by
        rw [houtput, length_gather, length_gather]
        exact not_not.mpr rfl
      have hall : ¬ ¬ (users.all fun u => checkIdenticalTms user.toUser u.toUser) = true :=
        not_not.mpr (List.all_eq_true.mpr fun u hu => hidentical u hu)
      show (if _ then _ else if _ then _ else _) = _
      rw [if_neg hlen, if_neg hall]
    refine ⟨⟨newTM, ⟨newTM.output, gather p op.broadcastDimensions, user.output⟩⟩, ?_, htyped, ?_,
      rfl, ?_⟩
    · rw [matchAndRewriteTM, hfound]
      show (performTMRewrite op users user).map some = _
      rw [hperform]
      rfl
    · rw [hnewOutput, houtput]
      exact BroadcastOp.verify_gather hop hp
    · intro u hu
      obtain ⟨hsame, hsameApply⟩ := TM.Typed.eq_of_identical (husers user hmem) (husers u hu) hisa
        (hidentical u hu)
      refine ⟨hsame.symm, fun x hx => ?_⟩
      refine ⟨_, _, (hsameApply _).trans (happly _).1, (happly x).2 hx, ?_⟩
      apply Tensor.broadcast_permute x (hx.symm ▸ hp)
      rw [hdims, hx]

end Rewrite

/-! ## Examples -/

/-- A row that is repeated three times. -/
def repeatedRow : BroadcastOp := ⟨[1, 2], [3, 1], [3, 2]⟩

/-- The transpose of the last two dimensions, from the front. -/
def lastTwo : TM := .transpose ⟨[3, 2], 0, 1, [2, 3]⟩

/-- The transpose of the last two dimensions, from the back. -/
def lastTwoFromBack : TM := .transpose ⟨[3, 2], -2, -1, [2, 3]⟩

/-- The transpose from the front is commuted. -/
theorem lastTwo_commutes : Commutes .transposes repeatedRow [lastTwo] := by
  refine (commutes_iff lastTwo rfl ?_ rfl).1.mpr ⟨by decide, by decide⟩
  · intro u hu
    obtain rfl := List.mem_singleton.mp hu
    refine ⟨rfl, rfl, ?_⟩
    rintro α x y hx hy
    obtain rfl := Option.some.inj hy
    show [2, 3] = gather _ x.shape
    rw [hx]
    rfl

/-- The verifier accepts the dimensions from the back, and the rewrite swaps the elements at
the index minus two. -/
theorem lastTwoFromBack_not_commutes :
    lastTwoFromBack.verify = .ok () ∧ ¬ Commutes .transposes repeatedRow [lastTwoFromBack] := by
  refine ⟨rfl, ?_⟩
  rintro ⟨rewrite, hrewrite, -⟩
  have herror : matchAndRewriteTM .transposes repeatedRow [lastTwoFromBack]
      = .error "idx < size()" := rfl
  rw [herror] at hrewrite
  cases hrewrite

end TTIR
