/-
# Folding a collective permute

`verify` and `fold` of `ttnn.collective_permute` in `TTNNOps.cpp`.  The folder drops the pairs whose
source is their target, and with no pair left it drops the operation.

* `CollectivePermuteOp.verify`, `CollectivePermuteOp.fold` : the translated code;
* `Receives` : what a device may hold after the operation;
* `preserved_iff_selfPairs` : when the folded operation leaves the same tensors.

A pair from a device to itself is what keeps the data of the device: without it the device is no
target, and gets zeros.
-/
import TTMLIR.CollectivePermute
import Mathlib

namespace TTNN

/-! ## The translated code -/

/-- `DenseIntElementsAttr`: the shape of its type and its elements, row by row. -/
structure DenseIntElementsAttr : Type where
  shape : List ℕ
  values : List ℤ
deriving DecidableEq

/-- `ttnn.collective_permute`. -/
structure CollectivePermuteOp (Value : Type) : Type where
  input : Value
  sourceTargetPairs : DenseIntElementsAttr

namespace CollectivePermuteOp

variable {Value α : Type}

/-- The elements at the positions `0`, `2`, `4`, … -/
def everyOther : List ℤ → List ℤ
  | a :: _ :: rest => a :: everyOther rest
  | [a] => [a]
  | [] => []

/-- `areElementsUnique`: a value is compared with those two, four, … positions later.  It is read
into an `int`, these are not. -/
def areElementsUnique : List ℤ → Bool
  | [] => true
  | value :: rest =>
    (everyOther rest.tail).all (fun later => later ≠ Int.bmod value (2 ^ 32)) &&
      areElementsUnique rest

/-- `CollectivePermuteOp::verify`. -/
def verify (op : CollectivePermuteOp Value) : Except String Unit :=
  let sourceTargetPairsRank := op.sourceTargetPairs.shape.length
  if sourceTargetPairsRank ≠ 2 then
    .error s!"The rank of source target pairs must be 2, got rank = {sourceTargetPairsRank}"
  else if ! areElementsUnique op.sourceTargetPairs.values then
    .error "There are duplicate 'src' or 'dest' devices in source target pairs"
  else .ok ()

/-- The loop of the folder: the pairs that do not map a device to itself. -/
def filteredPairs : List ℤ → List ℤ
  | src :: target :: rest =>
    if src = target then filteredPairs rest else src :: target :: filteredPairs rest
  | _ => []

/-- `CollectivePermuteOp::fold`: the value the result is replaced by, if any, and the operation,
whose attribute may have been set. -/
def fold (op : CollectivePermuteOp Value) : Option Value × CollectivePermuteOp Value :=
  let filtered := filteredPairs op.sourceTargetPairs.values
  if filtered = [] then (some op.input, op)
  else if op.sourceTargetPairs.values.length ≠ filtered.length then
    (none, { op with sourceTargetPairs := ⟨[filtered.length / 2, 2], filtered⟩ })
  else (none, op)

/-! ## What the devices hold -/

/-- The pairs of a source and a target. -/
def pairs : List ℤ → List (ℤ × ℤ)
  | src :: target :: rest => (src, target) :: pairs rest
  | _ => []

/-- **A device receives** the tensor of `s` for a pair from `s`, and zeros when no pair has it as
its target. -/
structure Receives [Zero α] (pairs : List (ℤ × ℤ)) (shards : ℤ → List α) (d : ℤ) (x : List α) :
    Prop where
  target : ∀ s, (s, d) ∈ pairs → x = shards s
  other : (∀ s, (s, d) ∉ pairs) → x = List.replicate (shards d).length 0

/-- What a device holds after the folder has run: the input, or what the operation leaves. -/
def Holds [Zero α] (folded : Option (ℤ → List α) × CollectivePermuteOp (ℤ → List α)) (d : ℤ)
    (x : List α) : Prop :=
  match folded.1 with
  | some shards => x = shards d
  | none => Receives (pairs folded.2.sourceTargetPairs.values) folded.2.input d x

/-- **The folder keeps the meaning**: each of the `n` devices holds what it receives. -/
def Preserved [Zero α] (n : ℕ) (op : CollectivePermuteOp (ℤ → List α)) : Prop :=
  ∀ d : ℤ, 0 ≤ d → d < n → ∀ x,
    Receives (pairs op.sourceTargetPairs.values) op.input d x → Holds (fold op) d x

/-! ## The folder -/

/-- The pairs that are left are those of two different devices. -/
theorem mem_pairs_filteredPairs {l : List ℤ} {p : ℤ × ℤ} :
    p ∈ pairs (filteredPairs l) ↔ p ∈ pairs l ∧ p.1 ≠ p.2 := by
  induction l using filteredPairs.induct with
  | case1 target rest ih =>
    rw [filteredPairs, if_pos rfl, ih, pairs, List.mem_cons]
    refine ⟨fun h => ⟨.inr h.1, h.2⟩, fun h => ⟨h.1.resolve_left fun heq => h.2 ?_, h.2⟩⟩
    rw [heq]
  | case2 src target rest hne ih =>
    rw [filteredPairs, if_neg hne, pairs, pairs, List.mem_cons, List.mem_cons, ih]
    constructor
    · rintro (rfl | h)
      · exact ⟨.inl rfl, hne⟩
      · exact ⟨.inr h.1, h.2⟩
    · rintro ⟨h | h, hp⟩
      · exact .inl h
      · exact .inr ⟨h, hp⟩
  | case3 l hl =>
    rw [pairs.eq_2 l hl, filteredPairs.eq_2 l hl]
    simp [pairs]

theorem filteredPairs_sublist (l : List ℤ) : (filteredPairs l).Sublist l := by
  induction l using filteredPairs.induct with
  | case1 target rest ih =>
    rw [filteredPairs, if_pos rfl]
    exact (ih.cons _).cons _
  | case2 src target rest hne ih =>
    rw [filteredPairs, if_neg hne]
    exact (ih.cons_cons _).cons_cons _
  | case3 l hl =>
    rw [filteredPairs.eq_2 l hl]
    exact List.nil_sublist l

theorem filteredPairs_eq_nil_iff {l : List ℤ} :
    filteredPairs l = [] ↔ ∀ p ∈ pairs l, p.1 = p.2 := by
  induction l using filteredPairs.induct with
  | case1 target rest ih =>
    rw [filteredPairs, if_pos rfl, ih, pairs, List.forall_mem_cons]
    exact ⟨fun h => ⟨rfl, h⟩, fun h => h.2⟩
  | case2 src target rest hne ih =>
    rw [filteredPairs, if_neg hne, pairs, List.forall_mem_cons]
    exact ⟨fun h => absurd h (List.cons_ne_nil _ _), fun h => absurd h.1 hne⟩
  | case3 l hl =>
    rw [pairs.eq_2 l hl, filteredPairs.eq_2 l hl]
    simp

/-- The result of the folder: the input when every pair maps a device to itself, and otherwise the
operation on the pairs that do not. -/
theorem fold_cases (op : CollectivePermuteOp Value) :
    ((fold op).1 = some op.input ∧ ∀ p ∈ pairs op.sourceTargetPairs.values, p.1 = p.2) ∨
      ((fold op).1 = none ∧ (fold op).2.input = op.input ∧
        (∃ p ∈ pairs op.sourceTargetPairs.values, p.1 ≠ p.2) ∧
        ∀ p, p ∈ pairs (fold op).2.sourceTargetPairs.values ↔
          p ∈ pairs op.sourceTargetPairs.values ∧ p.1 ≠ p.2) := by
  by_cases hnil : filteredPairs op.sourceTargetPairs.values = []
  · left
    have hfold : fold op = (some op.input, op) := by
      show (if _ then _ else _) = _
      rw [if_pos hnil]
    rw [hfold]
    exact ⟨rfl, filteredPairs_eq_nil_iff.mp hnil⟩
  · right
    have hsome : ∃ p ∈ pairs op.sourceTargetPairs.values, p.1 ≠ p.2 := by
      by_contra hall
      push Not at hall
      exact hnil (filteredPairs_eq_nil_iff.mpr hall)
    by_cases hlength :
        op.sourceTargetPairs.values.length ≠ (filteredPairs op.sourceTargetPairs.values).length
    · have hfold : fold op = (none, { op with sourceTargetPairs :=
          ⟨[(filteredPairs op.sourceTargetPairs.values).length / 2, 2],
            filteredPairs op.sourceTargetPairs.values⟩ }) := by
        show (if _ then _ else if _ then _ else _) = _
        rw [if_neg hnil, if_pos hlength]
      rw [hfold]
      exact ⟨rfl, rfl, hsome, fun p => mem_pairs_filteredPairs⟩
    · have hfold : fold op = (none, op) := by
        show (if _ then _ else if _ then _ else _) = _
        rw [if_neg hnil, if_neg hlength]
      have hsame : filteredPairs op.sourceTargetPairs.values = op.sourceTargetPairs.values :=
        (filteredPairs_sublist _).eq_of_length (not_not.mp hlength).symm
      rw [hfold]
      refine ⟨rfl, rfl, hsome, fun p => ?_⟩
      show p ∈ pairs op.sourceTargetPairs.values ↔ _
      rw [← mem_pairs_filteredPairs, hsame]

/-- The condition under which nothing is lost with the pairs `(d, d)`, for the devices below `n`:
when there is no other pair each device has one, or zeros anyway; when there are others, a device
that has one has zeros anyway, or is the target of one more. -/
def SelfPairsDroppable [Zero α] (n : ℕ) (op : CollectivePermuteOp (ℤ → List α)) : Prop :=
  let l := pairs op.sourceTargetPairs.values
  let Zeros (d : ℤ) : Prop := op.input d = List.replicate (op.input d).length 0
  if ∀ p ∈ l, p.1 = p.2 then ∀ d : ℤ, 0 ≤ d → d < n → (d, d) ∈ l ∨ Zeros d
  else ∀ d : ℤ, 0 ≤ d → d < n → (d, d) ∈ l → Zeros d ∨ ∃ s, s ≠ d ∧ (s, d) ∈ l

/-- **The folder keeps the meaning** exactly when nothing is lost with the pairs that map a device
to itself. -/
theorem preserved_iff_selfPairs [Zero α] (n : ℕ) (op : CollectivePermuteOp (ℤ → List α)) :
    Preserved n op ↔ SelfPairsDroppable n op := by
  rw [SelfPairsDroppable]
  rcases fold_cases op with ⟨hfold, hall⟩ | ⟨hfold, hinput, hsome, hpairs⟩
  · rw [if_pos hall]
    have hholds : ∀ d x, Holds (fold op) d x ↔ x = op.input d := by
      intro d x
      rw [Holds, hfold]
    constructor
    · intro h d hd hn
      by_cases hself : (d, d) ∈ pairs op.sourceTargetPairs.values
      · exact .inl hself
      · -- every pair is a self pair, so that the device is no target at all
        have hnone : ∀ s, (s, d) ∉ pairs op.sourceTargetPairs.values := by
          intro s hs
          obtain rfl : s = d := hall _ hs
          exact hself hs
        exact .inr ((hholds d _).mp (h d hd hn _ ⟨fun s hs => absurd hs (hnone s), fun _ => rfl⟩)).symm
    · intro h d hd hn x hx
      rw [hholds]
      rcases h d hd hn with hself | hzero
      · exact hx.target d hself
      · by_cases hnone : ∀ s, (s, d) ∉ pairs op.sourceTargetPairs.values
        · rw [hx.other hnone]
          exact hzero.symm
        · push Not at hnone
          obtain ⟨s, hs⟩ := hnone
          obtain rfl : s = d := hall _ hs
          exact hx.target s hs
  · obtain ⟨p, hp, hne⟩ := hsome
    rw [if_neg fun hall => hne (hall p hp)]
    have hholds : ∀ d x, Holds (fold op) d x ↔
        Receives (pairs (fold op).2.sourceTargetPairs.values) op.input d x := by
      intro d x
      rw [Holds, hfold, hinput]
    constructor
    · intro h d hd hn hself
      by_cases hother : ∃ s, s ≠ d ∧ (s, d) ∈ pairs op.sourceTargetPairs.values
      · exact .inr hother
      · push Not at hother
        have hx : Receives (pairs op.sourceTargetPairs.values) op.input d (op.input d) := by
          refine ⟨fun s hs => ?_, fun hnone => absurd hself (hnone d)⟩
          by_cases hsd : s = d
          · rw [hsd]
          · exact absurd hs (hother s hsd)
        refine .inl (((hholds d _).mp (h d hd hn _ hx)).other fun s hs => ?_)
        obtain ⟨hs, hsd⟩ := (hpairs _).mp hs
        exact hother s hsd hs
    · intro h d hd hn x hx
      rw [hholds]
      refine ⟨fun s hs => hx.target s ((hpairs _).mp hs).1, fun hnone => ?_⟩
      by_cases hself : (d, d) ∈ pairs op.sourceTargetPairs.values
      · rw [hx.target d hself]
        rcases h d hd hn hself with hzero | ⟨s, hsd, hs⟩
        · exact hzero
        · exact absurd ((hpairs _).mpr ⟨hs, hsd⟩) (hnone s)
      · refine hx.other fun s hs => ?_
        by_cases hsd : s = d
        · exact hself (hsd ▸ hs)
        · exact hnone s ((hpairs _).mpr ⟨hs, hsd⟩)

/-- Three devices: the first two exchange their tensors and the third keeps its own. -/
def exchangeAndKeep : CollectivePermuteOp (ℤ → List ℤ) where
  input d := [d + 1]
  sourceTargetPairs := ⟨[3, 2], [0, 1, 1, 0, 2, 2]⟩

/-- The third device loses its tensor: without its pair it is no target. -/
theorem exchangeAndKeep_not_preserved :
    verify exchangeAndKeep = .ok () ∧ ¬ Preserved 3 exchangeAndKeep := by
  refine ⟨by decide, fun h => ?_⟩
  have hx : Receives (pairs exchangeAndKeep.sourceTargetPairs.values) exchangeAndKeep.input 2 [3] :=
    ⟨fun s hs => by
      have hs' : (s, (2 : ℤ)) ∈ [((0 : ℤ), (1 : ℤ)), (1, 0), (2, 2)] := hs
      obtain rfl : s = 2 := by simpa using hs'
      rfl, fun hnone => absurd (by decide) (hnone 2)⟩
  have hholds : Receives [((0 : ℤ), (1 : ℤ)), (1, 0)] exchangeAndKeep.input 2 [3] :=
    h 2 (by decide) (by decide) _ hx
  exact absurd (hholds.other (by simp)) (by decide)

end CollectivePermuteOp

end TTNN
