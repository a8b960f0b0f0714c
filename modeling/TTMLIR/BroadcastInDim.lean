/-
# Lowering broadcast_in_dim

`stablehlo.broadcast_in_dim` puts the dimensions of its operand at given dimensions of its result.
`StableHLOToTTIRBroadcastInDimOpConversionPattern` lowers it to a reshape and a broadcast, or to a
broadcast only when the ranks are the same.

* `BroadcastInDimOp` : the operation, with what its verifier promises;
* `BroadcastInDimOp.matchAndRewrite` : the lowering;
* `BroadcastInDimOp.Preserved` : the emitted operations compute what it computes;
* `BroadcastInDimOp.preserved_iff_monotone` : when they do.

Neither operation moves a dimension past another one, and the list of dimensions is not looked at
when the ranks are the same.
-/
import TTMLIR.BroadcastCommute
import TTMLIR.TensorOps
import TTMLIR.UnitExtents

namespace TTIR

open MixedRadix

/-- `stablehlo.broadcast_in_dim`: the shapes of its operand and result, and its attribute.
Every dimension of the operand has a dimension of the result, of its size unless it is one. -/
structure BroadcastInDimOp where
  operand : List ℕ
  broadcastDimensions : List ℕ
  result : List ℕ
  length_eq : broadcastDimensions.length = operand.length
  nodup : broadcastDimensions.Nodup
  lt : ∀ d ∈ broadcastDimensions, d < result.length
  extent : ∀ i < operand.length,
    operand.getD i 0 = 1 ∨ operand.getD i 0 = result.getD (broadcastDimensions.getD i 0) 0

/-- The type converter, on shapes: a scalar becomes a tensor of one element. -/
def convertShape : List ℕ → List ℕ
  | [] => [1]
  | shape => shape

/-- `getBroadcastDimensions`, which divides. -/
def getBroadcastDimensions (inputShape outputShape : List ℕ) : Except String (List ℕ) :=
  if 0 ∈ inputShape then .error "division by zero"
  else .ok (List.zipWith (· / ·) outputShape inputShape)

/-- The emitted operations. -/
structure BroadcastInDimOp.Emitted where
  reshape : Option ReshapeOp
  broadcast : BroadcastOp

namespace BroadcastInDimOp

variable (op : BroadcastInDimOp)

/-- The shape of the converted operand. -/
def inputShape : List ℕ := convertShape op.operand

/-- The shape of the converted result. -/
def outputShape : List ℕ := convertShape op.result

/-- `unsqueezeShape`: the extents of the operand at their dimensions. -/
def unsqueezeShape : List ℕ :=
  if op.broadcastDimensions = [] then List.replicate op.outputShape.length 1
  else (List.range op.inputShape.length).foldl
    (fun shape i => shape.set (op.broadcastDimensions.getD i 0) (op.inputShape.getD i 0))
    (List.replicate op.outputShape.length 1)

/-- `matchAndRewrite`.  The legality check compares the shape of the operand with itself. -/
def matchAndRewrite : Except String Emitted :=
  if broadcastedShape op.inputShape op.inputShape = none then
    .error "Input cannot be broadcasted to provided dimensions."
  else if op.inputShape.length = op.outputShape.length then do
    let broadcastShape ← getBroadcastDimensions op.inputShape op.outputShape
    return ⟨none, ⟨op.inputShape, broadcastShape, op.outputShape⟩⟩
  else do
    let broadcastShape ← getBroadcastDimensions op.unsqueezeShape op.outputShape
    return ⟨some ⟨op.inputShape, op.unsqueezeShape.map toI32, op.unsqueezeShape⟩,
      ⟨op.unsqueezeShape, broadcastShape, op.outputShape⟩⟩

/-- Both operations pass their verifiers. -/
def Emitted.Verified (e : Emitted) : Prop :=
  (∀ r, e.reshape = some r → r.verify = .ok ()) ∧ e.broadcast.verify = .ok ()

/-- What they compute. -/
def Emitted.apply {α : Type} (e : Emitted) (x : Tensor α) : Tensor α :=
  match e.reshape with
  | none => x.broadcast e.broadcast.broadcastDimensions
  | some r => (x.reshape r.output).broadcast e.broadcast.broadcastDimensions

/-- Where the operand is read for an element of the result. -/
def operandIndex (o : List ℕ) : List ℕ :=
  if op.operand = [] then [0]
  else List.zipWith (fun n d => if n = 1 then 0 else o.getD d 0) op.operand op.broadcastDimensions

/-- **The values are preserved.**  Verified operations are emitted; their result has the type of
the original one, and the elements of the operand that the original one has. -/
def Preserved : Prop :=
  ∃ e, op.matchAndRewrite = .ok e ∧ e.Verified ∧
    ∀ (α : Type) (x : Tensor α), x.shape = op.inputShape →
      (e.apply x).shape = op.outputShape ∧
        ∀ o, InShape o op.outputShape → (e.apply x).elem o = x.elem (op.operandIndex o)

/-- **The dimensions are monotone.**  When the ranks are the same, those of extents other than one
stay where they are; otherwise they stay in order, and the new shape passes as an attribute of
32-bit numbers. A result without elements only needs the types to fit. -/
structure Monotone : Prop where
  pos : ∀ n ∈ op.inputShape, 0 < n
  same : op.inputShape.length = op.outputShape.length →
    if 0 ∈ op.outputShape then
      ∀ i < op.operand.length, op.operand.getD i 0 = 1 ∨
        op.operand.getD i 0 = op.result.getD i 0
    else ∀ i < op.operand.length, op.operand.getD i 0 = 1 ∨ op.broadcastDimensions.getD i 0 = i
  unsqueezed : op.inputShape.length ≠ op.outputShape.length →
    (ReshapeOp.mk op.inputShape (op.unsqueezeShape.map toI32) op.unsqueezeShape).verify = .ok () ∧
      (0 ∈ op.outputShape ∨ Ordered op.operand op.broadcastDimensions)

end BroadcastInDimOp

/-! ## Factors -/

theorem forall₂_iff_getD {R : ℕ → ℕ → Prop} {a b : List ℕ} : List.Forall₂ R a b ↔
      a.length = b.length ∧ ∀ i < a.length, R (a.getD i 0) (b.getD i 0) := by
  rw [List.forall₂_iff_get]
  refine and_congr_right fun hlen => ⟨fun h i hi => ?_, fun h i hi hi' => ?_⟩
  · rw [List.getD_eq_getElem _ _ hi, List.getD_eq_getElem _ _ (hlen ▸ hi)]
    exact h i hi (hlen ▸ hi)
  · rw [List.get_eq_getElem, List.get_eq_getElem, ← List.getD_eq_getElem _ 0 hi,
      ← List.getD_eq_getElem _ 0 hi']
    exact h i hi

/-- A broadcast by the quotients of the extents verifies when every extent stays or is one. -/
theorem verify_quotients_iff {input output : List ℕ} (hpos : ∀ n ∈ input, 0 < n) :
    (BroadcastOp.mk input (List.zipWith (· / ·) output input) output).verify = .ok () ↔
      List.Forall₂ (fun n o => n = 1 ∨ n = o) input output := by
  rw [BroadcastOp.verify_iff]
  simp only
  constructor
  · rintro ⟨hshape, -, hout⟩
    induction hshape with
    | nil => exact .nil
    | @cons n o ns os h _ ih =>
      rw [List.zipWith_cons_cons, List.zipWith_cons_cons, List.cons.injEq] at hout
      refine .cons ?_ (ih (fun m hm => hpos m (List.mem_cons_of_mem _ hm)) hout.2)
      rcases h with h | h | h
      · exact .inr h
      · -- the only extent that divides one is one
        have hdvd : n ∣ 1 := ⟨o / n, h ▸ hout.1⟩
        exact .inl (Nat.dvd_one.mp hdvd)
      · exact .inl h
  · intro hshape
    induction hshape with
    | nil => exact ⟨.nil, rfl, rfl⟩
    | @cons n o ns os h _ ih =>
      have hn := hpos n List.mem_cons_self
      obtain ⟨hrest, hlen, hout⟩ := ih fun m hm => hpos m (List.mem_cons_of_mem _ hm)
      have hquot : n * (o / n) = o := by
        rcases h with h | h
        · rw [h, Nat.div_one, Nat.one_mul]
        · rw [h, Nat.div_self (h ▸ hn), Nat.mul_one]
      refine ⟨.cons (by omega) hrest, by simpa using hlen, ?_⟩
      rw [List.zipWith_cons_cons, List.zipWith_cons_cons, hquot, ← hout]

namespace BroadcastInDimOp

variable (op : BroadcastInDimOp)

/-! ## The unsqueezed shape -/

theorem inputShape_of_ne_nil (h : op.operand ≠ []) : op.inputShape = op.operand := by
  rw [inputShape]
  cases hoperand : op.operand with
  | nil => exact absurd hoperand h
  | cons n ns => rfl

theorem outputShape_of_ne_nil (h : op.operand ≠ []) : op.outputShape = op.result := by
  have hdim := op.lt
  have hlen := op.length_eq
  rw [outputShape]
  cases hresult : op.result with
  | nil =>
    cases hdims : op.broadcastDimensions with
    | nil =>
      rw [hdims] at hlen
      exact absurd (List.length_eq_zero_iff.mp hlen.symm) h
    | cons d ds =>
      rw [hdims, hresult] at hdim
      exact absurd (hdim d List.mem_cons_self) (Nat.not_lt_zero _)
  | cons n ns => rfl

/-- The extents that have been put in place. -/
theorem foldl_set_spec {s dims : List ℕ} (hlen : dims.length = s.length) (hnodup : dims.Nodup)
    {r : ℕ} (hlt : ∀ d ∈ dims, d < r) (k : ℕ) (hk : k ≤ s.length) :
    ((List.range k).foldl (fun shape i => shape.set (dims.getD i 0) (s.getD i 0))
        (List.replicate r 1)).length = r ∧
      (∀ i < k, ((List.range k).foldl (fun shape i => shape.set (dims.getD i 0) (s.getD i 0))
        (List.replicate r 1)).getD (dims.getD i 0) 0 = s.getD i 0) ∧
      ∀ d < r, d ∉ dims → ((List.range k).foldl
        (fun shape i => shape.set (dims.getD i 0) (s.getD i 0)) (List.replicate r 1)).getD d 0
          = 1 := by
  induction k with
  | zero =>
    refine ⟨List.length_replicate, fun i hi => absurd hi (Nat.not_lt_zero i), fun d hd _ => ?_⟩
    show (List.replicate r 1).getD d 0 = 1
    rw [List.getD_eq_getElem _ _ (by rwa [List.length_replicate]), List.getElem_replicate]
  | succ k ih =>
    obtain ⟨hlength, hkept, hones⟩ := ih (by omega)
    rw [List.range_succ, List.foldl_append, List.foldl_cons, List.foldl_nil]
    generalize (List.range k).foldl (fun shape i => shape.set (dims.getD i 0) (s.getD i 0))
      (List.replicate r 1) = shape at hlength hkept hones
    have hkd : k < dims.length := by omega
    have hmem : dims.getD k 0 ∈ dims := by
      rw [List.getD_eq_getElem _ _ hkd]
      exact List.getElem_mem hkd
    have hset : ∀ d, (shape.set (dims.getD k 0) (s.getD k 0)).getD d 0
        = if dims.getD k 0 = d then s.getD k 0 else shape.getD d 0 := by
      intro d
      rw [List.getD_eq_getElem?_getD, List.getElem?_set, hlength, if_pos (hlt _ hmem)]
      split
      · rfl
      · exact (List.getD_eq_getElem?_getD ..).symm
    refine ⟨by rw [List.length_set, hlength], fun i hi => ?_, fun d hd hnot => ?_⟩
    · rw [hset]
      by_cases heq : i = k
      · rw [heq, if_pos rfl]
      · have hne : dims.getD k 0 ≠ dims.getD i 0 := by
          have hid : i < dims.length := by omega
          rw [List.getD_eq_getElem _ _ hkd, List.getD_eq_getElem _ _ hid]
          exact fun h => heq (hnodup.getElem_inj_iff.mp h).symm
        rw [if_neg hne]
        exact hkept i (by omega)
    · have hne : dims.getD k 0 ≠ d := fun h => hnot (h ▸ hmem)
      rw [hset, if_neg hne]
      exact hones d hd hnot

/-- **The unsqueezed shape** has the extents of the operand spread over the dimensions of the
result. -/
theorem spread_unsqueezeShape : op.unsqueezeShape.length = op.outputShape.length ∧
    Spread op.operand op.broadcastDimensions op.unsqueezeShape := by
  rw [unsqueezeShape]
  by_cases hnil : op.broadcastDimensions = []
  · have hoperand : op.operand = [] := by
      have := op.length_eq
      rw [hnil] at this
      exact List.length_eq_zero_iff.mp this.symm
    rw [if_pos hnil, hoperand, hnil]
    refine ⟨List.length_replicate, rfl, List.nodup_nil, nofun,
      fun i hi => absurd hi (Nat.not_lt_zero i), fun d hd _ => ?_⟩
    rw [List.getD_eq_getElem _ _ hd, List.getElem_replicate]
  · have hoperand : op.operand ≠ [] := by
      intro h
      have := op.length_eq
      rw [h] at this
      exact hnil (List.length_eq_zero_iff.mp this)
    rw [if_neg hnil, op.inputShape_of_ne_nil hoperand, op.outputShape_of_ne_nil hoperand]
    obtain ⟨hlength, hkept, hones⟩ :=
      foldl_set_spec op.length_eq op.nodup op.lt op.operand.length le_rfl
    refine ⟨hlength, op.length_eq, op.nodup, fun d hd => hlength.symm ▸ op.lt d hd, hkept, ?_⟩
    rw [hlength]
    exact hones

/-- It broadcasts to the result. -/
theorem forall₂_unsqueezeShape :
    List.Forall₂ (fun n o => n = 1 ∨ n = o) op.unsqueezeShape op.outputShape := by
  obtain ⟨hlength, hspread⟩ := op.spread_unsqueezeShape
  rw [forall₂_iff_getD]
  refine ⟨hlength, fun d hd => ?_⟩
  by_cases hmem : d ∈ op.broadcastDimensions
  · obtain ⟨i, hi, rfl⟩ := List.getElem_of_mem hmem
    have hi' : i < op.operand.length := op.length_eq ▸ hi
    have hkept := hspread.kept i hi'
    have hextent := op.extent i hi'
    rw [List.getD_eq_getElem op.broadcastDimensions 0 hi] at hkept hextent
    rw [hkept, op.outputShape_of_ne_nil (List.ne_nil_of_length_pos (Nat.zero_lt_of_lt hi'))]
    exact hextent
  · exact .inl (hspread.ones d hd hmem)

/-! ## Where the emitted operations read -/

theorem zipWith_mod_eq {input o : List ℕ} (h : o.length = input.length) {i : ℕ}
    (hi : i < input.length) :
    (List.zipWith (· % ·) o input).getD i 0 = o.getD i 0 % input.getD i 0 := by
  rw [List.getD_eq_getElem _ _ (by rw [List.length_zipWith, h, Nat.min_self]; exact hi),
    List.getElem_zipWith, List.getD_eq_getElem _ _ (h ▸ hi), List.getD_eq_getElem _ _ hi]

theorem zipWith_mod_self {idx shape : List ℕ} (h : InShape idx shape) :
    List.zipWith (· % ·) idx shape = idx := by
  rw [← clamp_of_length h.length_eq]
  exact clamp_of_inShape h

theorem inShape_zipWith_mod {idx shape : List ℕ} (h : idx.length = shape.length)
    (hpos : ∀ n ∈ shape, 0 < n) : InShape (List.zipWith (· % ·) idx shape) shape := by
  rw [InShape, forall₂_iff_getD]
  have hlen : (List.zipWith (· % ·) idx shape).length = shape.length := by
    rw [List.length_zipWith, h, Nat.min_self]
  refine ⟨hlen, fun i hi => ?_⟩
  rw [hlen] at hi
  rw [zipWith_mod_eq h hi]
  apply Nat.mod_lt
  rw [List.getD_eq_getElem _ _ hi]
  exact hpos _ (List.getElem_mem hi)

theorem operandIndex_of_ne_nil (h : op.operand ≠ []) (o : List ℕ) :
    (op.operandIndex o).length = op.operand.length ∧
      ∀ i < op.operand.length, (op.operandIndex o).getD i 0
        = if op.operand.getD i 0 = 1 then 0 else o.getD (op.broadcastDimensions.getD i 0) 0 := by
  rw [operandIndex, if_neg h]
  have hlen : (List.zipWith (fun n d => if n = 1 then 0 else o.getD d 0) op.operand
      op.broadcastDimensions).length = op.operand.length := by
    rw [List.length_zipWith, op.length_eq, Nat.min_self]
  refine ⟨hlen, fun i hi => ?_⟩
  rw [List.getD_eq_getElem _ _ (hlen.symm ▸ hi), List.getElem_zipWith,
    List.getD_eq_getElem op.operand 0 hi,
    List.getD_eq_getElem op.broadcastDimensions 0 (op.length_eq.symm ▸ hi)]

theorem ext_getD {a b : List ℕ} (hlen : a.length = b.length)
    (h : ∀ i < a.length, a.getD i 0 = b.getD i 0) : a = b := by
  apply List.ext_getElem hlen
  intro i hi hi'
  rw [← List.getD_eq_getElem _ 0 hi, ← List.getD_eq_getElem _ 0 hi']
  exact h i hi

/-- The index the operand is read at, by the index of the unsqueezed operand. -/
theorem operandIndex_eq_pick (h : op.operand ≠ []) {o : List ℕ} (ho : InShape o op.outputShape) :
    op.operandIndex o = pick op.broadcastDimensions (List.zipWith (· % ·) o op.unsqueezeShape) := by
  obtain ⟨hlength, hspread⟩ := op.spread_unsqueezeShape
  obtain ⟨hlen, hindex⟩ := op.operandIndex_of_ne_nil h o
  have holen : o.length = op.unsqueezeShape.length := ho.length_eq.trans hlength.symm
  apply ext_getD (hlen.trans (hspread.length_pick _).symm)
  intro i hi
  rw [hlen] at hi
  have hd := hspread.dims_lt hi
  rw [hindex i hi, hspread.getD_pick _ hi, zipWith_mod_eq holen hd, hspread.kept i hi]
  by_cases hone : op.operand.getD i 0 = 1
  · rw [if_pos hone, hone, Nat.mod_one]
  · rw [if_neg hone, Nat.mod_eq_of_lt]
    have hextent := (op.extent i hi).resolve_left hone
    have hlt := (forall₂_iff_getD.mp ho).2 _ (holen ▸ hd)
    rw [hextent, ← op.outputShape_of_ne_nil h]
    exact hlt

/-- A result with elements has an index for every one of the unsqueezed operand. -/
theorem inShape_outputShape (hout : 0 ∉ op.outputShape) {idx : List ℕ}
    (h : InShape idx op.unsqueezeShape) : InShape idx op.outputShape := by
  have hrel := forall₂_iff_getD.mp op.forall₂_unsqueezeShape
  have hidx := forall₂_iff_getD.mp h
  rw [InShape, forall₂_iff_getD]
  refine ⟨hidx.1.trans hrel.1, fun i hi => ?_⟩
  have hlt := hidx.2 i hi
  have hi' : i < op.outputShape.length := hrel.1 ▸ hidx.1 ▸ hi
  have hpos : op.outputShape.getD i 0 ≠ 0 := by
    rw [List.getD_eq_getElem _ _ hi']
    exact fun hzero => hout (hzero ▸ List.getElem_mem hi')
  rcases hrel.2 i (hidx.1 ▸ hi) with hone | hsame
  · omega
  · omega

theorem not_inShape_of_zero {shape idx : List ℕ} (h : 0 ∈ shape) : ¬InShape idx shape := by
  intro hidx
  obtain ⟨i, hi, hzero⟩ := List.getElem_of_mem h
  have hlt := (forall₂_iff_getD.mp hidx).2 i (hidx.length_eq.symm ▸ hi)
  rw [List.getD_eq_getElem shape 0 hi, hzero] at hlt
  exact absurd hlt (Nat.not_lt_zero _)

/-! ## When the values are preserved -/

theorem zero_notMem_iff {shape : List ℕ} : 0 ∉ shape ↔ ∀ n ∈ shape, 0 < n := by
  constructor
  · intro h n hn
    exact Nat.pos_of_ne_zero fun hzero => h (hzero ▸ hn)
  · intro h hzero
    exact absurd (h 0 hzero) (lt_irrefl 0)

theorem legal : broadcastedShape op.inputShape op.inputShape ≠ none := by
  rw [broadcastedShape_self]
  exact Option.some_ne_none _

theorem matchAndRewrite_of_rank_eq (hrank : op.inputShape.length = op.outputShape.length) :
    op.matchAndRewrite = if 0 ∈ op.inputShape then .error "division by zero"
      else .ok ⟨none, ⟨op.inputShape, List.zipWith (· / ·) op.outputShape op.inputShape,
        op.outputShape⟩⟩ := by
  rw [matchAndRewrite, if_neg op.legal, if_pos hrank, getBroadcastDimensions]
  split
  · rfl
  · rfl

theorem matchAndRewrite_of_rank_ne (hrank : op.inputShape.length ≠ op.outputShape.length) :
    op.matchAndRewrite = if 0 ∈ op.unsqueezeShape then .error "division by zero"
      else .ok ⟨some ⟨op.inputShape, op.unsqueezeShape.map toI32, op.unsqueezeShape⟩,
        ⟨op.unsqueezeShape, List.zipWith (· / ·) op.outputShape op.unsqueezeShape,
          op.outputShape⟩⟩ := by
  rw [matchAndRewrite, if_neg op.legal, if_neg hrank, getBroadcastDimensions]
  split
  · rfl
  · rfl

theorem shape_broadcast_quotients {α : Type} {x : Tensor α} {output : List ℕ}
    (hpos : ∀ n ∈ x.shape, 0 < n) (h : List.Forall₂ (fun n o => n = 1 ∨ n = o) x.shape output) :
    (x.broadcast (List.zipWith (· / ·) output x.shape)).shape = output :=
  (BroadcastOp.verify_iff.mp ((verify_quotients_iff hpos).mpr h)).2.2.symm

/-- **Equal ranks.**  The values are preserved when the dimensions of extents other than one stay
where they are. -/
theorem preserved_iff_of_rank_eq (hrank : op.inputShape.length = op.outputShape.length) :
    op.Preserved ↔ (∀ n ∈ op.inputShape, 0 < n) ∧
      List.Forall₂ (fun n o => n = 1 ∨ n = o) op.inputShape op.outputShape ∧
      ∀ o, InShape o op.outputShape → List.zipWith (· % ·) o op.inputShape = op.operandIndex o := by
  rw [Preserved, op.matchAndRewrite_of_rank_eq hrank]
  constructor
  · rintro ⟨e, he, hverified, hvalues⟩
    split at he
    · exact nomatch he
    · rename_i hzero
      obtain rfl := Except.ok.inj he
      have hpos := zero_notMem_iff.mp hzero
      refine ⟨hpos, (verify_quotients_iff hpos).mp hverified.2, fun o ho => ?_⟩
      exact (hvalues (List ℕ) ⟨op.inputShape, id⟩ rfl).2 o ho
  · rintro ⟨hpos, hrel, hindex⟩
    refine ⟨_, if_neg (zero_notMem_iff.mpr hpos), ⟨nofun, (verify_quotients_iff hpos).mpr hrel⟩,
      fun α x hx => ?_⟩
    rw [← hx] at hpos hrel hindex
    refine ⟨?_, fun o ho => congrArg x.elem (hindex o ho)⟩
    show (x.broadcast (List.zipWith (· / ·) op.outputShape op.inputShape)).shape = _
    rw [← hx]
    exact shape_broadcast_quotients hpos hrel

/-- **Different ranks.**  The values are preserved when the reshape keeps offsets. -/
theorem preserved_iff_of_rank_ne (hrank : op.inputShape.length ≠ op.outputShape.length) :
    op.Preserved ↔ (∀ n ∈ op.unsqueezeShape, 0 < n) ∧
      (ReshapeOp.mk op.inputShape (op.unsqueezeShape.map toI32) op.unsqueezeShape).verify = .ok () ∧
      ∀ o, InShape o op.outputShape → unravel op.inputShape (rowMajor op.unsqueezeShape
        (List.zipWith (· % ·) o op.unsqueezeShape)) = op.operandIndex o := by
  rw [Preserved, op.matchAndRewrite_of_rank_ne hrank]
  constructor
  · rintro ⟨e, he, hverified, hvalues⟩
    split at he
    · exact nomatch he
    · rename_i hzero
      obtain rfl := Except.ok.inj he
      refine ⟨zero_notMem_iff.mp hzero, hverified.1 _ rfl, fun o ho => ?_⟩
      exact (hvalues (List ℕ) ⟨op.inputShape, id⟩ rfl).2 o ho
  · rintro ⟨hpos, hreshape, hindex⟩
    have hrel := op.forall₂_unsqueezeShape
    refine ⟨_, if_neg (zero_notMem_iff.mpr hpos),
      ⟨fun r hr => Option.some.inj hr ▸ hreshape, (verify_quotients_iff hpos).mpr hrel⟩,
      fun α x hx => ?_⟩
    rw [← hx] at hindex
    exact ⟨shape_broadcast_quotients (x := x.reshape op.unsqueezeShape) hpos hrel,
      fun o ho => congrArg x.elem (hindex o ho)⟩

/-- A scalar fits any shape of one dimension. -/
theorem reads_scalar (h : op.operand = []) (hrank : op.inputShape.length = op.outputShape.length) :
    List.Forall₂ (fun n o => n = 1 ∨ n = o) op.inputShape op.outputShape ∧
      ∀ o, InShape o op.outputShape → List.zipWith (· % ·) o op.inputShape = op.operandIndex o := by
  have hinput : op.inputShape = [1] := by
    rw [inputShape, h]
    rfl
  rw [hinput] at hrank ⊢
  obtain ⟨n, hn⟩ := List.length_eq_one_iff.mp hrank.symm
  rw [hn]
  refine ⟨.cons (.inl rfl) .nil, fun o ho => ?_⟩
  obtain ⟨i, hi⟩ := List.length_eq_one_iff.mp (ho.length_eq.trans rfl)
  rw [operandIndex, if_pos h, hi, List.zipWith_cons_cons, Nat.mod_one, List.zipWith_nil_left]

theorem forall₂_iff_of_rank_eq (hrank : op.inputShape.length = op.outputShape.length) :
    List.Forall₂ (fun n o => n = 1 ∨ n = o) op.inputShape op.outputShape ↔ ∀ i < op.operand.length,
        op.operand.getD i 0 = 1 ∨ op.operand.getD i 0 = op.result.getD i 0 := by
  by_cases h : op.operand = []
  · refine iff_of_true (op.reads_scalar h hrank).1 fun i hi => ?_
    rw [h] at hi
    exact absurd hi (Nat.not_lt_zero i)
  · rw [forall₂_iff_getD, op.inputShape_of_ne_nil h, op.outputShape_of_ne_nil h]
    rw [op.inputShape_of_ne_nil h, op.outputShape_of_ne_nil h] at hrank
    exact ⟨And.right, fun hall => ⟨hrank, hall⟩⟩

/-- With elements in the result, the operand is read at the index itself exactly when the
dimensions of extents other than one stay where they are. -/
theorem reads_iff_of_rank_eq (hrank : op.inputShape.length = op.outputShape.length)
    (hpos : ∀ n ∈ op.inputShape, 0 < n) (hout : 0 ∉ op.outputShape) :
    (List.Forall₂ (fun n o => n = 1 ∨ n = o) op.inputShape op.outputShape ∧
      ∀ o, InShape o op.outputShape → List.zipWith (· % ·) o op.inputShape = op.operandIndex o) ↔
      ∀ i < op.operand.length, op.operand.getD i 0 = 1 ∨ op.broadcastDimensions.getD i 0 = i := by
  by_cases h : op.operand = []
  · refine iff_of_true (op.reads_scalar h hrank) fun i hi => ?_
    rw [h] at hi
    exact absurd hi (Nat.not_lt_zero i)
  · rw [op.forall₂_iff_of_rank_eq hrank]
    have hinput := op.inputShape_of_ne_nil h
    have houtput := op.outputShape_of_ne_nil h
    rw [hinput] at hrank hpos ⊢
    have hspread := op.spread_unsqueezeShape.2
    constructor
    · rintro ⟨-, hindex⟩ i hi
      by_cases hone : op.operand.getD i 0 = 1
      · exact .inl hone
      · -- the index of the result that is one along the dimension of the operand
        have htwo : 2 ≤ op.operand.getD i 0 := by
          have := hpos _ (List.getElem_mem hi)
          rw [List.getD_eq_getElem _ _ hi] at hone ⊢
          omega
        have hextent := (op.extent i hi).resolve_left hone
        have hdlt : op.broadcastDimensions.getD i 0 < op.outputShape.length := by
          rw [houtput]
          exact op.lt _ (hspread.mem_dims hi)
        have hin := inShape_unit (zero_notMem_iff.mp hout) (by rw [houtput, ← hextent]; exact htwo)
        have hread := congrArg (fun l => l.getD i 0) (hindex _ hin)
        rw [zipWith_mod_eq (hin.length_eq.trans hrank.symm) hi,
          (op.operandIndex_of_ne_nil h _).2 i hi, if_neg hone, getD_unit hdlt, getD_unit hdlt,
          if_pos rfl] at hread
        by_contra hne
        rw [not_or] at hne
        rw [if_neg (Ne.symm hne.2), Nat.zero_mod] at hread
        exact absurd hread Nat.zero_ne_one
    · intro hstay
      have hsame : ∀ i < op.operand.length,
          op.operand.getD i 0 = 1 ∨ op.operand.getD i 0 = op.result.getD i 0 := by
        intro i hi
        rcases hstay i hi with hone | hdim
        · exact .inl hone
        · have hextent := op.extent i hi
          rwa [hdim] at hextent
      refine ⟨hsame, fun o ho => ?_⟩
      have holen : o.length = op.operand.length := ho.length_eq.trans hrank.symm
      obtain ⟨hlen, hindex⟩ := op.operandIndex_of_ne_nil h o
      have hmodlen : (List.zipWith (· % ·) o op.operand).length = op.operand.length := by
        rw [List.length_zipWith, holen, Nat.min_self]
      apply ext_getD (hmodlen.trans hlen.symm)
      intro i hi
      rw [hmodlen] at hi
      rw [zipWith_mod_eq holen hi, hindex i hi]
      by_cases hone : op.operand.getD i 0 = 1
      · rw [if_pos hone, hone, Nat.mod_one]
      · have hlt := (forall₂_iff_getD.mp ho).2 i (holen.symm ▸ hi)
        rw [if_neg hone, (hstay i hi).resolve_left hone, Nat.mod_eq_of_lt]
        rw [(hsame i hi).resolve_left hone, ← houtput]
        exact hlt

/-- With elements in the result, the reshape keeps offsets exactly when the dimensions of extents
other than one stay in order. -/
theorem reads_iff_of_rank_ne (hpos : ∀ n ∈ op.inputShape, 0 < n) (hout : 0 ∉ op.outputShape)
    (hprod : op.inputShape.prod = op.unsqueezeShape.prod) :
    (∀ o, InShape o op.outputShape → unravel op.inputShape (rowMajor op.unsqueezeShape
        (List.zipWith (· % ·) o op.unsqueezeShape)) = op.operandIndex o) ↔
      Ordered op.operand op.broadcastDimensions := by
  obtain ⟨hlength, hspread⟩ := op.spread_unsqueezeShape
  by_cases h : op.operand = []
  · have hinput : op.inputShape = [1] := by
      rw [inputShape, h]
      rfl
    have hordered : Ordered op.operand op.broadcastDimensions := by
      rw [h]
      exact fun i j _ hj => absurd hj (Nat.not_lt_zero j)
    refine iff_of_true (fun o ho => ?_) hordered
    have hupos := hspread.pos (by rw [h]; exact nofun)
    have hlt := rowMajor_lt (inShape_zipWith_mod (ho.length_eq.trans hlength.symm) hupos)
    rw [← hprod, hinput, List.prod_singleton, Nat.lt_one_iff] at hlt
    rw [hlt, hinput, operandIndex, if_pos h]
    rfl
  · have hinput := op.inputShape_of_ne_nil h
    rw [hinput] at hpos hprod ⊢
    have hupos := hspread.pos hpos
    rw [← hspread.rowMajor_iff hpos]
    constructor
    · intro hindex idx hidx
      have ho := op.inShape_outputShape hout hidx
      have hread := hindex idx ho
      rw [op.operandIndex_eq_pick h ho, zipWith_mod_self hidx] at hread
      rw [← hread, rowMajor_unravel]
      rw [hprod]
      exact rowMajor_lt hidx
    · intro hoffset o ho
      have hin := inShape_zipWith_mod (ho.length_eq.trans hlength.symm) hupos
      rw [hoffset _ hin, unravel_rowMajor (hspread.inShape_pick hin), op.operandIndex_eq_pick h ho]

/-- The unsqueezed shape is positive when the operand is. -/
theorem unsqueezeShape_pos_iff : (∀ n ∈ op.unsqueezeShape, 0 < n) ↔ ∀ n ∈ op.inputShape, 0 < n := by
  have hspread := op.spread_unsqueezeShape.2
  by_cases h : op.operand = []
  · have hinput : op.inputShape = [1] := by
      rw [inputShape, h]
      rfl
    rw [hinput]
    exact iff_of_true (hspread.pos (by rw [h]; exact nofun)) (by simp)
  · rw [op.inputShape_of_ne_nil h]
    refine ⟨fun hpos n hn => ?_, hspread.pos⟩
    obtain ⟨i, hi, rfl⟩ := List.getElem_of_mem hn
    have hd := hspread.dims_lt hi
    rw [← List.getD_eq_getElem _ 0 hi, ← hspread.kept i hi, List.getD_eq_getElem _ _ hd]
    exact hpos _ (List.getElem_mem hd)

/-- **The condition for broadcast_in_dim.**  The emitted operations compute what the original one
computes if and only if its dimensions are monotone. -/
theorem preserved_iff_monotone : op.Preserved ↔ op.Monotone := by
  by_cases hrank : op.inputShape.length = op.outputShape.length
  · rw [op.preserved_iff_of_rank_eq hrank]
    constructor
    · rintro ⟨hpos, hreads⟩
      refine ⟨hpos, fun _ => ?_, fun hne => absurd hrank hne⟩
      split
      · exact (op.forall₂_iff_of_rank_eq hrank).mp hreads.1
      · rename_i hout
        exact (op.reads_iff_of_rank_eq hrank hpos hout).mp hreads
    · rintro ⟨hpos, hsame, -⟩
      have hsame := hsame hrank
      refine ⟨hpos, ?_⟩
      split at hsame
      · rename_i hout
        exact ⟨(op.forall₂_iff_of_rank_eq hrank).mpr hsame,
          fun o ho => absurd ho (not_inShape_of_zero hout)⟩
      · rename_i hout
        exact (op.reads_iff_of_rank_eq hrank hpos hout).mpr hsame
  · rw [op.preserved_iff_of_rank_ne hrank, op.unsqueezeShape_pos_iff]
    constructor
    · rintro ⟨hpos, hreshape, hreads⟩
      refine ⟨hpos, fun heq => absurd heq hrank, fun _ => ⟨hreshape, ?_⟩⟩
      by_cases hout : 0 ∈ op.outputShape
      · exact .inl hout
      · exact .inr ((op.reads_iff_of_rank_ne hpos hout
          (ReshapeOp.verify_spec hreshape).2.1).mp hreads)
    · rintro ⟨hpos, -, hunsqueezed⟩
      obtain ⟨hreshape, hout | hordered⟩ := hunsqueezed hrank
      · exact ⟨hpos, hreshape, fun o ho => absurd ho (not_inShape_of_zero hout)⟩
      · refine ⟨hpos, hreshape, ?_⟩
        by_cases hout : 0 ∈ op.outputShape
        · exact fun o ho => absurd ho (not_inShape_of_zero hout)
        · exact (op.reads_iff_of_rank_ne hpos hout
            (ReshapeOp.verify_spec hreshape).2.1).mpr hordered

/-- **A transposed square.**  The dimensions are exchanged, and the broadcast that is emitted
leaves every element where it is. -/
theorem square_not_preserved :
    ¬(BroadcastInDimOp.mk [2, 2] [1, 0] [2, 2] rfl (by decide) (by decide)
      (by decide)).Preserved := by
  rintro ⟨e, he, -, hvalues⟩
  obtain rfl := Except.ok.inj he
  have hread := (hvalues (List ℕ) ⟨[2, 2], id⟩ rfl).2 [0, 1]
    (.cons (by decide) (.cons (by decide) .nil))
  exact absurd hread (by decide)

end BroadcastInDimOp

end TTIR
