/-
# Arange along the last dimension

`ttir.arange`: its verifier (`TTIROps.cpp`), and `ArangeForceLastDimensionPattern` of
`TTIRToTTIRDecomposition.cpp`, which makes a one-dimensional arange of it, then a reshape and a
broadcast.

* `ArangeOp.verify`, `ArangeOp.decompose` : the translated code;
* `valuesBefore` : how many values the library produces, which stops at the end;
* `valuesBefore_eq_iff` : when the compiler counts as many;
* `ArangeOp.Right` : the emitted operations have the type and the values of the original one;
* `ArangeOp.right_iff_exact` : when they do.

The compiler divides and truncates, so that a last value of a range that the step does not divide is
not counted.
-/
import TTMLIR.GatherToEmbedding
import TTMLIR.BroadcastInDim

namespace TTIR

open MixedRadix Fallible BroadcastInDimOp

/-! ## The translated code -/

/-- `ttir.arange`: its attributes and the shape of its result. -/
structure ArangeOp where
  start : ℤ
  endValue : ℤ
  step : ℤ
  arangeDimension : ℕ
  output : List ℕ
deriving DecidableEq

/-- A result of signed arithmetic on 64 bits. -/
def signed64 (x : ℤ) : Except String ℤ :=
  if -2 ^ 63 ≤ x ∧ x < 2 ^ 63 then .ok x else .error "signed integer overflow"

/-- The emitted operations. -/
structure ArangeOp.Emitted where
  arange : ArangeOp
  reshape : Option ReshapeOp
  broadcast : Option BroadcastOp

namespace ArangeOp

variable (op : ArangeOp)

/-- `(end - start) / step`. -/
def numValues : Except String ℤ := do
  let range ← signed64 (op.endValue - op.start)
  signed64 (range.tdiv op.step)

/-- `ArangeOp::verify`; `getDimSize` reads a dimension below 2^32. -/
def verify : Except String Unit :=
  if op.step = 0 then .error "Step value cannot be zero"
  else do
    let numValues ← op.numValues
    if numValues ≤ 0 then
      .error s!"Invalid range: start={op.start}, end={op.endValue}, step={op.step}"
    else match op.output[op.arangeDimension]? with
      | none => .error "invalid dim index"
      | some size =>
        if numValues ≠ size then
          .error s!"Output tensor shape must be {numValues} at dim {op.arangeDimension} (since start={op.start}, end={op.endValue}, step={op.step}), but got {size}"
        else .ok ()

/-- The shape with the rank of the result and the length at the arange dimension. -/
def reshapeShape (arangeLength : ℕ) : List ℕ :=
  (List.range op.output.length).map fun i => if i = op.arangeDimension then arangeLength else 1

/-- The dimensions that still differ from those of the result. -/
def broadcastDims (shape : List ℕ) : List ℕ :=
  (List.range shape.length).filter fun i =>
    i ≠ op.arangeDimension ∧ shape.getD i 0 ≠ op.output.getD i 0

/-- The shape once these have the extents of the result. -/
def broadcastType (shape : List ℕ) : List ℕ :=
  (List.range shape.length).map fun i =>
    if i ∈ op.broadcastDims shape then op.output.getD i 0 else shape.getD i 0

/-- `matchAndRewrite`. -/
def matchAndRewrite : Except String Emitted := do
  let arangeLength := (← op.numValues).toNat
  let requiredShape := [arangeLength]
  if requiredShape = op.output then
    return ⟨op, none, none⟩
  let arange : ArangeOp := { op with arangeDimension := 0, output := requiredShape }
  let sameRank := op.output.length = requiredShape.length
  let reshape :=
    if sameRank then none
    else some (GatherOp.createReshapeOp requiredShape (op.reshapeShape arangeLength))
  let outputShape := if sameRank then requiredShape else op.reshapeShape arangeLength
  if op.broadcastDims outputShape = [] then
    return ⟨arange, reshape, none⟩
  let broadcastShape ← getBroadcastDimensions outputShape (op.broadcastType outputShape)
  return ⟨arange, reshape, some ⟨outputShape, broadcastShape, op.broadcastType outputShape⟩⟩

/-- The legality of the pass, and the pattern for what is not legal. -/
def decompose : Except String Emitted :=
  if op.arangeDimension = 0 ∧ op.output.length = 1 then .ok ⟨op, none, none⟩
  else op.matchAndRewrite

/-! ## What the operations compute -/

/-- The number of values before the end, in the direction of the step. -/
def valuesBefore : ℕ := ⌈((op.endValue - op.start : ℤ) : ℚ) / op.step⌉₊

/-- The one-dimensional arange of the library. -/
def library : Tensor ℤ := ⟨[op.valuesBefore], fun idx => op.start + idx.getD 0 0 * op.step⟩

/-- The emitted operations pass their verifiers. -/
structure Emitted.Verified (e : Emitted) : Prop where
  arange : e.arange.verify = .ok ()
  reshape : ∀ r, e.reshape = some r → r.verify = .ok ()
  broadcast : ∀ b, e.broadcast = some b → b.verify = .ok ()

/-- The tensor of the reshape. -/
def Emitted.reshaped (e : Emitted) : Tensor ℤ :=
  match e.reshape with
  | none => e.arange.library
  | some r => e.arange.library.reshape r.output

/-- What the emitted operations compute. -/
def Emitted.apply (e : Emitted) : Tensor ℤ :=
  match e.broadcast with
  | none => e.reshaped
  | some b => e.reshaped.broadcast b.broadcastDimensions

/-- **The specified sequence.**  The extent of the arange dimension is the number of values before
the end, and the emitted operations have the type of the original one and its values. -/
def Right : Prop :=
  op.output[op.arangeDimension]? = some op.valuesBefore ∧
    ∃ e, op.decompose = .ok e ∧ e.Verified ∧ e.apply.shape = op.output ∧
      ∀ idx, InShape idx op.output →
        e.apply.elem idx = op.start + idx.getD op.arangeDimension 0 * op.step

/-- **Exact ranges.**  The step divides the range, and the shape of the reshape passes as an
attribute of 32-bit numbers. -/
def Exact : Prop :=
  op.step ∣ op.endValue - op.start ∧
    (op.output.length = 1 ∨
      AcceptsShape ((List.replicate op.output.length 1).set op.arangeDimension
        (op.output.getD op.arangeDimension 0)))

/-! ## Counting the values -/

/-- The values before the end. -/
theorem lt_valuesBefore_iff (hstep : op.step ≠ 0) (i : ℕ) :
    i < op.valuesBefore ↔ 0 < op.step ∧ op.start + i * op.step < op.endValue ∨
      op.step < 0 ∧ op.endValue < op.start + i * op.step := by
  rw [valuesBefore, Nat.lt_ceil]
  rcases lt_or_gt_of_ne hstep with hneg | hpos
  · rw [lt_div_iff_of_neg (by exact_mod_cast hneg)]
    norm_cast
    omega
  · rw [lt_div_iff₀ (by exact_mod_cast hpos)]
    norm_cast
    omega

variable {n : ℕ}

/-- **Truncated counts.**  A positive truncated quotient is the number of values exactly when the
step divides the range. -/
theorem valuesBefore_eq_iff (hstep : op.step ≠ 0) (hn : 0 < n)
    (hquot : (op.endValue - op.start).tdiv op.step = n) :
    op.valuesBefore = n ↔ op.step ∣ op.endValue - op.start := by
  have hstep' : (op.step : ℚ) ≠ 0 := by exact_mod_cast hstep
  constructor
  · intro hcount
    have hfirst := (op.lt_valuesBefore_iff hstep 0).mp (by omega)
    have hlast := (op.lt_valuesBefore_iff hstep n).not.mp (by omega)
    have hmul := Int.mul_tdiv_add_tmod (op.endValue - op.start) op.step
    rw [hquot, mul_comm] at hmul
    apply Int.dvd_of_tmod_eq_zero
    -- the remainder has the sign of the range, and no value is left for it
    rcases hfirst with ⟨hpos, hfirst⟩ | ⟨hneg, hfirst⟩
    · have hsign := Int.tmod_nonneg op.step (a := op.endValue - op.start) (by omega)
      omega
    · have hsign := Int.tmod_nonneg op.step (a := -(op.endValue - op.start)) (by omega)
      rw [Int.neg_tmod] at hsign
      omega
  · rintro ⟨q, hq⟩
    rw [hq, Int.mul_tdiv_cancel_left _ hstep] at hquot
    rw [valuesBefore, hq, Int.cast_mul, mul_div_cancel_left₀ _ hstep', hquot, Int.cast_natCast,
      Nat.ceil_natCast]

/-! ## The verifier -/

/-- **Verified operations**: the length is the truncated quotient, and it is positive. -/
theorem verify_eq_ok_iff : op.verify = .ok () ↔ op.step ≠ 0 ∧ ∃ n : ℕ, 0 < n ∧
    op.numValues = .ok n ∧ op.output[op.arangeDimension]? = some n := by
  rw [verify]
  split
  · rename_i hstep
    exact iff_of_false (fun h => nomatch h) (fun h => h.1 hstep)
  rename_i hstep
  rw [bind_eq_ok]
  constructor
  · rintro ⟨n, hn, h⟩
    split at h
    · exact nomatch h
    rename_i hpos
    split at h
    · exact nomatch h
    · rename_i size hsize
      split at h
      · exact nomatch h
      · rename_i heq
        obtain rfl := not_not.mp heq
        exact ⟨hstep, size, by omega, hn, hsize⟩
  · rintro ⟨-, n, hpos, hn, hsize⟩
    refine ⟨n, hn, ?_⟩
    rw [if_neg (by omega), hsize]
    exact if_neg (not_not.mpr rfl)

/-- The number of values is the quotient of the verifier. -/
theorem tdiv_of_numValues {n : ℤ} (h : op.numValues = .ok n) :
    (op.endValue - op.start).tdiv op.step = n := by
  have hsigned : ∀ {x y : ℤ}, signed64 x = .ok y → x = y := by
    intro x y hx
    rw [signed64] at hx
    split at hx
    · exact Except.ok.inj hx
    · exact nomatch hx
  obtain ⟨range, hrange, hquot⟩ := bind_eq_ok.mp h
  rw [hsigned hrange]
  exact hsigned hquot

/-! ## The emitted operations -/

theorem getD_reshapeShape {n i : ℕ} (hi : i < op.output.length) :
    (op.reshapeShape n).getD i 0 = if i = op.arangeDimension then n else 1 := by
  rw [reshapeShape, List.getD_eq_getElem _ _ (by simpa using hi), List.getElem_map,
    List.getElem_range]

theorem length_reshapeShape (n : ℕ) : (op.reshapeShape n).length = op.output.length := by
  rw [reshapeShape, List.length_map, List.length_range]

theorem spread_reshapeShape (hdim : op.arangeDimension < op.output.length) :
    Spread [n] [op.arangeDimension] (op.reshapeShape n) where
  length_eq := rfl
  nodup := List.nodup_singleton _
  lt d hd := by rwa [op.length_reshapeShape, List.mem_singleton.mp hd]
  kept i hi := by
    obtain rfl : i = 0 := by simpa using hi
    exact (op.getD_reshapeShape hdim).trans (if_pos rfl)
  ones d hd hmem := by
    rw [op.length_reshapeShape] at hd
    exact (op.getD_reshapeShape hd).trans (if_neg fun h => hmem (List.mem_singleton.mpr h))

theorem reshapeShape_eq (n : ℕ) :
    op.reshapeShape n = (List.replicate op.output.length 1).set op.arangeDimension n := by
  apply List.ext_getElem
  · rw [op.length_reshapeShape, List.length_set, List.length_replicate]
  · intro i hi hi'
    rw [op.length_reshapeShape] at hi
    rw [← List.getD_eq_getElem _ 0, op.getD_reshapeShape hi, List.getElem_set,
      List.getElem_replicate]
    simp only [eq_comm]

theorem prod_reshapeShape (hdim : op.arangeDimension < op.output.length) :
    (op.reshapeShape n).prod = n := by
  rw [reshapeShape_eq, List.prod_set, List.length_replicate, if_pos hdim]
  simp

section

variable {shape : List ℕ} (hlen : shape.length = op.output.length)
  (hdim : shape.getD op.arangeDimension 0 = op.output.getD op.arangeDimension 0)

include hlen hdim

/-- The broadcast has the type of the original result. -/
theorem broadcastType_eq : op.broadcastType shape = op.output := by
  apply ext_getD
  · rw [broadcastType, List.length_map, List.length_range, hlen]
  · intro i hi
    rw [broadcastType, List.length_map, List.length_range] at hi
    rw [broadcastType, List.getD_eq_getElem _ _ (by simpa using hi), List.getElem_map,
      List.getElem_range]
    split
    · rfl
    · rename_i hmem
      rw [broadcastDims, List.mem_filter, List.mem_range] at hmem
      by_contra hne
      exact hmem ⟨hi, by simpa using ⟨fun h => hne (h ▸ hdim), hne⟩⟩

theorem eq_output_of_broadcastDims (h : op.broadcastDims shape = []) : shape = op.output := by
  rw [← op.broadcastType_eq hlen hdim]
  apply ext_getD
  · rw [broadcastType, List.length_map, List.length_range]
  · intro i hi
    rw [broadcastType, List.getD_eq_getElem (List.map _ _) _ (by simpa using hi), List.getElem_map,
      List.getElem_range, h, if_neg List.not_mem_nil]

end

/-- The reshaped values vary along the dimension. -/
theorem elem_reshape {x : Tensor ℤ} (hx : x.shape = [n])
    (hdim : op.arangeDimension < op.output.length) {idx : List ℕ}
    (hidx : InShape idx (op.reshapeShape n)) :
    (x.reshape (op.reshapeShape n)).elem idx = x.elem [idx.getD op.arangeDimension 0] := by
  have hspread := op.spread_reshapeShape (n := n) hdim
  have hordered : Ordered [n] [op.arangeDimension] := by
    intro i j hij hj
    rw [List.length_singleton] at hj
    omega
  show x.elem (unravel x.shape (rowMajor (op.reshapeShape n) idx)) = _
  rw [hx, hspread.rowMajor_eq hordered hidx, unravel_rowMajor (hspread.inShape_pick hidx)]
  rfl

/-- The one-dimensional operation is verified too. -/
theorem verify_arange (h : op.verify = .ok ()) (hn : op.numValues = .ok n) :
    ({ op with arangeDimension := 0, output := [n] } : ArangeOp).verify = .ok () := by
  obtain ⟨hstep, m, hpos, hm, -⟩ := op.verify_eq_ok_iff.mp h
  obtain rfl : m = n := Int.ofNat.inj (Except.ok.inj (hm.symm.trans hn))
  exact (verify_eq_ok_iff _).mpr ⟨hstep, m, hpos, hm, rfl⟩

theorem forall₂_reshapeShape (hsize : op.output[op.arangeDimension]? = some n) :
    List.Forall₂ (fun m o => m = 1 ∨ m = o) (op.reshapeShape n) op.output := by
  refine forall₂_iff_getD.mpr ⟨op.length_reshapeShape n, fun i hi => ?_⟩
  rw [op.length_reshapeShape] at hi
  rw [op.getD_reshapeShape hi]
  split
  · rename_i heq
    right
    rw [heq, List.getD_eq_getElem?_getD, hsize, Option.getD_some]
  · exact .inl rfl

theorem reshapeShape_pos (hn : 0 < n) : ∀ m ∈ op.reshapeShape n, 0 < m := by
  intro m hm
  rw [reshapeShape, List.mem_map] at hm
  obtain ⟨i, -, rfl⟩ := hm
  split
  · exact hn
  · exact one_pos

/-- The operations for a result of another rank. -/
def emitted (n : ℕ) : Emitted where
  arange := { op with arangeDimension := 0, output := [n] }
  reshape := some (GatherOp.createReshapeOp [n] (op.reshapeShape n))
  broadcast :=
    if op.broadcastDims (op.reshapeShape n) = [] then none
    else some ⟨op.reshapeShape n, List.zipWith (· / ·) op.output (op.reshapeShape n), op.output⟩

theorem getD_output (hsize : op.output[op.arangeDimension]? = some n) :
    op.output.getD op.arangeDimension 0 = n := by
  rw [List.getD_eq_getElem?_getD, hsize, Option.getD_some]

theorem arangeDimension_lt (hsize : op.output[op.arangeDimension]? = some n) :
    op.arangeDimension < op.output.length :=
  (List.getElem?_eq_some_iff.mp hsize).1

theorem getD_reshapeShape_dim (hsize : op.output[op.arangeDimension]? = some n) :
    (op.reshapeShape n).getD op.arangeDimension 0 = op.output.getD op.arangeDimension 0 := by
  rw [op.getD_reshapeShape (op.arangeDimension_lt hsize), if_pos rfl, op.getD_output hsize]

/-- **The decomposition**: an arange of another rank becomes an arange, a reshape, and a broadcast
when there is something to repeat. -/
theorem decompose_of_rank_ne (hn : 0 < n) (hquot : op.numValues = .ok n)
    (hsize : op.output[op.arangeDimension]? = some n) (hrank : op.output.length ≠ 1) :
    op.decompose = .ok (op.emitted n) := by
  have hsame : [n] ≠ op.output := fun h => hrank (by rw [← h, List.length_singleton])
  have hzero : 0 ∉ op.reshapeShape n :=
    BroadcastInDimOp.zero_notMem_iff.mpr (op.reshapeShape_pos hn)
  have htype := op.broadcastType_eq (op.length_reshapeShape n) (op.getD_reshapeShape_dim hsize)
  rw [decompose, if_neg fun h => hrank h.2, matchAndRewrite, hquot]
  simp only [bind, Except.bind, Int.toNat_natCast, if_neg hsame, List.length_singleton, hrank,
    if_false, pure, Except.pure, getBroadcastDimensions, htype, if_neg hzero, emitted]
  split <;> rfl

/-- The values of the emitted operations, for as many values as the library produces. -/
theorem apply_emitted (hn : 0 < n) (hcount : op.valuesBefore = n)
    (hsize : op.output[op.arangeDimension]? = some n) :
    (op.emitted n).apply.shape = op.output ∧ ∀ idx, InShape idx op.output →
      (op.emitted n).apply.elem idx = op.start + idx.getD op.arangeDimension 0 * op.step := by
  have hdim := op.arangeDimension_lt hsize
  have hpos := op.reshapeShape_pos hn
  have hvalue : ∀ idx, InShape idx (op.reshapeShape n) → (op.emitted n).reshaped.elem idx
      = op.start + idx.getD op.arangeDimension 0 * op.step :=
    fun idx hidx => op.elem_reshape (x := (op.emitted n).arange.library)
      (congrArg (fun k => [k]) hcount) hdim hidx
  rw [Emitted.apply, emitted]
  by_cases hnone : op.broadcastDims (op.reshapeShape n) = []
  · have hshape := op.eq_output_of_broadcastDims (op.length_reshapeShape n)
      (op.getD_reshapeShape_dim hsize) hnone
    simp only [if_pos hnone]
    exact ⟨hshape, fun idx hidx => hvalue idx (hshape.symm ▸ hidx)⟩
  · simp only [if_neg hnone]
    refine ⟨shape_broadcast_quotients (x := (op.emitted n).reshaped) hpos
      (op.forall₂_reshapeShape hsize), fun idx hidx => ?_⟩
    have hlen : idx.length = (op.reshapeShape n).length :=
      hidx.length_eq.trans (op.length_reshapeShape n).symm
    refine (hvalue _ (inShape_zipWith_mod hlen hpos)).trans ?_
    rw [zipWith_mod_eq hlen ((op.length_reshapeShape n).symm ▸ hdim),
      op.getD_reshapeShape_dim hsize, Nat.mod_eq_of_lt (getD_lt_of_inShape hidx hdim)]

/-- The emitted operations verify when the shape of the reshape does. -/
theorem verified_emitted_iff (h : op.verify = .ok ()) (hn : 0 < n)
    (hquot : op.numValues = .ok n) (hsize : op.output[op.arangeDimension]? = some n) :
    (op.emitted n).Verified ↔ AcceptsShape (op.reshapeShape n) := by
  have hreshape : (GatherOp.createReshapeOp [n] (op.reshapeShape n)).verify = .ok () ↔
      AcceptsShape (op.reshapeShape n) := by
    rw [GatherOp.verify_createReshapeOp_iff, List.prod_singleton,
      op.prod_reshapeShape (op.arangeDimension_lt hsize), eq_self, true_and]
  constructor
  · exact fun hverified => hreshape.mp (hverified.reshape _ rfl)
  · refine fun haccepts => ⟨op.verify_arange h hquot, ?_, ?_⟩
    · rintro _ ⟨⟩
      exact hreshape.mpr haccepts
    · intro b hb
      rw [emitted] at hb
      split at hb
      · exact nomatch hb
      · obtain rfl := Option.some.inj hb
        exact (verify_quotients_iff (op.reshapeShape_pos hn)).mpr (op.forall₂_reshapeShape hsize)

/-- **When the sequence is the specified one**: for the ranges that the step divides. -/
theorem right_iff_exact (h : op.verify = .ok ()) : op.Right ↔ op.Exact := by
  obtain ⟨hstep, n, hn, hquot, hsize⟩ := op.verify_eq_ok_iff.mp h
  have hcount := op.valuesBefore_eq_iff hstep hn (op.tdiv_of_numValues hquot)
  have hfirst : op.output[op.arangeDimension]? = some op.valuesBefore ↔
      op.step ∣ op.endValue - op.start := by
    rw [hsize, Option.some_inj, eq_comm, hcount]
  rw [Right, Exact, hfirst]
  refine and_congr_right fun hdvd => ?_
  have hvalues := hcount.mpr hdvd
  by_cases hrank : op.output.length = 1
  · refine iff_of_true ?_ (.inl hrank)
    obtain ⟨size, hout⟩ := List.length_eq_one_iff.mp hrank
    have hdim : op.arangeDimension = 0 := by
      have := op.arangeDimension_lt hsize
      omega
    have hsize' : n = size := by simpa [hout, hdim, eq_comm] using hsize
    refine ⟨⟨op, none, none⟩, if_pos ⟨hdim, hrank⟩, ⟨h, nofun, nofun⟩, ?_, fun idx _ => ?_⟩
    · show [op.valuesBefore] = op.output
      rw [hvalues, hout, hsize']
    · rw [hdim]
      rfl
  · rw [op.decompose_of_rank_ne hn hquot hsize hrank, op.getD_output hsize, ← op.reshapeShape_eq,
      ← op.verified_emitted_iff h hn hquot hsize]
    constructor
    · rintro ⟨e, he, hverified, -⟩
      obtain rfl := Except.ok.inj he
      exact .inr hverified
    · intro hverified
      exact ⟨_, rfl, hverified.resolve_left hrank, op.apply_emitted hn hvalues hsize⟩

theorem even_right :
    (⟨0, 6, 2, 0, [3, 4]⟩ : ArangeOp).verify = .ok () ∧ (⟨0, 6, 2, 0, [3, 4]⟩ : ArangeOp).Right :=
  ⟨by decide, (right_iff_exact _ (by decide)).mpr ⟨by decide, .inr ⟨by decide, by decide⟩⟩⟩

/-- The values 0, 2 and 4 lie before 5, and two of them are counted. -/
theorem odd_not_right :
    (⟨0, 5, 2, 0, [2]⟩ : ArangeOp).verify = .ok () ∧ ¬(⟨0, 5, 2, 0, [2]⟩ : ArangeOp).Right := by
  refine ⟨by decide, fun h => ?_⟩
  have hlast := lt_valuesBefore_iff ⟨0, 5, 2, 0, [2]⟩ (by decide) 2
  rw [← Option.some.inj h.1] at hlast
  exact absurd hlast (by decide)

end ArangeOp

end TTIR
