/-
# Fusing a softmax

`SoftmaxFusionPattern` (`TTIRFusing.cpp`) replaces the division of `exp(x)` by the broadcast
of its sum along one dimension with a softmax of `x`.

* `matchAndRewrite` : the pattern;
* `Preserved` : what the softmax is meant to keep;
* `Match` : what the pattern has found;
* `preserved_iff` : the softmax keeps the division exactly when the broadcast does not
  stretch `exp(x)`.
-/
import TTMLIR.TTIRGraph

namespace TTIR

open MixedRadix SSA Fallible

namespace SoftmaxFusion

/-! ## The pattern -/

/-- The softmax that replaces a division.  Its destination is a fresh `ttir.empty`. -/
structure NewSoftmax where
  input : Value
  dimension : ℤ
  type : List ℕ
deriving DecidableEq, Repr

/-- `dyn_cast<SumOp>`: the attributes of a sum. -/
def asSum : OpName → Option (Bool × Option (List ℤ))
  | .sum keepDim dimArg => some (keepDim, dimArg)
  | _ => none

/-- `isa<BroadcastOp>`. -/
def isBroadcast : OpName → Bool
  | .broadcast _ => true
  | _ => false

/-- `matchAndRewrite`. -/
def matchAndRewrite (g : Graph) (divOp : Op) : Option NewSoftmax := do
  let numerator ← divOp.operands[0]?
  let denominator ← divOp.operands[1]?
  let expOp ← g.getDefiningOp numerator
  guard (expOp.name = .exp)
  let broadcastOp ← g.getDefiningOp denominator
  guard (isBroadcast broadcastOp.name)
  let sumOp ← g.getDefiningOp (← broadcastOp.operands[0]?)
  let (keepDim, dimArg) ← asSum sumOp.name
  guard keepDim
  guard (sumOp.operands[0]? = some (result expOp))
  guard (g.countUsers (result expOp) = 2 ∧ g.hasOneUse (result sumOp) ∧
    g.hasOneUse (result broadcastOp))
  match ← dimArg with
  | [reduceDim] => return ⟨← expOp.operands[0]?, reduceDim, g.type (result divOp)⟩
  | _ => none

/-- The softmax passes its verifier, reads a value that is visible at the division, and has
the value of the division. -/
structure Preserved (g : Graph) (divOp : Op) (new : NewSoftmax) : Prop where
  verify : verifySoftmax (g.type new.input) new.type new.dimension = .ok ()
  visible : ∀ pre post, g.ops = pre ++ divOp :: post → new.input ∈ scope g.numArgs pre
  value : ∀ {α : Type} [NonUnitalNonAssocSemiring α] [Div α] (I : Interp α)
    (ρ : Value → Tensor α), Run I g ρ → (ρ (result divOp)).Agree
      ((ρ new.input).softmax I.exp (wrapDim (ρ new.input).shape.length new.dimension).toNat)

/-- No dimension of the denominator is longer than that of the input. -/
def Unstretched (g : Graph) (divOp : Op) (new : NewSoftmax) : Prop :=
  ∃ denominator, divOp.operands[1]? = some denominator ∧
    List.Forall₂ (fun n b => b = n ∨ b = 1) (g.type new.input) (g.type denominator)

/-! ## What the pattern has found -/

/-- The operations under a division, with their operands and types. -/
structure Match (g : Graph) (divOp : Op) (new : NewSoftmax) where
  expOp : Op
  sumOp : Op
  broadcastOp : Op
  broadcastDimensions : List ℕ
  expInit : Value
  sumInit : Value
  broadcastInit : Value
  divInit : Value
  exp_mem : expOp ∈ g.ops
  sum_mem : sumOp ∈ g.ops
  broadcast_mem : broadcastOp ∈ g.ops
  exp_name : expOp.name = .exp
  sum_name : sumOp.name = .sum true (some [new.dimension])
  broadcast_name : broadcastOp.name = .broadcast broadcastDimensions
  exp_operands : expOp.operands = [new.input, expInit]
  sum_operands : sumOp.operands = [result expOp, sumInit]
  broadcast_operands : broadcastOp.operands = [result sumOp, broadcastInit]
  div_operands : divOp.operands = [result expOp, result broadcastOp, divInit]

section Match

variable {g : Graph} {divOp : Op} {new : NewSoftmax}

theorem asSum_eq_some {name : OpName} {keepDim : Bool} {dimArg : Option (List ℤ)}
    (h : asSum name = some (keepDim, dimArg)) : name = .sum keepDim dimArg := by
  cases name with
  | sum keepDim' dimArg' =>
    obtain ⟨rfl, rfl⟩ := Prod.mk.inj (Option.some.inj h)
    rfl
  | _ => cases h

theorem exists_of_isBroadcast {name : OpName} (h : isBroadcast name = true) :
    ∃ dims, name = .broadcast dims := by
  cases name with
  | broadcast dims => exact ⟨dims, rfl⟩
  | _ => cases h

/-- **The pattern finds** an exponential, its sum along one dimension, and a broadcast of the
sum. -/
theorem exists_match (hg : g.Verified) (hdiv : divOp ∈ g.ops) (hname : divOp.name = .div)
    (h : matchAndRewrite g divOp = some new) :
    Nonempty (Match g divOp new) ∧ new.type = g.type (result divOp) := by
  unfold matchAndRewrite at h
  obtain ⟨numerator, hnumerator, h⟩ := Option.bind_eq_some_iff.mp h
  obtain ⟨denominator, hdenominator, h⟩ := Option.bind_eq_some_iff.mp h
  obtain ⟨expOp, hexp, h⟩ := Option.bind_eq_some_iff.mp h
  obtain ⟨_, hexpName, h⟩ := Option.bind_eq_some_iff.mp h
  obtain ⟨broadcastOp, hbroadcast, h⟩ := Option.bind_eq_some_iff.mp h
  obtain ⟨_, hbroadcastName, h⟩ := Option.bind_eq_some_iff.mp h
  obtain ⟨sum, hsumOperand, h⟩ := Option.bind_eq_some_iff.mp h
  obtain ⟨sumOp, hsum, h⟩ := Option.bind_eq_some_iff.mp h
  obtain ⟨⟨keepDim, dimArg⟩, hsumName, h⟩ := Option.bind_eq_some_iff.mp h
  obtain ⟨_, hkeepDim, h⟩ := Option.bind_eq_some_iff.mp h
  obtain ⟨_, hsumInput, h⟩ := Option.bind_eq_some_iff.mp h
  obtain ⟨_, -, h⟩ := Option.bind_eq_some_iff.mp h
  obtain ⟨reduceDims, hdimArg, hnew⟩ := Option.bind_eq_some_iff.mp h
  have hexpName := (Option.guard_eq_some' _).mp hexpName
  obtain rfl : keepDim = true := (Option.guard_eq_some' _).mp hkeepDim
  have hsumInput := (Option.guard_eq_some' _).mp hsumInput
  obtain ⟨dims, hbroadcastName⟩ :=
    exists_of_isBroadcast ((Option.guard_eq_some' _).mp hbroadcastName)
  have hsumName := asSum_eq_some hsumName
  obtain rfl : dimArg = some reduceDims := hdimArg
  -- the operands of the four operations
  have hexpMem := (getDefiningOp_spec hexp).1
  have hbroadcastMem := (getDefiningOp_spec hbroadcast).1
  have hsumMem := (getDefiningOp_spec hsum).1
  have hverifyDiv := hg.ops divOp hdiv
  have hverifyExp := hg.ops expOp hexpMem
  have hverifyBroadcast := hg.ops broadcastOp hbroadcastMem
  have hverifySum := hg.ops sumOp hsumMem
  rw [verifyOp, hname] at hverifyDiv
  rw [verifyOp, hexpName] at hverifyExp
  rw [verifyOp, hbroadcastName] at hverifyBroadcast
  rw [verifyOp, hsumName] at hverifySum
  obtain ⟨a, b, divInit, -, hdivOperands, -, -, -⟩ := verifyBinary_spec hverifyDiv
  obtain ⟨x, expInit, _, hexpOperands, hexpTypes, -, -⟩ := verifyUnary_spec hverifyExp
  obtain ⟨c, broadcastInit, _, hbroadcastOperands, hbroadcastTypes, -, -⟩ :=
    verifyUnary_spec hverifyBroadcast
  obtain ⟨e, sumInit, _, hsumOperands, hsumTypes, -, -⟩ := verifyUnary_spec hverifySum
  rw [hdivOperands] at hnumerator hdenominator
  rw [hbroadcastOperands] at hsumOperand
  rw [hsumOperands] at hsumInput
  obtain rfl : a = numerator := Option.some.inj hnumerator
  obtain rfl : b = denominator := Option.some.inj hdenominator
  obtain rfl : c = sum := Option.some.inj hsumOperand
  obtain rfl : e = result expOp := Option.some.inj hsumInput
  have ha : a = result expOp := eq_result_of_getDefiningOp hg.toWellFormed hdiv
    (by simp [hdivOperands]) hexp (by simp [Operation.numResults, hexpTypes])
  have hb : b = result broadcastOp := eq_result_of_getDefiningOp hg.toWellFormed hdiv
    (by simp [hdivOperands]) hbroadcast (by simp [Operation.numResults, hbroadcastTypes])
  have hc : c = result sumOp := eq_result_of_getDefiningOp hg.toWellFormed hbroadcastMem
    (by simp [hbroadcastOperands]) hsum (by simp [Operation.numResults, hsumTypes])
  subst ha hb hc
  split at hnew
  · next reduceDim =>
    rw [hexpOperands] at hnew
    obtain rfl := Option.some.inj hnew
    exact ⟨⟨{
      expOp := expOp, sumOp := sumOp, broadcastOp := broadcastOp
      broadcastDimensions := dims, expInit := expInit, sumInit := sumInit
      broadcastInit := broadcastInit, divInit := divInit
      exp_mem := hexpMem, sum_mem := hsumMem, broadcast_mem := hbroadcastMem
      exp_name := hexpName, sum_name := hsumName, broadcast_name := hbroadcastName
      exp_operands := hexpOperands, sum_operands := hsumOperands
      broadcast_operands := hbroadcastOperands, div_operands := hdivOperands }⟩, rfl⟩
  · cases hnew

/-- The types of the operations. -/
structure Match.Types (m : Match g divOp new) : Prop where
  inBounds : InBounds (g.type new.input).length new.dimension
  exp : g.type (result m.expOp) = g.type new.input
  sum : g.type (result m.sumOp) =
    (g.type new.input).set (wrapDim (g.type new.input).length new.dimension).toNat 1
  length : m.broadcastDimensions.length = (g.type new.input).length
  broadcast : g.type (result m.broadcastOp) =
    List.zipWith (· * ·) (g.type (result m.sumOp)) m.broadcastDimensions
  div : getBroadcastedShape (g.type new.input) (g.type (result m.broadcastOp)) =
    some (g.type (result divOp))

/-- A reduced dimension that is kept has extent one. -/
theorem expectedOutputShape_keepDim (input : List ℕ) (d : ℕ) :
    expectedOutputShape true input ((List.range input.length).map fun i => i = d) =
      input.set d 1 := by
  simp only [expectedOutputShape, Bool.not_true, Bool.false_eq_true, and_false, if_false, if_true]
  have hmap : (fun p : ℕ × Bool => if (!p.2) = true then some p.1 else some 1) =
      fun p => some (if p.2 then 1 else p.1) := by
    funext p
    cases p.2 <;> rfl
  rw [hmap, List.filterMap_eq_map']
  apply List.ext_getElem (by simp)
  intro i hi _
  simp only [List.getElem_map, List.getElem_zip, List.getElem_range, decide_eq_true_eq,
    List.getElem_set]
  by_cases hid : i = d
  · rw [if_pos hid, if_pos hid.symm]
  · rw [if_neg hid, if_neg (Ne.symm hid)]

/-- A verified sum along one dimension that is kept. -/
theorem verifyReduceOp_keepDim {input output : List ℕ} {d : ℤ}
    (h : verifyReduceOp input (some [d]) true output = .ok ()) :
    InBounds input.length d ∧ output = input.set (wrapDim input.length d).toNat 1 := by
  obtain ⟨mask, hmask, h⟩ := bind_eq_ok.mp h
  simp only at h
  split_ifs at h with hne
  obtain rfl := not_not.mp hne
  have hbounds : InBounds input.length d := by
    by_contra hout
    simp [reduceDimsMask, hout] at hmask
  have hwrap : 0 ≤ wrapDim input.length d := by
    unfold InBounds at hbounds
    unfold wrapDim
    split_ifs <;> omega
  simp only [reduceDimsMask, List.find?_cons, hbounds, not_true_eq_false, decide_false,
    List.find?_nil, List.nodup_singleton, if_false, List.any_cons, List.any_nil,
    Bool.or_false] at hmask
  obtain rfl := Except.ok.inj hmask
  refine ⟨hbounds, ?_⟩
  rw [← expectedOutputShape_keepDim]
  congr 1
  apply List.map_congr_left
  intro i _
  congr 1
  apply propext
  omega

theorem Match.types (m : Match g divOp new) (hg : g.Verified) (hdiv : divOp ∈ g.ops)
    (hname : divOp.name = .div) : m.Types := by
  have hverifyDiv := hg.ops divOp hdiv
  have hverifyExp := hg.ops m.expOp m.exp_mem
  have hverifyBroadcast := hg.ops m.broadcastOp m.broadcast_mem
  have hverifySum := hg.ops m.sumOp m.sum_mem
  rw [verifyOp, hname] at hverifyDiv
  rw [verifyOp, m.exp_name] at hverifyExp
  rw [verifyOp, m.broadcast_name] at hverifyBroadcast
  rw [verifyOp, m.sum_name] at hverifySum
  obtain ⟨_, _, _, r, hoperands, hr, -, hcheck⟩ := verifyBinary_spec hverifyDiv
  obtain ⟨rfl, rfl, rfl⟩ := by simpa [m.div_operands] using hoperands
  obtain ⟨_, _, re, hoperands, hre, -, hcheckExp⟩ := verifyUnary_spec hverifyExp
  obtain ⟨rfl, rfl⟩ := by simpa [m.exp_operands] using hoperands
  obtain ⟨_, _, rb, hoperands, hrb, -, hcheckBroadcast⟩ := verifyUnary_spec hverifyBroadcast
  obtain ⟨rfl, rfl⟩ := by simpa [m.broadcast_operands] using hoperands
  obtain ⟨_, _, rs, hoperands, hrs, -, hcheckSum⟩ := verifyUnary_spec hverifySum
  obtain ⟨rfl, rfl⟩ := by simpa [m.sum_operands] using hoperands
  have hexp : g.type (result m.expOp) = g.type new.input :=
    (type_result hg.toWellFormed m.exp_mem hre).trans (verifyBroadcastable_one hcheckExp).symm
  obtain ⟨hbounds, hsum⟩ := verifyReduceOp_keepDim hcheckSum
  obtain ⟨hlength, hbroadcast⟩ := BroadcastOp.verify_spec hcheckBroadcast
  have hsum' := type_result hg.toWellFormed m.sum_mem hrs
  have hbroadcast' := type_result hg.toWellFormed m.broadcast_mem hrb
  simp only at hlength hbroadcast
  rw [hexp] at hbounds hsum
  rw [hsum', hsum, List.length_set] at hlength
  have hshape := verifyBroadcastable_two hcheck
  rw [hexp, broadcastedShape_of_length, ← type_result hg.toWellFormed hdiv hr] at hshape
  · exact {
      inBounds := hbounds, exp := hexp, sum := hsum'.trans hsum, length := hlength
      broadcast := hbroadcast'.trans hbroadcast, div := hshape }
  · rw [hbroadcast', hbroadcast, List.length_zipWith, hlength, hsum', hsum, List.length_set,
      min_self]

end Match

/-! ## When the division keeps the shape of the input -/

/-- **Reading the sum.**  Where the broadcast sum is read for an index of the input, the
summed elements are those that differ from it along the reduced dimension. -/
theorem set_clamp {n dims idx : List ℕ} {d k : ℕ} (hdims : dims.length = n.length)
    (hidx : InShape idx n)
    (hb : List.Forall₂ (fun n b => b = n ∨ b = 1) n (List.zipWith (· * ·) (n.set d 1) dims)) :
    (List.zipWith (· % ·) (clamp (List.zipWith (· * ·) (n.set d 1) dims) idx)
      (n.set d 1)).set d k = idx.set d k := by
  have hlength := hidx.length_eq
  rw [clamp_of_length (by simp [hlength, hdims])]
  apply List.ext_getElem (by simp [hlength, hdims])
  intro i hi _
  have hin : i < n.length := by
    simp only [List.length_set, List.length_zipWith, hlength, hdims] at hi
    omega
  have hii : i < idx.length := by omega
  have hid : i < dims.length := by omega
  simp only [List.getElem_set, List.getElem_zipWith]
  by_cases hdi : d = i
  · rw [if_pos hdi, if_pos hdi]
  · simp only [if_neg hdi]
    -- away from the reduced dimension, what is kept at extent one has extent one
    have hlt : idx[i] < n[i] := hidx.get hii hin
    have hbi := hb.get hin (by simp [hin, hid])
    simp only [List.get_eq_getElem, List.getElem_zipWith, List.getElem_set, if_neg hdi] at hbi
    have hmod : idx[i] % (n[i] * dims[i]) = idx[i] := by
      rcases hbi with hbi | hbi
      · rw [hbi, Nat.mod_eq_of_lt hlt]
      · have hone : n[i] = 1 := Nat.eq_one_of_mul_eq_one_right hbi
        rw [hbi]
        omega
    rw [hmod, Nat.mod_eq_of_lt hlt]

section Correct

variable {g : Graph} {divOp : Op} {new : NewSoftmax}

/-- The value of the division. -/
theorem Match.value {α : Type} [NonUnitalNonAssocSemiring α] [Div α] {I : Interp α}
    {ρ : Value → Tensor α} (m : Match g divOp new) (hg : g.Verified) (hdiv : divOp ∈ g.ops)
    (hname : divOp.name = .div) (hρ : Run I g ρ) :
    ρ (result divOp) = Tensor.zip (· / ·) (g.type (result divOp)) ((ρ new.input).map I.exp)
      ((((ρ new.input).map I.exp).sumKeepDim
        (wrapDim (ρ new.input).shape.length new.dimension).toNat).broadcast
          m.broadcastDimensions) := by
  have hverifyDiv := hg.ops divOp hdiv
  have hverifyExp := hg.ops m.expOp m.exp_mem
  have hverifyBroadcast := hg.ops m.broadcastOp m.broadcast_mem
  have hverifySum := hg.ops m.sumOp m.sum_mem
  rw [verifyOp, hname] at hverifyDiv
  rw [verifyOp, m.exp_name] at hverifyExp
  rw [verifyOp, m.broadcast_name] at hverifyBroadcast
  rw [verifyOp, m.sum_name] at hverifySum
  obtain ⟨_, _, _, r, -, hr, -, -⟩ := verifyBinary_spec hverifyDiv
  obtain ⟨_, _, re, -, hre, -, -⟩ := verifyUnary_spec hverifyExp
  obtain ⟨_, _, rb, -, hrb, -, -⟩ := verifyUnary_spec hverifyBroadcast
  obtain ⟨_, _, rs, -, hrs, -, -⟩ := verifyUnary_spec hverifySum
  -- what each operation computes
  have hexp := hρ.eq_result m.exp_mem hre
  rw [m.exp_name, m.exp_operands] at hexp
  have hexp : ρ (result m.expOp) = (ρ new.input).map I.exp := (Option.some.inj hexp).symm
  have hsum := hρ.eq_result m.sum_mem hrs
  rw [m.sum_name, m.sum_operands] at hsum
  have hsum : ρ (result m.sumOp) = ((ρ new.input).map I.exp).sumKeepDim
      (wrapDim (ρ new.input).shape.length new.dimension).toNat := by
    rw [hexp.symm]
    refine (Option.some.inj hsum).symm.trans ?_
    rw [hexp]
    rfl
  have hbroadcast := hρ.eq_result m.broadcast_mem hrb
  rw [m.broadcast_name, m.broadcast_operands] at hbroadcast
  have hbroadcast : ρ (result m.broadcastOp) =
      (ρ (result m.sumOp)).broadcast m.broadcastDimensions := (Option.some.inj hbroadcast).symm
  have hvalue := hρ.eq_result hdiv hr
  rw [hname, m.div_operands] at hvalue
  obtain ⟨s, -, hvalue⟩ := Option.map_eq_some_iff.mp hvalue
  have hs : s = g.type (result divOp) := by
    rw [type_result hg.toWellFormed hdiv hr, ← hρ.shape_result hg.toWellFormed hdiv hr, ← hvalue]
    rfl
  rw [← hvalue, hs, hbroadcast, hsum, hexp]

/-- **The softmax keeps the division exactly when** the broadcast does not stretch the
exponentials: every dimension of the denominator has extent one or that of the input. -/
theorem preserved_iff (hg : g.Verified) (hdiv : divOp ∈ g.ops) (hname : divOp.name = .div)
    (h : matchAndRewrite g divOp = some new) :
    Preserved g divOp new ↔ Unstretched g divOp new := by
  obtain ⟨⟨m⟩, htype⟩ := exists_match hg hdiv hname h
  have types := m.types hg hdiv hname
  have hdiv1 : divOp.operands[1]? = some (result m.broadcastOp) := by
    rw [m.div_operands]
    rfl
  constructor
  · intro hpreserved
    have hverify := hpreserved.verify
    unfold verifySoftmax at hverify
    split_ifs at hverify with h1 h2
    refine ⟨result m.broadcastOp, hdiv1, getBroadcastedShape_eq_left_iff.mp ?_⟩
    rw [types.div, ← htype, ← not_not.mp h1]
  · rintro ⟨denominator, hdenominator, hunstretched⟩
    obtain rfl := Option.some.inj (hdiv1.symm.trans hdenominator)
    have hshape : g.type (result divOp) = g.type new.input :=
      Option.some.inj (types.div.symm.trans (getBroadcastedShape_eq_left_iff.mpr hunstretched))
    refine ⟨?_, ?_, ?_⟩
    · have hbounds := types.inBounds
      unfold InBounds at hbounds
      rw [verifySoftmax, if_neg (by rw [htype, hshape]; exact not_not.mpr rfl), if_neg (by omega)]
    · intro pre post hops
      exact mem_scope_of_result hg.toWellFormed hops m.exp_mem (by simp [m.div_operands])
        (by simp [m.exp_operands])
    · intro α _ _ I ρ hρ
      have hinput : (ρ new.input).shape = g.type new.input :=
        hρ.shape_operand hg.toWellFormed m.exp_mem (by simp [m.exp_operands])
      rw [m.value hg hdiv hname hρ]
      refine ⟨hshape.trans hinput.symm, fun idx hidx => ?_⟩
      replace hidx : InShape idx (g.type new.input) := hshape ▸ hidx
      set d := (wrapDim (ρ new.input).shape.length new.dimension).toNat with hd
      rw [types.broadcast, types.sum, ← hinput, ← hd] at hunstretched
      rw [← hinput] at hidx
      have hread : ∀ k, (List.zipWith (· % ·) (clamp (List.zipWith (· * ·)
          ((ρ new.input).shape.set d 1) m.broadcastDimensions) idx)
          ((ρ new.input).shape.set d 1)).set d k = idx.set d k := fun k =>
        set_clamp (by rw [types.length, hinput]) hidx hunstretched
      simp only [Tensor.zip, Tensor.map, Tensor.sumKeepDim, Tensor.broadcast, Tensor.softmax,
        Tensor.normalize, clamp_of_inShape hidx, hread]

end Correct

/-! ## A stretched row -/

/-- The row `[1, 4]` whose sum of exponentials is broadcast to `rows` rows. -/
def rowGraph (rows : ℕ) : Graph where
  numArgs := 1
  argTypes := [[1, 4]]
  constParams := []
  ops := [⟨0, .empty [1, 4], [], [[1, 4]]⟩,
    ⟨1, .exp, [.blockArg 0, .opResult 0 0], [[1, 4]]⟩,
    ⟨2, .empty [1, 1], [], [[1, 1]]⟩,
    ⟨3, .sum true (some [1]), [.opResult 1 0, .opResult 2 0], [[1, 1]]⟩,
    ⟨4, .empty [rows, 4], [], [[rows, 4]]⟩,
    ⟨5, .broadcast [rows, 4], [.opResult 3 0, .opResult 4 0], [[rows, 4]]⟩,
    ⟨6, .empty [rows, 4], [], [[rows, 4]]⟩,
    ⟨7, .div, [.opResult 1 0, .opResult 5 0, .opResult 6 0], [[rows, 4]]⟩]
  returns := [.opResult 7 0]

/-- The division of the row. -/
def rowDiv (rows : ℕ) : Op := ⟨7, .div, [.opResult 1 0, .opResult 5 0, .opResult 6 0], [[rows, 4]]⟩

theorem rowGraph_verified (rows : ℕ) (hrows : rows = 1 ∨ rows = 3) : (rowGraph rows).Verified := by
  rcases hrows with rfl | rfl <;>
    exact { nodup := by decide, dominated := by decide, returns_mem := by decide, ops := by decide }

/-- A row that is divided by its own sum. -/
theorem preserved_row : Preserved (rowGraph 1) (rowDiv 1) ⟨.blockArg 0, 1, [1, 4]⟩ ↔
    Unstretched (rowGraph 1) (rowDiv 1) ⟨.blockArg 0, 1, [1, 4]⟩ :=
  preserved_iff (rowGraph_verified 1 (.inl rfl)) (by decide) rfl rfl

/-- **A row stretched to three rows** is replaced with a softmax of the row, whose result does
not have the shape of its operand. -/
theorem stretchedRow_not_preserved : (rowGraph 3).Verified ∧
    matchAndRewrite (rowGraph 3) (rowDiv 3) = some ⟨.blockArg 0, 1, [3, 4]⟩ ∧
    ¬ Preserved (rowGraph 3) (rowDiv 3) ⟨.blockArg 0, 1, [3, 4]⟩ := by
  refine ⟨rowGraph_verified 3 (.inr rfl), rfl, fun h => ?_⟩
  have hverify := h.verify
  revert hverify
  decide

end SoftmaxFusion

end TTIR
