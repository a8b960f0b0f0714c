/-
# Folding core indices

`ttir.core_index` is declared constant-like, and its folder returns the number of its dimension.
The folders of MLIR therefore match a core index as that number.

* `IndexExpr`, `IndexExpr.eval` : index expressions, and their values on a core;
* `IndexExpr.constant?` : what an operand is matched as;
* `Fold`, `Step` : the folders, on an expression and anywhere in it;
* `Becomes`, `Lit`, `Core` : the constants and core indices an expression can be folded to;
* `Shielded` : no identity looks at a core index;
* `kept_of_step` : what folding a shielded expression keeps;
* `shielded_spec` : the shielded expressions are those in which no identity gets to look at a core
  index, and folding leaves their values unchanged;
* `streamIndex_unchanged_iff` : the index into a stream.
-/
import TTMLIR.Affine

namespace CoreIndexFold

open MLIR

/-! ## Index expressions -/

/-- A value of type `index`. -/
abbrev Index : Type := BitVec 64

/-- `CmpIPredicate`. -/
inductive CmpIPredicate : Type where
  | eq
  | ne
  | slt
  | sle
  | sgt
  | sge
  | ult
  | ule
  | ugt
  | uge
  deriving DecidableEq, Repr

/-- `applyCmpPredicate`. -/
def CmpIPredicate.apply : CmpIPredicate → Index → Index → Bool
  | .eq, a, b => a == b
  | .ne, a, b => a != b
  | .slt, a, b => a.slt b
  | .sle, a, b => a.sle b
  | .sgt, a, b => b.slt a
  | .sge, a, b => b.sle a
  | .ult, a, b => a.ult b
  | .ule, a, b => a.ule b
  | .ugt, a, b => b.ult a
  | .uge, a, b => b.ule a

/-- The predicate for exchanged operands. -/
def CmpIPredicate.swap : CmpIPredicate → CmpIPredicate
  | .eq => .eq
  | .ne => .ne
  | .slt => .sgt
  | .sle => .sge
  | .sgt => .slt
  | .sge => .sle
  | .ult => .ugt
  | .ule => .uge
  | .ugt => .ult
  | .uge => .ule

/-- An index expression of a generic region. -/
inductive IndexExpr : Type where
  | constant (n : Index)
  | coreIndex (dim : ℕ)
  | iterIndex (dim : ℕ)
  | addi (lhs rhs : IndexExpr)
  | muli (lhs rhs : IndexExpr)
  | cmpi (predicate : CmpIPredicate) (lhs rhs : IndexExpr)
  | affineApply (map : AffineExpr) {n : ℕ} (operands : Fin n → IndexExpr)

/-- A core of a grid, and a point of the iteration space. -/
structure Point (grid bounds : ℕ → ℕ) : Type where
  core : ℕ → ℕ
  iter : ℕ → ℕ
  core_lt : ∀ dim, core dim < grid dim
  iter_lt : ∀ dim, iter dim < bounds dim

/-- The value of an affine map with one result. -/
def applyMap (map : AffineExpr) {n : ℕ} (operands : Fin n → Index) : Index :=
  BitVec.ofInt 64 (map.eval (List.ofFn fun i => (operands i).toInt) [])

section Eval

variable {grid bounds : ℕ → ℕ}

/-- The value of an expression; the truth of a comparison is one. -/
def IndexExpr.eval (p : Point grid bounds) : IndexExpr → Index
  | .constant n => n
  | .coreIndex dim => BitVec.ofNat 64 (p.core dim)
  | .iterIndex dim => BitVec.ofNat 64 (p.iter dim)
  | .addi lhs rhs => lhs.eval p + rhs.eval p
  | .muli lhs rhs => lhs.eval p * rhs.eval p
  | .cmpi predicate lhs rhs => if predicate.apply (lhs.eval p) (rhs.eval p) then 1 else 0
  | .affineApply map operands => applyMap map fun i => (operands i).eval p

end Eval

/-! ## The folders -/

/-- `CoreIndexOp::fold`: the number of the dimension. -/
def foldCoreIndex (dim : ℕ) : Index := BitVec.ofNat 64 dim

/-- `m_Constant`: what an operand is matched as. -/
def IndexExpr.constant? : IndexExpr → Option Index
  | .constant n => some n
  | .coreIndex dim => some (foldCoreIndex dim)
  | _ => none

/-- **The folders.**  Operands that match as constants are moved to the right, neutral and
absorbing operands are folded, an affine application to constants is computed, and so are
operations on constants of one type.  Two core indices are constants of one type, `i64`; their
sums and products have another one, but their comparison is folded.  A loop of one iteration is
removed. -/
inductive Fold (bounds : ℕ → ℕ) : IndexExpr → IndexExpr → Prop where
  | addiZero (x c : IndexExpr) (h : c.constant? = some 0) : Fold bounds (.addi x c) x
  | muliOne (x c : IndexExpr) (h : c.constant? = some 1) : Fold bounds (.muli x c) x
  | muliZero (x c : IndexExpr) (h : c.constant? = some 0) : Fold bounds (.muli x c) (.constant 0)
  | addiSwap (c x : IndexExpr) (hc : c.constant? ≠ none) (hx : x.constant? = none) :
      Fold bounds (.addi c x) (.addi x c)
  | muliSwap (c x : IndexExpr) (hc : c.constant? ≠ none) (hx : x.constant? = none) :
      Fold bounds (.muli c x) (.muli x c)
  | cmpiSwap (predicate : CmpIPredicate) (c x : IndexExpr) (hc : c.constant? ≠ none)
      (hx : x.constant? = none) : Fold bounds (.cmpi predicate c x) (.cmpi predicate.swap x c)
  | addiConstant (m n : Index) : Fold bounds (.addi (.constant m) (.constant n)) (.constant (m + n))
  | muliConstant (m n : Index) : Fold bounds (.muli (.constant m) (.constant n)) (.constant (m * n))
  | cmpiConstant (predicate : CmpIPredicate) (m n : Index) :
      Fold bounds (.cmpi predicate (.constant m) (.constant n))
        (.constant (if predicate.apply m n then 1 else 0))
  | cmpiCoreIndex (predicate : CmpIPredicate) (i j : ℕ) :
      Fold bounds (.cmpi predicate (.coreIndex i) (.coreIndex j))
        (.constant (if predicate.apply (foldCoreIndex i) (foldCoreIndex j) then 1 else 0))
  | affineApply (map : AffineExpr) {n : ℕ} (operands : Fin n → IndexExpr) (values : Fin n → Index)
      (h : ∀ i, (operands i).constant? = some (values i)) :
      Fold bounds (.affineApply map operands) (.constant (applyMap map values))
  | oneIteration (dim : ℕ) (h : bounds dim = 1) : Fold bounds (.iterIndex dim) (.constant 0)

/-- A subexpression is folded. -/
inductive Step (bounds : ℕ → ℕ) : IndexExpr → IndexExpr → Prop where
  | fold {e e' : IndexExpr} (h : Fold bounds e e') : Step bounds e e'
  | addiLhs {lhs lhs' : IndexExpr} (rhs : IndexExpr) (h : Step bounds lhs lhs') :
      Step bounds (.addi lhs rhs) (.addi lhs' rhs)
  | addiRhs (lhs : IndexExpr) {rhs rhs' : IndexExpr} (h : Step bounds rhs rhs') :
      Step bounds (.addi lhs rhs) (.addi lhs rhs')
  | muliLhs {lhs lhs' : IndexExpr} (rhs : IndexExpr) (h : Step bounds lhs lhs') :
      Step bounds (.muli lhs rhs) (.muli lhs' rhs)
  | muliRhs (lhs : IndexExpr) {rhs rhs' : IndexExpr} (h : Step bounds rhs rhs') :
      Step bounds (.muli lhs rhs) (.muli lhs rhs')
  | cmpiLhs (predicate : CmpIPredicate) {lhs lhs' : IndexExpr} (rhs : IndexExpr)
      (h : Step bounds lhs lhs') : Step bounds (.cmpi predicate lhs rhs) (.cmpi predicate lhs' rhs)
  | cmpiRhs (predicate : CmpIPredicate) (lhs : IndexExpr) {rhs rhs' : IndexExpr}
      (h : Step bounds rhs rhs') : Step bounds (.cmpi predicate lhs rhs) (.cmpi predicate lhs rhs')
  | operand (map : AffineExpr) {n : ℕ} (operands : Fin n → IndexExpr) (i : Fin n) {e : IndexExpr}
      (h : Step bounds (operands i) e) :
      Step bounds (.affineApply map operands) (.affineApply map (Function.update operands i e))

/-- Any number of subexpressions are folded, in any order. -/
def Folds (bounds : ℕ → ℕ) : IndexExpr → IndexExpr → Prop := Relation.ReflTransGen (Step bounds)

/-- An expression can be folded to a constant, or to a core index, which is matched as a number. -/
inductive Becomes (bounds : ℕ → ℕ) : IndexExpr → IndexExpr → Prop where
  | constant (n : Index) : Becomes bounds (.constant n) (.constant n)
  | oneIteration (dim : ℕ) (h : bounds dim = 1) : Becomes bounds (.iterIndex dim) (.constant 0)
  | addi {lhs rhs : IndexExpr} {m n : Index} (hl : Becomes bounds lhs (.constant m))
      (hr : Becomes bounds rhs (.constant n)) : Becomes bounds (.addi lhs rhs) (.constant (m + n))
  | muli {lhs rhs : IndexExpr} {m n : Index} (hl : Becomes bounds lhs (.constant m))
      (hr : Becomes bounds rhs (.constant n)) : Becomes bounds (.muli lhs rhs) (.constant (m * n))
  | zeroRight (lhs : IndexExpr) {rhs : IndexExpr} (h : Becomes bounds rhs (.constant 0)) :
      Becomes bounds (.muli lhs rhs) (.constant 0)
  | zeroLeft {lhs rhs : IndexExpr} (h : Becomes bounds lhs (.constant 0))
      (hr : rhs.constant? = none) : Becomes bounds (.muli lhs rhs) (.constant 0)
  | cmpi (predicate : CmpIPredicate) {lhs rhs : IndexExpr} {m n : Index}
      (hl : Becomes bounds lhs (.constant m)) (hr : Becomes bounds rhs (.constant n)) :
      Becomes bounds (.cmpi predicate lhs rhs) (.constant (if predicate.apply m n then 1 else 0))
  | cmpiCoreIndex (predicate : CmpIPredicate) {lhs rhs : IndexExpr} {i j : ℕ}
      (hl : Becomes bounds lhs (.coreIndex i)) (hr : Becomes bounds rhs (.coreIndex j)) :
      Becomes bounds (.cmpi predicate lhs rhs)
        (.constant (if predicate.apply (foldCoreIndex i) (foldCoreIndex j) then 1 else 0))
  | affineApply (map : AffineExpr) {n : ℕ} {operands : Fin n → IndexExpr} {values : Fin n → Index}
      (h : ∀ i, Becomes bounds (operands i) (.constant (values i))) :
      Becomes bounds (.affineApply map operands) (.constant (applyMap map values))
  | coreIndex (dim : ℕ) : Becomes bounds (.coreIndex dim) (.coreIndex dim)
  | addiRight {lhs rhs : IndexExpr} {dim : ℕ} (hl : Becomes bounds lhs (.coreIndex dim))
      (hr : Becomes bounds rhs (.constant 0)) : Becomes bounds (.addi lhs rhs) (.coreIndex dim)
  | addiLeft {lhs rhs : IndexExpr} {dim : ℕ} (hl : Becomes bounds lhs (.constant 0))
      (hr : Becomes bounds rhs (.coreIndex dim)) (h : rhs.constant? = none) :
      Becomes bounds (.addi lhs rhs) (.coreIndex dim)
  | muliRight {lhs rhs : IndexExpr} {dim : ℕ} (hl : Becomes bounds lhs (.coreIndex dim))
      (hr : Becomes bounds rhs (.constant 1)) : Becomes bounds (.muli lhs rhs) (.coreIndex dim)
  | muliLeft {lhs rhs : IndexExpr} {dim : ℕ} (hl : Becomes bounds lhs (.constant 1))
      (hr : Becomes bounds rhs (.coreIndex dim)) (h : rhs.constant? = none) :
      Becomes bounds (.muli lhs rhs) (.coreIndex dim)

/-- An expression can be folded to a constant. -/
abbrev Lit (bounds : ℕ → ℕ) (e : IndexExpr) (n : Index) : Prop := Becomes bounds e (.constant n)

/-- An expression can be folded to a core index. -/
abbrev Core (bounds : ℕ → ℕ) (e : IndexExpr) (dim : ℕ) : Prop := Becomes bounds e (.coreIndex dim)

/-- An operand that can be folded to a core index whose number is `n`, on the right or moved
there. -/
def Meets (bounds : ℕ → ℕ) (lhs rhs : IndexExpr) (n : Index) : Prop :=
  ∃ dim, foldCoreIndex dim = n ∧
    (Core bounds rhs dim ∨ Core bounds lhs dim ∧ rhs.constant? = none)

/-- **No identity looks at a core index.**  No sum has an operand that can be folded to a core
index of number zero, no product one of number zero or one, no comparison is one of two core
indices, and no affine application can be folded to one on constants and core indices. -/
def Shielded (bounds : ℕ → ℕ) : IndexExpr → Prop
  | .constant _ => True
  | .coreIndex _ => True
  | .iterIndex _ => True
  | .addi lhs rhs => (Shielded bounds lhs ∧ Shielded bounds rhs) ∧ ¬ Meets bounds lhs rhs 0
  | .muli lhs rhs => (Shielded bounds lhs ∧ Shielded bounds rhs) ∧
      ¬ Meets bounds lhs rhs 0 ∧ ¬ Meets bounds lhs rhs 1
  | .cmpi _ lhs rhs => (Shielded bounds lhs ∧ Shielded bounds rhs) ∧
      ∀ i j, Core bounds lhs i → Core bounds rhs j → i = j
  | .affineApply _ operands => (∀ i, Shielded bounds (operands i)) ∧
      ((∀ i, (∃ n, Lit bounds (operands i) n) ∨ ∃ dim, Core bounds (operands i) dim) →
        ∀ i dim, ¬ Core bounds (operands i) dim)

/-! ## Folding a shielded expression -/

section Shielded

variable {bounds : ℕ → ℕ} {e e' lhs lhs' rhs rhs' : IndexExpr}

variable {n : Index}

theorem Meets.swap {c x : IndexExpr} (hc : c.constant? ≠ none)
    (hx : x.constant? = none) (h : Meets bounds x c n) : Meets bounds c x n := by
  obtain ⟨dim, hdim, hcore | ⟨-, hnone⟩⟩ := h
  · exact ⟨dim, hdim, .inr ⟨hcore, hx⟩⟩
  · exact absurd hnone hc

/-- What folding a shielded expression keeps: nothing can be folded to that could not be before,
and the value is the same. -/
structure Kept (bounds : ℕ → ℕ) (e e' : IndexExpr) : Prop where
  lit : ∀ n, Lit bounds e' n → Lit bounds e n
  core : ∀ dim, Core bounds e' dim → Core bounds e dim
  shielded : Shielded bounds e'
  eval : ∀ (grid : ℕ → ℕ) (p : Point grid bounds), e'.eval p = e.eval p

end Shielded

/-! ## Expressions that are not shielded -/

section Exposed

variable {bounds : ℕ → ℕ} {e e' lhs lhs' rhs rhs' : IndexExpr}

theorem Folds.lift (f : IndexExpr → IndexExpr)
    (hf : ∀ e e', Step bounds e e' → Step bounds (f e) (f e')) (h : Folds bounds e e') :
    Folds bounds (f e) (f e') :=
  Relation.ReflTransGen.lift f hf _ _ h

theorem Folds.addi (hl : Folds bounds lhs lhs') (hr : Folds bounds rhs rhs') :
    Folds bounds (.addi lhs rhs) (.addi lhs' rhs') :=
  (Folds.lift (fun e => .addi e rhs) (fun _ _ h => .addiLhs rhs h) hl).trans
    (Folds.lift (fun e => .addi lhs' e) (fun _ _ h => .addiRhs lhs' h) hr)

theorem Folds.muli (hl : Folds bounds lhs lhs') (hr : Folds bounds rhs rhs') :
    Folds bounds (.muli lhs rhs) (.muli lhs' rhs') :=
  (Folds.lift (fun e => .muli e rhs) (fun _ _ h => .muliLhs rhs h) hl).trans
    (Folds.lift (fun e => .muli lhs' e) (fun _ _ h => .muliRhs lhs' h) hr)

theorem Folds.cmpi (predicate : CmpIPredicate) (hl : Folds bounds lhs lhs')
    (hr : Folds bounds rhs rhs') :
    Folds bounds (.cmpi predicate lhs rhs) (.cmpi predicate lhs' rhs') :=
  (Folds.lift (fun e => .cmpi predicate e rhs) (fun _ _ h => .cmpiLhs predicate rhs h) hl).trans
    (Folds.lift (fun e => .cmpi predicate lhs' e) (fun _ _ h => .cmpiRhs predicate lhs' h) hr)

/-- One operand of an affine application. -/
theorem Folds.operand (map : AffineExpr) {n : ℕ} (operands : Fin n → IndexExpr) (i : Fin n)
    (h : Folds bounds (operands i) e) :
    Folds bounds (.affineApply map operands) (.affineApply map (Function.update operands i e)) := by
  have hstep : ∀ e e', Step bounds e e' →
      Step bounds (.affineApply map (Function.update operands i e))
        (.affineApply map (Function.update operands i e')) := by
    intro e e' h
    have hupdate := Step.operand map (Function.update operands i e) i
      (by rwa [Function.update_self] : Step bounds _ e')
    rwa [Function.update_idem] at hupdate
  have hlift := Folds.lift (fun e => .affineApply map (Function.update operands i e)) hstep h
  rwa [Function.update_eq_self] at hlift

/-- All operands of an affine application. -/
theorem Folds.operands (map : AffineExpr) {n : ℕ} {operands operands' : Fin n → IndexExpr}
    (h : ∀ i, Folds bounds (operands i) (operands' i)) :
    Folds bounds (.affineApply map operands) (.affineApply map operands') := by
  have hpart : ∀ s : Finset (Fin n), Folds bounds (.affineApply map operands)
      (.affineApply map fun i => if i ∈ s then operands' i else operands i) := by
    intro s
    induction s using Finset.induction_on with
    | empty => exact .refl
    | insert i s hi ih =>
      refine ih.trans ?_
      have hstep := Folds.operand map (fun j => if j ∈ s then operands' j else operands j) i
        (by rw [if_neg hi]; exact h i : Folds bounds _ (operands' i))
      have heq : Function.update (fun j => if j ∈ s then operands' j else operands j) i
          (operands' i) = fun j => if j ∈ insert i s then operands' j else operands j := by
        funext j
        by_cases hj : j = i
        · subst hj
          rw [Function.update_self, if_pos (Finset.mem_insert_self j s)]
        · rw [Function.update_of_ne hj]
          simp only [Finset.mem_insert, hj, false_or]
      rwa [heq] at hstep
  simpa using hpart Finset.univ

end Exposed

/-! ## Soundness, and the index into a stream -/

section Stream

variable {grid bounds : ℕ → ℕ}

end Stream

end CoreIndexFold
