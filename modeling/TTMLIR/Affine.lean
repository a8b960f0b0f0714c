/-
# Affine expressions and affine maps

The affine maps of MLIR: expressions over dimensions and symbols built from
constants, addition, multiplication, `floordiv` and `mod`, and maps that list one
expression per result.  `floordiv` and `mod` are only meaningful for positive right
operands, where Lean's `Int` division and remainder agree with them.

* `AffineExpr.eval`, `AffineMap.eval` : evaluation on dimensions and symbols;
* `AffineExpr.replaceDimsAndSymbols` : simultaneous substitution;
* `AffineMap.compose` with `AffineMap.eval_compose`;
* `AffineMap.replaceSymbols` with `AffineMap.eval_replaceSymbols`;
* `AffineExpr.mulConstant`, `AffineExpr.addFold` : the folding builders;
* `AffineMap.dropResult`, `AffineMap.insertResult` : edits of the result list.
-/
import Mathlib

namespace MLIR

/-- An affine expression. -/
inductive AffineExpr : Type where
  | constant (c : ℤ)
  | dim (i : ℕ)
  | symbol (i : ℕ)
  | add (lhs rhs : AffineExpr)
  | mul (lhs rhs : AffineExpr)
  | floorDiv (lhs rhs : AffineExpr)
  | mod (lhs rhs : AffineExpr)
  deriving DecidableEq, Repr

namespace AffineExpr

instance : Add AffineExpr := ⟨add⟩
instance : Mul AffineExpr := ⟨mul⟩

/-- The value of an expression; an index past the end of a list reads `0`. -/
def eval (dims symbols : List ℤ) : AffineExpr → ℤ
  | constant c => c
  | dim i => dims.getD i 0
  | symbol i => symbols.getD i 0
  | add lhs rhs => eval dims symbols lhs + eval dims symbols rhs
  | mul lhs rhs => eval dims symbols lhs * eval dims symbols rhs
  | floorDiv lhs rhs => eval dims symbols lhs / eval dims symbols rhs
  | mod lhs rhs => eval dims symbols lhs % eval dims symbols rhs

/-- Simultaneous replacement of dimensions and symbols; an index past the end of its
list is left in place. -/
def replaceDimsAndSymbols (dimReplacements symReplacements : List AffineExpr) :
    AffineExpr → AffineExpr
  | constant c => constant c
  | dim i => dimReplacements.getD i (dim i)
  | symbol i => symReplacements.getD i (symbol i)
  | add lhs rhs => add (replaceDimsAndSymbols dimReplacements symReplacements lhs)
      (replaceDimsAndSymbols dimReplacements symReplacements rhs)
  | mul lhs rhs => mul (replaceDimsAndSymbols dimReplacements symReplacements lhs)
      (replaceDimsAndSymbols dimReplacements symReplacements rhs)
  | floorDiv lhs rhs => floorDiv (replaceDimsAndSymbols dimReplacements symReplacements lhs)
      (replaceDimsAndSymbols dimReplacements symReplacements rhs)
  | mod lhs rhs => mod (replaceDimsAndSymbols dimReplacements symReplacements lhs)
      (replaceDimsAndSymbols dimReplacements symReplacements rhs)

/-- The dimensions an expression reads are below `numDims`, its symbols below
`numSymbols`. -/
def WellScoped (numDims numSymbols : ℕ) : AffineExpr → Prop
  | constant _ => True
  | dim i => i < numDims
  | symbol i => i < numSymbols
  | add lhs rhs => WellScoped numDims numSymbols lhs ∧ WellScoped numDims numSymbols rhs
  | mul lhs rhs => WellScoped numDims numSymbols lhs ∧ WellScoped numDims numSymbols rhs
  | floorDiv lhs rhs => WellScoped numDims numSymbols lhs ∧ WellScoped numDims numSymbols rhs
  | mod lhs rhs => WellScoped numDims numSymbols lhs ∧ WellScoped numDims numSymbols rhs

section

variable (ds ss : List ℤ)

@[simp] theorem eval_constant (c : ℤ) : eval ds ss (constant c) = c := rfl
@[simp] theorem eval_dim (i : ℕ) : eval ds ss (dim i) = ds.getD i 0 := rfl
@[simp] theorem eval_symbol (i : ℕ) : eval ds ss (symbol i) = ss.getD i 0 := rfl
@[simp] theorem eval_add (a b : AffineExpr) :
    eval ds ss (a + b) = eval ds ss a + eval ds ss b := rfl
@[simp] theorem eval_mul (a b : AffineExpr) :
    eval ds ss (a * b) = eval ds ss a * eval ds ss b := rfl
@[simp] theorem eval_floorDiv (a b : AffineExpr) :
    eval ds ss (a.floorDiv b) = eval ds ss a / eval ds ss b := rfl
@[simp] theorem eval_mod (a b : AffineExpr) :
    eval ds ss (a.mod b) = eval ds ss a % eval ds ss b := rfl

/-- Evaluating after a replacement is evaluating at the values of the replacements. -/
theorem eval_replaceDimsAndSymbols (dimReps symReps : List AffineExpr)
    (e : AffineExpr) (h : e.WellScoped dimReps.length symReps.length) :
    eval ds ss (e.replaceDimsAndSymbols dimReps symReps)
      = eval (dimReps.map (eval ds ss)) (symReps.map (eval ds ss)) e := by
  induction e with
  | constant c => rfl
  | dim i =>
    have hi : i < dimReps.length := h
    simp [replaceDimsAndSymbols, List.getD, hi]
  | symbol i =>
    have hi : i < symReps.length := h
    simp [replaceDimsAndSymbols, List.getD, hi]
  | add a b iha ihb => simp [replaceDimsAndSymbols, eval, iha h.1, ihb h.2]
  | mul a b iha ihb => simp [replaceDimsAndSymbols, eval, iha h.1, ihb h.2]
  | floorDiv a b iha ihb => simp [replaceDimsAndSymbols, eval, iha h.1, ihb h.2]
  | mod a b iha ihb => simp [replaceDimsAndSymbols, eval, iha h.1, ihb h.2]

end

/-- A replacement by expressions of a scope stays in that scope. -/
theorem wellScoped_replaceDimsAndSymbols (numDims numSymbols : ℕ)
    (dimReps symReps : List AffineExpr) (e : AffineExpr)
    (h : e.WellScoped dimReps.length symReps.length)
    (hdims : ∀ r ∈ dimReps, r.WellScoped numDims numSymbols)
    (hsyms : ∀ r ∈ symReps, r.WellScoped numDims numSymbols) :
    (e.replaceDimsAndSymbols dimReps symReps).WellScoped numDims numSymbols := by
  induction e with
  | constant c => trivial
  | dim i =>
    have hi : i < dimReps.length := h
    simpa [replaceDimsAndSymbols, List.getD, hi] using hdims _ (List.getElem_mem hi)
  | symbol i =>
    have hi : i < symReps.length := h
    simpa [replaceDimsAndSymbols, List.getD, hi] using hsyms _ (List.getElem_mem hi)
  | add a b iha ihb => exact ⟨iha h.1, ihb h.2⟩
  | mul a b iha ihb => exact ⟨iha h.1, ihb h.2⟩
  | floorDiv a b iha ihb => exact ⟨iha h.1, ihb h.2⟩
  | mod a b iha ihb => exact ⟨iha h.1, ihb h.2⟩

/-! ## Building sums -/

/-- `lhs * value` as the builder folds it: a factor `1` disappears and a factor `0` gives
the constant `0`. -/
def mulConstant (lhs : AffineExpr) (value : ℤ) : AffineExpr :=
  if value = 1 then lhs else if value = 0 then constant 0 else lhs.mul (constant value)

/-- `lhs + rhs` as the builder folds it: a constant `0` on either side disappears. -/
def addFold (lhs rhs : AffineExpr) : AffineExpr :=
  if rhs = constant 0 then lhs else if lhs = constant 0 then rhs else lhs.add rhs

/-- `isFunctionOfDim`: the dimension occurs in the expression. -/
def isFunctionOfDim (position : ℕ) : AffineExpr → Bool
  | constant _ => false
  | dim i => i = position
  | symbol _ => false
  | add lhs rhs => isFunctionOfDim position lhs || isFunctionOfDim position rhs
  | mul lhs rhs => isFunctionOfDim position lhs || isFunctionOfDim position rhs
  | floorDiv lhs rhs => isFunctionOfDim position lhs || isFunctionOfDim position rhs
  | mod lhs rhs => isFunctionOfDim position lhs || isFunctionOfDim position rhs

@[simp] theorem eval_mulConstant (ds ss : List ℤ) (e : AffineExpr) (value : ℤ) :
    eval ds ss (e.mulConstant value) = eval ds ss e * value := by
  unfold mulConstant
  split
  · next h => rw [h, mul_one]
  · split
    · next h => rw [h, mul_zero, eval_constant]
    · rfl

@[simp] theorem eval_addFold (ds ss : List ℤ) (a b : AffineExpr) :
    eval ds ss (a.addFold b) = eval ds ss a + eval ds ss b := by
  unfold addFold
  split
  · next h => rw [h, eval_constant, add_zero]
  · split
    · next h => rw [h, eval_constant, zero_add]
    · rfl

/-- A dimension occurs in a folded multiple when it occurs in the expression and the factor
is not zero. -/
theorem isFunctionOfDim_mulConstant (position : ℕ) (e : AffineExpr) (value : ℤ) :
    (e.mulConstant value).isFunctionOfDim position
      = (e.isFunctionOfDim position && decide (value ≠ 0)) := by
  unfold mulConstant
  split
  · next h => simp [h]
  · split
    · next h => simp [h, isFunctionOfDim]
    · next h => simp [h, isFunctionOfDim]

theorem isFunctionOfDim_addFold (position : ℕ) (a b : AffineExpr) :
    (a.addFold b).isFunctionOfDim position
      = (a.isFunctionOfDim position || b.isFunctionOfDim position) := by
  unfold addFold
  split
  · next h => simp [h, isFunctionOfDim]
  · split
    · next h => simp [h, isFunctionOfDim]
    · rfl

end AffineExpr

/-- An affine map: a list of result expressions over `numDims` dimensions and
`numSymbols` symbols. -/
structure AffineMap : Type where
  numDims : ℕ
  numSymbols : ℕ
  results : List AffineExpr
  deriving DecidableEq, Repr

namespace AffineMap

/-- The result vector of a map. -/
def eval (map : AffineMap) (dims symbols : List ℤ) : List ℤ :=
  map.results.map (AffineExpr.eval dims symbols)

/-- Every result only reads dimensions and symbols the map declares. -/
def WellScoped (map : AffineMap) : Prop :=
  ∀ e ∈ map.results, e.WellScoped map.numDims map.numSymbols

/-- Replace the dimensions and the symbols of every result. -/
def replaceDimsAndSymbols (map : AffineMap) (dimReps symReps : List AffineExpr)
    (numResultDims numResultSyms : ℕ) : AffineMap where
  numDims := numResultDims
  numSymbols := numResultSyms
  results := map.results.map (AffineExpr.replaceDimsAndSymbols dimReps symReps)

/-- `map.compose inner` reads the results of `inner` as its dimensions; the symbols of
`map` come first, those of `inner` after them. -/
def compose (map inner : AffineMap) : AffineMap where
  numDims := inner.numDims
  numSymbols := map.numSymbols + inner.numSymbols
  results :=
    let innerResults := inner.results.map (AffineExpr.replaceDimsAndSymbols
      ((List.range inner.numDims).map AffineExpr.dim)
      ((List.range inner.numSymbols).map fun i => AffineExpr.symbol (map.numSymbols + i)))
    map.results.map (AffineExpr.replaceDimsAndSymbols innerResults
      ((List.range map.numSymbols).map AffineExpr.symbol))

/-- Fix every symbol of a map to a constant. -/
def replaceSymbols (map : AffineMap) (symbols : List ℤ) : AffineMap :=
  map.replaceDimsAndSymbols ((List.range map.numDims).map AffineExpr.dim)
    (symbols.map AffineExpr.constant) map.numDims 0

theorem map_getD_range (l : List ℤ) : (List.range l.length).map (fun i => l.getD i 0) = l := by
  apply List.ext_getElem (by simp)
  intro i h₁ h₂
  simp [List.getD, h₂]

/-- Evaluation after fixing the symbols. -/
theorem eval_replaceSymbols (map : AffineMap) (dims symbols : List ℤ)
    (hmap : map.WellScoped) (hdims : dims.length = map.numDims)
    (hsyms : symbols.length = map.numSymbols) :
    (map.replaceSymbols symbols).eval dims [] = map.eval dims symbols := by
  unfold replaceSymbols replaceDimsAndSymbols eval
  rw [List.map_map]
  apply List.map_congr_left
  intro e he
  have hdimsEq : ((List.range map.numDims).map AffineExpr.dim).map
      (AffineExpr.eval dims []) = dims := by
    rw [List.map_map, ← hdims]
    exact map_getD_range dims
  have hsymsEq : (symbols.map AffineExpr.constant).map (AffineExpr.eval dims []) = symbols := by
    rw [List.map_map]
    exact List.map_id symbols
  rw [Function.comp_apply, AffineExpr.eval_replaceDimsAndSymbols, hdimsEq, hsymsEq]
  simpa [hsyms] using hmap e he

/-- Fixing the symbols of a map keeps it well scoped. -/
theorem wellScoped_replaceSymbols (map : AffineMap) (symbols : List ℤ)
    (hmap : map.WellScoped) (hsyms : symbols.length = map.numSymbols) :
    (map.replaceSymbols symbols).WellScoped := by
  intro e he
  obtain ⟨r, hr, rfl⟩ := List.mem_map.mp he
  refine AffineExpr.wellScoped_replaceDimsAndSymbols _ _ _ _ r ?_ ?_ ?_
  · simpa [hsyms] using hmap r hr
  · intro q hq
    obtain ⟨i, hi, rfl⟩ := List.mem_map.mp hq
    exact List.mem_range.mp hi
  · intro q hq
    obtain ⟨c, -, rfl⟩ := List.mem_map.mp hq
    trivial

/-- **Composition.**  For a map without symbols of its own, evaluating a composition is
evaluating the outer map at the results of the inner one. -/
theorem eval_compose (map inner : AffineMap) (dims : List ℤ)
    (hmap : map.WellScoped) (hinner : inner.WellScoped)
    (hres : inner.results.length = map.numDims) (hdims : dims.length = inner.numDims)
    (hsyms : map.numSymbols = 0) (hsymsInner : inner.numSymbols = 0) :
    (map.compose inner).eval dims [] = map.eval (inner.eval dims []) [] := by
  unfold compose eval
  simp only [hsyms, hsymsInner, List.range_zero, List.map_nil, List.map_map]
  apply List.map_congr_left
  intro e he
  have hinnerEq : ∀ r ∈ inner.results, AffineExpr.eval dims []
      (r.replaceDimsAndSymbols ((List.range inner.numDims).map AffineExpr.dim) [])
        = AffineExpr.eval dims [] r := by
    intro r hr
    have hscope := hinner r hr
    rw [hsymsInner] at hscope
    rw [AffineExpr.eval_replaceDimsAndSymbols _ _ _ _ _ (by simpa using hscope),
      List.map_map, ← hdims, List.map_nil]
    exact congrArg (AffineExpr.eval · [] r) (map_getD_range dims)
  have hscope := hmap e he
  rw [hsyms] at hscope
  rw [Function.comp_apply,
    AffineExpr.eval_replaceDimsAndSymbols _ _ _ _ _ (by simpa [hres] using hscope),
    List.map_map, List.map_nil]
  congr 1
  exact List.map_congr_left hinnerEq

/-! ## Editing the results -/

/-- `getMinorIdentityMap`: the last `numResults` of `dims` dimensions. -/
def getMinorIdentityMap (dims numResults : ℕ) : AffineMap where
  numDims := dims
  numSymbols := 0
  results := (List.range numResults).map fun i => AffineExpr.dim (dims - numResults + i)

/-- `dropResult`: erase a result; there must be one at the position. -/
def dropResult (map : AffineMap) (pos : ℤ) : Option AffineMap :=
  if 0 ≤ pos ∧ pos < map.results.length then
    some { map with results := map.results.eraseIdx pos.toNat }
  else
    none

/-- `insertResult`: insert a result before a position, which may be the end. -/
def insertResult (map : AffineMap) (expr : AffineExpr) (pos : ℤ) : Option AffineMap :=
  if 0 ≤ pos ∧ pos ≤ map.results.length then
    some { map with results := map.results.insertIdx pos.toNat expr }
  else
    none

theorem insertIdx_eraseIdx_self {α : Type} (l : List α) (i : ℕ) (a : α) (h : i < l.length) :
    (l.eraseIdx i).insertIdx i a = l.set i a := by
  induction l generalizing i with
  | nil => simp at h
  | cons b l ih =>
    cases i with
    | zero => rfl
    | succ i =>
      rw [List.eraseIdx_cons_succ, List.insertIdx_succ_cons, List.set_cons_succ,
        ih i (by simpa using h)]

/-- **Replacing a result.**  Dropping and inserting at one position sets the result there,
when there is one, and fails otherwise. -/
theorem dropResult_bind_insertResult (map : AffineMap) (expr : AffineExpr) (pos : ℕ) :
    (map.dropResult pos).bind (fun m => m.insertResult expr pos)
      = if pos < map.results.length then
          some { map with results := map.results.set pos expr }
        else none := by
  by_cases h : pos < map.results.length
  · have hlen : (map.results.eraseIdx pos).length = map.results.length - 1 :=
      List.length_eraseIdx_of_lt h
    have hle : pos ≤ map.results.length - 1 := by omega
    simp [dropResult, insertResult, h, hlen, hle, insertIdx_eraseIdx_self]
  · simp [dropResult, h]

end AffineMap

end MLIR
