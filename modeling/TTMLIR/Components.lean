/-
# Connected components

The components of a relation that grows by stars, and disjoint sets of numbers whose classes
are merged several at a time.

* `eqvGen_star` : the components after one vertex is linked to a set of vertices;
* `Batteries.UnionFind.equiv_unionAll` : the classes after several are merged into one.
-/
import Mathlib

/-! ## Relations -/

section Star

variable {V : Type} {R R' : V → V → Prop} {o : V} {A : V → Prop}

/-- A vertex connected to the centre of a star or to one of its ends. -/
def NearStar (R : V → V → Prop) (o : V) (A : V → Prop) (x : V) : Prop :=
  Relation.EqvGen R x o ∨ ∃ y, A y ∧ Relation.EqvGen R x y

theorem NearStar.of_eqvGen {x y : V} (hxy : Relation.EqvGen R x y) (hy : NearStar R o A y) :
    NearStar R o A x := by
  rcases hy with hy | ⟨z, hz, hyz⟩
  · exact Or.inl (hxy.trans _ _ _ hy)
  · exact Or.inr ⟨z, hz, hxy.trans _ _ _ hyz⟩

/-- **The components after a star is added**: those that meet the star become one. -/
theorem eqvGen_star (h : ∀ a b, R' a b ↔ R a b ∨ b = o ∧ A a) (a b : V) : Relation.EqvGen R' a b ↔
      Relation.EqvGen R a b ∨ NearStar R o A a ∧ NearStar R o A b := by
  have hmono : ∀ x y, Relation.EqvGen R x y → Relation.EqvGen R' x y := fun x y hxy =>
    hxy.mono fun u v huv => (h u v).mpr (Or.inl huv)
  have hcentre : ∀ x, NearStar R o A x → Relation.EqvGen R' x o := by
    rintro x (hx | ⟨y, hy, hxy⟩)
    · exact hmono x o hx
    · exact (hmono x y hxy).trans _ _ _ (.rel _ _ ((h y o).mpr (Or.inr ⟨rfl, hy⟩)))
  constructor
  · intro hab
    induction hab with
    | rel x y hxy =>
      rcases (h x y).mp hxy with hxy | ⟨rfl, hx⟩
      · exact Or.inl (.rel _ _ hxy)
      · exact Or.inr ⟨Or.inr ⟨x, hx, .refl x⟩, Or.inl (.refl _)⟩
    | refl x => exact Or.inl (.refl x)
    | symm x y _ ih =>
      rcases ih with hxy | ⟨hx, hy⟩
      · exact Or.inl (hxy.symm _ _)
      · exact Or.inr ⟨hy, hx⟩
    | trans x y z _ _ ihxy ihyz =>
      rcases ihxy, ihyz with ⟨hxy | ⟨hx, hy⟩, hyz | ⟨hy', hz⟩⟩
      · exact Or.inl (hxy.trans _ _ _ hyz)
      · exact Or.inr ⟨hy'.of_eqvGen hxy, hz⟩
      · exact Or.inr ⟨hx, hy.of_eqvGen (hyz.symm _ _)⟩
      · exact Or.inr ⟨hx, hz⟩
  · rintro (hab | ⟨ha, hb⟩)
    · exact hmono a b hab
    · exact (hcentre a ha).trans _ _ _ ((hcentre b hb).symm _ _)

/-- A vertex without edges is connected to itself only. -/
theorem eq_of_eqvGen_isolated {x y : V} (hx : ∀ z, ¬ R x z ∧ ¬ R z x)
    (h : Relation.EqvGen R x y) : x = y := by
  have key : ∀ u v, Relation.EqvGen R u v → (u = x ↔ v = x) := by
    intro u v huv
    induction huv with
    | rel u v huv =>
      constructor
      · rintro rfl
        exact absurd huv (hx v).1
      · rintro rfl
        exact absurd huv (hx u).2
    | refl u => rfl
    | symm u v _ ih => exact ih.symm
    | trans u v w _ _ ih ih' => exact ih.trans ih'
  exact ((key x y h).mp rfl).symm

end Star

/-! ## Disjoint sets -/

namespace Batteries.UnionFind

variable {self : UnionFind}

@[simp] theorem size_union {x y : Fin self.size} : (self.union x y).size = self.size := by
  simp [union, link, size, linkAux_size, find, FindAux.size_eq]

/-- Merge the classes of `x` and `y`. -/
def unionD (self : UnionFind) (x y : ℕ) : UnionFind :=
  if h : x < self.size ∧ y < self.size then self.union ⟨x, h.1⟩ ⟨y, h.2⟩ else self

/-- Merge the classes of `ys` into that of `x`, one after the other. -/
def unionAll (self : UnionFind) (x : ℕ) (ys : List ℕ) : UnionFind :=
  ys.foldl (fun uf y => uf.unionD y x) self

/-- The class of `a` is one of those of `ids`. -/
def Touches (self : UnionFind) (ids : List ℕ) (a : ℕ) : Prop := ∃ i ∈ ids, self.Equiv a i

@[simp] theorem size_unionD {x y : ℕ} : (self.unionD x y).size = self.size := by
  rw [unionD]
  split_ifs
  · exact size_union
  · rfl

@[simp] theorem size_unionAll {x : ℕ} {ys : List ℕ} : (self.unionAll x ys).size = self.size := by
  induction ys generalizing self with
  | nil => rfl
  | cons y ys ih =>
    rw [unionAll, List.foldl_cons]
    exact (@ih (self.unionD y x)).trans size_unionD

theorem equiv_unionD {x y a b : ℕ} (hx : x < self.size) (hy : y < self.size) :
    (self.unionD x y).Equiv a b ↔
      self.Equiv a b ∨ self.Touches [x, y] a ∧ self.Touches [x, y] b := by
  rw [unionD, dif_pos ⟨hx, hy⟩, equiv_union]
  simp only [Touches, List.mem_cons, List.not_mem_nil, or_false, exists_eq_or_imp,
    exists_eq_left, Equiv]
  constructor
  · rintro (h | ⟨h, h'⟩ | ⟨h, h'⟩)
    · exact Or.inl h
    · exact Or.inr ⟨Or.inl h, Or.inr h'.symm⟩
    · exact Or.inr ⟨Or.inr h, Or.inl h'.symm⟩
  · rintro (h | ⟨h | h, h' | h'⟩)
    · exact Or.inl h
    · exact Or.inl (h.trans h'.symm)
    · exact Or.inr (Or.inl ⟨h, h'.symm⟩)
    · exact Or.inr (Or.inr ⟨h, h'.symm⟩)
    · exact Or.inl (h.trans h'.symm)

/-- **The classes after a merge of several**: those of `x` and `ys` become one. -/
theorem equiv_unionAll {x : ℕ} {ys : List ℕ} (hx : x < self.size)
    (hys : ∀ y ∈ ys, y < self.size) (a b : ℕ) :
    (self.unionAll x ys).Equiv a b ↔
      self.Equiv a b ∨ self.Touches (x :: ys) a ∧ self.Touches (x :: ys) b := by
  induction ys generalizing self with
  | nil =>
    simp only [unionAll, List.foldl_nil, Touches, List.mem_singleton, exists_eq_left]
    constructor
    · exact Or.inl
    · rintro (h | ⟨ha, hb⟩)
      · exact h
      · exact ha.trans hb.symm
  | cons y ys ih =>
    have hy := hys y (by simp)
    have ih' := @ih (self.unionD y x) (by rwa [size_unionD])
      fun z hz => by rw [size_unionD]; exact hys z (by simp [hz])
    -- a class meets the rest after the first merge when it meets all of them before
    have htouch : ∀ c, (self.unionD y x).Touches (x :: ys) c ↔ self.Touches (x :: y :: ys) c := by
      intro c
      constructor
      · rintro ⟨i, hi, hci⟩
        rcases (equiv_unionD hy hx).mp hci with hci | ⟨⟨j, hj, hcj⟩, -⟩
        · exact ⟨i, by simp only [List.mem_cons] at hi ⊢; tauto, hci⟩
        · exact ⟨j, by simp only [List.mem_cons, List.not_mem_nil, or_false] at hj ⊢; tauto, hcj⟩
      · rintro ⟨i, hi, hci⟩
        by_cases hiy : i = y
        · subst hiy
          exact ⟨x, by simp, (equiv_unionD hy hx).mpr
            (Or.inr ⟨⟨i, by simp, hci⟩, ⟨x, by simp, rfl⟩⟩)⟩
        · refine ⟨i, ?_, (equiv_unionD hy hx).mpr (Or.inl hci)⟩
          simp only [List.mem_cons] at hi ⊢
          tauto
    have hpair : ∀ c, self.Touches [y, x] c → self.Touches (x :: y :: ys) c := by
      rintro c ⟨i, hi, hci⟩
      exact ⟨i, by simp only [List.mem_cons, List.not_mem_nil, or_false] at hi ⊢; tauto, hci⟩
    have hstep : self.unionAll x (y :: ys) = (self.unionD y x).unionAll x ys := rfl
    rw [hstep, ih', htouch, htouch, equiv_unionD hy hx]
    constructor
    · rintro ((h | ⟨ha, hb⟩) | h)
      · exact Or.inl h
      · exact Or.inr ⟨hpair a ha, hpair b hb⟩
      · exact Or.inr h
    · rintro (h | h)
      · exact Or.inl (Or.inl h)
      · exact Or.inr h

/-- `findD` finds the root and changes no class. -/
theorem findD_spec (self : UnionFind) (x : ℕ) :
    (self.findD x).1.size = self.size ∧ (self.findD x).2 = self.rootD x ∧
      ∀ a b, (self.findD x).1.Equiv a b ↔ self.Equiv a b := by
  by_cases hx : x < self.size
  · have heq : self.findD x = ((self.find ⟨x, hx⟩).1, ((self.find ⟨x, hx⟩).2.1 : ℕ)) := by
      rw [findD, dif_pos hx]
    rw [heq]
    exact ⟨find_size self ⟨x, hx⟩, find_root_2 self ⟨x, hx⟩, fun a b => equiv_find⟩
  · have hroot : self.rootD x = x := by rw [rootD, dif_neg hx]
    rw [findD, dif_neg hx]
    exact ⟨rfl, hroot.symm, fun a b => Iff.rfl⟩

end Batteries.UnionFind
