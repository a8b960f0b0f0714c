/-
# Arc consistency

The nodes of a graph have domains, and an arc lists the pairs of values that go together.

* `prune` : the pairs with both values in the domains;
* `Supported` : every value of either end is in such a pair;
* `revise` : the values of both ends that are;
* `le_revise`, `supported_of_revise_eq` : it loses no supported family, and removes the rest.
-/
import Mathlib.Data.Finset.Image

namespace ArcConsistency

variable {α : Type} [DecidableEq α] {pairs : Finset (α × α)} {A A' B B' : Finset α}

/-- The pairs with both values in the domains. -/
def prune (pairs : Finset (α × α)) (A B : Finset α) : Finset (α × α) :=
  pairs.filter fun pair => pair.1 ∈ A ∧ pair.2 ∈ B

/-- Fewer values support fewer values. -/
theorem prune_mono (hA : A' ⊆ A) (hB : B' ⊆ B) : prune pairs A' B' ⊆ prune pairs A B :=
  Finset.monotone_filter_right _ fun _ _ h => ⟨hA h.1, hB h.2⟩

/-- Every value has a partner. -/
def Supported (pairs : Finset (α × α)) (A B : Finset α) : Prop :=
  A ⊆ (prune pairs A B).image Prod.fst ∧ B ⊆ (prune pairs A B).image Prod.snd

instance : Decidable (Supported pairs A B) := inferInstanceAs (Decidable (_ ∧ _))

theorem Supported.exists_snd (h : Supported pairs A B) {a : α} (ha : a ∈ A) :
    ∃ b ∈ B, (a, b) ∈ pairs := by
  obtain ⟨⟨_, b⟩, hpair, rfl⟩ := Finset.mem_image.mp (h.1 ha)
  obtain ⟨hmem, -, hb⟩ := Finset.mem_filter.mp hpair
  exact ⟨b, hb, hmem⟩

variable {ι : Type} [DecidableEq ι] {D T : ι → Finset α} {i j : ι}

/-- One domain cut down. -/
def restrict (D : ι → Finset α) (i : ι) (values : Finset α) : ι → Finset α :=
  Function.update D i (D i ∩ values)

theorem le_restrict_iff {values : Finset α} : T ≤ restrict D i values ↔ T ≤ D ∧ T i ⊆ values := by
  rw [restrict, le_update_iff, Finset.subset_inter_iff]
  refine ⟨fun h => ⟨fun x => ?_, h.1.2⟩, fun h => ⟨⟨h.1 i, h.2⟩, fun x _ => h.1 x⟩⟩
  by_cases hx : x = i
  · exact hx ▸ h.1.1
  · exact h.2 x hx

/-- Both ends of an arc cut down to values with a partner. -/
def revise (pairs : Finset (α × α)) (i j : ι) (D : ι → Finset α) : ι → Finset α :=
  restrict (restrict D i ((prune pairs (D i) (D j)).image Prod.fst)) j
    ((prune pairs (D i) (D j)).image Prod.snd)

/-- A revision takes values away only. -/
theorem revise_le : revise pairs i j D ≤ D := (le_restrict_iff.mp (le_restrict_iff.mp le_rfl).1).1

/-- **Revising loses no supported family.** -/
theorem le_revise (hT : T ≤ D) (h : Supported pairs (T i) (T j)) : T ≤ revise pairs i j D := by
  have hprune : prune pairs (T i) (T j) ⊆ prune pairs (D i) (D j) := prune_mono (hT i) (hT j)
  exact le_restrict_iff.mpr ⟨le_restrict_iff.mpr ⟨hT,
    h.1.trans (Finset.image_subset_image hprune)⟩, h.2.trans (Finset.image_subset_image hprune)⟩

/-- Revising changes what is not supported. -/
theorem supported_of_revise_eq (h : revise pairs i j D = D) : Supported pairs (D i) (D j) := by
  obtain ⟨hi, hj⟩ := le_restrict_iff.mp h.ge
  exact ⟨(le_restrict_iff.mp hi).2, hj⟩

/-- A revision leaves other variables alone. -/
theorem revise_of_ne {x : ι} (hi : x ≠ i) (hj : x ≠ j) : revise pairs i j D x = D x := by
  rw [revise, restrict, Function.update_of_ne hj, restrict, Function.update_of_ne hi]

end ArcConsistency
