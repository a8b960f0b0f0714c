/-
# Computations that may fail

Chains of steps in `Except` and in `Option`, taken apart.

* `bind_eq_ok` : a chain succeeds when its first step does, and the rest on the result;
* `forM_eq_ok` : a loop of checks succeeds when every check does;
* `forall₂_of_mapM_eq_ok`, `mapM_eq_some_iff`, `exists_of_mapM_eq_some` : a list of results is the
  result of every element;
* `exists_getElem?_of_forall₂`, `exists_of_forall₂` : the partner of an element;
* `removeIf` : a filter whose checks may fail;
* `mapM_eq_ok_map` : mapping a function that has a result for every element.
-/
import Mathlib.Data.List.Forall2

namespace Fallible

variable {ε α β : Type}

variable {f : α → Except ε β}

/-- A sequence succeeds when both parts do. -/
theorem bind_eq_ok {x : Except ε α} {b : β} : (x >>= f) = .ok b ↔ ∃ a, x = .ok a ∧ f a = .ok b := by
  cases x with
  | error e =>
    refine ⟨fun h => (nomatch h), ?_⟩
    rintro ⟨a, h, -⟩
    cases h
  | ok a =>
    refine ⟨fun h => ⟨a, rfl, h⟩, ?_⟩
    rintro ⟨a', h, hb⟩
    cases h
    exact hb

variable {l : List α}

/-- A loop of checks succeeds when every check does. -/
theorem forM_eq_ok {f : α → Except ε PUnit} : l.forM f = .ok () ↔ ∀ a ∈ l, f a = .ok () := by
  induction l with
  | nil => exact ⟨fun _ a ha => (by cases ha), fun _ => rfl⟩
  | cons a l ih =>
    show (f a >>= fun _ => l.forM f) = .ok () ↔ _
    rw [bind_eq_ok]
    constructor
    · rintro ⟨_, ha, hl⟩ b hb
      rcases List.mem_cons.mp hb with rfl | hb
      · exact ha
      · exact ih.mp hl b hb
    · intro h
      exact ⟨(), h a (by simp), ih.mpr fun b hb => h b (List.mem_cons_of_mem _ hb)⟩

/-- The elements that a check which may fail does not remove. -/
def removeIf (p : α → Except ε Bool) : List α → Except ε (List α)
  | [] => .ok []
  | a :: l => do
      let remove ← p a
      let rest ← removeIf p l
      return if remove then rest else a :: rest

variable {p : α → Except ε Bool}

/-- Where every test succeeds, elements are filtered. -/
theorem removeIf_eq_filter {q : α → Bool}
    (h : ∀ a ∈ l, p a = .ok (!q a)) : removeIf p l = .ok (l.filter q) := by
  induction l with
  | nil => rfl
  | cons a l ih =>
    obtain ⟨ha, hl⟩ := List.forall_mem_cons.mp h
    rw [removeIf, ha, ih hl, List.filter_cons]
    cases q a <;> rfl

/-- Removing fails with a check that fails. -/
theorem exists_of_removeIf_eq_error {e : ε}
    (h : removeIf p l = .error e) : ∃ a ∈ l, p a = .error e := by
  induction l with
  | nil => cases h
  | cons a l ih =>
    rw [removeIf] at h
    cases ha : p a with
    | error e' =>
      rw [ha] at h
      cases h
      exact ⟨a, List.mem_cons_self, ha⟩
    | ok remove =>
      rw [ha] at h
      cases hl : removeIf p l with
      | error e' =>
        rw [hl] at h
        cases h
        obtain ⟨b, hb, hpb⟩ := ih hl
        exact ⟨b, List.mem_cons_of_mem _ hb, hpb⟩
      | ok rest =>
        rw [hl] at h
        cases h

theorem exists_ok_of_removeIf_eq_ok {l l' : List α}
    (h : removeIf p l = .ok l') : ∀ a ∈ l, ∃ remove, p a = .ok remove := by
  induction l generalizing l' with
  | nil => intro a ha; cases ha
  | cons a l ih =>
    rw [removeIf] at h
    obtain ⟨remove, ha, h⟩ := bind_eq_ok.mp h
    obtain ⟨rest, hrest, -⟩ := bind_eq_ok.mp h
    exact List.forall_mem_cons.mpr ⟨⟨remove, ha⟩, ih hrest⟩

theorem forall₂_of_mapM_eq_ok {l' : List β}
    (h : l.mapM f = .ok l') : List.Forall₂ (fun a b => f a = .ok b) l l' := by
  induction l generalizing l' with
  | nil =>
    obtain rfl := Except.ok.inj h
    exact .nil
  | cons a l ih =>
    rw [List.mapM_cons] at h
    obtain ⟨b, hb, h⟩ := bind_eq_ok.mp h
    obtain ⟨bs, hbs, h⟩ := bind_eq_ok.mp h
    obtain rfl := Except.ok.inj h
    exact .cons hb (ih hbs)

theorem mapM_eq_some_iff {f : α → Option β} {l' : List β} :
    l.mapM f = some l' ↔ List.Forall₂ (fun a b => f a = some b) l l' := by
  induction l generalizing l' with
  | nil =>
    rw [List.forall₂_nil_left_iff]
    show some [] = some l' ↔ l' = []
    rw [Option.some.injEq, eq_comm]
  | cons a l ih =>
    rw [List.mapM_cons, List.forall₂_cons_left_iff]
    simp only [bind, Option.bind_eq_some_iff, pure, Option.some.injEq, ih]
    exact exists_congr fun b => ⟨fun ⟨hb, bs, hbs, hl⟩ => ⟨bs, hb, hbs, hl.symm⟩,
      fun ⟨bs, hb, hbs, hl⟩ => ⟨hb, bs, hbs, hl.symm⟩⟩

theorem forall₂_of_mapM_eq_some {f : α → Option β} {l' : List β}
    (h : l.mapM f = some l') : List.Forall₂ (fun a b => f a = some b) l l' := mapM_eq_some_iff.mp h

section Forall₂

variable {R : α → β → Prop} {l' : List β} (h : List.Forall₂ R l l') {a : α}

include h

/-- An element of one list, beside its partner in the other. -/
theorem exists_getElem?_of_forall₂ {i : ℕ} (ha : l[i]? = some a) :
    ∃ b, l'[i]? = some b ∧ R a b := by
  obtain ⟨hi, rfl⟩ := List.getElem?_eq_some_iff.mp ha
  have hi' : i < l'.length := h.length_eq ▸ hi
  exact ⟨_, List.getElem?_eq_getElem hi', h.get hi hi'⟩

theorem exists_of_forall₂ (ha : a ∈ l) : ∃ b ∈ l', R a b := by
  obtain ⟨i, hi⟩ := List.getElem?_of_mem ha
  obtain ⟨b, hb, hab⟩ := exists_getElem?_of_forall₂ h hi
  exact ⟨b, List.mem_of_getElem? hb, hab⟩

end Forall₂

theorem exists_of_mapM_eq_some {f : α → Option β} {l' : List β} {a : α}
    (h : l.mapM f = some l') (ha : a ∈ l) : ∃ b, f a = some b := by
  obtain ⟨b, -, hab⟩ := exists_of_forall₂ (mapM_eq_some_iff.mp h) ha
  exact ⟨b, hab⟩

/-- Where every call succeeds, elements are mapped. -/
theorem mapM_eq_ok_map {g : α → β} (h : ∀ a ∈ l, f a = .ok (g a)) : l.mapM f = .ok (l.map g) := by
  induction l with
  | nil => rfl
  | cons a l ih =>
    rw [List.mapM_cons, h a (by simp), ih fun b hb => h b (List.mem_cons_of_mem _ hb)]
    rfl

end Fallible
