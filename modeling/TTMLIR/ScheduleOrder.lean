/-
# Applying a schedule to a block

`TTNNOptimizer::runOnOperation` of `Optimizer.cpp` moves every operation of a schedule
directly after the one scheduled before it.  The first one stays where it is, and
operations that are not scheduled never move.

* `applySchedule` : the loop of moves;
* `applySchedule_eq` : the block it leaves, in one piece;
* `position`, `pairwise_position` : the place of each operation in the new order;
* `mem_applySchedule` : no operation is lost or made;
* `applySchedule_map` : the moves look at identities only.
-/
import TTMLIR.SSA

open SSA

namespace ScheduleOrder

variable {κ κ' τ τ' : Type}

/-! ## The translated loop -/

/-- Put an operation directly after another one. -/
def insertAfter (op : ℕ) (nextOp : Operation κ τ) : List (Operation κ τ) → List (Operation κ τ)
  | [] => []
  | a :: ops => if a.id = op then a :: nextOp :: ops else a :: insertAfter op nextOp ops

/-- `nextOp->moveAfter(op)`: the operation is unlinked and put after the other one. -/
def moveAfter (ops : List (Operation κ τ)) (op nextOp : ℕ) : List (Operation κ τ) :=
  match lookup ops nextOp with
  | some a => insertAfter op a (ops.filter fun o => o.id ≠ nextOp)
  | none => ops

/-- The loop over the consecutive pairs of `opSchedule[func]`. -/
def applySchedule (ops : List (Operation κ τ)) (schedule : List ℕ) : List (Operation κ τ) :=
  (schedule.zip schedule.tail).foldl (fun ops pair => moveAfter ops pair.1 pair.2) ops

/-- The place an operation gets: operations before the first scheduled one keep their place,
then come the scheduled ones in their order, and then what is left. -/
def position (ops : List (Operation κ τ)) (schedule : List ℕ) (id : ℕ) : ℕ :=
  match schedule with
  | [] => index ops id
  | first :: rest =>
    if id ∈ first :: rest then ops.length + (first :: rest).idxOf id
    else if index ops id < index ops first then index ops id
    else ops.length + (first :: rest).length + index ops id

/-! ## One move -/

variable {front behind : List (Operation κ τ)}

theorem insertAfter_append {op : ℕ} {nextOp a : Operation κ τ}
    (hfront : ∀ o ∈ front, o.id ≠ op) (ha : a.id = op) :
    insertAfter op nextOp (front ++ a :: behind) = front ++ a :: nextOp :: behind := by
  induction front with
  | nil => rw [List.nil_append, insertAfter, if_pos ha, List.nil_append]
  | cons o front ih =>
    rw [List.cons_append, insertAfter, if_neg (hfront o (by simp)),
      ih fun o' ho' => hfront o' (by simp [ho']), List.cons_append]

variable {a : Operation κ τ}

theorem id_ne_of_nodup (hnodup : ((front ++ a :: behind).map Operation.id).Nodup) :
    ∀ o ∈ front ++ behind, o.id ≠ a.id := by
  have hperm : ((a :: (front ++ behind)).map Operation.id).Nodup :=
    (List.perm_middle.map Operation.id).nodup_iff.mp hnodup
  intro o ho heq
  exact (List.nodup_cons.mp hperm).1 (heq ▸ List.mem_map_of_mem ho)

variable {ops : List (Operation κ τ)}

theorem cons_filter_perm (hnodup : (ops.map Operation.id).Nodup) (ha : a ∈ ops) :
    (a :: ops.filter fun o => o.id ≠ a.id).Perm ops := by
  obtain ⟨front, behind, rfl⟩ := List.append_of_mem ha
  have hother := id_ne_of_nodup hnodup
  rw [List.filter_append, List.filter_cons_of_neg (by simp), ← List.filter_append,
    List.filter_eq_self.mpr fun o ho => by simpa using hother o ho]
  exact List.perm_middle.symm

/-- **One move**, in a block split at the operation it moves to. -/
theorem moveAfter_append {a nextOp : Operation κ τ}
    (hnodup : ((front ++ a :: behind).map Operation.id).Nodup) (hnext : nextOp ∈ front ++ behind) :
    moveAfter (front ++ a :: behind) a.id nextOp.id = front.filter (fun o => o.id ≠ nextOp.id) ++
        a :: nextOp :: behind.filter (fun o => o.id ≠ nextOp.id) := by
  have hmem : nextOp ∈ front ++ a :: behind := by
    rcases List.mem_append.mp hnext with h | h
    · exact List.mem_append_left _ h
    · exact List.mem_append_right _ (List.mem_cons_of_mem _ h)
  have hids := id_ne_of_nodup hnodup
  rw [moveAfter, (lookup_eq_some_iff hnodup).mpr ⟨hmem, rfl⟩]
  show insertAfter a.id nextOp ((front ++ a :: behind).filter fun o => o.id ≠ nextOp.id) = _
  rw [List.filter_append, List.filter_cons_of_pos (by simpa using (hids nextOp hnext).symm)]
  apply insertAfter_append _ rfl
  intro o ho
  exact hids o (List.mem_append_left _ (List.mem_filter.mp ho).1)

/-! ## The whole loop -/

/-- The operations a list of identities does not name. -/
def unscheduled (schedule : List ℕ) (ops : List (Operation κ τ)) : List (Operation κ τ) :=
  ops.filter fun o => o.id ∉ schedule

variable {schedule : List ℕ} {o : Operation κ τ}

theorem mem_unscheduled : o ∈ unscheduled schedule ops ↔ o ∈ ops ∧ o.id ∉ schedule := by
  simp [unscheduled]

theorem unscheduled_filter (id : ℕ) (schedule : List ℕ) (ops : List (Operation κ τ)) :
    unscheduled schedule (ops.filter fun o => o.id ≠ id) = unscheduled (id :: schedule) ops := by
  rw [unscheduled, unscheduled, List.filter_filter]
  refine List.filter_congr fun o _ => ?_
  by_cases h : o.id = id <;> simp [h]

/-- **The block after the loop.**  Operations that are not scheduled stay on their side of
the first scheduled one, and the others follow it in their order. -/
theorem applySchedule_eq {rest front behind : List (Operation κ τ)}
    (hnodup : ((front ++ a :: behind).map Operation.id).Nodup)
    (hrest : (rest.map Operation.id).Nodup) (hmem : ∀ o ∈ rest, o ∈ front ++ behind) :
    applySchedule (front ++ a :: behind) ((a :: rest).map Operation.id) =
      unscheduled (rest.map Operation.id) front ++
        a :: (rest ++ unscheduled (rest.map Operation.id) behind) := by
  induction rest generalizing front a behind with
  | nil => simp [applySchedule, unscheduled]
  | cons b rest ih =>
    obtain ⟨hb, hrest'⟩ := List.nodup_cons.mp hrest
    have hba : b.id ≠ a.id := id_ne_of_nodup hnodup b (hmem b (by simp))
    -- the operation moved next becomes the last one moved
    have hstep : applySchedule (front ++ a :: behind) ((a :: b :: rest).map Operation.id) =
        applySchedule ((front.filter (fun o => o.id ≠ b.id) ++ [a]) ++
          b :: behind.filter (fun o => o.id ≠ b.id)) ((b :: rest).map Operation.id) := by
      rw [applySchedule, List.map_cons, List.tail_cons, List.map_cons, List.zip_cons_cons,
        List.foldl_cons]
      show applySchedule (moveAfter (front ++ a :: behind) a.id b.id) _ = _
      rw [moveAfter_append hnodup (hmem b (by simp)), List.append_assoc]
      rfl
    have hperm : ((front.filter (fun o => o.id ≠ b.id) ++ [a]) ++
        b :: behind.filter (fun o => o.id ≠ b.id)).Perm (front ++ a :: behind) := by
      have hbmem : b ∈ front ++ a :: behind := by
        rcases List.mem_append.mp (hmem b (by simp)) with h | h
        · exact List.mem_append_left _ h
        · exact List.mem_append_right _ (List.mem_cons_of_mem _ h)
      have hall := cons_filter_perm hnodup hbmem
      rw [List.filter_append, List.filter_cons_of_pos (by simpa using hba.symm)] at hall
      refine List.perm_middle.trans (List.Perm.trans ?_ hall)
      rw [List.append_assoc]
      exact List.Perm.refl _
    rw [hstep, ih ((hperm.map Operation.id).nodup_iff.mpr hnodup) hrest' ?_]
    · have ha : a.id ∉ rest.map Operation.id := by
        intro h
        obtain ⟨o, ho, hid⟩ := List.mem_map.mp h
        exact id_ne_of_nodup hnodup o (hmem o (by simp [ho])) hid
      rw [unscheduled_filter, unscheduled, List.filter_append, ← unscheduled,
        unscheduled_filter, List.filter_cons_of_pos (by simpa using ha)]
      simp
    · intro o ho
      have hne : o.id ≠ b.id := fun h => hb (h ▸ List.mem_map_of_mem ho)
      rcases List.mem_append.mp (hmem o (by simp [ho])) with h | h
      · apply List.mem_append_left
        exact List.mem_append_left _ (List.mem_filter.mpr ⟨h, by simpa using hne⟩)
      · exact List.mem_append_right _ (List.mem_filter.mpr ⟨h, by simpa using hne⟩)

/-! ## The new order -/

/-- A schedule of a block: identities of its operations, each once. -/
structure IsSchedule (ops : List (Operation κ τ)) (schedule : List ℕ) : Prop where
  nodup : schedule.Nodup
  mem : ∀ id ∈ schedule, id ∈ ops.map Operation.id

/-- The parts of a block and of its schedule. -/
theorem IsSchedule.exists_split {first : ℕ} {rest : List ℕ}
    (hnodup : (ops.map Operation.id).Nodup) (h : IsSchedule ops (first :: rest)) :
    ∃ front a behind, ∃ moved : List (Operation κ τ), ops = front ++ a :: behind ∧
      first = a.id ∧ rest = moved.map Operation.id ∧ ∀ o ∈ moved, o ∈ front ++ behind := by
  obtain ⟨a, ha, rfl⟩ := List.mem_map.mp (h.mem first (by simp))
  obtain ⟨front, behind, rfl⟩ := List.append_of_mem ha
  have hrest : ∀ id ∈ rest, id ∈ (front ++ a :: behind).map Operation.id :=
    fun id hid => h.mem id (by simp [hid])
  refine ⟨front, a, behind, deref _ rest, rfl, rfl, (map_id_deref hnodup hrest).symm, ?_⟩
  intro o ho
  obtain ⟨hmem, hid⟩ := (mem_deref hnodup).mp ho
  have hne : o ≠ a := fun heq => (List.nodup_cons.mp h.nodup).1 (heq ▸ hid)
  simpa [hne] using hmem

/-- **No operation is lost or made.** -/
theorem mem_applySchedule (hnodup : (ops.map Operation.id).Nodup) (h : IsSchedule ops schedule) :
    o ∈ applySchedule ops schedule ↔ o ∈ ops := by
  cases schedule with
  | nil => rfl
  | cons first rest =>
    obtain ⟨front, a, behind, moved, rfl, rfl, rfl, hmoved⟩ := h.exists_split hnodup
    have hsched : a.id :: moved.map Operation.id = (a :: moved).map Operation.id := rfl
    rw [hsched, applySchedule_eq hnodup (List.nodup_cons.mp h.nodup).2 hmoved]
    simp only [List.mem_append, List.mem_cons, mem_unscheduled]
    constructor
    · rintro (⟨h, -⟩ | rfl | h | ⟨h, -⟩)
      · exact Or.inl h
      · exact Or.inr (Or.inl rfl)
      · rcases List.mem_append.mp (hmoved o h) with h | h
        · exact Or.inl h
        · exact Or.inr (Or.inr h)
      · exact Or.inr (Or.inr h)
    · intro ho
      by_cases hid : o.id ∈ moved.map Operation.id
      · obtain ⟨o', ho', heq⟩ := List.mem_map.mp hid
        have hmem' : o' ∈ front ++ a :: behind := by
          rcases List.mem_append.mp (hmoved o' ho') with h | h
          · exact List.mem_append_left _ h
          · exact List.mem_append_right _ (List.mem_cons_of_mem _ h)
        obtain rfl := eq_of_id_eq hnodup hmem' (by simpa using ho) heq
        exact Or.inr (Or.inr (Or.inl ho'))
      · rcases ho with h | rfl | h
        · exact Or.inl ⟨h, hid⟩
        · exact Or.inr (Or.inl rfl)
        · exact Or.inr (Or.inr (Or.inr ⟨h, hid⟩))

theorem pairwise_idxOf {l : List ℕ} (h : l.Nodup) :
    l.Pairwise fun a b => l.idxOf a < l.idxOf b := by
  rw [List.pairwise_iff_getElem]
  intro i j hi hj hij
  rw [h.idxOf_getElem i hi, h.idxOf_getElem j hj]
  exact hij

theorem pairwise_index (h : (ops.map Operation.id).Nodup) :
    ops.Pairwise fun p o => index ops p.id < index ops o.id := by
  have hids := pairwise_idxOf h
  rw [List.pairwise_map] at hids
  exact hids

theorem index_lt_length (ho : o ∈ ops) : index ops o.id < ops.length := by
  simpa [index] using List.idxOf_lt_length_of_mem (List.mem_map_of_mem (f := Operation.id) ho)

theorem position_of_mem {id : ℕ}
    (h : id ∈ schedule) : position ops schedule id = ops.length + schedule.idxOf id := by
  cases schedule with
  | nil => cases h
  | cons first rest => rw [position, if_pos h]

/-- **The new order lists operations by increasing positions.** -/
theorem pairwise_position (hnodup : (ops.map Operation.id).Nodup) (h : IsSchedule ops schedule) :
    (applySchedule ops schedule).Pairwise
      fun p o => position ops schedule p.id < position ops schedule o.id := by
  cases schedule with
  | nil => exact pairwise_index hnodup
  | cons first rest =>
    obtain ⟨front, a, behind, moved, rfl, rfl, rfl, hmoved⟩ := h.exists_split hnodup
    have hsched : a.id :: moved.map Operation.id = (a :: moved).map Operation.id := rfl
    have hne := id_ne_of_nodup hnodup
    obtain ⟨hfront, hbehind, hcross⟩ := List.pairwise_append.mp (pairwise_index hnodup)
    obtain ⟨habehind, hbehind⟩ := List.pairwise_cons.mp hbehind
    -- the three kinds of positions
    have hpfront : ∀ o ∈ unscheduled (moved.map Operation.id) front,
        position (front ++ a :: behind) (a.id :: moved.map Operation.id) o.id =
          index (front ++ a :: behind) o.id := by
      intro o ho
      obtain ⟨ho, hid⟩ := mem_unscheduled.mp ho
      have hnot : o.id ∉ a.id :: moved.map Operation.id := by
        simpa [hne o (List.mem_append_left _ ho)] using hid
      rw [position, if_neg hnot, if_pos (hcross o ho a (by simp))]
    have hpbehind : ∀ o ∈ unscheduled (moved.map Operation.id) behind,
        position (front ++ a :: behind) (a.id :: moved.map Operation.id) o.id =
          (front ++ a :: behind).length + (a.id :: moved.map Operation.id).length +
            index (front ++ a :: behind) o.id := by
      intro o ho
      obtain ⟨ho, hid⟩ := mem_unscheduled.mp ho
      have hnot : o.id ∉ a.id :: moved.map Operation.id := by
        simpa [hne o (List.mem_append_right _ ho)] using hid
      rw [position, if_neg hnot, if_neg (Nat.lt_asymm (habehind o ho))]
    have hpmoved : ∀ o ∈ a :: moved,
        position (front ++ a :: behind) (a.id :: moved.map Operation.id) o.id =
          (front ++ a :: behind).length + (a.id :: moved.map Operation.id).idxOf o.id :=
      fun o ho => position_of_mem (hsched ▸ List.mem_map_of_mem ho)
    have hlt : ∀ o ∈ a :: moved, (a.id :: moved.map Operation.id).idxOf o.id <
        (a.id :: moved.map Operation.id).length :=
      fun o ho => List.idxOf_lt_length_of_mem (hsched ▸ List.mem_map_of_mem ho)
    rw [hsched, applySchedule_eq hnodup (List.nodup_cons.mp h.nodup).2 hmoved, ← hsched,
      ← List.cons_append, List.pairwise_append, List.pairwise_append]
    refine ⟨?_, ⟨?_, ?_, ?_⟩, ?_⟩
    · refine (hfront.filter _).imp_of_mem fun {p o} hp ho hpo => ?_
      rw [hpfront p hp, hpfront o ho]
      exact hpo
    · have hmovedPairwise := List.pairwise_map.mp (hsched ▸ pairwise_idxOf h.nodup)
      refine hmovedPairwise.imp_of_mem fun {p o} hp ho hpo => ?_
      rw [hpmoved p hp, hpmoved o ho]
      exact Nat.add_lt_add_left hpo _
    · refine (hbehind.filter _).imp_of_mem fun {p o} hp ho hpo => ?_
      rw [hpbehind p hp, hpbehind o ho]
      exact Nat.add_lt_add_left hpo _
    · intro p hp o ho
      rw [hpmoved p hp, hpbehind o ho]
      have := hlt p hp
      omega
    · intro p hp o ho
      have hplt : index (front ++ a :: behind) p.id < (front ++ a :: behind).length :=
        index_lt_length (List.mem_append_left _ (mem_unscheduled.mp hp).1)
      rw [hpfront p hp]
      rcases List.mem_append.mp ho with ho | ho
      · rw [hpmoved o ho]
        omega
      · rw [hpbehind o ho]
        omega

/-- What stands before an operation in the new order has a smaller position. -/
theorem mem_iff_position_lt {ops pre post : List (Operation κ τ)}
    (hnodup : (ops.map Operation.id).Nodup) (h : IsSchedule ops schedule)
    (heq : applySchedule ops schedule = pre ++ o :: post) {p : Operation κ τ} (hp : p ∈ ops) :
    p ∈ pre ↔ position ops schedule p.id < position ops schedule o.id := by
  have hpairwise := pairwise_position hnodup h
  rw [heq, List.pairwise_append] at hpairwise
  obtain ⟨-, hpost, hpre⟩ := hpairwise
  constructor
  · intro hmem
    exact hpre p hmem o (by simp)
  · intro hlt
    rw [← mem_applySchedule hnodup h, heq] at hp
    rcases List.mem_append.mp hp with hp | hp
    · exact hp
    · rcases List.mem_cons.mp hp with rfl | hp
      · exact absurd hlt (lt_irrefl _)
      · exact absurd hlt (Nat.lt_asymm ((List.pairwise_cons.mp hpost).1 p hp))

theorem nodup_applySchedule (hnodup : (ops.map Operation.id).Nodup) (h : IsSchedule ops schedule) :
    ((applySchedule ops schedule).map Operation.id).Nodup := by
  rw [List.Nodup, List.pairwise_map]
  refine (pairwise_position hnodup h).imp ?_
  intro p o hlt heq
  rw [heq] at hlt
  exact lt_irrefl _ hlt

/-- **Operations that are not scheduled keep their order.** -/
theorem position_lt_of_unscheduled {a b : ℕ}
    (ha : a ∉ schedule) (hb : b ∉ schedule) (hlt : index ops a < index ops b) :
    position ops schedule a < position ops schedule b := by
  cases schedule with
  | nil => exact hlt
  | cons first rest =>
    rw [position, position, if_neg ha, if_neg hb]
    split_ifs <;> omega

/-! ## Moves look at identities only -/

section Map

variable {g : Operation κ τ → Operation κ' τ'} (hg : ∀ o, (g o).id = o.id)
include hg

theorem insertAfter_map (op : ℕ) (nextOp : Operation κ τ) (ops : List (Operation κ τ)) :
    insertAfter op (g nextOp) (ops.map g) = (insertAfter op nextOp ops).map g := by
  induction ops with
  | nil => rfl
  | cons a ops ih =>
    rw [List.map_cons, insertAfter, insertAfter, hg]
    split_ifs with h
    · rfl
    · rw [List.map_cons, ih]

theorem lookup_map (ops : List (Operation κ τ)) (id : ℕ) :
    lookup (ops.map g) id = (lookup ops id).map g := by
  rw [lookup, lookup, List.find?_map]
  congr 2
  funext o
  simp [hg]

theorem moveAfter_map (ops : List (Operation κ τ)) (op nextOp : ℕ) :
    moveAfter (ops.map g) op nextOp = (moveAfter ops op nextOp).map g := by
  rw [moveAfter, moveAfter, lookup_map hg]
  cases lookup ops nextOp with
  | none => rfl
  | some a =>
    show insertAfter op (g a) ((ops.map g).filter _) = (insertAfter op a _).map g
    rw [List.filter_map, ← insertAfter_map hg]
    congr 3
    funext o
    simp [hg]

/-- **Moving and then changing operations is changing and then moving them.** -/
theorem applySchedule_map (ops : List (Operation κ τ)) (schedule : List ℕ) :
    applySchedule (ops.map g) schedule = (applySchedule ops schedule).map g := by
  rw [applySchedule, applySchedule]
  generalize schedule.zip schedule.tail = pairs
  induction pairs generalizing ops with
  | nil => rfl
  | cons pair pairs ih =>
    rw [List.foldl_cons, List.foldl_cons, moveAfter_map hg, ih]

end Map

end ScheduleOrder
