/-
# The operation scheduler

`Scheduler` of `Scheduler.cpp` hands out the operations of a function in an order a client
chooses: it keeps the operations whose recorded dependencies are scheduled, and the client
picks one of them, takes snapshots and goes back to them.

* `Scheduler.init` : the constructor, with its dependency loop;
* `Step`, `Reachable` : what a client can do;
* `tracks_of_reachable`, `reachable_of_legal` : the schedules clients can build are the legal
  orders of the recorded dependencies;
* `schedulesCorrectly_iff` : every client gets a correct schedule exactly when every
  schedulable operation has a result and the recorded dependencies generate all data
  dependencies between schedulable operations.

A dependency is recorded only for the first result of an operation and only for a direct
use by a schedulable operation.
-/
import TTMLIR.SSA
import TTMLIR.TopologicalOrder

open SSA TopologicalOrder

namespace Scheduler

/-! ## The translated functions -/

/-- The dialect of an operation. -/
inductive Dialect : Type where
  | ttir
  | ttnn
  | other
  deriving DecidableEq, Repr

/-- The name of an operation. -/
structure OpName : Type where
  dialect : Dialect
  mnemonic : String
  deriving DecidableEq, Repr

/-- The operations the scheduler works on; result types do not matter to it. -/
abbrev Op (τ : Type) : Type := Operation OpName τ

variable {τ : Type}

/-- `isTTNNScheduleableOp`. -/
def isTTNNScheduleableOp (op : Op τ) : Bool :=
  op.name.dialect = .ttnn && 0 < op.numResults && op.name.mnemonic ≠ "empty"
    && op.name.mnemonic ≠ "get_device"

/-- `isTTIRSchedulableOp`. -/
def isTTIRSchedulableOp (op : Op τ) : Bool :=
  op.name.dialect = .ttir && op.name.mnemonic ≠ "empty"

/-- `Scheduler::isTTSchedulableOp`. -/
def isTTSchedulableOp (op : Op τ) : Bool :=
  isTTNNScheduleableOp op || isTTIRSchedulableOp op

/-- `Scheduler`: operations are pointers, here their identities. -/
structure State : Type where
  scheduledOpsMap : Finset ℕ
  schedule : List ℕ
  unscheduledOps : Finset ℕ
  dependencies : ℕ → List ℕ

/-- `result.getUsers()`: one entry for each use of a value. -/
def getUsers (ops : List (Op τ)) (v : Value) : List (Op τ) :=
  ops.flatMap fun use => (use.operands.filter (· = v)).map fun _ => use

/-- `op.getResult(0)`, which asserts that there is a first result. -/
def getResult0 (op : Op τ) : Option Value :=
  if 0 < op.numResults then some (.opResult op.id 0) else none

/-- The body of the dependency loop for one use of the first result of `op`. -/
def recordUse (op : Op τ) (result : Value) (dependencies : ℕ → List ℕ) (use : Op τ) :
    Option (ℕ → List ℕ) :=
  if isTTSchedulableOp use then do
    let useResult ← getResult0 use
    if useResult ≠ result then
      some (Function.update dependencies use.id (dependencies use.id ++ [op.id]))
    else
      some dependencies
  else
    some dependencies

/-- The dependency loop of the constructor for one operation. -/
def recordOp (ops : List (Op τ)) (dependencies : ℕ → List ℕ) (op : Op τ) :
    Option (ℕ → List ℕ) :=
  if isTTSchedulableOp op then do
    let result ← getResult0 op
    (getUsers ops result).foldlM (recordUse op result) dependencies
  else
    some dependencies

/-- The constructor of `Scheduler`; `none` where `getResult(0)` asserts. -/
def init (ops : List (Op τ)) : Option State := do
  let dependencies ← ops.foldlM (recordOp ops) fun _ => []
  some
    { scheduledOpsMap := ∅
      schedule := []
      unscheduledOps := ((ops.filter fun op => isTTSchedulableOp op).map Operation.id).toFinset
      dependencies := dependencies }

namespace State

/-- `Scheduler::canSchedule`. -/
def canSchedule (s : State) (op : ℕ) : Bool :=
  (s.dependencies op).all fun dep => dep ∈ s.scheduledOpsMap

/-- `Scheduler::getScheduleableOps`; the order of the source's set is unspecified. -/
def getScheduleableOps (s : State) : Finset ℕ :=
  s.unscheduledOps.filter fun op => s.canSchedule op

/-- `Scheduler::scheduleOp`. -/
def scheduleOp (s : State) (op : ℕ) : State :=
  { s with
    scheduledOpsMap := insert op s.scheduledOpsMap
    unscheduledOps := s.unscheduledOps.erase op
    schedule := s.schedule ++ [op] }

/-- `Scheduler::snapshot`: the copy constructor. -/
def snapshot (s : State) : State := s

/-- `Scheduler::hasUnscheduledOps`. -/
def hasUnscheduledOps (s : State) : Bool := s.unscheduledOps.Nonempty

end State

/-! ## Clients -/

/-- What a client does with its scheduler and the snapshots it holds: schedule an operation
it was handed, take a snapshot, or go back to one. -/
inductive Step : State × List State → State × List State → Prop where
  | scheduleOp (s : State) (saved : List State) (op : ℕ) (h : op ∈ s.getScheduleableOps) :
      Step (s, saved) (s.scheduleOp op, saved)
  | snapshot (s : State) (saved : List State) : Step (s, saved) (s, s.snapshot :: saved)
  | restore (s : State) (saved : List State) (t : State) (h : t ∈ saved) :
      Step (s, saved) (t, saved)

/-- The schedulers a client can hold after starting from `s₀`. -/
def Reachable (s₀ s : State) : Prop :=
  ∃ saved, Relation.ReflTransGen Step (s₀, []) (s, saved)

/-- An operation depends on another through results and operands, with any operations in
between. -/
def DependsOn (ops : List (Op τ)) : Op τ → Op τ → Prop :=
  Relation.TransGen fun b a => b ∈ ops ∧ a ∈ ops ∧ b.Reads a

/-- **What a scheduler has to do for a function.**  It can be built; while operations are
left, some operation can be scheduled; and a finished schedule lists every schedulable
operation once, after the schedulable operations it depends on. -/
def SchedulesCorrectly (ops : List (Op τ)) : Prop :=
  ∃ s₀, init ops = some s₀ ∧ ∀ s, Reachable s₀ s →
    (s.hasUnscheduledOps → s.getScheduleableOps.Nonempty) ∧
      (¬ s.hasUnscheduledOps →
        s.schedule.Nodup ∧
        (∀ op ∈ ops, isTTSchedulableOp op → op.id ∈ s.schedule) ∧
        (∀ id ∈ s.schedule, ∃ op ∈ ops, isTTSchedulableOp op ∧ op.id = id) ∧
        ∀ a ∈ ops, ∀ b ∈ ops, isTTSchedulableOp a → isTTSchedulableOp b →
          DependsOn ops b a → DepGraph.Before s.schedule a.id b.id)

/-- A dependency the constructor records: a schedulable operation reads the first result of
another one. -/
def Recorded (ops : List (Op τ)) (a b : ℕ) : Prop :=
  ∃ opA ∈ ops, ∃ opB ∈ ops, opA.id = a ∧ opB.id = b ∧ isTTSchedulableOp opA ∧
    isTTSchedulableOp opB ∧ Value.opResult a 0 ∈ opB.operands

/-! ## The dependency loop -/

theorem mem_getUsers {ops : List (Op τ)} {v : Value} {use : Op τ} :
    use ∈ getUsers ops v ↔ use ∈ ops ∧ v ∈ use.operands := by
  simp only [getUsers, List.mem_flatMap, List.mem_map, List.mem_filter, decide_eq_true_eq]
  constructor
  · rintro ⟨use', hmem, ⟨w, ⟨hw, rfl⟩, rfl⟩⟩
    exact ⟨hmem, hw⟩
  · rintro ⟨hmem, hv⟩
    exact ⟨use, hmem, v, ⟨hv, rfl⟩, rfl⟩

/-- The loop over the uses of one result adds one dependency for each schedulable user. -/
theorem foldlM_recordUse (op : Op τ) (result : Value) (users : List (Op τ))
    (hres : ∀ use ∈ users, isTTSchedulableOp use → 0 < use.numResults)
    (dependencies : ℕ → List ℕ) :
    ∃ dependencies', users.foldlM (recordUse op result) dependencies = some dependencies' ∧
      ∀ a b, a ∈ dependencies' b ↔ a ∈ dependencies b ∨ (a = op.id ∧
        ∃ use ∈ users, isTTSchedulableOp use ∧ use.id = b ∧ Value.opResult use.id 0 ≠ result) := by
  induction users generalizing dependencies with
  | nil => exact ⟨dependencies, rfl, by simp⟩
  | cons use users ih =>
    have hstep : ∃ next, recordUse op result dependencies use = some next ∧
        ∀ a b, a ∈ next b ↔ a ∈ dependencies b ∨ (a = op.id ∧ isTTSchedulableOp use ∧
          use.id = b ∧ Value.opResult use.id 0 ≠ result) := by
      unfold recordUse
      by_cases hs : isTTSchedulableOp use
      · have hpos := hres use (by simp) hs
        simp only [hs, if_true, getResult0, hpos, Option.bind_eq_bind, Option.bind_some]
        by_cases hne : Value.opResult use.id 0 ≠ result
        · refine ⟨_, if_pos hne, fun a b => ?_⟩
          by_cases hb : b = use.id
          · subst hb
            simp [hne]
          · simp [Function.update_of_ne hb, Ne.symm hb]
        · exact ⟨_, if_neg hne, fun a b => by simp [hne]⟩
      · exact ⟨dependencies, by simp [hs], by simp [hs]⟩
    obtain ⟨next, hnext, hmem⟩ := hstep
    obtain ⟨final, hfinal, hmem'⟩ := ih (fun u hu => hres u (by simp [hu])) next
    refine ⟨final, ?_, fun a b => ?_⟩
    · rw [List.foldlM_cons, hnext]
      exact hfinal
    · rw [hmem', hmem]
      simp only [List.mem_cons, exists_eq_or_imp]
      tauto

/-- The constructor's loop over a part of the operations. -/
theorem foldlM_recordOp (ops part : List (Op τ))
    (hres : ∀ op ∈ ops, isTTSchedulableOp op → 0 < op.numResults) (hsub : ∀ op ∈ part, op ∈ ops)
    (dependencies : ℕ → List ℕ) :
    ∃ dependencies', part.foldlM (recordOp ops) dependencies = some dependencies' ∧
      ∀ a b, a ∈ dependencies' b ↔ a ∈ dependencies b ∨ ∃ op ∈ part, isTTSchedulableOp op ∧
        op.id = a ∧ ∃ use ∈ ops, isTTSchedulableOp use ∧ use.id = b ∧
          Value.opResult op.id 0 ∈ use.operands ∧ use.id ≠ op.id := by
  induction part generalizing dependencies with
  | nil => exact ⟨dependencies, rfl, by simp⟩
  | cons op part ih =>
    have hop := hsub op (by simp)
    have hstep : ∃ next, recordOp ops dependencies op = some next ∧
        ∀ a b, a ∈ next b ↔ a ∈ dependencies b ∨ (isTTSchedulableOp op ∧ op.id = a ∧
          ∃ use ∈ ops, isTTSchedulableOp use ∧ use.id = b ∧
            Value.opResult op.id 0 ∈ use.operands ∧ use.id ≠ op.id) := by
      unfold recordOp
      by_cases hs : isTTSchedulableOp op
      · have hpos := hres op hop hs
        simp only [hs, if_true, getResult0, hpos, Option.bind_eq_bind, Option.bind_some]
        obtain ⟨next, hnext, hmem⟩ := foldlM_recordUse op (.opResult op.id 0)
          (getUsers ops (.opResult op.id 0))
          (fun use huse => hres use (mem_getUsers.mp huse).1) dependencies
        refine ⟨next, hnext, fun a b => ?_⟩
        rw [hmem]
        constructor
        · rintro (h | ⟨rfl, use, huse, hsched, hid, hne⟩)
          · exact Or.inl h
          · obtain ⟨huse, hread⟩ := mem_getUsers.mp huse
            exact Or.inr ⟨trivial, rfl, use, huse, hsched, hid, hread, by simpa using hne⟩
        · rintro (h | ⟨-, rfl, use, huse, hsched, hid, hread, hne⟩)
          · exact Or.inl h
          · exact Or.inr ⟨rfl, use, mem_getUsers.mpr ⟨huse, hread⟩, hsched, hid,
              by simpa using hne⟩
      · exact ⟨dependencies, by simp [hs], by simp [hs]⟩
    obtain ⟨next, hnext, hmem⟩ := hstep
    obtain ⟨final, hfinal, hmem'⟩ := ih (fun o ho => hsub o (by simp [ho])) next
    refine ⟨final, ?_, fun a b => ?_⟩
    · rw [List.foldlM_cons, hnext]
      exact hfinal
    · rw [hmem', hmem]
      simp only [List.mem_cons, exists_eq_or_imp]
      rw [or_assoc]

theorem foldlM_recordOp_eq_none (ops : List (Op τ)) {part : List (Op τ)} {op : Op τ}
    (hop : op ∈ part) (hs : isTTSchedulableOp op) (hnone : ¬ 0 < op.numResults)
    (dependencies : ℕ → List ℕ) : part.foldlM (recordOp ops) dependencies = none := by
  induction part generalizing dependencies with
  | nil => simp at hop
  | cons op' part ih =>
    rw [List.foldlM_cons]
    rcases List.mem_cons.mp hop with rfl | hop
    · simp [recordOp, hs, getResult0, hnone]
    · cases h : recordOp ops dependencies op' with
      | none => rfl
      | some next => exact ih hop next

/-! ## The dependency graph of a function -/

section Graph

variable (f : Func OpName τ)

/-- The identities of the schedulable operations. -/
def schedulable : Finset ℕ :=
  ((f.ops.filter fun op => isTTSchedulableOp op).map Operation.id).toFinset

theorem mem_schedulable {id : ℕ} :
    id ∈ schedulable f ↔ ∃ op ∈ f.ops, isTTSchedulableOp op ∧ op.id = id := by
  simp [schedulable, and_assoc]

theorem index_lt_of_recorded {a b : ℕ} (h : Recorded f.ops a b) :
    index f.ops a < index f.ops b := by
  obtain ⟨opA, hA, opB, hB, rfl, rfl, -, -, hread⟩ := h
  obtain ⟨pre, post, heq⟩ := List.append_of_mem hB
  -- the first result is in scope, so it is a result of the operation
  have hvisible := (heq ▸ f.dominated).operands_mem _ hread
  obtain ⟨op, hop, hid, hk⟩ := opResult_mem_scope.mp hvisible
  have hsame : opA = op := eq_of_id_eq f.nodup hA (by rw [heq]; simp [hop]) hid
  refine index_lt_of_reads f.nodup f.dominated hB ⟨_, hread, ?_⟩
  rw [Operation.opResult_mem_results, hsame]
  exact ⟨rfl, hk⟩

theorem index_lt_of_dependsOn {a b : Op τ} (h : DependsOn f.ops b a) :
    index f.ops a.id < index f.ops b.id := by
  induction h with
  | single h => exact index_lt_of_reads f.nodup f.dominated h.1 h.2.2
  | tail _ h ih => exact lt_trans (index_lt_of_reads f.nodup f.dominated h.1 h.2.2) ih

/-- The graph of the recorded dependencies. -/
def graph : DepGraph ℕ where
  nodes := schedulable f
  dep := Recorded f.ops
  dep_mem := by
    rintro a b ⟨opA, hA, -, -, rfl, -, hs, -⟩
    exact (mem_schedulable f).mpr ⟨opA, hA, hs, rfl⟩
  wf := Subrelation.wf (fun h => index_lt_of_recorded f h)
    (InvImage.wf (index f.ops) Nat.lt_wfRel.wf)

/-- **The constructor.**  It succeeds when every schedulable operation has a result, and
records exactly the dependencies of the graph. -/
theorem init_eq_some (hres : ∀ op ∈ f.ops, isTTSchedulableOp op → 0 < op.numResults) :
    ∃ dependencies, init f.ops = some ⟨∅, [], schedulable f, dependencies⟩ ∧
      ∀ a b, a ∈ dependencies b ↔ Recorded f.ops a b := by
  obtain ⟨dependencies, hfold, hmem⟩ := foldlM_recordOp f.ops f.ops hres (fun _ h => h) fun _ => []
  refine ⟨dependencies, ?_, fun a b => ?_⟩
  · rw [init, hfold]
    rfl
  · rw [hmem]
    constructor
    · rintro (h | ⟨op, hop, hs, rfl, use, huse, hs', rfl, hread, -⟩)
      · simp at h
      · exact ⟨op, hop, use, huse, rfl, rfl, hs, hs', hread⟩
    · intro h
      have hlt := index_lt_of_recorded f h
      obtain ⟨opA, hA, opB, hB, rfl, rfl, hs, hs', hread⟩ := h
      refine Or.inr ⟨opA, hA, hs, rfl, opB, hB, hs', rfl, hread, fun hid => ?_⟩
      rw [hid] at hlt
      exact lt_irrefl _ hlt

/-! ## Runs -/

/-- A scheduler whose fields are what its schedule says they are, and whose schedule is a
legal order. -/
structure Tracks (dependencies : ℕ → List ℕ) (s : State) : Prop where
  scheduled : s.scheduledOpsMap = s.schedule.toFinset
  unscheduled : s.unscheduledOps = schedulable f \ s.schedule.toFinset
  recorded : s.dependencies = dependencies
  legal : (graph f).Legal s.schedule

variable {f} {dependencies : ℕ → List ℕ}

variable {s : State}

/-- The operations handed out are the schedulable ones left whose dependencies are
scheduled. -/
theorem Tracks.mem_getScheduleableOps (h : Tracks f dependencies s)
    (hdeps : ∀ a b, a ∈ dependencies b ↔ Recorded f.ops a b) {op : ℕ} :
    op ∈ s.getScheduleableOps ↔
      op ∈ schedulable f ∧ op ∉ s.schedule ∧ ∀ a, Recorded f.ops a op → a ∈ s.schedule := by
  rw [State.getScheduleableOps, Finset.mem_filter, h.unscheduled, Finset.mem_sdiff, and_assoc]
  refine and_congr Iff.rfl (and_congr (by simp) ?_)
  simp [State.canSchedule, h.recorded, h.scheduled, hdeps]

/-- **One step of a schedule.**  Scheduling an operation that was handed out appends it. -/
theorem Tracks.scheduleOp (h : Tracks f dependencies s)
    (hdeps : ∀ a b, a ∈ dependencies b ↔ Recorded f.ops a b) {op : ℕ}
    (hop : op ∈ s.getScheduleableOps) : Tracks f dependencies (s.scheduleOp op) := by
  obtain ⟨hs, hnew, hready⟩ := (h.mem_getScheduleableOps hdeps).mp hop
  refine ⟨?_, ?_, h.recorded, DepGraph.Legal.snoc h.legal hs hnew hready⟩
  · simp only [State.scheduleOp, h.scheduled, List.toFinset_append, List.toFinset_cons,
      List.toFinset_nil, LawfulSingleton.insert_empty_eq]
    rw [Finset.union_comm]
    rfl
  · simp only [State.scheduleOp, h.unscheduled]
    ext x
    simp only [Finset.mem_erase, Finset.mem_sdiff, List.mem_toFinset, List.mem_append,
      List.mem_singleton]
    tauto

/-- **Runs.**  Every scheduler a client holds, and every snapshot, tracks its schedule. -/
theorem tracks_of_reachable {s₀ s : State} (h₀ : Tracks f dependencies s₀)
    (hdeps : ∀ a b, a ∈ dependencies b ↔ Recorded f.ops a b) (h : Reachable s₀ s) :
    Tracks f dependencies s := by
  obtain ⟨saved, hrun⟩ := h
  suffices hall : ∀ c, Relation.ReflTransGen Step (s₀, []) c →
      Tracks f dependencies c.1 ∧ ∀ t ∈ c.2, Tracks f dependencies t from (hall _ hrun).1
  intro c hc
  induction hc with
  | refl => exact ⟨h₀, by simp⟩
  | tail _ hstep ih =>
    obtain ⟨hcurr, hsaved⟩ := ih
    cases hstep with
    | scheduleOp s saved op hop => exact ⟨hcurr.scheduleOp hdeps hop, hsaved⟩
    | snapshot s saved =>
      refine ⟨hcurr, fun t ht => ?_⟩
      rcases List.mem_cons.mp ht with rfl | ht
      · exact hcurr
      · exact hsaved t ht
    | restore s saved t ht => exact ⟨hsaved t ht, hsaved⟩

theorem reachable_of_legal {s₀ : State} (h₀ : Tracks f dependencies s₀)
    (hempty : s₀.schedule = []) (hdeps : ∀ a b, a ∈ dependencies b ↔ Recorded f.ops a b)
    {order : List ℕ} (h : (graph f).Legal order) : ∃ s, Reachable s₀ s ∧ s.schedule = order := by
  induction h with
  | nil => exact ⟨s₀, ⟨[], Relation.ReflTransGen.refl⟩, hempty⟩
  | @snoc order b _ hb hnew hready ih =>
    obtain ⟨s, hreach, rfl⟩ := ih
    have htracks := tracks_of_reachable h₀ hdeps hreach
    obtain ⟨saved, hrun⟩ := hreach
    have hop := (htracks.mem_getScheduleableOps hdeps).mpr ⟨hb, hnew, hready⟩
    exact ⟨s.scheduleOp b, ⟨saved, hrun.tail (Step.scheduleOp s saved b hop)⟩, rfl⟩

theorem Tracks.hasUnscheduledOps_iff (h : Tracks f dependencies s) :
    s.hasUnscheduledOps ↔ ¬ (graph f).Complete s.schedule := by
  rw [State.hasUnscheduledOps, decide_eq_true_eq, h.unscheduled, Finset.sdiff_nonempty]
  exact not_congr ⟨fun hsub a ha => List.mem_toFinset.mp (hsub ha),
    fun hall a ha => List.mem_toFinset.mpr (hall a ha)⟩

theorem Tracks.exists_scheduleable (h : Tracks f dependencies s)
    (hdeps : ∀ a b, a ∈ dependencies b ↔ Recorded f.ops a b) (hleft : s.hasUnscheduledOps) :
    s.getScheduleableOps.Nonempty := by
  obtain ⟨b, hb, hnew, hready⟩ := DepGraph.Legal.exists_ready (h.hasUnscheduledOps_iff.mp hleft)
  exact ⟨b, (h.mem_getScheduleableOps hdeps).mpr ⟨hb, hnew, hready⟩⟩

end Graph

/-- What a schedule lists, whatever the dependencies of the function are. -/
structure Lists (unscheduledOps : Finset ℕ) (s : State) : Prop where
  nodup : s.schedule.Nodup
  subset : s.unscheduledOps ⊆ unscheduledOps
  scheduled : ∀ id ∈ s.schedule, id ∈ unscheduledOps ∧ id ∉ s.unscheduledOps

theorem Lists.scheduleOp {unscheduledOps : Finset ℕ} {s : State} (h : Lists unscheduledOps s)
    {op : ℕ} (hop : op ∈ s.getScheduleableOps) : Lists unscheduledOps (s.scheduleOp op) := by
  have hleft : op ∈ s.unscheduledOps := (Finset.mem_filter.mp hop).1
  refine ⟨?_, (Finset.erase_subset _ _).trans h.subset, fun id hid => ?_⟩
  · refine List.Nodup.append h.nodup (List.nodup_singleton op) ?_
    intro id hid hmem
    obtain rfl := List.mem_singleton.mp hmem
    exact (h.scheduled id hid).2 hleft
  · show id ∈ unscheduledOps ∧ id ∉ s.unscheduledOps.erase op
    rcases List.mem_append.mp hid with hid | hid
    · obtain ⟨hmem, hnot⟩ := h.scheduled id hid
      exact ⟨hmem, fun herase => hnot (Finset.mem_of_mem_erase herase)⟩
    · obtain rfl := List.mem_singleton.mp hid
      exact ⟨h.subset hleft, Finset.notMem_erase _ _⟩

/-- **Schedules list schedulable operations, each once.** -/
theorem schedule_of_reachable {ops : List (Op τ)} {s₀ s : State} (hinit : init ops = some s₀)
    (h : Reachable s₀ s) :
    s.schedule.Nodup ∧ ∀ id ∈ s.schedule, ∃ op ∈ ops, isTTSchedulableOp op ∧ op.id = id := by
  obtain ⟨dependencies, -, hinit⟩ := Option.bind_eq_some_iff.mp hinit
  obtain rfl := Option.some.inj hinit
  obtain ⟨saved, hrun⟩ := h
  set left := ((ops.filter fun op => isTTSchedulableOp op).map Operation.id).toFinset with hleft
  suffices hall : ∀ c, Relation.ReflTransGen Step (⟨∅, [], left, dependencies⟩, []) c →
      Lists left c.1 ∧ ∀ t ∈ c.2, Lists left t by
    have hlists := (hall _ hrun).1
    refine ⟨hlists.nodup, fun id hid => ?_⟩
    simpa [hleft, and_assoc] using (hlists.scheduled id hid).1
  intro c hc
  induction hc with
  | refl => exact ⟨⟨List.nodup_nil, Finset.Subset.refl _, by simp⟩, by simp⟩
  | tail _ hstep ih =>
    obtain ⟨hcurr, hsaved⟩ := ih
    cases hstep with
    | scheduleOp s saved op hop => exact ⟨hcurr.scheduleOp hop, hsaved⟩
    | snapshot s saved =>
      refine ⟨hcurr, fun t ht => ?_⟩
      rcases List.mem_cons.mp ht with rfl | ht
      · exact hcurr
      · exact hsaved t ht
    | restore s saved t ht => exact ⟨hsaved t ht, hsaved⟩

/-- **Necessity.**  If every client gets a correct schedule, schedulable operations have
results and data dependencies follow from recorded ones. -/
theorem generates_of_schedulesCorrectly (f : Func OpName τ) (h : SchedulesCorrectly f.ops) :
    (∀ op ∈ f.ops, isTTSchedulableOp op → 0 < op.numResults) ∧
      ∀ a ∈ f.ops, ∀ b ∈ f.ops, isTTSchedulableOp a → isTTSchedulableOp b →
        DependsOn f.ops b a → Relation.TransGen (Recorded f.ops) a.id b.id := by
  obtain ⟨s₀, hinit, hall⟩ := h
  have hres : ∀ op ∈ f.ops, isTTSchedulableOp op → 0 < op.numResults := by
    intro op hop hs
    by_contra hnone
    rw [init, foldlM_recordOp_eq_none f.ops hop hs hnone] at hinit
    simp at hinit
  refine ⟨hres, fun a ha b hb hsa hsb hdep => ?_⟩
  obtain ⟨dependencies, hinit', hdeps⟩ := init_eq_some f hres
  obtain rfl := Option.some.inj (hinit'.symm.trans hinit)
  have h₀ : Tracks f dependencies ⟨∅, [], schedulable f, dependencies⟩ :=
    ⟨rfl, by simp, rfl, DepGraph.Legal.nil⟩
  have hne : a.id ≠ b.id := by
    intro heq
    have hlt := index_lt_of_dependsOn f hdep
    rw [heq] at hlt
    exact lt_irrefl _ hlt
  have hbnode : b.id ∈ (graph f).nodes := (mem_schedulable f).mpr ⟨b, hb, hsb, rfl⟩
  -- a client can follow any legal order, so every complete one respects the dependency
  apply (DepGraph.before_in_every_complete_iff (G := graph f) hbnode hne).mp
  intro order hlegal hcomplete
  obtain ⟨s, hreach, rfl⟩ := reachable_of_legal h₀ rfl hdeps hlegal
  have htracks := tracks_of_reachable h₀ hdeps hreach
  have hdone : ¬ s.hasUnscheduledOps := by
    rw [htracks.hasUnscheduledOps_iff]
    exact fun h => h hcomplete
  exact ((hall s hreach).2 hdone).2.2.2 a ha b hb hsa hsb hdep

/-- **Sufficiency.**  If schedulable operations have results and data dependencies follow
from recorded ones, every client gets a correct schedule. -/
theorem schedulesCorrectly_of_generates (f : Func OpName τ)
    (hres : ∀ op ∈ f.ops, isTTSchedulableOp op → 0 < op.numResults)
    (hgen : ∀ a ∈ f.ops, ∀ b ∈ f.ops, isTTSchedulableOp a → isTTSchedulableOp b →
      DependsOn f.ops b a → Relation.TransGen (Recorded f.ops) a.id b.id) :
    SchedulesCorrectly f.ops := by
  obtain ⟨dependencies, hinit, hdeps⟩ := init_eq_some f hres
  have h₀ : Tracks f dependencies ⟨∅, [], schedulable f, dependencies⟩ :=
    ⟨rfl, by simp, rfl, DepGraph.Legal.nil⟩
  refine ⟨_, hinit, fun s hreach => ?_⟩
  have htracks := tracks_of_reachable h₀ hdeps hreach
  refine ⟨fun hleft => htracks.exists_scheduleable hdeps hleft, fun hdone => ?_⟩
  rw [htracks.hasUnscheduledOps_iff, not_not] at hdone
  refine ⟨htracks.legal.nodup, ?_, ?_, ?_⟩
  · intro op hop hs
    exact hdone op.id ((mem_schedulable f).mpr ⟨op, hop, hs, rfl⟩)
  · intro id hid
    exact (mem_schedulable f).mp (htracks.legal.subset id hid)
  · intro a ha b hb hsa hsb hdep
    have hbmem := hdone b.id ((mem_schedulable f).mpr ⟨b, hb, hsb, rfl⟩)
    exact htracks.legal.before_of_transGen hbmem (hgen a ha b hb hsa hsb hdep)

/-- **When schedules are correct.**  Every client of the scheduler of a function gets a
correct schedule exactly when every schedulable operation has a result and every data
dependency between schedulable operations follows from first results read by schedulable
operations. -/
theorem schedulesCorrectly_iff (f : Func OpName τ) :
    SchedulesCorrectly f.ops ↔
      (∀ op ∈ f.ops, isTTSchedulableOp op → 0 < op.numResults) ∧
        ∀ a ∈ f.ops, ∀ b ∈ f.ops, isTTSchedulableOp a → isTTSchedulableOp b →
          DependsOn f.ops b a → Relation.TransGen (Recorded f.ops) a.id b.id :=
  ⟨generates_of_schedulesCorrectly f, fun h => schedulesCorrectly_of_generates f h.1 h.2⟩

/-- A TTIR operation with two results, and one that reads the second of them. -/
def secondResult : Func OpName Unit where
  numArgs := 1
  ops := [⟨0, ⟨.ttir, "pooling"⟩, [.blockArg 0], [(), ()]⟩,
    ⟨1, ⟨.ttir, "exp"⟩, [.opResult 0 1], [()]⟩]
  returns := [.opResult 1 0]
  nodup := by decide
  dominated := by decide
  returns_mem := by decide

/-- The reader of the second result is handed out at once, before its producer. -/
theorem secondResult_not_schedulesCorrectly :
    (∃ s, init secondResult.ops = some s ∧ 1 ∈ s.getScheduleableOps) ∧
      ¬ SchedulesCorrectly secondResult.ops := by
  refine ⟨⟨_, rfl, by decide⟩, fun h => ?_⟩
  obtain ⟨-, hgen⟩ := generates_of_schedulesCorrectly secondResult h
  have hdep := hgen ⟨0, ⟨.ttir, "pooling"⟩, [.blockArg 0], [(), ()]⟩ (by decide)
    ⟨1, ⟨.ttir, "exp"⟩, [.opResult 0 1], [()]⟩ (by decide) (by decide) (by decide)
    (Relation.TransGen.single ⟨by decide, by decide, .opResult 0 1, by decide, by decide⟩)
  -- no recorded dependency leads to the reader
  have hno : ∀ c, ¬ Recorded secondResult.ops c 1 := by
    rintro c ⟨opA, -, opB, hB, -, hid, -, -, hread⟩
    rcases List.mem_cons.mp hB with rfl | hB
    · exact absurd hid (by decide)
    · obtain rfl := List.mem_singleton.mp hB
      exact absurd (List.mem_singleton.mp hread) (by simp)
  cases hdep with
  | single h => exact hno _ h
  | tail _ h => exact hno _ h

end Scheduler
