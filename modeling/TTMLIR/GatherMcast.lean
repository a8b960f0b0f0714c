/-
# The multicast gather handshake

`createGatherMcastDMA` of `GenericGenerateDatamovement.cpp` emits, on every core of a
reduction dimension, the code that gathers data on core zero and multicasts it to the
others, with two semaphores that are reset and reused in every iteration.

* `calculateGatherMcastArguments`, `createGatherMcastDMA` : the emitted code;
* `createGatherMcastDMA_row` : the code on the cores of one row;
* `State`, `Step` : the cores of a row running that code, with writes, increments and sets
  in flight and delivered in any order;
* `Inv`, `inv_of_reachable` : what holds in every reachable state;
* `handshakeSafe` : the handshake is safe for any number of receivers and iterations.
-/
import Mathlib

namespace GatherMcast

/-! ## The emitted code -/

/-- `IteratorType`. -/
inductive IteratorType : Type where
  | Parallel
  | Reduction
  deriving DecidableEq, Repr

/-- The two semaphores of a gather. -/
inductive Semaphore : Type where
  | receiversReady
  | senderFinished
  deriving DecidableEq, Repr

/-- An emitted operation, with the core coordinates it computes. -/
inductive Instr : Type where
  /-- `ttir.dma` of the operand through its indexing map into this core's buffer. -/
  | dmaGather
  /-- `ttir.dma` of this core's buffer to the buffers of a region of cores. -/
  | dmaMcast (core mcast : List ℕ)
  /-- `ttir.dma_wait` for the transaction issued before it. -/
  | dmaWait
  /-- `ttir.semaphore_wait` without a reset value. -/
  | semaphoreWait (sem : Semaphore) (value : ℕ)
  /-- `ttir.semaphore_set` on this core. -/
  | semaphoreSet (sem : Semaphore) (value : ℕ)
  /-- `ttir.semaphore_set` on a region of cores. -/
  | semaphoreSetMcast (sem : Semaphore) (value : ℕ) (core mcast : List ℕ)
  /-- `ttir.semaphore_inc` on one core. -/
  | semaphoreInc (sem : Semaphore) (value : ℕ) (core : List ℕ)
  deriving DecidableEq, Repr

/-- `ttir.semaphore_wait` with a reset value: a wait followed by a local set. -/
def semaphoreWaitReset (sem : Semaphore) (value resetValue : ℕ) : List Instr :=
  [.semaphoreWait sem value, .semaphoreSet sem resetValue]

/-- What `calculateGatherMcastArguments` computes, with the core indices of one core. -/
structure GatherMcastArguments : Type where
  coreIndex : List ℕ
  mcastShape : List ℕ
  mcastVolume : ℕ
  conditions : List Bool
  deriving DecidableEq, Repr

/-- `calculateGatherMcastArguments` on the core at coordinates `core`. -/
def calculateGatherMcastArguments :
    List IteratorType → List ℕ → List ℕ → GatherMcastArguments
  | .Parallel :: iterators, _ :: grid, core :: cores =>
    let rest := calculateGatherMcastArguments iterators grid cores
    { rest with coreIndex := core :: rest.coreIndex, mcastShape := 1 :: rest.mcastShape }
  | .Reduction :: iterators, gridDim :: grid, core :: cores =>
    let rest := calculateGatherMcastArguments iterators grid cores
    { coreIndex := 0 :: rest.coreIndex
      mcastShape := gridDim :: rest.mcastShape
      mcastVolume := gridDim * rest.mcastVolume
      conditions := decide (core = 0) :: rest.conditions }
  | _, _, _ => ⟨[], [], 1, []⟩

/-- `createGatherMcastDMA`: the code one core runs, or `none` where an assertion fails. -/
def createGatherMcastDMA (mcastIterators : List IteratorType) (grid core : List ℕ) :
    Option (List Instr) :=
  let args := calculateGatherMcastArguments mcastIterators grid core
  if 0 < args.mcastVolume then
    match args.conditions with
    | [true] => some
        ([.dmaGather, .dmaWait] ++
          semaphoreWaitReset .receiversReady (args.mcastVolume - 1) 0 ++
          [.dmaMcast args.coreIndex args.mcastShape, .dmaWait,
            .semaphoreSetMcast .senderFinished 1 args.coreIndex args.mcastShape])
    | [false] => some
        ([.semaphoreInc .receiversReady 1 args.coreIndex] ++
          semaphoreWaitReset .senderFinished 1 0)
    | _ => none
  else none

/-- A row of cores along the reduction dimension of a grid: the grid extents and core
coordinates of the parallel dimensions before and after it, and the number of receivers. -/
structure McastRow : Type where
  outerGrid : List ℕ
  innerGrid : List ℕ
  outer : List ℕ
  inner : List ℕ
  receivers : ℕ
  outer_length : outer.length = outerGrid.length
  inner_length : inner.length = innerGrid.length

namespace McastRow

variable (row : McastRow)

/-- The grid of the row. -/
def grid : List ℕ := row.outerGrid ++ (row.receivers + 1) :: row.innerGrid

/-- The iterators: one reduction dimension. -/
def mcastIterators : List IteratorType :=
  List.replicate row.outerGrid.length .Parallel ++
    .Reduction :: List.replicate row.innerGrid.length .Parallel

/-- The cores of the row, by their coordinate in the reduction dimension; core zero sends. -/
abbrev Core : Type := Fin (row.receivers + 1)

/-- The grid coordinates of a core of the row. -/
def coords (c : row.Core) : List ℕ := row.outer ++ c.val :: row.inner

/-- The cores of the row in the multicast region at `core` of shape `mcast`. -/
def region (core mcast : List ℕ) : Finset row.Core :=
  Finset.univ.filter fun c =>
    List.Forall₂ (fun x (r : ℕ × ℕ) => r.1 ≤ x ∧ x < r.1 + r.2) (row.coords c)
      (List.zip core mcast)

/-- The code of a core of the row. -/
def code (c : row.Core) : List Instr :=
  (createGatherMcastDMA row.mcastIterators row.grid (row.coords c)).getD []

/-- The extents of a multicast along the row. -/
def mcastShape : List ℕ :=
  List.replicate row.outer.length 1 ++ (row.receivers + 1) :: List.replicate row.inner.length 1

theorem arguments_parallel (grid core : List ℕ) (h : core.length = grid.length) :
    calculateGatherMcastArguments (List.replicate grid.length .Parallel) grid core
      = ⟨core, List.replicate core.length 1, 1, []⟩ := by
  induction grid generalizing core with
  | nil =>
    obtain rfl : core = [] := by simpa using h
    rfl
  | cons n grid ih =>
    cases core with
    | nil => simp at h
    | cons c core =>
      have hrest := ih core (by simpa using h)
      rw [List.length_cons, List.replicate_succ, calculateGatherMcastArguments, hrest]
      rfl

/-- The arguments on the cores of a row: the region starts at core zero and covers the row. -/
theorem arguments_eq (c : row.Core) :
    calculateGatherMcastArguments row.mcastIterators row.grid (row.coords c)
      = ⟨row.coords 0, row.mcastShape, row.receivers + 1, [decide (c.val = 0)]⟩ := by
  obtain ⟨outerGrid, innerGrid, outer, inner, receivers, houter, hinner⟩ := row
  simp only [mcastIterators, grid, coords, mcastShape] at *
  induction outerGrid generalizing outer with
  | nil =>
    obtain rfl : outer = [] := by simpa using houter
    simp [calculateGatherMcastArguments, arguments_parallel innerGrid inner hinner]
  | cons n outerGrid ih =>
    cases outer with
    | nil => simp at houter
    | cons a outer =>
      have hrest := ih outer (by simpa using houter)
      simp only [List.length_cons, List.replicate_succ, List.cons_append,
        calculateGatherMcastArguments, hrest]

/-- The multicast region of a row is the row. -/
theorem region_eq : row.region (row.coords 0) row.mcastShape = Finset.univ := by
  have hself : ∀ l : List ℕ, List.Forall₂ (fun x (r : ℕ × ℕ) => r.1 ≤ x ∧ x < r.1 + r.2) l
      (List.zip l (List.replicate l.length 1)) := by
    intro l
    induction l with
    | nil => exact List.Forall₂.nil
    | cons a l ih => exact List.Forall₂.cons ⟨le_refl _, by simp⟩ ih
  rw [region, Finset.filter_eq_self]
  intro c _
  rw [coords, coords, mcastShape, List.zip_append (by simp)]
  refine List.rel_append (hself _) (List.Forall₂.cons ?_ (hself _))
  simp only [Fin.val_zero]
  omega

theorem coords_injective : Function.Injective row.coords := by
  intro c c' h
  have := (List.append_inj' h (by simp)).2
  exact Fin.ext (List.cons.inj this).1

end McastRow

/-- **The code of a row.**  Core zero runs the sender's branch, the others the receivers'. -/
theorem createGatherMcastDMA_row (row : McastRow) (c : row.Core) :
    row.code c = if c = 0 then
      [.dmaGather, .dmaWait, .semaphoreWait .receiversReady row.receivers,
        .semaphoreSet .receiversReady 0, .dmaMcast (row.coords 0) row.mcastShape, .dmaWait,
        .semaphoreSetMcast .senderFinished 1 (row.coords 0) row.mcastShape]
    else
      [.semaphoreInc .receiversReady 1 (row.coords 0), .semaphoreWait .senderFinished 1,
        .semaphoreSet .senderFinished 0] := by
  rw [McastRow.code, createGatherMcastDMA, row.arguments_eq]
  by_cases hc : c = 0
  · simp [hc, semaphoreWaitReset]
  · have hval : c.val ≠ 0 := fun h => hc (Fin.ext h)
    simp [hc, hval, semaphoreWaitReset]

/-! ## Cores and signals -/

/-- What is in flight between cores: a write of the data of an iteration, or an update of a
semaphore. -/
inductive Message (ι : Type) : Type where
  | write (src dst : ι) (data : Option ℕ)
  | inc (sem : Semaphore) (dst : ι) (value : ℕ)
  | set (sem : Semaphore) (dst : ι) (value : ℕ)
  deriving DecidableEq

/-- The write comes from this core. -/
def Message.IsWriteOf {ι : Type} (c : ι) : Message ι → Prop
  | .write src _ _ => src = c
  | _ => False

instance {ι : Type} [DecidableEq ι] (c : ι) (m : Message ι) : Decidable (m.IsWriteOf c) := by
  cases m <;> unfold Message.IsWriteOf <;> infer_instance

/-- The cores of a row between two steps: for each core its iteration, its position in the
code, its semaphores and the iteration whose data its buffer holds; and the messages in
flight. -/
structure State (row : McastRow) : Type where
  iter : row.Core → ℕ
  pc : row.Core → ℕ
  sems : Semaphore → row.Core → ℕ
  buffer : row.Core → Option ℕ
  flight : Multiset (Message row.Core)

variable {row : McastRow}

/-- All cores at the start, semaphores at zero. -/
def State.initial (row : McastRow) : State row where
  iter _ := 0
  pc _ := 0
  sems _ _ := 0
  buffer _ := none
  flight := 0

/-- Move a core past the operation it is at; after the last one the next iteration starts. -/
def State.advance (s : State row) (c : row.Core) : State row :=
  if s.pc c + 1 < (row.code c).length then
    { s with pc := Function.update s.pc c (s.pc c + 1) }
  else
    { s with
      pc := Function.update s.pc c 0
      iter := Function.update s.iter c (s.iter c + 1) }

/-- The effect of an operation on the core that runs it; `none` while it blocks. -/
def State.exec (s : State row) (c : row.Core) : Instr → Option (State row)
  | .dmaGather => some { s with flight := .write c c (some (s.iter c)) ::ₘ s.flight }
  | .dmaMcast core mcast =>
    some { s with
      flight := s.flight + (row.region core mcast).val.map fun d => .write c d (s.buffer c) }
  | .dmaWait => if ∀ m ∈ s.flight, ¬ m.IsWriteOf c then some s else none
  | .semaphoreWait sem value => if s.sems sem c = value then some s else none
  | .semaphoreSet sem value =>
    some { s with sems := Function.update s.sems sem (Function.update (s.sems sem) c value) }
  | .semaphoreSetMcast sem value core mcast =>
    some { s with
      flight := s.flight + (row.region core mcast).val.map fun d => .set sem d value }
  | .semaphoreInc sem value core =>
    some { s with
      flight := s.flight +
        (Finset.univ.filter fun d => row.coords d = core).val.map fun d => .inc sem d value }

/-- One operation of a core that has iterations left. -/
def State.stepCore (iterations : ℕ) (s : State row) (c : row.Core) : Option (State row) :=
  if s.iter c < iterations then do
    let instr ← (row.code c)[s.pc c]?
    let s' ← s.exec c instr
    some (s'.advance c)
  else none

/-- A message arrives. -/
def State.deliver (s : State row) (m : Message row.Core) : State row :=
  match m with
  | .write _ dst data =>
    { s with buffer := Function.update s.buffer dst data, flight := s.flight.erase m }
  | .inc sem dst value =>
    { s with
      sems := Function.update s.sems sem
        (Function.update (s.sems sem) dst (s.sems sem dst + value))
      flight := s.flight.erase m }
  | .set sem dst value =>
    { s with
      sems := Function.update s.sems sem (Function.update (s.sems sem) dst value)
      flight := s.flight.erase m }

/-- Steps of the row: any core runs its next operation, or any message in flight arrives. -/
inductive Step (iterations : ℕ) : State row → State row → Prop where
  | core (s s' : State row) (c : row.Core) (h : s.stepCore iterations c = some s') :
      Step iterations s s'
  | deliver (s : State row) (m : Message row.Core) (h : m ∈ s.flight) :
      Step iterations s (s.deliver m)

/-- The states the row can reach. -/
def Reachable (iterations : ℕ) (s : State row) : Prop :=
  Relation.ReflTransGen (Step iterations) (State.initial row) s

/-- The operation a core is at. -/
def State.current (s : State row) (c : row.Core) : Option Instr := (row.code c)[s.pc c]?

/-- A core has run its `semaphore_inc` of iteration `i`. -/
def State.Announced (s : State row) (c : row.Core) (i : ℕ) : Prop :=
  i < s.iter c ∨ (s.iter c = i ∧ 1 ≤ s.pc c)

/-- **What the handshake has to guarantee**, over all runs with a number of iterations. -/
structure HandshakeSafe (row : McastRow) (iterations : ℕ) : Prop where
  /-- No receiver leaves an iteration before its buffer holds the data of that iteration. -/
  data_before_leave : ∀ s s' : State row, Reachable iterations s →
    ∀ c ≠ 0, s.stepCore iterations c = some s' → s'.iter c ≠ s.iter c →
      s.buffer c = some (s.iter c)
  /-- The sender is never at its multicast before every receiver announced the iteration. -/
  announced_before_write : ∀ s : State row, Reachable iterations s →
    ∀ core mcast, s.current 0 = some (.dmaMcast core mcast) →
      ∀ c ≠ 0, s.Announced c (s.iter 0)
  /-- Nothing arrives between a wait and its reset: the reset finds the awaited value. -/
  reset_awaited : ∀ s : State row, Reachable iterations s → ∀ c sem value resetValue,
    s.current c = some (.semaphoreSet sem resetValue) →
      (row.code c)[s.pc c - 1]? = some (.semaphoreWait sem value) → s.sems sem c = value
  /-- A set never arrives on a receiver that has not consumed the one before. -/
  set_consumed : ∀ s : State row, Reachable iterations s → ∀ c ≠ 0, ∀ sem value,
    Message.set sem c value ∈ s.flight → s.sems sem c = 0
  /-- Until every core has finished its iterations, some step is possible. -/
  no_deadlock : ∀ s : State row, Reachable iterations s → (∃ c, s.iter c < iterations) →
    ∃ s', Step iterations s s'

/-! ## What one operation does -/

/-- No write of the sender is in flight. -/
def State.NoWrites (s : State row) : Prop := ∀ m ∈ s.flight, ¬ m.IsWriteOf 0

theorem exec_inc (s : State row) (c : row.Core) :
    s.exec c (.semaphoreInc .receiversReady 1 (row.coords 0))
      = some { s with flight := .inc .receiversReady 0 1 ::ₘ s.flight } := by
  have htarget : (Finset.univ.filter fun d => row.coords d = row.coords 0) = {0} := by
    ext d
    simp [row.coords_injective.eq_iff]
  simp only [State.exec, htarget, Finset.singleton_val, Multiset.map_singleton]
  rw [add_comm, Multiset.singleton_add]

variable {iterations : ℕ}

/-- **The sender's operations**, one for each position in its code. -/
theorem stepCore_sender {s s' : State row}
    (h : s.stepCore iterations 0 = some s') : s.iter 0 < iterations ∧
    ((s.pc 0 = 0 ∧ s' = { s with
        flight := .write 0 0 (some (s.iter 0)) ::ₘ s.flight, pc := Function.update s.pc 0 1 }) ∨
      (s.pc 0 = 1 ∧ s.NoWrites ∧ s' = { s with pc := Function.update s.pc 0 2 }) ∨
      (s.pc 0 = 2 ∧ s.sems .receiversReady 0 = row.receivers ∧
        s' = { s with pc := Function.update s.pc 0 3 }) ∨
      (s.pc 0 = 3 ∧ s' = { s with
        sems := Function.update s.sems .receiversReady
          (Function.update (s.sems .receiversReady) 0 0), pc := Function.update s.pc 0 4 }) ∨
      (s.pc 0 = 4 ∧ s' = { s with
        flight := s.flight + Finset.univ.val.map fun d => .write 0 d (s.buffer 0)
        pc := Function.update s.pc 0 5 }) ∨
      (s.pc 0 = 5 ∧ s.NoWrites ∧ s' = { s with pc := Function.update s.pc 0 6 }) ∨
      (s.pc 0 = 6 ∧ s' = { s with
        flight := s.flight + Finset.univ.val.map fun d => .set .senderFinished d 1
        pc := Function.update s.pc 0 0
        iter := Function.update s.iter 0 (s.iter 0 + 1) })) := by
  unfold State.stepCore at h
  split_ifs at h with hiter
  refine ⟨hiter, ?_⟩
  rw [createGatherMcastDMA_row, if_pos rfl] at h
  simp only [Option.bind_eq_bind, Option.bind_eq_some_iff, Option.some.injEq] at h
  obtain ⟨instr, hinstr, t, hexec, rfl⟩ := h
  have hlen : s.pc 0 < 7 := by
    have := (List.getElem?_eq_some_iff.mp hinstr).1
    simpa using this
  interval_cases hpc : s.pc 0 <;>
    simp only [List.getElem?_cons_zero, List.getElem?_cons_succ, Option.some.injEq] at hinstr <;>
    subst hinstr <;>
    simp only [State.exec, row.region_eq, Option.some.injEq, Option.ite_none_right_eq_some]
      at hexec
  · subst hexec
    simp [State.advance, createGatherMcastDMA_row, hpc]
  · obtain ⟨hno, rfl⟩ := hexec
    simp [State.advance, createGatherMcastDMA_row, hpc, State.NoWrites]
    exact hno
  · obtain ⟨hready, rfl⟩ := hexec
    simp [State.advance, createGatherMcastDMA_row, hpc, hready]
  · subst hexec
    simp [State.advance, createGatherMcastDMA_row, hpc]
  · subst hexec
    simp [State.advance, createGatherMcastDMA_row, hpc]
  · obtain ⟨hno, rfl⟩ := hexec
    simp [State.advance, createGatherMcastDMA_row, hpc, State.NoWrites]
    exact hno
  · subst hexec
    simp [State.advance, createGatherMcastDMA_row, hpc]

variable {c : row.Core}

/-- **A receiver's operations**, one for each position in its code. -/
theorem stepCore_receiver {s s' : State row} (hc : c ≠ 0)
    (h : s.stepCore iterations c = some s') : s.iter c < iterations ∧
    ((s.pc c = 0 ∧ s' = { s with
        flight := .inc .receiversReady 0 1 ::ₘ s.flight, pc := Function.update s.pc c 1 }) ∨
      (s.pc c = 1 ∧ s.sems .senderFinished c = 1 ∧ s' = { s with pc := Function.update s.pc c 2 }) ∨
      (s.pc c = 2 ∧ s' = { s with
        sems := Function.update s.sems .senderFinished
          (Function.update (s.sems .senderFinished) c 0)
        pc := Function.update s.pc c 0
        iter := Function.update s.iter c (s.iter c + 1) })) := by
  unfold State.stepCore at h
  split_ifs at h with hiter
  refine ⟨hiter, ?_⟩
  rw [createGatherMcastDMA_row, if_neg hc] at h
  simp only [Option.bind_eq_bind, Option.bind_eq_some_iff, Option.some.injEq] at h
  obtain ⟨instr, hinstr, t, hexec, rfl⟩ := h
  have hlen : s.pc c < 3 := by
    have := (List.getElem?_eq_some_iff.mp hinstr).1
    simpa using this
  interval_cases hpc : s.pc c <;>
    simp only [List.getElem?_cons_zero, List.getElem?_cons_succ, Option.some.injEq] at hinstr <;>
    subst hinstr
  · rw [exec_inc, Option.some.injEq] at hexec
    subst hexec
    simp [State.advance, createGatherMcastDMA_row, hpc, hc]
  · simp only [State.exec, Option.some.injEq, Option.ite_none_right_eq_some] at hexec
    obtain ⟨hset, rfl⟩ := hexec
    simp [State.advance, createGatherMcastDMA_row, hpc, hc, hset]
  · simp only [State.exec, Option.some.injEq] at hexec
    subst hexec
    simp [State.advance, createGatherMcastDMA_row, hpc, hc]

/-! ## The invariant -/

/-- Sets of `senderFinished` in flight to a core. -/
def State.setsTo (s : State row) (c : row.Core) : ℕ :=
  s.flight.count (.set .senderFinished c 1)

/-- Increments of `receiversReady` in flight. -/
def State.incs (s : State row) : ℕ := s.flight.count (.inc .receiversReady 0 1)

/-- A receiver that has announced the sender's iteration. -/
def State.Waiting (s : State row) (c : row.Core) : Prop := s.iter c = s.iter 0 ∧ s.pc c = 1

/-- The receivers that have announced the sender's iteration. -/
def State.waiting (s : State row) : Finset row.Core :=
  Finset.univ.filter fun c => c ≠ 0 ∧ s.iter c = s.iter 0 ∧ s.pc c = 1

/-- A receiver still in the iteration before the sender's: the data has arrived, and the
set that releases it is in flight or on its semaphore. -/
structure State.Late (s : State row) (c : row.Core) : Prop where
  iter : s.iter c + 1 = s.iter 0
  data : s.buffer c = some (s.iter c)
  release : (s.pc c = 1 ∧ s.sems .senderFinished c + s.setsTo c = 1) ∨
    (s.pc c = 2 ∧ s.sems .senderFinished c = 1 ∧ s.setsTo c = 0)

/-- A receiver in the sender's iteration, with no release around. -/
structure State.OnTime (s : State row) (c : row.Core) : Prop where
  iter : s.iter c = s.iter 0
  pc : s.pc c = 0 ∨ s.pc c = 1
  sem : s.sems .senderFinished c = 0
  sets : s.setsTo c = 0

/-- The messages that can be in flight. -/
def State.Expected (s : State row) (m : Message row.Core) : Prop :=
  m = .inc .receiversReady 0 1 ∨ (∃ c, m = .set .senderFinished c 1) ∨
    ∃ d, m = .write 0 d (some (s.iter 0)) ∧ ((s.pc 0 = 1 ∧ d = 0) ∨ s.pc 0 = 5)

/-- The data of the sender's iteration is in a buffer or on its way there. -/
def State.Sent (s : State row) (c : row.Core) : Prop :=
  s.buffer c = some (s.iter 0) ∨ .write 0 c (some (s.iter 0)) ∈ s.flight

/-- **The invariant of the handshake.** -/
structure Inv (iterations : ℕ) (s : State row) : Prop where
  sender_pc : s.pc 0 ≤ 6
  sender_iter : s.iter 0 < iterations ∨ (s.iter 0 = iterations ∧ s.pc 0 = 0)
  expected : ∀ m ∈ s.flight, s.Expected m
  receiver : ∀ c ≠ 0, s.Late c ∨ s.OnTime c
  all_waiting : 3 ≤ s.pc 0 → ∀ c ≠ 0, s.Waiting c
  ready : s.sems .receiversReady 0 + s.incs = if s.pc 0 ≤ 3 then s.waiting.card else 0
  ready_full : s.pc 0 = 3 → s.sems .receiversReady 0 = row.receivers
  own_sent : s.pc 0 = 1 → s.Sent 0
  own_data : 2 ≤ s.pc 0 → s.buffer 0 = some (s.iter 0)
  all_sent : s.pc 0 = 5 → ∀ c ≠ 0, s.Sent c
  all_data : s.pc 0 = 6 → ∀ c ≠ 0, s.buffer c = some (s.iter 0)

variable {s : State row}

theorem mem_waiting : c ∈ s.waiting ↔ c ≠ 0 ∧ s.Waiting c := by
  simp [State.waiting, State.Waiting]

theorem card_waiting_le (s : State row) : s.waiting.card ≤ row.receivers := by
  have hsub : s.waiting ⊆ Finset.univ.erase 0 := fun c hc =>
    Finset.mem_erase.mpr ⟨(mem_waiting.mp hc).1, Finset.mem_univ c⟩
  calc s.waiting.card ≤ (Finset.univ.erase (0 : row.Core)).card := Finset.card_le_card hsub
    _ = row.receivers := by simp

theorem waiting_of_card (h : row.receivers ≤ s.waiting.card) : ∀ c ≠ 0, s.Waiting c := by
  intro c hc
  have hsub : s.waiting ⊆ Finset.univ.erase 0 := fun c hc =>
    Finset.mem_erase.mpr ⟨(mem_waiting.mp hc).1, Finset.mem_univ c⟩
  have heq := Finset.eq_of_subset_of_card_le hsub (by simpa using h)
  exact (mem_waiting.mp (heq ▸ Finset.mem_erase.mpr ⟨hc, Finset.mem_univ c⟩)).2

theorem waiting_congr {s s' : State row} (h0 : s'.iter 0 = s.iter 0)
    (h : ∀ c ≠ 0, s'.iter c = s.iter c ∧ s'.pc c = s.pc c) : s'.waiting = s.waiting := by
  ext c
  rw [mem_waiting, mem_waiting]
  refine and_congr_right fun hc => ?_
  rw [State.Waiting, State.Waiting, (h c hc).1, (h c hc).2, h0]

/-- The phase of a receiver depends on what it can see and what is on its way to it. -/
theorem receiver_congr {s s' : State row} (h : s.Late c ∨ s.OnTime c)
    (h0 : s'.iter 0 = s.iter 0) (hiter : s'.iter c = s.iter c) (hpc : s'.pc c = s.pc c)
    (hsem : s'.sems .senderFinished c = s.sems .senderFinished c)
    (hbuffer : s'.buffer c = s.buffer c) (hsets : s'.setsTo c = s.setsTo c) :
    s'.Late c ∨ s'.OnTime c := by
  rcases h with h | h
  · refine Or.inl ⟨?_, ?_, ?_⟩
    · rw [hiter, h0]
      exact h.iter
    · rw [hbuffer, hiter]
      exact h.data
    · rw [hpc, hsem, hsets]
      exact h.release
  · refine Or.inr ⟨?_, ?_, ?_, ?_⟩
    · rw [hiter, h0]
      exact h.iter
    · rw [hpc]
      exact h.pc
    · rw [hsem]
      exact h.sem
    · rw [hsets]
      exact h.sets

theorem inv_initial (row : McastRow) (iterations : ℕ) : Inv iterations (State.initial row) where
  sender_pc := Nat.zero_le _
  sender_iter := by
    rcases Nat.eq_zero_or_pos iterations with rfl | h
    · exact Or.inr ⟨rfl, rfl⟩
    · exact Or.inl h
  expected := by simp [State.initial]
  receiver c _ := Or.inr ⟨rfl, Or.inl rfl, rfl, rfl⟩
  all_waiting h := absurd h (by simp [State.initial])
  ready := by simp [State.initial, State.waiting, State.incs]
  ready_full h := absurd h (by simp [State.initial])
  own_sent h := absurd h (by simp [State.initial])
  own_data h := absurd h (by simp [State.initial])
  all_sent h := absurd h (by simp [State.initial])
  all_data h := absurd h (by simp [State.initial])

/-! ### Steps of the sender -/

section Sender

variable {iterations : ℕ} {s : State row}

theorem waiting_of_move (k : ℕ) :
    State.waiting { s with pc := Function.update s.pc 0 k } = s.waiting :=
  waiting_congr rfl fun _ hc => ⟨rfl, Function.update_of_ne hc ..⟩

theorem expected_of_noWrites {t : State row} (h : ∀ m ∈ s.flight, s.Expected m)
    (hno : s.NoWrites) : ∀ m ∈ s.flight, t.Expected m := by
  intro m hm
  rcases h m hm with rfl | hset | ⟨d, rfl, -⟩
  · exact Or.inl rfl
  · exact Or.inr (Or.inl hset)
  · exact absurd rfl (hno _ hm)

theorem noWrites_of_pc (h : ∀ m ∈ s.flight, s.Expected m) (h1 : s.pc 0 ≠ 1)
    (h5 : s.pc 0 ≠ 5) : s.NoWrites := by
  intro m hm hwrite
  rcases h m hm with rfl | ⟨c, rfl⟩ | ⟨d, rfl, ⟨hpc, -⟩ | hpc⟩
  · exact hwrite
  · exact hwrite
  · exact h1 hpc
  · exact h5 hpc

theorem data_of_sent {c : row.Core} (h : s.Sent c) (hno : s.NoWrites) :
    s.buffer c = some (s.iter 0) := by
  rcases h with h | h
  · exact h
  · exact absurd rfl (hno _ h)

section

variable (h : Inv iterations s) (hiter : s.iter 0 < iterations)

include h hiter

/-- The sender starts to gather. -/
theorem inv_gather (hpc : s.pc 0 = 0) :
    Inv iterations { s with
      flight := .write 0 0 (some (s.iter 0)) ::ₘ s.flight, pc := Function.update s.pc 0 1 } where
  sender_pc := by simp
  sender_iter := Or.inl hiter
  expected m hm := by
    rcases Multiset.mem_cons.mp hm with rfl | hm
    · exact Or.inr (Or.inr ⟨0, rfl, Or.inl ⟨by simp, rfl⟩⟩)
    · exact expected_of_noWrites (s := s) h.expected
        (noWrites_of_pc (s := s) h.expected (by omega) (by omega)) m hm
  receiver c hc := receiver_congr (h.receiver c hc) rfl rfl (Function.update_of_ne hc ..) rfl rfl
    (Multiset.count_cons_of_ne (by simp) _)
  all_waiting h3 := absurd h3 (by simp)
  ready := by
    have hready := h.ready
    rw [hpc] at hready
    have hincs : s.incs = Multiset.count (.inc .receiversReady 0 1)
        (.write 0 0 (some (s.iter 0)) ::ₘ s.flight) :=
      (Multiset.count_cons_of_ne (by simp) _).symm
    have hwaiting := (@waiting_congr _ s { s with
        flight := .write 0 0 (some (s.iter 0)) ::ₘ s.flight
        pc := Function.update s.pc 0 1 }) rfl
      fun c hc => ⟨rfl, Function.update_of_ne hc ..⟩
    rw [hwaiting, State.incs, ← hincs]
    simpa using hready
  ready_full h3 := absurd h3 (by simp)
  own_sent _ := Or.inr (Multiset.mem_cons_self _ _)
  own_data h2 := absurd h2 (by simp)
  all_sent h5 := absurd h5 (by simp)
  all_data h6 := absurd h6 (by simp)

/-- The gather has completed. -/
theorem inv_gathered (hpc : s.pc 0 = 1)
    (hno : s.NoWrites) : Inv iterations { s with pc := Function.update s.pc 0 2 } where
  sender_pc := by simp
  sender_iter := Or.inl hiter
  expected := expected_of_noWrites (s := s) h.expected hno
  receiver c hc := receiver_congr (h.receiver c hc) rfl rfl (Function.update_of_ne hc ..) rfl rfl
    rfl
  all_waiting h3 := absurd h3 (by simp)
  ready := by
    have hready := h.ready
    rw [hpc] at hready
    rw [waiting_of_move]
    simpa [State.incs] using hready
  ready_full h3 := absurd h3 (by simp)
  own_sent h1 := absurd h1 (by simp)
  own_data _ := data_of_sent (h.own_sent hpc) hno
  all_sent h5 := absurd h5 (by simp)
  all_data h6 := absurd h6 (by simp)

/-- The sender has seen every receiver ready. -/
theorem inv_received (hpc : s.pc 0 = 2) (hfull : s.sems .receiversReady 0 = row.receivers) :
    Inv iterations { s with pc := Function.update s.pc 0 3 } := by
  have hready := h.ready
  rw [hpc, if_pos (by omega), hfull] at hready
  have hall := waiting_of_card (s := s) (by omega)
  exact
    { sender_pc := by simp
      sender_iter := Or.inl hiter
      expected := expected_of_noWrites (s := s) h.expected
        (noWrites_of_pc (s := s) h.expected (by omega) (by omega))
      receiver := fun c hc => receiver_congr (h.receiver c hc) rfl rfl
        (Function.update_of_ne hc ..) rfl rfl rfl
      all_waiting := fun _ c hc =>
        ⟨(hall c hc).1, (Function.update_of_ne hc ..).trans (hall c hc).2⟩
      ready := by
        rw [waiting_of_move]
        simpa [hfull, State.incs] using hready
      ready_full := fun _ => hfull
      own_sent := fun h1 => absurd h1 (by simp)
      own_data := fun _ => h.own_data (by omega)
      all_sent := fun h5 => absurd h5 (by simp)
      all_data := fun h6 => absurd h6 (by simp) }

/-- The sender resets `receiversReady`. -/
theorem inv_resetReady (hpc : s.pc 0 = 3) :
    Inv iterations { s with
      sems := Function.update s.sems .receiversReady
        (Function.update (s.sems .receiversReady) 0 0), pc := Function.update s.pc 0 4 } where
  sender_pc := by simp
  sender_iter := Or.inl hiter
  expected := expected_of_noWrites (s := s) h.expected
    (noWrites_of_pc (s := s) h.expected (by omega) (by omega))
  receiver c hc := receiver_congr (h.receiver c hc) rfl rfl (Function.update_of_ne hc ..)
    (by simp) rfl rfl
  all_waiting _ c hc := ⟨(h.all_waiting (by omega) c hc).1,
      (Function.update_of_ne hc ..).trans (h.all_waiting (by omega) c hc).2⟩
  ready := by
    -- all receivers are counted, so no increment is in flight
    have hready := h.ready
    rw [hpc, if_pos (by omega), h.ready_full hpc] at hready
    have hle := card_waiting_le s
    have hincs : s.incs = 0 := by omega
    simpa [State.incs] using hincs
  ready_full h3 := absurd h3 (by simp)
  own_sent h1 := absurd h1 (by simp)
  own_data _ := h.own_data (by omega)
  all_sent h5 := absurd h5 (by simp)
  all_data h6 := absurd h6 (by simp)

end

theorem count_mcast (f : row.Core → Message row.Core) (hf : Function.Injective f)
    (c : row.Core) : (Finset.univ.val.map f).count (f c) = 1 := by
  rw [Multiset.count_map_eq_count' f _ hf]
  exact Multiset.count_eq_one_of_mem Finset.univ.nodup (Finset.mem_univ c)

section

variable (h : Inv iterations s) (hiter : s.iter 0 < iterations)

include h hiter

/-- The sender starts the multicast. -/
theorem inv_mcast (hpc : s.pc 0 = 4) :
    Inv iterations { s with
      flight := s.flight + Finset.univ.val.map fun d => .write 0 d (s.buffer 0)
      pc := Function.update s.pc 0 5 } := by
  have hdata := h.own_data (by omega)
  have hsets : ∀ m : Message row.Core, (∀ d data, m ≠ .write 0 d data) →
      (s.flight + Finset.univ.val.map fun d => Message.write 0 d (s.buffer 0)).count m
        = s.flight.count m := by
    intro m hm
    have hnone : (Finset.univ.val.map fun d => Message.write 0 d (s.buffer 0)).count m = 0 := by
      refine Multiset.count_eq_zero_of_notMem fun hmem => ?_
      obtain ⟨d, -, rfl⟩ := Multiset.mem_map.mp hmem
      exact hm d _ rfl
    rw [Multiset.count_add, hnone, Nat.add_zero]
  have hready := h.ready
  rw [hpc, if_neg (by omega)] at hready
  exact
    { sender_pc := by simp
      sender_iter := Or.inl hiter
      expected := by
        intro m hm
        rcases Multiset.mem_add.mp hm with hm | hm
        · exact expected_of_noWrites (s := s) h.expected
            (noWrites_of_pc (s := s) h.expected (by omega) (by omega)) m hm
        · obtain ⟨d, -, rfl⟩ := Multiset.mem_map.mp hm
          exact Or.inr (Or.inr ⟨d, by rw [hdata], Or.inr (by simp)⟩)
      receiver := fun c hc => receiver_congr (h.receiver c hc) rfl rfl
        (Function.update_of_ne hc ..) rfl rfl (hsets _ (by simp))
      all_waiting := fun _ c hc =>
        ⟨(h.all_waiting (by omega) c hc).1,
          (Function.update_of_ne hc ..).trans (h.all_waiting (by omega) c hc).2⟩
      ready := by
        simp only [State.incs, Function.update_self]
        rw [hsets _ (by simp)]
        exact hready
      ready_full := fun h3 => absurd h3 (by simp)
      own_sent := fun h1 => absurd h1 (by simp)
      own_data := fun _ => hdata
      all_sent := fun _ c _ => Or.inr (Multiset.mem_add.mpr (Or.inr (Multiset.mem_map.mpr
        ⟨c, Finset.mem_univ c, by rw [hdata]⟩)))
      all_data := fun h6 => absurd h6 (by simp) }

/-- The multicast has completed. -/
theorem inv_written (hpc : s.pc 0 = 5)
    (hno : s.NoWrites) : Inv iterations { s with pc := Function.update s.pc 0 6 } where
  sender_pc := by simp
  sender_iter := Or.inl hiter
  expected := expected_of_noWrites (s := s) h.expected hno
  receiver c hc := receiver_congr (h.receiver c hc) rfl rfl (Function.update_of_ne hc ..) rfl rfl
    rfl
  all_waiting _ c hc := ⟨(h.all_waiting (by omega) c hc).1,
      (Function.update_of_ne hc ..).trans (h.all_waiting (by omega) c hc).2⟩
  ready := by
    have hready := h.ready
    rw [hpc, if_neg (by omega)] at hready
    simpa [State.incs] using hready
  ready_full h3 := absurd h3 (by simp)
  own_sent h1 := absurd h1 (by simp)
  own_data _ := h.own_data (by omega)
  all_sent h5 := absurd h5 (by simp)
  all_data _ c hc := data_of_sent (h.all_sent hpc c hc) hno

/-- The sender releases the receivers and starts its next iteration. -/
theorem inv_setFinished (hpc : s.pc 0 = 6) :
    Inv iterations { s with
      flight := s.flight + Finset.univ.val.map fun d => .set .senderFinished d 1
      pc := Function.update s.pc 0 0
      iter := Function.update s.iter 0 (s.iter 0 + 1) } := by
  have hready := h.ready
  rw [hpc, if_neg (by omega)] at hready
  have hincs : (s.flight + Finset.univ.val.map fun d =>
      Message.set Semaphore.senderFinished d 1).count (Message.inc .receiversReady 0 1)
        = s.incs := by
    have hnone : (Finset.univ.val.map fun d : row.Core =>
        Message.set Semaphore.senderFinished d 1).count (Message.inc .receiversReady 0 1) = 0 := by
      refine Multiset.count_eq_zero_of_notMem fun hmem => ?_
      obtain ⟨d, -, heq⟩ := Multiset.mem_map.mp hmem
      simp at heq
    rw [Multiset.count_add, hnone]
    rfl
  exact
    { sender_pc := by simp
      sender_iter := by
        by_cases hlast : s.iter 0 + 1 < iterations
        · exact Or.inl (by simpa using hlast)
        · refine Or.inr ⟨?_, by simp⟩
          simp only [Function.update_self]
          omega
      expected := by
        intro m hm
        rcases Multiset.mem_add.mp hm with hm | hm
        · exact expected_of_noWrites (s := s) h.expected
            (noWrites_of_pc (s := s) h.expected (by omega) (by omega)) m hm
        · obtain ⟨d, -, rfl⟩ := Multiset.mem_map.mp hm
          exact Or.inr (Or.inl ⟨d, rfl⟩)
      receiver := by
        -- every receiver waits with an empty semaphore, and one set is sent to it
        intro c hc
        obtain ⟨hsame, hone⟩ := h.all_waiting (by omega) c hc
        have hon : s.OnTime c := by
          rcases h.receiver c hc with hlate | hon
          · have := hlate.iter
            omega
          · exact hon
        refine Or.inl ⟨?_, ?_, Or.inl ⟨?_, ?_⟩⟩
        · simp only [Function.update_of_ne hc, Function.update_self, hsame]
        · simp only [Function.update_of_ne hc, hsame]
          exact h.all_data hpc c hc
        · simp only [Function.update_of_ne hc]
          exact hone
        · have hcount := (@count_mcast row) (Message.set Semaphore.senderFinished · 1)
            (fun a b hab => by simpa using hab) c
          have hsets := hon.sets
          simp only [State.setsTo, Multiset.count_add, hcount] at hsets ⊢
          rw [hsets, hon.sem]
      all_waiting := fun h3 => absurd h3 (by simp)
      ready := by
        have hnone : State.waiting { s with
            flight := s.flight + Finset.univ.val.map fun d => .set .senderFinished d 1
            pc := Function.update s.pc 0 0
            iter := Function.update s.iter 0 (s.iter 0 + 1) } = ∅ := by
          rw [Finset.eq_empty_iff_forall_notMem]
          intro c hc
          obtain ⟨hne, hwait, -⟩ := mem_waiting.mp hc
          simp only [Function.update_of_ne hne, Function.update_self] at hwait
          have := (h.all_waiting (by omega) c hne).1
          omega
        rw [hnone, State.incs, hincs]
        simpa using hready
      ready_full := fun h3 => absurd h3 (by simp)
      own_sent := fun h1 => absurd h1 (by simp)
      own_data := fun h2 => absurd h2 (by simp)
      all_sent := fun h5 => absurd h5 (by simp)
      all_data := fun h6 => absurd h6 (by simp) }

end

end Sender

/-! ### Steps of a receiver -/

section Receiver

variable {iterations : ℕ} {s : State row} {c : row.Core}

/-- A step of a receiver, while the sender gathers and waits: what is left to show is where
the receivers are and how many of them are counted. -/
theorem Inv.of_early (h : Inv iterations s) {s' : State row} (hearly : s.pc 0 ≤ 2)
    (hpc : s'.pc 0 = s.pc 0) (hiter : s'.iter 0 = s.iter 0) (hbuffer : s'.buffer 0 = s.buffer 0)
    (hnew : ∀ m ∈ s'.flight, m = .inc .receiversReady 0 1 ∨ m ∈ s.flight)
    (hold : ∀ m ∈ s.flight, m ∈ s'.flight) (hreceiver : ∀ c ≠ 0, s'.Late c ∨ s'.OnTime c)
    (hready : s'.sems .receiversReady 0 + s'.incs = s'.waiting.card) : Inv iterations s' where
  sender_pc := by omega
  sender_iter := by
    rw [hpc, hiter]
    exact h.sender_iter
  expected m hm := by
    rcases hnew m hm with rfl | hm
    · exact Or.inl rfl
    · simpa only [State.Expected, hpc, hiter] using h.expected m hm
  receiver := hreceiver
  all_waiting h3 := absurd h3 (by omega)
  ready := by
    rw [if_pos (by omega)]
    exact hready
  ready_full h3 := absurd h3 (by omega)
  own_sent h1 := by
    rw [State.Sent, hbuffer, hiter]
    exact (h.own_sent (hpc.symm.trans h1)).imp id (hold _)
  own_data h2 := by
    rw [hbuffer, hiter]
    exact h.own_data (by omega)
  all_sent h5 := absurd h5 (by omega)
  all_data h6 := absurd h6 (by omega)

section

variable (h : Inv iterations s) (hc : c ≠ 0)

include h hc

theorem sender_early (hnot : ¬ s.Waiting c) : s.pc 0 ≤ 2 := by
  by_contra hlate
  exact hnot (h.all_waiting (by omega) c hc)

/-- A receiver announces that it is ready. -/
theorem inv_announce (hpc : s.pc c = 0) :
    Inv iterations { s with
      flight := .inc .receiversReady 0 1 ::ₘ s.flight, pc := Function.update s.pc c 1 } := by
  have hon : s.OnTime c := by
    rcases h.receiver c hc with ⟨-, -, ⟨h1, -⟩ | ⟨h2, -⟩⟩ | hon
    · omega
    · omega
    · exact hon
  have hnot : ¬ s.Waiting c := fun hw => by
    have := hw.2
    omega
  have hearly := sender_early h hc hnot
  have hp0 : Function.update s.pc c 1 0 = s.pc 0 := Function.update_of_ne hc.symm ..
  have hwaiting : State.waiting { s with
      flight := .inc .receiversReady 0 1 ::ₘ s.flight, pc := Function.update s.pc c 1 }
        = insert c s.waiting := by
    ext d
    rw [Finset.mem_insert, mem_waiting, mem_waiting, State.Waiting]
    by_cases hd : d = c
    · subst hd
      simp [hc, hon.iter]
    · simp [hd, State.Waiting]
  have hfresh : c ∉ s.waiting := fun hmem => hnot (mem_waiting.mp hmem).2
  refine h.of_early hearly hp0 rfl rfl (fun m => Multiset.mem_cons.mp)
    (fun m => Multiset.mem_cons_of_mem) ?_ ?_
  · intro d hd
    have hsets : ∀ d : row.Core, (Message.inc Semaphore.receiversReady 0 1 ::ₘ s.flight).count
        (.set .senderFinished d 1) = s.setsTo d := fun d =>
      Multiset.count_cons_of_ne (by simp) _
    by_cases hdc : d = c
    · subst hdc
      exact Or.inr ⟨hon.iter, Or.inr (Function.update_self ..), hon.sem, (hsets d).trans hon.sets⟩
    · exact receiver_congr (h.receiver d hd) rfl rfl (Function.update_of_ne hdc ..) rfl rfl (hsets d)
  · have hready := h.ready
    rw [if_pos (by omega)] at hready
    rw [hwaiting, Finset.card_insert_of_notMem hfresh]
    simp only [State.incs, Multiset.count_cons_self] at hready ⊢
    omega

/-- A receiver sees that the sender has finished. -/
theorem inv_released (hpc : s.pc c = 1) (hset : s.sems .senderFinished c = 1) :
    Inv iterations { s with pc := Function.update s.pc c 2 } := by
  have hlate : s.Late c := by
    rcases h.receiver c hc with hlate | hon
    · exact hlate
    · have := hon.sem
      omega
  have hiter := hlate.iter
  have hnot : ¬ s.Waiting c := fun hw => by
    have := hw.1
    omega
  have hearly := sender_early h hc hnot
  have hp0 : Function.update s.pc c 2 0 = s.pc 0 := Function.update_of_ne hc.symm ..
  have hwaiting : State.waiting { s with pc := Function.update s.pc c 2 } = s.waiting := by
    ext d
    rw [mem_waiting, mem_waiting, State.Waiting, State.Waiting]
    by_cases hd : d = c
    · subst hd
      simp only [Function.update_self]
      omega
    · simp [hd]
  refine h.of_early hearly hp0 rfl rfl (fun m => Or.inr) (fun m => id) ?_ ?_
  · intro d hd
    by_cases hdc : d = c
    · subst hdc
      refine Or.inl ⟨hlate.iter, hlate.data, Or.inr ⟨Function.update_self .., hset, ?_⟩⟩
      rcases hlate.release with ⟨-, hsum⟩ | ⟨-, -, hzero⟩
      · rw [hset] at hsum
        simp only [State.setsTo] at hsum ⊢
        omega
      · exact hzero
    · exact receiver_congr (h.receiver d hd) rfl rfl (Function.update_of_ne hdc ..) rfl rfl rfl
  · have hready := h.ready
    rw [if_pos (by omega)] at hready
    rw [hwaiting]
    exact hready

/-- A receiver resets `senderFinished` and starts its next iteration. -/
theorem inv_resetFinished (hpc : s.pc c = 2) :
    Inv iterations { s with
      sems := Function.update s.sems .senderFinished (Function.update (s.sems .senderFinished) c 0)
      pc := Function.update s.pc c 0
      iter := Function.update s.iter c (s.iter c + 1) } := by
  have hlate : s.Late c := by
    rcases h.receiver c hc with hlate | hon
    · exact hlate
    · have := hon.pc
      omega
  have hsets : s.setsTo c = 0 := by
    rcases hlate.release with ⟨h1, -⟩ | ⟨-, -, hzero⟩
    · omega
    · exact hzero
  have hnot : ¬ s.Waiting c := fun hw => by
    have := hw.2
    omega
  have hearly := sender_early h hc hnot
  have hp0 : Function.update s.pc c 0 0 = s.pc 0 := Function.update_of_ne hc.symm ..
  have hi0 : Function.update s.iter c (s.iter c + 1) 0 = s.iter 0 :=
    Function.update_of_ne hc.symm ..
  have hwaiting : State.waiting { s with
      sems := Function.update s.sems .senderFinished (Function.update (s.sems .senderFinished) c 0)
      pc := Function.update s.pc c 0
      iter := Function.update s.iter c (s.iter c + 1) } = s.waiting := by
    ext d
    rw [mem_waiting, mem_waiting, State.Waiting, State.Waiting]
    by_cases hd : d = c
    · subst hd
      simp [hpc]
    · simp [hd, hi0]
  refine h.of_early hearly hp0 hi0 rfl (fun m => Or.inr) (fun m => id) ?_ ?_
  · intro d hd
    by_cases hdc : d = c
    · subst hdc
      refine Or.inr ⟨?_, Or.inl (Function.update_self ..), by simp, hsets⟩
      simp only [Function.update_self, hi0]
      exact hlate.iter
    · exact receiver_congr (h.receiver d hd) hi0 (Function.update_of_ne hdc ..)
        (Function.update_of_ne hdc ..) (by simp [hdc]) rfl rfl
  · have hready := h.ready
    rw [if_pos (by omega)] at hready
    rw [hwaiting]
    simpa [State.incs] using hready

end

end Receiver

/-! ### Arrivals -/

section Arrival

variable {iterations : ℕ} {s : State row}

/-- A write arrives. -/
theorem inv_deliverWrite (h : Inv iterations s) {d : row.Core}
    (hm : .write 0 d (some (s.iter 0)) ∈ s.flight) (hcase : (s.pc 0 = 1 ∧ d = 0) ∨ s.pc 0 = 5) :
    Inv iterations (s.deliver (.write 0 d (some (s.iter 0)))) := by
  have hcount : ∀ m : Message row.Core, m ≠ .write 0 d (some (s.iter 0)) →
      (s.flight.erase (.write 0 d (some (s.iter 0)))).count m = s.flight.count m :=
    fun m hne => Multiset.count_erase_of_ne hne _
  have hbuffer : ∀ c, s.buffer c = some (s.iter 0) ∨ c = d →
      Function.update s.buffer d (some (s.iter 0)) c = some (s.iter 0) := by
    intro c hc
    by_cases hcd : c = d
    · rw [hcd, Function.update_self]
    · rw [Function.update_of_ne hcd]
      exact hc.resolve_right hcd
  have hsent : ∀ c, s.Sent c → (s.deliver (.write 0 d (some (s.iter 0)))).Sent c := by
    intro c hc
    by_cases hcd : c = d
    · exact Or.inl (hbuffer c (Or.inr hcd))
    · rcases hc with hc | hc
      · exact Or.inl (hbuffer c (Or.inl hc))
      · refine Or.inr ((Multiset.mem_erase_of_ne ?_).mpr hc)
        intro heq
        injection heq
        contradiction
  exact
    { sender_pc := h.sender_pc
      sender_iter := h.sender_iter
      expected := fun m hm => h.expected m (Multiset.mem_of_mem_erase hm)
      receiver := by
        intro c hc
        rcases hcase with ⟨-, rfl⟩ | h5
        · exact receiver_congr (h.receiver c hc) rfl rfl rfl rfl (Function.update_of_ne hc ..)
            (hcount _ (by simp))
        · -- all receivers wait, and what they do does not depend on their buffer
          have hwait := h.all_waiting (by omega) c hc
          rcases h.receiver c hc with hlate | hon
          · have := hlate.iter
            have := hwait.1
            omega
          · exact Or.inr ⟨hon.iter, hon.pc, hon.sem, (hcount _ (by simp)).trans hon.sets⟩
      all_waiting := h.all_waiting
      ready := by
        have hready := h.ready
        have hincs : (s.deliver (.write 0 d (some (s.iter 0)))).incs = s.incs := hcount _ (by simp)
        rw [hincs]
        exact hready
      ready_full := h.ready_full
      own_sent := fun h1 => hsent 0 (h.own_sent h1)
      own_data := fun h2 => hbuffer 0 (Or.inl (h.own_data h2))
      all_sent := fun h5 c hc => hsent c (h.all_sent h5 c hc)
      all_data := fun h6 c hc => hbuffer c (Or.inl (h.all_data h6 c hc)) }

/-- An increment of `receiversReady` arrives at the sender. -/
theorem inv_deliverInc (h : Inv iterations s) (hm : Message.inc .receiversReady 0 1 ∈ s.flight) :
    Inv iterations (s.deliver (.inc .receiversReady 0 1)) := by
  have hcount : ∀ m : Message row.Core, m ≠ .inc .receiversReady 0 1 →
      (s.flight.erase (.inc .receiversReady 0 1)).count m = s.flight.count m :=
    fun m hne => Multiset.count_erase_of_ne hne _
  have hpos : 0 < s.incs := Multiset.count_pos.mpr hm
  have hincs : (s.deliver (.inc .receiversReady 0 1)).incs = s.incs - 1 :=
    Multiset.count_erase_self _ _
  have hsem : (s.deliver (.inc .receiversReady 0 1)).sems .receiversReady 0
      = s.sems .receiversReady 0 + 1 := by
    simp [State.deliver]
  have hsent : ∀ c, s.Sent c → (s.deliver (.inc .receiversReady 0 1)).Sent c := fun c hc =>
    hc.imp id fun hc => (Multiset.mem_erase_of_ne (by simp)).mpr hc
  exact
    { sender_pc := h.sender_pc
      sender_iter := h.sender_iter
      expected := fun m hm => h.expected m (Multiset.mem_of_mem_erase hm)
      receiver := fun c hc => receiver_congr (h.receiver c hc) rfl rfl rfl
        (by simp [State.deliver]) rfl (hcount _ (by simp))
      all_waiting := h.all_waiting
      ready := by
        have hready := h.ready
        rw [hincs, hsem]
        show _ = if s.pc 0 ≤ 3 then s.waiting.card else 0
        omega
      ready_full := fun h3 => by
        -- with a full semaphore no increment is left in flight
        have h3' : s.pc 0 = 3 := h3
        have hready := h.ready
        rw [if_pos (by omega), h.ready_full h3'] at hready
        have := card_waiting_le s
        omega
      own_sent := fun h1 => hsent 0 (h.own_sent h1)
      own_data := h.own_data
      all_sent := fun h5 c hc => hsent c (h.all_sent h5 c hc)
      all_data := h.all_data }

/-- A set of `senderFinished` arrives. -/
theorem inv_deliverSet (h : Inv iterations s) {d : row.Core}
    (hm : Message.set .senderFinished d 1 ∈ s.flight) :
    Inv iterations (s.deliver (.set .senderFinished d 1)) := by
  have hcount : ∀ m : Message row.Core, m ≠ .set .senderFinished d 1 →
      (s.flight.erase (.set .senderFinished d 1)).count m = s.flight.count m :=
    fun m hne => Multiset.count_erase_of_ne hne _
  have hincs : (s.deliver (.set .senderFinished d 1)).incs = s.incs := hcount _ (by simp)
  have hsent : ∀ c, s.Sent c → (s.deliver (.set .senderFinished d 1)).Sent c := fun c hc =>
    hc.imp id fun hc => (Multiset.mem_erase_of_ne (by simp)).mpr hc
  exact
    { sender_pc := h.sender_pc
      sender_iter := h.sender_iter
      expected := fun m hm => h.expected m (Multiset.mem_of_mem_erase hm)
      receiver := by
        intro c hc
        by_cases hcd : c = d
        · -- only a late receiver with an empty semaphore is sent a set
          subst hcd
          have hpos : 0 < s.setsTo c := Multiset.count_pos.mpr hm
          have hsets : (s.deliver (.set .senderFinished c 1)).setsTo c = s.setsTo c - 1 :=
            Multiset.count_erase_self _ _
          rcases h.receiver c hc with hlate | hon
          · rcases hlate.release with ⟨h1, hsum⟩ | ⟨-, -, hzero⟩
            · refine Or.inl ⟨hlate.iter, hlate.data, Or.inl ⟨h1, ?_⟩⟩
              rw [hsets]
              simp only [State.deliver, Function.update_self]
              omega
            · omega
          · have := hon.sets
            omega
        · exact receiver_congr (h.receiver c hc) rfl rfl rfl (by simp [State.deliver, hcd]) rfl
            (hcount _ (by simpa using hcd))
      all_waiting := h.all_waiting
      ready := by
        have hready := h.ready
        have hsem : (s.deliver (.set .senderFinished d 1)).sems .receiversReady 0
            = s.sems .receiversReady 0 := by simp [State.deliver]
        rw [hincs, hsem]
        exact hready
      ready_full := fun h3 => by
        have hfull := h.ready_full h3
        simpa [State.deliver] using hfull
      own_sent := fun h1 => hsent 0 (h.own_sent h1)
      own_data := h.own_data
      all_sent := fun h5 c hc => hsent c (h.all_sent h5 c hc)
      all_data := h.all_data }

end Arrival

/-! ## Runs -/

/-- **Step lemma.**  Every step keeps the invariant. -/
theorem inv_step {s s' : State row} (h : Inv iterations s)
    (hstep : Step iterations s s') : Inv iterations s' := by
  cases hstep with
  | core _ c hcore =>
    by_cases hc : c = 0
    · subst hc
      obtain ⟨hiter, ⟨hpc, rfl⟩ | ⟨hpc, hno, rfl⟩ | ⟨hpc, hfull, rfl⟩ | ⟨hpc, rfl⟩ | ⟨hpc, rfl⟩ |
        ⟨hpc, hno, rfl⟩ | ⟨hpc, rfl⟩⟩ := stepCore_sender hcore
      · exact inv_gather h hiter hpc
      · exact inv_gathered h hiter hpc hno
      · exact inv_received h hiter hpc hfull
      · exact inv_resetReady h hiter hpc
      · exact inv_mcast h hiter hpc
      · exact inv_written h hiter hpc hno
      · exact inv_setFinished h hiter hpc
    · obtain ⟨-, ⟨hpc, rfl⟩ | ⟨hpc, hset, rfl⟩ | ⟨hpc, rfl⟩⟩ := stepCore_receiver hc hcore
      · exact inv_announce h hc hpc
      · exact inv_released h hc hpc hset
      · exact inv_resetFinished h hc hpc
  | deliver m hm =>
    rcases h.expected m hm with rfl | ⟨d, rfl⟩ | ⟨d, rfl, hcase⟩
    · exact inv_deliverInc h hm
    · exact inv_deliverSet h hm
    · exact inv_deliverWrite h hm hcase

/-- **Run lemma.**  The invariant holds in every reachable state. -/
theorem inv_of_reachable (h : Reachable iterations s) : Inv iterations s := by
  induction h with
  | refl => exact inv_initial row iterations
  | tail _ hstep ih => exact inv_step ih hstep

/-! ## The handshake is safe -/

theorem pc_of_mcast {core mcast : List ℕ}
    (h : s.current 0 = some (.dmaMcast core mcast)) : s.pc 0 = 4 := by
  rw [State.current, createGatherMcastDMA_row, if_pos rfl] at h
  have hlt := (List.getElem?_eq_some_iff.mp h).1
  simp only [List.length_cons, List.length_nil] at hlt
  interval_cases hpc : s.pc 0 <;> simp at h
  rfl

/-- The position of a reset, and what it resets. -/
theorem pc_of_reset {sem : Semaphore} {value resetValue : ℕ}
    (h : s.current c = some (.semaphoreSet sem resetValue))
    (hwait : (row.code c)[s.pc c - 1]? = some (.semaphoreWait sem value)) :
    (c = 0 ∧ s.pc c = 3 ∧ sem = .receiversReady ∧ value = row.receivers) ∨
      (c ≠ 0 ∧ s.pc c = 2 ∧ sem = .senderFinished ∧ value = 1) := by
  rw [State.current, createGatherMcastDMA_row] at h
  rw [createGatherMcastDMA_row] at hwait
  have hlt := (List.getElem?_eq_some_iff.mp h).1
  by_cases hc : c = 0
  · left
    rw [if_pos hc] at h hwait hlt
    simp only [List.length_cons, List.length_nil] at hlt
    interval_cases hpc : s.pc c <;> simp at h
    simp only [List.getElem?_cons_succ, List.getElem?_cons_zero, Option.some.injEq,
      Instr.semaphoreWait.injEq] at hwait
    exact ⟨hc, rfl, hwait.1.symm, hwait.2.symm⟩
  · right
    rw [if_neg hc] at h hwait hlt
    simp only [List.length_cons, List.length_nil] at hlt
    interval_cases hpc : s.pc c <;> simp at h
    simp only [List.getElem?_cons_succ, List.getElem?_cons_zero, Option.some.injEq,
      Instr.semaphoreWait.injEq] at hwait
    exact ⟨hc, rfl, hwait.1.symm, hwait.2.symm⟩

theorem can_step {instr : Instr} (hiter : s.iter c < iterations) (hcurr : s.current c = some instr)
    (hsome : (s.exec c instr).isSome) : ∃ s', Step iterations s s' := by
  obtain ⟨t, ht⟩ := Option.isSome_iff_exists.mp hsome
  refine ⟨t.advance c, Step.core s _ c ?_⟩
  have hcurr' : (row.code c)[s.pc c]? = some instr := hcurr
  simp [State.stepCore, hiter, hcurr', ht]

/-- A late receiver can move once nothing is in flight. -/
theorem late_can_step (hc : c ≠ 0)
    (hlate : s.Late c) (hiter : s.iter c < iterations) (hflight : s.flight = 0) :
    ∃ s', Step iterations s s' := by
  have hsets : s.setsTo c = 0 := by simp [State.setsTo, hflight]
  have hcode := createGatherMcastDMA_row row c
  rw [if_neg hc] at hcode
  rcases hlate.release with ⟨hpc, hsum⟩ | ⟨hpc, -, -⟩
  · have hsem : s.sems .senderFinished c = 1 := by omega
    refine (@can_step _ _ _ _ (.semaphoreWait .senderFinished 1)) hiter
      (by simp [State.current, hpc, hcode]) ?_
    rw [State.exec, if_pos hsem]
    rfl
  · exact (@can_step _ _ _ _ (.semaphoreSet .senderFinished 0)) hiter
      (by simp [State.current, hpc, hcode]) rfl

/-- **Progress.**  Until every core has finished, some core can step or some message can
arrive. -/
theorem exists_step (h : Inv iterations s)
    (hleft : ∃ c, s.iter c < iterations) : ∃ s', Step iterations s s' := by
  by_cases hflight : s.flight = 0
  · by_cases hiter : s.iter 0 < iterations
    · -- the sender has iterations left
      have hno : ∀ m ∈ s.flight, ¬ m.IsWriteOf 0 := by simp [hflight]
      have hmove : ∀ instr, s.current 0 = some instr → (s.exec 0 instr).isSome →
          ∃ s', Step iterations s s' := fun _ => can_step hiter
      have hpc := h.sender_pc
      have hcode := createGatherMcastDMA_row row 0
      rw [if_pos rfl] at hcode
      interval_cases hp : s.pc 0
      · exact hmove .dmaGather (by simp [State.current, hp, hcode]) rfl
      · exact hmove .dmaWait (by simp [State.current, hp, hcode]) (by
          rw [State.exec, if_pos hno]
          rfl)
      · -- the sender waits: either all receivers have announced, or one of them can move
        have hready := h.ready
        have hincs : s.incs = 0 := by simp [State.incs, hflight]
        rw [hp, if_pos (by omega), hincs, Nat.add_zero] at hready
        by_cases hall : ∀ c ≠ 0, s.Waiting c
        · have hcard : s.waiting.card = row.receivers := by
            have heq : s.waiting = Finset.univ.erase 0 := by
              ext c
              rw [mem_waiting, Finset.mem_erase]
              exact ⟨fun hc => ⟨hc.1, Finset.mem_univ c⟩, fun hc => ⟨hc.1, hall c hc.1⟩⟩
            rw [heq]
            simp
          exact hmove (.semaphoreWait .receiversReady row.receivers)
            (by simp [State.current, hp, hcode]) (by
            rw [State.exec, if_pos (hready.trans hcard)]
            rfl)
        · push Not at hall
          obtain ⟨c, hc, hnot⟩ := hall
          rcases h.receiver c hc with hlate | hon
          · have := hlate.iter
            exact late_can_step hc hlate (by omega) hflight
          · have hpc0 : s.pc c = 0 := hon.pc.resolve_right fun h1 => hnot ⟨hon.iter, h1⟩
            have hlt : s.iter c < iterations := by
              rw [hon.iter]
              exact hiter
            have hcodec := createGatherMcastDMA_row row c
            rw [if_neg hc] at hcodec
            exact (@can_step _ _ _ _ (.semaphoreInc .receiversReady 1 (row.coords 0))) hlt
              (by simp [State.current, hpc0, hcodec]) (by rw [exec_inc]; rfl)
      · exact hmove (.semaphoreSet .receiversReady 0) (by simp [State.current, hp, hcode]) rfl
      · exact hmove (.dmaMcast (row.coords 0) row.mcastShape)
          (by simp [State.current, hp, hcode]) rfl
      · exact hmove .dmaWait (by simp [State.current, hp, hcode]) (by
          rw [State.exec, if_pos hno]
          rfl)
      · exact hmove (.semaphoreSetMcast .senderFinished 1 (row.coords 0) row.mcastShape)
          (by simp [State.current, hp, hcode]) rfl
    · -- the sender has finished, so the remaining receivers are late
      obtain ⟨c, hlt⟩ := hleft
      have hc : c ≠ 0 := by
        rintro rfl
        exact hiter hlt
      rcases h.receiver c hc with hlate | hon
      · exact late_can_step hc hlate hlt hflight
      · have := hon.iter
        omega
  · obtain ⟨m, hm⟩ := Multiset.exists_mem_of_ne_zero hflight
    exact ⟨_, Step.deliver s m hm⟩

/-- **The handshake is safe** on every row of cores, for every number of iterations. -/
theorem handshakeSafe (row : McastRow) (iterations : ℕ) : HandshakeSafe row iterations where
  data_before_leave s s' hreach c hc hcore hleave := by
    have h := inv_of_reachable hreach
    obtain ⟨-, ⟨-, rfl⟩ | ⟨-, -, rfl⟩ | ⟨hpc, rfl⟩⟩ := stepCore_receiver hc hcore
    · exact absurd rfl hleave
    · exact absurd rfl hleave
    · rcases h.receiver c hc with hlate | hon
      · exact hlate.data
      · have := hon.pc
        omega
  announced_before_write s hreach core mcast hcurr c hc := by
    have h := inv_of_reachable hreach
    have hwait := h.all_waiting (by rw [pc_of_mcast hcurr]; omega) c hc
    exact Or.inr ⟨hwait.1, hwait.2.ge⟩
  reset_awaited s hreach c sem value resetValue hcurr hwait := by
    have h := inv_of_reachable hreach
    rcases pc_of_reset hcurr hwait with ⟨rfl, hpc, rfl, rfl⟩ | ⟨hc, hpc, rfl, rfl⟩
    · exact h.ready_full hpc
    · rcases h.receiver c hc with hlate | hon
      · rcases hlate.release with ⟨h1, -⟩ | ⟨-, hsem, -⟩
        · omega
        · exact hsem
      · have := hon.pc
        omega
  set_consumed s hreach c hc sem value hm := by
    have h := inv_of_reachable hreach
    obtain ⟨rfl, rfl⟩ : sem = .senderFinished ∧ value = 1 := by
      rcases h.expected _ hm with heq | ⟨d, heq⟩ | ⟨d, heq, -⟩
      · cases heq
      · cases heq
        exact ⟨rfl, rfl⟩
      · cases heq
    have hpos : 0 < s.setsTo c := Multiset.count_pos.mpr hm
    rcases h.receiver c hc with hlate | hon
    · rcases hlate.release with ⟨-, hsum⟩ | ⟨-, -, hzero⟩
      · omega
      · omega
    · exact hon.sem
  no_deadlock s hreach hleft := exists_step (inv_of_reachable hreach) hleft

end GatherMcast
