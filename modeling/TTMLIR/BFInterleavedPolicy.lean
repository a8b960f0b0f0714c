/-
# The breadth-first policy for L1

`BFInterleavedPolicy::run` of `BFInterleavedPolicy.cpp` schedules the operations of a function
and gives them interleaved L1 layouts while these fit.  It takes the schedulable operation that
changes the usage of L1 least, and gives the memory of an output back once all its users are
scheduled.

* `State`, `scheduleNext` : the loop; the order in which it sees the schedulable operations is
  that of a set of pointers, so any order;
* `discountReturns` : the uses by the terminator, at the end;
* `liveUsage`, `netChange` : what the usage, and a change of it, should be;
* `Accounts` : the usage is the live usage and fits, the change of the operation that is taken
  is smallest, and the usage ends at zero;
* `Tallies` : the map from operations to their usage holds the unscheduled uses;
* `accounts_of_reaches` : in every run whose steps avoid the wrap of unsigned differences and
  doubled last uses.
-/
import TTMLIR.OpConfig

namespace TTNN

open SSA Scheduler

/-! ## The policy -/

/-- `OpL1MemUsage`; a count of uses is never taken below zero. -/
structure OpL1MemUsage : Type where
  l1MemUsagePerUser : ℕ
  numOfUnscheduledUsers : ℕ
  deriving DecidableEq, Repr

/-- `OpL1MemSpec`, of which the policy sets the output layout. -/
structure OpL1MemSpec : Type where
  op : ℕ
  outputLayout : TTNNLayoutAttr
  deriving DecidableEq

/-- Unsigned 64 bit addition. -/
def addU64 (a b : ℕ) : ℕ := (a + b) % 2 ^ 64

/-- Unsigned 64 bit subtraction. -/
def subU64 (a b : ℕ) : ℕ := (a + (2 ^ 64 - b)) % 2 ^ 64

/-- `BFInterleavedPolicy`; the available size is three quarters of an unsigned 32 bit number,
rounded. -/
structure BFInterleavedPolicy : Type where
  legalConfigs : LegalConfigs
  availableL1CacheSize : ℕ
  availableL1CacheSize_le : availableL1CacheSize ≤ 2 ^ 32

namespace BFInterleavedPolicy

variable (policy : BFInterleavedPolicy) (f : FuncOp)

/-- `isAnalyzable`. -/
def isAnalyzable (op : ℕ) : Bool :=
  match policy.legalConfigs op with
  | none => false
  | some configs => 0 < configs.length

/-- `hasL1BufferType`. -/
def hasL1BufferType (op : ℕ) : Bool :=
  match policy.legalConfigs op with
  | none => false
  | some configs =>
    configs.any fun config => config.outputLayout.hasInterleavedL1TensorMemoryLayout

/-- `getL1InterleavedLayout`, which asserts that there is one. -/
def getL1InterleavedLayout (op : ℕ) : Option TTNNLayoutAttr :=
  ((policy.legalConfigs.lookup op).find? fun config =>
    config.outputLayout.hasInterleavedL1TensorMemoryLayout).map OpConfig.outputLayout

/-- `getOpOutputL1Usage(getL1InterleavedLayout(op))`. -/
def opOutputL1Usage (op : ℕ) : ℕ :=
  ((policy.getL1InterleavedLayout op).map getOpOutputL1Usage).getD 0

/-- The operations `walkOnAnalyzableOperands` calls back with, one for each operand. -/
def analyzableOperands (op : ℕ) : List ℕ :=
  ((f.operands op).filterMap getDefiningOp).filter fun operandOp => policy.isAnalyzable operandOp

/-- The loop of `run` for one function: its scheduler, the usage of L1 for each operation and
in total, and the specifications added to the last chain. -/
structure State : Type where
  scheduler : Scheduler.State
  currentL1UsagePerOp : AList fun _ : ℕ => OpL1MemUsage
  currentL1Usage : ℕ
  opL1MemSpecs : List OpL1MemSpec

/-- What the operands of an operation would free. -/
def deallocOfL1Mem (s : State) (op : ℕ) : ℕ :=
  (policy.analyzableOperands f op).foldl (fun dealloc operandOp =>
    match s.currentL1UsagePerOp.lookup operandOp with
    | none => dealloc
    | some usage =>
      addU64 dealloc
        ((if usage.numOfUnscheduledUsers = 1 then 1 else 0) * usage.l1MemUsagePerUser)) 0

/-- L1 when the output fits. -/
def opBufferType (s : State) (op : ℕ) : BufferType :=
  if policy.hasL1BufferType op ∧
      addU64 s.currentL1Usage (policy.opOutputL1Usage op) ≤ policy.availableL1CacheSize then .l1
  else .dram

/-- `allocOfL1Mem`. -/
def allocOfL1Mem (s : State) (op : ℕ) : ℕ :=
  if policy.opBufferType s op = .l1 then policy.opOutputL1Usage op else 0

/-- `changeInL1Usage`, unsigned. -/
def changeInL1Usage (s : State) (op : ℕ) : ℕ :=
  subU64 (policy.allocOfL1Mem s op) (policy.deallocOfL1Mem f s op)

/-- One schedulable operation against the best one so far. -/
def consider (s : State) (best : ℕ × Option (ℕ × BufferType)) (op : ℕ) :
    ℕ × Option (ℕ × BufferType) :=
  if policy.changeInL1Usage f s op < best.1 then
    (policy.changeInL1Usage f s op, some (op, policy.opBufferType s op))
  else best

/-- `nextOpForScheduling` with its buffer type, for the schedulable operations in some order;
`none` for the null pointer. -/
def nextOpForScheduling (s : State) (ops : List ℕ) : Option (ℕ × BufferType) :=
  (ops.foldl (policy.consider f s) (2 ^ 64 - 1, none)).2

/-- The output of an operation in L1. -/
def allocate (s : State) (op : ℕ) (layout : TTNNLayoutAttr) : State :=
  { s with
    opL1MemSpecs := s.opL1MemSpecs ++ [⟨op, layout⟩]
    currentL1UsagePerOp := s.currentL1UsagePerOp.insert op
      ⟨getOpOutputL1Usage layout, (f.getUsers op).length + (f.returnUses op).length⟩
    currentL1Usage := addU64 s.currentL1Usage (getOpOutputL1Usage layout) }

/-- One use of an operand is scheduled; the last one frees its memory. -/
def release (usage : (AList fun _ : ℕ => OpL1MemUsage) × ℕ) (operandOp : ℕ) :
    (AList fun _ : ℕ => OpL1MemUsage) × ℕ :=
  match usage.1.lookup operandOp with
  | none => usage
  | some opUsage =>
    if opUsage.numOfUnscheduledUsers - 1 = 0 then
      (usage.1.erase operandOp, subU64 usage.2 opUsage.l1MemUsagePerUser)
    else
      (usage.1.insert operandOp
        { opUsage with numOfUnscheduledUsers := opUsage.numOfUnscheduledUsers - 1 }, usage.2)

/-- The uses of the operands of an operation are scheduled, and with them the operation. -/
def scheduleUses (s : State) (op : ℕ) : State :=
  let usage := (policy.analyzableOperands f op).foldl release
    (s.currentL1UsagePerOp, s.currentL1Usage)
  { s with
    currentL1UsagePerOp := usage.1
    currentL1Usage := usage.2
    scheduler := s.scheduler.scheduleOp op }

/-- Schedule an operation with a buffer type. -/
def scheduleOp (s : State) (op : ℕ) (bufferType : BufferType) : Option State := do
  let s ← if bufferType = .l1 then (policy.getL1InterleavedLayout op).map (allocate f s op)
    else some s
  some (policy.scheduleUses f s op)

/-- One turn of the loop; `none` where a null pointer is followed. -/
def scheduleNext (s : State) (ops : List ℕ) : Option State := do
  let (op, bufferType) ← policy.nextOpForScheduling f s ops
  policy.scheduleOp f s op bufferType

/-- `numOfUnscheduledUsers -= 1` for each use by the terminator. -/
def discountUses (usagePerOp : AList fun _ : ℕ => OpL1MemUsage) (op : ℕ) :
    AList fun _ : ℕ => OpL1MemUsage :=
  match usagePerOp.lookup op with
  | none => usagePerOp
  | some usage =>
    usagePerOp.insert op { usage with
      numOfUnscheduledUsers := usage.numOfUnscheduledUsers - (f.returnUses op).length }

/-- `eraseableL1UsageOps`: one of them is erased. -/
def eraseUsage (usage : (AList fun _ : ℕ => OpL1MemUsage) × ℕ) (op : ℕ) :
    (AList fun _ : ℕ => OpL1MemUsage) × ℕ :=
  match usage.1.lookup op with
  | none => usage
  | some opUsage => (usage.1.erase op, subU64 usage.2 opUsage.l1MemUsagePerUser)

/-- After the loop: the uses by the terminator are discounted, and outputs without other
unscheduled users are freed. -/
def discountReturns (s : State) : (AList fun _ : ℕ => OpL1MemUsage) × ℕ :=
  let usagePerOp := s.currentL1UsagePerOp.keys.foldl (discountUses f) s.currentL1UsagePerOp
  let eraseableL1UsageOps := usagePerOp.keys.filter fun op =>
    (usagePerOp.lookup op).any fun usage => usage.numOfUnscheduledUsers = 0
  eraseableL1UsageOps.foldl eraseUsage (usagePerOp, s.currentL1Usage)

/-- The states of the loop, when the condition holds before every turn. -/
inductive Reaches (ok : State → Prop) : State → Prop
  | init {scheduler : Scheduler.State} (hinit : Scheduler.init f.body.ops = some scheduler) :
      Reaches ok ⟨scheduler, ∅, 0, []⟩
  | step {s s' : State} {ops : List ℕ} (before : Reaches ok s) (hok : ok s) (hnodup : ops.Nodup)
      (hops : ops.toFinset = s.scheduler.getScheduleableOps)
      (hstep : policy.scheduleNext f s ops = some s') : Reaches ok s'

/-! ## What is promised -/

/-- The operations that are scheduled in L1. -/
def State.l1Ops (s : State) : Finset ℕ := (s.opL1MemSpecs.map OpL1MemSpec.op).toFinset

/-- The uses of an operation by unscheduled users, the terminator among them. -/
def unscheduledUses (schedule : List ℕ) (op : ℕ) : ℕ :=
  (f.getUsers op).countP (fun use => use ∉ schedule) + (f.returnUses op).length

/-- The uses of `producer` by an operation. -/
def usesBy (op producer : ℕ) : ℕ := ((f.operands op).filterMap getDefiningOp).count producer

/-- The output sizes of the operations scheduled in L1 that have an unscheduled user. -/
def liveUsage (s : State) : ℕ :=
  ∑ op ∈ s.l1Ops with 0 < unscheduledUses f s.scheduler.schedule op, policy.opOutputL1Usage op

/-- What scheduling an operation allocates. -/
def allocated (s : State) (op : ℕ) : ℕ :=
  if policy.hasL1BufferType op ∧
      s.currentL1Usage + policy.opOutputL1Usage op ≤ policy.availableL1CacheSize then
    policy.opOutputL1Usage op
  else 0

/-- What scheduling an operation frees: the outputs whose unscheduled uses are all its own. -/
def freed (s : State) (op : ℕ) : ℕ :=
  ∑ producer ∈ s.l1Ops with 0 < unscheduledUses f s.scheduler.schedule producer ∧
      unscheduledUses f s.scheduler.schedule producer = usesBy f op producer,
    policy.opOutputL1Usage producer

/-- The net change in L1 usage, allocated minus freed. -/
def netChange (s : State) (op : ℕ) : ℤ := policy.allocated s op - policy.freed f s op

/-- **What the policy promises of a state of its loop.** -/
structure Accounts (s : State) : Prop where
  usage : s.currentL1Usage = policy.liveUsage f s
  le : s.currentL1Usage ≤ policy.availableL1CacheSize
  picks : s.scheduler.hasUnscheduledOps → ∀ ops : List ℕ, ops.Nodup →
    ops.toFinset = s.scheduler.getScheduleableOps →
    ∃ op s', policy.scheduleNext f s ops = some s' ∧
      s'.scheduler = s.scheduler.scheduleOp op ∧ op ∈ s.scheduler.getScheduleableOps ∧
      ∀ op' ∈ s.scheduler.getScheduleableOps, policy.netChange f s op ≤ policy.netChange f s op'
  ends : ¬ s.scheduler.hasUnscheduledOps → discountReturns f s = (∅, 0)

/-- Operations that may go to L1 are used, by the terminator or by schedulable operations that
read their first result. -/
structure Regular : Prop where
  used : ∀ op ∈ f.body.ops, isTTSchedulableOp op → policy.hasL1BufferType op.id →
    0 < unscheduledUses f [] op.id
  users : ∀ op ∈ f.body.ops, isTTSchedulableOp op → policy.hasL1BufferType op.id →
    ∀ use ∈ f.body.ops, ∀ v ∈ use.operands, getDefiningOp v = some op.id →
      v = .opResult op.id 0 ∧ isTTSchedulableOp use

/-- A state in which the comparison of unsigned changes is that of net changes: sizes do not
overflow; an operation that has all the last uses of an output uses it once; and no
schedulable operation frees more than it allocates, or all do, and one of them by more than a
byte. -/
structure Comparable (s : State) : Prop where
  fits : ∀ op ∈ s.scheduler.getScheduleableOps, policy.hasL1BufferType op →
    s.currentL1Usage + policy.opOutputL1Usage op < 2 ^ 64
  once : ∀ op ∈ s.scheduler.getScheduleableOps, ∀ producer ∈ s.l1Ops,
    0 < unscheduledUses f s.scheduler.schedule producer →
    unscheduledUses f s.scheduler.schedule producer = usesBy f op producer →
    usesBy f op producer = 1
  signs : (∀ op ∈ s.scheduler.getScheduleableOps, policy.freed f s op ≤ policy.allocated s op) ∨
    (∀ op ∈ s.scheduler.getScheduleableOps, policy.allocated s op < policy.freed f s op) ∧
      ∃ op ∈ s.scheduler.getScheduleableOps, policy.allocated s op + 1 < policy.freed f s op

end BFInterleavedPolicy

/-! ## Unsigned arithmetic -/

theorem addU64_of_lt {a b : ℕ} (h : a + b < 2 ^ 64) : addU64 a b = a + b := Nat.mod_eq_of_lt h

theorem subU64_of_le {a b : ℕ} (h : b ≤ a) (ha : a < 2 ^ 64) : subU64 a b = a - b := by
  unfold subU64
  omega

theorem subU64_of_lt {a b : ℕ} (h : a < b) (hb : b < 2 ^ 64) : subU64 a b = 2 ^ 64 - (b - a) := by
  unfold subU64
  omega

namespace BFInterleavedPolicy

variable {policy : BFInterleavedPolicy} {f : FuncOp}

/-! ## Uses -/

variable {op : ℕ}

section Uses

/-- The uses of an operation by another one. -/
theorem count_getUsers (op producer : ℕ) :
    (f.getUsers producer).count op = usesBy f op producer := by
  have hother : ∀ ops : List (Op ValueType), op ∉ ops.map Operation.id →
      (ops.flatMap fun use => (use.operands.filter fun v => getDefiningOp v = some producer).map
        fun _ => use.id).count op = 0 := by
    intro ops hops
    apply List.count_eq_zero_of_not_mem
    intro hmem
    obtain ⟨use, huse, hid⟩ := List.mem_flatMap.mp hmem
    obtain ⟨v, -, rfl⟩ := List.mem_map.mp hid
    exact hops (List.mem_map_of_mem huse)
  have hlength : ∀ operands : List Value,
      (operands.filter fun v => getDefiningOp v = some producer).length
        = (operands.filterMap getDefiningOp).count producer := by
    intro operands
    induction operands with
    | nil => rfl
    | cons v operands ih =>
      cases hdef : getDefiningOp v with
      | none => simp [hdef, ih]
      | some p =>
        by_cases hp : p = producer
        · subst hp
          simp [hdef, ih]
        · simp [hdef, ih, hp]
  unfold usesBy
  by_cases hop : op ∈ f.body.ops.map Operation.id
  · obtain ⟨o, ho, rfl⟩ := List.mem_map.mp hop
    rw [FuncOp.operands_of_mem ho]
    obtain ⟨pre, post, heq⟩ := List.append_of_mem ho
    have hnodup := f.body.nodup
    rw [heq, List.map_append, List.map_cons, List.nodup_append, List.nodup_cons] at hnodup
    obtain ⟨-, ⟨hpost, -⟩, hpre⟩ := hnodup
    have hpre' : o.id ∉ pre.map Operation.id := fun hmem => hpre _ hmem _ List.mem_cons_self rfl
    unfold FuncOp.getUsers
    rw [heq, List.flatMap_append, List.flatMap_cons, List.count_append, List.count_append,
      hother pre hpre', hother post hpost, List.map_const', List.count_replicate_self, hlength,
      Nat.zero_add, Nat.add_zero]
  · have hnone : f.operands op = [] := by
      have hget : f.getOp op = none := by
        rw [FuncOp.getOp, List.find?_eq_none]
        intro o ho hid
        exact hop (List.mem_map.mpr ⟨o, ho, by simpa using hid⟩)
      rw [FuncOp.operands, hget]
      rfl
    unfold FuncOp.getUsers
    rw [hother _ hop, hnone]
    rfl

variable {schedule : List ℕ}

/-- Scheduling an operation leaves the uses that are not its own. -/
theorem unscheduledUses_append (hnew : op ∉ schedule)
    (producer : ℕ) : unscheduledUses f (schedule ++ [op]) producer
      = unscheduledUses f schedule producer - usesBy f op producer := by
  have hsplit : ∀ users : List ℕ, users.countP (fun use => use ∉ schedule)
      = users.countP (fun use => use ∉ schedule ++ [op]) + users.count op := by
    intro users
    induction users with
    | nil => rfl
    | cons use users ih =>
      rw [List.countP_cons, List.countP_cons, List.count_cons, ih]
      by_cases huse : use = op
      · simp only [huse, hnew, List.mem_append, List.mem_singleton, or_true, not_true_eq_false,
          not_false_eq_true, decide_true, decide_false, Bool.false_eq_true, if_true, if_false,
          beq_self_eq_true]
        omega
      · by_cases hmem : use ∈ schedule
        · simp only [hmem, huse, List.mem_append, List.mem_singleton, true_or, not_true_eq_false,
            decide_false, Bool.false_eq_true, if_false, beq_iff_eq]
          omega
        · simp only [hmem, huse, List.mem_append, List.mem_singleton, or_self,
            not_false_eq_true, decide_true, if_true, beq_iff_eq, if_false]
          omega
  unfold unscheduledUses
  rw [hsplit, count_getUsers]
  omega

theorem usesBy_le (hnew : op ∉ schedule) (producer : ℕ) :
    usesBy f op producer ≤ unscheduledUses f schedule producer := by
  rw [← count_getUsers]
  unfold unscheduledUses
  apply le_trans _ (Nat.le_add_right _ _)
  rw [List.count_eq_countP]
  apply List.countP_mono_left
  intro use _ huse
  rw [beq_iff_eq] at huse
  subst huse
  simpa using hnew

theorem unscheduledUses_of_forall (h : ∀ use ∈ f.getUsers op, use ∉ schedule) :
    unscheduledUses f schedule op = (f.getUsers op).length + (f.returnUses op).length := by
  unfold unscheduledUses
  rw [List.countP_eq_length.mpr]
  intro use huse
  simpa using h use huse

/-- An operation with an L1 layout is analyzable. -/
theorem count_analyzableOperands {producer : ℕ} (h : policy.hasL1BufferType producer) (op : ℕ) :
    (policy.analyzableOperands f op).count producer = usesBy f op producer := by
  have hanalyzable : policy.isAnalyzable producer := by
    unfold hasL1BufferType at h
    unfold isAnalyzable
    cases hconfigs : policy.legalConfigs producer with
    | none => simp [hconfigs] at h
    | some configs =>
      rw [hconfigs] at h
      cases configs with
      | nil => simp at h
      | cons _ _ => simp
  exact List.count_filter hanalyzable

/-- There is an L1 layout when the policy says so. -/
theorem exists_layout (h : policy.hasL1BufferType op) :
    ∃ layout, policy.getL1InterleavedLayout op = some layout ∧
      policy.opOutputL1Usage op = getOpOutputL1Usage layout := by
  unfold hasL1BufferType at h
  cases hconfigs : policy.legalConfigs op with
  | none => simp [hconfigs] at h
  | some configs =>
    rw [hconfigs] at h
    obtain ⟨config, hfind⟩ := Option.isSome_iff_exists.mp (List.find?_isSome.mpr
      (List.any_eq_true.mp h))
    have hlayout : policy.getL1InterleavedLayout op = some config.outputLayout := by
      unfold getL1InterleavedLayout LegalConfigs.lookup
      rw [hconfigs, Option.getD_some, hfind]
      rfl
    refine ⟨config.outputLayout, hlayout, ?_⟩
    unfold opOutputL1Usage
    rw [hlayout]
    rfl

end Uses

/-! ## The map of usages -/

/-- The map has the operations with unscheduled uses, and the total is what they take. -/
structure Tallies (ops : Finset ℕ) (size uses : ℕ → ℕ)
    (usage : (AList fun _ : ℕ => OpL1MemUsage) × ℕ) : Prop where
  lookup : ∀ op, usage.1.lookup op =
    if op ∈ ops ∧ 0 < uses op then some ⟨size op, uses op⟩ else none
  total : usage.2 = ∑ op ∈ ops with 0 < uses op, size op

section Tallies

variable {ops : Finset ℕ} {size uses : ℕ → ℕ} {usage : (AList fun _ : ℕ => OpL1MemUsage) × ℕ}

section

variable (h : Tallies ops size uses usage)

include h

/-- A new output. -/
theorem Tallies.insert (hnew : op ∉ ops)
    (huses : 0 < uses op) (hfits : usage.2 + size op < 2 ^ 64) :
    Tallies (insert op ops) size uses
      (usage.1.insert op ⟨size op, uses op⟩, addU64 usage.2 (size op)) := by
  refine ⟨?_, ?_⟩
  · intro q
    by_cases hq : q = op
    · subst hq
      simp [huses]
    · rw [AList.lookup_insert_ne hq, h.lookup q]
      simp [hq]
  · show addU64 usage.2 (size op) = _
    rw [addU64_of_lt hfits, Finset.filter_insert, if_pos huses, Finset.sum_insert (by simp [hnew]),
      h.total, Nat.add_comm]

/-- Giving an output back. -/
theorem Tallies.erase (hlt : usage.2 < 2 ^ 64) (hop : op ∈ ops) (huses : 0 < uses op) :
    Tallies ops size (Function.update uses op 0) (usage.1.erase op, subU64 usage.2 (size op)) := by
  have hmem : op ∈ ops.filter fun q => 0 < uses q := Finset.mem_filter.mpr ⟨hop, huses⟩
  refine ⟨?_, ?_⟩
  · intro q
    by_cases hq : q = op
    · subst hq
      simp
    · rw [AList.lookup_erase_ne hq, h.lookup q, Function.update_of_ne hq]
  · have hrest : (ops.filter fun q => 0 < Function.update uses op 0 q)
        = (ops.filter fun q => 0 < uses q).erase op := by
      ext q
      by_cases hq : q = op
      · subst hq
        simp
      · simp [hq]
    have hsum := Finset.add_sum_erase _ size hmem
    show subU64 usage.2 (size op) = _
    rw [hrest, subU64_of_le (by rw [h.total, ← hsum]; exact Nat.le_add_right _ _) hlt, h.total,
      ← hsum]
    omega

/-- One use is scheduled. -/
theorem Tallies.release (hlt : usage.2 < 2 ^ 64) (huses : op ∈ ops → 0 < uses op) :
    Tallies ops size (Function.update uses op (uses op - 1)) (release usage op) ∧
      (release usage op).2 ≤ usage.2 := by
  by_cases hop : op ∈ ops
  · have hlookup : usage.1.lookup op = some ⟨size op, uses op⟩ := by
      rw [h.lookup op, if_pos ⟨hop, huses hop⟩]
    by_cases hlast : uses op - 1 = 0
    · -- the last use: its size is given back
      have hrelease : BFInterleavedPolicy.release usage op
          = (usage.1.erase op, subU64 usage.2 (size op)) := by
        unfold BFInterleavedPolicy.release
        rw [hlookup]
        exact if_pos hlast
      have hle : size op ≤ usage.2 := by
        rw [h.total]
        exact Finset.single_le_sum (fun _ _ => Nat.zero_le _)
          (Finset.mem_filter.mpr ⟨hop, huses hop⟩)
      rw [hrelease, hlast]
      refine ⟨h.erase hlt hop (huses hop), ?_⟩
      show subU64 usage.2 (size op) ≤ usage.2
      rw [subU64_of_le hle hlt]
      exact Nat.sub_le _ _
    · -- it has other uses left
      have hrelease : BFInterleavedPolicy.release usage op
          = (usage.1.insert op ⟨size op, uses op - 1⟩, usage.2) := by
        unfold BFInterleavedPolicy.release
        rw [hlookup]
        exact if_neg hlast
      rw [hrelease]
      refine ⟨⟨?_, ?_⟩, le_rfl⟩
      · intro q
        by_cases hq : q = op
        · subst hq
          simp [hop, Nat.pos_of_ne_zero hlast]
        · rw [AList.lookup_insert_ne hq, h.lookup q, Function.update_of_ne hq]
      · rw [h.total]
        apply congrArg (fun live : Finset ℕ => ∑ q ∈ live, size q)
        apply Finset.filter_congr
        intro q _
        by_cases hq : q = op
        · subst hq
          rw [Function.update_self]
          omega
        · rw [Function.update_of_ne hq]
  · -- it is not held in L1: nothing changes
    have hlookup : usage.1.lookup op = none := by
      rw [h.lookup op, if_neg fun hmem => hop hmem.1]
    have hrelease : BFInterleavedPolicy.release usage op = usage := by
      unfold BFInterleavedPolicy.release
      rw [hlookup]
    have hsame : ∀ q ∈ ops, Function.update uses op (uses op - 1) q = uses q := by
      intro q hq
      apply Function.update_of_ne
      rintro rfl
      exact hop hq
    rw [hrelease]
    refine ⟨⟨?_, ?_⟩, le_rfl⟩
    · intro q
      rw [h.lookup q]
      by_cases hq : q ∈ ops
      · rw [hsame q hq]
      · rw [if_neg fun hmem => hq hmem.1, if_neg fun hmem => hq hmem.1]
    · rw [h.total]
      apply congrArg (fun live : Finset ℕ => ∑ q ∈ live, size q)
      apply Finset.filter_congr
      intro q hq
      rw [hsame q hq]

/-- The uses of an operation are scheduled. -/
theorem Tallies.releaseAll (hlt : usage.2 < 2 ^ 64)
    {operands : List ℕ} (hcount : ∀ op ∈ ops, operands.count op ≤ uses op) :
    Tallies ops size (fun op => uses op - operands.count op)
        (operands.foldl BFInterleavedPolicy.release usage) ∧
      (operands.foldl BFInterleavedPolicy.release usage).2 ≤ usage.2 := by
  induction operands generalizing uses usage with
  | nil => exact ⟨h, le_rfl⟩
  | cons operand operands ih =>
    have hpos : operand ∈ ops → 0 < uses operand := by
      intro hmem
      have hle := hcount operand hmem
      rw [List.count_cons_self] at hle
      omega
    obtain ⟨hstep, hle⟩ := h.release hlt hpos
    have hcount' : ∀ op ∈ ops,
        operands.count op ≤ Function.update uses operand (uses operand - 1) op := by
      intro op hop
      have hle := hcount op hop
      by_cases heq : op = operand
      · subst heq
        rw [List.count_cons_self] at hle
        rw [Function.update_self]
        omega
      · rw [List.count_cons_of_ne (Ne.symm heq)] at hle
        rwa [Function.update_of_ne heq]
    obtain ⟨hrest, hle'⟩ := ih hstep (hle.trans_lt hlt) hcount'
    refine ⟨?_, hle'.trans hle⟩
    have huses : (fun op => uses op - (operand :: operands).count op)
        = fun op => Function.update uses operand (uses operand - 1) op - operands.count op := by
      funext op
      by_cases heq : op = operand
      · subst heq
        rw [List.count_cons_self, Function.update_self]
        omega
      · rw [List.count_cons_of_ne (Ne.symm heq), Function.update_of_ne heq]
    rw [huses]
    exact hrest

/-- Only the counts of the operations matter. -/
theorem Tallies.congr {uses' : ℕ → ℕ}
    (heq : ∀ op ∈ ops, uses' op = uses op) : Tallies ops size uses' usage := by
  refine ⟨?_, ?_⟩
  · intro op
    rw [h.lookup op]
    by_cases hop : op ∈ ops
    · rw [heq op hop]
    · rw [if_neg fun hmem => hop hmem.1, if_neg fun hmem => hop hmem.1]
  · rw [h.total]
    apply congrArg (fun live : Finset ℕ => ∑ q ∈ live, size q)
    apply Finset.filter_congr
    intro op hop
    rw [heq op hop]

end

end Tallies

/-! ## The choice -/

/-- The loop over the schedulable operations finds a smallest change below the bound it starts
from, if there is one. -/
theorem foldl_consider (s : State) (ops : List ℕ) (best : ℕ × Option (ℕ × BufferType)) :
    (ops.foldl (policy.consider f s) best = best ∧
        ∀ op ∈ ops, best.1 ≤ policy.changeInL1Usage f s op) ∨
      ∃ op ∈ ops, ops.foldl (policy.consider f s) best
          = (policy.changeInL1Usage f s op, some (op, policy.opBufferType s op)) ∧
        policy.changeInL1Usage f s op < best.1 ∧
        ∀ op' ∈ ops, policy.changeInL1Usage f s op ≤ policy.changeInL1Usage f s op' := by
  induction ops generalizing best with
  | nil => exact .inl ⟨rfl, by simp⟩
  | cons op ops ih =>
    rw [List.foldl_cons]
    by_cases hlt : policy.changeInL1Usage f s op < best.1
    · have hconsider : policy.consider f s best op
          = (policy.changeInL1Usage f s op, some (op, policy.opBufferType s op)) := if_pos hlt
      rw [hconsider]
      right
      rcases ih (policy.changeInL1Usage f s op, some (op, policy.opBufferType s op)) with
        ⟨heq, hmin⟩ | ⟨op', hop', heq, hlt', hmin⟩
      · refine ⟨op, List.mem_cons_self, heq, hlt, ?_⟩
        intro op' hop'
        rcases List.mem_cons.mp hop' with rfl | hop'
        · exact le_rfl
        · exact hmin op' hop'
      · refine ⟨op', List.mem_cons_of_mem _ hop', heq, hlt'.trans hlt, ?_⟩
        intro op'' hop''
        rcases List.mem_cons.mp hop'' with rfl | hop''
        · exact hlt'.le
        · exact hmin op'' hop''
    · have hconsider : policy.consider f s best op = best := if_neg hlt
      rw [hconsider]
      rcases ih best with ⟨heq, hmin⟩ | ⟨op', hop', heq, hlt', hmin⟩
      · left
        refine ⟨heq, ?_⟩
        intro op' hop'
        rcases List.mem_cons.mp hop' with rfl | hop'
        · exact not_lt.mp hlt
        · exact hmin op' hop'
      · right
        refine ⟨op', List.mem_cons_of_mem _ hop', heq, hlt', ?_⟩
        intro op'' hop''
        rcases List.mem_cons.mp hop'' with rfl | hop''
        · exact hlt'.le.trans (not_lt.mp hlt)
        · exact hmin op'' hop''

theorem foldl_addU64 {step : ℕ → ℕ → ℕ} {share : ℕ → ℕ}
    (hstep : ∀ sum operand, sum < 2 ^ 64 → step sum operand = addU64 sum (share operand))
    (operands : List ℕ) (start : ℕ) (h : start + (operands.map share).sum < 2 ^ 64) :
    operands.foldl step start = start + (operands.map share).sum := by
  induction operands generalizing start with
  | nil => rfl
  | cons operand operands ih =>
    rw [List.map_cons, List.sum_cons] at h ⊢
    rw [List.foldl_cons, hstep start operand (by omega), addU64_of_lt (by omega), ih _ (by omega)]
    omega

/-! ## The invariant -/

/-- What is known of a state of the loop. -/
structure Balanced (policy : BFInterleavedPolicy) (f : FuncOp) (s : State) : Prop where
  tracks : ∃ dependencies, (∀ a b, a ∈ dependencies b ↔ Recorded f.body.ops a b) ∧
    Tracks f.body dependencies s.scheduler
  l1 : ∀ op ∈ s.l1Ops, policy.hasL1BufferType op ∧ op ∈ s.scheduler.schedule
  tallies : Tallies s.l1Ops policy.opOutputL1Usage (unscheduledUses f s.scheduler.schedule)
    (s.currentL1UsagePerOp, s.currentL1Usage)
  le : s.currentL1Usage ≤ policy.availableL1CacheSize

section Balanced

variable {s : State}

theorem Balanced.lt (h : Balanced policy f s) : s.currentL1Usage < 2 ^ 64 :=
  (h.le.trans policy.availableL1CacheSize_le).trans_lt (by norm_num)

variable {op : ℕ}

theorem Balanced.notMem (h : Balanced policy f s)
    (hop : op ∈ s.scheduler.getScheduleableOps) : op ∉ s.scheduler.schedule := by
  obtain ⟨dependencies, hdeps, htracks⟩ := h.tracks
  exact ((htracks.mem_getScheduleableOps hdeps).mp hop).2.1

theorem Balanced.freed_le (h : Balanced policy f s) (op : ℕ) :
    policy.freed f s op ≤ s.currentL1Usage := by
  have htotal := h.tallies.total
  simp only at htotal
  rw [htotal]
  apply Finset.sum_le_sum_of_subset
  intro producer hmem
  obtain ⟨hl1, hpos, -⟩ := Finset.mem_filter.mp hmem
  exact Finset.mem_filter.mpr ⟨hl1, hpos⟩

/-- The operands that are counted as freed are those that are. -/
theorem Balanced.deallocOfL1Mem_eq (h : Balanced policy f s)
    (hop : op ∈ s.scheduler.getScheduleableOps)
    (honce : ∀ producer ∈ s.l1Ops, 0 < unscheduledUses f s.scheduler.schedule producer →
      unscheduledUses f s.scheduler.schedule producer = usesBy f op producer →
      usesBy f op producer = 1) :
    policy.deallocOfL1Mem f s op = policy.freed f s op := by
  have hnew := h.notMem hop
  -- what the loop adds for an operand
  let share : ℕ → ℕ := fun producer =>
    if producer ∈ s.l1Ops ∧ unscheduledUses f s.scheduler.schedule producer = 1 then
      policy.opOutputL1Usage producer
    else 0
  have hstep : ∀ dealloc producer, dealloc < 2 ^ 64 →
      (match s.currentL1UsagePerOp.lookup producer with
        | none => dealloc
        | some usage => addU64 dealloc
            ((if usage.numOfUnscheduledUsers = 1 then 1 else 0) * usage.l1MemUsagePerUser))
      = addU64 dealloc (share producer) := by
    intro dealloc producer hdealloc
    have hlookup := h.tallies.lookup producer
    simp only at hlookup
    rw [hlookup]
    by_cases hone : producer ∈ s.l1Ops ∧ unscheduledUses f s.scheduler.schedule producer = 1
    · simp [share, hone]
    · have hzero : share producer = 0 := if_neg hone
      rw [hzero, addU64_of_lt hdealloc]
      by_cases hlive : producer ∈ s.l1Ops ∧ 0 < unscheduledUses f s.scheduler.schedule producer
      · have hne : unscheduledUses f s.scheduler.schedule producer ≠ 1 :=
          fun heq => hone ⟨hlive.1, heq⟩
        simp only [if_pos hlive, if_neg hne, Nat.zero_mul]
        exact addU64_of_lt hdealloc
      · simp only [if_neg hlive, Nat.add_zero]
  have hcount : ∀ producer ∈ s.l1Ops,
      (policy.analyzableOperands f op).count producer = usesBy f op producer :=
    fun producer hmem => count_analyzableOperands (h.l1 producer hmem).1 op
  have hsum : ((policy.analyzableOperands f op).map share).sum = policy.freed f s op := by
    rw [Finset.sum_list_map_count]
    symm
    have hsub : (s.l1Ops.filter fun producer =>
        0 < unscheduledUses f s.scheduler.schedule producer ∧
          unscheduledUses f s.scheduler.schedule producer = usesBy f op producer)
        ⊆ (policy.analyzableOperands f op).toFinset := by
      intro producer hmem
      obtain ⟨hl1, hpos, heq⟩ := Finset.mem_filter.mp hmem
      rw [List.mem_toFinset, ← List.count_pos_iff, hcount producer hl1, ← heq]
      exact hpos
    rw [← Finset.sum_subset hsub]
    · apply Finset.sum_congr rfl
      intro producer hmem
      obtain ⟨hl1, hpos, heq⟩ := Finset.mem_filter.mp hmem
      have hone := honce producer hl1 hpos heq
      rw [hcount producer hl1, hone, one_smul]
      exact (if_pos ⟨hl1, heq.trans hone⟩).symm
    · intro producer hmem hnot
      -- an operand with one unscheduled use is used once, by this operation
      have hzero : share producer = 0 := by
        apply if_neg
        rintro ⟨hl1, hone⟩
        apply hnot
        have hle := usesBy_le (f := f) hnew producer
        have hpos := List.count_pos_iff.mpr (List.mem_toFinset.mp hmem)
        rw [hcount producer hl1] at hpos
        exact Finset.mem_filter.mpr ⟨hl1, by omega, by omega⟩
      rw [hzero, smul_zero]
  have hle := h.freed_le op
  have hlt := h.lt
  have hfold := foldl_addU64 hstep (policy.analyzableOperands f op) 0 (by omega)
  rw [hsum, Nat.zero_add] at hfold
  exact hfold

/-! ## One turn -/

/-- No user of an operation that is not scheduled is scheduled. -/
theorem Balanced.users_notMem (h : Balanced policy f s) (hregular : policy.Regular f)
    (hop : op ∈ s.scheduler.getScheduleableOps) (hl1 : policy.hasL1BufferType op) :
    ∀ use ∈ f.getUsers op, use ∉ s.scheduler.schedule := by
  intro use huse hmem
  obtain ⟨dependencies, hdeps, htracks⟩ := h.tracks
  obtain ⟨hs, hnew, -⟩ := (htracks.mem_getScheduleableOps hdeps).mp hop
  obtain ⟨o, ho, hschedulable, rfl⟩ := (mem_schedulable f.body).mp hs
  obtain ⟨v, hv, hdef⟩ := FuncOp.mem_getUsers.mp huse
  obtain ⟨u, hu, rfl, hvu⟩ := FuncOp.exists_of_mem_operands hv
  obtain ⟨rfl, hschedulable'⟩ := hregular.users o ho hschedulable hl1 u hu v hvu hdef
  have hdep : Recorded f.body.ops o.id u.id :=
    ⟨o, ho, u, hu, rfl, rfl, hschedulable, hschedulable', hvu⟩
  exact hnew (htracks.legal.mem_of_dep hmem hdep)

variable {usage : (AList fun _ : ℕ => OpL1MemUsage) × ℕ}

/-- The uses of the operation that is scheduled are released. -/
theorem tallies_schedule {ops : Finset ℕ} {schedule : List ℕ}
    (h : Tallies ops policy.opOutputL1Usage (unscheduledUses f schedule) usage)
    (hlt : usage.2 < 2 ^ 64) (hl1 : ∀ producer ∈ ops, policy.hasL1BufferType producer)
    (hnew : op ∉ schedule) :
    Tallies ops policy.opOutputL1Usage (unscheduledUses f (schedule ++ [op]))
        ((policy.analyzableOperands f op).foldl release usage) ∧
      ((policy.analyzableOperands f op).foldl release usage).2 ≤ usage.2 := by
  have hcount : ∀ producer ∈ ops,
      (policy.analyzableOperands f op).count producer ≤ unscheduledUses f schedule producer := by
    intro producer hmem
    rw [count_analyzableOperands (hl1 producer hmem)]
    exact usesBy_le hnew producer
  obtain ⟨hreleased, hle⟩ := h.releaseAll hlt hcount
  refine ⟨hreleased.congr ?_, hle⟩
  intro producer hmem
  rw [unscheduledUses_append hnew, count_analyzableOperands (hl1 producer hmem)]

/-- **One operation.**  Scheduling a schedulable operation with its buffer type keeps the
account. -/
theorem Balanced.scheduleOp (h : Balanced policy f s) (hregular : policy.Regular f)
    (hop : op ∈ s.scheduler.getScheduleableOps)
    (hfits : policy.hasL1BufferType op → s.currentL1Usage + policy.opOutputL1Usage op < 2 ^ 64) :
    ∃ s', policy.scheduleOp f s op (policy.opBufferType s op) = some s' ∧
      s'.scheduler = s.scheduler.scheduleOp op ∧ Balanced policy f s' := by
  obtain ⟨dependencies, hdeps, htracks⟩ := h.tracks
  obtain ⟨hs, hnew, -⟩ := (htracks.mem_getScheduleableOps hdeps).mp hop
  have htracks' := htracks.scheduleOp hdeps hop
  by_cases hl1 : policy.hasL1BufferType op ∧
      addU64 s.currentL1Usage (policy.opOutputL1Usage op) ≤ policy.availableL1CacheSize
  · obtain ⟨layout, hlayout, hsize⟩ := exists_layout hl1.1
    have hbuffer : policy.opBufferType s op = .l1 := if_pos hl1
    have hfit := hfits hl1.1
    have hfresh : op ∉ s.l1Ops := fun hmem => hnew (h.l1 op hmem).2
    have huses := unscheduledUses_of_forall (h.users_notMem hregular hop hl1.1)
    have hpos : 0 < unscheduledUses f s.scheduler.schedule op := by
      obtain ⟨o, ho, hschedulable, rfl⟩ := (mem_schedulable f.body).mp hs
      have hused := hregular.used o ho hschedulable hl1.1
      rw [unscheduledUses_of_forall (by simp)] at hused
      rw [huses]
      exact hused
    have htallies := h.tallies.insert hfresh hpos hfit
    have hl1' : ∀ producer ∈ insert op s.l1Ops, policy.hasL1BufferType producer := by
      intro producer hmem
      rcases Finset.mem_insert.mp hmem with rfl | hmem
      · exact hl1.1
      · exact (h.l1 producer hmem).1
    have hle : addU64 s.currentL1Usage (policy.opOutputL1Usage op) < 2 ^ 64 := by
      rw [addU64_of_lt hfit]
      exact hfit
    obtain ⟨hreleased, hle'⟩ := tallies_schedule htallies hle hl1' hnew
    have hops : ((s.opL1MemSpecs ++ [(⟨op, layout⟩ : OpL1MemSpec)]).map OpL1MemSpec.op).toFinset
        = insert op s.l1Ops := by
      rw [List.map_append, List.toFinset_append, Finset.union_comm]
      rfl
    refine ⟨policy.scheduleUses f (allocate f s op layout) op, ?_, rfl, ?_⟩
    · unfold BFInterleavedPolicy.scheduleOp
      rw [hbuffer, if_pos rfl, hlayout]
      rfl
    · rw [huses, hsize] at hreleased hle'
      refine ⟨⟨dependencies, hdeps, htracks'⟩, ?_, ?_, ?_⟩
      · intro p hp
        rw [State.l1Ops, scheduleUses, allocate, hops] at hp
        refine ⟨hl1' p hp, ?_⟩
        rcases Finset.mem_insert.mp hp with rfl | hp
        · exact List.mem_append_right _ (List.mem_singleton_self p)
        · exact List.mem_append_left _ (h.l1 p hp).2
      · rw [State.l1Ops, scheduleUses, allocate, hops]
        exact hreleased
      · apply hle'.trans
        rw [← hsize]
        exact hl1.2
  · have hbuffer : policy.opBufferType s op = .dram := if_neg hl1
    obtain ⟨hreleased, hle⟩ := tallies_schedule h.tallies h.lt (fun p hp => (h.l1 p hp).1) hnew
    refine ⟨policy.scheduleUses f s op, ?_, rfl, ?_⟩
    · unfold BFInterleavedPolicy.scheduleOp
      rw [hbuffer, if_neg (by decide)]
      rfl
    · exact ⟨⟨dependencies, hdeps, htracks'⟩,
        fun p hp => ⟨(h.l1 p hp).1, List.mem_append_left _ (h.l1 p hp).2⟩, hreleased,
        hle.trans h.le⟩

/-- The unsigned change of a schedulable operation, for operands with single last uses. -/
theorem Balanced.changeInL1Usage_eq (h : Balanced policy f s) (hcomparable : policy.Comparable f s)
    (hop : op ∈ s.scheduler.getScheduleableOps) :
    policy.changeInL1Usage f s op = subU64 (policy.allocated s op) (policy.freed f s op) := by
  have hbuffer : policy.allocOfL1Mem s op = policy.allocated s op := by
    unfold allocOfL1Mem allocated opBufferType
    by_cases hl1 : policy.hasL1BufferType op
    · rw [addU64_of_lt (hcomparable.fits op hop hl1)]
      by_cases hfits : s.currentL1Usage + policy.opOutputL1Usage op ≤ policy.availableL1CacheSize
      · simp [hl1, hfits]
      · simp [hl1, hfits]
    · simp [hl1]
  unfold changeInL1Usage
  rw [hbuffer, h.deallocOfL1Mem_eq hop (hcomparable.once op hop)]

theorem allocated_le (s : State) (op : ℕ) :
    policy.allocated s op ≤ policy.availableL1CacheSize := by
  unfold allocated
  split_ifs with hfits
  · exact (Nat.le_add_left _ _).trans hfits.2
  · exact Nat.zero_le _

/-- **The choice.**  Where changes are comparable, some operation is taken, and its net change
is smallest. -/
theorem Balanced.exists_pick (h : Balanced policy f s) (hregular : policy.Regular f)
    (hcomparable : policy.Comparable f s) (hleft : s.scheduler.hasUnscheduledOps) {ops : List ℕ}
    (hops : ops.toFinset = s.scheduler.getScheduleableOps) :
    ∃ op s', policy.scheduleNext f s ops = some s' ∧
      s'.scheduler = s.scheduler.scheduleOp op ∧ op ∈ s.scheduler.getScheduleableOps ∧
      (∀ op' ∈ s.scheduler.getScheduleableOps,
        policy.netChange f s op ≤ policy.netChange f s op') ∧ Balanced policy f s' := by
  have hmem : ∀ op, op ∈ ops ↔ op ∈ s.scheduler.getScheduleableOps := by
    intro op
    rw [← hops, List.mem_toFinset]
  have hbounds : ∀ op, policy.allocated s op ≤ 2 ^ 32 ∧ policy.freed f s op ≤ 2 ^ 32 := fun op =>
    ⟨(allocated_le s op).trans policy.availableL1CacheSize_le,
      ((h.freed_le op).trans h.le).trans policy.availableL1CacheSize_le⟩
  have hchange : ∀ op ∈ s.scheduler.getScheduleableOps,
      (policy.freed f s op ≤ policy.allocated s op →
        policy.changeInL1Usage f s op = policy.allocated s op - policy.freed f s op) ∧
      (policy.allocated s op < policy.freed f s op → policy.changeInL1Usage f s op
          = 2 ^ 64 - (policy.freed f s op - policy.allocated s op)) := by
    intro op hop
    obtain ⟨hallocated, hfreed⟩ := hbounds op
    rw [h.changeInL1Usage_eq hcomparable hop]
    exact ⟨fun hle => subU64_of_le hle (by omega), fun hlt => subU64_of_lt hlt (by omega)⟩
  -- some change is below the bound the search starts from
  have hsome : ∃ op ∈ ops, policy.changeInL1Usage f s op < 2 ^ 64 - 1 := by
    rcases hcomparable.signs with hle | ⟨hlt, op, hop, hfar⟩
    · obtain ⟨dependencies, hdeps, htracks⟩ := h.tracks
      obtain ⟨op, hop⟩ := htracks.exists_scheduleable hdeps hleft
      refine ⟨op, (hmem op).mpr hop, ?_⟩
      rw [(hchange op hop).1 (hle op hop)]
      have hbound := (hbounds op).1
      omega
    · refine ⟨op, (hmem op).mpr hop, ?_⟩
      rw [(hchange op hop).2 (hlt op hop)]
      have hbound := (hbounds op).2
      omega
  rcases @foldl_consider policy f s ops (2 ^ 64 - 1, none) with
    ⟨-, hnone⟩ | ⟨op, hop, hfold, -, hmin⟩
  · obtain ⟨op, hop, hlt⟩ := hsome
    exact absurd (hnone op hop) (not_le.mpr hlt)
  · have hop' := (hmem op).mp hop
    obtain ⟨s', hschedule, hscheduler, hbalanced⟩ :=
      h.scheduleOp hregular hop' (hcomparable.fits op hop')
    refine ⟨op, s', ?_, hscheduler, hop', ?_, hbalanced⟩
    · simp only [scheduleNext, nextOpForScheduling, hfold, bind, Option.bind_some]
      exact hschedule
    · intro other hother
      have hle := hmin other ((hmem other).mpr hother)
      have hbound := (hbounds other).2
      have hbound' := (hbounds op).2
      unfold netChange
      rcases hcomparable.signs with hsign | ⟨hsign, -⟩
      · rw [(hchange op hop').1 (hsign op hop'), (hchange other hother).1 (hsign other hother)]
          at hle
        have hfreed := hsign op hop'
        have hfreed' := hsign other hother
        omega
      · rw [(hchange op hop').2 (hsign op hop'), (hchange other hother).2 (hsign other hother)]
          at hle
        have hfreed := hsign op hop'
        have hfreed' := hsign other hother
        omega

/-! ## The end of the run -/

/-- The uses by the terminator are discounted everywhere. -/
theorem lookup_foldl_discountUses (ops : List ℕ) (hnodup : ops.Nodup)
    (usagePerOp : AList fun _ : ℕ => OpL1MemUsage) (op : ℕ) :
    (ops.foldl (discountUses f) usagePerOp).lookup op = if op ∈ ops then
      (usagePerOp.lookup op).map fun usage =>
        ⟨usage.l1MemUsagePerUser, usage.numOfUnscheduledUsers - (f.returnUses op).length⟩
      else usagePerOp.lookup op := by
  induction ops generalizing usagePerOp with
  | nil => rfl
  | cons head ops ih =>
    obtain ⟨hhead, hnodup⟩ := List.nodup_cons.mp hnodup
    have hdiscount : (discountUses f usagePerOp head).lookup op = if op = head then
        (usagePerOp.lookup op).map fun usage =>
          ⟨usage.l1MemUsagePerUser, usage.numOfUnscheduledUsers - (f.returnUses op).length⟩
        else usagePerOp.lookup op := by
      unfold discountUses
      cases hlookup : usagePerOp.lookup head with
      | none =>
        by_cases heq : op = head
        · subst heq
          simp [hlookup]
        · simp [heq]
      | some usage =>
        by_cases heq : op = head
        · subst heq
          simp [hlookup]
        · simp [heq]
    rw [List.foldl_cons, ih hnodup, hdiscount]
    by_cases heq : op = head
    · subst heq
      simp [hhead]
    · simp [heq]

/-- Outputs are erased one after the other. -/
theorem foldl_eraseUsage {live : Finset ℕ} {size : ℕ → ℕ}
    (hlookup : ∀ op, usage.1.lookup op = if op ∈ live then some ⟨size op, 0⟩ else none)
    (htotal : usage.2 = ∑ op ∈ live, size op) (hlt : usage.2 < 2 ^ 64) (ops : List ℕ) :
    (∀ op, (ops.foldl eraseUsage usage).1.lookup op
      = if op ∈ live \ ops.toFinset then some ⟨size op, 0⟩ else none) ∧
      (ops.foldl eraseUsage usage).2 = ∑ op ∈ live \ ops.toFinset, size op := by
  induction ops generalizing live usage with
  | nil => simpa using ⟨hlookup, htotal⟩
  | cons head ops ih =>
    rw [List.foldl_cons, List.toFinset_cons, Finset.sdiff_insert]
    by_cases hmem : head ∈ live
    · have hsum := Finset.add_sum_erase _ size hmem
      have herase : eraseUsage usage head = (usage.1.erase head, subU64 usage.2 (size head)) := by
        unfold eraseUsage
        rw [hlookup head, if_pos hmem]
      have htotal' : subU64 usage.2 (size head) = ∑ op ∈ live.erase head, size op := by
        rw [subU64_of_le (by rw [htotal, ← hsum]; exact Nat.le_add_right _ _) hlt, htotal, ← hsum]
        omega
      have hrest : ∀ op, (usage.1.erase head).lookup op
          = if op ∈ live.erase head then some ⟨size op, 0⟩ else none := by
        intro op
        by_cases heq : op = head
        · subst heq
          simp
        · rw [AList.lookup_erase_ne heq, hlookup op]
          simp [heq]
      have hsdiff : (live \ ops.toFinset).erase head = live.erase head \ ops.toFinset :=
        (Finset.erase_sdiff_comm live ops.toFinset head).symm
      rw [herase, hsdiff]
      apply ih hrest htotal'
      show subU64 usage.2 (size head) < 2 ^ 64
      exact Nat.mod_lt _ (by norm_num)
    · have hsame : eraseUsage usage head = usage := by
        unfold eraseUsage
        rw [hlookup head, if_neg hmem]
      have hsdiff : (live \ ops.toFinset).erase head = live \ ops.toFinset :=
        Finset.erase_eq_of_notMem fun h => hmem (Finset.mem_sdiff.mp h).1
      rw [hsame, hsdiff]
      exact ih hlookup htotal hlt

section

variable (h : Balanced policy f s) (hregular : policy.Regular f)

include h hregular

/-- At the end only the terminator uses outputs. -/
theorem Balanced.unscheduledUses_eq (hdone : ¬ s.scheduler.hasUnscheduledOps) (hop : op ∈ s.l1Ops) :
    unscheduledUses f s.scheduler.schedule op = (f.returnUses op).length := by
  obtain ⟨dependencies, hdeps, htracks⟩ := h.tracks
  have hcomplete : (graph f.body).Complete s.scheduler.schedule :=
    not_not.mp fun hnot => hdone (htracks.hasUnscheduledOps_iff.mpr hnot)
  obtain ⟨hl1, hmem⟩ := h.l1 op hop
  obtain ⟨o, ho, hschedulable, rfl⟩ := (mem_schedulable f.body).mp (htracks.legal.subset op hmem)
  unfold unscheduledUses
  rw [List.countP_eq_zero.mpr, Nat.zero_add]
  intro use huse
  obtain ⟨v, hv, hdef⟩ := FuncOp.mem_getUsers.mp huse
  obtain ⟨u, hu, rfl, hvu⟩ := FuncOp.exists_of_mem_operands hv
  have huse' := (hregular.users o ho hschedulable hl1 u hu v hvu hdef).2
  have hin := hcomplete u.id ((mem_schedulable f.body).mpr ⟨u, hu, huse', rfl⟩)
  simpa using hin

/-- **The end.**  After discounting the uses by the terminator nothing is left. -/
theorem Balanced.ends (hdone : ¬ s.scheduler.hasUnscheduledOps) : discountReturns f s = (∅, 0) := by
  have hlookup : ∀ op, s.currentL1UsagePerOp.lookup op =
      if op ∈ s.l1Ops ∧ 0 < unscheduledUses f s.scheduler.schedule op then
        some ⟨policy.opOutputL1Usage op, unscheduledUses f s.scheduler.schedule op⟩
      else none := h.tallies.lookup
  let live := s.l1Ops.filter fun op => 0 < unscheduledUses f s.scheduler.schedule op
  let usagePerOp := s.currentL1UsagePerOp.keys.foldl (discountUses f) s.currentL1UsagePerOp
  have hdiscounted : ∀ op, usagePerOp.lookup op
      = if op ∈ live then some ⟨policy.opOutputL1Usage op, 0⟩ else none := by
    intro op
    have hkeys : op ∈ s.currentL1UsagePerOp.keys ↔ (s.currentL1UsagePerOp.lookup op).isSome := by
      rw [AList.lookup_isSome]
      rfl
    show (s.currentL1UsagePerOp.keys.foldl (discountUses f) s.currentL1UsagePerOp).lookup op = _
    rw [lookup_foldl_discountUses s.currentL1UsagePerOp.keys s.currentL1UsagePerOp.keys_nodup]
    by_cases hlive : op ∈ s.l1Ops ∧ 0 < unscheduledUses f s.scheduler.schedule op
    · have hin : op ∈ live := Finset.mem_filter.mpr hlive
      have hsome := hlookup op
      rw [if_pos hlive] at hsome
      rw [if_pos (hkeys.mpr (by rw [hsome]; rfl)), hsome, if_pos hin, Option.map_some,
        h.unscheduledUses_eq hregular hdone hlive.1, Nat.sub_self]
    · have hout : op ∉ live := fun hmem => hlive (Finset.mem_filter.mp hmem)
      have hnone := hlookup op
      rw [if_neg hlive] at hnone
      rw [if_neg fun hmem => by simpa [hnone] using hkeys.mp hmem, hnone, if_neg hout]
  have hall : ∀ op ∈ live, op ∈ usagePerOp.keys.filter fun op =>
      (usagePerOp.lookup op).any fun usage => usage.numOfUnscheduledUsers = 0 := by
    intro op hop
    have hsome := hdiscounted op
    rw [if_pos hop] at hsome
    have hkey : op ∈ usagePerOp.keys := by
      have hisSome : (usagePerOp.lookup op).isSome := by
        rw [hsome]
        rfl
      exact AList.lookup_isSome.mp hisSome
    rw [List.mem_filter, hsome]
    exact ⟨hkey, rfl⟩
  have hstart : ∀ op, (usagePerOp, s.currentL1Usage).1.lookup op
      = if op ∈ live then some ⟨policy.opOutputL1Usage op, 0⟩ else none := hdiscounted
  obtain ⟨hrest, hzero⟩ := foldl_eraseUsage hstart h.tallies.total h.lt
    (usagePerOp.keys.filter fun op =>
      (usagePerOp.lookup op).any fun usage => usage.numOfUnscheduledUsers = 0)
  have hempty : live \ (usagePerOp.keys.filter fun op =>
      (usagePerOp.lookup op).any fun usage => usage.numOfUnscheduledUsers = 0).toFinset = ∅ := by
    rw [Finset.sdiff_eq_empty_iff_subset]
    intro op hop
    exact List.mem_toFinset.mpr (hall op hop)
  rw [hempty] at hrest hzero
  apply Prod.ext
  · apply AList.ext
    apply List.eq_nil_iff_forall_not_mem.mpr
    rintro ⟨op, usage⟩ hmem
    have hfound := AList.mem_lookup_iff.mpr hmem
    have hnone := hrest op
    rw [if_neg (Finset.notMem_empty op)] at hnone
    exact absurd (hnone.symm.trans hfound) (by simp)
  · exact hzero

/-! ## The run -/

/-- A turn of the loop keeps the account. -/
theorem Balanced.scheduleNext (hcomparable : policy.Comparable f s) {s' : State} {ops : List ℕ}
    (hops : ops.toFinset = s.scheduler.getScheduleableOps)
    (hstep : policy.scheduleNext f s ops = some s') : Balanced policy f s' := by
  by_cases hleft : s.scheduler.hasUnscheduledOps
  · obtain ⟨op, s'', hnext, -, -, -, hbalanced⟩ := h.exists_pick hregular hcomparable hleft hops
    rw [hnext] at hstep
    cases hstep
    exact hbalanced
  · -- nothing is left to take
    have hnone : ops = [] := by
      rw [← List.toFinset_eq_empty_iff, hops, Scheduler.State.getScheduleableOps]
      have hempty : s.scheduler.unscheduledOps = ∅ := by
        simpa [Scheduler.State.hasUnscheduledOps] using hleft
      rw [hempty]
      rfl
    rw [hnone] at hstep
    cases hstep

end

end Balanced

/-- The account when nothing is scheduled. -/
theorem balanced_init {scheduler : Scheduler.State}
    (hinit : Scheduler.init f.body.ops = some scheduler) :
    Balanced policy f ⟨scheduler, ∅, 0, []⟩ := by
  have hres : ∀ op ∈ f.body.ops, isTTSchedulableOp op → 0 < op.numResults := by
    intro op hop hs
    have hdialect := f.converted op hop
    simp only [isTTSchedulableOp, isTTNNScheduleableOp, isTTIRSchedulableOp, Bool.or_eq_true,
      Bool.and_eq_true, decide_eq_true_eq] at hs
    rcases hs with ⟨⟨⟨-, hpos⟩, -⟩, -⟩ | ⟨httir, -⟩
    · exact hpos
    · exact absurd httir hdialect
  obtain ⟨dependencies, hinit', hdeps⟩ := init_eq_some f.body hres
  obtain rfl := Option.some.inj (hinit'.symm.trans hinit)
  refine ⟨⟨dependencies, hdeps, ⟨rfl, by simp, rfl, .nil⟩⟩, ?_, ⟨?_, ?_⟩, Nat.zero_le _⟩
  · simp [State.l1Ops]
  · simp [State.l1Ops]
  · simp [State.l1Ops]

/-- **The accounting of the policy.**  Where the operations that may go to L1 are used by
schedulable operations and the terminator, in every run whose states have comparable changes,
every state reached accounts for L1. -/
theorem accounts_of_reaches {policy : BFInterleavedPolicy} {f : FuncOp} {s : State}
    (hregular : policy.Regular f) (h : policy.Reaches f (policy.Comparable f) s)
    (hs : policy.Comparable f s) : policy.Accounts f s := by
  have hbalanced : Balanced policy f s := by
    clear hs
    induction h with
    | init hinit => exact balanced_init hinit
    | step _ hok _ hops hstep ih => exact ih.scheduleNext hregular hok hops hstep
  refine ⟨hbalanced.tallies.total, hbalanced.le, ?_, hbalanced.ends hregular⟩
  intro hleft ops _ hops
  obtain ⟨op, s', hnext, hscheduler, hop, hmin, -⟩ := hbalanced.exists_pick hregular hs hleft hops
  exact ⟨op, s', hnext, hscheduler, hop, hmin⟩

/-! ## Two functions -/

/-- An interleaved L1 layout of a row of tiles on one core. -/
def rowOfL1Tiles (tiles : ℕ) : TTNNLayoutAttr where
  linear := ⟨2, 0, [MLIR.AffineExpr.dim 0, MLIR.AffineExpr.dim 1]⟩
  grid := [1, 1]
  memref := ⟨[1, tiles], .tile (.get .bfloat16), .l1⟩
  memLayout := some .interleaved
  verified := rfl

/-- One tile for the first operation and two for the third one; the second one stays in
DRAM. -/
def tilesPolicy : BFInterleavedPolicy where
  legalConfigs := fun op =>
    if op = 0 then some [⟨rowOfL1Tiles 1, none⟩]
    else if op = 2 then some [⟨rowOfL1Tiles 2, none⟩]
    else none
  availableL1CacheSize := 2 ^ 20
  availableL1CacheSize_le := by decide

/-- Two operations use the output of the first one. -/
def reuseFunc : FuncOp where
  constEval := false
  argTypes := [none]
  body :=
    { numArgs := 1
      ops := [⟨0, ⟨.ttnn, "relu"⟩, [.blockArg 0], [none]⟩,
        ⟨1, ⟨.ttnn, "exp"⟩, [.opResult 0 0], [none]⟩,
        ⟨2, ⟨.ttnn, "add"⟩, [.opResult 0 0, .opResult 1 0], [none]⟩]
      returns := [.opResult 2 0]
      nodup := by decide
      dominated := by decide
      returns_mem := by decide }
  numArgs_eq := rfl
  converted := by decide

/-- Two operations in a row, and another one on the argument. -/
def branchFunc : FuncOp where
  constEval := false
  argTypes := [none]
  body :=
    { numArgs := 1
      ops := [⟨0, ⟨.ttnn, "relu"⟩, [.blockArg 0], [none]⟩,
        ⟨1, ⟨.ttnn, "sum"⟩, [.opResult 0 0], [none]⟩,
        ⟨2, ⟨.ttnn, "exp"⟩, [.blockArg 0], [none]⟩]
      returns := [.opResult 1 0, .opResult 2 0]
      nodup := by decide
      dominated := by decide
      returns_mem := by decide }
  numArgs_eq := rfl
  converted := by decide

/-- The last operation frees the first output, and its own one stays. -/
theorem accounts_of_reaches_reuseFunc :
    ∃ s, s.currentL1Usage = 4096 ∧ ¬ s.scheduler.hasUnscheduledOps ∧
      tilesPolicy.Accounts reuseFunc s := by
  have hregular : tilesPolicy.Regular reuseFunc := ⟨by decide, by decide⟩
  have start : tilesPolicy.Reaches reuseFunc (tilesPolicy.Comparable reuseFunc)
      ⟨_, ∅, 0, []⟩ := .init rfl
  have relu := start.step ⟨by decide, by decide, .inl (by decide)⟩ (by decide : [0].Nodup)
    (by decide) rfl
  have exp := relu.step ⟨by decide, by decide, .inl (by decide)⟩ (by decide : [1].Nodup)
    (by decide) rfl
  have add := exp.step ⟨by decide, by decide, .inl (by decide)⟩ (by decide : [2].Nodup)
    (by decide) rfl
  exact ⟨_, by decide, by decide,
    accounts_of_reaches hregular add ⟨by decide, by decide, .inl (by decide)⟩⟩

/-- The third operation is taken although the second one gives memory back. -/
theorem branchFunc_not_accounts :
    ∃ s, tilesPolicy.Reaches branchFunc (fun _ => True) s ∧ s.currentL1Usage = 2048 ∧
      tilesPolicy.netChange branchFunc s 1 = -2048 ∧ tilesPolicy.netChange branchFunc s 2 = 4096 ∧
      ¬ tilesPolicy.Accounts branchFunc s := by
  have start : tilesPolicy.Reaches branchFunc (fun _ => True)
      ⟨⟨∅, [], {0, 1, 2}, Function.update (fun _ => []) 1 [0]⟩, ∅, 0, []⟩ := .init rfl
  have taken := start.step trivial (by decide : [0, 2].Nodup) (by decide) rfl
  refine ⟨_, taken, by decide, by decide, by decide, ?_⟩
  intro h
  obtain ⟨op, s', hnext, hscheduler, -, hmin⟩ := h.picks rfl [1, 2] (by decide) (by decide)
  have hthird := congrArg (Option.map fun s => s.scheduler.schedule) hnext
  rw [Option.map_some, hscheduler] at hthird
  have hop : [0, 2] = [0, op] := Option.some.inj hthird
  obtain rfl : 2 = op := by simpa using hop
  exact absurd (hmin 1 (by decide)) (by decide)

end BFInterleavedPolicy

end TTNN
