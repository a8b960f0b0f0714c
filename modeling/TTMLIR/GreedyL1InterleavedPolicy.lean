/-
# The greedy policy for interleaved L1

`GreedyL1InterleavedPolicy::getGreedyConfig` decides, for an operation, which of its operands
(and whether its own result) are held in L1.  It tries every subset of them, and for each subset
every order of its operands.

* `optimalOrder`, `visitMask`, `tryMask`, `getGreedyConfig` : the search;
* `peak`, `total`, `Fits` : when a subset fits, over the natural numbers;
* `Optimal` : what the search is for;
* `FindsOptimum` : when it achieves it;
* `succeeds_findsOptimum` : the two are the same where no sum overflows.

An order is only kept when it needs strictly less than what is available; a choice is only made
when a subset takes something; masks are counted up to a shifted `int`.
-/
import TTMLIR.BFInterleavedPolicy
import TTMLIR.ExhaustiveSearch

namespace TTNN

/-! ## The search -/

/-- `L1Usage`, of two `size_t`s. -/
structure L1Usage : Type where
  outputL1Usage : ℕ
  requiredL1Usage : ℕ
  output_lt : outputL1Usage < 2 ^ 64
  required_lt : requiredL1Usage < 2 ^ 64

/-- `GreedyL1InterleavedPolicy`; the available size is three quarters of an unsigned 32 bit
number, rounded. -/
structure GreedyL1InterleavedPolicy : Type where
  legalConfigs : LegalConfigs
  availableL1CacheSize : ℕ
  availableL1CacheSize_le : availableL1CacheSize ≤ 2 ^ 32

namespace GreedyL1InterleavedPolicy

variable (policy : GreedyL1InterleavedPolicy)

/-- The first legal configuration with a property, with its layout only. -/
def findConfig (p : TTNNLayoutAttr → Bool) (op : ℕ) : Option OpConfig :=
  ((policy.legalConfigs.lookup op).find? fun config => p config.outputLayout).map fun config =>
    ⟨config.outputLayout, none⟩

/-- `OpConfig(getDRAMLayout(op))`, where `hasDRAMBufferType(op)`. -/
def dramConfig (op : ℕ) : Option OpConfig :=
  policy.findConfig TTNNLayoutAttr.hasDRAMBufferType op

/-- `OpConfig(getL1InterleavedLayout(op))`, where `hasL1BufferType(op)`. -/
def l1InterleavedConfig (op : ℕ) : Option OpConfig :=
  policy.findConfig TTNNLayoutAttr.hasInterleavedL1TensorMemoryLayout op

/-- The map `opsL1Usage`: its keys in the order of an iteration, and their values.  Keys have
legal layouts of both kinds. -/
structure OpsL1Usage : Type where
  ops : List ℕ
  l1Usage : ℕ → L1Usage
  nodup : ops.Nodup
  length_le : ops.length ≤ 64
  dram : ∀ op ∈ ops, (policy.dramConfig op).isSome
  l1 : ∀ op ∈ ops, (policy.l1InterleavedConfig op).isSome

/-- The loop over an order: the usage so far, and the required one, unless the latter is too
large. -/
def orderRequirement (l1Usage : ℕ → L1Usage) : ℕ × ℕ → List ℕ → Option ℕ
  | (_, required), [] => some required
  | (intermediate, required), op :: rest =>
    if policy.availableL1CacheSize < addU64 intermediate (l1Usage op).requiredL1Usage then none
    else orderRequirement l1Usage
      (addU64 intermediate (l1Usage op).outputL1Usage,
        max required (addU64 intermediate (l1Usage op).requiredL1Usage)) rest

/-- What is known about the orders of a subset. -/
structure OrderState : Type where
  isMaskLegal : Bool
  minRequiredL1Usage : ℕ
  optimalL1Precedence : List ℕ

/-- One round of the loop over orders. -/
def tryOrder (l1Usage : ℕ → L1Usage) (st : OrderState) (l1Precedence : List ℕ) : OrderState :=
  match policy.orderRequirement l1Usage (0, 0) l1Precedence with
  | none => st
  | some required =>
    if required < st.minRequiredL1Usage then ⟨true, required, l1Precedence⟩ else st

/-- The loop over orders, from the sorted one on (`std::next_permutation`). -/
def optimalOrder (l1Usage : ℕ → L1Usage) (l1Precedence : List ℕ) : OrderState :=
  (Search.orders (l1Precedence.insertionSort (· ≤ ·))).foldl (policy.tryOrder l1Usage)
    ⟨false, policy.availableL1CacheSize, []⟩

/-- What is computed for one mask. -/
structure MaskState : Type where
  currentL1Usage : ℕ
  currentConfigs : ℕ → Option OpConfig
  currentPrecedence : List ℕ
  l1Precedence : List ℕ

variable {policy}

/-- One round of the loop over the operations of the map. -/
def visitOp (opsL1Usage : policy.OpsL1Usage) (baseOp mask : ℕ) (st : MaskState)
    (entry : ℕ × ℕ) : MaskState :=
  match entry with
  | (op, bitIndex) =>
    if mask.testBit bitIndex then
      { st with
        currentL1Usage := addU64 st.currentL1Usage (opsL1Usage.l1Usage op).outputL1Usage
        currentConfigs := Function.update st.currentConfigs op (policy.l1InterleavedConfig op)
        l1Precedence :=
          if baseOp ≠ op then st.l1Precedence ++ [op] else st.l1Precedence }
    else
      { st with
        currentConfigs := Function.update st.currentConfigs op (policy.dramConfig op)
        currentPrecedence :=
          if baseOp ≠ op then st.currentPrecedence ++ [op] else st.currentPrecedence }

/-- The loop over the operations of the map. -/
def visitMask (opsL1Usage : policy.OpsL1Usage) (baseOp mask : ℕ) : MaskState :=
  opsL1Usage.ops.zipIdx.foldl (visitOp opsL1Usage baseOp mask) ⟨0, fun _ => none, [], []⟩

/-- `GreedyPolicyChoice`, without the operation. -/
structure Choice : Type where
  configs : ℕ → Option OpConfig
  precedence : List ℕ

/-- One round of the loop over masks: the usage of the best choice, and the choice. -/
def tryMask (opsL1Usage : policy.OpsL1Usage) (baseOp : ℕ) (best : ℕ × Choice) (mask : ℕ) :
    ℕ × Choice :=
  let current := visitMask opsL1Usage baseOp mask
  let order := policy.optimalOrder opsL1Usage.l1Usage current.l1Precedence
  if order.isMaskLegal = true ∧ best.1 < current.currentL1Usage ∧
      current.currentL1Usage ≤ policy.availableL1CacheSize then
    (current.currentL1Usage,
      ⟨current.currentConfigs, current.currentPrecedence ++ order.optimalL1Precedence⟩)
  else best

/-- `1 << numOfOps` of an `int`, compared to a `uint64_t`; undefined from 32 on. -/
def maskBound (numOfOps : ℕ) : Option ℕ :=
  if numOfOps ≤ 30 then some (2 ^ numOfOps)
  else if numOfOps = 31 then some (2 ^ 64 - 2 ^ 31)
  else none

/-- `getGreedyConfig`; `none` where it is undefined. -/
def getGreedyConfig (baseOp : ℕ) (opsL1Usage : policy.OpsL1Usage) : Option Choice :=
  (maskBound opsL1Usage.ops.length).map fun bound =>
    ((List.range bound).foldl (tryMask opsL1Usage baseOp) (0, ⟨fun _ => none, []⟩)).2

/-! ## What it is for -/

/-- The largest usage while the operations of an order run, each of which leaves its output. -/
def peak (l1Usage : ℕ → L1Usage) : ℕ → List ℕ → ℕ
  | _, [] => 0
  | intermediate, op :: rest =>
    max (intermediate + (l1Usage op).requiredL1Usage)
      (peak l1Usage (intermediate + (l1Usage op).outputL1Usage) rest)

variable (opsL1Usage : policy.OpsL1Usage)

/-- The outputs of a subset together. -/
def total (inL1 : ℕ → Bool) : ℕ :=
  ((opsL1Usage.ops.filter inL1).map fun op => (opsL1Usage.l1Usage op).outputL1Usage).sum

/-- The operands in a subset: its operations but the one that is decided for. -/
def operands (baseOp : ℕ) (inL1 : ℕ → Bool) : List ℕ :=
  (opsL1Usage.ops.filter inL1).filter fun op => baseOp ≠ op

/-- **A subset fits**: together, and in some order of its operands. -/
structure Fits (baseOp : ℕ) (inL1 : ℕ → Bool) : Prop where
  total_le : total opsL1Usage inL1 ≤ policy.availableL1CacheSize
  order : ∃ order, order.Perm (operands opsL1Usage baseOp inL1) ∧
    peak opsL1Usage.l1Usage 0 order ≤ policy.availableL1CacheSize

/-- **The choice is optimal.**  It holds a subset in L1 that fits and takes as much as any that
does; every operation has a configuration; and the order is of the operands in DRAM, and then of
those in L1, the way they fit. -/
structure Optimal (baseOp : ℕ) (choice : Choice) (inL1 : ℕ → Bool) : Prop where
  configs : ∀ op ∈ opsL1Usage.ops, ∃ config, choice.configs op = some config ∧
    if inL1 op then config.outputLayout.hasInterleavedL1TensorMemoryLayout = true
    else config.outputLayout.hasDRAMBufferType = true
  total_le : total opsL1Usage inL1 ≤ policy.availableL1CacheSize
  precedence : ∃ dram l1, choice.precedence = dram ++ l1 ∧
    dram.Perm (operands opsL1Usage baseOp fun op => !inL1 op) ∧
    l1.Perm (operands opsL1Usage baseOp inL1) ∧
    peak opsL1Usage.l1Usage 0 l1 ≤ policy.availableL1CacheSize
  greatest : ∀ other, Fits opsL1Usage baseOp other →
    total opsL1Usage other ≤ total opsL1Usage inL1

/-- The search ends, and makes an optimal choice. -/
def Succeeds (baseOp : ℕ) : Prop :=
  ∃ choice, getGreedyConfig baseOp opsL1Usage = some choice ∧
    ∃ inL1, Optimal opsL1Usage baseOp choice inL1

/-- **No sum that is formed overflows**: the outputs of all operations, which are the last mask's,
and what the next operand requires after operands that fit in an order. -/
structure NoOverflow (baseOp : ℕ) : Prop where
  total_lt : total opsL1Usage (fun _ => true) < 2 ^ 64
  required_lt : ∀ order op,
    (order ++ [op]).Subperm (operands opsL1Usage baseOp fun _ => true) →
    peak opsL1Usage.l1Usage 0 order ≤ policy.availableL1CacheSize →
      (order.map fun op => (opsL1Usage.l1Usage op).outputL1Usage).sum
        + (opsL1Usage.l1Usage op).requiredL1Usage < 2 ^ 64

/-- **When it does.**  There is nothing to decide; or there are at most 31 operations, and one of
the largest subsets that fit takes something, and has an order that needs less than what is
available. -/
def FindsOptimum (baseOp : ℕ) : Prop :=
  opsL1Usage.ops = [] ∨
    opsL1Usage.ops.length ≤ 31 ∧
      ∃ inL1, Fits opsL1Usage baseOp inL1 ∧ 0 < total opsL1Usage inL1 ∧
        (∀ other, Fits opsL1Usage baseOp other →
          total opsL1Usage other ≤ total opsL1Usage inL1) ∧
        ∃ order, order.Perm (operands opsL1Usage baseOp inL1) ∧
          peak opsL1Usage.l1Usage 0 order < policy.availableL1CacheSize

/-! ## Masks -/

/-- Whether a mask holds an operation of the map in L1. -/
def inMask (mask op : ℕ) : Bool := mask.testBit (opsL1Usage.ops.idxOf op)

/-- What has been computed once some operations are visited. -/
theorem foldl_visitOp (baseOp mask : ℕ) (idx : ℕ → ℕ) (ops : List ℕ) :
    ops.foldl (fun st op => visitOp opsL1Usage baseOp mask st (op, idx op))
        ⟨0, fun _ => none, [], []⟩ =
      { currentL1Usage :=
          ((ops.filter fun op => mask.testBit (idx op)).map fun op =>
            (opsL1Usage.l1Usage op).outputL1Usage).foldl addU64 0
        currentConfigs := fun op =>
          if op ∈ ops then
            if mask.testBit (idx op) then policy.l1InterleavedConfig op else policy.dramConfig op
          else none
        currentPrecedence :=
          (ops.filter fun op => !mask.testBit (idx op)).filter fun op => baseOp ≠ op
        l1Precedence := (ops.filter fun op => mask.testBit (idx op)).filter fun op =>
          baseOp ≠ op } := by
  induction ops using List.reverseRecOn with
  | nil => simp
  | append_singleton ops op ih =>
    rw [List.foldl_append, ih, List.foldl_cons, List.foldl_nil, visitOp]
    have hconfigs : ∀ config : Option OpConfig,
        (config = if mask.testBit (idx op) then policy.l1InterleavedConfig op
          else policy.dramConfig op) →
        Function.update (fun op' => if op' ∈ ops then
            if mask.testBit (idx op') then policy.l1InterleavedConfig op'
            else policy.dramConfig op' else none) op config
          = fun op' => if op' ∈ ops ++ [op] then
              if mask.testBit (idx op') then policy.l1InterleavedConfig op'
              else policy.dramConfig op' else none := by
      intro config hconfig
      funext op'
      by_cases heq : op' = op
      · subst heq
        rw [Function.update_self, if_pos (by simp), hconfig]
      · rw [Function.update_of_ne heq]
        simp [heq]
    by_cases hbit : mask.testBit (idx op)
    · rw [if_pos hbit, hconfigs _ (by rw [if_pos hbit])]
      by_cases hbase : baseOp = op
      · simp [List.filter_append, hbit, hbase]
      · simp [List.filter_append, hbit, hbase]
    · rw [if_neg hbit, hconfigs _ (by rw [if_neg hbit])]
      by_cases hbase : baseOp = op
      · simp [List.filter_append, hbit, hbase]
      · simp [List.filter_append, hbit, hbase]

/-- What is computed for a mask. -/
theorem visitMask_eq (baseOp mask : ℕ) : visitMask opsL1Usage baseOp mask =
      { currentL1Usage :=
          ((opsL1Usage.ops.filter (inMask opsL1Usage mask)).map fun op =>
            (opsL1Usage.l1Usage op).outputL1Usage).foldl addU64 0
        currentConfigs := fun op =>
          if op ∈ opsL1Usage.ops then
            if inMask opsL1Usage mask op then policy.l1InterleavedConfig op
            else policy.dramConfig op
          else none
        currentPrecedence := operands opsL1Usage baseOp fun op => !inMask opsL1Usage mask op
        l1Precedence := operands opsL1Usage baseOp (inMask opsL1Usage mask) } := by
  rw [visitMask, Search.zipIdx_eq_map opsL1Usage.nodup, List.foldl_map]
  exact foldl_visitOp opsL1Usage baseOp mask _ _

/-- What the mask is looked at for: the usage, where the subset may be chosen. -/
def maskUsage (baseOp mask : ℕ) : Option ℕ :=
  if (policy.optimalOrder opsL1Usage.l1Usage
        (visitMask opsL1Usage baseOp mask).l1Precedence).isMaskLegal = true ∧
      (visitMask opsL1Usage baseOp mask).currentL1Usage ≤ policy.availableL1CacheSize then
    some (visitMask opsL1Usage baseOp mask).currentL1Usage
  else none

/-- The choice for a mask; nothing is chosen before the first one. -/
def maskChoice (baseOp : ℕ) : Option ℕ → Choice
  | none => ⟨fun _ => none, []⟩
  | some mask =>
    let current := visitMask opsL1Usage baseOp mask
    ⟨current.currentConfigs, current.currentPrecedence ++
      (policy.optimalOrder opsL1Usage.l1Usage current.l1Precedence).optimalL1Precedence⟩

/-- The loop over masks keeps the best one. -/
theorem foldl_tryMask_eq (baseOp : ℕ) (masks : List ℕ) (best : Option ℕ × ℕ) :
    masks.foldl (tryMask opsL1Usage baseOp) (best.2, maskChoice opsL1Usage baseOp best.1)
      = ((masks.foldl (Search.keepBest (maskUsage opsL1Usage baseOp)) best).2,
          maskChoice opsL1Usage baseOp
            (masks.foldl (Search.keepBest (maskUsage opsL1Usage baseOp)) best).1) := by
  induction masks generalizing best with
  | nil => rfl
  | cons mask masks ih =>
    rw [List.foldl_cons, List.foldl_cons, ← ih]
    congr 1
    rw [tryMask, Search.keepBest, maskUsage]
    by_cases hlegal : (policy.optimalOrder opsL1Usage.l1Usage
          (visitMask opsL1Usage baseOp mask).l1Precedence).isMaskLegal = true ∧
        (visitMask opsL1Usage baseOp mask).currentL1Usage ≤ policy.availableL1CacheSize
    · rw [if_pos hlegal]
      by_cases hbetter : best.2 < (visitMask opsL1Usage baseOp mask).currentL1Usage
      · simp only
        rw [if_pos ⟨hlegal.1, hbetter, hlegal.2⟩, if_pos hbetter]
        rfl
      · simp only
        rw [if_neg fun h => hbetter h.2.1, if_neg hbetter]
    · rw [if_neg hlegal]
      simp only
      rw [if_neg fun h => hlegal ⟨h.1, h.2.2⟩]

/-! ## Orders -/

/-- The loop over orders keeps the one that requires least. -/
theorem foldl_tryOrder_eq (policy : GreedyL1InterleavedPolicy) (l1Usage : ℕ → L1Usage)
    (orders : List (List ℕ)) (best : Option (List ℕ) × ℕᵒᵈ) :
    orders.foldl (policy.tryOrder l1Usage) ⟨best.1.isSome, OrderDual.ofDual best.2, best.1.getD []⟩
      = (fun found : Option (List ℕ) × ℕᵒᵈ =>
          (⟨found.1.isSome, OrderDual.ofDual found.2, found.1.getD []⟩ : OrderState))
        (orders.foldl (Search.keepBest fun order =>
          (policy.orderRequirement l1Usage (0, 0) order).map OrderDual.toDual) best) := by
  induction orders generalizing best with
  | nil => rfl
  | cons order orders ih =>
    rw [List.foldl_cons, List.foldl_cons, ← ih]
    congr 1
    rw [tryOrder, Search.keepBest]
    cases policy.orderRequirement l1Usage (0, 0) order with
    | none => rfl
    | some required =>
      show (if required < OrderDual.ofDual best.2 then _ else _) = _
      rw [Option.map_some]
      simp only
      by_cases hless : required < OrderDual.ofDual best.2
      · rw [if_pos hless, if_pos (show best.2 < OrderDual.toDual required from hless)]
        rfl
      · rw [if_neg hless, if_neg (show ¬best.2 < OrderDual.toDual required from hless)]

/-- **The order that is found** for a subset: there is one if and only if some order requires
less than what is available, and then it does. -/
theorem optimalOrder_spec (policy : GreedyL1InterleavedPolicy) (l1Usage : ℕ → L1Usage)
    (l1Precedence : List ℕ) :
    ((policy.optimalOrder l1Usage l1Precedence).isMaskLegal = true ↔
        ∃ order, order.Perm l1Precedence ∧ ∃ required,
          policy.orderRequirement l1Usage (0, 0) order = some required ∧
            required < policy.availableL1CacheSize) ∧
      ((policy.optimalOrder l1Usage l1Precedence).isMaskLegal = true →
        (policy.optimalOrder l1Usage l1Precedence).optimalL1Precedence.Perm l1Precedence ∧
          ∃ required, policy.orderRequirement l1Usage (0, 0)
              (policy.optimalOrder l1Usage l1Precedence).optimalL1Precedence = some required ∧
            required < policy.availableL1CacheSize) := by
  have hmem : ∀ order, order ∈ Search.orders (l1Precedence.insertionSort (· ≤ ·)) ↔
      order.Perm l1Precedence := by
    intro order
    rw [Search.mem_orders]
    exact (List.perm_insertionSort _ _).congr_right order
  have hfold := foldl_tryOrder_eq policy l1Usage
    (Search.orders (l1Precedence.insertionSort (· ≤ ·)))
    (none, OrderDual.toDual policy.availableL1CacheSize)
  have hfound := Search.foldl_keepBest_spec
    (fun order => (policy.orderRequirement l1Usage (0, 0) order).map OrderDual.toDual)
    (Search.orders (l1Precedence.insertionSort (· ≤ ·)))
    (OrderDual.toDual policy.availableL1CacheSize)
  have heq : policy.optimalOrder l1Usage l1Precedence = _ := hfold
  rw [heq]
  generalize (Search.orders (l1Precedence.insertionSort (· ≤ ·))).foldl (Search.keepBest
    fun order => (policy.orderRequirement l1Usage (0, 0) order).map OrderDual.toDual)
    (none, OrderDual.toDual policy.availableL1CacheSize) = found at hfound
  cases hfound with
  | nothing hnone =>
    refine ⟨⟨nofun, ?_⟩, nofun⟩
    rintro ⟨order, hperm, required, hrequired, hlt⟩
    have hle := hnone order ((hmem order).mpr hperm) (OrderDual.toDual required)
      (by rw [hrequired]; rfl)
    exact absurd hlt (not_lt.mpr hle)
  | best order value hmember hvalue habove hgreatest =>
    obtain ⟨required, hrequired, rfl⟩ := Option.map_eq_some_iff.mp hvalue
    have hspec : order.Perm l1Precedence ∧ ∃ required,
        policy.orderRequirement l1Usage (0, 0) order = some required ∧
          required < policy.availableL1CacheSize :=
      ⟨(hmem order).mp hmember, required, hrequired, habove⟩
    exact ⟨⟨fun _ => ⟨order, hspec⟩, fun _ => rfl⟩, fun _ => hspec⟩

/-! ## Without overflow -/

theorem foldl_addU64 (l : List ℕ) (a : ℕ) (h : a + l.sum < 2 ^ 64) :
    l.foldl addU64 a = a + l.sum := by
  induction l generalizing a with
  | nil => rfl
  | cons x l ih =>
    rw [List.sum_cons] at h ⊢
    have hadd : addU64 a x = a + x := Nat.mod_eq_of_lt (by omega)
    rw [List.foldl_cons, hadd, ih (a + x) (by omega)]
    omega

/-- What an order requires, where nothing overflows. -/
theorem orderRequirement_eq (l1Usage : ℕ → L1Usage) (order : List ℕ) (intermediate required : ℕ)
    (h : ∀ pre op, pre ++ [op] <+: order →
      peak l1Usage intermediate pre ≤ policy.availableL1CacheSize →
        intermediate + (pre.map fun op => (l1Usage op).outputL1Usage).sum
            + (l1Usage op).requiredL1Usage < 2 ^ 64 ∧
          intermediate + (pre.map fun op => (l1Usage op).outputL1Usage).sum
            + (l1Usage op).outputL1Usage < 2 ^ 64) :
    policy.orderRequirement l1Usage (intermediate, required) order
      = if peak l1Usage intermediate order ≤ policy.availableL1CacheSize then
          some (max required (peak l1Usage intermediate order)) else none := by
  induction order generalizing intermediate required with
  | nil =>
    rw [orderRequirement, peak, if_pos (Nat.zero_le _), Nat.max_zero]
  | cons op rest ih =>
    obtain ⟨hop, hop'⟩ := h [] op (List.prefix_append [op] rest) (Nat.zero_le _)
    have hrequired : addU64 intermediate (l1Usage op).requiredL1Usage
        = intermediate + (l1Usage op).requiredL1Usage := Nat.mod_eq_of_lt hop
    have houtput : addU64 intermediate (l1Usage op).outputL1Usage
        = intermediate + (l1Usage op).outputL1Usage := Nat.mod_eq_of_lt hop'
    rw [orderRequirement, hrequired, houtput, peak]
    by_cases hlarge : policy.availableL1CacheSize < intermediate + (l1Usage op).requiredL1Usage
    · rw [if_pos hlarge, if_neg fun hle => absurd hlarge
        (not_lt.mpr ((Nat.le_max_left _ _).trans hle))]
    · -- what comes after an operation that fits
      rw [if_neg hlarge, ih _ _ fun pre op' hpre hfits => by
        have hnext := h (op :: pre) op' (List.cons_prefix_cons.mpr ⟨rfl, hpre⟩)
          (Nat.max_le.mpr ⟨not_lt.mp hlarge, hfits⟩)
        rw [List.map_cons, List.sum_cons] at hnext
        constructor <;> omega, Nat.max_assoc]
      by_cases hpeak : peak l1Usage (intermediate + (l1Usage op).outputL1Usage) rest
          ≤ policy.availableL1CacheSize
      · rw [if_pos hpeak, if_pos (Nat.max_le.mpr ⟨not_lt.mp hlarge, hpeak⟩)]
      · rw [if_neg hpeak, if_neg fun hle => hpeak ((Nat.le_max_right _ _).trans hle)]

variable {opsL1Usage}

theorem sum_le_total {part : List ℕ} (h : part.Subperm opsL1Usage.ops) :
    (part.map fun op => (opsL1Usage.l1Usage op).outputL1Usage).sum
      ≤ total opsL1Usage fun _ => true := by
  obtain ⟨sub, hperm, hsub⟩ := h
  rw [total, List.filter_true, ← (hperm.map _).sum_eq]
  exact (hsub.map _).sum_le_sum fun _ _ => Nat.zero_le _

variable {baseOp : ℕ}

/-- What an order of operands requires. -/
theorem NoOverflow.orderRequirement_eq (h : NoOverflow opsL1Usage baseOp) {inL1 : ℕ → Bool}
    {order : List ℕ} (hperm : order.Perm (operands opsL1Usage baseOp inL1)) :
    policy.orderRequirement opsL1Usage.l1Usage (0, 0) order
      = if peak opsL1Usage.l1Usage 0 order ≤ policy.availableL1CacheSize then
          some (peak opsL1Usage.l1Usage 0 order) else none := by
  have hsub : (operands opsL1Usage baseOp inL1).Sublist
      (operands opsL1Usage baseOp fun _ => true) := by
    rw [operands, operands, List.filter_true]
    exact List.filter_sublist.filter _
  have hall : (operands opsL1Usage baseOp fun _ => true).Sublist opsL1Usage.ops :=
    List.filter_sublist.trans List.filter_sublist
  rw [GreedyL1InterleavedPolicy.orderRequirement_eq, Nat.zero_max]
  intro pre op hpre hfits
  have hsubperm := hpre.sublist.subperm.trans (hperm.subperm.trans hsub.subperm)
  have hsum := (sum_le_total (hsubperm.trans hall.subperm)).trans_lt h.total_lt
  rw [List.map_append, List.sum_append, List.map_singleton, List.sum_singleton] at hsum
  rw [Nat.zero_add]
  exact ⟨h.required_lt pre op hsubperm hfits, hsum⟩

theorem NoOverflow.currentL1Usage_eq (h : NoOverflow opsL1Usage baseOp) (mask : ℕ) :
    (visitMask opsL1Usage baseOp mask).currentL1Usage
      = total opsL1Usage (inMask opsL1Usage mask) := by
  have hno := h.total_lt
  have hsum := sum_le_total
    (List.filter_sublist (p := inMask opsL1Usage mask) (l := opsL1Usage.ops)).subperm
  rw [visitMask_eq]
  show List.foldl addU64 0 _ = _
  rw [foldl_addU64 _ _ (by omega), Nat.zero_add]
  rfl

/-- **Which masks are candidates**: those whose subset fits, by an order that requires less than
what is available. -/
theorem NoOverflow.maskUsage_eq_some (h : NoOverflow opsL1Usage baseOp) {mask usage : ℕ} :
    maskUsage opsL1Usage baseOp mask = some usage ↔
      usage = total opsL1Usage (inMask opsL1Usage mask) ∧ usage ≤ policy.availableL1CacheSize ∧
        ∃ order, order.Perm (operands opsL1Usage baseOp (inMask opsL1Usage mask)) ∧
          peak opsL1Usage.l1Usage 0 order < policy.availableL1CacheSize := by
  have hlegal := (optimalOrder_spec policy opsL1Usage.l1Usage
    (visitMask opsL1Usage baseOp mask).l1Precedence).1
  have hprecedence : (visitMask opsL1Usage baseOp mask).l1Precedence
      = operands opsL1Usage baseOp (inMask opsL1Usage mask) := by
    rw [visitMask_eq]
  have hiff : (∃ order, order.Perm (operands opsL1Usage baseOp (inMask opsL1Usage mask)) ∧
        ∃ required, policy.orderRequirement opsL1Usage.l1Usage (0, 0) order = some required ∧
          required < policy.availableL1CacheSize) ↔
      ∃ order, order.Perm (operands opsL1Usage baseOp (inMask opsL1Usage mask)) ∧
        peak opsL1Usage.l1Usage 0 order < policy.availableL1CacheSize := by
    refine exists_congr fun order => and_congr_right fun hperm => ?_
    rw [h.orderRequirement_eq hperm]
    constructor
    · rintro ⟨required, hrequired, hlt⟩
      split at hrequired
      · exact Option.some.inj hrequired ▸ hlt
      · exact nomatch hrequired
    · intro hlt
      exact ⟨_, if_pos hlt.le, hlt⟩
  rw [hprecedence, hiff] at hlegal
  rw [maskUsage, h.currentL1Usage_eq, hprecedence, ← hlegal]
  constructor
  · intro hsome
    split at hsome
    · rename_i hboth
      obtain rfl := Option.some.inj hsome
      exact ⟨rfl, hboth.2, hboth.1⟩
    · exact nomatch hsome
  · rintro ⟨rfl, hle, horder⟩
    exact if_pos ⟨horder, hle⟩

/-! ## The choice -/

theorem findConfig_some {p : TTNNLayoutAttr → Bool} {op : ℕ} {config : OpConfig}
    (h : policy.findConfig p op = some config) : p config.outputLayout = true := by
  obtain ⟨found, hfound, rfl⟩ := Option.map_eq_some_iff.mp h
  have hp := List.find?_some hfound
  exact hp

theorem not_dram_of_l1 {L : TTNNLayoutAttr}
    (h : L.hasInterleavedL1TensorMemoryLayout = true) : ¬L.hasDRAMBufferType = true := by
  intro hdram
  have hl1 : L.getBufferType = .l1 := by
    have := (Bool.and_eq_true_iff.mp h).1
    exact of_decide_eq_true this
  exact nomatch hl1.symm.trans (of_decide_eq_true hdram)

theorem optimalOrder_nil (l1Usage : ℕ → L1Usage) :
    (policy.optimalOrder l1Usage []).optimalL1Precedence = [] := by
  show (policy.tryOrder l1Usage ⟨false, policy.availableL1CacheSize, []⟩ []).optimalL1Precedence
    = []
  rw [tryOrder]
  split
  · rfl
  · split
    · rfl
    · rfl

/-- The configurations for a mask. -/
theorem configs_maskChoice (baseOp mask : ℕ) {op : ℕ} (hop : op ∈ opsL1Usage.ops) :
    ∃ config, (maskChoice opsL1Usage baseOp (some mask)).configs op = some config ∧
      if inMask opsL1Usage mask op then
        config.outputLayout.hasInterleavedL1TensorMemoryLayout = true
      else config.outputLayout.hasDRAMBufferType = true := by
  have hconfigs : (maskChoice opsL1Usage baseOp (some mask)).configs op
      = if inMask opsL1Usage mask op then policy.l1InterleavedConfig op
        else policy.dramConfig op := by
    rw [maskChoice, visitMask_eq]
    exact if_pos hop
  rw [hconfigs]
  split
  · obtain ⟨config, hconfig⟩ := Option.isSome_iff_exists.mp (opsL1Usage.l1 op hop)
    exact ⟨config, hconfig, findConfig_some hconfig⟩
  · obtain ⟨config, hconfig⟩ := Option.isSome_iff_exists.mp (opsL1Usage.dram op hop)
    exact ⟨config, hconfig, findConfig_some hconfig⟩

theorem exists_maskBound (h : opsL1Usage.ops.length ≤ 31) :
    ∃ bound, maskBound opsL1Usage.ops.length = some bound ∧ 2 ^ opsL1Usage.ops.length ≤ bound := by
  rw [maskBound]
  by_cases h30 : opsL1Usage.ops.length ≤ 30
  · exact ⟨_, if_pos h30, le_rfl⟩
  · have h31 : opsL1Usage.ops.length = 31 := by omega
    rw [if_neg h30, if_pos h31, h31]
    exact ⟨_, rfl, by decide⟩

theorem length_le_of_maskBound {bound : ℕ}
    (h : maskBound opsL1Usage.ops.length = some bound) : opsL1Usage.ops.length ≤ 31 := by
  rw [maskBound] at h
  split_ifs at h with h30 h31
  · omega
  · omega

theorem getGreedyConfig_eq {baseOp bound : ℕ} (h : maskBound opsL1Usage.ops.length = some bound) :
    ∃ best, getGreedyConfig baseOp opsL1Usage = some (maskChoice opsL1Usage baseOp best.1) ∧
      Search.Found (maskUsage opsL1Usage baseOp) (List.range bound) 0 best := by
  refine ⟨_, ?_, Search.foldl_keepBest_spec _ (List.range bound) 0⟩
  rw [getGreedyConfig, h]
  exact congrArg (fun best : ℕ × Choice => some best.2)
    (foldl_tryMask_eq opsL1Usage baseOp (List.range bound) (none, 0))

theorem total_congr {p q : ℕ → Bool} (h : ∀ op ∈ opsL1Usage.ops, p op = q op) :
    total opsL1Usage p = total opsL1Usage q := by
  rw [total, total, List.filter_congr h]

theorem operands_congr {p q : ℕ → Bool} (h : ∀ op ∈ opsL1Usage.ops, p op = q op) (baseOp : ℕ) :
    operands opsL1Usage baseOp p = operands opsL1Usage baseOp q := by
  rw [operands, operands, List.filter_congr h]

/-- **A best mask is an optimal choice**, if it takes as much as any subset that fits. -/
theorem NoOverflow.optimal_maskChoice (h : NoOverflow opsL1Usage baseOp)
    {mask usage : ℕ} (husage : maskUsage opsL1Usage baseOp mask = some usage)
    (hgreatest : ∀ other, Fits opsL1Usage baseOp other → total opsL1Usage other ≤ usage) :
    Optimal opsL1Usage baseOp (maskChoice opsL1Usage baseOp (some mask))
      (inMask opsL1Usage mask) := by
  obtain ⟨rfl, hle, hsome⟩ := h.maskUsage_eq_some.mp husage
  have hprecedence : (visitMask opsL1Usage baseOp mask).l1Precedence
      = operands opsL1Usage baseOp (inMask opsL1Usage mask) := by
    rw [visitMask_eq]
  obtain ⟨hlegal, hbest⟩ := optimalOrder_spec policy opsL1Usage.l1Usage
    (visitMask opsL1Usage baseOp mask).l1Precedence
  have hisLegal : (policy.optimalOrder opsL1Usage.l1Usage
      (visitMask opsL1Usage baseOp mask).l1Precedence).isMaskLegal = true := by
    rw [maskUsage] at husage
    split at husage
    · rename_i hboth
      exact hboth.1
    · exact nomatch husage
  obtain ⟨hperm, required, hrequired, hlt⟩ := hbest hisLegal
  rw [hprecedence] at hperm hrequired
  refine ⟨fun op hop => configs_maskChoice baseOp mask hop, hle, ⟨_, _, rfl, ?_, ?_, ?_⟩, hgreatest⟩
  · rw [visitMask_eq]
  · rw [hprecedence]
    exact hperm
  · rw [h.orderRequirement_eq hperm] at hrequired
    rw [hprecedence]
    split at hrequired
    · assumption
    · exact nomatch hrequired

/-- **Where the search succeeds.** -/
theorem succeeds_of_findsOptimum (hno : NoOverflow opsL1Usage baseOp)
    (h : FindsOptimum opsL1Usage baseOp) : Succeeds opsL1Usage baseOp := by
  rcases h with hnil | ⟨hlength, inL1, hfits, hpos, hgreatest, order, hperm, hpeak⟩
  · -- there is one mask, and nothing to choose
    have hlength : opsL1Usage.ops.length ≤ 31 := by simp [hnil]
    obtain ⟨bound, hbound, -⟩ := exists_maskBound hlength
    obtain ⟨best, hbest, -⟩ := getGreedyConfig_eq hbound
    have htotal : ∀ p, total opsL1Usage p = 0 := by
      intro p
      rw [total, hnil]
      rfl
    have hoperands : ∀ p, operands opsL1Usage baseOp p = [] := by
      intro p
      rw [operands, hnil]
      rfl
    have hprecedence : (maskChoice opsL1Usage baseOp best.1).precedence = [] := by
      cases best.1 with
      | none => rfl
      | some mask =>
        have hl1 : (visitMask opsL1Usage baseOp mask).l1Precedence = [] := by
          rw [visitMask_eq]
          exact hoperands _
        have hdram : (visitMask opsL1Usage baseOp mask).currentPrecedence = [] := by
          rw [visitMask_eq]
          exact hoperands _
        rw [maskChoice]
        simp only [hl1, hdram, List.nil_append]
        exact optimalOrder_nil _
    refine ⟨_, hbest, fun _ => true, ?_, ?_, ⟨[], [], hprecedence, ?_, ?_, Nat.zero_le _⟩, ?_⟩
    · intro op hop
      rw [hnil] at hop
      exact nomatch hop
    · rw [htotal]
      exact Nat.zero_le _
    · rw [hoperands]
    · rw [hoperands]
    · intro other _
      rw [htotal, htotal]
  · obtain ⟨bound, hbound, hle⟩ := exists_maskBound hlength
    obtain ⟨best, hbest, hfound⟩ := getGreedyConfig_eq hbound
    -- the mask of the subset is a candidate
    obtain ⟨mask, hmask, hbits⟩ := Search.exists_mask opsL1Usage.ops inL1
    have hbits' : ∀ op ∈ opsL1Usage.ops, inMask opsL1Usage mask op = inL1 op := hbits
    have husage : maskUsage opsL1Usage baseOp mask = some (total opsL1Usage inL1) := by
      rw [hno.maskUsage_eq_some, total_congr hbits', operands_congr hbits']
      exact ⟨rfl, hfits.total_le, order, hperm, hpeak⟩
    have hmem : mask ∈ List.range bound := List.mem_range.mpr (hmask.trans_le hle)
    refine ⟨_, hbest, ?_⟩
    cases hfound with
    | nothing hnone => exact absurd (hnone mask hmem _ husage) (not_le.mpr hpos)
    | best chosen usage _ hchosen _ hall =>
      exact ⟨_, hno.optimal_maskChoice hchosen fun other hother =>
        (hgreatest other hother).trans (hall mask hmem _ husage)⟩

/-- **Where it does not.** -/
theorem findsOptimum_of_succeeds (hno : NoOverflow opsL1Usage baseOp)
    (h : Succeeds opsL1Usage baseOp) : FindsOptimum opsL1Usage baseOp := by
  by_cases hne : opsL1Usage.ops = []
  · exact .inl hne
  · obtain ⟨choice, hchoice, inL1, hoptimal⟩ := h
    obtain ⟨op, hop⟩ := List.exists_mem_of_ne_nil _ hne
    cases hbound : maskBound opsL1Usage.ops.length with
    | none =>
      rw [getGreedyConfig, hbound] at hchoice
      exact nomatch hchoice
    | some bound =>
      obtain ⟨best, hbest, hfound⟩ := getGreedyConfig_eq hbound
      obtain rfl := Option.some.inj (hchoice.symm.trans hbest)
      cases hfound with
      | nothing _ =>
        obtain ⟨config, hconfig, -⟩ := hoptimal.configs op hop
        exact nomatch hconfig
      | best mask usage _ hmask hpos _ =>
        -- the layouts tell which operations are held in L1
        have hsame : ∀ op ∈ opsL1Usage.ops, inMask opsL1Usage mask op = inL1 op := by
          intro op hop
          obtain ⟨config, hconfig, hlayout⟩ := hoptimal.configs op hop
          obtain ⟨config', hconfig', hlayout'⟩ := configs_maskChoice baseOp mask hop
          obtain rfl := Option.some.inj (hconfig.symm.trans hconfig')
          cases hin : inL1 op with
          | false =>
            rw [hin] at hlayout
            cases hmask : inMask opsL1Usage mask op with
            | false => rfl
            | true =>
              rw [hmask] at hlayout'
              exact absurd hlayout (not_dram_of_l1 hlayout')
          | true =>
            rw [hin] at hlayout
            cases hmask : inMask opsL1Usage mask op with
            | false =>
              rw [hmask] at hlayout'
              exact absurd hlayout' (not_dram_of_l1 hlayout)
            | true => rfl
        obtain ⟨rfl, hle, order, hperm, hpeak⟩ := hno.maskUsage_eq_some.mp hmask
        refine .inr ⟨length_le_of_maskBound hbound, inMask opsL1Usage mask,
          ⟨hle, order, hperm, hpeak.le⟩, hpos, ?_, order, hperm, hpeak⟩
        intro other hother
        rw [total_congr hsame]
        exact hoptimal.greatest other hother

/-- **The condition for the greedy choice.**  The search makes an optimal choice where no sum that
is formed overflows, there are at most 31 operations, and some largest subset that fits takes
something and needs less than what is available; and wherever else it does, some sum overflows. -/
theorem succeeds_findsOptimum (opsL1Usage : policy.OpsL1Usage) (baseOp : ℕ) :
    (NoOverflow opsL1Usage baseOp ∧ FindsOptimum opsL1Usage baseOp →
        Succeeds opsL1Usage baseOp) ∧
      (Succeeds opsL1Usage baseOp →
        FindsOptimum opsL1Usage baseOp ∨ ¬NoOverflow opsL1Usage baseOp) := by
  refine ⟨fun h => succeeds_of_findsOptimum h.1 h.2, fun h => ?_⟩
  by_cases hno : NoOverflow opsL1Usage baseOp
  · exact .inl (findsOptimum_of_succeeds hno h)
  · exact .inr hno

/-! ## An operand that fits exactly -/

/-- A tile in an interleaved layout. -/
def interleavedTile (bufferType : BufferType)
    (verified : verifyBufferAndMemoryLayout bufferType (some .interleaved) = .ok ()) :
    TTNNLayoutAttr where
  linear := ⟨2, 0, [MLIR.AffineExpr.dim 0, MLIR.AffineExpr.dim 1]⟩
  grid := [1, 1]
  memref := ⟨[1, 1], .tile (.get .bfloat16), bufferType⟩
  memLayout := some .interleaved
  verified := verified

/-- Every operation may be held in DRAM or in L1; ten bytes are available. -/
def tenBytes : GreedyL1InterleavedPolicy where
  legalConfigs _ := some [⟨interleavedTile .dram rfl, none⟩, ⟨interleavedTile .l1 rfl, none⟩]
  availableL1CacheSize := 10
  availableL1CacheSize_le := by decide

/-- One operand, which requires all of them. -/
def exactOperand : tenBytes.OpsL1Usage where
  ops := [1]
  l1Usage _ := ⟨4, 10, by decide, by decide⟩
  nodup := List.nodup_singleton 1
  length_le := by decide
  dram := by decide
  l1 := by decide

/-- **An operand that needs exactly what is available** fits, and gets no configuration. -/
theorem exactOperand_not_succeeds :
    Fits exactOperand 0 (fun _ => true) ∧ ¬Succeeds exactOperand 0 := by
  refine ⟨⟨by decide, [1], by decide, by decide⟩, ?_⟩
  rintro ⟨choice, hchoice, inL1, hoptimal⟩
  obtain ⟨config, hconfig, -⟩ := hoptimal.configs 1 (List.mem_singleton.mpr rfl)
  have hnone : choice.configs 1 = none := by
    rw [← Option.some.inj hchoice]
    rfl
  exact nomatch hnone.symm.trans hconfig

end GreedyL1InterleavedPolicy

end TTNN
