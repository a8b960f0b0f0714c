/-
# Running programs on the runtime

`ProgramExecutor` runs the operations of a program over a pool of tensors: the caller's
input tensors and the intermediate results, under one space of ids.  A `load_cached`
operation runs another program of the binary and keeps its outputs for later.

* `Memory` : the storages of tensors, and the wrappers that hold a tensor with its retain
  mark and its version;
* `ProgramTensorPool` : ids of a running program, as pointers to inputs and intermediates;
* `Kernels` : what the operations of the library compute, write in place and free;
* `State.exec` : the next operation, or the end, of the innermost running program;
* `State.call` : what a caller may do between submissions;
* `Reaches` : the states of runs whose steps all meet a condition, with what is recorded
  of a run;
* `ProgramTensorPool.Sound` : the two maps of a pool act as one map from ids to tensors.

Running programs are a stack of frames, so that a step is one operation.  A failed assertion
stops the run; the `DEBUG_ASSERT`s that tensors are allocated are compiled out, so a freed
tensor can be cached and inserted, and only the library asks for contents.
-/
import TTMLIR.TensorCache

namespace TTNNRuntime

open Runtime (TensorCache generateCacheOuterKey)

/-! ## Memory -/

/-- `TTNNTensorWrapper`: the storage of its tensor, the retain mark and the version. -/
structure TTNNTensorWrapper : Type where
  tensor : ℕ
  retain : Bool
  version : UInt64
  deriving DecidableEq, Repr

/-- Storages with their contents, `none` once deallocated; wrappers in the order of their
construction; and the counter of versions. -/
structure Memory (α : Type) : Type where
  storages : List (Option α)
  wrappers : List TTNNTensorWrapper
  latestVersion : UInt64
  deriving DecidableEq, Repr

namespace Memory

variable {α : Type}

/-- The storage of a wrapper's tensor. -/
def storageOf (m : Memory α) (w : ℕ) : Option ℕ := m.wrappers[w]?.map TTNNTensorWrapper.tensor

/-- The contents of an allocated storage. -/
def contents (m : Memory α) (s : ℕ) : Option α := (m.storages[s]?).join

/-- A new storage. -/
def allocate (m : Memory α) (a : α) : ℕ × Memory α :=
  (m.storages.length, { m with storages := m.storages ++ [some a] })

/-- `createRuntimeTensorFromTTNN`: a new wrapper, with the next version. -/
def createRuntimeTensor (m : Memory α) (storage : ℕ) (retain : Bool) : ℕ × Memory α :=
  (m.wrappers.length,
    { m with
      wrappers := m.wrappers ++ [⟨storage, retain, m.latestVersion⟩]
      latestVersion := m.latestVersion + 1 })

/-- `setRetain`. -/
def setRetain (m : Memory α) (w : ℕ) (retain : Bool) : Memory α :=
  { m with wrappers := m.wrappers.modify w fun wrapper => { wrapper with retain := retain } }

/-- Overwrite a storage in place. -/
def write (m : Memory α) (s : ℕ) (a : α) : Memory α :=
  { m with storages := m.storages.set s (some a) }

/-- Deallocate a storage. -/
def free (m : Memory α) (s : ℕ) : Memory α := { m with storages := m.storages.set s none }

end Memory

/-! ## The tensor pool -/

/-- A pointer of `liveTensors`: into the vector of inputs or into `intermedTensors`. -/
inductive TensorPtr : Type where
  | input (index : ℕ)
  | intermed (globalId : ℕ)
  deriving DecidableEq, Repr

/-- `ProgramTensorPool`, with the vector of program inputs its pointers refer to; tensors
are given by their wrappers. -/
structure ProgramTensorPool : Type where
  programInputs : List ℕ
  programOutputIds : List ℕ
  intermedTensors : AList fun _ : ℕ => ℕ
  liveTensors : AList fun _ : ℕ => TensorPtr
  deriving DecidableEq

namespace ProgramTensorPool

/-- Follow a pointer. -/
def deref (pool : ProgramTensorPool) : TensorPtr → Option ℕ
  | .input index => pool.programInputs[index]?
  | .intermed globalId => pool.intermedTensors.lookup globalId

/-- `getRuntimeTensor`. -/
def getRuntimeTensor (pool : ProgramTensorPool) (globalId : ℕ) : Option ℕ :=
  (pool.liveTensors.lookup globalId).bind pool.deref

/-- `insertTTNNTensorAndValidate`, for a wrapper made from the tensor. -/
def insert (pool : ProgramTensorPool) (globalId wrapper : ℕ) : ProgramTensorPool :=
  { pool with
    intermedTensors := pool.intermedTensors.insert globalId wrapper
    liveTensors := pool.liveTensors.insert globalId (.intermed globalId) }

/-- `erase`; the id has to be live. -/
def erase (pool : ProgramTensorPool) (globalId : ℕ) : Option ProgramTensorPool :=
  if pool.liveTensors.lookup globalId = none then none
  else some { pool with
    intermedTensors := pool.intermedTensors.erase globalId
    liveTensors := pool.liveTensors.erase globalId }

/-- The loop of `ProgramExecutor`'s constructor over the inputs; a duplicate input is an
error. -/
def tryEmplace : List ℕ → ℕ → AList (fun _ : ℕ => TensorPtr) →
    Option (AList fun _ : ℕ => TensorPtr)
  | [], _, live => some live
  | globalId :: ids, index, live =>
    if live.lookup globalId = none then
      tryEmplace ids (index + 1) (live.insert globalId (.input index))
    else none

end ProgramTensorPool

/-! ## Programs -/

/-- A result of a library operation: a new storage, or the storage of an operand. -/
inductive Result (α : Type) : Type where
  | fresh (contents : α)
  | operand (position : ℕ)
  deriving DecidableEq, Repr

/-- What a library operation does: its results, the operands it overwrites in place with
their new contents, and the operands whose storage it frees. -/
structure OpEffect (α : Type) : Type where
  results : List (Result α)
  writes : List (ℕ × α)
  frees : List ℕ
  deriving DecidableEq, Repr

/-- The library: its operations on the contents of their operands, and the conversion of a
tensor to a layout. -/
structure Kernels (κ ρ α : Type) : Type where
  run : κ → List α → Option (OpEffect α)
  convertTensorLayout : ρ → α → Result α

/-- An operation of a program. -/
inductive Op (κ : Type) : Type where
  | compute (kind : κ) (inputs outputs : List ℕ)
  | deallocate (input : ℕ) (force : Bool)
  | loadCached (calleeName : String) (programIdx : ℕ) (inputs outputs : List ℕ)
  deriving DecidableEq, Repr

/-- A program of a binary. -/
structure Program (κ : Type) : Type where
  inputs : List ℕ
  outputs : List ℕ
  operations : List (Op κ)
  deriving DecidableEq, Repr

/-- A binary. -/
structure Binary (κ : Type) : Type where
  programs : List (Program κ)
  deriving DecidableEq, Repr

/-- What happens to the outputs of a running program: they are returned by `submit`, or
cached and inserted in the pool of the program below. -/
inductive Return : Type where
  | submit
  | cached (cacheKey calleeName : String) (inputVersions : List UInt64) (outputs : List ℕ)
  deriving DecidableEq, Repr

/-- A running program. -/
structure Frame (κ : Type) : Type where
  deviceId : ℤ
  programIndex : ℕ
  pool : ProgramTensorPool
  operations : List (Op κ)
  ret : Return
  deriving DecidableEq

/-- The runtime: memory, the cache of the binary, the tensors the caller has handles of, and
the running programs, innermost first. -/
structure State (κ α : Type) : Type where
  memory : Memory α
  cache : TensorCache ℕ
  held : List ℕ
  frames : List (Frame κ)

variable {κ ρ α : Type}

/-! ## One operation -/

/-- Overwrite operands in place. -/
def Memory.writeAll (storages : List ℕ) : List (ℕ × α) → Memory α → Option (Memory α)
  | [], m => some m
  | (operand, a) :: writes, m => do
      let s ← storages[operand]?
      writeAll storages writes (m.write s a)

/-- Free the storages of operands. -/
def Memory.freeAll (storages : List ℕ) : List ℕ → Memory α → Option (Memory α)
  | [], m => some m
  | operand :: frees, m => do
      let s ← storages[operand]?
      freeAll storages frees (m.free s)

/-- The storages of results. -/
def Memory.place (storages : List ℕ) : List (Result α) → Memory α → Option (List ℕ × Memory α)
  | [], m => some ([], m)
  | .fresh a :: results, m => do
      let (placed, m') ← place storages results (m.allocate a).2
      some ((m.allocate a).1 :: placed, m')
  | .operand position :: results, m => do
      let s ← storages[position]?
      let (placed, m') ← place storages results m
      some (s :: placed, m')

/-- Insert tensors under their ids, each in a new wrapper. -/
def insertAll : List (ℕ × ℕ) → ProgramTensorPool → Memory α → ProgramTensorPool × Memory α
  | [], pool, m => (pool, m)
  | (globalId, storage) :: outputs, pool, m =>
    insertAll outputs (pool.insert globalId (m.createRuntimeTensor storage false).1)
      (m.createRuntimeTensor storage false).2

namespace State

/-- The wrappers that are referred to: by the caller, by running programs, by the cache. -/
def references (σ : State κ α) : List ℕ :=
  σ.held
    ++ σ.frames.flatMap (fun f => f.pool.programInputs ++
        f.pool.intermedTensors.entries.map fun entry => entry.2)
    ++ σ.cache.cache.entries.flatMap fun outer =>
        outer.2.entries.flatMap fun inner => inner.2.tensors

/-- `ttnn::deallocate`: without `force` a storage is freed only through the last reference
to it. -/
def deallocate (σ : State κ α) (w : ℕ) (force : Bool) : Memory α :=
  match σ.memory.storageOf w with
  | none => σ.memory
  | some s =>
    if force ∨ ∀ w' ∈ σ.references, w' ≠ w → σ.memory.storageOf w' ≠ some s then
      σ.memory.free s
    else σ.memory

/-- `ProgramExecutor::ProgramExecutor`. -/
def enter (binary : Binary κ) (deviceId : ℤ) (programIndex : ℕ) (programInputs : List ℕ)
    (ret : Return) : Option (Frame κ) := do
  let program ← binary.programs[programIndex]?
  if program.inputs.length ≠ programInputs.length then none
  else do
    let live ← ProgramTensorPool.tryEmplace program.inputs 0 ∅
    some ⟨deviceId, programIndex, ⟨programInputs, program.outputs, ∅, live⟩,
      program.operations, ret⟩

/-- A library operation and the insertion of its results. -/
def runCompute (K : Kernels κ ρ α) (σ : State κ α) (f : Frame κ) (rest : List (Frame κ))
    (kind : κ) (inputs outputs : List ℕ) (ops : List (Op κ)) : Option (State κ α) := do
  let wrappers ← inputs.mapM f.pool.getRuntimeTensor
  let storages ← wrappers.mapM σ.memory.storageOf
  let contents ← storages.mapM σ.memory.contents
  let effect ← K.run kind contents
  let m ← σ.memory.writeAll storages effect.writes
  let m ← m.freeAll storages effect.frees
  let (placed, m) ← m.place storages effect.results
  if placed.length ≠ outputs.length then none
  else
    let (pool, m) := insertAll (outputs.zip placed) f.pool m
    some { σ with memory := m, frames := { f with pool := pool, operations := ops } :: rest }

/-- The storages of the operands of a library operation, and what it does to them. -/
def effect (K : Kernels κ ρ α) (σ : State κ α) (f : Frame κ) (kind : κ) (inputs : List ℕ) :
    Option (List ℕ × OpEffect α) := do
  let wrappers ← inputs.mapM f.pool.getRuntimeTensor
  let storages ← wrappers.mapM σ.memory.storageOf
  let contents ← storages.mapM σ.memory.contents
  let effect ← K.run kind contents
  some (storages, effect)

/-- `deletion::run`. -/
def runDeallocate (σ : State κ α) (f : Frame κ) (rest : List (Frame κ)) (input : ℕ)
    (force : Bool) (ops : List (Op κ)) : Option (State κ α) := do
  let w ← f.pool.getRuntimeTensor input
  let wrapper ← σ.memory.wrappers[w]?
  let m := if ¬ wrapper.retain then σ.deallocate w force else σ.memory
  let pool ← f.pool.erase input
  some { σ with memory := m, frames := { f with pool := pool, operations := ops } :: rest }

/-- `cache::run`: on a hit the cached tensors are inserted, otherwise the function is
entered. -/
def runLoadCached (binary : Binary κ) (σ : State κ α) (f : Frame κ) (rest : List (Frame κ))
    (calleeName : String) (programIdx : ℕ) (inputs outputs : List ℕ) (ops : List (Op κ)) :
    Option (State κ α) := do
  let cacheKey := generateCacheOuterKey f.deviceId f.programIndex
  let wrappers ← inputs.mapM f.pool.getRuntimeTensor
  let inputWrappers ← wrappers.mapM fun w => σ.memory.wrappers[w]?
  let inputVersions := inputWrappers.map TTNNTensorWrapper.version
  let (cachedOutputs, cache) := σ.cache.getAll cacheKey calleeName inputVersions
  match cachedOutputs with
  | some tensors =>
    if tensors.length ≠ outputs.length then none
    else do
      let storages ← tensors.mapM σ.memory.storageOf
      let (pool, m) := insertAll (outputs.zip storages) f.pool σ.memory
      some { σ with
        memory := m
        cache := cache
        frames := { f with pool := pool, operations := ops } :: rest }
  | none => do
      let callee ← enter binary f.deviceId programIdx wrappers
        (.cached cacheKey calleeName inputVersions outputs)
      some { σ with cache := cache, frames := callee :: { f with operations := ops } :: rest }

/-- The end of a program: `gatherOutputTensors`, then the outputs are returned or cached. -/
def finish (σ : State κ α) (f : Frame κ) (rest : List (Frame κ)) : Option (State κ α) := do
  let outs ← f.pool.programOutputIds.mapM f.pool.getRuntimeTensor
  let m := outs.foldl (fun m w => m.setRetain w false) σ.memory
  match f.ret, rest with
  | .submit, _ => some { σ with memory := m, held := σ.held ++ outs, frames := rest }
  | .cached cacheKey calleeName inputVersions outputs, parent :: rest =>
    if outputs.length < outs.length then none
    else do
      let storages ← outs.mapM m.storageOf
      let (pool, m) := insertAll (outputs.zip storages) parent.pool m
      some { σ with
        memory := m
        cache := σ.cache.store cacheKey calleeName inputVersions outs
        frames := { parent with pool := pool } :: rest }
  | .cached _ _ _ _, [] => none

/-- The next operation of the innermost running program, or its end. -/
def exec (K : Kernels κ ρ α) (binary : Binary κ) (σ : State κ α) : Option (State κ α) :=
  match σ.frames with
  | [] => none
  | f :: rest =>
    match f.operations with
    | [] => σ.finish f rest
    | .compute kind inputs outputs :: ops => σ.runCompute K f rest kind inputs outputs ops
    | .deallocate input force :: ops => σ.runDeallocate f rest input force ops
    | .loadCached calleeName programIdx inputs outputs :: ops =>
      σ.runLoadCached binary f rest calleeName programIdx inputs outputs ops

end State

/-! ## The caller -/

/-- `LayoutConverter::convertTensorLayout`: a new tensor, or the same one when there is
nothing to convert. -/
def Memory.convertLayout (K : Kernels κ ρ α) (layout : ρ) (storage : ℕ) (a : α)
    (m : Memory α) : ℕ × Memory α :=
  match K.convertTensorLayout layout a with
  | .fresh b => m.allocate b
  | .operand _ => (storage, m)

/-- What a caller may do while no program runs; tensors are handles it holds. -/
inductive Call (ρ α : Type) : Type where
  | createTensor (contents : α)
  | memcpy (dst src : ℕ)
  | toLayout (tensor : ℕ) (layout : ρ) (retain : Option Bool)
  | setTensorRetain (tensor : ℕ) (retain : Bool)
  | deallocateTensor (tensor : ℕ) (force : Bool)
  | submit (deviceId : ℤ) (programIndex : ℕ) (inputs : List ℕ)
  | clearCache
  deriving DecidableEq, Repr

namespace State

/-- A call between submissions. -/
def call (K : Kernels κ ρ α) (binary : Binary κ) (σ : State κ α) :
    Call ρ α → Option (State κ α)
  | .createTensor contents =>
    let (s, m) := σ.memory.allocate contents
    let (w, m) := m.createRuntimeTensor s false
    some { σ with memory := m, held := σ.held ++ [w] }
  | .memcpy dst src =>
    if dst ∈ σ.held ∧ src ∈ σ.held then do
      let d ← σ.memory.storageOf dst
      let s ← σ.memory.storageOf src
      let a ← σ.memory.contents s
      let _ ← σ.memory.contents d
      some { σ with memory := σ.memory.write d a }
    else none
  | .toLayout tensor layout retain =>
    if tensor ∈ σ.held then do
      let wrapper ← σ.memory.wrappers[tensor]?
      let a ← σ.memory.contents wrapper.tensor
      let shouldRetain := retain.getD wrapper.retain
      let (s, m) := σ.memory.convertLayout K layout wrapper.tensor a
      let (w, m) := m.createRuntimeTensor s shouldRetain
      let σ' := { σ with memory := m, held := σ.held ++ [w] }
      some (if ¬ shouldRetain then { σ' with memory := σ'.deallocate tensor false } else σ')
    else none
  | .setTensorRetain tensor retain =>
    if tensor ∈ σ.held then some { σ with memory := σ.memory.setRetain tensor retain }
    else none
  | .deallocateTensor tensor force =>
    if tensor ∈ σ.held then some { σ with memory := σ.deallocate tensor force } else none
  | .submit deviceId programIndex inputs =>
    if ∀ w ∈ inputs, w ∈ σ.held then do
      let f ← enter binary deviceId programIndex inputs .submit
      some { σ with frames := [f] }
    else none
  | .clearCache => some { σ with cache := σ.cache.clear }

/-- Nothing has happened yet. -/
def initial : State κ α := ⟨⟨[], [], 0⟩, TensorCache.empty, [], []⟩

end State

/-- A step: the next operation of the running programs, or a call while none runs. -/
inductive Event (ρ α : Type) : Type where
  | exec
  | call (call : Call ρ α)
  deriving DecidableEq, Repr

/-- One step. -/
def State.step (K : Kernels κ ρ α) (binary : Binary κ) (σ : State κ α) :
    Event ρ α → Option (State κ α)
  | .exec => σ.exec K binary
  | .call c => if σ.frames = [] then σ.call K binary c else none

/-- The states that runs reach, with a record `g` of the run; every step meets a condition
on the state before it. -/
inductive Reaches {γ : Type} (K : Kernels κ ρ α) (binary : Binary κ) (start : γ)
    (next : State κ α → γ → Event ρ α → γ) (ok : State κ α → γ → Event ρ α → Prop) :
    State κ α → γ → Prop
  | init : Reaches K binary start next ok State.initial start
  | step {σ σ' : State κ α} {g : γ} {e : Event ρ α} (before : Reaches K binary start next ok σ g)
      (hok : ok σ g e) (hstep : σ.step K binary e = some σ') :
      Reaches K binary start next ok σ' (next σ g e)

variable {binary : Binary κ}

theorem Reaches.invariant {γ : Type} {K : Kernels κ ρ α} {start : γ}
    {next : State κ α → γ → Event ρ α → γ} {ok : State κ α → γ → Event ρ α → Prop}
    (Inv : State κ α → γ → Prop) (hinit : Inv State.initial start)
    (hstep : ∀ σ σ' g e, Inv σ g → ok σ g e → σ.step K binary e = some σ' → Inv σ' (next σ g e))
    {σ : State κ α} {g : γ} (h : Reaches K binary start next ok σ g) : Inv σ g := by
  induction h with
  | init => exact hinit
  | step _ hok hs ih => exact hstep _ _ _ _ ih hok hs

/-! ## Pools act as maps -/

namespace ProgramTensorPool

/-- The pointers of a pool: into the inputs within bounds, or to the intermediate tensor of
the same id; every intermediate tensor has its pointer; all tensors are below a bound. -/
structure WellFormed (pool : ProgramTensorPool) (bound : ℕ) : Prop where
  inputs : ∀ w ∈ pool.programInputs, w < bound
  input : ∀ globalId index, pool.liveTensors.lookup globalId = some (.input index) →
    index < pool.programInputs.length
  intermed : ∀ globalId j, pool.liveTensors.lookup globalId = some (.intermed j) →
    j = globalId ∧ ∃ w, pool.intermedTensors.lookup globalId = some w
  live : ∀ globalId w, pool.intermedTensors.lookup globalId = some w →
    pool.liveTensors.lookup globalId = some (.intermed globalId) ∧ w < bound

/-- Every entry refers to an existing tensor, an inserted tensor is reachable under its id
and erasing an id removes that entry, and neither touches other entries. -/
structure Sound (pool : ProgramTensorPool) (bound : ℕ) : Prop where
  exists_tensor : ∀ globalId, pool.liveTensors.lookup globalId ≠ none →
    ∃ w < bound, pool.getRuntimeTensor globalId = some w
  insert : ∀ globalId w i, (pool.insert globalId w).getRuntimeTensor i
    = if i = globalId then some w else pool.getRuntimeTensor i
  erase : ∀ globalId pool', pool.erase globalId = some pool' → ∀ i,
    pool'.getRuntimeTensor i = if i = globalId then none else pool.getRuntimeTensor i

variable {pool : ProgramTensorPool} {bound : ℕ}

section

variable (h : pool.WellFormed bound)

include h

theorem WellFormed.lt {globalId w : ℕ}
    (hw : pool.getRuntimeTensor globalId = some w) : w < bound := by
  obtain ⟨ptr, hptr, hderef⟩ := Option.bind_eq_some_iff.mp hw
  cases ptr with
  | input index => exact h.inputs w (List.mem_of_getElem? hderef)
  | intermed j =>
    obtain ⟨rfl, -⟩ := h.intermed _ _ hptr
    exact (h.live _ _ hderef).2

theorem WellFormed.mono {bound' : ℕ} (hle : bound ≤ bound') : pool.WellFormed bound' where
  inputs w hw := (h.inputs w hw).trans_le hle
  input := h.input
  intermed := h.intermed
  live i w hw := ⟨(h.live i w hw).1, (h.live i w hw).2.trans_le hle⟩

/-- Inserting adds one entry. -/
theorem WellFormed.getRuntimeTensor_insert (globalId w i : ℕ) :
    (pool.insert globalId w).getRuntimeTensor i
      = if i = globalId then some w else pool.getRuntimeTensor i := by
  unfold getRuntimeTensor insert
  by_cases hi : i = globalId
  · subst hi
    simp [deref]
  · simp only [AList.lookup_insert_ne hi, if_neg hi]
    cases hptr : pool.liveTensors.lookup i with
    | none => rfl
    | some ptr =>
      cases ptr with
      | input index => rfl
      | intermed j =>
        obtain ⟨rfl, -⟩ := h.intermed _ _ hptr
        show (pool.intermedTensors.insert globalId w).lookup j = _
        rw [AList.lookup_insert_ne hi]
        rfl

/-- Erasing removes one entry. -/
theorem WellFormed.getRuntimeTensor_erase {globalId : ℕ}
    {pool' : ProgramTensorPool} (herase : pool.erase globalId = some pool') (i : ℕ) :
    pool'.getRuntimeTensor i = if i = globalId then none else pool.getRuntimeTensor i := by
  unfold erase at herase
  split_ifs at herase
  cases herase
  unfold getRuntimeTensor
  by_cases hi : i = globalId
  · subst hi
    simp
  · simp only [AList.lookup_erase_ne hi, if_neg hi]
    cases hptr : pool.liveTensors.lookup i with
    | none => rfl
    | some ptr =>
      cases ptr with
      | input index => rfl
      | intermed j =>
        obtain ⟨rfl, -⟩ := h.intermed _ _ hptr
        show (pool.intermedTensors.erase globalId).lookup j = _
        rw [AList.lookup_erase_ne hi]
        rfl

/-- **Pools.**  A well formed pool acts as one map. -/
theorem WellFormed.sound : pool.Sound bound where
  exists_tensor globalId hlive := by
    obtain ⟨ptr, hptr⟩ := Option.ne_none_iff_exists'.mp hlive
    have hget : pool.getRuntimeTensor globalId = pool.deref ptr := by
      unfold getRuntimeTensor
      rw [hptr, Option.bind_some]
    cases ptr with
    | input index =>
      have hlt := h.input _ _ hptr
      have hsome : pool.getRuntimeTensor globalId = some pool.programInputs[index] :=
        hget.trans (List.getElem?_eq_getElem hlt)
      exact ⟨_, h.lt hsome, hsome⟩
    | intermed j =>
      obtain ⟨rfl, w, hw⟩ := h.intermed _ _ hptr
      exact ⟨w, (h.live _ _ hw).2, hget.trans hw⟩
  insert := h.getRuntimeTensor_insert
  erase _ _ herase := h.getRuntimeTensor_erase herase

theorem WellFormed.insert {globalId w : ℕ} (hw : w < bound) :
    (pool.insert globalId w).WellFormed bound where
  inputs := h.inputs
  input i index hi := by
    by_cases heq : i = globalId
    · subst heq
      simp [ProgramTensorPool.insert] at hi
    · rw [ProgramTensorPool.insert, AList.lookup_insert_ne heq] at hi
      exact h.input i index hi
  intermed i j hi := by
    by_cases heq : i = globalId
    · subst heq
      simp only [ProgramTensorPool.insert, AList.lookup_insert, Option.some.injEq,
        TensorPtr.intermed.injEq] at hi
      exact ⟨hi.symm, w, by simp [ProgramTensorPool.insert]⟩
    · rw [ProgramTensorPool.insert, AList.lookup_insert_ne heq] at hi
      obtain ⟨hj, v, hv⟩ := h.intermed i j hi
      refine ⟨hj, v, ?_⟩
      rw [ProgramTensorPool.insert, AList.lookup_insert_ne heq]
      exact hv
  live i v hv := by
    by_cases heq : i = globalId
    · subst heq
      simp only [ProgramTensorPool.insert, AList.lookup_insert, Option.some.injEq] at hv
      subst hv
      exact ⟨by simp [ProgramTensorPool.insert], hw⟩
    · rw [ProgramTensorPool.insert, AList.lookup_insert_ne heq] at hv ⊢
      exact h.live i v hv

theorem WellFormed.erase {globalId : ℕ} {pool' : ProgramTensorPool}
    (herase : pool.erase globalId = some pool') : pool'.WellFormed bound := by
  unfold ProgramTensorPool.erase at herase
  split_ifs at herase
  cases herase
  refine ⟨h.inputs, ?_, ?_, ?_⟩
  · intro i index hi
    by_cases heq : i = globalId
    · subst heq
      simp at hi
    · rw [AList.lookup_erase_ne heq] at hi
      exact h.input i index hi
  · intro i j hi
    by_cases heq : i = globalId
    · subst heq
      simp at hi
    · rw [AList.lookup_erase_ne heq] at hi ⊢
      exact h.intermed i j hi
  · intro i w hw
    by_cases heq : i = globalId
    · subst heq
      simp at hw
    · rw [AList.lookup_erase_ne heq] at hw ⊢
      exact h.live i w hw

end

/-- The pointers of a new pool are into the inputs. -/
theorem lookup_tryEmplace {ids : List ℕ} {index : ℕ} {live live' : AList fun _ : ℕ => TensorPtr}
    (h : tryEmplace ids index live = some live')
    (hlive : ∀ i ptr, live.lookup i = some ptr → ∃ k < index, ptr = .input k) :
    ∀ i ptr, live'.lookup i = some ptr → ∃ k < index + ids.length, ptr = .input k := by
  induction ids generalizing index live with
  | nil =>
    cases h
    exact hlive
  | cons globalId ids ih =>
    unfold tryEmplace at h
    split_ifs at h
    intro i ptr hptr
    obtain ⟨k, hk, hkey⟩ := ih h (by
      intro i ptr hi
      by_cases heq : i = globalId
      · subst heq
        rw [AList.lookup_insert] at hi
        cases hi
        exact ⟨index, by omega, rfl⟩
      · rw [AList.lookup_insert_ne heq] at hi
        obtain ⟨k, hk, hkey⟩ := hlive i ptr hi
        exact ⟨k, by omega, hkey⟩) i ptr hptr
    exact ⟨k, by rw [List.length_cons]; omega, hkey⟩

end ProgramTensorPool

/-- The operands of an operation exist. -/
theorem forall_lt_of_mapM {pool : ProgramTensorPool} {bound : ℕ} (hpool : pool.WellFormed bound)
    {ids wrappers : List ℕ} (h : ids.mapM pool.getRuntimeTensor = some wrappers) :
    ∀ w ∈ wrappers, w < bound := by
  induction ids generalizing wrappers with
  | nil =>
    cases h
    simp
  | cons globalId ids ih =>
    simp only [List.mapM_cons, bind, Option.bind_eq_some_iff, pure, Option.some.injEq] at h
    obtain ⟨w, hw, ws, hws, rfl⟩ := h
    intro v hv
    rcases List.mem_cons.mp hv with rfl | hv
    · exact hpool.lt hw
    · exact ih hws v hv

/-- A program that is entered: its operations lie ahead, and its ids denote the inputs. -/
theorem State.enter_cases {deviceId : ℤ} {programIndex : ℕ}
    {programInputs : List ℕ} {ret : Return} {f : Frame κ}
    (h : State.enter binary deviceId programIndex programInputs ret = some f) :
    ∃ program live, binary.programs[programIndex]? = some program ∧
      program.inputs.length = programInputs.length ∧
      ProgramTensorPool.tryEmplace program.inputs 0 ∅ = some live ∧
      f = ⟨deviceId, programIndex, ⟨programInputs, program.outputs, ∅, live⟩,
        program.operations, ret⟩ := by
  simp only [State.enter, bind, Option.bind_eq_some_iff] at h
  obtain ⟨program, hprogram, h⟩ := h
  split_ifs at h with hlen
  simp only [Option.bind_eq_some_iff, Option.some.injEq] at h
  obtain ⟨live, hlive, rfl⟩ := h
  exact ⟨program, live, hprogram, not_not.mp hlen, hlive, rfl⟩

/-- The pool of a program that is entered is well formed. -/
theorem State.enter_spec {deviceId : ℤ} {programIndex : ℕ}
    {programInputs : List ℕ} {ret : Return} {f : Frame κ} {bound : ℕ}
    (h : State.enter binary deviceId programIndex programInputs ret = some f)
    (hinputs : ∀ w ∈ programInputs, w < bound) : f.pool.WellFormed bound := by
  obtain ⟨program, live, -, hlen, hlive, rfl⟩ := State.enter_cases h
  have hptr := ProgramTensorPool.lookup_tryEmplace hlive (by simp)
  refine ⟨hinputs, ?_, ?_, ?_⟩
  · intro i index hi
    obtain ⟨k, hk, hkey⟩ := hptr i _ hi
    cases hkey
    show index < programInputs.length
    omega
  · intro i j hi
    obtain ⟨k, -, hkey⟩ := hptr i _ hi
    cases hkey
  · intro i w hw
    simp at hw

/-! ## Memory grows -/

namespace Memory

/-- Wrappers and storages are added; the old ones stay as they are. -/
structure Grows (m m' : Memory α) : Prop where
  wrappers : ∀ w < m.wrappers.length, m'.wrappers[w]? = m.wrappers[w]?
  wrappers_le : m.wrappers.length ≤ m'.wrappers.length
  storages : ∀ s < m.storages.length, m'.storages[s]? = m.storages[s]?
  storages_le : m.storages.length ≤ m'.storages.length

theorem Grows.refl (m : Memory α) : Grows m m :=
  ⟨fun _ _ => rfl, le_refl _, fun _ _ => rfl, le_refl _⟩

theorem Grows.trans {m m' m'' : Memory α} (h : Grows m m') (h' : Grows m' m'') : Grows m m'' where
  wrappers w hw := (h'.wrappers w (hw.trans_le h.wrappers_le)).trans (h.wrappers w hw)
  wrappers_le := h.wrappers_le.trans h'.wrappers_le
  storages s hs := (h'.storages s (hs.trans_le h.storages_le)).trans (h.storages s hs)
  storages_le := h.storages_le.trans h'.storages_le

theorem grows_allocate (m : Memory α) (a : α) : Grows m (m.allocate a).2 where
  wrappers _ _ := rfl
  wrappers_le := le_refl _
  storages _ hs := List.getElem?_append_left hs
  storages_le := by simp [allocate]

theorem grows_createRuntimeTensor (m : Memory α) (s : ℕ) (retain : Bool) :
    Grows m (m.createRuntimeTensor s retain).2 where
  wrappers _ hw := List.getElem?_append_left hw
  wrappers_le := by simp [createRuntimeTensor]
  storages _ _ := rfl
  storages_le := le_refl _

variable {m m' : Memory α}

theorem grows_place {storages : List ℕ} {results : List (Result α)}
    {placed : List ℕ} (h : m.place storages results = some (placed, m')) : Grows m m' := by
  induction results generalizing m placed with
  | nil =>
    cases h
    exact Grows.refl _
  | cons result results ih =>
    cases result with
    | fresh a =>
      simp only [place, bind, Option.bind_eq_some_iff, Option.some.injEq, Prod.mk.injEq,
        Prod.exists] at h
      obtain ⟨placed', m'', hplace, -, rfl⟩ := h
      exact (grows_allocate m a).trans (ih hplace)
    | operand position =>
      simp only [place, bind, Option.bind_eq_some_iff, Option.some.injEq, Prod.mk.injEq,
        Prod.exists] at h
      obtain ⟨s, -, placed', m'', hplace, -, rfl⟩ := h
      exact ih hplace

theorem Grows.getElem? (h : Grows m m') {w : ℕ} {wrapper : TTNNTensorWrapper}
    (hw : m.wrappers[w]? = some wrapper) : m'.wrappers[w]? = some wrapper :=
  (h.wrappers w (List.getElem?_eq_some_iff.mp hw).1).trans hw

theorem Grows.storageOf (h : Grows m m') {w s : ℕ}
    (hw : m.storageOf w = some s) : m'.storageOf w = some s := by
  obtain ⟨wrapper, hwrapper, hs⟩ := Option.map_eq_some_iff.mp hw
  unfold Memory.storageOf
  rw [h.getElem? hwrapper]
  exact congrArg some hs

theorem contents_eq_some {m : Memory α} {s : ℕ} {a : α} :
    m.contents s = some a ↔ m.storages[s]? = some (some a) := by
  unfold contents
  rw [Option.join_eq_some_iff]

theorem Grows.contents (h : Grows m m') {s : ℕ} {a : α}
    (hs : m.contents s = some a) : m'.contents s = some a := by
  rw [contents_eq_some] at hs ⊢
  exact (h.storages s (List.getElem?_eq_some_iff.mp hs).1).trans hs

end Memory

namespace Memory

variable {m m' : Memory α}

/-- Overwriting operands in place leaves the wrappers, the allocated storages, and the
contents of all other storages. -/
theorem writeAll_spec {operands : List ℕ} {writes : List (ℕ × α)}
    (h : m.writeAll operands writes = some m') :
    m'.wrappers = m.wrappers ∧ m'.latestVersion = m.latestVersion ∧
      m'.storages.length = m.storages.length ∧
      (∀ s, (∀ p ∈ writes, operands[p.1]? ≠ some s) → m'.storages[s]? = m.storages[s]?) ∧
      ∀ s a, m.contents s = some a → ∃ a', m'.contents s = some a' := by
  induction writes generalizing m with
  | nil =>
    cases h
    exact ⟨rfl, rfl, rfl, fun _ _ => rfl, fun _ a ha => ⟨a, ha⟩⟩
  | cons p writes ih =>
    obtain ⟨operand, b⟩ := p
    simp only [writeAll, bind, Option.bind_eq_some_iff] at h
    obtain ⟨t, ht, h⟩ := h
    obtain ⟨hwrappers, hversion, hlen, hother, halloc⟩ := ih h
    refine ⟨hwrappers, hversion, hlen.trans (by simp [write]), ?_, ?_⟩
    · intro s hs
      have hne : t ≠ s := fun heq => hs (operand, b) (by simp) (heq ▸ ht)
      rw [hother s fun p hp => hs p (by simp [hp])]
      exact List.getElem?_set_ne hne
    · intro s a ha
      by_cases heq : t = s
      · subst heq
        rw [contents_eq_some] at ha
        apply halloc t b
        rw [contents_eq_some]
        exact List.getElem?_set_self (List.getElem?_eq_some_iff.mp ha).1
      · apply halloc s a
        rw [contents_eq_some] at ha ⊢
        exact (List.getElem?_set_ne heq).trans ha

/-- Freeing operands leaves the wrappers and all other storages. -/
theorem freeAll_spec {operands frees : List ℕ} (h : m.freeAll operands frees = some m') :
    m'.wrappers = m.wrappers ∧ m'.latestVersion = m.latestVersion ∧
      m'.storages.length = m.storages.length ∧
      (∀ s, (∀ i ∈ frees, operands[i]? ≠ some s) → m'.storages[s]? = m.storages[s]?) ∧
      ∀ s a, m'.contents s = some a → m.contents s = some a := by
  induction frees generalizing m with
  | nil =>
    cases h
    exact ⟨rfl, rfl, rfl, fun _ _ => rfl, fun _ _ ha => ha⟩
  | cons operand frees ih =>
    simp only [freeAll, bind, Option.bind_eq_some_iff] at h
    obtain ⟨t, ht, h⟩ := h
    obtain ⟨hwrappers, hversion, hlen, hother, hold⟩ := ih h
    refine ⟨hwrappers, hversion, hlen.trans (by simp [free]), ?_, ?_⟩
    · intro s hs
      have hne : t ≠ s := fun heq => hs operand (by simp) (heq ▸ ht)
      rw [hother s fun i hi => hs i (by simp [hi])]
      exact List.getElem?_set_ne hne
    · intro s a ha
      have hfree := hold s a ha
      rw [contents_eq_some] at hfree ⊢
      by_cases heq : t = s
      · subst heq
        have hlt : t < m.storages.length := by
          simpa [free] using (List.getElem?_eq_some_iff.mp hfree).1
        have hnone : (m.free t).storages[t]? = some none := List.getElem?_set_self hlt
        rw [hnone] at hfree
        cases hfree
      · exact (List.getElem?_set_ne heq).symm.trans hfree

/-- The storage of a converted tensor holds something; wrappers are left alone. -/
theorem convertLayout_spec {K : Kernels κ ρ α} {layout : ρ} {storage s : ℕ} {a : α}
    (h : m.convertLayout K layout storage a = (s, m'))
    (ha : m.contents storage = some a) :
    m.Grows m' ∧ m'.wrappers = m.wrappers ∧ m'.latestVersion = m.latestVersion ∧
      ∃ b, m'.contents s = some b := by
  unfold convertLayout at h
  cases hconvert : K.convertTensorLayout layout a with
  | fresh b =>
    rw [hconvert] at h
    cases h
    refine ⟨m.grows_allocate b, rfl, rfl, b, ?_⟩
    rw [contents_eq_some]
    simp
  | operand _ =>
    rw [hconvert] at h
    cases h
    exact ⟨Grows.refl m, rfl, rfl, a, ha⟩

/-- Setting marks leaves the storages, the tensors, the versions, and the marks of all other
wrappers. -/
theorem setRetainAll_spec (outs : List ℕ) (retain : Bool) (m : Memory α) :
    (outs.foldl (fun m w => m.setRetain w retain) m).storages = m.storages ∧
      (outs.foldl (fun m w => m.setRetain w retain) m).latestVersion = m.latestVersion ∧
      (outs.foldl (fun m w => m.setRetain w retain) m).wrappers.length = m.wrappers.length ∧
      (∀ w, w ∉ outs →
        (outs.foldl (fun m w => m.setRetain w retain) m).wrappers[w]? = m.wrappers[w]?) ∧
      ∀ w : ℕ, (outs.foldl (fun m w => m.setRetain w retain) m).wrappers[w]?.map
          (fun wrapper : TTNNTensorWrapper => (wrapper.tensor, wrapper.version))
        = m.wrappers[w]?.map
            fun wrapper : TTNNTensorWrapper => (wrapper.tensor, wrapper.version) := by
  induction outs generalizing m with
  | nil => exact ⟨rfl, rfl, rfl, fun _ _ => rfl, fun _ => rfl⟩
  | cons out outs ih =>
    obtain ⟨hstorages, hversion, hlen, hother, hsame⟩ := ih (m.setRetain out retain)
    refine ⟨hstorages, hversion, hlen.trans (by simp [setRetain]), ?_, ?_⟩
    · intro w hw
      have hne : out ≠ w := fun heq => hw (by simp [heq])
      rw [List.foldl_cons, hother w fun hmem => hw (by simp [hmem])]
      simp [setRetain, hne]
    · intro w
      rw [List.foldl_cons, hsame w]
      by_cases heq : out = w
      · subst heq
        cases hw : m.wrappers[out]? with
        | none => simp [setRetain, hw]
        | some wrapper => simp [setRetain, hw]
      · simp [setRetain, heq]

end Memory

/-- Inserting tensors adds wrappers and keeps a pool well formed. -/
theorem insertAll_spec {outputs : List (ℕ × ℕ)} {pool pool' : ProgramTensorPool}
    {m m' : Memory α} (h : insertAll outputs pool m = (pool', m'))
    (hpool : pool.WellFormed m.wrappers.length) :
    m.Grows m' ∧ pool'.WellFormed m'.wrappers.length ∧ m'.storages = m.storages ∧
      pool'.programOutputIds = pool.programOutputIds := by
  induction outputs generalizing pool m with
  | nil =>
    cases h
    exact ⟨Memory.Grows.refl _, hpool, rfl, rfl⟩
  | cons output outputs ih =>
    obtain ⟨globalId, storage⟩ := output
    have hgrows := m.grows_createRuntimeTensor storage false
    have hlt : (m.createRuntimeTensor storage false).1
        < (m.createRuntimeTensor storage false).2.wrappers.length := by
      simp [Memory.createRuntimeTensor]
    obtain ⟨hgrows', hpool', hstorages, hids⟩ := ih h ((hpool.mono hgrows.wrappers_le).insert hlt)
    exact ⟨hgrows.trans hgrows', hpool', hstorages, hids⟩

/-! ## What an operation does -/

namespace State

variable {K : Kernels κ ρ α} {binary : Binary κ} {σ σ' : State κ α} {f : Frame κ}
  {rest : List (Frame κ)}

/-- Deallocating frees at most the storage of the tensor, and without `force` only if no
other reference shares it. -/
theorem deallocate_cases (σ : State κ α) (w : ℕ) (force : Bool) : σ.deallocate w force = σ.memory ∨
      ∃ s, σ.memory.storageOf w = some s ∧ σ.deallocate w force = σ.memory.free s ∧
        (force = true ∨ ∀ w' ∈ σ.references, w' ≠ w → σ.memory.storageOf w' ≠ some s) := by
  unfold deallocate
  cases hs : σ.memory.storageOf w with
  | none => exact .inl rfl
  | some s =>
    by_cases hfree : force ∨ ∀ w' ∈ σ.references, w' ≠ w → σ.memory.storageOf w' ≠ some s
    · exact .inr ⟨s, rfl, if_pos hfree, hfree⟩
    · exact .inl (if_neg hfree)

/-- Deallocating leaves the wrappers and the number of storages, and contents only
disappear. -/
theorem deallocate_spec (σ : State κ α) (w : ℕ) (force : Bool) :
    (σ.deallocate w force).wrappers = σ.memory.wrappers ∧
      (σ.deallocate w force).latestVersion = σ.memory.latestVersion ∧
      (σ.deallocate w force).storages.length = σ.memory.storages.length ∧
      ∀ s a, (σ.deallocate w force).contents s = some a → σ.memory.contents s = some a := by
  rcases deallocate_cases σ w force with heq | ⟨s, -, heq, -⟩
  · rw [heq]
    exact ⟨rfl, rfl, rfl, fun _ _ ha => ha⟩
  · rw [heq]
    have hfree : σ.memory.freeAll [s] [0] = some (σ.memory.free s) := rfl
    obtain ⟨hwrappers, hversion, hlen, -, hold⟩ := Memory.freeAll_spec hfree
    exact ⟨hwrappers, hversion, hlen, hold⟩

variable {ops : List (Op κ)}

/-- A library operation: the operands are read, written and freed, then the results are
placed and inserted. -/
theorem runCompute_cases {kind : κ} {inputs outputs : List ℕ}
    (h : σ.runCompute K f rest kind inputs outputs ops = some σ') :
    ∃ wrappers storages contents effect m₁ m₂ placed m₃ pool m₄,
      σ.effect K f kind inputs = some (storages, effect) ∧
      inputs.mapM f.pool.getRuntimeTensor = some wrappers ∧
      wrappers.mapM σ.memory.storageOf = some storages ∧
      storages.mapM σ.memory.contents = some contents ∧
      K.run kind contents = some effect ∧
      σ.memory.writeAll storages effect.writes = some m₁ ∧
      m₁.freeAll storages effect.frees = some m₂ ∧
      m₂.place storages effect.results = some (placed, m₃) ∧
      placed.length = outputs.length ∧
      insertAll (outputs.zip placed) f.pool m₃ = (pool, m₄) ∧
      σ' = { σ with
        memory := m₄
        frames := { f with pool := pool, operations := ops } :: rest } := by
  simp only [runCompute, bind, Option.bind_eq_some_iff, Prod.exists] at h
  obtain ⟨wrappers, hw, storages, hs, contents, hc, effect, he, m₁, h₁, m₂, h₂, placed, m₃,
    h₃, h⟩ := h
  split_ifs at h with hlen
  cases h
  have heffect : σ.effect K f kind inputs = some (storages, effect) := by
    simp only [State.effect, hw, hs, hc, he, bind, Option.bind_some]
  exact ⟨wrappers, storages, contents, effect, m₁, m₂, placed, m₃, _, _, heffect, hw, hs, hc, he,
    h₁, h₂, h₃, not_not.mp hlen, rfl, rfl⟩

theorem runDeallocate_cases {input : ℕ} {force : Bool}
    (h : σ.runDeallocate f rest input force ops = some σ') :
    ∃ w wrapper pool, f.pool.getRuntimeTensor input = some w ∧
      σ.memory.wrappers[w]? = some wrapper ∧ f.pool.erase input = some pool ∧
      σ' = { σ with
        memory := if ¬ wrapper.retain then σ.deallocate w force else σ.memory
        frames := { f with pool := pool, operations := ops } :: rest } := by
  simp only [runDeallocate, bind, Option.bind_eq_some_iff, Option.some.injEq] at h
  obtain ⟨w, hw, wrapper, hwrapper, pool, hpool, rfl⟩ := h
  exact ⟨w, wrapper, pool, hw, hwrapper, hpool, rfl⟩

/-- `load_cached`: a hit inserts the cached tensors, a miss enters the function. -/
theorem runLoadCached_cases {calleeName : String} {programIdx : ℕ} {inputs outputs : List ℕ}
    (h : σ.runLoadCached binary f rest calleeName programIdx inputs outputs ops = some σ') :
    ∃ wrappers inputWrappers, inputs.mapM f.pool.getRuntimeTensor = some wrappers ∧
      wrappers.mapM (fun w => σ.memory.wrappers[w]?) = some inputWrappers ∧
      ((∃ tensors storages pool m,
          (σ.cache.getAll (generateCacheOuterKey f.deviceId f.programIndex) calleeName
            (inputWrappers.map TTNNTensorWrapper.version)).1 = some tensors ∧
          tensors.length = outputs.length ∧
          tensors.mapM σ.memory.storageOf = some storages ∧
          insertAll (outputs.zip storages) f.pool σ.memory = (pool, m) ∧
          σ' = { σ with
            memory := m
            cache := (σ.cache.getAll (generateCacheOuterKey f.deviceId f.programIndex)
              calleeName (inputWrappers.map TTNNTensorWrapper.version)).2
            frames := { f with pool := pool, operations := ops } :: rest }) ∨
        ∃ callee, (σ.cache.getAll (generateCacheOuterKey f.deviceId f.programIndex) calleeName
            (inputWrappers.map TTNNTensorWrapper.version)).1 = none ∧
          enter binary f.deviceId programIdx wrappers (.cached
            (generateCacheOuterKey f.deviceId f.programIndex) calleeName
            (inputWrappers.map TTNNTensorWrapper.version) outputs) = some callee ∧
          σ' = { σ with
            cache := (σ.cache.getAll (generateCacheOuterKey f.deviceId f.programIndex)
              calleeName (inputWrappers.map TTNNTensorWrapper.version)).2
            frames := callee :: { f with operations := ops } :: rest }) := by
  simp only [runLoadCached, bind, Option.bind_eq_some_iff] at h
  obtain ⟨wrappers, hw, inputWrappers, hv, h⟩ := h
  refine ⟨wrappers, inputWrappers, hw, hv, ?_⟩
  cases hans : (σ.cache.getAll (generateCacheOuterKey f.deviceId f.programIndex) calleeName
      (inputWrappers.map TTNNTensorWrapper.version)).1 with
  | some tensors =>
    left
    rw [hans] at h
    simp only at h
    split_ifs at h with hlen
    simp only [Option.bind_eq_some_iff, Option.some.injEq] at h
    obtain ⟨storages, hs, rfl⟩ := h
    exact ⟨tensors, storages, _, _, rfl, not_not.mp hlen, hs, rfl, rfl⟩
  | none =>
    right
    rw [hans] at h
    simp only [Option.bind_eq_some_iff, Option.some.injEq] at h
    obtain ⟨callee, hcallee, rfl⟩ := h
    exact ⟨callee, rfl, hcallee, rfl⟩

/-- The end of a program: marks of the outputs are cleared, then they are returned to the
caller or cached and inserted below. -/
theorem finish_cases (h : σ.finish f rest = some σ') :
    ∃ outs, f.pool.programOutputIds.mapM f.pool.getRuntimeTensor = some outs ∧
      ((f.ret = .submit ∧ σ' = { σ with
          memory := outs.foldl (fun m w => m.setRetain w false) σ.memory
          held := σ.held ++ outs
          frames := rest }) ∨
        ∃ cacheKey calleeName inputVersions outputs parent rest' storages pool m,
          f.ret = .cached cacheKey calleeName inputVersions outputs ∧
          rest = parent :: rest' ∧ outs.length ≤ outputs.length ∧
          outs.mapM (outs.foldl (fun m w => m.setRetain w false) σ.memory).storageOf
            = some storages ∧
          insertAll (outputs.zip storages) parent.pool
            (outs.foldl (fun m w => m.setRetain w false) σ.memory) = (pool, m) ∧
          σ' = { σ with
            memory := m
            cache := σ.cache.store cacheKey calleeName inputVersions outs
            frames := { parent with pool := pool } :: rest' }) := by
  simp only [finish, bind, Option.bind_eq_some_iff] at h
  obtain ⟨outs, houts, h⟩ := h
  refine ⟨outs, houts, ?_⟩
  cases hret : f.ret with
  | submit =>
    left
    rw [hret] at h
    cases h
    exact ⟨rfl, rfl⟩
  | cached cacheKey calleeName inputVersions outputs =>
    right
    rw [hret] at h
    cases rest with
    | nil => cases h
    | cons parent rest' =>
      simp only at h
      split_ifs at h with hlen
      simp only [Option.bind_eq_some_iff, Option.some.injEq] at h
      obtain ⟨storages, hs, rfl⟩ := h
      exact ⟨cacheKey, calleeName, inputVersions, outputs, parent, rest', storages, _, _, rfl, rfl,
        not_lt.mp hlen, hs, rfl, rfl⟩

end State

end TTNNRuntime
