/-
# Running the commands of a metal program

`CQExecutor` goes through the commands of a program.  It keeps host tensors and device buffers
under the global ids of the commands, and enqueues writes, programs and reads, which the device
takes in order while the host goes on.

* `Host`, `execute` : the executor, with its assertions; `cqExecutor` : it as a machine with a
  command queue;
* `Op.eval`, `Func.eval` : the sequential meaning of a function, by values;
* `Rel` : the executor holds every live value under the id of the value;
* `rel_of_convert` : the commands of an operation do what the operation means;
* `Consistent` : what is meant to hold in every state of a run;
* `consistent_of_reaches` : it does when every host allocation has less than `2 ^ 32` bytes, and
  no transfer moves more bytes than its host buffer has.

The executor computes the bytes of a host allocation in 32 bits, and a transfer moves the whole
device buffer.  A transfer that does not fit its storage is no step.  The memory of a host
allocation is whatever it was before.
-/
import TTMLIR.CommandQueue
import TTMLIR.MetalProgram

namespace TTMetal

open CommandQueue Fallible

/-! ## The library -/

/-- `TensorDesc`. -/
structure TensorDesc : Type where
  shape : List ℕ
  stride : List ℕ
  itemsize : ℕ
  deriving DecidableEq, Repr

/-- A host `Tensor`: where its data is, its descriptor, and the bytes of its storage. -/
structure HostTensor : Type where
  data : ℕ
  desc : TensorDesc
  size : ℕ
  deriving DecidableEq, Repr

/-- `DeviceBuffer`. -/
structure DeviceBuffer : Type where
  address : ℕ
  desc : MemRefType
  deriving DecidableEq, Repr

/-- `MetalTensor`. -/
inductive MetalTensor : Type where
  | host (tensor : HostTensor)
  | device (buffer : DeviceBuffer)
  deriving DecidableEq, Repr

/-- A semaphore of a program. -/
structure Semaphore : Type where
  id : ℕ
  initialValue : ℕ
  coreType : CoreType
  deriving DecidableEq, Repr

/-- A kernel of a program, its arguments bound. -/
structure Kernel : Type where
  source : ℕ
  unit : KernelUnit
  rtArgs : List ℕ
  ctArgs : List ℕ
  deriving DecidableEq, Repr

/-- A program that is enqueued: its kernels, its circular buffers by port, its semaphores. -/
structure LaunchedProgram : Type where
  kernels : List Kernel
  cbs : List (ℕ × DeviceBuffer)
  semaphores : List Semaphore
  deriving DecidableEq, Repr

/-- What is in the storages of the host, and the memory of the device. -/
structure Memory (δ M : Type) : Type where
  heap : ℕ → δ
  device : M

/-- What the library does: a new semaphore next to those of a program, if there is one left,
and the effects of the enqueued commands on the device. -/
structure Library (δ M : Type) : Type where
  createSemaphore : List Semaphore → ℕ → CoreType → Option ℕ
  launch : LaunchedProgram → M → M
  write : DeviceBuffer → δ → M → M
  read : DeviceBuffer → M → δ

variable {δ M : Type} (lib : Library δ M)

/-! ## The arguments of kernels -/

/-- One argument of a kernel: a port, an address, or a semaphore that is created for it. -/
def bindArg (port address : ℕ → Option ℕ) (semaphores : List Semaphore) :
    KernelArg → Option (ℕ × List Semaphore)
  | .cbPort operandIdx => (port operandIdx).map fun value => (value, semaphores)
  | .bufferAddress operandIdx => (address operandIdx).map fun value => (value, semaphores)
  | .semaphore initialValue coreType =>
    (lib.createSemaphore semaphores initialValue coreType).map fun id =>
      (id, ⟨id, initialValue, coreType⟩ :: semaphores)

/-- The arguments of a kernel, in order. -/
def bindArgs (port address : ℕ → Option ℕ) :
    List Semaphore → List KernelArg → Option (List ℕ × List Semaphore)
  | semaphores, [] => some ([], semaphores)
  | semaphores, arg :: args => do
      let (value, semaphores) ← bindArg lib port address semaphores arg
      let (values, semaphores) ← bindArgs port address semaphores args
      pure (value :: values, semaphores)

/-- The kernels of a program, in order: compile time arguments, then runtime arguments. -/
def createKernels (port address : ℕ → Option ℕ) :
    List Semaphore → List KernelConfig → Option (List Kernel × List Semaphore)
  | semaphores, [] => some ([], semaphores)
  | semaphores, config :: configs => do
      let (ctArgs, semaphores) ← bindArgs lib port address semaphores config.ctArgs
      let (rtArgs, semaphores) ← bindArgs lib port address semaphores config.rtArgs
      let (kernels, semaphores) ← createKernels port address semaphores configs
      pure (⟨config.kernel, config.unit, rtArgs, ctArgs⟩ :: kernels, semaphores)

/-! ## The executor -/

/-- What the host of a running executor keeps: its maps, the next storage that is allocated,
and its outputs. -/
structure Host : Type where
  deviceBuffers : ℕ → Option DeviceBuffer
  hostBuffers : ℕ → Option HostTensor
  nextStorage : ℕ
  outputs : List MetalTensor

/-- `DeviceAddressValidator`, without the checks of its debug mode. -/
def validate (address : ℕ) : Option ℕ :=
  if address % 2 ^ 32 ≠ 0 then some (address % 2 ^ 32) else none

/-- `calculateStride`, in 32 bits. -/
def calculateStride : List ℕ → List ℕ
  | [] => []
  | [_] => [1]
  | _ :: dim :: dims =>
    match calculateStride (dim :: dims) with
    | stride :: strides => stride * dim % 2 ^ 32 :: stride :: strides
    | [] => []

/-- The size that a host allocation computes, in 32 bits. -/
def hostAllocSize (desc : TensorDesc) : ℕ :=
  desc.shape.headD 0 * desc.stride.headD 0 % 2 ^ 32 * desc.itemsize % 2 ^ 32

/-- The descriptor of a host allocation. -/
def tensorDesc (desc : MemRefType) : TensorDesc :=
  ⟨desc.shape, calculateStride desc.shape, desc.elementSize⟩

/-- An effect that is enqueued, with the bytes that a transfer moves. -/
inductive Pending : Type where
  | write (src : HostTensor) (dst : DeviceBuffer) (bytes : ℕ)
  | program (launched : LaunchedProgram)
  | read (src : DeviceBuffer) (dst : HostTensor) (bytes : ℕ)
  | recordEvent
  deriving DecidableEq, Repr

/-- The effect writes host memory. -/
def Pending.isRead : Pending → Bool
  | .read _ _ _ => true
  | _ => false

/-- What an effect does.  A transfer stays within its storage. -/
def Pending.apply : Pending → Memory δ M → Option (Memory δ M)
  | .write src dst bytes, m =>
    if bytes ≤ src.size then some ⟨m.heap, lib.write dst (m.heap src.data) m.device⟩ else none
  | .program launched, m => some ⟨m.heap, lib.launch launched m.device⟩
  | .read src dst bytes, m =>
    if bytes ≤ dst.size then
      some ⟨Function.update m.heap dst.data (lib.read src m.device), m.device⟩
    else none
  | .recordEvent, m => some m

/-- `HostAllocCommand`. -/
def executeHostAlloc (dst : BufferRef) (host : Host) : Option Host := do
  guard (dst.address = 0)
  guard (dst.desc.shardLayout = false)
  guard (0 < dst.desc.shape.length)
  guard ((host.hostBuffers dst.globalId).isNone)
  let tensor : HostTensor :=
    ⟨host.nextStorage, tensorDesc dst.desc, hostAllocSize (tensorDesc dst.desc)⟩
  pure { host with
    hostBuffers := Function.update host.hostBuffers dst.globalId (some tensor)
    nextStorage := host.nextStorage + 1 }

/-- `CreateBufferCommand`, with `createBufferFromBufferRef`. -/
def executeCreateBuffer (ref : BufferRef) (host : Host) : Option Host :=
  if (host.deviceBuffers ref.globalId).isSome then some host
  else do
    guard (ref.desc.shardLayout = true)
    guard (ref.desc.isDevice = true)
    let address ← validate ref.address
    pure { host with
      deviceBuffers := Function.update host.deviceBuffers ref.globalId (some ⟨address, ref.desc⟩) }

/-- The address of an operand that is alive. -/
def bufferAddress (buffers : List BufferRef) (host : Host) (operandIdx : ℕ) : Option ℕ := do
  let buffer ← buffers[operandIdx]?
  guard (host.deviceBuffers buffer.globalId).isSome
  validate buffer.address

/-- The circular buffer of a reference. -/
def circularBuffer (host : Host) (cb : CBRef) : Option (ℕ × DeviceBuffer) :=
  (host.deviceBuffers cb.bufferRef.globalId).map fun buffer => (cb.port, buffer)

/-- `EnqueueProgramCommand`, with `processKernelArgs`. -/
def executeEnqueueProgram (buffers : List BufferRef) (cbs : List CBRef)
    (kernels : List KernelConfig) (host : Host) : Option LaunchedProgram := do
  let (kernels, semaphores) ←
    createKernels lib (fun i => cbs[i]?.map CBRef.port) (bufferAddress buffers host) [] kernels
  let cbs ← cbs.mapM (circularBuffer host)
  pure ⟨kernels, cbs, semaphores⟩

/-- A result: its id is in exactly one of the maps. -/
def returned (host : Host) (result : BufferRef) : Option MetalTensor :=
  match host.deviceBuffers result.globalId, host.hostBuffers result.globalId with
  | some buffer, none => some (.device buffer)
  | none, some tensor => some (.host tensor)
  | _, _ => none

/-- `execute`: what a command does on the host, and what it enqueues. -/
def execute : Command → Host → Option (Host × List Pending)
  | .hostAlloc dst, host => (executeHostAlloc dst host).map fun host => (host, [])
  | .createBuffer ref, host => (executeCreateBuffer ref host).map fun host => (host, [])
  | .enqueueProgram buffers cbs kernels, host =>
    (executeEnqueueProgram lib buffers cbs kernels host).map fun program =>
      (host, [.program program])
  | .enqueueWriteBuffer src dst, host => do
      let tensor ← host.hostBuffers src.globalId
      let buffer ← host.deviceBuffers dst.globalId
      pure (host, [.write tensor buffer buffer.desc.bufferSize])
  | .enqueueReadBuffer src dst, host => do
      let tensor ← host.hostBuffers dst.globalId
      let buffer ← host.deviceBuffers src.globalId
      pure (host, [.read buffer tensor buffer.desc.bufferSize])
  | .deallocateBuffer ref, host => do
      guard (host.deviceBuffers ref.globalId).isSome
      pure ({ host with
        deviceBuffers := Function.update host.deviceBuffers ref.globalId none }, [])
  | .finish, host => some (host, [])
  | .ret results, host => do
      guard (host.outputs = [])
      let outputs ← results.mapM (returned host)
      pure ({ host with outputs := outputs }, [.recordEvent])

/-- The executor with its command queue.  `FinishCommand` waits for all that is enqueued. -/
def cqExecutor : Machine Command Host Pending (Memory δ M) where
  isBarrier command := decide (command = .finish)
  issue := execute lib
  apply := Pending.apply lib

/-- The constructor of `CQExecutor`: inputs are bound by position, under new ids. -/
def bindInputs : List BufferRef → List MetalTensor → Host → Option Host
  | _, [], host => some host
  | [], _ :: _, _ => none
  | ref :: refs, .host tensor :: inputs, host => do
      guard (host.hostBuffers ref.globalId).isNone
      bindInputs refs inputs { host with
        hostBuffers := Function.update host.hostBuffers ref.globalId (some tensor) }
  | ref :: refs, .device buffer :: inputs, host => do
      guard (host.deviceBuffers ref.globalId).isNone
      bindInputs refs inputs { host with
        deviceBuffers := Function.update host.deviceBuffers ref.globalId (some buffer) }

/-- An executor with empty maps. -/
def Host.empty (nextStorage : ℕ) : Host := ⟨fun _ => none, fun _ => none, nextStorage, []⟩

/-! ## The sequential meaning -/

/-- What a value stands for: a storage of the host, or a buffer of the device. -/
inductive Handle : Type where
  | host (storage : ℕ)
  | device (buffer : DeviceBuffer)
  deriving DecidableEq, Repr

/-- The live values, the next storage and the memory. -/
structure Store (δ M : Type) : Type where
  env : Value → Option Handle
  nextStorage : ℕ
  memory : Memory δ M

/-- The buffer that an operand is, streams or views. -/
def Operand.underlying : Operand → Value
  | .buffer value => value
  | .view _ input => input.underlying
  | .stream _ input _ => input.underlying

/-- The buffer that is the circular buffer of an operand. -/
def Operand.circularBuffer (operand : Operand) : Value := operand.streamStorage.underlying

/-- The device buffer of a value. -/
def Store.deviceBuffer (store : Store δ M) (value : Value) : Option DeviceBuffer :=
  match store.env value with
  | some (.device buffer) => some buffer
  | _ => none

/-- The storage of a host value. -/
def Store.storage (store : Store δ M) (value : Value) : Option ℕ :=
  match store.env value with
  | some (.host storage) => some storage
  | _ => none

/-- The program that a `generic` runs: the port of an operand is its position, and its address
that of the buffer it is. -/
def Store.program (store : Store δ M) (operands : List Operand) (threads : List Thread) :
    Option LaunchedProgram := do
  let buffers ← operands.mapM fun operand => store.deviceBuffer operand.underlying
  let cbs ← operands.mapM fun operand => store.deviceBuffer operand.circularBuffer
  let configs ← convertThreadsToKernelConfigs 0 threads
  let (kernels, semaphores) ←
    createKernels lib (fun i => (List.range operands.length)[i]?)
      (fun i => buffers[i]?.map DeviceBuffer.address) [] (configs.map kernelConfigToFlatbuffer)
  pure ⟨kernels, (List.range operands.length).zip cbs, semaphores⟩

/-- The meaning of an operation. -/
def Op.eval : Op → Store δ M → Option (Store δ M)
  | .alloc result address, store =>
    if result.type.isHost then
      some { store with
        env := Function.update store.env result (some (.host store.nextStorage))
        nextStorage := store.nextStorage + 1 }
    else
      address.map fun address => { store with
        env := Function.update store.env result (some (.device ⟨address, result.type⟩)) }
  | .toLayout input output, store =>
    match store.env input, store.env output with
    | some (.device buffer), some (.host storage) =>
      some { store with memory :=
        ⟨Function.update store.memory.heap storage (lib.read buffer store.memory.device),
          store.memory.device⟩ }
    | some (.host storage), some (.device buffer) =>
      some { store with memory :=
        ⟨store.memory.heap,
          lib.write buffer (store.memory.heap storage) store.memory.device⟩ }
    | _, _ => none
  | .generic operands threads, store =>
    (store.program lib operands threads).map fun program => { store with
      memory := ⟨store.memory.heap, lib.launch program store.memory.device⟩ }
  | .deallocateBuffer input, store =>
    (store.deviceBuffer input).map fun _ => { store with
      env := Function.update store.env input none }
  | .finish, store => some store

/-- The meaning of a list of operations. -/
def evalBody : List Op → Store δ M → Option (Store δ M)
  | [], store => some store
  | op :: body, store => (op.eval lib store).bind (evalBody body)

/-- The arguments of a function stand for the storages of its inputs. -/
def bindArguments : List Value → List ℕ → Store δ M → Option (Store δ M)
  | [], [], store => some store
  | arg :: args, storage :: storages, store =>
    bindArguments args storages { store with
      env := Function.update store.env arg (some (.host storage)) }
  | _, _, _ => none

/-- The sequential meaning of a function: what its results hold in the end. -/
def Func.eval (f : Func) (inputs : List ℕ) (nextStorage : ℕ) (memory : Memory δ M) :
    Option (List δ) := do
  let store ← bindArguments f.args inputs ⟨fun _ => none, nextStorage, memory⟩
  let store ← evalBody lib f.body store
  f.results.mapM fun result => (store.storage result).map store.memory.heap

/-! ## The size of a host allocation -/

theorem calculateStride_cons (dim : ℕ) (dims : List ℕ) :
    ∃ stride strides, calculateStride (dim :: dims) = stride :: strides ∧
      stride % 2 ^ 32 = dims.prod % 2 ^ 32 := by
  induction dims generalizing dim with
  | nil => exact ⟨1, [], rfl, rfl⟩
  | cons d dims ih =>
    obtain ⟨stride, strides, heq, hmod⟩ := ih d
    refine ⟨stride * d % 2 ^ 32, stride :: strides, by simp only [calculateStride, heq], ?_⟩
    rw [Nat.mod_mod, List.prod_cons, Nat.mul_comm d, Nat.mul_mod, hmod, ← Nat.mul_mod]

theorem hostAllocSize_tensorDesc {desc : MemRefType} (h : 0 < desc.shape.length) :
    hostAllocSize (tensorDesc desc) = desc.sizeBytes % 2 ^ 32 := by
  obtain ⟨shape, elementSize, shardLayout, memorySpace⟩ := desc
  cases shape with
  | nil => exact absurd h (Nat.lt_irrefl 0)
  | cons dim dims =>
    obtain ⟨stride, strides, heq, hmod⟩ := calculateStride_cons dim dims
    simp only [hostAllocSize, tensorDesc, heq, List.headD_cons, MemRefType.sizeBytes,
      List.prod_cons]
    rw [Nat.mul_mod, Nat.mod_mod, Nat.mul_mod dim stride, hmod, ← Nat.mul_mod dim, ← Nat.mul_mod]

/-! ## The executor and the sequential meaning -/

/-- What an operation declares passes the assertions of the executor: a host buffer has no
device layout and at least one dimension, a device buffer is in device memory at an address of
32 bits that is not null. -/
def Op.Accepted : Op → Prop
  | .alloc result address =>
    if result.type.isHost then
      result.type.shardLayout = false ∧ 0 < result.type.shape.length
    else
      result.type.isDevice = true ∧ ∀ a ∈ address, 0 < a ∧ a < 2 ^ 32
  | _ => True

/-- A host buffer has less than `2 ^ 32` bytes, and a device buffer has no more bytes than the
host buffer it is written from or read into. -/
def Op.Fits : Op → Prop
  | .alloc result _ => result.type.isHost → result.type.sizeBytes < 2 ^ 32
  | .toLayout input output =>
    if input.type.isHost then output.type.bufferSize ≤ input.type.sizeBytes
    else input.type.bufferSize ≤ output.type.sizeBytes
  | _ => True

instance : DecidablePred Op.Accepted
  | .alloc result _ => inferInstanceAs (Decidable (if result.type.isHost then _ else _))
  | .toLayout _ _ | .generic _ _ | .deallocateBuffer _ | .finish => .isTrue trivial

instance : DecidablePred Op.Fits
  | .alloc result _ =>
    inferInstanceAs (Decidable (result.type.isHost → result.type.sizeBytes < 2 ^ 32))
  | .toLayout input _ => inferInstanceAs (Decidable (if input.type.isHost then _ else _))
  | .generic _ _ | .deallocateBuffer _ | .finish => .isTrue trivial

/-- What the executor holds under the id of a value. -/
inductive Backed (host : Host) (value : Value) (ref : BufferRef) : Handle → Prop
  | host {tensor : HostTensor} {storage : ℕ} :
      host.hostBuffers ref.globalId = some tensor → tensor.data = storage →
      value.type.sizeBytes ≤ tensor.size → Backed host value ref (.host storage)
  | device {buffer : DeviceBuffer} :
      host.deviceBuffers ref.globalId = some buffer → validate ref.address = some buffer.address →
      value.type.isHost = false → buffer.desc = value.type → Backed host value ref (.device buffer)

/-- **The executor represents the store.**  Every live value is held under the id of the value,
ids are held once, and new ids are free. -/
structure Rel (cache : FlatbufferObjectCache) (store : Store δ M) (host : Host) : Prop where
  keyed : cache.Keyed
  backed : ∀ v h, store.env v = some h → ∃ ref, cache.find v = some ref ∧ Backed host v ref h
  free : ∀ id, cache.globalId ≤ id → host.deviceBuffers id = none ∧ host.hostBuffers id = none
  apart : ∀ id, host.deviceBuffers id = none ∨ host.hostBuffers id = none
  nextStorage : host.nextStorage = store.nextStorage
  outputs : host.outputs = []

section Refinement

variable {cache cache' : FlatbufferObjectCache} {store store' : Store δ M} {host host' : Host}
  {v : Value} {ref : BufferRef} {h : Handle}

theorem Backed.congr (hb : Backed host v ref h)
    (hdevice : host'.deviceBuffers ref.globalId = host.deviceBuffers ref.globalId)
    (hhost : host'.hostBuffers ref.globalId = host.hostBuffers ref.globalId) :
    Backed host' v ref h := by
  cases hb with
  | host hget hdata hsize => exact .host (hhost.trans hget) hdata hsize
  | device hget haddress hspace hdesc => exact .device (hdevice.trans hget) haddress hspace hdesc

theorem Rel.setMemory (hr : Rel cache store host) (memory : Memory δ M) :
    Rel cache { store with memory := memory } host :=
  { hr with }

variable {lib}

section

variable (hr : Rel cache store host)

include hr

/-- A new value, under its new id. -/
theorem Rel.insert {address : ℕ} (hnew : cache.find v = none)
    (hb : Backed host' v ⟨cache.globalId, address, v.type⟩ h)
    (hold : ∀ id, id ≠ cache.globalId → host'.deviceBuffers id = host.deviceBuffers id ∧
      host'.hostBuffers id = host.hostBuffers id)
    (hapart : host'.deviceBuffers cache.globalId = none ∨ host'.hostBuffers cache.globalId = none)
    (hout : host'.outputs = host.outputs) {n : ℕ} (hn : host'.nextStorage = n) :
    Rel (cache.insert v address)
      { store with env := Function.update store.env v (some h), nextStorage := n } host' where
  keyed := hr.keyed.insert
  backed w h' hw := by
    change Function.update store.env v (some h) w = some h' at hw
    by_cases hwv : w = v
    · subst hwv
      rw [Function.update_self] at hw
      obtain rfl := Option.some.inj hw
      exact ⟨_, FlatbufferObjectCache.find_insert_self, hb⟩
    · rw [Function.update_of_ne hwv] at hw
      obtain ⟨ref, hfind, hb'⟩ := hr.backed w h' hw
      obtain ⟨hdevice, hhost⟩ := hold ref.globalId (hr.keyed.lt w ref hfind).ne
      exact ⟨ref, (FlatbufferObjectCache.find_insert_of_ne hwv).trans hfind,
        hb'.congr hdevice hhost⟩
  free id hid := by
    have hlt : cache.globalId < id := hid
    obtain ⟨hdevice, hhost⟩ := hold id hlt.ne'
    rw [hdevice, hhost]
    exact hr.free id hlt.le
  apart id := by
    by_cases hid : id = cache.globalId
    · rwa [hid]
    · obtain ⟨hdevice, hhost⟩ := hold id hid
      rw [hdevice, hhost]
      exact hr.apart id
  nextStorage := hn
  outputs := hout.trans hr.outputs

/-- A device buffer that is held under the next id. -/
theorem Rel.insert_device (address : ℕ) (hnew : cache.find v = none)
    (hspace : v.type.isHost = false) (hvalid : validate address = some address) :
    Rel (cache.insert v address)
      { store with env := Function.update store.env v (some (.device ⟨address, v.type⟩)) }
      { host with deviceBuffers :=
          Function.update host.deviceBuffers cache.globalId (some ⟨address, v.type⟩) } := by
  obtain ⟨-, hhost⟩ := hr.free cache.globalId le_rfl
  refine hr.insert hnew ?_ ?_ (.inr ?_) ?_ ?_
  · exact .device (Function.update_self _ _ _) hvalid hspace rfl
  · exact fun id hid => ⟨Function.update_of_ne hid _ _, rfl⟩
  · exact hhost
  · rfl
  · exact hr.nextStorage

/-- A device buffer that is deallocated. -/
theorem Rel.erase (hfind : cache.find v = some ref) :
    Rel cache { store with env := Function.update store.env v none }
      { host with deviceBuffers := Function.update host.deviceBuffers ref.globalId none } where
  keyed := hr.keyed
  backed w h' hw := by
    change Function.update store.env v none w = some h' at hw
    have hwv : w ≠ v := by
      rintro rfl
      rw [Function.update_self] at hw
      cases hw
    rw [Function.update_of_ne hwv] at hw
    obtain ⟨ref', hfind', hb⟩ := hr.backed w h' hw
    have hne : ref'.globalId ≠ ref.globalId := fun hid =>
      hwv (hr.keyed.inj w v ref' ref hfind' hfind hid)
    exact ⟨ref', hfind', hb.congr (Function.update_of_ne hne _ _) rfl⟩
  free id hid := by
    refine ⟨?_, (hr.free id hid).2⟩
    by_cases hne : id = ref.globalId
    · rw [hne]
      exact Function.update_self _ _ _
    · exact (Function.update_of_ne hne _ _).trans (hr.free id hid).1
  apart id := by
    by_cases hne : id = ref.globalId
    · left
      rw [hne]
      exact Function.update_self _ _ _
    · exact (hr.apart id).imp_left (Function.update_of_ne hne _ _).trans
  nextStorage := hr.nextStorage
  outputs := hr.outputs

/-- The device buffer of a live value. -/
theorem Rel.deviceBuffer {buffer : DeviceBuffer}
    (hv : store.deviceBuffer v = some buffer) (hfind : cache.find v = some ref) :
    host.deviceBuffers ref.globalId = some buffer ∧
      validate ref.address = some buffer.address ∧ buffer.desc = v.type := by
  have henv : store.env v = some (.device buffer) := by
    unfold Store.deviceBuffer at hv
    split at hv
    · next b heq => rw [heq, Option.some.inj hv]
    · cases hv
  obtain ⟨ref', hfind', hb⟩ := hr.backed v _ henv
  rw [hfind] at hfind'
  obtain rfl := Option.some.inj hfind'
  cases hb with
  | device hget haddress _ hdesc => exact ⟨hget, haddress, hdesc⟩

/-- The tensor of a live host value. -/
theorem Rel.storage {storage : ℕ}
    (hv : store.storage v = some storage) (hfind : cache.find v = some ref) :
    ∃ tensor, host.hostBuffers ref.globalId = some tensor ∧ tensor.data = storage ∧
      v.type.sizeBytes ≤ tensor.size := by
  have henv : store.env v = some (.host storage) := by
    unfold Store.storage at hv
    split at hv
    · next s heq => rw [heq, Option.some.inj hv]
    · cases hv
  obtain ⟨ref', hfind', hb⟩ := hr.backed v _ henv
  rw [hfind] at hfind'
  obtain rfl := Option.some.inj hfind'
  cases hb with
  | host hget hdata hsize => exact ⟨_, hget, hdata, hsize⟩

end

/-! ## The commands of an operation -/

variable {command : Command}

theorem exec_of_execute (es : List Pending) {m m' : Memory δ M}
    (hne : command ≠ .finish) (h : execute lib command host = some (host', es))
    (hsettle : settle (Pending.apply lib) es m = some m') :
    (cqExecutor lib).exec command host m = some (host', m') :=
  (Machine.exec_eq_some (decide_eq_false hne)).mpr ⟨es, h, hsettle⟩

theorem run_singleton {m m' : Memory δ M}
    (h : (cqExecutor lib).exec command host m = some (host', m')) :
    (cqExecutor lib).run [command] host m = some (host', m') :=
  Machine.run_cons.mpr ⟨host', m', h, rfl⟩

variable {commands : List Command}

theorem toCommands_singleton {op : MetalOp} (h : toCommands cache [op] = some (commands, cache')) :
    ∃ command, toCommand cache op = some (command, cache') ∧ commands = [command] := by
  obtain ⟨command, cache₁, rest, hop, hrest, rfl⟩ := toCommands_cons.mp h
  obtain ⟨rfl, rfl⟩ := Prod.mk.inj (Option.some.inj hrest)
  exact ⟨command, hop, rfl⟩

/-- A host allocation takes the next storage. -/
theorem rel_of_hostAlloc (lib : Library δ M) (hr : Rel cache store host) (hnew : cache.find v = none)
    (hshard : v.type.shardLayout = false) (hrank : 0 < v.type.shape.length)
    (hfits : v.type.sizeBytes < 2 ^ 32) :
    ∃ host', execute lib (.hostAlloc ⟨cache.globalId, 0, v.type⟩) host = some (host', []) ∧
      Rel (cache.insert v 0)
        { store with
          env := Function.update store.env v (some (.host store.nextStorage))
          nextStorage := store.nextStorage + 1 } host' := by
  obtain ⟨hdevice, hhost⟩ := hr.free cache.globalId le_rfl
  refine ⟨{ host with
    hostBuffers := Function.update host.hostBuffers cache.globalId (some
      ⟨host.nextStorage, tensorDesc v.type, hostAllocSize (tensorDesc v.type)⟩)
    nextStorage := host.nextStorage + 1 }, ?_, ?_⟩
  · simp [execute, executeHostAlloc, hshard, hrank, hhost]
  rw [← hr.nextStorage]
  refine hr.insert hnew ?_ ?_ (.inl ?_) ?_ ?_
  · refine .host (Function.update_self _ _ _) rfl ?_
    exact ((hostAllocSize_tensorDesc hrank).trans (Nat.mod_eq_of_lt hfits)).ge
  · exact fun id hid => ⟨rfl, Function.update_of_ne hid _ _⟩
  · exact hdevice
  · rfl
  · rfl

/-- A device buffer is created at its address. -/
theorem rel_of_createBuffer (lib : Library δ M) (hr : Rel cache store host)
    (hnew : cache.find v = none)
    (hshard : v.type.shardLayout = true) (hdevice : v.type.isDevice = true)
    (hspace : v.type.isHost = false) {address : ℕ} (hpos : 0 < address)
    (hlt : address < 2 ^ 32) :
    ∃ host', execute lib (.createBuffer ⟨cache.globalId, address, v.type⟩) host = some (host', []) ∧
      Rel (cache.insert v address)
        { store with env := Function.update store.env v (some (.device ⟨address, v.type⟩)) }
        host' := by
  obtain ⟨hfree, -⟩ := hr.free cache.globalId le_rfl
  have hvalid : validate address = some address := by
    rw [validate, Nat.mod_eq_of_lt hlt, if_pos hpos.ne']
  refine ⟨{ host with
    deviceBuffers := Function.update host.deviceBuffers cache.globalId
      (some ⟨address, v.type⟩) }, ?_, ?_⟩
  · simp [execute, executeCreateBuffer, hfree, hshard, hdevice, hvalid]
  · exact hr.insert_device address hnew hspace hvalid

/-! ### Programs -/

/-- The references of the operands of a program, and the buffers they stand for. -/
abbrev Bound (host : Host) (ref : BufferRef) (buffer : DeviceBuffer) : Prop :=
  host.deviceBuffers ref.globalId = some buffer ∧ validate ref.address = some buffer.address

variable {refs : List BufferRef}

variable {operands : List Operand} {buffers : List DeviceBuffer}

/-- The operands that are buffers, serialized, are bound to the buffers of the store. -/
theorem Rel.forall₂_bound (hr : Rel cache store host) {g : Operand → Option Value}
    {k : Operand → Value} (hg : ∀ operand v, g operand = some v → k operand = v) {vs : List Value}
    (hvs : operands.mapM g = some vs) (hrefs : vs.mapM cache.find = some refs)
    (hbuffers : operands.mapM (fun operand => store.deviceBuffer (k operand)) = some buffers) :
    List.Forall₂ (Bound host) refs buffers := by
  replace hvs := forall₂_of_mapM_eq_some hvs
  replace hrefs := forall₂_of_mapM_eq_some hrefs
  replace hbuffers := forall₂_of_mapM_eq_some hbuffers
  induction hvs generalizing refs buffers with
  | nil =>
    cases hrefs
    cases hbuffers
    exact .nil
  | cons hv _ ih =>
    cases hrefs with
    | cons href hrefs =>
      cases hbuffers with
      | cons hbuffer hbuffers =>
        rw [hg _ _ hv] at hbuffer
        obtain ⟨hget, haddress, -⟩ := hr.deviceBuffer hbuffer href
        exact .cons ⟨hget, haddress⟩ (ih hrefs hbuffers)

theorem bufferAddress_eq (hbound : List.Forall₂ (Bound host) refs buffers) :
    bufferAddress refs host = fun i => buffers[i]?.map DeviceBuffer.address := by
  funext i
  induction hbound generalizing i with
  | nil => rfl
  | @cons ref buffer refs buffers hb _ ih =>
    cases i with
    | zero =>
      change (do guard (host.deviceBuffers ref.globalId).isSome; validate ref.address) = _
      rw [hb.1, hb.2]
      rfl
    | succ i => exact ih i

theorem mapM_circularBuffer (hbound : List.Forall₂ (Bound host) refs buffers) (ports : List ℕ) :
    (List.zipWith CBRef.mk ports refs).mapM (circularBuffer host) = some (ports.zip buffers) := by
  induction hbound generalizing ports with
  | nil => cases ports <;> rfl
  | cons hb _ ih =>
    cases ports with
    | nil => rfl
    | cons port ports =>
      rw [List.zipWith_cons_cons, List.mapM_cons, ih ports, circularBuffer, hb.1]
      rfl

theorem getElem?_port {ports : List ℕ} (hlen : ports.length = refs.length) (i : ℕ) :
    (List.zipWith CBRef.mk ports refs)[i]?.map CBRef.port = ports[i]? := by
  rw [← List.getElem?_map, List.map_zipWith]
  congr 1
  change List.zipWith (fun port _ => port) ports refs = ports
  induction ports generalizing refs with
  | nil => rfl
  | cons port ports ih =>
    cases refs with
    | nil => exact absurd hlen (Nat.succ_ne_zero _)
    | cons ref refs => rw [List.zipWith_cons_cons, ih (Nat.succ.inj hlen)]

theorem underlying_of_streamInput (operand : Operand) (v : Value)
    (hv : operand.streamInput.asBuffer = some v) : operand.underlying = v := by
  cases operand with
  | buffer value => exact Option.some.inj hv
  | view result input => cases hv
  | stream result input storage =>
    cases input with
    | buffer value => exact Option.some.inj hv
    | view => cases hv
    | stream => cases hv

theorem circularBuffer_of_streamStorage (operand : Operand) (v : Value)
    (hv : operand.streamStorage.asBuffer = some v) : operand.circularBuffer = v := by
  unfold Operand.circularBuffer
  cases hstorage : operand.streamStorage with
  | buffer value =>
    rw [hstorage] at hv
    exact Option.some.inj hv
  | view => rw [hstorage] at hv; cases hv
  | stream => rw [hstorage] at hv; cases hv

/-- **A program is enqueued with the arguments that its operands mean.** -/
theorem Rel.executeEnqueueProgram (hr : Rel cache store host)
    {threads : List Thread} {buffers cbs : List Value} {refs cbRefs : List BufferRef}
    {configs : List KernelConfigAttr} {bs cs : List DeviceBuffer}
    (hbuffers : operands.mapM (fun operand => operand.streamInput.asBuffer) = some buffers)
    (hcbs : operands.mapM (fun operand => operand.streamStorage.asBuffer) = some cbs)
    (hconfigs : convertThreadsToKernelConfigs 0 threads = some configs)
    (hrefs : buffers.mapM cache.find = some refs) (hcbRefs : cbs.mapM cache.find = some cbRefs)
    (hbs : operands.mapM (fun operand => store.deviceBuffer operand.underlying) = some bs)
    (hcs : operands.mapM (fun operand => store.deviceBuffer operand.circularBuffer) = some cs) :
    TTMetal.executeEnqueueProgram lib refs
      (List.zipWith CBRef.mk (List.range operands.length) cbRefs)
      (configs.map kernelConfigToFlatbuffer) host = store.program lib operands threads := by
  have hbound := hr.forall₂_bound underlying_of_streamInput hbuffers hrefs hbs
  have hcbound := hr.forall₂_bound circularBuffer_of_streamStorage hcbs hcbRefs hcs
  have hlen : (List.range operands.length).length = cbRefs.length := by
    rw [List.length_range, (forall₂_of_mapM_eq_some hcbs).length_eq,
      (forall₂_of_mapM_eq_some hcbRefs).length_eq]
  unfold TTMetal.executeEnqueueProgram Store.program
  rw [bufferAddress_eq hbound, funext (getElem?_port hlen), mapM_circularBuffer hcbound, hbs, hcs,
    hconfigs]
  rfl

/-! ### Operations -/

variable {ops : List MetalOp}

section

variable (hr : Rel cache store host)

include hr

/-- The commands of a host or device allocation. -/
theorem rel_of_alloc {address : Option ℕ} (hop : convertAlloc v address = some ops)
    (hcommands : toCommands cache ops = some (commands, cache')) (hnew : cache.find v = none)
    (hacc : (Op.alloc v address).Accepted) (hfits : (Op.alloc v address).Fits)
    (heval : (Op.alloc v address).eval lib store = some store') :
    ∃ host', (cqExecutor lib).run commands host store.memory = some (host', store'.memory) ∧
      Rel cache' store' host' := by
  by_cases hhost : v.type.isHost = true
  · rw [convertAlloc, if_pos hhost] at hop
    rw [Op.eval, if_pos hhost] at heval
    simp only [Op.Accepted, if_pos hhost] at hacc
    obtain rfl := Option.some.inj hop
    obtain rfl := Option.some.inj heval
    obtain ⟨command, hcommand, rfl⟩ := toCommands_singleton hcommands
    rw [toCommand, FlatbufferObjectCache.getOrCreate_of_none hnew] at hcommand
    obtain ⟨rfl, rfl⟩ := Prod.mk.inj (Option.some.inj hcommand)
    obtain ⟨host', hexec, hr'⟩ := rel_of_hostAlloc lib hr hnew hacc.1 hacc.2 (hfits hhost)
    exact ⟨host', run_singleton (exec_of_execute [] (by simp) hexec rfl), hr'⟩
  · rw [convertAlloc, if_neg hhost] at hop
    rw [Op.eval, if_neg hhost] at heval
    simp only [Op.Accepted, if_neg hhost] at hacc
    obtain ⟨_, hshard, hop⟩ := Option.bind_eq_some_iff.mp hop
    obtain ⟨a, rfl, hop⟩ := Option.bind_eq_some_iff.mp hop
    obtain rfl := Option.some.inj hop
    obtain rfl := Option.some.inj heval
    obtain ⟨command, hcommand, rfl⟩ := toCommands_singleton hcommands
    rw [toCommand, FlatbufferObjectCache.getOrCreate_of_none hnew] at hcommand
    obtain ⟨rfl, rfl⟩ := Prod.mk.inj (Option.some.inj hcommand)
    obtain ⟨hpos, hlt⟩ := hacc.2 a rfl
    obtain ⟨host', hexec, hr'⟩ := rel_of_createBuffer lib hr hnew
      ((Option.guard_eq_some' _).mp hshard) hacc.1 (Bool.eq_false_iff.mpr hhost) hpos hlt
    exact ⟨host', run_singleton (exec_of_execute [] (by simp) hexec rfl), hr'⟩

theorem Rel.isHost_eq_false {buffer : DeviceBuffer}
    (henv : store.env v = some (.device buffer)) : v.type.isHost = false := by
  obtain ⟨ref, -, hb⟩ := hr.backed v _ henv
  cases hb with
  | device _ _ hspace _ => exact hspace

/-- The commands of a transfer: a write, or a read with its barrier. -/
theorem rel_of_toLayout {input output : Value} (hop : convertToLayout input output = some ops)
    (hcommands : toCommands cache ops = some (commands, cache'))
    (hfits : (Op.toLayout input output).Fits)
    (heval : (Op.toLayout input output).eval lib store = some store') :
    ∃ host', (cqExecutor lib).run commands host store.memory = some (host', store'.memory) ∧
      Rel cache' store' host' := by
  obtain ⟨_, hspaces, hop⟩ := Option.bind_eq_some_iff.mp hop
  have hspaces := (Option.guard_eq_some' _).mp hspaces
  by_cases hhost : input.type.isHost = true
  · -- a write: the output stands for a device buffer
    rw [if_pos hhost] at hop
    rw [Op.Fits, if_pos hhost] at hfits
    obtain rfl := Option.some.inj hop
    obtain ⟨command, hcommand, rfl⟩ := toCommands_singleton hcommands
    obtain ⟨src, hsrc, hcommand⟩ := Option.bind_eq_some_iff.mp hcommand
    obtain ⟨dst, hdst, hcommand⟩ := Option.bind_eq_some_iff.mp hcommand
    obtain ⟨rfl, rfl⟩ := Prod.mk.inj (Option.some.inj hcommand)
    rw [Op.eval] at heval
    split at heval
    · next buffer storage hin hout =>
        rw [hr.isHost_eq_false hin] at hhost
        cases hhost
    · next storage buffer hin hout =>
        obtain rfl := Option.some.inj heval
        obtain ⟨tensor, hget, hdata, hsize⟩ := hr.storage (by rw [Store.storage, hin]) hsrc
        obtain ⟨hbuffer, -, hdesc⟩ := hr.deviceBuffer (by rw [Store.deviceBuffer, hout]) hdst
        rw [← hdesc] at hfits
        refine ⟨host, run_singleton (exec_of_execute [.write tensor buffer
          buffer.desc.bufferSize] (by simp) ?_ ?_), hr.setMemory _⟩
        · simp only [execute, hget, hbuffer]
          rfl
        · simp only [settle, Pending.apply, if_pos (hfits.trans hsize), hdata]
          rfl
    · cases heval
  · -- a read: the input stands for a device buffer
    rw [if_neg hhost] at hop
    rw [Op.Fits, if_neg hhost] at hfits
    obtain rfl := Option.some.inj hop
    obtain ⟨command, cache₁, rest, hcommand, hrest, rfl⟩ := toCommands_cons.mp hcommands
    obtain ⟨src, hsrc, hcommand⟩ := Option.bind_eq_some_iff.mp hcommand
    obtain ⟨dst, hdst, hcommand⟩ := Option.bind_eq_some_iff.mp hcommand
    obtain ⟨rfl, rfl⟩ := Prod.mk.inj (Option.some.inj hcommand)
    obtain ⟨command, hfinish, rfl⟩ := toCommands_singleton hrest
    obtain ⟨rfl, rfl⟩ := Prod.mk.inj (Option.some.inj hfinish)
    rw [Op.eval] at heval
    split at heval
    · next buffer storage hin hout =>
        obtain rfl := Option.some.inj heval
        obtain ⟨hbuffer, -, hdesc⟩ := hr.deviceBuffer (by rw [Store.deviceBuffer, hin]) hsrc
        obtain ⟨tensor, hget, hdata, hsize⟩ := hr.storage (by rw [Store.storage, hout]) hdst
        rw [← hdesc] at hfits
        refine ⟨host, Machine.run_cons.mpr ⟨host, _, exec_of_execute [.read buffer tensor
          buffer.desc.bufferSize] (by simp) ?_ ?_, run_singleton (Machine.exec_barrier rfl)⟩,
          hr.setMemory _⟩
        · simp only [execute, hget, hbuffer]
          rfl
        · simp only [settle, Pending.apply, if_pos (hfits.trans hsize), hdata]
          rfl
    · next storage buffer hin hout =>
        rw [hr.isHost_eq_false hout, Bool.eq_false_iff.mpr hhost] at hspaces
        exact absurd rfl hspaces
    · cases heval

/-- The command of a program. -/
theorem rel_of_generic {threads : List Thread} (hop : convertGeneric operands threads = some ops)
    (hcommands : toCommands cache ops = some (commands, cache'))
    (heval : (Op.generic operands threads).eval lib store = some store') :
    ∃ host', (cqExecutor lib).run commands host store.memory = some (host', store'.memory) ∧
      Rel cache' store' host' := by
  obtain ⟨buffers, hbuffers, hop⟩ := Option.bind_eq_some_iff.mp hop
  obtain ⟨cbs, hcbs, hop⟩ := Option.bind_eq_some_iff.mp hop
  obtain ⟨configs, hconfigs, hop⟩ := Option.bind_eq_some_iff.mp hop
  obtain rfl := Option.some.inj hop
  obtain ⟨command, hcommand, rfl⟩ := toCommands_singleton hcommands
  obtain ⟨refs, hrefs, hcommand⟩ := Option.bind_eq_some_iff.mp hcommand
  obtain ⟨cbRefs, hcbRefs, hcommand⟩ := Option.bind_eq_some_iff.mp hcommand
  obtain ⟨rfl, rfl⟩ := Prod.mk.inj (Option.some.inj hcommand)
  obtain ⟨program, hprogram, rfl⟩ := Option.map_eq_some_iff.mp heval
  obtain ⟨bs, hbs, hrest⟩ := Option.bind_eq_some_iff.mp hprogram
  obtain ⟨cs, hcs, -⟩ := Option.bind_eq_some_iff.mp hrest
  have hexec := (hr.executeEnqueueProgram hbuffers hcbs hconfigs hrefs hcbRefs hbs hcs).trans
    hprogram
  refine ⟨host, run_singleton (exec_of_execute [.program program] (by simp) ?_ rfl), hr.setMemory _⟩
  rw [execute, hexec]
  rfl

/-- The command of a deallocation. -/
theorem rel_of_deallocateBuffer
    (hcommands : toCommands cache [.deallocateBuffer v] = some (commands, cache'))
    (heval : (Op.deallocateBuffer v).eval lib store = some store') :
    ∃ host', (cqExecutor lib).run commands host store.memory = some (host', store'.memory) ∧
      Rel cache' store' host' := by
  obtain ⟨command, hcommand, rfl⟩ := toCommands_singleton hcommands
  obtain ⟨ref, hfind, hcommand⟩ := Option.bind_eq_some_iff.mp hcommand
  obtain ⟨rfl, rfl⟩ := Prod.mk.inj (Option.some.inj hcommand)
  obtain ⟨buffer, hbuffer, rfl⟩ := Option.map_eq_some_iff.mp heval
  obtain ⟨hget, -⟩ := hr.deviceBuffer hbuffer hfind
  refine ⟨_, run_singleton (exec_of_execute [] (by simp) ?_ rfl), hr.erase hfind⟩
  simp only [execute, hget]
  rfl

/-- **The commands of an operation do what it means.** -/
theorem rel_of_convert {op : Op} (hop : op.convert = some ops)
    (hcommands : toCommands cache ops = some (commands, cache'))
    (hnew : ∀ v, op.defined = some v → cache.find v = none) (hacc : op.Accepted)
    (hfits : op.Fits) (heval : op.eval lib store = some store') :
    ∃ host', (cqExecutor lib).run commands host store.memory = some (host', store'.memory) ∧
      Rel cache' store' host' := by
  cases op with
  | alloc result address =>
    exact rel_of_alloc hr hop hcommands (hnew result rfl) hacc hfits heval
  | toLayout input output => exact rel_of_toLayout hr hop hcommands hfits heval
  | generic operands threads => exact rel_of_generic hr hop hcommands heval
  | deallocateBuffer input =>
    obtain rfl := Option.some.inj hop
    exact rel_of_deallocateBuffer hr hcommands heval
  | finish =>
    obtain rfl := Option.some.inj hop
    obtain rfl := Option.some.inj heval
    obtain ⟨command, hcommand, rfl⟩ := toCommands_singleton hcommands
    obtain ⟨rfl, rfl⟩ := Prod.mk.inj (Option.some.inj hcommand)
    exact ⟨host, run_singleton (Machine.exec_barrier rfl), hr⟩

end

/-! ### Bodies -/

/-- What a tensor of the host holds. -/
def contents (heap : ℕ → δ) : MetalTensor → Option δ
  | .host tensor => some (heap tensor.data)
  | .device _ => none

variable {results : List Value}

/-- The results of a function are returned with what their storages hold. -/
theorem Rel.mapM_returned (hr : Rel cache store host)
    {outs : List δ} (hrefs : results.mapM cache.find = some refs)
    (houts : results.mapM (fun result => (store.storage result).map store.memory.heap) =
      some outs) :
    ∃ tensors, refs.mapM (returned host) = some tensors ∧
      tensors.map (contents store.memory.heap) = outs.map some := by
  replace hrefs := forall₂_of_mapM_eq_some hrefs
  replace houts := forall₂_of_mapM_eq_some houts
  induction hrefs generalizing outs with
  | nil =>
    cases houts
    exact ⟨[], rfl, rfl⟩
  | @cons result ref results refs hfind _ ih =>
    cases houts with
    | cons hout houts =>
      obtain ⟨tensors, htensors, hcontents⟩ := ih houts
      obtain ⟨storage, hstorage, rfl⟩ := Option.map_eq_some_iff.mp hout
      obtain ⟨tensor, hget, rfl, -⟩ := hr.storage hstorage hfind
      have hnone : host.deviceBuffers ref.globalId = none :=
        (hr.apart ref.globalId).resolve_right fun h => by rw [hget] at h; cases h
      refine ⟨.host tensor :: tensors, ?_, ?_⟩
      · rw [List.mapM_cons, htensors, returned, hnone, hget]
        rfl
      · rw [List.map_cons, List.map_cons, hcontents, contents]

/-- The command of a return. -/
theorem run_ret (hr : Rel cache store host)
    {outs : List δ} (hcommands : toCommands cache [.ret results] = some (commands, cache'))
    (houts : results.mapM (fun result => (store.storage result).map store.memory.heap) =
      some outs) :
    ∃ host', (cqExecutor lib).run commands host store.memory = some (host', store.memory) ∧
      host'.outputs.map (contents store.memory.heap) = outs.map some := by
  obtain ⟨command, hcommand, rfl⟩ := toCommands_singleton hcommands
  obtain ⟨refs, hrefs, hcommand⟩ := Option.bind_eq_some_iff.mp hcommand
  obtain ⟨_, -, hcommand⟩ := Option.bind_eq_some_iff.mp hcommand
  obtain ⟨rfl, rfl⟩ := Prod.mk.inj (Option.some.inj hcommand)
  obtain ⟨tensors, htensors, hcontents⟩ := hr.mapM_returned hrefs houts
  refine ⟨{ host with outputs := tensors },
    run_singleton (exec_of_execute [.recordEvent] (by simp) ?_ rfl), hcontents⟩
  simp only [execute, hr.outputs, htensors]
  rfl

/-- **The commands of a body do what it means**, and return what its results hold. -/
theorem run_of_convertBody (hr : Rel cache store host) {body : List Op} {outs : List δ}
    (hops : convertBody results body = some ops)
    (hcommands : toCommands cache ops = some (commands, cache'))
    (hnew : ∀ v ∈ body.filterMap Op.defined, cache.find v = none)
    (hnodup : (body.filterMap Op.defined).Nodup) (hacc : ∀ op ∈ body, op.Accepted)
    (hfits : ∀ op ∈ body, op.Fits) (heval : evalBody lib body store = some store')
    (houts : results.mapM (fun result => (store'.storage result).map store'.memory.heap) =
      some outs) :
    ∃ host', (cqExecutor lib).run commands host store.memory = some (host', store'.memory) ∧
      host'.outputs.map (contents store'.memory.heap) = outs.map some := by
  induction body generalizing cache store host ops commands with
  | nil =>
    obtain rfl := Option.some.inj hops
    obtain rfl := Option.some.inj heval
    exact run_ret hr hcommands houts
  | cons op body ih =>
    obtain ⟨head, rest, hop, -, hbody, rfl⟩ := convertBody_cons.mp hops
    obtain ⟨cs, cs', cache₁, hcs, hcs', rfl⟩ := toCommands_append hcommands
    obtain ⟨store₁, hop_eval, heval⟩ := Option.bind_eq_some_iff.mp heval
    -- the value of the first operation is new, and the others stay new
    have hdefined : ∀ v, op.defined = some v → cache.find v = none := fun v hv =>
      hnew v (List.mem_filterMap.mpr ⟨op, List.mem_cons_self, hv⟩)
    have hrest : ∀ v ∈ body.filterMap Op.defined, op.defined ≠ some v := by
      intro v hv hdef
      rw [List.filterMap_cons_some hdef, List.nodup_cons] at hnodup
      exact hnodup.1 hv
    obtain ⟨-, hfind⟩ := toCommands_cache hcs hr.keyed
    obtain ⟨host₁, hrun, hr₁⟩ := rel_of_convert hr hop hcs hdefined
      (hacc op List.mem_cons_self) (hfits op List.mem_cons_self) hop_eval
    obtain ⟨host', hrun', houts'⟩ := ih hr₁ hbody hcs' (fun v hv => by
        rw [hfind v (by
          rw [defined_of_convert hop, Option.mem_toList]
          exact hrest v hv)]
        obtain ⟨op', hmem, hdef⟩ := List.mem_filterMap.mp hv
        exact hnew v (List.mem_filterMap.mpr ⟨op', List.mem_cons_of_mem _ hmem, hdef⟩))
      (hnodup.sublist ((List.sublist_cons_self op body).filterMap _))
      (fun op' hop' => hacc op' (List.mem_cons_of_mem _ hop'))
      (fun op' hop' => hfits op' (List.mem_cons_of_mem _ hop')) heval
    exact ⟨host', Machine.run_append.mpr ⟨host₁, store₁.memory, hrun, hrun'⟩, houts'⟩

theorem rel_empty (hkeyed : cache.Keyed) (nextStorage : ℕ) (memory : Memory δ M) :
    Rel cache ⟨fun _ => none, nextStorage, memory⟩ (Host.empty nextStorage) where
  keyed := hkeyed
  backed _ _ h := nomatch h
  free _ _ := ⟨rfl, rfl⟩
  apart _ := .inl rfl
  nextStorage := rfl
  outputs := rfl

/-- **Inputs are bound to the arguments.** -/
theorem rel_of_inputs (hr : Rel cache store host) {args : List Value} {inputs : List HostTensor}
    (hsize : List.Forall₂ (fun v tensor => v.type.sizeBytes ≤ tensor.size) args inputs)
    (hnew : ∀ v ∈ args, cache.find v = none) (hnodup : args.Nodup)
    (hbind : bindArguments args (inputs.map HostTensor.data) store = some store') :
    ∃ host', bindInputs (toInputs cache args).1 (inputs.map .host) host = some host' ∧
      Rel (toInputs cache args).2 store' host' ∧ store'.memory = store.memory := by
  induction hsize generalizing cache store host with
  | nil =>
    obtain rfl := Option.some.inj hbind
    exact ⟨host, rfl, hr, rfl⟩
  | @cons arg tensor args inputs hle _ ih =>
    have harg := hnew arg List.mem_cons_self
    obtain ⟨hdevice, hhost⟩ := hr.free cache.globalId le_rfl
    rw [List.nodup_cons] at hnodup
    have hr₁ : Rel (cache.insert arg 0)
        { store with env := Function.update store.env arg (some (.host tensor.data)) }
        { host with
          hostBuffers := Function.update host.hostBuffers cache.globalId (some tensor) } := by
      refine hr.insert harg ?_ ?_ (.inl ?_) ?_ ?_
      · exact .host (Function.update_self _ _ _) rfl hle
      · exact fun id hid => ⟨rfl, Function.update_of_ne hid _ _⟩
      · exact hdevice
      · rfl
      · exact hr.nextStorage
    obtain ⟨host', hbind', hr', hmemory⟩ := ih hr₁ (fun v hv => by
        rw [FlatbufferObjectCache.find_insert_of_ne fun heq : v = arg => hnodup.1 (heq ▸ hv)]
        exact hnew v (List.mem_cons_of_mem _ hv))
      hnodup.2 hbind
    refine ⟨host', ?_, ?_, hmemory⟩
    · rw [toInputs, FlatbufferObjectCache.getOrCreate_of_none harg]
      simp only [List.map_cons, bindInputs, hhost]
      exact hbind'
    · rw [toInputs, FlatbufferObjectCache.getOrCreate_of_none harg]
      exact hr'

/-! ### Barriers -/

/-- Every read is followed by a barrier. -/
def Barriered : List MetalOp → Prop
  | [] => True
  | op :: ops => (op.isRead = true → ∃ rest, ops = .finish :: rest) ∧ Barriered ops

theorem barriered_append {op : Op} {head : List MetalOp}
    (hop : op.convert = some head) (hops : Barriered ops) : Barriered (head ++ ops) := by
  cases op with
  | alloc result address =>
    by_cases hhost : result.type.isHost
    · rw [Op.convert, convertAlloc, if_pos hhost] at hop
      obtain rfl := Option.some.inj hop
      exact ⟨by rintro ⟨⟩, hops⟩
    · rw [Op.convert, convertAlloc, if_neg hhost] at hop
      obtain ⟨_, -, hop⟩ := Option.bind_eq_some_iff.mp hop
      obtain ⟨_, -, hop⟩ := Option.bind_eq_some_iff.mp hop
      obtain rfl := Option.some.inj hop
      exact ⟨by rintro ⟨⟩, hops⟩
  | toLayout input output =>
    obtain ⟨_, -, hop⟩ := Option.bind_eq_some_iff.mp hop
    by_cases hhost : input.type.isHost
    · rw [if_pos hhost] at hop
      obtain rfl := Option.some.inj hop
      exact ⟨by rintro ⟨⟩, hops⟩
    · rw [if_neg hhost] at hop
      obtain rfl := Option.some.inj hop
      exact ⟨fun _ => ⟨ops, rfl⟩, by rintro ⟨⟩, hops⟩
  | generic operands threads =>
    obtain ⟨_, -, hop⟩ := Option.bind_eq_some_iff.mp hop
    obtain ⟨_, -, hop⟩ := Option.bind_eq_some_iff.mp hop
    obtain ⟨_, -, hop⟩ := Option.bind_eq_some_iff.mp hop
    obtain rfl := Option.some.inj hop
    exact ⟨by rintro ⟨⟩, hops⟩
  | deallocateBuffer input =>
    obtain rfl := Option.some.inj hop
    exact ⟨by rintro ⟨⟩, hops⟩
  | finish =>
    obtain rfl := Option.some.inj hop
    exact ⟨by rintro ⟨⟩, hops⟩

theorem barriered_of_convertBody {body : List Op}
    (hops : convertBody results body = some ops) : Barriered ops := by
  induction body generalizing ops with
  | nil =>
    obtain rfl := Option.some.inj hops
    exact ⟨fun h => (nomatch h), trivial⟩
  | cons op body ih =>
    obtain ⟨head, rest, hop, -, hbody, rfl⟩ := convertBody_cons.mp hops
    exact barriered_append hop (ih hbody)

/-- Only a read command enqueues a read. -/
theorem isRead_of_execute {es : List Pending}
    (h : execute lib command host = some (host', es)) (hread : command.isRead = false) :
    ∀ e ∈ es, e.isRead = false := by
  cases command with
  | hostAlloc dst =>
    obtain ⟨_, -, h⟩ := Option.map_eq_some_iff.mp h
    obtain ⟨-, rfl⟩ := Prod.mk.inj h
    exact fun e he => absurd he List.not_mem_nil
  | createBuffer ref =>
    obtain ⟨_, -, h⟩ := Option.map_eq_some_iff.mp h
    obtain ⟨-, rfl⟩ := Prod.mk.inj h
    exact fun e he => absurd he List.not_mem_nil
  | enqueueProgram buffers cbs kernels =>
    obtain ⟨program, -, h⟩ := Option.map_eq_some_iff.mp h
    obtain ⟨-, rfl⟩ := Prod.mk.inj h
    exact fun e he => List.eq_of_mem_singleton he ▸ rfl
  | enqueueWriteBuffer src dst =>
    obtain ⟨tensor, -, h⟩ := Option.bind_eq_some_iff.mp h
    obtain ⟨buffer, -, h⟩ := Option.bind_eq_some_iff.mp h
    obtain ⟨-, rfl⟩ := Prod.mk.inj (Option.some.inj h)
    exact fun e he => List.eq_of_mem_singleton he ▸ rfl
  | enqueueReadBuffer src dst => cases hread
  | deallocateBuffer ref =>
    obtain ⟨_, -, h⟩ := Option.bind_eq_some_iff.mp h
    obtain ⟨-, rfl⟩ := Prod.mk.inj (Option.some.inj h)
    exact fun e he => absurd he List.not_mem_nil
  | finish =>
    obtain ⟨-, rfl⟩ := Prod.mk.inj (Option.some.inj h)
    exact fun e he => absurd he List.not_mem_nil
  | ret results =>
    obtain ⟨_, -, h⟩ := Option.bind_eq_some_iff.mp h
    obtain ⟨_, -, h⟩ := Option.bind_eq_some_iff.mp h
    obtain ⟨-, rfl⟩ := Prod.mk.inj (Option.some.inj h)
    exact fun e he => List.eq_of_mem_singleton he ▸ rfl

/-- **Reads are fenced.** -/
theorem fenced_of_barriered
    (hops : Barriered ops) (hcommands : toCommands cache ops = some (commands, cache')) :
    (cqExecutor lib).Fenced (fun e => e.isRead = true) commands := by
  induction ops generalizing cache commands with
  | nil =>
    obtain ⟨rfl, -⟩ := Prod.mk.inj (Option.some.inj hcommands)
    trivial
  | cons op ops ih =>
    obtain ⟨command, cache₁, rest, hcommand, hrest, rfl⟩ := toCommands_cons.mp hcommands
    refine ⟨?_, ih hops.2 hrest⟩
    cases hread : op.isRead with
    | false =>
      left
      intro s s' es hexec e he
      exact Bool.eq_false_iff.mp
        (isRead_of_execute hexec ((toCommand_cases hcommand).1.trans hread) e he)
    | true =>
      right
      obtain ⟨ops', rfl⟩ := hops.1 hread
      obtain ⟨barrier, cache₂, rest', hfinish, -, rfl⟩ := toCommands_cons.mp hrest
      obtain ⟨rfl, -⟩ := Prod.mk.inj (Option.some.inj hfinish)
      exact ⟨.finish, rest', rfl, rfl⟩

/-! ### Ids -/

/-- The ids of a program: of its inputs, then of the buffers it creates. -/
def DeviceProgram.ids (program : DeviceProgram) : List ℕ :=
  program.inputs.map BufferRef.globalId ++ program.commands.filterMap Command.definedId

/-- New inputs take the next ids. -/
theorem ids_toInputs {args : List Value} (hnew : ∀ v ∈ args, cache.find v = none)
    (hnodup : args.Nodup) :
    (toInputs cache args).1.map BufferRef.globalId = List.range' cache.globalId args.length ∧
      (toInputs cache args).2.globalId = cache.globalId + args.length := by
  induction args generalizing cache with
  | nil => exact ⟨rfl, rfl⟩
  | cons arg args ih =>
    rw [List.nodup_cons] at hnodup
    obtain ⟨hids, hnext⟩ := @ih (cache.insert arg 0) (fun v hv => by
        rw [FlatbufferObjectCache.find_insert_of_ne fun heq : v = arg => hnodup.1 (heq ▸ hv)]
        exact hnew v (List.mem_cons_of_mem _ hv)) hnodup.2
    rw [toInputs, FlatbufferObjectCache.getOrCreate_of_none (hnew arg List.mem_cons_self)]
    refine ⟨?_, ?_⟩
    · exact congrArg (cache.globalId :: ·) hids
    · exact hnext.trans (by rw [List.length_cons]; exact Nat.succ_add_eq_add_succ _ _)

/-- A new value takes the next id. -/
theorem definedId_of_toCommand {op : MetalOp} (h : toCommand cache op = some (command, cache'))
    (hnew : ∀ v, op.defined = some v → cache.find v = none) :
    command.definedId = op.defined.map (fun _ => cache.globalId) ∧
      cache'.globalId = cache.globalId + op.defined.toList.length := by
  obtain ⟨-, ⟨hdefined, hid, hcache⟩ | ⟨v, address, hdefined, hid, hcache⟩⟩ := toCommand_cases h
  · rw [hdefined, hid, hcache]
    exact ⟨rfl, rfl⟩
  · rw [FlatbufferObjectCache.getOrCreate_of_none (hnew v hdefined)] at hid hcache
    rw [hdefined, hid, hcache]
    exact ⟨rfl, rfl⟩

/-- The commands of new values take the next ids. -/
theorem ids_toCommands (hkeyed : cache.Keyed) (h : toCommands cache ops = some (commands, cache'))
    (hnew : ∀ v ∈ ops.filterMap MetalOp.defined, cache.find v = none)
    (hnodup : (ops.filterMap MetalOp.defined).Nodup) :
    commands.filterMap Command.definedId =
      List.range' cache.globalId (ops.filterMap MetalOp.defined).length := by
  induction ops generalizing cache commands with
  | nil =>
    obtain ⟨rfl, -⟩ := Prod.mk.inj (Option.some.inj h)
    rfl
  | cons op ops ih =>
    obtain ⟨command, cache₁, rest, hop, hops, rfl⟩ := toCommands_cons.mp h
    obtain ⟨hkeyed₁, hfind⟩ := toCommand_cache hop hkeyed
    obtain ⟨hid, hnext⟩ := definedId_of_toCommand hop fun v hv =>
      hnew v (List.mem_filterMap.mpr ⟨op, List.mem_cons_self, hv⟩)
    have hrest := ih hkeyed₁ hops (fun v hv => by
        rw [hfind v fun hdef => ?_]
        · obtain ⟨op', hmem, hdef⟩ := List.mem_filterMap.mp hv
          exact hnew v (List.mem_filterMap.mpr ⟨op', List.mem_cons_of_mem _ hmem, hdef⟩)
        · rw [List.filterMap_cons_some hdef, List.nodup_cons] at hnodup
          exact hnodup.1 hv)
      (hnodup.sublist ((List.sublist_cons_self op ops).filterMap _))
    cases hdef : op.defined with
    | none =>
      rw [hdef] at hid hnext
      rw [List.filterMap_cons_none hdef, List.filterMap_cons_none hid, hrest, hnext]
      rfl
    | some v =>
      rw [hdef] at hid hnext
      rw [List.filterMap_cons_some hdef, List.filterMap_cons_some hid, hrest, hnext]
      rfl

/-- **No two values share an id.** -/
theorem nodup_ids {f : Func} {program : DeviceProgram} (hkeyed : cache.Keyed)
    (h : translateFunc cache f = some (program, cache'))
    (hnew : ∀ v ∈ f.values, cache.find v = none) (hnodup : f.values.Nodup) : program.ids.Nodup := by
  obtain ⟨ops, hops, hinputs, hcommands⟩ := translateFunc_eq_some h
  rw [Func.values, List.nodup_append] at hnodup
  obtain ⟨hargs, hbody, hdisjoint⟩ := hnodup
  obtain ⟨hids, hnext⟩ := ids_toInputs (fun v hv => hnew v (List.mem_append_left _ hv)) hargs
  obtain ⟨hkeyed₁, hfind⟩ := toInputs_cache f.args hkeyed
  rw [← defined_of_convertBody hops] at hbody hdisjoint
  have hids' := ids_toCommands hkeyed₁ hcommands (fun v hv => by
      rw [hfind v fun harg => hdisjoint v harg v hv rfl]
      exact hnew v (List.mem_append_right _ (defined_of_convertBody hops ▸ hv))) hbody
  rw [DeviceProgram.ids, hinputs, hids, hids', hnext, List.range'_append_1]
  exact List.nodup_range'

/-! ### Lookups -/

/-- The operand whose address an argument is. -/
def addressOperand : KernelArg → Option ℕ
  | .bufferAddress operandIdx => some operandIdx
  | _ => none

/-- The ids that a command looks up among the device buffers. -/
def Command.deviceIds : Command → List ℕ
  | .enqueueProgram buffers cbs kernels =>
    (kernels.flatMap fun config => (config.ctArgs ++ config.rtArgs).filterMap fun arg =>
        (addressOperand arg).bind fun i => buffers[i]?.map BufferRef.globalId) ++
      cbs.map fun cb => cb.bufferRef.globalId
  | .enqueueWriteBuffer _ dst => [dst.globalId]
  | .enqueueReadBuffer src _ => [src.globalId]
  | .deallocateBuffer ref => [ref.globalId]
  | _ => []

/-- The ids that a command looks up among the host tensors. -/
def Command.hostIds : Command → List ℕ
  | .enqueueWriteBuffer src _ => [src.globalId]
  | .enqueueReadBuffer _ dst => [dst.globalId]
  | _ => []

/-- The ids that a command looks up in both maps. -/
def Command.resultIds : Command → List ℕ
  | .ret results => results.map BufferRef.globalId
  | _ => []

/-- What a command looks up is held. -/
structure Command.Found (command : Command) (host : Host) : Prop where
  deviceIds : ∀ id ∈ command.deviceIds, (host.deviceBuffers id).isSome
  hostIds : ∀ id ∈ command.hostIds, (host.hostBuffers id).isSome
  resultIds : ∀ id ∈ command.resultIds, (host.deviceBuffers id).isSome ∨ (host.hostBuffers id).isSome

theorem isSome_of_bindArgs {port address : ℕ → Option ℕ} {semaphores semaphores' : List Semaphore}
    {args : List KernelArg} {values : List ℕ}
    (h : bindArgs lib port address semaphores args = some (values, semaphores')) {i : ℕ}
    (hi : .bufferAddress i ∈ args) : (address i).isSome := by
  induction args generalizing semaphores values with
  | nil => cases hi
  | cons arg args ih =>
    obtain ⟨⟨value, semaphores₁⟩, harg, h⟩ := Option.bind_eq_some_iff.mp h
    obtain ⟨⟨values₁, semaphores₂⟩, hargs, h⟩ := Option.bind_eq_some_iff.mp h
    obtain ⟨-, rfl⟩ := Prod.mk.inj (Option.some.inj h)
    rcases List.mem_cons.mp hi with rfl | hi
    · obtain ⟨a, ha, -⟩ := Option.map_eq_some_iff.mp harg
      rw [ha]
      rfl
    · exact ih hargs hi

theorem isSome_of_createKernels {port address : ℕ → Option ℕ}
    {semaphores semaphores' : List Semaphore} {configs : List KernelConfig} {kernels : List Kernel}
    (h : createKernels lib port address semaphores configs = some (kernels, semaphores'))
    {config : KernelConfig} (hconfig : config ∈ configs) {i : ℕ}
    (hi : .bufferAddress i ∈ config.ctArgs ++ config.rtArgs) : (address i).isSome := by
  induction configs generalizing semaphores kernels with
  | nil => cases hconfig
  | cons c configs ih =>
    obtain ⟨⟨ctArgs, semaphores₁⟩, hct, h⟩ := Option.bind_eq_some_iff.mp h
    obtain ⟨⟨rtArgs, semaphores₂⟩, hrt, h⟩ := Option.bind_eq_some_iff.mp h
    obtain ⟨⟨kernels₁, semaphores₃⟩, hrest, h⟩ := Option.bind_eq_some_iff.mp h
    obtain ⟨-, rfl⟩ := Prod.mk.inj (Option.some.inj h)
    rcases List.mem_cons.mp hconfig with rfl | hconfig
    · rcases List.mem_append.mp hi with hi | hi
      · exact isSome_of_bindArgs hct hi
      · exact isSome_of_bindArgs hrt hi
    · exact ih hrest hconfig

theorem isSome_of_bufferAddress {buffers : List BufferRef} {i : ℕ}
    (h : (bufferAddress buffers host i).isSome) {ref : BufferRef} (href : buffers[i]? = some ref) :
    (host.deviceBuffers ref.globalId).isSome := by
  obtain ⟨address, h⟩ := Option.isSome_iff_exists.mp h
  obtain ⟨ref', href', h⟩ := Option.bind_eq_some_iff.mp h
  obtain ⟨_, hguard, -⟩ := Option.bind_eq_some_iff.mp h
  rw [href] at href'
  obtain rfl := Option.some.inj href'
  exact (Option.guard_eq_some' _).mp hguard

theorem held_of_returned {result : BufferRef} {tensor : MetalTensor}
    (h : returned host result = some tensor) :
    (host.deviceBuffers result.globalId).isSome ∨ (host.hostBuffers result.globalId).isSome := by
  unfold returned at h
  split at h
  · next heq _ => exact .inl (by rw [heq]; rfl)
  · next _ heq => exact .inr (by rw [heq]; rfl)
  · cases h

/-- **A command that is executed finds what it looks up.** -/
theorem found_of_execute {es : List Pending}
    (h : execute lib command host = some (host', es)) : command.Found host := by
  -- most commands look up nothing of some kind
  have hnone : ∀ (p : ℕ → Prop), ∀ id ∈ ([] : List ℕ), p id := fun _ _ hid => by cases hid
  cases command with
  | hostAlloc dst => exact ⟨hnone _, hnone _, hnone _⟩
  | createBuffer ref => exact ⟨hnone _, hnone _, hnone _⟩
  | enqueueProgram buffers cbs kernels =>
    refine ⟨fun id hid => ?_, hnone _, hnone _⟩
    obtain ⟨program, hprogram, -⟩ := Option.map_eq_some_iff.mp h
    obtain ⟨⟨kernels', semaphores⟩, hkernels, hprogram⟩ := Option.bind_eq_some_iff.mp hprogram
    obtain ⟨cbs', hcbs, -⟩ := Option.bind_eq_some_iff.mp hprogram
    rcases List.mem_append.mp hid with hid | hid
    · obtain ⟨config, hconfig, hid⟩ := List.mem_flatMap.mp hid
      obtain ⟨arg, harg, hid⟩ := List.mem_filterMap.mp hid
      obtain ⟨i, hi, hid⟩ := Option.bind_eq_some_iff.mp hid
      obtain ⟨ref, href, rfl⟩ := Option.map_eq_some_iff.mp hid
      cases arg with
      | bufferAddress operandIdx =>
        obtain rfl := Option.some.inj hi
        exact isSome_of_bufferAddress (isSome_of_createKernels hkernels hconfig harg) href
      | cbPort => cases hi
      | semaphore => cases hi
    · obtain ⟨cb, hcb, rfl⟩ := List.mem_map.mp hid
      obtain ⟨bound, hbound⟩ := exists_of_mapM_eq_some hcbs hcb
      obtain ⟨buffer, hbuffer, -⟩ := Option.map_eq_some_iff.mp hbound
      rw [hbuffer]
      rfl
  | enqueueWriteBuffer src dst =>
    obtain ⟨tensor, hsrc, h⟩ := Option.bind_eq_some_iff.mp h
    obtain ⟨buffer, hdst, -⟩ := Option.bind_eq_some_iff.mp h
    refine ⟨fun id hid => ?_, fun id hid => ?_, hnone _⟩
    · rw [List.eq_of_mem_singleton hid, hdst]
      rfl
    · rw [List.eq_of_mem_singleton hid, hsrc]
      rfl
  | enqueueReadBuffer src dst =>
    obtain ⟨tensor, hdst, h⟩ := Option.bind_eq_some_iff.mp h
    obtain ⟨buffer, hsrc, -⟩ := Option.bind_eq_some_iff.mp h
    refine ⟨fun id hid => ?_, fun id hid => ?_, hnone _⟩
    · rw [List.eq_of_mem_singleton hid, hsrc]
      rfl
    · rw [List.eq_of_mem_singleton hid, hdst]
      rfl
  | deallocateBuffer ref =>
    obtain ⟨_, hguard, -⟩ := Option.bind_eq_some_iff.mp h
    refine ⟨fun id hid => ?_, hnone _, hnone _⟩
    rw [List.eq_of_mem_singleton hid]
    exact (Option.guard_eq_some' _).mp hguard
  | finish => exact ⟨hnone _, hnone _, hnone _⟩
  | ret results =>
    obtain ⟨_, -, h⟩ := Option.bind_eq_some_iff.mp h
    obtain ⟨tensors, htensors, -⟩ := Option.bind_eq_some_iff.mp h
    refine ⟨hnone _, hnone _, fun id hid => ?_⟩
    obtain ⟨result, hresult, rfl⟩ := List.mem_map.mp hid
    obtain ⟨tensor, htensor⟩ := exists_of_mapM_eq_some htensors hresult
    exact held_of_returned htensor

end Refinement

/-! ## Runs -/

/-- The executor with its inputs bound, before the first command. -/
def start (program : DeviceProgram) (inputs : List HostTensor) (nextStorage : ℕ)
    (memory : Memory δ M) : Option (Config Command Host Pending (Memory δ M)) :=
  (bindInputs program.inputs (inputs.map .host) (Host.empty nextStorage)).map fun host =>
    ⟨program.commands, host, [], memory⟩

/-- **What is meant to hold in every state of a run.**  The next command finds what it looks
up; no read is pending when it is executed, unless it waits for the read; once the host is
through, no read is pending, and the outputs hold what the function means; and the run can be
brought to its end. -/
structure Consistent (outs : List δ) (c : Config Command Host Pending (Memory δ M)) : Prop where
  found : ∀ command rest, c.program = command :: rest → command.Found c.host
  completed : ∀ command rest, c.program = command :: rest → command ≠ .finish →
    ∀ e ∈ c.pending, e.isRead = false
  returned : c.program = [] → (∀ e ∈ c.pending, e.isRead = false) ∧
    c.host.outputs.map (contents c.memory.heap) = outs.map some
  ends : ∃ c', (cqExecutor lib).Reaches c c' ∧ Machine.Finished c'

section Runs

variable {lib} {outs : List δ} {c : Config Command Host Pending (Memory δ M)}

/-- An effect that is no read leaves host memory as it is. -/
theorem heap_of_apply {e : Pending} {m m' : Memory δ M} (he : e.isRead = false)
    (h : e.apply lib m = some m') : m'.heap = m.heap := by
  cases e with
  | write src dst bytes =>
    rw [Pending.apply] at h
    split at h
    · obtain rfl := Option.some.inj h
      rfl
    · cases h
  | program launched =>
    obtain rfl := Option.some.inj h
    rfl
  | read src dst bytes => cases he
  | recordEvent =>
    obtain rfl := Option.some.inj h
    rfl

theorem apply_read_of_lt {src : DeviceBuffer} {dst : HostTensor} {bytes : ℕ} {m : Memory δ M}
    (h : dst.size < bytes) : (Pending.read src dst bytes).apply lib m = none :=
  if_neg (Nat.not_le.mpr h)

/-- A state whose rest means what the function means, with its reads fenced. -/
theorem consistent_of_means {r : Host × Memory δ M} (hmeans : (cqExecutor lib).Means r c)
    (hguarded : (cqExecutor lib).Guarded (fun e => e.isRead = true) c)
    (houts : r.1.outputs.map (contents r.2.heap) = outs.map some) : Consistent lib outs c where
  found command rest hprogram := by
    obtain ⟨m, -, hrun⟩ := hmeans
    rw [hprogram] at hrun
    obtain ⟨host', m', hexec, -⟩ := Machine.run_cons.mp hrun
    by_cases hfinish : command = .finish
    · subst hfinish
      have hexecute : execute lib .finish c.host = some (c.host, []) := rfl
      exact found_of_execute hexecute
    · obtain ⟨es, hissue, -⟩ := (Machine.exec_eq_some (decide_eq_false hfinish)).mp hexec
      exact found_of_execute hissue
  completed command rest hprogram hne e he := by
    rcases hguarded.2 with hnone | ⟨i, rest', hcons, hbarrier⟩
    · exact Bool.eq_false_iff.mpr (hnone e he)
    · rw [hprogram] at hcons
      obtain ⟨rfl, -⟩ := List.cons.inj hcons
      exact absurd (of_decide_eq_true hbarrier) hne
  returned hprogram := by
    have hnone : ∀ e ∈ c.pending, e.isRead = false := by
      rcases hguarded.2 with hnone | ⟨i, rest, hcons, -⟩
      · exact fun e he => Bool.eq_false_iff.mpr (hnone e he)
      · rw [hprogram] at hcons
        cases hcons
    refine ⟨hnone, ?_⟩
    obtain ⟨m, hsettle, hrun⟩ := hmeans
    rw [hprogram] at hrun
    obtain rfl := Option.some.inj hrun
    -- what is pending is no read, so that the heap is settled
    have hheap : m.heap = c.memory.heap :=
      settle_frame (fun e he m m' h => heap_of_apply (hnone e he) h) hsettle
    rwa [hheap] at houts
  ends := hmeans.exists_finished

theorem eval_eq_some {f : Func} {inputs : List ℕ} {nextStorage : ℕ} {memory : Memory δ M}
    (h : f.eval lib inputs nextStorage memory = some outs) :
    ∃ store store', bindArguments f.args inputs ⟨fun _ => none, nextStorage, memory⟩ = some store ∧
      evalBody lib f.body store = some store' ∧
      f.results.mapM (fun result => (store'.storage result).map store'.memory.heap) =
        some outs := by
  obtain ⟨store, hbind, h⟩ := Option.bind_eq_some_iff.mp h
  obtain ⟨store', hbody, h⟩ := Option.bind_eq_some_iff.mp h
  exact ⟨store, store', hbind, hbody, h⟩

end Runs

/-- **Runs of the executor have the sequential meaning of the function.**  For every function
of a module whose host allocations have less than `2 ^ 32` bytes and whose transfers fit their
host buffers, no two values share an id, and every state that is reached, whatever is delayed, is
consistent with what the function means. -/
theorem consistent_of_reaches {module : List Func} {programs : List DeviceProgram}
    (hmodule : translateModuleToFlatbuffer module = some programs)
    (hssa : (module.flatMap Func.values).Nodup) {f : Func} {program : DeviceProgram}
    (hmem : (f, program) ∈ module.zip programs) (hacc : ∀ op ∈ f.body, op.Accepted)
    (hfits : ∀ op ∈ f.body, op.Fits) {inputs : List HostTensor}
    (hsize : List.Forall₂ (fun v tensor => v.type.sizeBytes ≤ tensor.size) f.args inputs)
    {nextStorage : ℕ} {memory : Memory δ M} {outs : List δ}
    (heval : f.eval lib (inputs.map HostTensor.data) nextStorage memory = some outs) :
    program.ids.Nodup ∧ ∃ c₀, start program inputs nextStorage memory = some c₀ ∧
      ∀ c, (cqExecutor lib).Reaches c₀ c → Consistent lib outs c := by
  obtain ⟨cache, cache', hkeyed, hnone, hnodup, hf⟩ := exists_cache_of_mem hmodule hssa hmem
  refine ⟨nodup_ids hkeyed hf hnone hnodup, ?_⟩
  obtain ⟨ops, hops, hinputs, hcommands⟩ := translateFunc_eq_some hf
  obtain ⟨store, store', hbind, hbody, houts⟩ := eval_eq_some heval
  rw [Func.values, List.nodup_append] at hnodup
  obtain ⟨hargs, hallocs, hdisjoint⟩ := hnodup
  obtain ⟨host, hstart, hr, hmemory⟩ := rel_of_inputs (rel_empty hkeyed nextStorage memory) hsize
    (fun v hv => hnone v (List.mem_append_left _ hv)) hargs hbind
  have hfind := (toInputs_cache f.args hkeyed).2
  obtain ⟨host', hrun, hcontents⟩ := run_of_convertBody hr hops hcommands
    (fun v hv => (hfind v fun harg => hdisjoint v harg v hv rfl).trans
      (hnone v (List.mem_append_right _ hv))) hallocs hacc hfits hbody houts
  rw [hmemory] at hrun
  refine ⟨⟨program.commands, host, [], memory⟩, ?_, fun c hreach => ?_⟩
  · rw [start, hinputs, hstart]
    rfl
  · exact consistent_of_means (Machine.run_of_reaches hrun hreach)
      (Machine.fenced_of_reaches
        (fenced_of_barriered (barriered_of_convertBody hops) hcommands) hreach) hcontents

/-! ### A function -/

/-- A device whose memory holds one number at an address.  A program leaves the sum of its
arguments in its last circular buffer. -/
def sumLibrary : Library ℕ (ℕ → ℕ) where
  createSemaphore semaphores _ _ :=
    (List.range 16).find? fun id => id ∉ semaphores.map Semaphore.id
  launch program m := match program.cbs.getLast? with
    | some (_, buffer) => Function.update m buffer.address
        (program.kernels.map fun kernel => (kernel.rtArgs ++ kernel.ctArgs).sum).sum
    | none => m
  write buffer a m := Function.update m buffer.address a
  read buffer m := m buffer.address

/-- A buffer of the device. -/
def deviceType : MemRefType := ⟨[1, 1, 32, 32], 4, true, some .DeviceL1, 4096⟩

/-- A buffer of the host. -/
def hostType : MemRefType := ⟨[32, 32], 4, false, none, 0⟩

/-- The argument is written to the device and streamed to a program, the result is read. -/
def streamed : Func where
  args := [⟨0, hostType⟩]
  body := [.alloc ⟨1, deviceType⟩ (some 1024), .alloc ⟨2, deviceType⟩ (some 8192),
    .alloc ⟨3, deviceType⟩ (some 16384), .toLayout ⟨0, hostType⟩ ⟨1, deviceType⟩,
    .generic [.stream 4 (.buffer ⟨1, deviceType⟩) (.buffer ⟨2, deviceType⟩),
      .buffer ⟨3, deviceType⟩]
      [⟨0, .datamovement, ⟨[], [⟨.cbPort, 0⟩, ⟨.bufferAddress, 0⟩]⟩⟩,
        ⟨1, .compute, ⟨[], [⟨.cbPort, 0⟩, ⟨.cbPort, 1⟩]⟩⟩],
    .alloc ⟨5, hostType⟩ none, .toLayout ⟨3, deviceType⟩ ⟨5, hostType⟩]
  results := [⟨5, hostType⟩]

/-- Its program. -/
def streamedProgram : DeviceProgram where
  inputs := [⟨1, 0, hostType⟩]
  commands := [.createBuffer ⟨2, 1024, deviceType⟩, .createBuffer ⟨3, 8192, deviceType⟩,
    .createBuffer ⟨4, 16384, deviceType⟩,
    .enqueueWriteBuffer ⟨1, 0, hostType⟩ ⟨2, 1024, deviceType⟩,
    .enqueueProgram [⟨2, 1024, deviceType⟩, ⟨4, 16384, deviceType⟩]
      [⟨0, ⟨3, 8192, deviceType⟩⟩, ⟨1, ⟨4, 16384, deviceType⟩⟩]
      [⟨0, .noc 0, [], [.cbPort 0, .bufferAddress 0]⟩, ⟨1, .compute, [], [.cbPort 0, .cbPort 1]⟩],
    .hostAlloc ⟨5, 0, hostType⟩,
    .enqueueReadBuffer ⟨4, 16384, deviceType⟩ ⟨5, 0, hostType⟩, .finish,
    .ret [⟨5, 0, hostType⟩]]

/-- The storage of its argument. -/
def streamedInput : HostTensor := ⟨0, ⟨[32, 32], [32, 1], 4⟩, 4096⟩

theorem streamed_consistent :
    streamedProgram.ids.Nodup ∧ ∃ c₀,
      start streamedProgram [streamedInput] 1 ⟨fun _ => 7, fun _ => 0⟩ = some c₀ ∧
      ∀ c, (cqExecutor sumLibrary).Reaches c₀ c → Consistent sumLibrary [1025] c :=
  have hmodule : translateModuleToFlatbuffer [streamed] = some [streamedProgram] := by decide
  have hmem : (streamed, streamedProgram) ∈ [streamed].zip [streamedProgram] :=
    List.mem_singleton_self _
  consistent_of_reaches sumLibrary hmodule (by decide) hmem (by decide) (by decide)
    (.cons (by decide) .nil) rfl

/-- A buffer of `2 ^ 32` bytes on the device. -/
def largeDeviceType : MemRefType :=
  ⟨[1, 1, 32768, 32768], 4, true, some .DeviceDRAM, 4294967296⟩

/-- One on the host. -/
def largeHostType : MemRefType := ⟨[32768, 32768], 4, false, none, 0⟩

/-- A function that reads a buffer of `2 ^ 32` bytes. -/
def large : Func where
  args := []
  body := [.alloc ⟨1, largeDeviceType⟩ (some 1024), .alloc ⟨2, largeHostType⟩ none,
    .toLayout ⟨1, largeDeviceType⟩ ⟨2, largeHostType⟩]
  results := [⟨2, largeHostType⟩]

/-- Its storage has no bytes, and the read does not fit it. -/
theorem large_not_consistent :
    ∃ program, translateModuleToFlatbuffer [large] = some [program] ∧
      (∀ op ∈ large.body, op.Accepted) ∧
      large.eval sumLibrary [] 0 ⟨fun _ => 0, fun _ => 0⟩ = some [0] ∧
      ∃ c₀ c, start program [] 0 ⟨fun _ => 0, fun _ => 0⟩ = some c₀ ∧
        (cqExecutor sumLibrary).Reaches c₀ c ∧ ¬ Consistent sumLibrary [0] c := by
  refine ⟨_, rfl, by decide, by rfl, _, _, rfl, .tail (.tail (.tail .refl (.issue rfl rfl))
    (.issue rfl rfl)) (.issue rfl rfl), fun h => ?_⟩
  obtain ⟨c', hreach, hprogram, -⟩ := h.ends
  rcases Relation.ReflTransGen.cases_head hreach with rfl | ⟨c₁, hstep, -⟩
  · cases hprogram
  · cases hstep with
    | issue hbarrier _ => cases hbarrier
    | complete happly =>
      have hread : (cqExecutor sumLibrary).apply = Pending.apply sumLibrary := rfl
      rw [hread, apply_read_of_lt] at happly
      · cases happly
      · decide

end TTMetal
