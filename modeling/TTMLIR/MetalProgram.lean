/-
# Host programs of the metal backend

A function of the host allocates buffers on host and device, moves data between them and runs
kernels over device buffers.  `TTIRToTTMetal` makes it a list of enqueue operations, and
`TTMetalToFlatbuffer` a list of commands that name their buffers by global ids.

* `Op`, `Func` : the function, its memory allocated;
* `Op.convert` : `TTIRGenericRewriter`, `MemrefAllocRewriter` and `TTIRToLayoutRewriter`;
* `FlatbufferObjectCache` : the values that were serialized, with their buffer references;
* `translateModuleToFlatbuffer` : the commands of every public function;
* `FlatbufferObjectCache.Keyed` : the ids of different values differ, and new ones are larger;
* `exists_cache_of_mem` : every function of a module is serialized with a keyed cache that does
  not hold its values.

View and stream operations are pure, so that an operand of a `generic` carries the chain that
defines it.  Of a memref type, only what the conversion and the executor read is kept.
-/
import TTMLIR.Fallible
import TTMLIR.SimpleAllocator

namespace TTMetal

open TTIRAllocate (MemorySpace isDeviceMemorySpace)

/-! ## The function -/

/-- `MemRefType`: its shape, the size of an element in bytes, whether its layout is a
`ShardLayoutAttr`, its memory space, and the size in its sharded buffer configuration. -/
structure MemRefType : Type where
  shape : List ℕ
  elementSize : ℕ
  shardLayout : Bool
  memorySpace : Option MemorySpace
  bufferSize : ℕ
  deriving DecidableEq, Repr

namespace MemRefType

/-- No memory space implicitly means host. -/
def isHost (type : MemRefType) : Bool := type.memorySpace.isNone

/-- The memory space is one of the device. -/
def isDevice (type : MemRefType) : Bool := type.memorySpace.any isDeviceMemorySpace

/-- The bytes of the elements. -/
def sizeBytes (type : MemRefType) : ℕ := type.shape.prod * type.elementSize

end MemRefType

/-- A memref value of the function. -/
structure Value : Type where
  id : ℕ
  type : MemRefType
  deriving DecidableEq, Repr

/-- An operand of a `generic`: a buffer, or the result of a `view_layout` or a
`stream_layout`. -/
inductive Operand : Type where
  | buffer (value : Value)
  | view (result : ℕ) (input : Operand)
  | stream (result : ℕ) (input storage : Operand)
  deriving DecidableEq, Repr

/-- `ttkernel::ArgType`. -/
inductive ArgType : Type where
  | cbPort
  | bufferAddress
  | semaphore
  deriving DecidableEq, Repr

/-- `ttkernel::ArgAttr`. -/
structure ArgAttr : Type where
  argType : ArgType
  operandIndex : ℕ
  deriving DecidableEq, Repr

/-- `ttkernel::ArgSpecAttr`. -/
structure ArgSpecAttr : Type where
  rtArgs : List ArgAttr
  ctArgs : List ArgAttr
  deriving DecidableEq, Repr

/-- `ttir::ThreadType`. -/
inductive ThreadType : Type where
  | compute
  | datamovement
  deriving DecidableEq, Repr

/-- A thread of a `generic`, with the argument specification of its kernel function. -/
structure Thread : Type where
  kernelSymbol : ℕ
  threadType : ThreadType
  argSpec : ArgSpecAttr
  deriving DecidableEq, Repr

/-- The operations of a function whose memory is allocated. -/
inductive Op : Type where
  | alloc (result : Value) (address : Option ℕ)
  | toLayout (input output : Value)
  | generic (operands : List Operand) (threads : List Thread)
  | deallocateBuffer (input : Value)
  | finish
  deriving DecidableEq, Repr

/-- A public function: its arguments, its operations and what it returns. -/
structure Func : Type where
  args : List Value
  body : List Op
  results : List Value
  deriving DecidableEq, Repr

/-- The value an operation defines. -/
def Op.defined : Op → Option Value
  | .alloc result _ => some result
  | _ => none

/-- The values of a function: its arguments and its allocations. -/
def Func.values (f : Func) : List Value := f.args ++ f.body.filterMap Op.defined

/-! ## The conversion to the metal dialect -/

/-- `ttmetal::KernelArgAttr`. -/
structure KernelArgAttr : Type where
  type : ArgType
  operandIndex : ℕ
  deriving DecidableEq, Repr

/-- The core a kernel runs on: `ComputeConfigAttr`, or `NocConfigAttr` with its index. -/
inductive KernelUnit : Type where
  | compute
  | noc (nocIndex : ℕ)
  deriving DecidableEq, Repr

/-- `KernelConfigInterface`: the kernel, its core and its arguments. -/
structure KernelConfigAttr : Type where
  kernelSymbol : ℕ
  unit : KernelUnit
  rtArgs : List KernelArgAttr
  ctArgs : List KernelArgAttr
  deriving DecidableEq, Repr

/-- The operations of a converted function. -/
inductive MetalOp : Type where
  | alloc (result : Value)
  | createBuffer (result : Value) (address : ℕ)
  | enqueueProgram (buffers cbs : List Value) (cbPorts : List ℕ)
      (kernelConfigs : List KernelConfigAttr)
  | enqueueWriteBuffer (input output : Value)
  | enqueueReadBuffer (input output : Value)
  | deallocateBuffer (input : Value)
  | finish
  | ret (operands : List Value)
  deriving DecidableEq, Repr

/-- `evalKernelArgsFromSpec`, of one list. -/
def evalKernelArgs (args : List ArgAttr) : List KernelArgAttr :=
  args.map fun arg => ⟨arg.argType, arg.operandIndex⟩

/-- `convertThreadsToKernelConfigs`, from a `nocIndex` on.  There are two of them. -/
def convertThreadsToKernelConfigs : ℕ → List Thread → Option (List KernelConfigAttr)
  | _, [] => some []
  | nocIndex, thread :: threads =>
    let rtArgs := evalKernelArgs thread.argSpec.rtArgs
    let ctArgs := evalKernelArgs thread.argSpec.ctArgs
    match thread.threadType with
    | .compute => do
        let configs ← convertThreadsToKernelConfigs nocIndex threads
        pure (⟨thread.kernelSymbol, .compute, rtArgs, ctArgs⟩ :: configs)
    | .datamovement => do
        guard (nocIndex < 2)
        let configs ← convertThreadsToKernelConfigs (nocIndex + 1) threads
        pure (⟨thread.kernelSymbol, .noc nocIndex, rtArgs, ctArgs⟩ :: configs)

/-- What a `stream_layout` streams; any other operand is its own buffer. -/
def Operand.streamInput : Operand → Operand
  | .stream _ input _ => input
  | operand => operand

/-- The storage of a `stream_layout`; any other operand is its own circular buffer. -/
def Operand.streamStorage : Operand → Operand
  | .stream _ _ storage => storage
  | operand => operand

/-- A buffer.  Nothing converts a view, and nothing serializes a stream. -/
def Operand.asBuffer : Operand → Option Value
  | .buffer value => some value
  | _ => none

/-- `TTIRGenericRewriter`. -/
def convertGeneric (operands : List Operand) (threads : List Thread) : Option (List MetalOp) := do
  let buffers ← operands.mapM fun operand => operand.streamInput.asBuffer
  let cbs ← operands.mapM fun operand => operand.streamStorage.asBuffer
  let kernelConfigs ← convertThreadsToKernelConfigs 0 threads
  pure [.enqueueProgram buffers cbs (List.range operands.length) kernelConfigs]

/-- `MemrefAllocRewriter`, of an allocation that is not legal as it is. -/
def convertAlloc (result : Value) (address : Option ℕ) : Option (List MetalOp) := do
  if result.type.isHost then
    pure [.alloc result]
  else
    guard result.type.shardLayout
    let address ← address
    pure [.createBuffer result address]

/-- `TTIRToLayoutRewriter`. -/
def convertToLayout (input output : Value) : Option (List MetalOp) := do
  guard (input.type.isHost ≠ output.type.isHost)
  if input.type.isHost then
    pure [.enqueueWriteBuffer input output]
  else
    -- the barrier lets the read complete before subsequent operations use it
    pure [.enqueueReadBuffer input output, .finish]

/-- The patterns of `TTIRToTTMetal`; operations of the metal dialect are legal. -/
def Op.convert : Op → Option (List MetalOp)
  | .alloc result address => convertAlloc result address
  | .toLayout input output => convertToLayout input output
  | .generic operands threads => convertGeneric operands threads
  | .deallocateBuffer input => some [.deallocateBuffer input]
  | .finish => some [.finish]

/-- The verifiers of the metal operations. -/
def MetalOp.verify : MetalOp → Bool
  | .enqueueProgram buffers cbs _ _ => (buffers ++ cbs).all fun v => v.type.isDevice
  | .enqueueWriteBuffer _ output => output.type.isDevice
  | .enqueueReadBuffer _ output => !output.type.isDevice
  | _ => true

/-- A converted body, with its return. -/
def convertBody (results : List Value) : List Op → Option (List MetalOp)
  | [] => some [.ret results]
  | op :: body => do
      let ops ← op.convert
      guard (ops.all MetalOp.verify)
      let rest ← convertBody results body
      pure (ops ++ rest)

/-! ## Serialization -/

/-- `BufferRef`. -/
structure BufferRef : Type where
  globalId : ℕ
  address : ℕ
  desc : MemRefType
  deriving DecidableEq, Repr

/-- `CBRef`. -/
structure CBRef : Type where
  port : ℕ
  bufferRef : BufferRef
  deriving DecidableEq, Repr

/-- `CoreType`. -/
inductive CoreType : Type where
  | worker
  | eth
  deriving DecidableEq, Repr

/-- `KernelArg`. -/
inductive KernelArg : Type where
  | cbPort (operandIdx : ℕ)
  | bufferAddress (operandIdx : ℕ)
  | semaphore (initialValue : ℕ) (coreType : CoreType)
  deriving DecidableEq, Repr

/-- `KernelConfig`. -/
structure KernelConfig : Type where
  kernel : ℕ
  unit : KernelUnit
  rtArgs : List KernelArg
  ctArgs : List KernelArg
  deriving DecidableEq, Repr

/-- `Command`, those that are serialized. -/
inductive Command : Type where
  | hostAlloc (dst : BufferRef)
  | createBuffer (ref : BufferRef)
  | enqueueProgram (buffers : List BufferRef) (cbs : List CBRef) (kernels : List KernelConfig)
  | enqueueWriteBuffer (src dst : BufferRef)
  | enqueueReadBuffer (src dst : BufferRef)
  | deallocateBuffer (ref : BufferRef)
  | finish
  | ret (results : List BufferRef)
  deriving DecidableEq, Repr

/-- `DeviceProgram`. -/
structure DeviceProgram : Type where
  inputs : List BufferRef
  commands : List Command
  deriving DecidableEq, Repr

/-- `FlatbufferObjectCache`: the serialized values, and the next global id. -/
structure FlatbufferObjectCache : Type where
  objectMap : List (Value × BufferRef)
  globalId : ℕ
  deriving DecidableEq, Repr

namespace FlatbufferObjectCache

/-- The empty cache.  Id 0 is reserved for null. -/
def empty : FlatbufferObjectCache := ⟨[], 1⟩

/-- `at`. -/
def find (cache : FlatbufferObjectCache) (value : Value) : Option BufferRef :=
  cache.objectMap.lookup value

/-- `insert`, with `bufferValueToFlatbuffer` on the next id. -/
def insert (cache : FlatbufferObjectCache) (value : Value) (address : ℕ) :
    FlatbufferObjectCache :=
  ⟨(value, ⟨cache.globalId, address, value.type⟩) :: cache.objectMap, cache.globalId + 1⟩

/-- `getOrCreate`, of a buffer value. -/
def getOrCreate (cache : FlatbufferObjectCache) (value : Value) (address : ℕ) :
    BufferRef × FlatbufferObjectCache :=
  match cache.find value with
  | some ref => (ref, cache)
  | none => (⟨cache.globalId, address, value.type⟩, cache.insert value address)

end FlatbufferObjectCache

/-- `toFlatbuffer`, of a kernel argument.  A semaphore has the defaults of its table. -/
def KernelArgAttr.toFlatbuffer (arg : KernelArgAttr) : KernelArg :=
  match arg.type with
  | .cbPort => .cbPort arg.operandIndex
  | .bufferAddress => .bufferAddress arg.operandIndex
  | .semaphore => .semaphore 0 .worker

/-- `kernelConfigToFlatbuffer`. -/
def kernelConfigToFlatbuffer (config : KernelConfigAttr) : KernelConfig :=
  ⟨config.kernelSymbol, config.unit, config.rtArgs.map KernelArgAttr.toFlatbuffer,
    config.ctArgs.map KernelArgAttr.toFlatbuffer⟩

/-- The command of an operation. -/
def toCommand (cache : FlatbufferObjectCache) : MetalOp → Option (Command × FlatbufferObjectCache)
  | .alloc result =>
    let (ref, cache) := cache.getOrCreate result 0
    some (.hostAlloc ref, cache)
  | .createBuffer result address =>
    let (ref, cache) := cache.getOrCreate result address
    some (.createBuffer ref, cache)
  | .enqueueProgram buffers cbs cbPorts kernelConfigs => do
      let buffers ← buffers.mapM cache.find
      let cbs ← cbs.mapM cache.find
      pure (.enqueueProgram buffers (List.zipWith CBRef.mk cbPorts cbs)
        (kernelConfigs.map kernelConfigToFlatbuffer), cache)
  | .enqueueWriteBuffer input output => do
      let src ← cache.find input
      let dst ← cache.find output
      pure (.enqueueWriteBuffer src dst, cache)
  | .enqueueReadBuffer input output => do
      let src ← cache.find input
      let dst ← cache.find output
      pure (.enqueueReadBuffer src dst, cache)
  | .deallocateBuffer input => do
      let ref ← cache.find input
      pure (.deallocateBuffer ref, cache)
  | .finish => some (.finish, cache)
  | .ret operands => do
      let results ← operands.mapM cache.find
      -- `tensorValueToFlatbuffer` asserts that results are on the host
      guard (operands.all fun v => !v.type.shardLayout)
      pure (.ret results, cache)

/-- The commands of a function, in the order of its operations. -/
def toCommands : FlatbufferObjectCache → List MetalOp →
    Option (List Command × FlatbufferObjectCache)
  | cache, [] => some ([], cache)
  | cache, op :: ops => do
      let (command, cache) ← toCommand cache op
      let (commands, cache) ← toCommands cache ops
      pure (command :: commands, cache)

/-- The inputs of a function, in the order of its arguments. -/
def toInputs : FlatbufferObjectCache → List Value → List BufferRef × FlatbufferObjectCache
  | cache, [] => ([], cache)
  | cache, arg :: args =>
    let (ref, cache) := cache.getOrCreate arg 0
    let (refs, cache) := toInputs cache args
    (ref :: refs, cache)

/-- One public function. -/
def translateFunc (cache : FlatbufferObjectCache) (f : Func) :
    Option (DeviceProgram × FlatbufferObjectCache) := do
  let ops ← convertBody f.results f.body
  -- `tensorValueToFlatbuffer` asserts that arguments are on the host
  guard (f.args.all fun v => !v.type.shardLayout)
  let (inputs, cache) := toInputs cache f.args
  let (commands, cache) ← toCommands cache ops
  pure (⟨inputs, commands⟩, cache)

/-- The public functions, from a cache on. -/
def translateFuncs : FlatbufferObjectCache → List Func → Option (List DeviceProgram)
  | _, [] => some []
  | cache, f :: module => do
      let (program, cache) ← translateFunc cache f
      let programs ← translateFuncs cache module
      pure (program :: programs)

/-- `translateModuleToFlatbuffer`: the programs of the public functions. -/
def translateModuleToFlatbuffer (module : List Func) : Option (List DeviceProgram) :=
  translateFuncs .empty module

/-! ## Ids -/

namespace FlatbufferObjectCache

variable {cache : FlatbufferObjectCache} {v w : Value} {address : ℕ}

/-- **Ids identify values.**  Different serialized values have different ids, all below the
next one, and every reference describes its value. -/
structure Keyed (cache : FlatbufferObjectCache) : Prop where
  inj : ∀ v w ref ref', cache.find v = some ref → cache.find w = some ref' →
    ref.globalId = ref'.globalId → v = w
  lt : ∀ v ref, cache.find v = some ref → ref.globalId < cache.globalId
  desc : ∀ v ref, cache.find v = some ref → ref.desc = v.type

theorem find_insert_self :
    (cache.insert v address).find v = some ⟨cache.globalId, address, v.type⟩ :=
  List.lookup_cons_self

theorem find_insert_of_ne (h : w ≠ v) : (cache.insert v address).find w = cache.find w :=
  List.lookup_cons.trans (by rw [beq_false_of_ne h]; rfl)

theorem getOrCreate_of_none (h : cache.find v = none) : cache.getOrCreate v address =
      (⟨cache.globalId, address, v.type⟩, cache.insert v address) := by
  rw [getOrCreate, h]

theorem keyed_empty : Keyed .empty where
  inj _ _ _ _ h := nomatch h
  lt _ _ h := nomatch h
  desc _ _ h := nomatch h

/-- A new value gets a new id. -/
theorem Keyed.insert (h : cache.Keyed) : (cache.insert v address).Keyed where
  inj u w ref ref' hu hw hid := by
    by_cases huv : u = v <;> by_cases hwv : w = v
    · rw [huv, hwv]
    · -- the id of `u` is the next one, and that of `w` is below it
      subst huv
      rw [find_insert_self] at hu
      rw [find_insert_of_ne hwv] at hw
      obtain rfl := Option.some.inj hu
      exact absurd hid.symm (h.lt w ref' hw).ne
    · subst hwv
      rw [find_insert_self] at hw
      rw [find_insert_of_ne huv] at hu
      obtain rfl := Option.some.inj hw
      exact absurd hid (h.lt u ref hu).ne
    · rw [find_insert_of_ne huv] at hu
      rw [find_insert_of_ne hwv] at hw
      exact h.inj u w ref ref' hu hw hid
  lt u ref hu := by
    by_cases huv : u = v
    · subst huv
      rw [find_insert_self] at hu
      obtain rfl := Option.some.inj hu
      exact Nat.lt_succ_self _
    · rw [find_insert_of_ne huv] at hu
      exact (h.lt u ref hu).trans (Nat.lt_succ_self _)
  desc u ref hu := by
    by_cases huv : u = v
    · subst huv
      rw [find_insert_self] at hu
      obtain rfl := Option.some.inj hu
      rfl
    · rw [find_insert_of_ne huv] at hu
      exact h.desc u ref hu

/-- Handing out a reference keeps the cache keyed. -/
theorem Keyed.getOrCreate (h : cache.Keyed) : (cache.getOrCreate v address).2.Keyed := by
  cases hv : cache.find v with
  | some ref => rwa [FlatbufferObjectCache.getOrCreate, hv]
  | none =>
    rw [getOrCreate_of_none hv]
    exact h.insert

/-- References of other values stay. -/
theorem find_getOrCreate_of_ne (h : w ≠ v) :
    (cache.getOrCreate v address).2.find w = cache.find w := by
  cases hv : cache.find v with
  | some ref => rw [getOrCreate, hv]
  | none =>
    rw [getOrCreate_of_none hv]
    exact find_insert_of_ne h

end FlatbufferObjectCache

/-- The value a converted operation defines. -/
def MetalOp.defined : MetalOp → Option Value
  | .alloc result => some result
  | .createBuffer result _ => some result
  | _ => none

/-- The operation enqueues a read. -/
def MetalOp.isRead : MetalOp → Bool
  | .enqueueReadBuffer _ _ => true
  | _ => false

/-- The command enqueues a read. -/
def Command.isRead : Command → Bool
  | .enqueueReadBuffer _ _ => true
  | _ => false

/-- The id that a command brings into being. -/
def Command.definedId : Command → Option ℕ
  | .hostAlloc dst => some dst.globalId
  | .createBuffer ref => some ref.globalId
  | _ => none

section Translate

variable {cache cache' : FlatbufferObjectCache}

/-- **What the translation of an operation does**: nothing to the cache, or it looks up the value
that the operation defines. -/
theorem toCommand_cases {op : MetalOp} {command : Command}
    (h : toCommand cache op = some (command, cache')) : command.isRead = op.isRead ∧
      ((op.defined = none ∧ command.definedId = none ∧ cache' = cache) ∨
        ∃ v address, op.defined = some v ∧
          command.definedId = some (cache.getOrCreate v address).1.globalId ∧
          cache' = (cache.getOrCreate v address).2) := by
  cases op with
  | alloc result =>
    obtain ⟨rfl, rfl⟩ := Prod.mk.inj (Option.some.inj h)
    exact ⟨rfl, .inr ⟨result, _, rfl, rfl, rfl⟩⟩
  | createBuffer result address =>
    obtain ⟨rfl, rfl⟩ := Prod.mk.inj (Option.some.inj h)
    exact ⟨rfl, .inr ⟨result, _, rfl, rfl, rfl⟩⟩
  | enqueueProgram buffers cbs cbPorts kernelConfigs =>
    obtain ⟨_, -, h⟩ := Option.bind_eq_some_iff.mp h
    obtain ⟨_, -, h⟩ := Option.bind_eq_some_iff.mp h
    obtain ⟨rfl, rfl⟩ := Prod.mk.inj (Option.some.inj h)
    exact ⟨rfl, .inl ⟨rfl, rfl, rfl⟩⟩
  | enqueueWriteBuffer input output | enqueueReadBuffer input output =>
    obtain ⟨_, -, h⟩ := Option.bind_eq_some_iff.mp h
    obtain ⟨_, -, h⟩ := Option.bind_eq_some_iff.mp h
    obtain ⟨rfl, rfl⟩ := Prod.mk.inj (Option.some.inj h)
    exact ⟨rfl, .inl ⟨rfl, rfl, rfl⟩⟩
  | deallocateBuffer input =>
    obtain ⟨_, -, h⟩ := Option.bind_eq_some_iff.mp h
    obtain ⟨rfl, rfl⟩ := Prod.mk.inj (Option.some.inj h)
    exact ⟨rfl, .inl ⟨rfl, rfl, rfl⟩⟩
  | finish =>
    obtain ⟨rfl, rfl⟩ := Prod.mk.inj (Option.some.inj h)
    exact ⟨rfl, .inl ⟨rfl, rfl, rfl⟩⟩
  | ret operands =>
    obtain ⟨_, -, h⟩ := Option.bind_eq_some_iff.mp h
    obtain ⟨_, -, h⟩ := Option.bind_eq_some_iff.mp h
    obtain ⟨rfl, rfl⟩ := Prod.mk.inj (Option.some.inj h)
    exact ⟨rfl, .inl ⟨rfl, rfl, rfl⟩⟩

/-- A command adds at most the value that its operation defines. -/
theorem toCommand_cache {op : MetalOp} {command : Command}
    (h : toCommand cache op = some (command, cache')) (hkeyed : cache.Keyed) :
    cache'.Keyed ∧ ∀ w, op.defined ≠ some w → cache'.find w = cache.find w := by
  obtain ⟨-, ⟨-, -, rfl⟩ | ⟨v, address, hdefined, -, rfl⟩⟩ := toCommand_cases h
  · exact ⟨hkeyed, fun _ _ => rfl⟩
  · exact ⟨hkeyed.getOrCreate, fun w hw =>
      FlatbufferObjectCache.find_getOrCreate_of_ne fun heq => hw (heq ▸ hdefined)⟩

variable {ops : List MetalOp} {commands : List Command}

theorem toCommands_cons {op : MetalOp} : toCommands cache (op :: ops) = some (commands, cache') ↔
      ∃ command cache₁ rest, toCommand cache op = some (command, cache₁) ∧
        toCommands cache₁ ops = some (rest, cache') ∧ commands = command :: rest := by
  constructor
  · intro h
    obtain ⟨⟨command, cache₁⟩, hop, h⟩ := Option.bind_eq_some_iff.mp h
    obtain ⟨⟨rest, cache₂⟩, hops, h⟩ := Option.bind_eq_some_iff.mp h
    obtain ⟨rfl, rfl⟩ := Prod.mk.inj (Option.some.inj h)
    exact ⟨command, cache₁, rest, hop, hops, rfl⟩
  · rintro ⟨command, cache₁, rest, hop, hops, rfl⟩
    exact Option.bind_eq_some_iff.mpr ⟨_, hop, Option.bind_eq_some_iff.mpr ⟨_, hops, rfl⟩⟩

/-- Commands of two lists of operations, one after the other. -/
theorem toCommands_append {ops ops' : List MetalOp}
    (h : toCommands cache (ops ++ ops') = some (commands, cache')) :
    ∃ cs cs' cache₁, toCommands cache ops = some (cs, cache₁) ∧
      toCommands cache₁ ops' = some (cs', cache') ∧ commands = cs ++ cs' := by
  induction ops generalizing cache commands with
  | nil => exact ⟨[], commands, cache, rfl, h, rfl⟩
  | cons op ops ih =>
    obtain ⟨command, cache₁, rest, hop, hops, rfl⟩ := toCommands_cons.mp h
    obtain ⟨cs, cs', cache₂, hcs, hcs', rfl⟩ := ih hops
    exact ⟨command :: cs, cs', cache₂, toCommands_cons.mpr ⟨_, _, _, hop, hcs, rfl⟩, hcs', rfl⟩

theorem toCommands_cache
    (h : toCommands cache ops = some (commands, cache')) (hkeyed : cache.Keyed) :
    cache'.Keyed ∧ ∀ w ∉ ops.filterMap MetalOp.defined, cache'.find w = cache.find w := by
  induction ops generalizing cache commands with
  | nil =>
    obtain ⟨-, rfl⟩ := Prod.mk.inj (Option.some.inj h)
    exact ⟨hkeyed, fun _ _ => rfl⟩
  | cons op ops ih =>
    obtain ⟨command, cache₁, rest, hop, hops, -⟩ := toCommands_cons.mp h
    obtain ⟨hkeyed₁, hfind₁⟩ := toCommand_cache hop hkeyed
    obtain ⟨hkeyed', hfind'⟩ := ih hops hkeyed₁
    refine ⟨hkeyed', fun w hw => ?_⟩
    rw [List.mem_filterMap] at hw
    have hops : w ∉ ops.filterMap MetalOp.defined := by
      rw [List.mem_filterMap]
      rintro ⟨op', hmem, hdef⟩
      exact hw ⟨op', List.mem_cons_of_mem _ hmem, hdef⟩
    rw [hfind' w hops, hfind₁ w fun hdef => hw ⟨op, List.mem_cons_self, hdef⟩]

theorem toInputs_cache (args : List Value) (hkeyed : cache.Keyed) : (toInputs cache args).2.Keyed ∧
      ∀ w ∉ args, (toInputs cache args).2.find w = cache.find w := by
  induction args generalizing cache with
  | nil => exact ⟨hkeyed, fun _ _ => rfl⟩
  | cons arg args ih =>
    obtain ⟨hkeyed', hfind'⟩ := ih hkeyed.getOrCreate
    refine ⟨hkeyed', fun w hw => ?_⟩
    rw [List.mem_cons, not_or] at hw
    exact (hfind' w hw.2).trans (FlatbufferObjectCache.find_getOrCreate_of_ne hw.1)

/-- An operation and its conversion define the same value. -/
theorem defined_of_convert {op : Op} (h : op.convert = some ops) :
    ops.filterMap MetalOp.defined = op.defined.toList := by
  cases op with
  | alloc result address =>
    by_cases hhost : result.type.isHost
    · rw [Op.convert, convertAlloc, if_pos hhost] at h
      obtain rfl := Option.some.inj h
      rfl
    · rw [Op.convert, convertAlloc, if_neg hhost] at h
      obtain ⟨_, -, h⟩ := Option.bind_eq_some_iff.mp h
      obtain ⟨_, -, h⟩ := Option.bind_eq_some_iff.mp h
      obtain rfl := Option.some.inj h
      rfl
  | toLayout input output =>
    obtain ⟨_, -, h⟩ := Option.bind_eq_some_iff.mp h
    by_cases hhost : input.type.isHost
    · rw [if_pos hhost] at h
      obtain rfl := Option.some.inj h
      rfl
    · rw [if_neg hhost] at h
      obtain rfl := Option.some.inj h
      rfl
  | generic operands threads =>
    obtain ⟨_, -, h⟩ := Option.bind_eq_some_iff.mp h
    obtain ⟨_, -, h⟩ := Option.bind_eq_some_iff.mp h
    obtain ⟨_, -, h⟩ := Option.bind_eq_some_iff.mp h
    obtain rfl := Option.some.inj h
    rfl
  | deallocateBuffer input =>
    obtain rfl := Option.some.inj h
    rfl
  | finish =>
    obtain rfl := Option.some.inj h
    rfl

theorem convertBody_cons {results : List Value} {op : Op} {body : List Op} :
    convertBody results (op :: body) = some ops ↔
      ∃ head rest, op.convert = some head ∧ head.all MetalOp.verify ∧
        convertBody results body = some rest ∧ ops = head ++ rest := by
  constructor
  · intro h
    obtain ⟨head, hop, h⟩ := Option.bind_eq_some_iff.mp h
    obtain ⟨_, hverify, h⟩ := Option.bind_eq_some_iff.mp h
    obtain ⟨rest, hbody, h⟩ := Option.bind_eq_some_iff.mp h
    exact ⟨head, rest, hop, (Option.guard_eq_some' _).mp hverify, hbody, (Option.some.inj h).symm⟩
  · rintro ⟨head, rest, hop, hverify, hbody, rfl⟩
    refine Option.bind_eq_some_iff.mpr ⟨head, hop, Option.bind_eq_some_iff.mpr ⟨(), ?_,
      Option.bind_eq_some_iff.mpr ⟨rest, hbody, rfl⟩⟩⟩
    exact (Option.guard_eq_some' _).mpr hverify

/-- Conversion defines the values that the function defines. -/
theorem defined_of_convertBody {results : List Value} {body : List Op}
    (h : convertBody results body = some ops) :
    ops.filterMap MetalOp.defined = body.filterMap Op.defined := by
  induction body generalizing ops with
  | nil =>
    obtain rfl := Option.some.inj h
    rfl
  | cons op body ih =>
    obtain ⟨head, rest, hop, -, hbody, rfl⟩ := convertBody_cons.mp h
    rw [List.filterMap_append, defined_of_convert hop, ih hbody]
    cases hdef : op.defined with
    | none => rw [List.filterMap_cons_none hdef]; rfl
    | some v => rw [List.filterMap_cons_some hdef]; rfl

variable {program : DeviceProgram}

theorem translateFunc_eq_some {f : Func} (h : translateFunc cache f = some (program, cache')) :
    ∃ ops, convertBody f.results f.body = some ops ∧ program.inputs = (toInputs cache f.args).1 ∧
      toCommands (toInputs cache f.args).2 ops = some (program.commands, cache') := by
  obtain ⟨ops, hops, h⟩ := Option.bind_eq_some_iff.mp h
  obtain ⟨_, -, h⟩ := Option.bind_eq_some_iff.mp h
  obtain ⟨⟨commands, cache₁⟩, hcommands, h⟩ := Option.bind_eq_some_iff.mp h
  obtain ⟨rfl, rfl⟩ := Prod.mk.inj (Option.some.inj h)
  exact ⟨ops, hops, rfl, hcommands⟩

/-- Translating a function keeps the references of values it does not have. -/
theorem translateFunc_cache {f : Func}
    (h : translateFunc cache f = some (program, cache')) (hkeyed : cache.Keyed) :
    cache'.Keyed ∧ ∀ w ∉ f.values, cache'.find w = cache.find w := by
  obtain ⟨ops, hops, -, hcommands⟩ := translateFunc_eq_some h
  obtain ⟨hkeyed₁, hfind₁⟩ := toInputs_cache f.args hkeyed
  obtain ⟨hkeyed', hfind'⟩ := toCommands_cache hcommands hkeyed₁
  refine ⟨hkeyed', fun w hw => ?_⟩
  rw [Func.values, List.mem_append, not_or] at hw
  rw [hfind' w (by rw [defined_of_convertBody hops]; exact hw.2), hfind₁ w hw.1]

/-- **Every function is serialized with a keyed cache that does not hold its values.** -/
theorem exists_cache_of_mem {module : List Func} {programs : List DeviceProgram}
    (h : translateModuleToFlatbuffer module = some programs)
    (hssa : (module.flatMap Func.values).Nodup) {f : Func}
    (hmem : (f, program) ∈ module.zip programs) :
    ∃ cache cache', cache.Keyed ∧ (∀ v ∈ f.values, cache.find v = none) ∧ f.values.Nodup ∧
      translateFunc cache f = some (program, cache') := by
  -- the values of the functions to come are not in the cache
  suffices hgen : ∀ cache : FlatbufferObjectCache, cache.Keyed →
      (∀ v ∈ module.flatMap Func.values, cache.find v = none) →
      translateFuncs cache module = some programs →
      ∃ cache cache', cache.Keyed ∧ (∀ v ∈ f.values, cache.find v = none) ∧ f.values.Nodup ∧
        translateFunc cache f = some (program, cache') from
    hgen .empty FlatbufferObjectCache.keyed_empty (fun _ _ => rfl) h
  clear h
  intro cache hkeyed hnone h
  induction module generalizing cache programs with
  | nil => exact absurd hmem (by simp)
  | cons g module ih =>
    obtain ⟨⟨p, cache₁⟩, hg, h⟩ := Option.bind_eq_some_iff.mp h
    obtain ⟨ps, hps, h⟩ := Option.bind_eq_some_iff.mp h
    obtain rfl := Option.some.inj h
    rw [List.flatMap_cons, List.nodup_append] at hssa
    obtain ⟨hnodup, hssa, hdisjoint⟩ := hssa
    rw [List.flatMap_cons] at hnone
    rcases List.mem_cons.mp hmem with heq | hmem
    · obtain ⟨rfl, rfl⟩ := Prod.mk.inj heq
      exact ⟨cache, cache₁, hkeyed, fun v hv => hnone v (List.mem_append_left _ hv), hnodup, hg⟩
    · obtain ⟨hkeyed₁, hfind₁⟩ := translateFunc_cache hg hkeyed
      refine ih hssa hmem cache₁ hkeyed₁ (fun v hv => ?_) hps
      rw [hfind₁ v fun hvg => hdisjoint v hvg v hv rfl]
      exact hnone v (List.mem_append_right _ hv)

end Translate

end TTMetal
