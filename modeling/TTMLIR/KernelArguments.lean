/-
# The arguments of a kernel, from a generic to its program

A `generic` has one region for each thread.  Each region gets the operands as block arguments,
and semaphores after them; its data movement captures operands from outside.
`GenericRegionsToFuncs` and `TTIRToTTKernel` turn every argument into a position of a list of
compile time arguments, which serialization and the executor bind to values.

* `GenericOp`, `Region` : a generic with its regions, and its verifier;
* `regionToFunc` : `GenericRegionsToFuncs`;
* `kernelFunctionArgs`, `getGlobalOperands` : the patterns of `TTIRToTTKernel`;
* `ArgsBound` : the values of a list of arguments, kind by kind;
* `Bindings` : arguments are bound to the resources they stand for;
* `bindings_iff` : they are exactly when there is no semaphore or one thread.

Serialization drops which semaphore an argument is, and the executor creates a semaphore for
every argument, so that threads never share one.
-/
import TTMLIR.MetalExecutor

namespace TTMetal

open Fallible

/-! ## The generic -/

/-- The type of a block argument of a region. -/
inductive BlockArg : Type where
  | memref
  | semaphore
  deriving DecidableEq, Repr

/-- A source or destination of a data movement: captured from outside, or of the region. -/
inductive DMAOperand : Type where
  | captured (operand : Operand)
  | inRegion
  deriving DecidableEq, Repr

/-- `DMAOp`. -/
structure DMAOp : Type where
  src : DMAOperand
  dst : DMAOperand
  deriving DecidableEq, Repr

/-- A region of a generic: its thread, its block arguments and its data movements. -/
structure Region : Type where
  threadType : ThreadType
  args : List BlockArg
  dmas : List DMAOp
  deriving DecidableEq, Repr

/-- `GenericOp`: inputs and output, and the regions. -/
structure GenericOp : Type where
  operands : List Operand
  regions : List Region
  deriving DecidableEq, Repr

/-- The semaphores of a region. -/
def Region.semaphores (region : Region) (numOperands : ℕ) : ℕ := region.args.length - numOperands

/-- The semaphores of a generic, those of its first region. -/
def GenericOp.semaphores (op : GenericOp) : ℕ :=
  match op.regions with
  | [] => 0
  | region :: _ => region.semaphores op.operands.length

/-- `GenericOp::verify`: there are an operand and a thread, and every region has the arguments
of the first one, a memref for each operand and semaphores. -/
def GenericOp.verify (op : GenericOp) : Bool :=
  !op.operands.isEmpty && !op.regions.isEmpty && op.regions.all fun region =>
    decide (op.operands.length ≤ region.args.length) &&
      (op.regions.head?.all fun first => decide (region.args = first.args)) &&
      (region.args.take op.operands.length).all (fun arg => decide (arg = .memref)) &&
      (region.args.drop op.operands.length).all fun arg => decide (arg = .semaphore)

/-! ## From regions to functions -/

/-- `getCapturedOperandIndex`: the first operand that the value is. -/
def getCapturedOperandIndex (op : GenericOp) (operand : Operand) : Option ℕ :=
  op.operands.findIdx? fun o => decide (o = operand)

/-- `rewriteOperand`: a captured operand becomes a `get_global_operand`.  A function cannot
capture another value. -/
def rewriteOperand (op : GenericOp) : DMAOperand → Option (List ℕ)
  | .inRegion => some []
  | .captured operand => (getCapturedOperandIndex op operand).map fun index => [index]

/-- `rewriteCapturedDMAOperands`. -/
def rewriteCapturedDMAOperands (op : GenericOp) (dma : DMAOp) : Option (List ℕ) := do
  let src ← rewriteOperand op dma.src
  let dst ← rewriteOperand op dma.dst
  pure (src ++ dst)

/-- A kernel function: its inputs, and the operands of its `get_global_operand`s. -/
structure KernelFunc : Type where
  threadType : ThreadType
  inputs : List BlockArg
  globals : List ℕ
  deriving DecidableEq, Repr

/-- The function of a region. -/
def regionToFunc (op : GenericOp) (region : Region) : Option KernelFunc :=
  (region.dmas.mapM (rewriteCapturedDMAOperands op)).map fun globals =>
    ⟨region.threadType, region.args, globals.flatten⟩

/-! ## From block arguments to compile time arguments -/

/-- `TTIRKernelFunctionArgsRewriter`, from an argument number and a semaphore index on: the
compile time arguments, and the position that each block argument reads. -/
def kernelFunctionArgs : ℕ → ℕ → List ArgAttr → List BlockArg → List ArgAttr × List ℕ
  | _, _, ctArgs, [] => (ctArgs, [])
  | argNumber, semaphoreIndex, ctArgs, .memref :: args =>
    let (ctArgs, positions) :=
      kernelFunctionArgs (argNumber + 1) semaphoreIndex (ctArgs ++ [⟨.cbPort, argNumber⟩]) args
    (ctArgs, argNumber :: positions)
  | argNumber, semaphoreIndex, ctArgs, .semaphore :: args =>
    let ctArgIndex := ctArgs.length
    let (ctArgs, positions) := kernelFunctionArgs (argNumber + 1) (semaphoreIndex + 1)
      (ctArgs ++ [⟨.semaphore, semaphoreIndex⟩]) args
    (ctArgs, ctArgIndex :: positions)

/-- `ArgSpecAttr::appendCompileTimeArg`: the list, and the appended position. -/
def appendCompileTimeArg (ctArgs : List ArgAttr) (arg : ArgAttr) : List ArgAttr × ℕ :=
  (ctArgs ++ [arg], ctArgs.length)

/-- `TTIRGetGlobalOperandRewriter`, of every `get_global_operand` of a function. -/
def getGlobalOperands : List ArgAttr → List ℕ → List ArgAttr × List ℕ
  | ctArgs, [] => (ctArgs, [])
  | ctArgs, operandIndex :: globals =>
    let (ctArgs, position) := appendCompileTimeArg ctArgs ⟨.bufferAddress, operandIndex⟩
    let (ctArgs, positions) := getGlobalOperands ctArgs globals
    (ctArgs, position :: positions)

/-- A lowered function: its thread, its argument specification, and the positions that its
block arguments and its captured operands read. -/
structure LoweredFunc : Type where
  threadType : ThreadType
  argSpec : ArgSpecAttr
  argPositions : List ℕ
  globalPositions : List ℕ
  deriving DecidableEq, Repr

/-- `TTIRToTTKernel`, of a kernel function: the function before what is nested in it. -/
def lowerFunc (func : KernelFunc) : LoweredFunc :=
  let (ctArgs, argPositions) := kernelFunctionArgs 0 0 [] func.inputs
  let (ctArgs, globalPositions) := getGlobalOperands ctArgs func.globals
  ⟨func.threadType, ⟨[], ctArgs⟩, argPositions, globalPositions⟩

/-- The lowered functions of a generic that the verifier accepts. -/
def lowerGeneric (op : GenericOp) : Option (List LoweredFunc) := do
  guard op.verify
  let funcs ← op.regions.mapM (regionToFunc op)
  pure (funcs.map lowerFunc)

/-- The threads of the symbolic generic, their symbols numbered. -/
def threadsOf (unique : ℕ) : List LoweredFunc → List Thread
  | [] => []
  | func :: funcs => ⟨unique, func.threadType, func.argSpec⟩ :: threadsOf (unique + 1) funcs

/-! ## What the threads read -/

/-- What a thread reads for a block argument. -/
def readArg (funcs : List LoweredFunc) (launched : LaunchedProgram) (thread arg : ℕ) :
    Option ℕ := do
  let func ← funcs[thread]?
  let kernel ← launched.kernels[thread]?
  let position ← func.argPositions[arg]?
  kernel.ctArgs[position]?

/-- What a thread reads for a captured operand, in the order of their creation. -/
def readGlobal (funcs : List LoweredFunc) (launched : LaunchedProgram) (thread global : ℕ) :
    Option ℕ := do
  let func ← funcs[thread]?
  let kernel ← launched.kernels[thread]?
  let position ← func.globalPositions[global]?
  kernel.ctArgs[position]?

/-- The operand that a source or destination captures. -/
def DMAOperand.operand : DMAOperand → List Operand
  | .captured operand => [operand]
  | .inRegion => []

/-- The operands that a region captures, sources before destinations. -/
def Region.captured (region : Region) : List Operand :=
  region.dmas.flatMap fun dma => dma.src.operand ++ dma.dst.operand

variable {δ M : Type}

/-- **Arguments are bound to what they stand for.**  A thread reads for an operand the port
whose circular buffer is that of the operand, for a captured operand the address of the buffer
it is, and for a semaphore the same one in every thread, and another one for another. -/
structure Bindings (op : GenericOp) (funcs : List LoweredFunc) (store : Store δ M)
    (launched : LaunchedProgram) : Prop where
  port : ∀ t < op.regions.length, ∀ i operand, op.operands[i]? = some operand →
    ∃ port buffer, readArg funcs launched t i = some port ∧
      store.deviceBuffer operand.circularBuffer = some buffer ∧
      ∀ b, (port, b) ∈ launched.cbs ↔ b = buffer
  address : ∀ t region, op.regions[t]? = some region →
    ∀ i operand, region.captured[i]? = some operand →
      ∃ buffer, store.deviceBuffer operand.underlying = some buffer ∧
        readGlobal funcs launched t i = some buffer.address
  shared : ∀ j < op.semaphores, ∃ id, ∀ t < op.regions.length,
    readArg funcs launched t (op.operands.length + j) = some id
  distinct : ∀ t < op.regions.length, ∀ t' < op.regions.length, ∀ j < op.semaphores,
    ∀ j' < op.semaphores, j ≠ j' →
      readArg funcs launched t (op.operands.length + j) ≠
        readArg funcs launched t' (op.operands.length + j')

/-! ## The verifier -/

theorem eq_replicate_of_all {a : BlockArg} {l : List BlockArg}
    (h : l.all (fun arg => decide (arg = a)) = true) : l = List.replicate l.length a :=
  List.eq_replicate_iff.mpr ⟨rfl, fun b hb => of_decide_eq_true (List.all_eq_true.mp h b hb)⟩

variable {region : Region}

/-- **The arguments of a region.**  A memref for each operand, then the semaphores. -/
theorem args_of_verify {op : GenericOp} (h : op.verify = true) (hregion : region ∈ op.regions) :
    region.args = List.replicate op.operands.length .memref ++
      List.replicate op.semaphores .semaphore := by
  rw [GenericOp.verify, Bool.and_eq_true, Bool.and_eq_true, List.all_eq_true] at h
  obtain ⟨-, hall⟩ := h
  have hregion' := hall region hregion
  simp only [Bool.and_eq_true, decide_eq_true_eq] at hregion'
  obtain ⟨⟨⟨hle, hfirst⟩, hmemrefs⟩, hsemaphores⟩ := hregion'
  have hcount : op.semaphores = region.args.length - op.operands.length := by
    unfold GenericOp.semaphores
    cases hregions : op.regions with
    | nil =>
      rw [hregions] at hregion
      cases hregion
    | cons first regions =>
      rw [hregions] at hfirst
      rw [of_decide_eq_true hfirst]
      rfl
  have htake := eq_replicate_of_all hmemrefs
  have hdrop := eq_replicate_of_all hsemaphores
  rw [List.length_take, Nat.min_eq_left hle] at htake
  rw [List.length_drop, ← hcount] at hdrop
  rw [← List.take_append_drop op.operands.length region.args, htake, hdrop]

theorem regions_ne_nil_of_verify {op : GenericOp} (h : op.verify = true) :
    0 < op.regions.length := by
  rw [GenericOp.verify, Bool.and_eq_true, Bool.and_eq_true] at h
  have hne := h.1.2
  cases hregions : op.regions with
  | nil =>
    rw [hregions] at hne
    cases hne
  | cons first regions => exact Nat.succ_pos _

/-! ## The compile time arguments -/

theorem kernelFunctionArgs_memref (n a s : ℕ) (ctArgs : List ArgAttr) (args : List BlockArg) :
    kernelFunctionArgs a s ctArgs (List.replicate n .memref ++ args) =
      ((kernelFunctionArgs (a + n) s (ctArgs ++ (List.range' a n).map (ArgAttr.mk .cbPort)) args).1,
        List.range' a n ++ (kernelFunctionArgs (a + n) s
          (ctArgs ++ (List.range' a n).map (ArgAttr.mk .cbPort)) args).2) := by
  induction n generalizing a ctArgs with
  | zero => simp
  | succ n ih =>
    rw [List.replicate_succ, List.cons_append, kernelFunctionArgs, ih, List.range'_succ,
      List.map_cons, Nat.succ_add_eq_add_succ, List.append_assoc, List.singleton_append]
    rfl

theorem kernelFunctionArgs_semaphore (k a s : ℕ) (ctArgs : List ArgAttr) :
    kernelFunctionArgs a s ctArgs (List.replicate k .semaphore) =
      (ctArgs ++ (List.range' s k).map (ArgAttr.mk .semaphore), List.range' ctArgs.length k) := by
  induction k generalizing a s ctArgs with
  | zero => simp [kernelFunctionArgs]
  | succ k ih =>
    rw [List.replicate_succ, kernelFunctionArgs, ih, List.range'_succ, List.map_cons,
      List.append_assoc, List.singleton_append, List.length_append, List.range'_succ]
    rfl

theorem getGlobalOperands_eq (globals : List ℕ) (ctArgs : List ArgAttr) :
    getGlobalOperands ctArgs globals = (ctArgs ++ globals.map (ArgAttr.mk .bufferAddress),
        List.range' ctArgs.length globals.length) := by
  induction globals generalizing ctArgs with
  | nil => simp [getGlobalOperands]
  | cons operandIndex globals ih =>
    simp only [getGlobalOperands, appendCompileTimeArg, ih]
    rw [List.map_cons, List.append_assoc, List.singleton_append, List.length_append]
    rfl

/-- The arguments of a kernel as the executor gets them: ports, semaphores, addresses. -/
def kernelArgs (n k : ℕ) (globals : List ℕ) : List KernelArg :=
  (List.range n).map .cbPort ++ (List.replicate k (.semaphore 0 .worker) ++
    globals.map .bufferAddress)

/-- **A block argument reads its own position**, and captured operands those after them. -/
theorem lowerFunc_spec {func : KernelFunc} {n k : ℕ}
    (h : func.inputs = List.replicate n .memref ++ List.replicate k .semaphore) :
    (lowerFunc func).argSpec.rtArgs = [] ∧
      ((evalKernelArgs (lowerFunc func).argSpec.ctArgs).map KernelArgAttr.toFlatbuffer =
        kernelArgs n k func.globals) ∧
      (lowerFunc func).argPositions = List.range (n + k) ∧
      (lowerFunc func).globalPositions = List.range' (n + k) func.globals.length := by
  simp only [lowerFunc, h, kernelFunctionArgs_memref, kernelFunctionArgs_semaphore,
    getGlobalOperands_eq]
  refine ⟨trivial, ?_, ?_, ?_⟩
  · simp only [evalKernelArgs, kernelArgs, List.nil_append, List.map_append, List.map_map,
      List.append_assoc, ← List.range_eq_range']
    congr 2
    simp only [Function.comp_def, KernelArgAttr.toFlatbuffer, List.map_const']
    rw [List.length_range]
  · simp only [List.nil_append, List.length_map, List.length_range', List.range_eq_range']
    have happend := @List.range'_append_1 0 n k
    rwa [Nat.zero_add] at happend
  · simp

/-! ## The values of arguments -/

section Values

variable {lib : Library δ M} {port address : ℕ → Option ℕ}
variable {semaphores semaphores' : List Semaphore} {values : List ℕ}

theorem bindArgs_cons {arg : KernelArg} {args : List KernelArg}
    (h : bindArgs lib port address semaphores (arg :: args) = some (values, semaphores')) :
    ∃ value semaphores₁ rest, bindArg lib port address semaphores arg = some (value, semaphores₁) ∧
      bindArgs lib port address semaphores₁ args = some (rest, semaphores') ∧
      values = value :: rest := by
  obtain ⟨⟨value, semaphores₁⟩, harg, h⟩ := Option.bind_eq_some_iff.mp h
  obtain ⟨⟨rest, semaphores₂⟩, hargs, h⟩ := Option.bind_eq_some_iff.mp h
  obtain ⟨rfl, rfl⟩ := Prod.mk.inj (Option.some.inj h)
  exact ⟨value, semaphores₁, rest, harg, hargs, rfl⟩

theorem bindArgs_append {args args' : List KernelArg}
    (h : bindArgs lib port address semaphores (args ++ args') = some (values, semaphores')) :
    ∃ vs vs' semaphores₁, bindArgs lib port address semaphores args = some (vs, semaphores₁) ∧
      bindArgs lib port address semaphores₁ args' = some (vs', semaphores') ∧
      values = vs ++ vs' := by
  induction args generalizing semaphores values with
  | nil => exact ⟨[], values, semaphores, rfl, h, rfl⟩
  | cons arg args ih =>
    obtain ⟨value, semaphores₁, rest, harg, hrest, rfl⟩ := bindArgs_cons h
    obtain ⟨vs, vs', semaphores₂, hvs, hvs', rfl⟩ := ih hrest
    refine ⟨value :: vs, vs', semaphores₂, ?_, hvs', rfl⟩
    exact Option.bind_eq_some_iff.mpr ⟨_, harg, Option.bind_eq_some_iff.mpr ⟨_, hvs, rfl⟩⟩

/-- Arguments that are looked up create no semaphore. -/
theorem forall₂_of_bindArgs {arg : ℕ → KernelArg} {value : ℕ → Option ℕ}
    (harg : ∀ semaphores i, bindArg lib port address semaphores (arg i) =
      (value i).map fun v => (v, semaphores))
    {l values : List ℕ}
    (h : bindArgs lib port address semaphores (l.map arg) = some (values, semaphores')) :
    semaphores' = semaphores ∧ List.Forall₂ (fun i v => value i = some v) l values := by
  induction l generalizing values with
  | nil =>
    obtain ⟨rfl, rfl⟩ := Prod.mk.inj (Option.some.inj h)
    exact ⟨rfl, .nil⟩
  | cons i l ih =>
    obtain ⟨v, semaphores₁, rest, hv, hrest, rfl⟩ := bindArgs_cons h
    rw [harg] at hv
    obtain ⟨w, hw, heq⟩ := Option.map_eq_some_iff.mp hv
    obtain ⟨rfl, rfl⟩ := Prod.mk.inj heq
    obtain ⟨hsame, hforall⟩ := ih hrest
    exact ⟨hsame, .cons hw hforall⟩

/-- Every semaphore argument creates a semaphore. -/
theorem ids_of_bindArgs {k initialValue : ℕ} {coreType : CoreType}
    (h : bindArgs lib port address semaphores
      (List.replicate k (.semaphore initialValue coreType)) = some (values, semaphores')) :
    values.length = k ∧
      semaphores'.map Semaphore.id = values.reverse ++ semaphores.map Semaphore.id := by
  induction k generalizing semaphores values with
  | zero =>
    obtain ⟨rfl, rfl⟩ := Prod.mk.inj (Option.some.inj h)
    exact ⟨rfl, rfl⟩
  | succ k ih =>
    rw [List.replicate_succ] at h
    obtain ⟨id, semaphores₁, rest, hid, hrest, rfl⟩ := bindArgs_cons h
    obtain ⟨id', -, heq⟩ := Option.map_eq_some_iff.mp hid
    obtain ⟨rfl, rfl⟩ := Prod.mk.inj heq
    obtain ⟨hlen, hids⟩ := ih hrest
    refine ⟨by rw [List.length_cons, hlen], ?_⟩
    rw [hids, List.reverse_cons, List.append_assoc]
    rfl

/-- The library creates semaphores next to those that there are. -/
def FreshSemaphores (lib : Library δ M) : Prop :=
  ∀ semaphores initialValue coreType id,
    lib.createSemaphore semaphores initialValue coreType = some id →
      id ∉ semaphores.map Semaphore.id

theorem nodup_of_bindArg (hfresh : FreshSemaphores lib) {arg : KernelArg} {value : ℕ}
    (h : bindArg lib port address semaphores arg = some (value, semaphores'))
    (hnodup : (semaphores.map Semaphore.id).Nodup) : (semaphores'.map Semaphore.id).Nodup := by
  cases arg with
  | cbPort i =>
    obtain ⟨v, -, heq⟩ := Option.map_eq_some_iff.mp h
    obtain ⟨-, rfl⟩ := Prod.mk.inj heq
    exact hnodup
  | bufferAddress i =>
    obtain ⟨v, -, heq⟩ := Option.map_eq_some_iff.mp h
    obtain ⟨-, rfl⟩ := Prod.mk.inj heq
    exact hnodup
  | semaphore initialValue coreType =>
    obtain ⟨id, hid, heq⟩ := Option.map_eq_some_iff.mp h
    obtain ⟨-, rfl⟩ := Prod.mk.inj heq
    exact List.nodup_cons.mpr ⟨hfresh _ _ _ _ hid, hnodup⟩

theorem nodup_of_bindArgs (hfresh : FreshSemaphores lib) {args : List KernelArg}
    (h : bindArgs lib port address semaphores args = some (values, semaphores'))
    (hnodup : (semaphores.map Semaphore.id).Nodup) : (semaphores'.map Semaphore.id).Nodup := by
  induction args generalizing semaphores values with
  | nil =>
    obtain ⟨-, rfl⟩ := Prod.mk.inj (Option.some.inj h)
    exact hnodup
  | cons arg args ih =>
    obtain ⟨value, semaphores₁, rest, harg, hrest, -⟩ := bindArgs_cons h
    exact ih hrest (nodup_of_bindArg hfresh harg hnodup)

/-- **The values of a kernel's arguments**: `n` ports, `k` semaphores, the addresses. -/
structure ArgsBound (port address : ℕ → Option ℕ) (n k : ℕ) (globals values : List ℕ) : Prop where
  port : ∀ i < n, ∃ v, port i = some v ∧ values[i]? = some v
  address : ∀ i operand, globals[i]? = some operand →
    ∃ v, address operand = some v ∧ values[n + k + i]? = some v
  length : n + k ≤ values.length

/-- The semaphores among the values of a kernel's arguments. -/
def semaphoreIds (n k : ℕ) (values : List ℕ) : List ℕ := (values.drop n).take k

theorem getElem?_semaphoreIds {n k j : ℕ} (hj : j < k) :
    (semaphoreIds n k values)[j]? = values[n + j]? := by
  rw [semaphoreIds, List.getElem?_take_of_lt hj, List.getElem?_drop]

/-- The arguments of a kernel are bound kind by kind. -/
theorem argsBound_of_bindArgs {n k : ℕ} {globals values : List ℕ}
    (h : bindArgs lib port address semaphores (kernelArgs n k globals) =
      some (values, semaphores')) :
    ArgsBound port address n k globals values ∧ semaphores'.map Semaphore.id =
      (semaphoreIds n k values).reverse ++ semaphores.map Semaphore.id := by
  obtain ⟨ports, rest, semaphores₁, hfirst, hrest, rfl⟩ := bindArgs_append h
  obtain ⟨ids, addresses, semaphores₂, hsecond, hthird, rfl⟩ := bindArgs_append hrest
  obtain ⟨rfl, hports⟩ := forall₂_of_bindArgs (fun _ _ => rfl) hfirst
  obtain ⟨rfl, hids⟩ := ids_of_bindArgs hsecond
  obtain ⟨rfl, haddresses⟩ := forall₂_of_bindArgs (fun _ _ => rfl) hthird
  have hn : ports.length = n := hports.length_eq.symm.trans List.length_range
  have hsemaphores : semaphoreIds n ids.length (ports ++ (ids ++ addresses)) = ids := by
    rw [semaphoreIds, ← hn, List.drop_left, List.take_left]
  refine ⟨{ port := fun i hi => ?_, address := fun i operand hi => ?_, length := ?_ }, ?_⟩
  · have hlt : i < ports.length := hn ▸ hi
    have hget := (List.forall₂_iff_get.mp hports).2 i (by rwa [List.length_range]) hlt
    rw [List.get_eq_getElem, List.getElem_range] at hget
    exact ⟨_, hget, by rw [List.getElem?_append_left hlt, List.getElem?_eq_getElem hlt]; rfl⟩
  · obtain ⟨hlt, heq⟩ := List.getElem?_eq_some_iff.mp hi
    have hlt' : i < addresses.length := haddresses.length_eq ▸ hlt
    have hget := (List.forall₂_iff_get.mp haddresses).2 i hlt hlt'
    rw [List.get_eq_getElem, heq] at hget
    refine ⟨_, hget, ?_⟩
    rw [← hn, ← List.append_assoc, ← List.length_append, List.getElem?_append_right (by omega),
      Nat.add_sub_cancel_left, List.getElem?_eq_getElem hlt']
    rfl
  · rw [List.length_append, List.length_append, hn]
    omega
  · rw [hsemaphores, hids]

/-- **The kernels of a program.**  Every kernel has its arguments bound, and its semaphores are
those it created. -/
theorem argsBound_of_createKernels {n k : ℕ} {globals : List (List ℕ)}
    {configs : List KernelConfig} {kernels : List Kernel}
    (hconfigs : List.Forall₂ (fun gs config => config.rtArgs = [] ∧
      config.ctArgs = kernelArgs n k gs) globals configs)
    (h : createKernels lib port address semaphores configs = some (kernels, semaphores')) :
    List.Forall₂ (fun gs kernel => ArgsBound port address n k gs kernel.ctArgs) globals kernels ∧
      semaphores'.map Semaphore.id =
        (kernels.flatMap fun kernel => semaphoreIds n k kernel.ctArgs).reverse ++
          semaphores.map Semaphore.id := by
  induction hconfigs generalizing semaphores kernels with
  | nil =>
    obtain ⟨rfl, rfl⟩ := Prod.mk.inj (Option.some.inj h)
    exact ⟨.nil, rfl⟩
  | cons hconfig _ ih =>
    obtain ⟨⟨ctArgs, semaphores₁⟩, hct, h⟩ := Option.bind_eq_some_iff.mp h
    obtain ⟨⟨rtArgs, semaphores₂⟩, hrt, h⟩ := Option.bind_eq_some_iff.mp h
    obtain ⟨⟨rest, semaphores₃⟩, hrest, h⟩ := Option.bind_eq_some_iff.mp h
    obtain ⟨rfl, rfl⟩ := Prod.mk.inj (Option.some.inj h)
    rw [hconfig.2] at hct
    rw [hconfig.1] at hrt
    obtain ⟨rfl, rfl⟩ := Prod.mk.inj (Option.some.inj hrt)
    obtain ⟨hbound, hids⟩ := argsBound_of_bindArgs hct
    obtain ⟨hforall, hids'⟩ := ih hrest
    refine ⟨.cons hbound hforall, ?_⟩
    rw [hids', hids, List.flatMap_cons, List.reverse_append, List.append_assoc]

theorem nodup_of_createKernels (hfresh : FreshSemaphores lib) {configs : List KernelConfig}
    {kernels : List Kernel}
    (h : createKernels lib port address semaphores configs = some (kernels, semaphores'))
    (hnodup : (semaphores.map Semaphore.id).Nodup) : (semaphores'.map Semaphore.id).Nodup := by
  induction configs generalizing semaphores kernels with
  | nil =>
    obtain ⟨-, rfl⟩ := Prod.mk.inj (Option.some.inj h)
    exact hnodup
  | cons config configs ih =>
    obtain ⟨⟨ctArgs, semaphores₁⟩, hct, h⟩ := Option.bind_eq_some_iff.mp h
    obtain ⟨⟨rtArgs, semaphores₂⟩, hrt, h⟩ := Option.bind_eq_some_iff.mp h
    obtain ⟨⟨rest, semaphores₃⟩, hrest, h⟩ := Option.bind_eq_some_iff.mp h
    obtain ⟨-, rfl⟩ := Prod.mk.inj (Option.some.inj h)
    exact ih hrest (nodup_of_bindArgs hfresh hrt (nodup_of_bindArgs hfresh hct hnodup))

end Values

/-! ## From the generic to its kernels -/

section Generic

variable {op : GenericOp} {funcs : List LoweredFunc}

/-- The operand of a `get_global_operand` is the captured one. -/
theorem getElem?_of_getCapturedOperandIndex {operand : Operand} {index : ℕ}
    (h : getCapturedOperandIndex op operand = some index) : op.operands[index]? = some operand := by
  obtain ⟨hlt, heq, -⟩ := List.findIdx?_eq_some_iff_getElem.mp h
  rw [List.getElem?_eq_getElem hlt, of_decide_eq_true heq]

theorem forall₂_of_rewriteOperand {o : DMAOperand} {indices : List ℕ}
    (h : rewriteOperand op o = some indices) :
    List.Forall₂ (fun operand index => op.operands[index]? = some operand) o.operand indices := by
  cases o with
  | inRegion =>
    obtain rfl := Option.some.inj h
    exact .nil
  | captured operand =>
    obtain ⟨index, hindex, rfl⟩ := Option.map_eq_some_iff.mp h
    exact .cons (getElem?_of_getCapturedOperandIndex hindex) .nil

/-- **The captured operands of a region**, in the order of their `get_global_operand`s. -/
theorem captured_of_regionToFunc {func : KernelFunc} (h : regionToFunc op region = some func) :
    func.inputs = region.args ∧ List.Forall₂
      (fun operand index => op.operands[index]? = some operand) region.captured func.globals := by
  obtain ⟨globals, hglobals, rfl⟩ := Option.map_eq_some_iff.mp h
  refine ⟨rfl, ?_⟩
  have hforall := forall₂_of_mapM_eq_some hglobals
  unfold Region.captured
  clear h hglobals
  generalize region.dmas = dmas at hforall ⊢
  induction hforall with
  | nil => exact .nil
  | cons hdma _ ih =>
    obtain ⟨src, hsrc, hdma⟩ := Option.bind_eq_some_iff.mp hdma
    obtain ⟨dst, hdst, hdma⟩ := Option.bind_eq_some_iff.mp hdma
    obtain rfl := Option.some.inj hdma
    rw [List.flatMap_cons, List.flatten_cons]
    exact List.rel_append (List.rel_append (forall₂_of_rewriteOperand hsrc)
      (forall₂_of_rewriteOperand hdst)) ih

/-- The serialized configurations of the threads have the arguments of their functions. -/
theorem forall₂_of_convertThreads {n k : ℕ} {kernelFuncs : List KernelFunc}
    {configs : List KernelConfigAttr} {unique nocIndex : ℕ}
    (hinputs : ∀ func ∈ kernelFuncs, func.inputs =
      List.replicate n .memref ++ List.replicate k .semaphore)
    (h : convertThreadsToKernelConfigs nocIndex
      (threadsOf unique (kernelFuncs.map lowerFunc)) = some configs) :
    List.Forall₂ (fun gs config => config.rtArgs = [] ∧ config.ctArgs = kernelArgs n k gs)
      (kernelFuncs.map KernelFunc.globals) (configs.map kernelConfigToFlatbuffer) := by
  induction kernelFuncs generalizing unique nocIndex configs with
  | nil =>
    obtain rfl := Option.some.inj h
    exact .nil
  | cons func kernelFuncs ih =>
    obtain ⟨hrt, hct, -, -⟩ := lowerFunc_spec (hinputs func List.mem_cons_self)
    have hrest : ∀ f ∈ kernelFuncs, f.inputs =
        List.replicate n .memref ++ List.replicate k .semaphore :=
      fun f hf => hinputs f (List.mem_cons_of_mem _ hf)
    have hrt' : ((evalKernelArgs (lowerFunc func).argSpec.rtArgs).map
        KernelArgAttr.toFlatbuffer) = [] := by rw [hrt]; rfl
    rw [List.map_cons, threadsOf, convertThreadsToKernelConfigs] at h
    simp only at h
    split at h
    · obtain ⟨rest, hconfigs, h⟩ := Option.bind_eq_some_iff.mp h
      obtain rfl := Option.some.inj h
      exact .cons ⟨hrt', hct⟩ (ih hrest hconfigs)
    · obtain ⟨_, -, h⟩ := Option.bind_eq_some_iff.mp h
      obtain ⟨rest, hconfigs, h⟩ := Option.bind_eq_some_iff.mp h
      obtain rfl := Option.some.inj h
      exact .cons ⟨hrt', hct⟩ (ih hrest hconfigs)

end Generic

/-! ## The bindings of a program -/

section Program

variable {lib : Library δ M} {op : GenericOp} {funcs : List LoweredFunc} {store : Store δ M}
  {launched : LaunchedProgram}

/-- A thread of a program: its function reads its own positions, and the values there are
bound kind by kind. -/
structure ThreadBound (op : GenericOp) (buffers : List DeviceBuffer) (region : Region)
    (func : LoweredFunc) (kernel : Kernel) (globals : List ℕ) : Prop where
  argPositions : func.argPositions = List.range (op.operands.length + op.semaphores)
  globalPositions : func.globalPositions =
    List.range' (op.operands.length + op.semaphores) globals.length
  captured : List.Forall₂ (fun operand index => op.operands[index]? = some operand)
    region.captured globals
  bound : ArgsBound (fun i => (List.range op.operands.length)[i]?)
    (fun i => buffers[i]?.map DeviceBuffer.address) op.operands.length op.semaphores globals
    kernel.ctArgs

/-- What is known of the program of a generic. -/
structure ProgramBound (op : GenericOp) (funcs : List LoweredFunc) (store : Store δ M)
    (launched : LaunchedProgram) : Prop where
  cbs : ∃ cs, op.operands.mapM (fun operand => store.deviceBuffer operand.circularBuffer) =
      some cs ∧ launched.cbs = (List.range op.operands.length).zip cs
  threads : ∃ bs, op.operands.mapM (fun operand => store.deviceBuffer operand.underlying) =
      some bs ∧ ∀ (t : ℕ) (region : Region), op.regions[t]? = some region →
        ∃ (func : LoweredFunc) (kernel : Kernel) (globals : List ℕ),
          funcs[t]? = some func ∧ launched.kernels[t]? = some kernel ∧
            ThreadBound op bs region func kernel globals
  ids : (launched.kernels.flatMap fun kernel =>
    semaphoreIds op.operands.length op.semaphores kernel.ctArgs).Nodup

/-- **The program of a generic.** -/
theorem programBound_of_lowerGeneric (hfresh : FreshSemaphores lib)
    (hfuncs : lowerGeneric op = some funcs) {unique : ℕ}
    (hlaunch : store.program lib op.operands (threadsOf unique funcs) = some launched) :
    ProgramBound op funcs store launched := by
  obtain ⟨_, hverify, hfuncs⟩ := Option.bind_eq_some_iff.mp hfuncs
  have hverify := (Option.guard_eq_some' _).mp hverify
  obtain ⟨kernelFuncs, hkernelFuncs, hfuncs⟩ := Option.bind_eq_some_iff.mp hfuncs
  obtain rfl := Option.some.inj hfuncs
  obtain ⟨bs, hbs, hlaunch⟩ := Option.bind_eq_some_iff.mp hlaunch
  obtain ⟨cs, hcs, hlaunch⟩ := Option.bind_eq_some_iff.mp hlaunch
  obtain ⟨configs, hconfigs, hlaunch⟩ := Option.bind_eq_some_iff.mp hlaunch
  obtain ⟨⟨kernels, semaphores⟩, hkernels, hlaunch⟩ := Option.bind_eq_some_iff.mp hlaunch
  obtain rfl := Option.some.inj hlaunch
  have hregions := forall₂_of_mapM_eq_some hkernelFuncs
  -- every function has the arguments that the verifier asks for
  have hinputs : ∀ func ∈ kernelFuncs, func.inputs =
      List.replicate op.operands.length .memref ++ List.replicate op.semaphores .semaphore := by
    intro func hfunc
    obtain ⟨t, ht⟩ := List.mem_iff_getElem?.mp hfunc
    obtain ⟨region, hregion, hto⟩ := exists_getElem?_of_forall₂ hregions.flip ht
    rw [(captured_of_regionToFunc hto).1]
    exact args_of_verify hverify (List.mem_of_getElem? hregion)
  obtain ⟨hbound, hids⟩ := argsBound_of_createKernels
    (forall₂_of_convertThreads hinputs hconfigs) hkernels
  refine ⟨⟨cs, hcs, rfl⟩, ⟨bs, hbs, fun t region hregion => ?_⟩, ?_⟩
  · obtain ⟨func, hfunc, hto⟩ := exists_getElem?_of_forall₂ hregions hregion
    obtain ⟨-, hcaptured⟩ := captured_of_regionToFunc hto
    obtain ⟨kernel, hkernel, hargs⟩ := exists_getElem?_of_forall₂ hbound
      (show (kernelFuncs.map KernelFunc.globals)[t]? = some func.globals by
        rw [List.getElem?_map, hfunc]
        rfl)
    obtain ⟨-, -, hpositions, hglobals⟩ := lowerFunc_spec (hinputs func (List.mem_of_getElem? hfunc))
    refine ⟨lowerFunc func, kernel, func.globals, ?_, hkernel,
      ⟨hpositions, hglobals, hcaptured, hargs⟩⟩
    rw [List.getElem?_map, hfunc]
    rfl
  · have hnodup := nodup_of_createKernels hfresh hkernels List.nodup_nil
    rw [hids, List.map_nil, List.append_nil, List.nodup_reverse] at hnodup
    exact hnodup

theorem readArg_eq {buffers : List DeviceBuffer} {func : LoweredFunc}
    {kernel : Kernel} {globals : List ℕ} {t i : ℕ} (hfunc : funcs[t]? = some func)
    (hkernel : launched.kernels[t]? = some kernel)
    (hthread : ThreadBound op buffers region func kernel globals)
    (hi : i < op.operands.length + op.semaphores) :
    readArg funcs launched t i = kernel.ctArgs[i]? := by
  have hposition : func.argPositions[i]? = some i := by
    rw [hthread.argPositions, List.getElem?_range hi]
  simp only [readArg, hfunc, hkernel, hposition, Option.bind_eq_bind, Option.bind_some]

section

variable (h : ProgramBound op funcs store launched)

include h

/-- **Ports.** -/
theorem ProgramBound.port {t i : ℕ}
    (ht : t < op.regions.length) {operand : Operand} (hoperand : op.operands[i]? = some operand) :
    ∃ port buffer, readArg funcs launched t i = some port ∧
      store.deviceBuffer operand.circularBuffer = some buffer ∧
      ∀ b, (port, b) ∈ launched.cbs ↔ b = buffer := by
  obtain ⟨cs, hcs, hcbs⟩ := h.cbs
  obtain ⟨bs, -, hthreads⟩ := h.threads
  obtain ⟨func, kernel, globals, hfunc, hkernel, hthread⟩ :=
    hthreads t _ (List.getElem?_eq_getElem ht)
  obtain ⟨hi, -⟩ := List.getElem?_eq_some_iff.mp hoperand
  obtain ⟨v, hv, hvalue⟩ := hthread.bound.port i hi
  rw [List.getElem?_range hi] at hv
  obtain rfl := Option.some.inj hv
  obtain ⟨buffer, hbuffer, hstore⟩ :=
    exists_getElem?_of_forall₂ (forall₂_of_mapM_eq_some hcs) hoperand
  refine ⟨i, buffer, (readArg_eq hfunc hkernel hthread (by omega)).trans hvalue, hstore,
    fun b => ?_⟩
  rw [hcbs, List.mem_iff_getElem?]
  constructor
  · rintro ⟨j, hj⟩
    obtain ⟨hport, hb⟩ := List.getElem?_zip_eq_some.mp hj
    obtain ⟨hlt, heq⟩ := List.getElem?_eq_some_iff.mp hport
    rw [List.getElem_range] at heq
    rw [heq, hbuffer] at hb
    exact (Option.some.inj hb).symm
  · rintro rfl
    exact ⟨i, List.getElem?_zip_eq_some.mpr ⟨List.getElem?_range hi, hbuffer⟩⟩

/-- **Addresses.** -/
theorem ProgramBound.address {t i : ℕ} (hregion : op.regions[t]? = some region) {operand : Operand}
    (hoperand : region.captured[i]? = some operand) :
    ∃ buffer, store.deviceBuffer operand.underlying = some buffer ∧
      readGlobal funcs launched t i = some buffer.address := by
  obtain ⟨bs, hbs, hthreads⟩ := h.threads
  obtain ⟨func, kernel, globals, hfunc, hkernel, hthread⟩ := hthreads t region hregion
  obtain ⟨index, hindex, hop⟩ := exists_getElem?_of_forall₂ hthread.captured hoperand
  obtain ⟨buffer, hbuffer, hstore⟩ := exists_getElem?_of_forall₂ (forall₂_of_mapM_eq_some hbs) hop
  obtain ⟨v, hv, hvalue⟩ := hthread.bound.address i index hindex
  rw [hbuffer] at hv
  obtain rfl := Option.some.inj hv
  obtain ⟨hlt, -⟩ := List.getElem?_eq_some_iff.mp hindex
  have hposition : func.globalPositions[i]? = some (op.operands.length + op.semaphores + i) := by
    rw [hthread.globalPositions, List.getElem?_range' hlt, Nat.one_mul]
  refine ⟨buffer, hstore, ?_⟩
  simp only [readGlobal, hfunc, hkernel, hposition, Option.bind_eq_bind, Option.bind_some]
  exact hvalue

/-- What a thread reads for a semaphore is one that was created for it. -/
theorem ProgramBound.exists_id {t j : ℕ} (ht : t < op.regions.length) (hj : j < op.semaphores) :
    ∃ kernel id, launched.kernels[t]? = some kernel ∧
      readArg funcs launched t (op.operands.length + j) = some id ∧
      (semaphoreIds op.operands.length op.semaphores kernel.ctArgs)[j]? = some id := by
  obtain ⟨bs, -, hthreads⟩ := h.threads
  obtain ⟨func, kernel, globals, hfunc, hkernel, hthread⟩ :=
    hthreads t _ (List.getElem?_eq_getElem ht)
  have hlen := hthread.bound.length
  have hlt : op.operands.length + j < kernel.ctArgs.length := by omega
  refine ⟨kernel, kernel.ctArgs[op.operands.length + j], hkernel, ?_, ?_⟩
  · rw [readArg_eq hfunc hkernel hthread (by omega), List.getElem?_eq_getElem hlt]
  · rw [getElem?_semaphoreIds hj, List.getElem?_eq_getElem hlt]

/-- **No two semaphore arguments of the threads are the same semaphore.** -/
theorem ProgramBound.readArg_inj {t t' j j' : ℕ}
    (ht : t < op.regions.length) (ht' : t' < op.regions.length) (hj : j < op.semaphores)
    (hj' : j' < op.semaphores)
    (heq : readArg funcs launched t (op.operands.length + j) =
      readArg funcs launched t' (op.operands.length + j')) : t = t' ∧ j = j' := by
  obtain ⟨kernel, id, hkernel, hread, hid⟩ := h.exists_id ht hj
  obtain ⟨kernel', id', hkernel', hread', hid'⟩ := h.exists_id ht' hj'
  rw [hread, hread'] at heq
  obtain rfl := Option.some.inj heq
  obtain ⟨hnodup, hdisjoint⟩ := List.nodup_flatMap.mp h.ids
  obtain ⟨hlt, hget⟩ := List.getElem?_eq_some_iff.mp hkernel
  obtain ⟨hlt', hget'⟩ := List.getElem?_eq_some_iff.mp hkernel'
  -- the semaphores of different threads are disjoint
  have hne : ∀ {a b : ℕ} (ha : a < launched.kernels.length) (hb : b < launched.kernels.length),
      a < b → id ∈ semaphoreIds op.operands.length op.semaphores launched.kernels[a].ctArgs →
      id ∉ semaphoreIds op.operands.length op.semaphores launched.kernels[b].ctArgs :=
    fun ha hb hab hmem hmem' => List.pairwise_iff_getElem.mp hdisjoint _ _ ha hb hab hmem hmem'
  have hmem := List.mem_of_getElem? hid
  have hmem' := List.mem_of_getElem? hid'
  rw [← hget] at hmem
  rw [← hget'] at hmem'
  have htt : t = t' := by
    rcases Nat.lt_trichotomy t t' with hlt₁ | heq₁ | hgt₁
    · exact absurd hmem' (hne hlt hlt' hlt₁ hmem)
    · exact heq₁
    · exact absurd hmem (hne hlt' hlt hgt₁ hmem')
  subst htt
  rw [hkernel] at hkernel'
  obtain rfl := Option.some.inj hkernel'
  -- and so are those of one thread
  obtain ⟨hjlt, hjget⟩ := List.getElem?_eq_some_iff.mp hid
  obtain ⟨hjlt', hjget'⟩ := List.getElem?_eq_some_iff.mp hid'
  exact ⟨rfl, (List.Nodup.getElem_inj_iff (hnodup kernel (List.mem_of_getElem? hkernel))).mp
    (hjget.trans hjget'.symm)⟩

end

theorem exists_mapM_eq_some {α β : Type} {f : α → Option β} {l : List α}
    (h : ∀ a ∈ l, (f a).isSome) : ∃ l', l.mapM f = some l' := by
  induction l with
  | nil => exact ⟨[], rfl⟩
  | cons a l ih =>
    obtain ⟨b, hb⟩ := Option.isSome_iff_exists.mp (h a List.mem_cons_self)
    obtain ⟨bs, hbs⟩ := ih fun a ha => h a (List.mem_cons_of_mem _ ha)
    refine ⟨b :: bs, ?_⟩
    rw [List.mapM_cons, hb, hbs]
    rfl

/-- The executor launches the program that the generic means. -/
theorem program_of_execute {cache cache' : FlatbufferObjectCache} {host : Host}
    (hr : Rel cache store host) {operands : List Operand} {threads : List Thread}
    {ops : List MetalOp} (hops : convertGeneric operands threads = some ops)
    {buffers : List BufferRef} {cbs : List CBRef} {kernels : List KernelConfig}
    (hcommands : toCommands cache ops = some ([.enqueueProgram buffers cbs kernels], cache'))
    (hlive : ∀ operand ∈ operands, (store.deviceBuffer operand.underlying).isSome ∧
      (store.deviceBuffer operand.circularBuffer).isSome)
    (hlaunch : executeEnqueueProgram lib buffers cbs kernels host = some launched) :
    store.program lib operands threads = some launched := by
  obtain ⟨vs, hvs, hops⟩ := Option.bind_eq_some_iff.mp hops
  obtain ⟨ws, hws, hops⟩ := Option.bind_eq_some_iff.mp hops
  obtain ⟨configs, hconfigs, hops⟩ := Option.bind_eq_some_iff.mp hops
  obtain rfl := Option.some.inj hops
  obtain ⟨command, hcommand, heq⟩ := toCommands_singleton hcommands
  obtain ⟨refs, hrefs, hcommand⟩ := Option.bind_eq_some_iff.mp hcommand
  obtain ⟨cbRefs, hcbRefs, hcommand⟩ := Option.bind_eq_some_iff.mp hcommand
  obtain ⟨rfl, -⟩ := Prod.mk.inj (Option.some.inj hcommand)
  injection (List.cons.inj heq).1 with hbuffers hcbs hkernels
  subst hbuffers hcbs hkernels
  obtain ⟨bs, hbs⟩ := exists_mapM_eq_some fun operand hoperand => (hlive operand hoperand).1
  obtain ⟨cs, hcs⟩ := exists_mapM_eq_some fun operand hoperand => (hlive operand hoperand).2
  exact (hr.executeEnqueueProgram hvs hws hconfigs hrefs hcbRefs hbs hcs).symm.trans hlaunch

/-- **When arguments are bound to what they stand for.**  Of every generic that is lowered and
whose program the executor launches, ports and addresses are those of the operands; semaphores
are as meant exactly when there is none, or a single thread. -/
theorem bindings_iff (hfresh : FreshSemaphores lib) {cache cache' : FlatbufferObjectCache}
    {host : Host} (hr : Rel cache store host) (hfuncs : lowerGeneric op = some funcs)
    {unique : ℕ} {ops : List MetalOp}
    (hops : convertGeneric op.operands (threadsOf unique funcs) = some ops)
    {buffers : List BufferRef} {cbs : List CBRef} {kernels : List KernelConfig}
    (hcommands : toCommands cache ops = some ([.enqueueProgram buffers cbs kernels], cache'))
    (hlive : ∀ operand ∈ op.operands, (store.deviceBuffer operand.underlying).isSome ∧
      (store.deviceBuffer operand.circularBuffer).isSome)
    (hlaunch : executeEnqueueProgram lib buffers cbs kernels host = some launched) :
    Bindings op funcs store launched ↔ op.semaphores = 0 ∨ op.regions.length = 1 := by
  have hprogram := programBound_of_lowerGeneric hfresh hfuncs
    (program_of_execute hr hops hcommands hlive hlaunch)
  obtain ⟨_, hverify, -⟩ := Option.bind_eq_some_iff.mp hfuncs
  have hpos := regions_ne_nil_of_verify ((Option.guard_eq_some' _).mp hverify)
  constructor
  · intro hbindings
    by_contra hnot
    rw [not_or] at hnot
    have hzero : 0 < op.semaphores := Nat.pos_of_ne_zero hnot.1
    have hone : 1 < op.regions.length := by omega
    -- the first two threads would share the first semaphore
    obtain ⟨id, hid⟩ := hbindings.shared 0 hzero
    have hinj := hprogram.readArg_inj hpos hone hzero hzero
      ((hid 0 hpos).trans (hid 1 hone).symm)
    exact absurd hinj.1 Nat.zero_ne_one
  · intro hcond
    refine ⟨fun t ht i operand => hprogram.port ht, fun t region hregion i operand =>
      hprogram.address hregion, fun j hj => ?_, fun t ht t' ht' j hj j' hj' hne heq =>
      hne (hprogram.readArg_inj ht ht' hj hj' heq).2⟩
    have hone : op.regions.length = 1 := by
      rcases hcond with hnone | hone
      · omega
      · exact hone
    obtain ⟨kernel, id, -, hread, -⟩ := hprogram.exists_id hpos hj
    refine ⟨id, fun t ht => ?_⟩
    obtain rfl : t = 0 := by omega
    exact hread

end Program

/-! ### A generic with a semaphore -/

/-- An input that is streamed and an output, a data movement thread that captures the stream
and a compute thread, and a semaphore. -/
def multicast : GenericOp where
  operands := [.stream 9 (.buffer ⟨1, deviceType⟩) (.buffer ⟨2, deviceType⟩),
    .buffer ⟨3, deviceType⟩]
  regions := [⟨.datamovement, [.memref, .memref, .semaphore],
      [⟨.captured (.stream 9 (.buffer ⟨1, deviceType⟩) (.buffer ⟨2, deviceType⟩)), .inRegion⟩]⟩,
    ⟨.compute, [.memref, .memref, .semaphore], []⟩]

/-- Its functions. -/
def multicastFuncs : List LoweredFunc :=
  [⟨.datamovement, ⟨[], [⟨.cbPort, 0⟩, ⟨.cbPort, 1⟩, ⟨.semaphore, 0⟩, ⟨.bufferAddress, 0⟩]⟩,
      [0, 1, 2], [3]⟩,
    ⟨.compute, ⟨[], [⟨.cbPort, 0⟩, ⟨.cbPort, 1⟩, ⟨.semaphore, 0⟩]⟩, [0, 1, 2], []⟩]

/-- The program it becomes: the semaphore of its first thread is 0, that of its second 1. -/
def multicastLaunched : LaunchedProgram where
  kernels := [⟨0, .noc 0, [], [0, 1, 0, 1024]⟩, ⟨1, .compute, [], [0, 1, 1]⟩]
  cbs := [(0, ⟨8192, deviceType⟩), (1, ⟨16384, deviceType⟩)]
  semaphores := [⟨1, 0, .worker⟩, ⟨0, 0, .worker⟩]

/-- The cache with its three buffers. -/
def multicastCache : FlatbufferObjectCache :=
  ((FlatbufferObjectCache.empty.insert ⟨1, deviceType⟩ 1024).insert ⟨2, deviceType⟩ 8192).insert
    ⟨3, deviceType⟩ 16384

/-- The store with its three buffers. -/
def multicastStore : Store ℕ (ℕ → ℕ) where
  env := Function.update (Function.update (Function.update (fun _ => none)
    ⟨1, deviceType⟩ (some (.device ⟨1024, deviceType⟩)))
    ⟨2, deviceType⟩ (some (.device ⟨8192, deviceType⟩)))
    ⟨3, deviceType⟩ (some (.device ⟨16384, deviceType⟩))
  nextStorage := 0
  memory := ⟨fun _ => 0, fun _ => 0⟩

/-- The executor with its three buffers. -/
def multicastHost : Host where
  deviceBuffers := Function.update (Function.update (Function.update (fun _ => none)
    1 (some ⟨1024, deviceType⟩)) 2 (some ⟨8192, deviceType⟩)) 3 (some ⟨16384, deviceType⟩)
  hostBuffers := fun _ => none
  nextStorage := 0
  outputs := []

theorem rel_multicast : Rel multicastCache multicastStore multicastHost :=
  (((rel_empty FlatbufferObjectCache.keyed_empty 0 ⟨fun _ => 0, fun _ => 0⟩).insert_device 1024
    rfl rfl rfl).insert_device 8192 rfl rfl rfl).insert_device 16384 rfl rfl rfl

theorem freshSemaphores_sumLibrary : FreshSemaphores sumLibrary := by
  intro semaphores _ _ id h
  have hfind : ((List.range 16).find? fun i => decide (i ∉ semaphores.map Semaphore.id)) =
      some id := h
  simpa using List.find?_some hfind

theorem bindings_multicast :
    Bindings multicast multicastFuncs multicastStore multicastLaunched ↔
      multicast.semaphores = 0 ∨ multicast.regions.length = 1 := by
  refine bindings_iff freshSemaphores_sumLibrary rel_multicast (by decide) rfl rfl ?_ rfl
  decide

/-- Its threads do not share the semaphore. -/
theorem multicast_not_bindings :
    lowerGeneric multicast = some multicastFuncs ∧
      (∃ ops buffers cbs kernels cache',
        convertGeneric multicast.operands (threadsOf 0 multicastFuncs) = some ops ∧
        toCommands multicastCache ops = some ([.enqueueProgram buffers cbs kernels], cache') ∧
        executeEnqueueProgram sumLibrary buffers cbs kernels multicastHost =
          some multicastLaunched) ∧
      ¬ Bindings multicast multicastFuncs multicastStore multicastLaunched := by
  refine ⟨by decide, ⟨_, _, _, _, _, rfl, rfl, rfl⟩, fun h => ?_⟩
  obtain ⟨id, hid⟩ := h.shared 0 (by decide)
  have hfirst : (some 0 : Option ℕ) = some id := hid 0 (by decide)
  have hsecond : (some 1 : Option ℕ) = some id := hid 1 (by decide)
  exact absurd (hfirst.trans hsecond.symm) (by decide)

end TTMetal
