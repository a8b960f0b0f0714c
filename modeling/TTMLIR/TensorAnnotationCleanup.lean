/-
# Cleaning up tensor annotations

The pass of `ShardyToTTIRPatterns.cpp` that makes the multi-device annotations of a TTIR module
agree: the operations of each function are visited from the last to the first, and each of them
either hands the annotation of its first result to its operands, or gathers its multi-device
operands.

* `analyzeSingleOpAndFixWrongTensorAnnotation`, `runOnOperation` : the pass;
* `MultiDevice` : the values a module shards and does not gather again;
* `demanded_cons_iff`, `cleanup_spec` : which values are annotated when the pass is over;
* `cleanup_consistent_iff` : which modules the pass makes consistent.
-/
import TTMLIR.Fallible
import TTMLIR.SSA
import TTMLIR.ShardingUtils

namespace TensorAnnotationCleanup

open SSA ShardingUtils

/-! ## Modules -/

/-- `TensorMeshShardingAxisAttr`. -/
structure TensorMeshShardingAxisAttr : Type where
  shardShape : ℤ
  axes : List ℤ
  deriving DecidableEq

/-- `TensorMeshShardingAttr`. -/
structure TensorMeshShardingAttr : Type where
  name : String
  tensorMeshShardingAxis : List TensorMeshShardingAxisAttr
  deriving DecidableEq

/-- `RankedTensorType`; its encoding is the annotation, if any. -/
structure RankedTensorType : Type where
  shape : List ℤ
  elementType : String
  encoding : Option TensorMeshShardingAttr
  deriving DecidableEq

/-- A tensor type with an annotation describes a multi-device tensor. -/
def RankedTensorType.isAnnotated (type : RankedTensorType) : Bool := type.encoding.isSome

/-- `MeshAttr`. -/
structure MeshAttr : Type where
  name : String
  shape : List ℤ
  deriving DecidableEq

/-- `MeshShardDirection`. -/
inductive MeshShardDirection : Type where
  | fullToShard
  | shardToFull
  deriving DecidableEq

/-- The operations the pass tells apart. -/
inductive OpKind : Type where
  | meshShard (shardType : MeshShardType) (shardDirection : MeshShardDirection)
      (shardShape shardDims : List ℤ)
  | empty
  | call (callee : String)
  | other (name : String)
  deriving DecidableEq

/-- An operation.  Types are kept by the values, and results are only counted. -/
abbrev Op : Type := SSA.Operation OpKind Unit

/-- The operations that are analyzed: all but `MeshShardOp`. -/
def OpKind.analyzed : OpKind → Bool
  | .meshShard _ _ _ _ => false
  | _ => true

/-- The first result. -/
def resultOf (op : Op) : Value := .opResult op.id 0

/-- `FunctionType`. -/
structure FunctionType : Type where
  inputs : List RankedTensorType
  results : List RankedTensorType
  deriving DecidableEq

/-- A function: its declared type, its block, and the type each value has. -/
structure FuncOp : Type where
  name : String
  functionType : FunctionType
  body : Block OpKind Unit
  type : Value → RankedTensorType

/-- A module. -/
structure Module : Type where
  meshes : Option (List MeshAttr)
  funcs : List FuncOp

/-- `MeshesAttr::getMesh`. -/
def getMesh (meshes : List MeshAttr) (name : String) : Option MeshAttr :=
  meshes.find? fun mesh => mesh.name = name

/-! ## The pass -/

/-- `shardDims[deviceDim] = dim`. -/
def setShardDim (shardDims : List ℤ) (dim : ℕ) (deviceDim : ℤ) : Option (List ℤ) :=
  if 0 ≤ deviceDim ∧ deviceDim.toNat < shardDims.length then
    some (shardDims.set deviceDim.toNat dim)
  else none

/-- `MeshSharding::extractMeshShardingFromTensorMeshShardingAttr`, but for the direction. -/
def extractMeshShardingFromTensorMeshShardingAttr (meshAttr : MeshAttr)
    (tensorMeshShardingAttr : TensorMeshShardingAttr) : Option MeshSharding := do
  let axes := tensorMeshShardingAttr.tensorMeshShardingAxis
  let shardDims ← axes.zipIdx.foldlM
    (fun shardDims (axis, dim) => axis.axes.foldlM (setShardDim · dim ·) shardDims)
    (meshAttr.shape.map fun _ => -1)
  some { shardType := .devices
         shardShape := axes.map TensorMeshShardingAxisAttr.shardShape
         shardDims := shardDims
         meshShape := meshAttr.shape }

/-- An inconsistency that is reported; the pass goes on. -/
structure Inconsistency : Type where
  op : ℕ
  expected : String
  current : String
  deriving DecidableEq

/-- What the pass changes: the types of values, the operations from the visited one on, the
identities in use, and the errors it emits. -/
structure State : Type where
  type : Value → RankedTensorType
  ops : List Op
  nextId : ℕ
  emitted : List Inconsistency

/-- `arg.setType(...)`. -/
def setType (type : Value → RankedTensorType) (arg : Value)
    (attr : TensorMeshShardingAttr) : Value → RankedTensorType :=
  Function.update type arg { type arg with encoding := some attr }

/-- One turn of the loop over the operands of a multi-device operation. -/
def propagate (op : Op) (tensorMeshShardingAttr : TensorMeshShardingAttr) (s : State)
    (arg : Value) : State :=
  match (s.type arg).encoding with
  | some argTensorMeshShardingAttr =>
    if argTensorMeshShardingAttr.name ≠ tensorMeshShardingAttr.name then
      { s with emitted := s.emitted ++
          [⟨op.id, tensorMeshShardingAttr.name, argTensorMeshShardingAttr.name⟩] }
    else s
  | none => { s with type := setType s.type arg tensorMeshShardingAttr }

/-- An operation whose operands are being gathered, and the operations inserted before it. -/
structure Gathering : Type where
  op : Op
  inserted : List Op
  type : Value → RankedTensorType
  nextId : ℕ

/-- `createDPSOp<MeshShardOp>` and `replaceUsesOfWith`. -/
def Gathering.insertMeshShard (g : Gathering) (arg : Value) (sharding : MeshSharding) :
    Gathering where
  op := g.op.mapOperands fun v => if v = arg then .opResult (g.nextId + 1) 0 else v
  inserted := g.inserted ++
    [⟨g.nextId, .empty, [], [()]⟩,
     ⟨g.nextId + 1, .meshShard sharding.shardType .shardToFull sharding.shardShape
        sharding.shardDims, [arg, .opResult g.nextId 0], [()]⟩]
  type := Function.update
    (Function.update g.type (.opResult g.nextId 0) { g.type arg with encoding := none })
    (.opResult (g.nextId + 1) 0) { g.type arg with encoding := none }
  nextId := g.nextId + 2

/-- One turn of the loop over the operands of a single-device operation.  The operands are read
after the replacements of the turns before. -/
def gatherOperand (meshes : List MeshAttr) (g : Gathering) (i : ℕ) : Option Gathering :=
  match g.op.operands[i]? with
  | none => some g
  | some arg =>
    match (g.type arg).encoding with
    | none => some g
    | some argTensorMeshShardingAttr => do
        let mesh ← getMesh meshes argTensorMeshShardingAttr.name
        let sharding ← extractMeshShardingFromTensorMeshShardingAttr mesh
          argTensorMeshShardingAttr
        some (g.insertMeshShard arg sharding)

/-- The loop over the operands of a single-device operation. -/
def gatherOperands (meshes : List MeshAttr) (op : Op) (s : State) : Option State := do
  let g ← (List.range op.operands.length).foldlM (gatherOperand meshes)
    ⟨op, [], s.type, s.nextId⟩
  some { s with type := g.type, ops := g.inserted ++ g.op :: s.ops, nextId := g.nextId }

/-- `analyzeSingleOpAndFixWrongTensorAnnotation`. -/
def analyzeSingleOpAndFixWrongTensorAnnotation (meshes : List MeshAttr) (srcOp : Op)
    (s : State) : Option State :=
  if srcOp.numResults = 0 ∨ srcOp.operands = [] then
    some { s with ops := srcOp :: s.ops }
  else
    match (s.type (resultOf srcOp)).encoding with
    | some tensorMeshShardingAttr =>
      let s := srcOp.operands.foldl (propagate srcOp tensorMeshShardingAttr) s
      some { s with ops := srcOp :: s.ops }
    | none => gatherOperands meshes srcOp s

/-- One operation of the walk; `MeshShardOp` is skipped. -/
def visit (meshes : List MeshAttr) (op : Op) (s : State) : Option State :=
  if op.name.analyzed then analyzeSingleOpAndFixWrongTensorAnnotation meshes op s
  else some { s with ops := op :: s.ops }

/-- The operations, from the last to the first. -/
def cleanupOps (meshes : List MeshAttr) (s : State) : List Op → Option State
  | [] => some s
  | op :: ops => (cleanupOps meshes s ops).bind (visit meshes op)

/-- The state a function is cleaned up from. -/
def FuncOp.start (f : FuncOp) : State := ⟨f.type, [], freshId f.body.ops, []⟩

/-- A function after the pass.  Its declared type is not touched. -/
def FuncOp.after (f : FuncOp) (s : State) : FuncOp :=
  { f with body := { f.body with ops := s.ops }, type := s.type }

/-- The pass on one function. -/
def cleanupFunc (meshes : List MeshAttr) (f : FuncOp) : Option FuncOp :=
  (cleanupOps meshes f.start f.body.ops).map f.after

/-- `runOnOperation`.  A module without meshes is left as it is. -/
def runOnOperation (m : Module) : Option Module :=
  match m.meshes with
  | none => some m
  | some meshes => (m.funcs.mapM (cleanupFunc meshes)).map fun funcs => { m with funcs := funcs }

/-! ## Consistent modules -/

/-- The direction of a `MeshShardOp`. -/
def OpKind.direction : OpKind → Option MeshShardDirection
  | .meshShard _ shardDirection _ _ => some shardDirection
  | _ => none

/-- The operands and the results. -/
def valuesOf (op : Op) : List Value := op.operands ++ op.results

/-- The arguments and the results of all operations. -/
def FuncOp.values (f : FuncOp) : List Value := scope f.body.numArgs f.body.ops

/-- The type of the value carries an annotation. -/
def FuncOp.Annotated (f : FuncOp) (v : Value) : Prop := (f.type v).isAnnotated

/-- A value of a module: the function it is in, and the value. -/
abbrev Place : Type := String × Value

/-- Two values one of which is derived from the other: through an operation, as its destination
or through a call.  Only the operations that join their operands count. -/
inductive Linked (m : Module) (joins : FuncOp → Op → Prop) : Place → Place → Prop
  | through {f : FuncOp} {op : Op} {v w : Value} (hf : f ∈ m.funcs) (hop : op ∈ f.body.ops)
      (hanalyzed : op.name.analyzed) (hjoins : joins f op) (hv : v ∈ valuesOf op)
      (hw : w ∈ valuesOf op) :
      Linked m joins (f.name, v) (f.name, w)
  | destination {f : FuncOp} {op : Op} {v w : Value} (hf : f ∈ m.funcs) (hop : op ∈ f.body.ops)
      (hdirection : op.name.direction.isSome) (hv : op.operands[1]? = some v) (hw : w ∈ op.results) :
      Linked m joins (f.name, v) (f.name, w)
  | argument {f g : FuncOp} {op : Op} {i : ℕ} {v : Value} (hf : f ∈ m.funcs) (hg : g ∈ m.funcs)
      (hop : op ∈ f.body.ops) (hcall : op.name = .call g.name) (hjoins : joins f op)
      (hv : op.operands[i]? = some v) : Linked m joins (f.name, v) (g.name, .blockArg i)
  | returned {f g : FuncOp} {op : Op} {i : ℕ} {v w : Value} (hf : f ∈ m.funcs)
      (hg : g ∈ m.funcs) (hop : op ∈ f.body.ops) (hcall : op.name = .call g.name)
      (hjoins : joins f op) (hv : op.results[i]? = some v) (hw : g.body.returns[i]? = some w) :
      Linked m joins (f.name, v) (g.name, w)

/-- A value that is sharded by a full-to-shard operation, or that is linked to one that is. -/
def Sharded (m : Module) (joins : FuncOp → Op → Prop) (p : Place) : Prop :=
  ∃ f ∈ m.funcs, ∃ op ∈ f.body.ops, op.name.direction = some .fullToShard ∧
    ∃ v ∈ op.results, Relation.EqvGen (Linked m joins) (f.name, v) p

/-- A multi-device value: it is sharded, or derived from a sharded value by the operations of
the module.  The destination of an operation is as its result, and a `MeshShardOp` does not
hand on what its input is. -/
def MultiDevice (m : Module) : Place → Prop := Sharded m fun _ _ => True

/-- The annotations of a module tell which values are multi-device, and the declared types of
its functions are those of their arguments and returned operands. -/
structure Consistent (m : Module) : Prop where
  annotated : ∀ f ∈ m.funcs, ∀ v ∈ f.values, f.Annotated v ↔ MultiDevice m (f.name, v)
  shards : ∀ f ∈ m.funcs, ∀ op ∈ f.body.ops, op.name.direction = some .fullToShard →
    ∀ input, op.operands[0]? = some input → ¬ MultiDevice m (f.name, input)
  gathers : ∀ f ∈ m.funcs, ∀ op ∈ f.body.ops, op.name.direction = some .shardToFull →
    (∀ input, op.operands[0]? = some input → MultiDevice m (f.name, input)) ∧
    ∀ v ∈ op.results, ¬ MultiDevice m (f.name, v)
  inputs : ∀ f ∈ m.funcs,
    f.functionType.inputs = (entryScope f.body.numArgs).map f.type
  results : ∀ f ∈ m.funcs, f.functionType.results = f.body.returns.map f.type

/-- What the verifier checks before the pass. -/
structure Verified (m : Module) : Prop where
  names : (m.funcs.map FuncOp.name).Nodup
  wellFormed : ∀ f ∈ m.funcs, f.body.WellFormed
  inputs : ∀ f ∈ m.funcs,
    f.functionType.inputs = (entryScope f.body.numArgs).map f.type
  results : ∀ f ∈ m.funcs, f.functionType.results = f.body.returns.map f.type
  meshShard : ∀ f ∈ m.funcs, ∀ op ∈ f.body.ops, op.name.direction.isSome →
    op.operands.length = 2 ∧ op.numResults = 1
  calls : ∀ f ∈ m.funcs, ∀ g ∈ m.funcs, ∀ op ∈ f.body.ops, op.name = .call g.name →
    op.operands.map f.type = g.functionType.inputs ∧
      op.results.map f.type = g.functionType.results

/-- A module the verifier accepts. -/
structure VerifiedModule : Type extends Module where
  verified : Verified toModule

/-! ## Demands

What the annotations become is decided before the pass: an annotation is handed from the first
result of an operation to its operands, and from there on. -/

/-- The values that some operation of the list asks to be annotated, or that are.  A pass that
is skipped asks for nothing. -/
inductive Demanded (active : Prop) (type : Value → RankedTensorType) (ops : List Op) :
    Value → Prop
  | annotated {v : Value} (h : (type v).isAnnotated) : Demanded active type ops v
  | operand {op : Op} {v : Value} (hactive : active) (hop : op ∈ ops) (hanalyzed : op.name.analyzed)
      (hresults : op.numResults ≠ 0) (hv : v ∈ op.operands)
      (hresult : Demanded active type ops (resultOf op)) : Demanded active type ops v

/-- The operations that gather their multi-device operands: no one asks for their result. -/
def Gathers (active : Prop) (type : Value → RankedTensorType) (ops : List Op) (op : Op) : Prop :=
  active ∧ op.numResults ≠ 0 ∧ op.operands ≠ [] ∧ ¬ Demanded active type ops (resultOf op)

/-- The demands on the values of a function. -/
abbrev Module.Demanded (m : Module) (f : FuncOp) : Value → Prop :=
  TensorAnnotationCleanup.Demanded m.meshes.isSome f.type f.body.ops

/-- The operations of a function that gather. -/
abbrev Module.Gathers (m : Module) (f : FuncOp) : Op → Prop :=
  TensorAnnotationCleanup.Gathers m.meshes.isSome f.type f.body.ops

/-- The demands of a module agree.

* An operation that does not gather has all its operands and results demanded, or none.
* An operation that gathers has no demanded result, and the operands that are demanded are so
  already by the operations after it.
* The input of a full-to-shard operation is not demanded and its result is; the other way
  round for a shard-to-full operation; and a destination is demanded as its result is.
* The arguments, the returned operands, and the values that calls pass, are demanded only if
  they are annotated; a call that gathers passes no annotated value. -/
structure Settled (m : Module) : Prop where
  agree : ∀ f ∈ m.funcs, ∀ op ∈ f.body.ops, op.name.analyzed → ¬ m.Gathers f op →
    ∀ v ∈ valuesOf op, ∀ w ∈ valuesOf op, m.Demanded f v → m.Demanded f w
  gathered : ∀ f ∈ m.funcs, ∀ pre op post, f.body.ops = pre ++ op :: post → op.name.analyzed →
    m.Gathers f op → (∀ v ∈ op.results, ¬ m.Demanded f v) ∧
      ∀ v ∈ op.operands, m.Demanded f v →
        TensorAnnotationCleanup.Demanded m.meshes.isSome f.type post v
  shards : ∀ f ∈ m.funcs, ∀ op ∈ f.body.ops, op.name.direction = some .fullToShard →
    (∀ input, op.operands[0]? = some input → ¬ m.Demanded f input) ∧
    ∀ v ∈ op.results, m.Demanded f v
  gathers : ∀ f ∈ m.funcs, ∀ op ∈ f.body.ops, op.name.direction = some .shardToFull →
    (∀ input, op.operands[0]? = some input → m.Demanded f input) ∧
    ∀ v ∈ op.results, ¬ m.Demanded f v
  destinations : ∀ f ∈ m.funcs, ∀ op ∈ f.body.ops, op.name.direction.isSome →
    ∀ output, op.operands[1]? = some output → ∀ v ∈ op.results,
      (m.Demanded f output ↔ m.Demanded f v)
  signature : ∀ f ∈ m.funcs, ∀ v ∈ entryScope f.body.numArgs ++ f.body.returns,
    m.Demanded f v → f.Annotated v
  calls : ∀ f ∈ m.funcs, ∀ g ∈ m.funcs, ∀ op ∈ f.body.ops, op.name = .call g.name →
    (∀ v ∈ op.results, m.Demanded f v → f.Annotated v) ∧
    (¬ m.Gathers f op → ∀ v ∈ op.operands, m.Demanded f v → f.Annotated v) ∧
    (m.Gathers f op → ∀ v ∈ op.operands, ¬ f.Annotated v)

/-- The modules the pass makes consistent: their demands agree, and every annotated value comes
from a full-to-shard operation, by operations that do not gather. -/
structure Regular (m : Module) : Prop extends Settled m where
  rooted : ∀ f ∈ m.funcs, ∀ v ∈ f.values, f.Annotated v →
    Sharded m (fun f op => ¬ m.Gathers f op) (f.name, v)

variable {op : Op} {o : Op} {pre post : List Op}

section Demand

variable {active : Prop} {type : Value → RankedTensorType} {ops : List Op} {v : Value}

theorem Demanded.mono {ops' : List Op} (h : Demanded active type ops v)
    (hsub : ∀ op ∈ ops, op ∈ ops') : Demanded active type ops' v := by
  induction h with
  | annotated h => exact .annotated h
  | operand hactive hop hanalyzed hresults hv _ ih =>
    exact .operand hactive (hsub _ hop) hanalyzed hresults hv ih

/-- No operation of the list reads its own results or those of a later operation. -/
def Ordered : List Op → Prop
  | [] => True
  | op :: ops => (∀ o ∈ op :: ops, ∀ v ∈ o.results, v ∉ op.operands) ∧ Ordered ops

theorem resultOf_mem (h : op.numResults ≠ 0) : resultOf op ∈ op.results :=
  Operation.opResult_mem_results.mpr ⟨rfl, Nat.pos_of_ne_zero h⟩

theorem Ordered.of_append {pre : List Op} (h : Ordered (pre ++ ops)) : Ordered ops := by
  induction pre with
  | nil => exact h
  | cons op pre ih => exact ih h.2

theorem Ordered.not_reads {pre : List Op} (h : Ordered (pre ++ ops)) {o p : Op} (ho : o ∈ ops)
    (hp : p ∈ pre) (hv : v ∈ o.results) : v ∉ p.operands := by
  induction pre with
  | nil => cases hp
  | cons op pre ih =>
    rcases List.mem_cons.mp hp with rfl | hp
    · exact h.1 o (List.mem_cons_of_mem _ (List.mem_append_right _ ho)) v hv
    · exact ih h.2 hp

/-- The operations of a block are ordered. -/
theorem ordered_of_wellFormed {b : Block OpKind Unit} (h : b.WellFormed) : Ordered b.ops := by
  obtain ⟨hnodup, hdominated, -⟩ := h
  -- what is read is listed before
  suffices hsuffix : ∀ pre post : List Op, b.ops = pre ++ post → Ordered post by
    exact hsuffix [] b.ops rfl
  intro pre post
  induction post generalizing pre with
  | nil => exact fun _ => trivial
  | cons op post ih =>
    intro hops
    refine ⟨fun o ho v hv hread => ?_, ih (pre ++ [op]) (by rw [hops]; simp)⟩
    have hmem : op ∈ b.ops := by rw [hops]; simp
    have hlt := index_lt_of_reads hnodup hdominated hmem ⟨v, hread, hv⟩
    rcases List.mem_cons.mp ho with rfl | ho
    · exact lt_irrefl _ hlt
    · obtain ⟨q, r, rfl⟩ := List.append_of_mem ho
      have hsplit : b.ops = (pre ++ op :: q) ++ o :: r := by rw [hops]; simp
      rw [hsplit] at hnodup hlt
      exact Nat.lt_asymm hlt (index_lt_index hnodup (by simp))

/-- **Demands are decided backwards.**  An operation adds its operands to what the operations
after it demand, when these demand its first result. -/
theorem demanded_cons_iff (h : Ordered (op :: ops)) :
    Demanded active type (op :: ops) v ↔ Demanded active type ops v ∨
      active ∧ op.name.analyzed ∧ op.numResults ≠ 0 ∧ v ∈ op.operands ∧
        Demanded active type ops (resultOf op) := by
  constructor
  · intro hv
    induction hv with
    | annotated hv => exact .inl (.annotated hv)
    | @operand o v hactive ho hanalyzed hresults hv _ ih =>
      -- the first result of no operation of the list is read by the first operation
      have hresult : Demanded active type ops (resultOf o) :=
        ih.resolve_right fun hread => h.1 o ho _ (resultOf_mem hresults) hread.2.2.2.1
      rcases List.mem_cons.mp ho with rfl | ho
      · exact .inr ⟨hactive, hanalyzed, hresults, hv, hresult⟩
      · exact .inl (.operand hactive ho hanalyzed hresults hv hresult)
  · rintro (hv | ⟨hactive, hanalyzed, hresults, hv, hresult⟩)
    · exact hv.mono fun _ ho => List.mem_cons_of_mem _ ho
    · exact .operand hactive (by simp) hanalyzed hresults hv
        (hresult.mono fun _ ho => List.mem_cons_of_mem _ ho)

theorem demanded_result_iff {pre : List Op} (h : Ordered (pre ++ ops)) (ho : o ∈ ops)
    (hv : v ∈ o.results) : Demanded active type (pre ++ ops) v ↔ Demanded active type ops v := by
  constructor
  · intro hd
    induction pre with
    | nil => exact hd
    | cons p pre ih =>
      rcases (demanded_cons_iff h).mp hd with hd | hd
      · exact ih h.2 hd
      · exact absurd hd.2.2.2.1 (h.not_reads ho (by simp) hv)
  · exact fun hd => hd.mono fun _ ho => List.mem_append_right _ ho

theorem demanded_resultOf_iff (h : Ordered (pre ++ op :: post)) (hv : v ∈ op.results) :
    Demanded active type (pre ++ op :: post) v ↔ Demanded active type post v := by
  rw [demanded_result_iff h (by simp) hv, demanded_cons_iff h.of_append, or_iff_left]
  exact fun hd => h.of_append.1 op (by simp) v hv hd.2.2.2.1

end Demand

/-! ## One visit -/

/-- A value that exists before the operations from the identity `n` on are inserted. -/
def IsOld (n : ℕ) : Value → Prop
  | .blockArg _ => True
  | .opResult id _ => id < n

variable {v : Value}

theorem IsOld.mono {n n' : ℕ} (h : IsOld n v) (hle : n ≤ n') : IsOld n' v := by
  cases v with
  | blockArg _ => exact trivial
  | opResult id k => exact lt_of_lt_of_le h hle

theorem isAnnotated_iff {type : RankedTensorType} :
    type.isAnnotated = true ↔ ∃ attr, type.encoding = some attr := by
  rw [RankedTensorType.isAnnotated, Option.isSome_iff_exists]

theorem not_isAnnotated_of_eq_none {type : RankedTensorType} (h : type.encoding = none) :
    ¬ type.isAnnotated = true := by
  simp [RankedTensorType.isAnnotated, h]

/-- One operand is annotated, and nothing else changes. -/
theorem propagate_spec (op : Op) (attr : TensorMeshShardingAttr) (s : State) (arg : Value) :
    (propagate op attr s arg).ops = s.ops ∧ (propagate op attr s arg).nextId = s.nextId ∧
      ∀ v, (((propagate op attr s arg).type v).isAnnotated ↔ (s.type v).isAnnotated ∨ v = arg) ∧
        ((s.type v).isAnnotated ∨ v ≠ arg → (propagate op attr s arg).type v = s.type v) := by
  rw [propagate]
  cases hencoding : (s.type arg).encoding with
  | some argAttr =>
    have harg : (s.type arg).isAnnotated = true := isAnnotated_iff.mpr ⟨argAttr, hencoding⟩
    have hiff : ∀ v, ((s.type v).isAnnotated = true ↔ (s.type v).isAnnotated = true ∨ v = arg) :=
      fun v => ⟨Or.inl, fun h => h.elim id fun heq => heq ▸ harg⟩
    dsimp only
    split
    · exact ⟨rfl, rfl, fun v => ⟨hiff v, fun _ => rfl⟩⟩
    · exact ⟨rfl, rfl, fun v => ⟨hiff v, fun _ => rfl⟩⟩
  | none =>
    refine ⟨rfl, rfl, fun v => ?_⟩
    by_cases hv : v = arg
    · subst hv
      refine ⟨?_, fun h => h.elim (fun h => absurd h (not_isAnnotated_of_eq_none hencoding))
        fun h => absurd rfl h⟩
      simp [setType, RankedTensorType.isAnnotated]
    · simp [setType, hv]

/-- All operands are annotated, and nothing else changes. -/
theorem foldl_propagate_spec (op : Op) (attr : TensorMeshShardingAttr) (args : List Value)
    (s : State) :
    (args.foldl (propagate op attr) s).ops = s.ops ∧
      (args.foldl (propagate op attr) s).nextId = s.nextId ∧
      ∀ v, (((args.foldl (propagate op attr) s).type v).isAnnotated ↔
          (s.type v).isAnnotated ∨ v ∈ args) ∧
        ((s.type v).isAnnotated ∨ v ∉ args →
          (args.foldl (propagate op attr) s).type v = s.type v) := by
  induction args generalizing s with
  | nil => simp
  | cons arg args ih =>
    obtain ⟨hops, hnext, htype⟩ := propagate_spec op attr s arg
    obtain ⟨hops', hnext', htype'⟩ := ih (propagate op attr s arg)
    refine ⟨hops'.trans hops, hnext'.trans hnext, fun v => ⟨?_, fun hv => ?_⟩⟩
    · rw [List.foldl_cons, (htype' v).1, (htype v).1, List.mem_cons, or_assoc]
    · rw [List.mem_cons, not_or] at hv
      rw [List.foldl_cons, (htype' v).2, (htype v).2 (hv.imp_right And.left)]
      exact hv.imp (fun h => (htype v).1.mpr (.inl h)) And.right

/-- An operation that a visit inserts between the identities `n` and `n'`: an empty
destination, or the gathering of a value that is annotated. -/
def IsInserted (n n' : ℕ) (annotated : Value → Prop) (o : Op) : Prop :=
  n ≤ o.id ∧ o.id < n' ∧ o.resultTypes = [()] ∧
    (o.name = .empty ∧ o.operands = [] ∨
      o.name.direction = some .shardToFull ∧ ∃ arg id, annotated arg ∧
        n ≤ id ∧ id < n' ∧ o.operands = [arg, .opResult id 0])

theorem IsInserted.mono {n₀ n n' n'' : ℕ} {annotated annotated' : Value → Prop}
    (h : IsInserted n n' annotated o) (hn : n₀ ≤ n) (hn' : n' ≤ n'')
    (hannotated : ∀ v, annotated v → annotated' v) : IsInserted n₀ n'' annotated' o := by
  obtain ⟨hle, hlt, hresults, hcase⟩ := h
  refine ⟨hn.trans hle, hlt.trans_le hn', hresults, hcase.imp_right ?_⟩
  rintro ⟨hdirection, arg, id, harg, hid, hid', hoperands⟩
  exact ⟨hdirection, arg, id, hannotated arg harg, hn.trans hid, hid'.trans_le hn', hoperands⟩

/-- The replacement of the operands of an operation after `i` turns of the loop: multi-device
operands become results of inserted operations. -/
def Replaces (n n' : ℕ) (annotated : Value → Prop) (seen operands : List Value)
    (r : Value → Value) : Prop :=
  ∀ v ∈ operands, r v = v ∧ (annotated v → v ∉ seen) ∨
    annotated v ∧ ∃ id, n ≤ id ∧ id < n' ∧ r v = .opResult id 0

/-- The loop over the operands of a single-device operation, after the operands `seen`. -/
structure Gathered (n : ℕ) (type : Value → RankedTensorType) (op : Op) (seen : List Value)
    (g : Gathering) : Prop where
  le : n ≤ g.nextId
  op_eq : ∃ r, g.op = op.mapOperands r ∧
    Replaces n g.nextId (fun v => (type v).isAnnotated) seen op.operands r
  inserted : ∀ o ∈ g.inserted,
    IsInserted n g.nextId (fun v => (type v).isAnnotated ∧ v ∈ op.operands) o
  type_eq : ∀ v, IsOld n v → g.type v = type v
  fresh : ∀ id, n ≤ id → id < g.nextId → ¬ (g.type (.opResult id 0)).isAnnotated

theorem mapOperands_mapOperands (op : Op) (r r' : Value → Value) :
    (op.mapOperands r).mapOperands r' = op.mapOperands (r' ∘ r) := by
  simp [Operation.mapOperands]

theorem mapOperands_eq_self (op : Op) : op.mapOperands id = op := by
  simp [Operation.mapOperands]

variable {type : Value → RankedTensorType} {r : Value → Value}

section

variable {n : ℕ} {op : Op} {seen : List Value} {g : Gathering} (h : Gathered n type op seen g)
  (hold : ∀ v ∈ op.operands, IsOld n v) (hop : g.op = op.mapOperands r)
  (hr : Replaces n g.nextId (fun v => (type v).isAnnotated) seen op.operands r) {w : Value}

include h hold hop hr

/-- An operand that is not annotated is passed over. -/
theorem Gathered.skip (hw : (g.type (r w)).isAnnotated = false) :
    Gathered n type op (seen ++ [w]) g := by
  refine { h with op_eq := ⟨r, hop, fun v hv => ?_⟩ }
  refine (hr v hv).imp_left fun ⟨hrv, hseen⟩ => ⟨hrv, fun hannotated hmem => ?_⟩
  rcases List.mem_append.mp hmem with hmem | hmem
  · exact hseen hannotated hmem
  · -- the operand was not replaced, and it is annotated
    have hwv : v = w := by simpa using hmem
    subst hwv
    rw [hrv, h.type_eq v (hold v hv)] at hw
    exact Bool.eq_false_iff.mp hw hannotated

/-- An operand that is annotated is gathered. -/
theorem Gathered.gather
    (hmem : w ∈ op.operands) (hw : (g.type (r w)).isAnnotated) (sharding : MeshSharding) :
    Gathered n type op (seen ++ [w]) (g.insertMeshShard (r w) sharding) := by
  -- an annotated operand has not been replaced yet
  have hfix : ∀ v ∈ op.operands, (g.type (r v)).isAnnotated →
      r v = v ∧ (type v).isAnnotated = true := by
    intro v hv hannotated
    rcases hr v hv with ⟨hrv, -⟩ | ⟨-, id, hid, hid', hrv⟩
    · rw [hrv, h.type_eq v (hold v hv)] at hannotated
      exact ⟨hrv, hannotated⟩
    · rw [hrv] at hannotated
      exact absurd hannotated (h.fresh id hid hid')
  obtain ⟨hrw, hwa⟩ := hfix w hmem hw
  have hle := h.le
  refine
    { le := hle.trans (Nat.le_add_right _ _)
      op_eq := ⟨fun v => if r v = r w then .opResult (g.nextId + 1) 0 else r v, ?_, fun v hv => ?_⟩
      inserted := fun o ho => ?_
      type_eq := fun v hv => ?_
      fresh := fun id hid hid' => ?_ }
  · show g.op.mapOperands _ = _
    rw [hop, mapOperands_mapOperands]
    rfl
  · by_cases heq : r v = r w
    · -- only the operand itself is replaced
      have hva := (hfix v hv (heq ▸ hw)).2
      refine .inr ⟨hva, g.nextId + 1, by omega, ?_, if_pos heq⟩
      show g.nextId + 1 < g.nextId + 2
      omega
    · show (if r v = r w then _ else r v) = v ∧ _ ∨ _ ∧ ∃ id, _ ∧ _ ∧
        (if r v = r w then _ else r v) = _
      rw [if_neg heq]
      rcases hr v hv with ⟨hrv, hseen⟩ | ⟨hva, id, hid, hid', hrv⟩
      · refine .inl ⟨hrv, fun hannotated hseen' => ?_⟩
        rcases List.mem_append.mp hseen' with hseen' | hseen'
        · exact hseen hannotated hseen'
        · have hwv : v = w := by simpa using hseen'
          exact heq (by rw [hwv])
      · exact .inr ⟨hva, id, hid, hid'.trans (Nat.lt_add_of_pos_right two_pos), hrv⟩
  · have hnext : (g.insertMeshShard (r w) sharding).nextId = g.nextId + 2 := rfl
    rw [hnext]
    rcases List.mem_append.mp (show o ∈ g.inserted ++ _ from ho) with ho | ho
    · exact (h.inserted o ho).mono le_rfl (Nat.le_add_right _ _) fun _ => id
    · rcases List.mem_cons.mp ho with rfl | ho
      · exact ⟨hle, by simp, rfl, .inl ⟨rfl, rfl⟩⟩
      · obtain rfl := List.mem_singleton.mp ho
        refine ⟨by simp only; omega, by simp only; omega, rfl, .inr ⟨rfl, w, g.nextId,
          ⟨hwa, hmem⟩, hle, by omega, by rw [hrw]⟩⟩
  · show Function.update (Function.update g.type _ _) _ _ v = type v
    have hne : ∀ id, n ≤ id → v ≠ .opResult id 0 := by
      rintro id hid rfl
      exact absurd hv (Nat.not_lt.mpr hid)
    rw [Function.update_of_ne (hne _ (by omega)), Function.update_of_ne (hne _ hle), h.type_eq v hv]
  · show ¬ (Function.update (Function.update g.type _ _) _ _ (Value.opResult id 0)).isAnnotated
    have hlt : id < g.nextId + 2 := hid'
    by_cases h1 : id = g.nextId + 1
    · subst h1
      simp [RankedTensorType.isAnnotated]
    · rw [Function.update_of_ne (by simpa using h1)]
      by_cases h0 : id = g.nextId
      · subst h0
        simp [RankedTensorType.isAnnotated]
      · rw [Function.update_of_ne (by simpa using h0)]
        exact h.fresh id hid (by omega)

end

/-- One turn of the loop. -/
theorem Gathered.step {n : ℕ} {g g' : Gathering}
    {meshes : List MeshAttr} {i : ℕ} (hold : ∀ v ∈ op.operands, IsOld n v)
    (h : Gathered n type op (op.operands.take i) g) (hi : i < op.operands.length)
    (hstep : gatherOperand meshes g i = some g') :
    Gathered n type op (op.operands.take (i + 1)) g' := by
  obtain ⟨r, hop, hr⟩ := h.op_eq
  have harg : g.op.operands[i]? = some (r op.operands[i]) := by
    rw [hop, Operation.mapOperands_operands, List.getElem?_map, List.getElem?_eq_getElem hi]
    rfl
  rw [List.take_add_one, List.getElem?_eq_getElem hi, Option.toList_some]
  rw [gatherOperand, harg] at hstep
  cases hencoding : (g.type (r op.operands[i])).encoding with
  | none =>
    simp only [hencoding] at hstep
    obtain rfl := Option.some.inj hstep
    exact h.skip hold hop hr (Bool.eq_false_iff.mpr (not_isAnnotated_of_eq_none hencoding))
  | some attr =>
    simp only [hencoding] at hstep
    obtain ⟨mesh, -, hstep⟩ := Option.bind_eq_some_iff.mp hstep
    obtain ⟨sharding, -, hstep⟩ := Option.bind_eq_some_iff.mp hstep
    obtain rfl := Option.some.inj hstep
    exact h.gather hold hop hr (List.getElem_mem hi) (isAnnotated_iff.mpr ⟨attr, hencoding⟩)
      sharding

/-- **The loop over the operands gathers every multi-device operand.** -/
theorem gathered_of_foldlM {n : ℕ}
    {g : Gathering} {meshes : List MeshAttr} (hold : ∀ v ∈ op.operands, IsOld n v)
    (h : (List.range op.operands.length).foldlM (gatherOperand meshes) ⟨op, [], type, n⟩
      = some g) : Gathered n type op op.operands g := by
  suffices hall : ∀ i ≤ op.operands.length, ∀ g,
      (List.range i).foldlM (gatherOperand meshes) ⟨op, [], type, n⟩ = some g →
      Gathered n type op (op.operands.take i) g by
    simpa using hall _ le_rfl g h
  intro i
  induction i with
  | zero =>
    intro _ g hg
    obtain rfl := Option.some.inj hg
    exact
      { le := le_rfl
        op_eq := ⟨id, (mapOperands_eq_self op).symm, fun v _ => .inl ⟨rfl, by simp⟩⟩
        inserted := by simp
        type_eq := fun _ _ => rfl
        fresh := fun id hid hid' => absurd hid' (Nat.not_lt.mpr hid) }
  | succ i ih =>
    intro hi g hg
    rw [List.range_succ, List.foldlM_append] at hg
    obtain ⟨g₀, hg₀, hg⟩ := Option.bind_eq_some_iff.mp hg
    rw [List.foldlM_cons] at hg
    obtain ⟨g₁, hg₁, hg⟩ := Option.bind_eq_some_iff.mp hg
    obtain rfl := Option.some.inj hg
    exact (ih (by omega) g₀ hg₀).step hold (by omega) hg₁

/-! ## The operations after the pass -/

/-- The operations that are left of a list: each is kept, unless it is a single-device operation
with results and operands; the operations inserted before it gather the operands that the
operations after it demand. -/
inductive Emits (n n' : ℕ) (type : Value → RankedTensorType) : List Op → List Op → Prop
  | nil : Emits n n' type [] []
  | keep {op : Op} {ops ops' : List Op}
      (hkeep : ¬ (op.name.analyzed ∧ Gathers True type ops op)) (hops : Emits n n' type ops ops') :
      Emits n n' type (op :: ops) (op :: ops')
  | gather {op : Op} {ops ops' inserted : List Op} {r : Value → Value}
      (hanalyzed : op.name.analyzed) (hgathers : Gathers True type ops op)
      (hinserted : ∀ o ∈ inserted,
        IsInserted n n' (fun v => Demanded True type ops v ∧ v ∈ op.operands) o)
      (hr : Replaces n n' (Demanded True type ops) op.operands op.operands r)
      (hops : Emits n n' type ops ops') :
      Emits n n' type (op :: ops) (inserted ++ op.mapOperands r :: ops')

theorem Replaces.mono {n₀ n n' n'' : ℕ} {annotated : Value → Prop} {seen operands : List Value}
    (h : Replaces n n' annotated seen operands r) (hn : n₀ ≤ n)
    (hn' : n' ≤ n'') : Replaces n₀ n'' annotated seen operands r := by
  refine fun v hv => (h v hv).imp_right ?_
  rintro ⟨hannotated, id, hid, hid', hrv⟩
  exact ⟨hannotated, id, hn.trans hid, hid'.trans_le hn', hrv⟩

theorem Emits.mono {n n' n'' : ℕ} {ops ops' : List Op}
    (h : Emits n n' type ops ops') (hle : n' ≤ n'') : Emits n n'' type ops ops' := by
  induction h with
  | nil => exact .nil
  | keep hkeep _ ih => exact .keep hkeep ih
  | gather hanalyzed hgathers hinserted hr _ ih =>
    exact .gather hanalyzed hgathers
      (fun o ho => (hinserted o ho).mono le_rfl hle fun _ => id) (hr.mono le_rfl hle) ih

/-- **The state after the operations of a list have been visited.**  A value is annotated when
it is demanded, a value that is not newly demanded keeps its type, and what is inserted is
single-device. -/
structure Spec (n : ℕ) (type : Value → RankedTensorType) (ops : List Op) (s : State) : Prop where
  le : n ≤ s.nextId
  annotated : ∀ v, IsOld n v → ((s.type v).isAnnotated ↔ Demanded True type ops v)
  kept : ∀ v, IsOld n v → (type v).isAnnotated ∨ ¬ Demanded True type ops v → s.type v = type v
  fresh : ∀ id, n ≤ id → id < s.nextId → ¬ (s.type (.opResult id 0)).isAnnotated
  emits : Emits n s.nextId type ops s.ops

section Visit

variable {n : ℕ} {type : Value → RankedTensorType} {op : Op} {ops : List Op} {s : State}

theorem Spec.keep (h : Spec n type ops s)
    (hiff : ∀ v, Demanded True type (op :: ops) v ↔ Demanded True type ops v)
    (hkeep : ¬ (op.name.analyzed ∧ Gathers True type ops op)) :
    Spec n type (op :: ops) { s with ops := op :: s.ops } where
  le := h.le
  annotated v hv := (h.annotated v hv).trans (hiff v).symm
  kept v hv := by
    rw [hiff]
    exact h.kept v hv
  fresh := h.fresh
  emits := .keep hkeep h.emits

/-- The operands of a multi-device operation are demanded. -/
theorem Spec.propagate (h : Spec n type ops s) (hordered : Ordered (op :: ops))
    (hold : ∀ v ∈ op.operands, IsOld n v) (hanalyzed : op.name.analyzed)
    (hresults : op.numResults ≠ 0) (hresult : Demanded True type ops (resultOf op))
    (attr : TensorMeshShardingAttr) :
    Spec n type (op :: ops)
      { op.operands.foldl (TensorAnnotationCleanup.propagate op attr) s with
        ops := op :: (op.operands.foldl (TensorAnnotationCleanup.propagate op attr) s).ops } := by
  obtain ⟨hops, hnext, htype⟩ := foldl_propagate_spec op attr op.operands s
  have hiff : ∀ v, Demanded True type (op :: ops) v ↔
      Demanded True type ops v ∨ v ∈ op.operands := by
    intro v
    rw [demanded_cons_iff hordered]
    exact or_congr_right ⟨fun hv => hv.2.2.2.1,
      fun hv => ⟨trivial, hanalyzed, hresults, hv, hresult⟩⟩
  have hkeep : ¬ (op.name.analyzed ∧ Gathers True type ops op) := fun hg => hg.2.2.2.2 hresult
  refine
    { le := h.le.trans hnext.ge
      annotated := fun v hv => ?_
      kept := fun v hv hk => ?_
      fresh := fun id hid hid' hannotated => ?_
      emits := ?_ }
  · exact (htype v).1.trans ((or_congr_left (h.annotated v hv)).trans (hiff v).symm)
  · rw [hiff, not_or] at hk
    refine ((htype v).2 ?_).trans (h.kept v hv (hk.imp_right And.left))
    refine hk.imp (fun hv' => ?_) And.right
    rwa [h.kept v hv (.inl hv')]
  · rcases (htype _).1.mp hannotated with hannotated | hmem
    · exact h.fresh id hid (hnext ▸ hid') hannotated
    · exact absurd (hold _ hmem) (Nat.not_lt.mpr hid)
  · show Emits n (op.operands.foldl _ s).nextId type (op :: ops) (op :: (op.operands.foldl _ s).ops)
    rw [hops, hnext]
    exact .keep hkeep h.emits

variable {meshes : List MeshAttr}

section

variable {s' : State} (h : Spec n type ops s) (hordered : Ordered (op :: ops))
  (hold : ∀ v ∈ op.operands, IsOld n v)

include h hordered hold

/-- A single-device operation gathers its operands. -/
theorem Spec.gather (hanalyzed : op.name.analyzed) (hgathers : Gathers True type ops op)
    (hs' : gatherOperands meshes op s = some s') : Spec n type (op :: ops) s' := by
  obtain ⟨g, hg, hs'⟩ := Option.bind_eq_some_iff.mp hs'
  obtain rfl := Option.some.inj hs'
  have hspec := gathered_of_foldlM (fun v hv => (hold v hv).mono h.le) hg
  obtain ⟨r, hop, hr⟩ := hspec.op_eq
  have hiff : ∀ v, Demanded True type (op :: ops) v ↔ Demanded True type ops v := by
    intro v
    rw [demanded_cons_iff hordered, or_iff_left]
    exact fun hv => hgathers.2.2.2 hv.2.2.2.2
  have htype : ∀ v, IsOld n v → g.type v = s.type v := fun v hv =>
    hspec.type_eq v (hv.mono h.le)
  refine
    { le := h.le.trans hspec.le
      annotated := fun v hv => ?_
      kept := fun v hv hk => ?_
      fresh := fun id hid hid' => ?_
      emits := ?_ }
  · show (g.type v).isAnnotated = true ↔ _
    rw [htype v hv, hiff]
    exact h.annotated v hv
  · rw [hiff] at hk
    exact (htype v hv).trans (h.kept v hv hk)
  · by_cases hlt : id < s.nextId
    · show ¬ (g.type _).isAnnotated = true
      rw [hspec.type_eq (.opResult id 0) hlt]
      exact h.fresh id hid hlt
    · exact hspec.fresh id (Nat.not_lt.mp hlt) hid'
  · show Emits n g.nextId type (op :: ops) (g.inserted ++ g.op :: s.ops)
    rw [hop]
    refine .gather hanalyzed hgathers (fun o ho => ?_) (fun v hv => ?_) (h.emits.mono hspec.le)
    · exact (hspec.inserted o ho).mono h.le le_rfl fun v hv =>
        ⟨(h.annotated v (hold v hv.2)).mp hv.1, hv.2⟩
    · have hann := h.annotated v (hold v hv)
      rcases hr v hv with ⟨hrv, hseen⟩ | ⟨hva, id, hid, hid', hrv⟩
      · exact .inl ⟨hrv, fun hd => hseen (hann.mpr hd)⟩
      · exact .inr ⟨hann.mp hva, id, h.le.trans hid, hid', hrv⟩

/-- **One visit.** -/
theorem Spec.visit (hid : op.id < n)
    (hs' : visit meshes op s = some s') : Spec n type (op :: ops) s' := by
  rw [TensorAnnotationCleanup.visit] at hs'
  by_cases hanalyzed : op.name.analyzed
  swap
  · rw [if_neg hanalyzed] at hs'
    obtain rfl := Option.some.inj hs'
    refine h.keep (fun v => ?_) fun hg => hanalyzed hg.1
    rw [demanded_cons_iff hordered, or_iff_left]
    exact fun hv => hanalyzed hv.2.1
  rw [if_pos hanalyzed, analyzeSingleOpAndFixWrongTensorAnnotation] at hs'
  by_cases hnothing : op.numResults = 0 ∨ op.operands = []
  · rw [if_pos hnothing] at hs'
    obtain rfl := Option.some.inj hs'
    refine h.keep (fun v => ?_) fun hg => hnothing.elim hg.2.2.1 hg.2.2.2.1
    rw [demanded_cons_iff hordered, or_iff_left]
    exact fun hv => hnothing.elim hv.2.2.1 fun hnil => List.ne_nil_of_mem hv.2.2.2.1 hnil
  · rw [if_neg hnothing] at hs'
    rw [not_or] at hnothing
    have hann := h.annotated (resultOf op) hid
    cases hencoding : (s.type (resultOf op)).encoding with
    | some attr =>
      simp only [hencoding] at hs'
      obtain rfl := Option.some.inj hs'
      exact h.propagate hordered hold hanalyzed hnothing.1
        (hann.mp (isAnnotated_iff.mpr ⟨attr, hencoding⟩)) attr
    | none =>
      simp only [hencoding] at hs'
      exact h.gather hordered hold hanalyzed ⟨trivial, hnothing.1, hnothing.2,
        fun hd => not_isAnnotated_of_eq_none hencoding (hann.mpr hd)⟩ hs'

end

/-- **All visits**, by induction on the operations, from the last. -/
theorem cleanup_spec {s' : State}
    (hordered : Ordered ops) (hold : ∀ op ∈ ops, op.id < n ∧ ∀ v ∈ op.operands, IsOld n v)
    (hs' : cleanupOps meshes ⟨type, [], n, []⟩ ops = some s') : Spec n type ops s' := by
  induction ops generalizing s' with
  | nil =>
    obtain rfl := Option.some.inj hs'
    have hiff : ∀ v, Demanded True type [] v ↔ (type v).isAnnotated := by
      intro v
      refine ⟨fun hv => ?_, .annotated⟩
      cases hv with
      | annotated h => exact h
      | operand _ hop => cases hop
    exact
      { le := le_rfl
        annotated := fun v _ => (hiff v).symm
        kept := fun _ _ _ => rfl
        fresh := fun id hid hid' => absurd hid' (Nat.not_lt.mpr hid)
        emits := .nil }
  | cons op ops ih =>
    obtain ⟨s, hs, hs'⟩ := Option.bind_eq_some_iff.mp hs'
    have hspec := ih hordered.2 (fun o ho => hold o (List.mem_cons_of_mem _ ho)) hs
    exact hspec.visit hordered (hold op (by simp)).2 (hold op (by simp)).1 hs'

end Visit

/-! ## A function after the pass -/

section Cleaned

variable {active : Prop} {f f' : FuncOp}

/-- An operation that gathers, and the operation left of it: the operands that are demanded by
the operations after it are replaced by values that are not annotated. -/
def GathersInto (active : Prop) (f f' : FuncOp) (op o : Op) (post : List Op) : Prop :=
  op.name.analyzed ∧ Gathers active f.type f.body.ops op ∧ ∃ r, o = op.mapOperands r ∧
    ∀ v ∈ op.operands, r v = v ∧ ¬ Demanded active f.type post v ∨
      Demanded active f.type post v ∧ ¬ f'.Annotated (r v)

/-- An operation the pass inserts. -/
def Inserted (f f' : FuncOp) (o : Op) : Prop :=
  (∀ v ∈ o.results, ¬ f'.Annotated v) ∧
    (o.name = .empty ∧ o.operands = [] ∨
      o.name.direction = some .shardToFull ∧ ∃ input output, o.operands = [input, output] ∧
        input ∈ f.values ∧ f'.Annotated input ∧ ¬ f'.Annotated output)

/-- The operations that are kept as they are. -/
def Keeps (active : Prop) (f : FuncOp) (op : Op) : Prop :=
  ¬ (op.name.analyzed ∧ Gathers active f.type f.body.ops op)

/-- **A function and what the pass makes of it.** -/
structure Cleaned (active : Prop) (f f' : FuncOp) : Prop where
  name : f'.name = f.name
  functionType : f'.functionType = f.functionType
  numArgs : f'.body.numArgs = f.body.numArgs
  returns : f'.body.returns = f.body.returns
  annotated : ∀ v ∈ f.values, f'.Annotated v ↔ Demanded active f.type f.body.ops v
  type_eq : ∀ v ∈ f.values, f.Annotated v ∨ ¬ Demanded active f.type f.body.ops v →
    f'.type v = f.type v
  keep : ∀ op ∈ f.body.ops, Keeps active f op → op ∈ f'.body.ops
  gather : ∀ pre op post, f.body.ops = pre ++ op :: post → op.name.analyzed →
    Gathers active f.type f.body.ops op →
    ∃ o ∈ f'.body.ops, GathersInto active f f' op o post
  origin : ∀ o ∈ f'.body.ops, o ∈ f.body.ops ∧ Keeps active f o ∨
    (∃ pre op post, f.body.ops = pre ++ op :: post ∧ GathersInto active f f' op o post) ∨
    Inserted f f' o

variable {type : Value → RankedTensorType}

theorem demanded_false_iff {ops : List Op} : Demanded False type ops v ↔ (type v).isAnnotated := by
  constructor
  · intro h
    cases h with
    | annotated h => exact h
    | operand hactive => exact hactive.elim
  · exact .annotated

theorem cleaned_self (f : FuncOp) : Cleaned False f f where
  name := rfl
  functionType := rfl
  numArgs := rfl
  returns := rfl
  annotated _ _ := demanded_false_iff.symm
  type_eq _ _ _ := rfl
  keep _ hop _ := hop
  gather _ _ _ _ _ hgathers := hgathers.1.elim
  origin _ ho := .inl ⟨ho, fun h => h.2.1.elim⟩

/-- Where an operation after the pass comes from. -/
theorem Emits.origin {n n' : ℕ} {ops ops' : List Op}
    (h : Emits n n' type ops ops') (ho : o ∈ ops') :
    ∃ pre op post, ops = pre ++ op :: post ∧
      (o = op ∧ ¬ (op.name.analyzed ∧ Gathers True type post op) ∨
        op.name.analyzed ∧ Gathers True type post op ∧ ((∃ r, o = op.mapOperands r ∧
            Replaces n n' (Demanded True type post) op.operands op.operands r) ∨
          IsInserted n n' (fun v => Demanded True type post v ∧ v ∈ op.operands) o)) := by
  induction h with
  | nil => cases ho
  | @keep op ops ops' hkeep _ ih =>
    rcases List.mem_cons.mp ho with rfl | ho
    · exact ⟨[], o, ops, rfl, .inl ⟨rfl, hkeep⟩⟩
    · obtain ⟨pre, p, post, rfl, h⟩ := ih ho
      exact ⟨op :: pre, p, post, rfl, h⟩
  | @gather op ops ops' inserted r hanalyzed hgathers hinserted hr _ ih =>
    rcases List.mem_append.mp ho with ho | ho
    · exact ⟨[], op, ops, rfl, .inr ⟨hanalyzed, hgathers, .inr (hinserted o ho)⟩⟩
    · rcases List.mem_cons.mp ho with rfl | ho
      · exact ⟨[], op, ops, rfl, .inr ⟨hanalyzed, hgathers, .inl ⟨r, rfl, hr⟩⟩⟩
      · obtain ⟨pre, p, post, rfl, h⟩ := ih ho
        exact ⟨op :: pre, p, post, rfl, h⟩

/-- What is left of an operation. -/
theorem Emits.left {n n' : ℕ} {ops ops' : List Op} (h : Emits n n' type ops ops')
    (hops : ops = pre ++ op :: post) :
    (¬ (op.name.analyzed ∧ Gathers True type post op) → op ∈ ops') ∧
    (op.name.analyzed → Gathers True type post op → ∃ r, op.mapOperands r ∈ ops' ∧
      Replaces n n' (Demanded True type post) op.operands op.operands r) := by
  induction h generalizing pre with
  | nil => simp at hops
  | @keep p ops ops' hkeep _ ih =>
    cases pre with
    | nil =>
      obtain ⟨rfl, rfl⟩ := List.cons.inj hops
      exact ⟨fun _ => by simp, fun ha hg => absurd ⟨ha, hg⟩ hkeep⟩
    | cons q pre =>
      obtain ⟨rfl, rfl⟩ := List.cons.inj hops
      obtain ⟨h1, h2⟩ := ih rfl
      refine ⟨fun hk => List.mem_cons_of_mem _ (h1 hk), fun ha hg => ?_⟩
      obtain ⟨r, hmem, hr⟩ := h2 ha hg
      exact ⟨r, List.mem_cons_of_mem _ hmem, hr⟩
  | @gather p ops ops' inserted r hanalyzed hgathers hinserted hr _ ih =>
    cases pre with
    | nil =>
      obtain ⟨rfl, rfl⟩ := List.cons.inj hops
      exact ⟨fun hk => absurd ⟨hanalyzed, hgathers⟩ hk, fun _ _ => ⟨r, by simp, hr⟩⟩
    | cons q pre =>
      obtain ⟨rfl, rfl⟩ := List.cons.inj hops
      obtain ⟨h1, h2⟩ := ih rfl
      have hsub : ∀ o ∈ ops', o ∈ inserted ++ p.mapOperands r :: ops' := fun o ho =>
        List.mem_append_right _ (List.mem_cons_of_mem _ ho)
      refine ⟨fun hk => hsub _ (h1 hk), fun ha hg => ?_⟩
      obtain ⟨r', hmem, hr'⟩ := h2 ha hg
      exact ⟨r', hsub _ hmem, hr'⟩

theorem gathers_iff (h : Ordered (pre ++ op :: post)) :
    Gathers active type (pre ++ op :: post) op ↔ Gathers active type post op := by
  refine and_congr_right fun _ => and_congr_right fun hresults => and_congr_right fun _ => ?_
  rw [demanded_resultOf_iff h (resultOf_mem hresults)]

theorem mem_values_of_mem_valuesOf (hf : f.body.WellFormed) (hop : op ∈ f.body.ops)
    (hv : v ∈ valuesOf op) : v ∈ f.values := by
  rcases List.mem_append.mp hv with hv | hv
  · exact hf.dominated.mem_of_mem_operands hop hv
  · exact List.mem_append_right _ (List.mem_flatMap.mpr ⟨op, hop, hv⟩)

theorem isOld_of_mem_values (hv : v ∈ f.values) : IsOld (freshId f.body.ops) v := by
  cases v with
  | blockArg _ => exact trivial
  | opResult id k =>
    obtain ⟨op, hop, rfl, -⟩ := opResult_mem_scope.mp hv
    exact lt_freshId hop

/-- **The pass on one function.** -/
theorem cleaned_of_cleanupFunc {meshes : List MeshAttr} (hf : f.body.WellFormed)
    (h : cleanupFunc meshes f = some f') : Cleaned True f f' := by
  obtain ⟨s, hs, rfl⟩ := Option.map_eq_some_iff.mp h
  have hordered := ordered_of_wellFormed hf
  have hold : ∀ op ∈ f.body.ops, op.id < freshId f.body.ops ∧
      ∀ v ∈ op.operands, IsOld (freshId f.body.ops) v := fun op hop =>
    ⟨lt_freshId hop, fun v hv => isOld_of_mem_values
      (mem_values_of_mem_valuesOf hf hop (List.mem_append_left _ hv))⟩
  have hspec := cleanup_spec hordered hold hs
  have hann : ∀ v ∈ f.values, (f.after s).Annotated v ↔
      Demanded True f.type f.body.ops v := fun v hv =>
    hspec.annotated v (isOld_of_mem_values hv)
  -- what replaces an operand is not annotated
  have hreplaces : ∀ {op : Op} {post : List Op} {r : Value → Value},
      Replaces (freshId f.body.ops) s.nextId (Demanded True f.type post) op.operands op.operands
        r → ∀ v ∈ op.operands, r v = v ∧ ¬ Demanded True f.type post v ∨
          Demanded True f.type post v ∧ ¬ (f.after s).Annotated (r v) := by
    intro op post r hr v hv
    rcases hr v hv with ⟨hrv, hseen⟩ | ⟨hd, id, hid, hid', hrv⟩
    · exact .inl ⟨hrv, fun hd => hseen hd hv⟩
    · exact .inr ⟨hd, by rw [hrv]; exact hspec.fresh id hid hid'⟩
  refine
    { name := rfl
      functionType := rfl
      numArgs := rfl
      returns := rfl
      annotated := hann
      type_eq := fun v hv => hspec.kept v (isOld_of_mem_values hv)
      keep := fun op hop hkeeps => ?_
      gather := fun pre op post hops hanalyzed hgathers => ?_
      origin := fun o ho => ?_ }
  · obtain ⟨pre, post, hops⟩ := List.append_of_mem hop
    rw [Keeps, hops, gathers_iff (hops ▸ hordered)] at hkeeps
    exact (hspec.emits.left hops).1 hkeeps
  · have hgathers' := hgathers
    rw [hops, gathers_iff (hops ▸ hordered)] at hgathers'
    obtain ⟨r, hmem, hr⟩ := (hspec.emits.left hops).2 hanalyzed hgathers'
    exact ⟨_, hmem, hanalyzed, hgathers, r, rfl, hreplaces hr⟩
  · obtain ⟨pre, op, post, hops, hcase⟩ := hspec.emits.origin ho
    have hiff : Gathers True f.type f.body.ops op ↔ Gathers True f.type post op := by
      rw [hops, gathers_iff (hops ▸ hordered)]
    have hop : op ∈ f.body.ops := by rw [hops]; simp
    rcases hcase with ⟨rfl, hkeeps⟩ | ⟨hanalyzed, hgathers, ⟨r, rfl, hr⟩ | hinserted⟩
    · exact .inl ⟨hop, fun hg => hkeeps ⟨hg.1, hiff.mp hg.2⟩⟩
    · exact .inr (.inl ⟨pre, op, post, hops, hanalyzed, hiff.mpr hgathers, r, rfl, hreplaces hr⟩)
    · obtain ⟨hle, hlt, hresults, hcase⟩ := hinserted
      refine .inr (.inr ⟨fun v hv => ?_, hcase.imp_right ?_⟩)
      · obtain ⟨k, hk, rfl⟩ := Operation.mem_results.mp hv
        have hk0 : k = 0 := by
          rw [Operation.numResults, hresults] at hk
          simpa using hk
        subst hk0
        exact hspec.fresh o.id hle hlt
      · rintro ⟨hdirection, arg, id, ⟨hd, harg⟩, hid, hid', hoperands⟩
        have hmem := mem_values_of_mem_valuesOf hf hop (List.mem_append_left _ harg)
        have hd' : Demanded True f.type f.body.ops arg :=
          hd.mono fun o ho => by rw [hops]; simp [ho]
        exact ⟨hdirection, arg, _, hoperands, hmem, (hann arg hmem).mpr hd',
          hspec.fresh id hid hid'⟩

end Cleaned

/-! ## A module after the pass -/

/-- A module and what the pass makes of it, function by function. -/
structure Pairs (m m' : Module) : Prop where
  after : ∀ f ∈ m.funcs, ∃ f' ∈ m'.funcs, Cleaned m.meshes.isSome f f'
  before : ∀ f' ∈ m'.funcs, ∃ f ∈ m.funcs, Cleaned m.meshes.isSome f f'
  names : (m'.funcs.map FuncOp.name).Nodup

/-- **The pass on a module.** -/
theorem pairs_of_runOnOperation {m m' : Module} (hm : Verified m)
    (h : runOnOperation m = some m') : Pairs m m' := by
  rw [runOnOperation] at h
  cases hmeshes : m.meshes with
  | none =>
    simp only [hmeshes] at h
    obtain rfl := Option.some.inj h
    have hself : ∀ f, Cleaned m.meshes.isSome f f := fun f => by
      simpa [hmeshes] using cleaned_self f
    exact ⟨fun f hf => ⟨f, hf, hself f⟩, fun f hf => ⟨f, hf, hself f⟩, hm.names⟩
  | some meshes =>
    simp only [hmeshes] at h
    obtain ⟨funcs, hfuncs, rfl⟩ := Option.map_eq_some_iff.mp h
    have hall := Fallible.forall₂_of_mapM_eq_some hfuncs
    have hclean : List.Forall₂ (fun f f' => f ∈ m.funcs ∧ Cleaned m.meshes.isSome f f')
        m.funcs funcs := by
      rw [List.forall₂_iff_get]
      refine ⟨hall.length_eq, fun i hi hi' => ⟨List.get_mem _ _, ?_⟩⟩
      have hf := hall.get hi hi'
      have hc := cleaned_of_cleanupFunc (hm.wellFormed _ (List.get_mem _ _)) hf
      simpa [hmeshes] using hc
    refine ⟨fun f hf => ?_, fun f' hf' => ?_, ?_⟩
    · obtain ⟨i, hi, rfl⟩ := List.mem_iff_getElem.mp hf
      exact ⟨_, List.getElem_mem (hclean.length_eq ▸ hi), (hclean.get hi _).2⟩
    · obtain ⟨i, hi, rfl⟩ := List.mem_iff_getElem.mp hf'
      exact ⟨_, List.getElem_mem (hclean.length_eq.symm ▸ hi), (hclean.get _ hi).2⟩
    · have hnames : funcs.map FuncOp.name = m.funcs.map FuncOp.name := by
        apply List.ext_getElem
        · simp [hclean.length_eq]
        · intro i hi hi'
          rw [List.getElem_map, List.getElem_map]
          exact (hclean.get (by simpa using hi') (by simpa using hi)).2.name
      show (funcs.map FuncOp.name).Nodup
      rw [hnames]
      exact hm.names

/-- The value is annotated in the function its place names. -/
def PlaceAnnotated (m : Module) (p : Place) : Prop :=
  ∃ f ∈ m.funcs, f.name = p.1 ∧ f.Annotated p.2

variable {f : FuncOp}

theorem placeAnnotated_iff {m : Module} (hnames : (m.funcs.map FuncOp.name).Nodup)
    (hf : f ∈ m.funcs) : PlaceAnnotated m (f.name, v) ↔ f.Annotated v := by
  constructor
  · rintro ⟨g, hg, hname, h⟩
    rwa [List.inj_on_of_nodup_map hnames hg hf hname] at h
  · exact fun h => ⟨f, hf, rfl, h⟩

section Module

variable {m m' : Module}

theorem analyzed_iff : op.name.analyzed = true ↔ op.name.direction = none := by
  cases op.name with
  | meshShard => simp [OpKind.analyzed, OpKind.direction]
  | empty => simp [OpKind.analyzed, OpKind.direction]
  | call => simp [OpKind.analyzed, OpKind.direction]
  | other => simp [OpKind.analyzed, OpKind.direction]

variable {active : Prop}

/-- A `MeshShardOp` is kept. -/
theorem keeps_of_direction (h : op.name.direction.isSome) : Keeps active f op := by
  rintro ⟨hanalyzed, -⟩
  rw [analyzed_iff.mp hanalyzed] at h
  cases h

variable {v : Value}

section

variable (hm : Verified m) {f g : FuncOp} {op : Op} {i : ℕ} (hf : f ∈ m.funcs) (hg : g ∈ m.funcs)
  (hop : op ∈ f.body.ops) (hcall : op.name = .call g.name)

include hm hf hg hop hcall

/-- What calls pass has one type on both sides. -/
theorem Verified.argument (hv : op.operands[i]? = some v) :
    f.type v = g.type (.blockArg i) ∧ Value.blockArg i ∈ entryScope g.body.numArgs := by
  have htypes := (hm.calls f hf g hg op hop hcall).1
  rw [hm.inputs g hg] at htypes
  have hi := congrArg (·[i]?) htypes
  simp only [List.getElem?_map, hv, Option.map_some] at hi
  obtain ⟨w, hw, htype⟩ := Option.map_eq_some_iff.mp hi.symm
  have hw' : w = .blockArg i ∧ i < g.body.numArgs := by
    rw [entryScope, List.getElem?_map] at hw
    obtain ⟨j, hj, rfl⟩ := Option.map_eq_some_iff.mp hw
    obtain ⟨hlt, rfl⟩ := List.getElem?_eq_some_iff.mp hj
    exact ⟨by simp, by simpa using hlt⟩
  obtain ⟨rfl, hlt⟩ := hw'
  exact ⟨htype.symm, blockArg_mem_entryScope.mpr hlt⟩

theorem Verified.returned (hv : op.results[i]? = some v) :
    ∃ w, g.body.returns[i]? = some w ∧ f.type v = g.type w := by
  have htypes := (hm.calls f hf g hg op hop hcall).2
  rw [hm.results g hg] at htypes
  have hi := congrArg (·[i]?) htypes
  simp only [List.getElem?_map, hv, Option.map_some] at hi
  obtain ⟨w, hw, htype⟩ := Option.map_eq_some_iff.mp hi.symm
  exact ⟨w, hw, htype.symm⟩

end

theorem Verified.returns_mem (hm : Verified m) (hf : f ∈ m.funcs)
    (hv : v ∈ f.body.returns) : v ∈ f.values :=
  (hm.wellFormed f hf).returns_mem v hv

theorem entryScope_subset_values (hv : v ∈ entryScope f.body.numArgs) : v ∈ f.values :=
  List.mem_append_left _ hv

variable {f f' : FuncOp}

theorem Cleaned.mem_values (h : Cleaned active f f')
    (hv : v ∈ f'.values) : v ∈ f.values ∨ ¬ f'.Annotated v := by
  rcases List.mem_append.mp hv with hv | hv
  · rw [h.numArgs] at hv
    exact .inl (entryScope_subset_values hv)
  · obtain ⟨o, ho, hv⟩ := List.mem_flatMap.mp hv
    rcases h.origin o ho with ⟨ho, -⟩ | ⟨pre, op, post, hops, -, -, r, rfl, -⟩ | hinserted
    · exact .inl (List.mem_append_right _ (List.mem_flatMap.mpr ⟨o, ho, hv⟩))
    · refine .inl (List.mem_append_right _ (List.mem_flatMap.mpr ⟨op, ?_, hv⟩))
      rw [hops]
      simp
    · exact .inr (hinserted.1 v hv)

/-- The results of an operation are results of what is left of it. -/
theorem Cleaned.values_subset (h : Cleaned active f f') (hv : v ∈ f.values) : v ∈ f'.values := by
  rcases List.mem_append.mp hv with hv | hv
  · rw [← h.numArgs] at hv
    exact entryScope_subset_values hv
  · obtain ⟨op, hop, hv⟩ := List.mem_flatMap.mp hv
    refine List.mem_append_right _ (List.mem_flatMap.mpr ?_)
    by_cases hkeeps : Keeps active f op
    · exact ⟨op, h.keep op hop hkeeps, hv⟩
    · obtain ⟨hanalyzed, hgathers⟩ := not_not.mp hkeeps
      obtain ⟨pre, post, hops⟩ := List.append_of_mem hop
      obtain ⟨o, ho, -, -, r, rfl, -⟩ := h.gather pre op post hops hanalyzed hgathers
      exact ⟨_, ho, hv⟩

/-- A `MeshShardOp` after the pass was there before, or gathers a value. -/
theorem Cleaned.meshShard_cases (hc : Cleaned active f f')
    (ho : o ∈ f'.body.ops) {direction : MeshShardDirection}
    (hdirection : o.name.direction = some direction) :
    o ∈ f.body.ops ∨ direction = .shardToFull ∧ (∀ v ∈ o.results, ¬ f'.Annotated v) ∧
      ∃ input output, o.operands = [input, output] ∧ input ∈ f.values ∧
        f'.Annotated input ∧ ¬ f'.Annotated output := by
  rcases hc.origin o ho with ⟨ho, -⟩ | ⟨pre, op, post, -, hanalyzed, -, r, rfl, -⟩ |
    ⟨hresults, ⟨hname, -⟩ | ⟨hdirection', hoperands⟩⟩
  · exact .inl ho
  · rw [Operation.mapOperands_name, analyzed_iff.mp hanalyzed] at hdirection
    cases hdirection
  · rw [hname] at hdirection
    cases hdirection
  · exact .inr ⟨Option.some.inj (hdirection.symm.trans hdirection'), hresults, hoperands⟩

/-- An operation that gathers leaves one of which nothing is annotated. -/
theorem Settled.not_annotated (hs : Settled m) (hf : f ∈ m.funcs)
    (hwf : f.body.WellFormed) (hc : Cleaned m.meshes.isSome f f')
    {op o : Op} (hops : f.body.ops = pre ++ op :: post)
    (h : GathersInto m.meshes.isSome f f' op o post) : ∀ v ∈ valuesOf o, ¬ f'.Annotated v := by
  obtain ⟨hanalyzed, hgathers, r, rfl, hr⟩ := h
  obtain ⟨hresults, hoperands⟩ := hs.gathered f hf pre op post hops hanalyzed hgathers
  have hop : op ∈ f.body.ops := by rw [hops]; simp
  intro v hv
  rcases List.mem_append.mp hv with hv | hv
  · obtain ⟨w, hw, rfl⟩ := List.mem_map.mp hv
    rcases hr w hw with ⟨hrw, hnot⟩ | ⟨-, hnot⟩
    · have hmem := mem_values_of_mem_valuesOf hwf hop (List.mem_append_left _ hw)
      rw [hrw, hc.annotated w hmem]
      exact fun hd => hnot (hoperands w hw hd)
    · exact hnot
  · have hmem := mem_values_of_mem_valuesOf hwf hop (List.mem_append_right _ hv)
    rw [hc.annotated v hmem]
    exact hresults v hv

theorem Inserted.not_annotated (h : Inserted f f' o)
    (hanalyzed : o.name.analyzed) : ∀ v ∈ valuesOf o, ¬ f'.Annotated v := by
  obtain ⟨hresults, ⟨-, hnil⟩ | ⟨hdirection, -⟩⟩ := h
  · intro v hv
    rw [valuesOf, hnil, List.nil_append] at hv
    exact hresults v hv
  · rw [analyzed_iff.mp hanalyzed] at hdirection
    cases hdirection

theorem Inserted.not_call (h : Inserted f f' o) {callee : String} : o.name ≠ .call callee := by
  intro hcall
  obtain ⟨-, ⟨hname, -⟩ | ⟨hdirection, -⟩⟩ := h
  · rw [hcall] at hname
    cases hname
  · rw [hcall] at hdirection
    cases hdirection

theorem Settled.argument_iff (hs : Settled m) {g g' : FuncOp} (hg : g ∈ m.funcs)
    (hc : Cleaned m.meshes.isSome g g')
    (hv : v ∈ entryScope g.body.numArgs ++ g.body.returns) (hmem : v ∈ g.values) :
    g'.Annotated v ↔ g.Annotated v := by
  rw [hc.annotated v hmem]
  exact ⟨hs.signature g hg v hv, .annotated⟩

variable {p q : Place}

/-- **Links after the pass.**  Linked values are both annotated or both not; and if they are
annotated, they were linked before the pass, by an operation that does not gather. -/
theorem Settled.linked (hs : Settled m) (hm : Verified m) (hp : Pairs m m')
    (h : Linked m' (fun _ _ => True) p q) :
    (PlaceAnnotated m' p ↔ PlaceAnnotated m' q) ∧
      (PlaceAnnotated m' p → Linked m (fun f op => ¬ m.Gathers f op) p q) := by
  cases h with
  | @through f' op v w hf' hop hanalyzed _ hv hw =>
    obtain ⟨f, hf, hc⟩ := hp.before f' hf'
    have hwf := hm.wellFormed f hf
    rw [placeAnnotated_iff hp.names hf', placeAnnotated_iff hp.names hf']
    rcases hc.origin op hop with ⟨hop, hkeeps⟩ | ⟨pre, op₀, post, hops, hinto⟩ | hinserted
    · have hgathers : ¬ m.Gathers f op := fun hg => hkeeps ⟨hanalyzed, hg⟩
      rw [hc.name, hc.annotated v (mem_values_of_mem_valuesOf hwf hop hv),
        hc.annotated w (mem_values_of_mem_valuesOf hwf hop hw)]
      exact ⟨⟨hs.agree f hf op hop hanalyzed hgathers v hv w hw,
        hs.agree f hf op hop hanalyzed hgathers w hw v hv⟩,
        fun _ => .through hf hop hanalyzed hgathers hv hw⟩
    · have hnone := hs.not_annotated hf hwf hc hops hinto
      exact ⟨iff_of_false (hnone v hv) (hnone w hw), fun h => absurd h (hnone v hv)⟩
    · have hnone := hinserted.not_annotated hanalyzed
      exact ⟨iff_of_false (hnone v hv) (hnone w hw), fun h => absurd h (hnone v hv)⟩
  | @destination f' op v w hf' hop hdirection hv hw =>
    obtain ⟨f, hf, hc⟩ := hp.before f' hf'
    have hwf := hm.wellFormed f hf
    rw [placeAnnotated_iff hp.names hf', placeAnnotated_iff hp.names hf']
    obtain ⟨direction, hdirection'⟩ := Option.isSome_iff_exists.mp hdirection
    rcases hc.meshShard_cases hop hdirection' with hop | ⟨-, hresults, input, output, hoperands,
      -, -, houtput⟩
    · have hv' : v ∈ valuesOf op := List.mem_append_left _ (List.mem_of_getElem? hv)
      have hw' : w ∈ valuesOf op := List.mem_append_right _ hw
      rw [hc.name, hc.annotated v (mem_values_of_mem_valuesOf hwf hop hv'),
        hc.annotated w (mem_values_of_mem_valuesOf hwf hop hw')]
      exact ⟨hs.destinations f hf op hop hdirection v hv w hw,
        fun _ => .destination hf hop hdirection hv hw⟩
    · rw [hoperands] at hv
      obtain rfl := Option.some.inj hv
      exact ⟨iff_of_false houtput (hresults w hw), fun h => absurd h houtput⟩
  | @argument f' g' op i v hf' hg' hop hcall _ hv =>
    obtain ⟨f, hf, hc⟩ := hp.before f' hf'
    obtain ⟨g, hg, hcg⟩ := hp.before g' hg'
    have hwf := hm.wellFormed f hf
    rw [placeAnnotated_iff hp.names hf', placeAnnotated_iff hp.names hg']
    rw [hcg.name] at hcall
    -- the argument keeps its type
    have harg : ∀ {op₀ : Op} {w : Value}, op₀ ∈ f.body.ops → op₀.name = .call g.name →
        op₀.operands[i]? = some w → (g'.Annotated (.blockArg i) ↔ f.Annotated w) := by
      intro op₀ w hop₀ hcall₀ hw
      obtain ⟨htype, hmem⟩ := hm.argument hf hg hop₀ hcall₀ hw
      rw [hs.argument_iff hg hcg (List.mem_append_left _ hmem)
        (entryScope_subset_values hmem), FuncOp.Annotated, FuncOp.Annotated, htype]
    rcases hc.origin op hop with ⟨hop, hkeeps⟩ | ⟨pre, op₀, post, hops, hinto⟩ | hinserted
    · have hanalyzed : op.name.analyzed := by rw [hcall]; rfl
      have hgathers : ¬ m.Gathers f op := fun hg => hkeeps ⟨hanalyzed, hg⟩
      have hv' : v ∈ op.operands := List.mem_of_getElem? hv
      rw [harg hop hcall hv, hc.name, hcg.name,
        hc.annotated v (mem_values_of_mem_valuesOf hwf hop (List.mem_append_left _ hv'))]
      exact ⟨⟨(hs.calls f hf g hg op hop hcall).2.1 hgathers v hv', .annotated⟩,
        fun _ => .argument hf hg hop hcall hgathers hv⟩
    · have hnone := hs.not_annotated hf hwf hc hops hinto v
        (List.mem_append_left _ (List.mem_of_getElem? hv))
      obtain ⟨hanalyzed, hgathers, r, rfl, -⟩ := hinto
      have hop₀ : op₀ ∈ f.body.ops := by rw [hops]; simp
      rw [Operation.mapOperands_operands, List.getElem?_map] at hv
      obtain ⟨w, hw, rfl⟩ := Option.map_eq_some_iff.mp hv
      rw [harg hop₀ hcall hw]
      have hnot := (hs.calls f hf g hg op₀ hop₀ hcall).2.2 hgathers w (List.mem_of_getElem? hw)
      exact ⟨iff_of_false hnone hnot, fun h => absurd h hnone⟩
    · exact absurd hcall hinserted.not_call
  | @returned f' g' op i v w hf' hg' hop hcall _ hv hw =>
    obtain ⟨f, hf, hc⟩ := hp.before f' hf'
    obtain ⟨g, hg, hcg⟩ := hp.before g' hg'
    have hwf := hm.wellFormed f hf
    rw [placeAnnotated_iff hp.names hf', placeAnnotated_iff hp.names hg']
    rw [hcg.name] at hcall
    rw [hcg.returns] at hw
    have hw' := List.mem_of_getElem? hw
    rw [hs.argument_iff hg hcg (List.mem_append_right _ hw') (hm.returns_mem hg hw')]
    -- a result of a call keeps its type
    have hresult : ∀ {op₀ : Op}, op₀ ∈ f.body.ops → op₀.name = .call g.name →
        op₀.results[i]? = some v → (f'.Annotated v ↔ g.Annotated w) := by
      intro op₀ hop₀ hcall₀ hv₀
      have hmem := List.mem_of_getElem? hv₀
      obtain ⟨w₀, hw₀, htype⟩ := hm.returned hf hg hop₀ hcall₀ hv₀
      obtain rfl := Option.some.inj (hw₀.symm.trans hw)
      rw [hc.annotated v (mem_values_of_mem_valuesOf hwf hop₀ (List.mem_append_right _ hmem)),
        FuncOp.Annotated, ← htype]
      exact ⟨(hs.calls f hf g hg op₀ hop₀ hcall₀).1 v hmem, .annotated⟩
    rcases hc.origin op hop with ⟨hop, hkeeps⟩ | ⟨pre, op₀, post, hops, hinto⟩ | hinserted
    · have hanalyzed : op.name.analyzed := by rw [hcall]; rfl
      have hgathers : ¬ m.Gathers f op := fun hg => hkeeps ⟨hanalyzed, hg⟩
      rw [hc.name, hcg.name]
      exact ⟨hresult hop hcall hv, fun _ => .returned hf hg hop hcall hgathers hv hw⟩
    · have hnone := hs.not_annotated hf hwf hc hops hinto v
        (List.mem_append_right _ (List.mem_of_getElem? hv))
      obtain ⟨hanalyzed, hgathers, r, rfl, -⟩ := hinto
      have hop₀ : op₀ ∈ f.body.ops := by rw [hops]; simp
      exact ⟨hresult hop₀ hcall hv, fun h => absurd h hnone⟩
    · exact absurd hcall hinserted.not_call

/-- Chains of links after the pass. -/
theorem Settled.eqvGen (hs : Settled m) (hm : Verified m) (hp : Pairs m m')
    (h : Relation.EqvGen (Linked m' fun _ _ => True) p q) :
    (PlaceAnnotated m' p ↔ PlaceAnnotated m' q) ∧ (PlaceAnnotated m' p →
        Relation.EqvGen (Linked m fun f op => ¬ m.Gathers f op) p q) := by
  induction h with
  | rel p q h =>
    obtain ⟨hiff, hlinked⟩ := hs.linked hm hp h
    exact ⟨hiff, fun ha => .rel _ _ (hlinked ha)⟩
  | refl p => exact ⟨Iff.rfl, fun _ => .refl p⟩
  | symm p q _ ih => exact ⟨ih.1.symm, fun ha => .symm _ _ (ih.2 (ih.1.mpr ha))⟩
  | trans p q r _ _ ih ih' =>
    exact ⟨ih.1.trans ih'.1, fun ha => .trans _ _ _ (ih.2 ha) (ih'.2 (ih.1.mp ha))⟩

/-- A link by an operation that does not gather is still there after the pass. -/
theorem Pairs.linked (hp : Pairs m m')
    (h : Linked m (fun f op => ¬ m.Gathers f op) p q) : Linked m' (fun _ _ => True) p q := by
  cases h with
  | @through f op v w hf hop hanalyzed hgathers hv hw =>
    obtain ⟨f', hf', hc⟩ := hp.after f hf
    rw [← hc.name]
    exact .through hf' (hc.keep op hop fun h => hgathers h.2) hanalyzed trivial hv hw
  | @destination f op v w hf hop hdirection hv hw =>
    obtain ⟨f', hf', hc⟩ := hp.after f hf
    rw [← hc.name]
    exact .destination hf' (hc.keep op hop (keeps_of_direction hdirection)) hdirection hv hw
  | @argument f g op i v hf hg hop hcall hgathers hv =>
    obtain ⟨f', hf', hc⟩ := hp.after f hf
    obtain ⟨g', hg', hcg⟩ := hp.after g hg
    rw [← hc.name, ← hcg.name]
    rw [← hcg.name] at hcall
    exact .argument hf' hg' (hc.keep op hop fun h => hgathers h.2) hcall trivial hv
  | @returned f g op i v w hf hg hop hcall hgathers hv hw =>
    obtain ⟨f', hf', hc⟩ := hp.after f hf
    obtain ⟨g', hg', hcg⟩ := hp.after g hg
    rw [← hc.name, ← hcg.name]
    rw [← hcg.name] at hcall
    rw [← hcg.returns] at hw
    exact .returned hf' hg' (hc.keep op hop fun h => hgathers h.2) hcall trivial hv hw

theorem Pairs.multiDevice (hp : Pairs m m') {p : Place}
    (h : Sharded m (fun f op => ¬ m.Gathers f op) p) : MultiDevice m' p := by
  obtain ⟨f, hf, op, hop, hdirection, v, hv, hlinked⟩ := h
  obtain ⟨f', hf', hc⟩ := hp.after f hf
  have hkeeps : Keeps m.meshes.isSome f op := keeps_of_direction (by rw [hdirection]; rfl)
  rw [← hc.name] at hlinked
  exact ⟨f', hf', op, hc.keep op hop hkeeps, hdirection, v, hv,
    hlinked.mono fun _ _ hl => hp.linked hl⟩

/-- **Multi-device values are annotated** when demands agree. -/
theorem Settled.annotated_of_multiDevice (hs : Settled m) (hm : Verified m) (hp : Pairs m m')
    {p : Place} (h : MultiDevice m' p) : PlaceAnnotated m' p := by
  obtain ⟨f', hf', op, hop, hdirection, v, hv, hlinked⟩ := h
  refine (hs.eqvGen hm hp hlinked).1.mp ?_
  obtain ⟨f, hf, hc⟩ := hp.before f' hf'
  rw [placeAnnotated_iff hp.names hf']
  rcases hc.meshShard_cases hop hdirection with hop | ⟨hgather, -⟩
  · have hmem := mem_values_of_mem_valuesOf (hm.wellFormed f hf) hop (List.mem_append_right _ hv)
    rw [hc.annotated v hmem]
    exact (hs.shards f hf op hop hdirection).2 v hv
  · cases hgather

/-- A demanded value is sharded by operations that do not gather: the demand comes from an
annotation, along such operations. -/
theorem Regular.sharded_of_demanded (hr : Regular m) (hm : Verified m)
    (hf : f ∈ m.funcs) (hv : v ∈ f.values) (h : m.Demanded f v) :
    Sharded m (fun f op => ¬ m.Gathers f op) (f.name, v) := by
  induction h with
  | annotated h => exact hr.rooted f hf _ hv h
  | @operand op v hactive hop hanalyzed hresults hread hresult ih =>
    have hwf := hm.wellFormed f hf
    have hresult_mem : resultOf op ∈ valuesOf op := List.mem_append_right _ (resultOf_mem hresults)
    obtain ⟨g, hg, o, ho, hdirection, w, hw, hlinked⟩ :=
      ih (mem_values_of_mem_valuesOf hwf hop hresult_mem)
    have hgathers : ¬ m.Gathers f op := fun hg => hg.2.2.2 hresult
    exact ⟨g, hg, o, ho, hdirection, w, hw, .trans _ _ _ hlinked (.rel _ _
      (.through hf hop hanalyzed hgathers hresult_mem (List.mem_append_left _ hread)))⟩

/-- **Regular modules are made consistent.** -/
theorem Regular.consistent (hr : Regular m) (hm : Verified m) (hp : Pairs m m') :
    Consistent m' := by
  have hs := hr.toSettled
  have hannotated : ∀ f ∈ m'.funcs, ∀ v ∈ f.values, f.Annotated v ↔ MultiDevice m' (f.name, v) := by
    intro f' hf' v hv
    constructor
    · intro h
      obtain ⟨f, hf, hc⟩ := hp.before f' hf'
      have hmem : v ∈ f.values := (hc.mem_values hv).resolve_right (not_not_intro h)
      rw [hc.name]
      exact hp.multiDevice (hr.sharded_of_demanded hm hf hmem ((hc.annotated v hmem).mp h))
    · intro h
      exact (placeAnnotated_iff hp.names hf').mp (hs.annotated_of_multiDevice hm hp h)
  -- the type of a value of the signature does not change
  have hsignature : ∀ f ∈ m.funcs, ∀ f', Cleaned m.meshes.isSome f f' →
      ∀ v ∈ entryScope f.body.numArgs ++ f.body.returns, v ∈ f.values → f'.type v = f.type v :=
    fun f hf f' hc v hv hmem => hc.type_eq v hmem
      ((Classical.em (m.Demanded f v)).imp_left (hs.signature f hf v hv))
  have hnot : ∀ f ∈ m'.funcs, ∀ v, ¬ f.Annotated v → ¬ MultiDevice m' (f.name, v) :=
    fun f hf v h hmulti => h ((placeAnnotated_iff hp.names hf).mp
      (hs.annotated_of_multiDevice hm hp hmulti))
  refine
    { annotated := hannotated
      shards := fun f' hf' op hop hdirection input hinput => hnot f' hf' input ?_
      gathers := fun f' hf' op hop hdirection =>
        ⟨fun input hinput => ?_, fun v hv => hnot f' hf' v ?_⟩
      inputs := fun f' hf' => ?_
      results := fun f' hf' => ?_ }
  · obtain ⟨f, hf, hc⟩ := hp.before f' hf'
    rcases hc.meshShard_cases hop hdirection with hop | ⟨hgather, -⟩
    · rw [hc.annotated input (mem_values_of_mem_valuesOf (hm.wellFormed f hf) hop
        (List.mem_append_left _ (List.mem_of_getElem? hinput)))]
      exact (hs.shards f hf op hop hdirection).1 input hinput
    · cases hgather
  · obtain ⟨f, hf, hc⟩ := hp.before f' hf'
    rcases hc.meshShard_cases hop hdirection with hop | ⟨-, -, arg, output, hoperands, hmem, harg,
      -⟩
    · have hmem := mem_values_of_mem_valuesOf (hm.wellFormed f hf) hop
        (List.mem_append_left _ (List.mem_of_getElem? hinput))
      refine (hannotated f' hf' input (hc.values_subset hmem)).mp ((hc.annotated input hmem).mpr ?_)
      exact (hs.gathers f hf op hop hdirection).1 input hinput
    · rw [hoperands] at hinput
      obtain rfl := Option.some.inj hinput
      exact (hannotated f' hf' arg (hc.values_subset hmem)).mp harg
  · obtain ⟨f, hf, hc⟩ := hp.before f' hf'
    rcases hc.meshShard_cases hop hdirection with hop | ⟨-, hresults, -⟩
    · rw [hc.annotated v (mem_values_of_mem_valuesOf (hm.wellFormed f hf) hop
        (List.mem_append_right _ hv))]
      exact (hs.gathers f hf op hop hdirection).2 v hv
    · exact hresults v hv
  · obtain ⟨f, hf, hc⟩ := hp.before f' hf'
    rw [hc.functionType, hm.inputs f hf, hc.numArgs]
    exact List.map_congr_left fun v hv => (hsignature f hf f' hc v (List.mem_append_left _ hv)
      (entryScope_subset_values hv)).symm
  · obtain ⟨f, hf, hc⟩ := hp.before f' hf'
    rw [hc.functionType, hm.results f hf, hc.returns]
    exact List.map_congr_left fun v hv => (hsignature f hf f' hc v (List.mem_append_right _ hv)
      (hm.returns_mem hf hv)).symm

theorem Consistent.demanded_iff (h : Consistent m') (hf' : f' ∈ m'.funcs)
    (hc : Cleaned m.meshes.isSome f f') (hv : v ∈ f.values) :
    m.Demanded f v ↔ MultiDevice m' (f.name, v) := by
  refine (hc.annotated v hv).symm.trans ?_
  rw [← hc.name]
  exact h.annotated f' hf' v (hc.values_subset hv)

theorem MultiDevice.of_linked (h : MultiDevice m' p)
    (hlinked : Linked m' (fun _ _ => True) p q) : MultiDevice m' q := by
  obtain ⟨f, hf, op, hop, hdirection, v, hv, hchain⟩ := h
  exact ⟨f, hf, op, hop, hdirection, v, hv, .trans _ _ _ hchain (.rel _ _ hlinked)⟩

theorem MultiDevice.of_linked_symm (h : MultiDevice m' q)
    (hlinked : Linked m' (fun _ _ => True) p q) : MultiDevice m' p := by
  obtain ⟨f, hf, op, hop, hdirection, v, hv, hchain⟩ := h
  exact ⟨f, hf, op, hop, hdirection, v, hv, .trans _ _ _ hchain (.symm _ _ (.rel _ _ hlinked))⟩

/-- Declared types that agree with the values show that the signature is not newly demanded. -/
theorem Consistent.signature (h : Consistent m') (hm : Verified m)
    (hf : f ∈ m.funcs) (hf' : f' ∈ m'.funcs) (hc : Cleaned m.meshes.isSome f f')
    (hv : v ∈ entryScope f.body.numArgs ++ f.body.returns) (hd : m.Demanded f v) :
    f.Annotated v := by
  have hmem : v ∈ f.values := (List.mem_append.mp hv).elim entryScope_subset_values
    (hm.returns_mem hf)
  have htype : f'.type v = f.type v := by
    rcases List.mem_append.mp hv with hv | hv
    · have hinputs := h.inputs f' hf'
      rw [hc.functionType, hm.inputs f hf, hc.numArgs] at hinputs
      exact (List.map_inj_left.mp hinputs v hv).symm
    · have hresults := h.results f' hf'
      rw [hc.functionType, hm.results f hf, hc.returns] at hresults
      exact (List.map_inj_left.mp hresults v hv).symm
  have hannotated := (hc.annotated v hmem).mpr hd
  rwa [FuncOp.Annotated, htype] at hannotated

/-- **The demands of a module that is made consistent agree.** -/
theorem Consistent.settled (h : Consistent m') (hm : Verified m) (hp : Pairs m m') : Settled m where
  agree f hf op hop hanalyzed hgathers v hv w hw hd := by
    obtain ⟨f', hf', hc⟩ := hp.after f hf
    have hwf := hm.wellFormed f hf
    rw [h.demanded_iff hf' hc (mem_values_of_mem_valuesOf hwf hop hv), ← hc.name] at hd
    rw [h.demanded_iff hf' hc (mem_values_of_mem_valuesOf hwf hop hw), ← hc.name]
    exact hd.of_linked (.through hf' (hc.keep op hop fun hk => hgathers hk.2) hanalyzed trivial
      hv hw)
  gathered f hf pre op post hops hanalyzed hgathers := by
    obtain ⟨f', hf', hc⟩ := hp.after f hf
    have hwf := hm.wellFormed f hf
    have hop : op ∈ f.body.ops := by rw [hops]; simp
    obtain ⟨o, ho, -, -, r, rfl, hr⟩ := hc.gather pre op post hops hanalyzed hgathers
    have hresult : resultOf op ∈ op.results := resultOf_mem hgathers.2.1
    -- nothing of the operation is multi-device, because its first result is not demanded
    have hnone : ∀ v ∈ valuesOf (op.mapOperands r), ¬ MultiDevice m' (f'.name, v) := by
      intro v hv hmulti
      refine hgathers.2.2.2 ((h.demanded_iff hf' hc
        (mem_values_of_mem_valuesOf hwf hop (List.mem_append_right _ hresult))).mpr ?_)
      rw [← hc.name]
      exact hmulti.of_linked (.through hf' ho hanalyzed trivial hv
        (List.mem_append_right _ hresult))
    refine ⟨fun v hv hd => ?_, fun v hv hd => ?_⟩
    · rw [h.demanded_iff hf' hc (mem_values_of_mem_valuesOf hwf hop
        (List.mem_append_right _ hv)), ← hc.name] at hd
      exact hnone v (List.mem_append_right _ hv) hd
    · rcases hr v hv with ⟨hrv, -⟩ | ⟨hd', -⟩
      · rw [h.demanded_iff hf' hc (mem_values_of_mem_valuesOf hwf hop
          (List.mem_append_left _ hv)), ← hc.name] at hd
        refine absurd hd (hnone v (List.mem_append_left _ ?_))
        exact List.mem_map.mpr ⟨v, hv, hrv⟩
      · exact hd'
  shards f hf op hop hdirection := by
    obtain ⟨f', hf', hc⟩ := hp.after f hf
    have hwf := hm.wellFormed f hf
    have hop' := hc.keep op hop (keeps_of_direction (by rw [hdirection]; rfl))
    refine ⟨fun input hinput => ?_, fun v hv => ?_⟩
    · rw [h.demanded_iff hf' hc (mem_values_of_mem_valuesOf hwf hop
        (List.mem_append_left _ (List.mem_of_getElem? hinput))), ← hc.name]
      exact h.shards f' hf' op hop' hdirection input hinput
    · rw [h.demanded_iff hf' hc (mem_values_of_mem_valuesOf hwf hop
        (List.mem_append_right _ hv)), ← hc.name]
      exact ⟨f', hf', op, hop', hdirection, v, hv, .refl _⟩
  gathers f hf op hop hdirection := by
    obtain ⟨f', hf', hc⟩ := hp.after f hf
    have hwf := hm.wellFormed f hf
    have hop' := hc.keep op hop (keeps_of_direction (by rw [hdirection]; rfl))
    obtain ⟨hinputs, hresults⟩ := h.gathers f' hf' op hop' hdirection
    refine ⟨fun input hinput => ?_, fun v hv => ?_⟩
    · rw [h.demanded_iff hf' hc (mem_values_of_mem_valuesOf hwf hop
        (List.mem_append_left _ (List.mem_of_getElem? hinput))), ← hc.name]
      exact hinputs input hinput
    · rw [h.demanded_iff hf' hc (mem_values_of_mem_valuesOf hwf hop
        (List.mem_append_right _ hv)), ← hc.name]
      exact hresults v hv
  destinations f hf op hop hdirection output houtput v hv := by
    obtain ⟨f', hf', hc⟩ := hp.after f hf
    have hwf := hm.wellFormed f hf
    have hlinked : Linked m' (fun _ _ => True) (f'.name, output) (f'.name, v) :=
      .destination hf' (hc.keep op hop (keeps_of_direction hdirection)) hdirection houtput hv
    rw [h.demanded_iff hf' hc (mem_values_of_mem_valuesOf hwf hop
        (List.mem_append_left _ (List.mem_of_getElem? houtput))),
      h.demanded_iff hf' hc (mem_values_of_mem_valuesOf hwf hop (List.mem_append_right _ hv)),
      ← hc.name]
    exact ⟨fun hd => hd.of_linked hlinked, fun hd => hd.of_linked_symm hlinked⟩
  signature f hf v hv hd := by
    obtain ⟨f', hf', hc⟩ := hp.after f hf
    exact h.signature hm hf hf' hc hv hd
  calls f hf g hg op hop hcall := by
    obtain ⟨f', hf', hc⟩ := hp.after f hf
    obtain ⟨g', hg', hcg⟩ := hp.after g hg
    have hwf := hm.wellFormed f hf
    have hanalyzed : op.name.analyzed := by rw [hcall]; rfl
    have hcall' : op.name = .call g'.name := by rw [hcall, hcg.name]
    refine ⟨fun v hv hd => ?_, fun hgathers v hv hd => ?_, fun hgathers v hv hannotated => ?_⟩
    · -- a result of the call is a returned operand of the callee
      obtain ⟨i, hi⟩ := List.mem_iff_getElem?.mp hv
      obtain ⟨w, hw, htype⟩ := hm.returned hf hg hop hcall hi
      have hw' := List.mem_of_getElem? hw
      rw [h.demanded_iff hf' hc (mem_values_of_mem_valuesOf hwf hop
        (List.mem_append_right _ hv)), ← hc.name] at hd
      have hmulti : MultiDevice m' (g'.name, w) := by
        rw [← hcg.returns] at hw
        by_cases hkeeps : Keeps m.meshes.isSome f op
        · exact hd.of_linked (.returned hf' hg' (hc.keep op hop hkeeps) hcall' trivial hi hw)
        · obtain ⟨-, hgathers⟩ := not_not.mp hkeeps
          obtain ⟨pre, post, hops⟩ := List.append_of_mem hop
          obtain ⟨o, ho, -, -, r, rfl, -⟩ := hc.gather pre op post hops hanalyzed hgathers
          exact hd.of_linked (.returned hf' hg' ho hcall' trivial hi hw)
      rw [hcg.name, ← h.demanded_iff hg' hcg (hm.returns_mem hg hw')] at hmulti
      rw [FuncOp.Annotated, htype]
      exact h.signature hm hg hg' hcg (List.mem_append_right _ hw') hmulti
    · obtain ⟨i, hi⟩ := List.mem_iff_getElem?.mp hv
      obtain ⟨htype, hmem⟩ := hm.argument hf hg hop hcall hi
      rw [h.demanded_iff hf' hc (mem_values_of_mem_valuesOf hwf hop
        (List.mem_append_left _ hv)), ← hc.name] at hd
      have hmulti := hd.of_linked (.argument hf' hg' (hc.keep op hop fun hk => hgathers hk.2)
        hcall' trivial hi)
      rw [hcg.name, ← h.demanded_iff hg' hcg (entryScope_subset_values hmem)] at hmulti
      rw [FuncOp.Annotated, htype]
      exact h.signature hm hg hg' hcg (List.mem_append_left _ hmem) hmulti
    · -- the callee's argument is multi-device, and what is passed is not
      obtain ⟨i, hi⟩ := List.mem_iff_getElem?.mp hv
      obtain ⟨htype, hmem⟩ := hm.argument hf hg hop hcall hi
      obtain ⟨pre, post, hops⟩ := List.append_of_mem hop
      obtain ⟨o, ho, -, -, r, rfl, -⟩ := hc.gather pre op post hops hanalyzed hgathers
      have hi' : (op.mapOperands r).operands[i]? = some (r v) := by
        rw [Operation.mapOperands_operands, List.getElem?_map, hi]
        rfl
      rw [FuncOp.Annotated, htype] at hannotated
      have harg : MultiDevice m' (g'.name, .blockArg i) := by
        rw [hcg.name, ← h.demanded_iff hg' hcg (entryScope_subset_values hmem)]
        exact .annotated hannotated
      have hpassed := harg.of_linked_symm (.argument hf' hg' ho hcall' trivial hi')
      have hresult : resultOf op ∈ op.results := resultOf_mem hgathers.2.1
      refine hgathers.2.2.2 ((h.demanded_iff hf' hc
        (mem_values_of_mem_valuesOf hwf hop (List.mem_append_right _ hresult))).mpr ?_)
      rw [← hc.name]
      exact hpassed.of_linked (.through hf' ho hanalyzed trivial
        (List.mem_append_left _ (List.mem_of_getElem? hi')) (List.mem_append_right _ hresult))

/-- **A module that is made consistent is regular.** -/
theorem Consistent.regular (h : Consistent m') (hm : Verified m) (hp : Pairs m m') : Regular m where
  toSettled := h.settled hm hp
  rooted f hf v hv hannotated := by
    have hs := h.settled hm hp
    obtain ⟨f', hf', hc⟩ := hp.after f hf
    have hmulti := (h.demanded_iff hf' hc hv).mp (.annotated hannotated)
    obtain ⟨g', hg', op, hop, hdirection, w, hw, hlinked⟩ := hmulti
    obtain ⟨g, hg, hcg⟩ := hp.before g' hg'
    -- the source of the chain is annotated
    have hsource : PlaceAnnotated m' (g'.name, w) := hs.annotated_of_multiDevice hm hp
      ⟨g', hg', op, hop, hdirection, w, hw, .refl _⟩
    have hchain := (hs.eqvGen hm hp hlinked).2 hsource
    rw [hcg.name] at hchain
    rcases hcg.meshShard_cases hop hdirection with hop | ⟨hgather, -⟩
    · exact ⟨g, hg, op, hop, hdirection, w, hw, hchain⟩
    · cases hgather

end Module

/-- **When the pass makes annotations consistent.**  After the pass, the annotations of the
module tell which values are multi-device and the declared types are those of the values,
exactly when the demands of the module before the pass agree and its annotations come from
full-to-shard operations. -/
theorem cleanup_consistent_iff (m : VerifiedModule) {m' : Module}
    (h : runOnOperation m.toModule = some m') : Consistent m' ↔ Regular m.toModule := by
  have hp := pairs_of_runOnOperation m.verified h
  exact ⟨fun hc => hc.regular m.verified hp, fun hr => hr.consistent m.verified hp⟩

/-- The annotation of the values on a mesh. -/
def onMesh : RankedTensorType := ⟨[8, 8], "f32", some ⟨"mesh", []⟩⟩

/-- The type of the values on one device. -/
def onDevice : RankedTensorType := ⟨[8, 8], "f32", none⟩

/-- An argument is sharded, an operation on the mesh follows, and its result is gathered. -/
def shardThenGather : FuncOp where
  name := "main"
  functionType := ⟨[onDevice], [onDevice]⟩
  body :=
    { numArgs := 1
      ops :=
        [⟨0, .empty, [], [()]⟩,
         ⟨1, .meshShard .devices .fullToShard [1, 2] [-1, 1],
            [.blockArg 0, .opResult 0 0], [()]⟩,
         ⟨2, .empty, [], [()]⟩,
         ⟨3, .other "ttir.abs", [.opResult 1 0, .opResult 2 0], [()]⟩,
         ⟨4, .empty, [], [()]⟩,
         ⟨5, .meshShard .devices .shardToFull [1, 2] [-1, 1],
            [.opResult 3 0, .opResult 4 0], [()]⟩]
      returns := [.opResult 5 0] }
  type := fun v =>
    if v = .opResult 0 0 ∨ v = .opResult 1 0 ∨ v = .opResult 3 0 then onMesh else onDevice

/-- What is annotated, and the destination of the operation on the mesh. -/
abbrev OnMesh (v : Value) : Prop := (shardThenGather.type v).isAnnotated ∨ v = .opResult 2 0

/-- The constant is read by an operation on the mesh, and after it by one on one device. -/
def sharedConstant : FuncOp where
  name := "main"
  functionType := ⟨[onDevice], [onDevice]⟩
  body :=
    { numArgs := 1
      ops :=
        [⟨0, .empty, [], [()]⟩,
         ⟨1, .meshShard .devices .fullToShard [1, 2] [-1, 1],
            [.blockArg 0, .opResult 0 0], [()]⟩,
         ⟨2, .other "ttir.constant", [], [()]⟩,
         ⟨3, .empty, [], [()]⟩,
         ⟨4, .other "ttir.add", [.opResult 1 0, .opResult 2 0, .opResult 3 0], [()]⟩,
         ⟨5, .empty, [], [()]⟩,
         ⟨6, .meshShard .devices .shardToFull [1, 2] [-1, 1],
            [.opResult 4 0, .opResult 5 0], [()]⟩,
         ⟨7, .empty, [], [()]⟩,
         ⟨8, .other "ttir.add", [.opResult 6 0, .opResult 2 0, .opResult 7 0], [()]⟩]
      returns := [.opResult 8 0] }
  type := fun v =>
    if v = .opResult 0 0 ∨ v = .opResult 1 0 ∨ v = .opResult 3 0 ∨ v = .opResult 4 0 then onMesh
    else onDevice

/-- A module of one function without calls. -/
def singleFunction (f : FuncOp) (hwf : f.body.WellFormed)
    (hinputs : f.functionType.inputs = (entryScope f.body.numArgs).map f.type)
    (hresults : f.functionType.results = f.body.returns.map f.type)
    (hops : ∀ op ∈ f.body.ops, (op.name.direction.isSome → op.operands.length = 2 ∧
      op.numResults = 1) ∧ op.name ≠ .call f.name) : VerifiedModule where
  meshes := some [⟨"mesh", [1, 2]⟩]
  funcs := [f]
  verified :=
    { names := List.nodup_singleton _
      wellFormed := fun _ hg => List.mem_singleton.mp hg ▸ hwf
      inputs := fun _ hg => List.mem_singleton.mp hg ▸ hinputs
      results := fun _ hg => List.mem_singleton.mp hg ▸ hresults
      meshShard := fun _ hg op hop => by
        obtain rfl := List.mem_singleton.mp hg
        exact (hops op hop).1
      calls := fun _ hg _ hg' op hop hcall => by
        obtain rfl := List.mem_singleton.mp hg
        obtain rfl := List.mem_singleton.mp hg'
        exact absurd hcall (hops op hop).2 }

/-- The module of `shardThenGather`. -/
def shardThenGatherModule : VerifiedModule :=
  singleFunction shardThenGather ⟨by decide, by decide, by decide⟩ rfl rfl (by decide)

/-- The module of `sharedConstant`. -/
def sharedConstantModule : VerifiedModule :=
  singleFunction sharedConstant ⟨by decide, by decide, by decide⟩ rfl rfl (by decide)

theorem demanded_iff_of_forall {active : Prop} {ops : List Op}
    (h : ∀ op ∈ ops, op.name.analyzed → op.operands = []) :
    Demanded active type ops v ↔ (type v).isAnnotated := by
  refine ⟨fun hv => ?_, .annotated⟩
  cases hv with
  | annotated hv => exact hv
  | operand _ hop hanalyzed _ hread =>
    rw [h _ hop hanalyzed] at hread
    cases hread

/-- The operation on the mesh hands its annotation to its destination. -/
theorem demanded_shardThenGather {v : Value} :
    shardThenGatherModule.Demanded shardThenGather v ↔ OnMesh v := by
  have hclosed : ∀ op ∈ shardThenGather.body.ops, op.name.analyzed → OnMesh (resultOf op) →
      ∀ w ∈ op.operands, OnMesh w := by decide
  refine ⟨fun hv => ?_, ?_⟩
  · induction hv with
    | annotated hv => exact .inl hv
    | operand _ hop hanalyzed _ hread _ ih => exact hclosed _ hop hanalyzed ih _ hread
  · rintro (hv | rfl)
    · exact .annotated hv
    · exact .operand rfl (shardThenGather.body.ops.getElem_mem (show 3 < 6 by decide)) rfl
        (by decide) (by decide) (.annotated rfl)

theorem shardThenGather_regular : Regular shardThenGatherModule.toModule := by
  have hnot : ∀ op ∈ shardThenGather.body.ops, op.name.analyzed →
      ¬ shardThenGatherModule.Gathers shardThenGather op := by
    have hread : ∀ op ∈ shardThenGather.body.ops, op.name.analyzed →
        op.operands = [] ∨ OnMesh (resultOf op) := by decide
    intro op hop hanalyzed ⟨_, _, hoperands, hresult⟩
    exact (hread op hop hanalyzed).elim hoperands fun h =>
      hresult (demanded_shardThenGather.mpr h)
  -- what is checked of each operation
  have hagree : ∀ op ∈ shardThenGather.body.ops, op.name.analyzed → ∀ v ∈ valuesOf op,
      ∀ w ∈ valuesOf op, OnMesh v → OnMesh w := by decide
  have hshards : ∀ op ∈ shardThenGather.body.ops, op.name.direction = some .fullToShard →
      (∀ input ∈ op.operands[0]?, ¬ OnMesh input) ∧ ∀ v ∈ op.results, OnMesh v := by decide
  have hgathers : ∀ op ∈ shardThenGather.body.ops, op.name.direction = some .shardToFull →
      (∀ input ∈ op.operands[0]?, OnMesh input) ∧ ∀ v ∈ op.results, ¬ OnMesh v := by decide
  have hdestinations : ∀ op ∈ shardThenGather.body.ops, op.name.direction.isSome →
      ∀ output ∈ op.operands[1]?, ∀ v ∈ op.results, (OnMesh output ↔ OnMesh v) := by decide
  have hsignature : ∀ v ∈ entryScope shardThenGather.body.numArgs ++ shardThenGather.body.returns,
      OnMesh v → (shardThenGather.type v).isAnnotated := by decide
  have hvalues : ∀ v ∈ shardThenGather.values, (shardThenGather.type v).isAnnotated →
      v = .opResult 0 0 ∨ v = .opResult 1 0 ∨ v = .opResult 3 0 := by decide
  have hcalls : ∀ op ∈ shardThenGather.body.ops, op.name ≠ .call "main" := by decide
  simp only [← demanded_shardThenGather] at hagree hshards hgathers hdestinations hsignature
  -- the module has one function
  have hsingle : ∀ {P : FuncOp → Prop}, P shardThenGather →
      ∀ f ∈ shardThenGatherModule.funcs, P f := fun h f hf => List.mem_singleton.mp hf ▸ h
  have hmem : shardThenGather ∈ shardThenGatherModule.funcs := List.mem_singleton_self _
  refine
    { agree := hsingle fun op hop hanalyzed _ => hagree op hop hanalyzed
      gathered := hsingle fun pre op post hops hanalyzed hg =>
        absurd hg (hnot op (by rw [hops]; simp) hanalyzed)
      shards := hsingle hshards
      gathers := hsingle hgathers
      destinations := hsingle hdestinations
      signature := hsingle hsignature
      calls := hsingle (hsingle fun op hop hcall => absurd hcall (hcalls op hop))
      rooted := hsingle fun v hv hannotated => ?_ }
  have hop : shardThenGather.body.ops[1] ∈ shardThenGather.body.ops := List.getElem_mem _
  refine ⟨shardThenGather, hmem, _, hop, rfl, .opResult 1 0, by decide, ?_⟩
  rcases hvalues v hv hannotated with rfl | rfl | rfl
  · exact .symm _ _ (.rel _ _ (.destination hmem hop rfl rfl (by decide)))
  · exact .refl _
  · have habs : shardThenGather.body.ops[3] ∈ shardThenGather.body.ops := List.getElem_mem _
    exact .rel _ _ (.through hmem habs rfl (hnot _ habs rfl) (by decide) (by decide))

theorem shardThenGather_consistent :
    ∃ m', runOnOperation shardThenGatherModule.toModule = some m' ∧ Consistent m' :=
  ⟨_, rfl, (cleanup_consistent_iff shardThenGatherModule rfl).mpr shardThenGather_regular⟩

/-- The last addition, which gathers. -/
def lastAdd : Op :=
  ⟨8, .other "ttir.add", [.opResult 6 0, .opResult 2 0, .opResult 7 0], [()]⟩

/-- The last addition reads the constant, which an operation before it asks to be annotated. -/
theorem sharedConstant_not_settled : ¬ Settled sharedConstantModule.toModule := by
  intro hs
  have hmem : sharedConstant ∈ sharedConstantModule.funcs := List.mem_singleton_self _
  have hops : sharedConstant.body.ops = sharedConstant.body.ops.take 8 ++ lastAdd :: [] := rfl
  have hordered : Ordered (sharedConstant.body.ops.take 8 ++ lastAdd :: []) :=
    ordered_of_wellFormed (sharedConstantModule.verified.wellFormed sharedConstant hmem)
  -- without operations, nothing is demanded but what is annotated
  have hnil : ∀ {active : Prop} {v : Value}, Demanded active sharedConstant.type [] v →
      (sharedConstant.type v).isAnnotated := (demanded_iff_of_forall (by simp)).mp
  have hgathers : sharedConstantModule.Gathers sharedConstant lastAdd := by
    refine ⟨rfl, by decide, by decide, fun hd => ?_⟩
    have hresult : resultOf lastAdd ∈ lastAdd.results := by decide
    rw [hops, demanded_resultOf_iff hordered hresult] at hd
    exact absurd (hnil hd) (by decide)
  have hadd : sharedConstant.body.ops[4] ∈ sharedConstant.body.ops := List.getElem_mem _
  have hdemanded : sharedConstantModule.Demanded sharedConstant (.opResult 2 0) :=
    .operand rfl hadd rfl (by decide) (by decide) (.annotated rfl)
  obtain ⟨-, hoperands⟩ := hs.gathered sharedConstant hmem _ lastAdd [] hops rfl hgathers
  exact absurd (hnil (hoperands (.opResult 2 0) (by decide) hdemanded)) (by decide)

/-- **A constant that is shared is left inconsistent.**  The last addition was visited before
the constant was annotated, so that it reads an annotated value that nothing gathers. -/
theorem sharedConstant_not_consistent :
    ∃ m', runOnOperation sharedConstantModule.toModule = some m' ∧ ¬ Consistent m' := by
  have hsome : (runOnOperation sharedConstantModule.toModule).isSome := rfl
  obtain ⟨m', hm'⟩ := Option.isSome_iff_exists.mp hsome
  have hm := sharedConstantModule.verified
  exact ⟨m', hm', fun h => sharedConstant_not_settled
    (h.settled hm (pairs_of_runOnOperation hm hm'))⟩

end TensorAnnotationCleanup
