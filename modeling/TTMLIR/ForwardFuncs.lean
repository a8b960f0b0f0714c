/-
# Forward functions

`TTNNModifySignaturesForDylib` and `TTNNCreateInputGenerators` of `Passes.cpp` look for the functions
of a module that are not called in it.  The first one packs their arguments and results into tuples;
the second one adds functions that make inputs for them, and a main function that calls them.

* `modifySignature`, `createInputGenerators` : the translated code;
* `SameResults`, `sameResults_modifySignature` : a packed function computes what it computed;
* `Module.Keeps` : what the passes have to keep;
* `Module.keeps_iff_uncalled` : when they do.

Both ask for the uses of the function operation, whose results a use would be of; it has none, and
calls refer to it by its name.
-/
import TTMLIR.SSA
import TTMLIR.Fallible

namespace ForwardFuncs

open SSA Fallible

/-! ## Modules -/

/-- The types of values. -/
inductive Ty : Type where
  | tensor (encoding : String)
  | device
  | tuple (types : List Ty)
  | i32

/-- `isa<RankedTensorType>`. -/
def Ty.isTensor : Ty → Bool
  | tensor _ => true
  | _ => false

/-- The operations, with the symbols they refer to. -/
inductive OpName (κ : Type) : Type where
  | compute (name : κ)
  | getDevice
  | call (callee : String)
  | loadCached (callee : String)
  | getTupleElement (index : ℕ)
  | tuple
  | ones
  | constant

variable {κ : Type}

/-- The function that an operation calls. -/
def OpName.callee : OpName κ → Option String
  | call callee | loadCached callee => some callee
  | _ => none

/-- An operation of a function. -/
abbrev Op (κ : Type) : Type := Operation (OpName κ) Ty

/-- `isa<GetDeviceOp>`. -/
def isGetDevice (op : Op κ) : Bool :=
  match op.name with
  | .getDevice => true
  | _ => false

/-- `func.func`; a declaration has no body. -/
structure FuncOp (κ : Type) : Type where
  name : String
  inputs : List Ty
  results : List Ty
  body : Option (Block (OpName κ) Ty)

/-- The operations of the body. -/
def FuncOp.ops (f : FuncOp κ) : List (Op κ) :=
  (f.body.map Block.ops).getD []

/-- The value has the type. -/
def FuncOp.HasType (f : FuncOp κ) : Value → Ty → Prop
  | .blockArg n, ty => f.inputs[n]? = some ty
  | .opResult id k, ty => ∃ op ∈ f.ops, op.id = id ∧ op.resultTypes[k]? = some ty

/-- The body has the arguments of the signature, and devices have their type. -/
structure FuncOp.WellFormed (f : FuncOp κ) : Prop where
  block : ∀ b, f.body = some b → b.WellFormed ∧ b.numArgs = f.inputs.length
  getDevice : ∀ op ∈ f.ops, isGetDevice op → op.resultTypes = [.device]

/-- Every call has the types of the signature of a function with the name it refers to. -/
def CallsTyped (funcs : List (FuncOp κ)) : Prop :=
  ∀ f ∈ funcs, ∀ op ∈ f.ops, ∀ callee, op.name.callee = some callee →
    ∃ g ∈ funcs, g.name = callee ∧ List.Forall₂ f.HasType op.operands g.inputs ∧
      op.resultTypes = g.results

/-- A verified module. -/
structure Module (κ : Type) : Type where
  funcs : List (FuncOp κ)
  nodup : (funcs.map FuncOp.name).Nodup
  wellFormed : ∀ f ∈ funcs, f.WellFormed
  callsTyped : CallsTyped funcs

/-- Another function calls this one. -/
def Module.OthersCall (m : Module κ) (f : FuncOp κ) : Prop :=
  ∃ g ∈ m.funcs, g.name ≠ f.name ∧ ∃ op ∈ g.ops, op.name.callee = some f.name

/-! ## The translated code -/

/-- `getUses`: the uses of the results of the operation of a function, which has no results. -/
def getUses (_ : FuncOp κ) : List (Op κ) := []

section Pack

variable (f : FuncOp κ) (b : Block (OpName κ) Ty)

/-- The device operation of the body. -/
def getDeviceOp : Option (Op κ) := b.ops.find? isGetDevice

/-- The values that replace the arguments and the device. -/
def replacement : Value → Value
  | .blockArg n => .opResult (freshId b.ops + n) 0
  | .opResult id k =>
    if (getDeviceOp b).map Operation.id = some id then .blockArg 1 else .opResult id k

/-- The operations that take the elements of the tuple. -/
def unpackOps : List (Op κ) :=
  f.inputs.zipIdx.map fun p =>
    ⟨freshId b.ops + p.2, .getTupleElement p.2, [.blockArg 0], [p.1]⟩

/-- The operation that makes a tuple of the returned values. -/
def tupleOp : Op κ :=
  ⟨freshId b.ops + f.inputs.length, .tuple, b.returns.map (replacement b), [.tuple f.results]⟩

/-- The body of the packed function. -/
def packedBody : Block (OpName κ) Ty where
  numArgs := if (getDeviceOp b).isSome then 2 else 1
  ops := unpackOps f b ++ (b.ops.filter fun op => !isGetDevice op).map
    (Operation.mapOperands (replacement b)) ++ [tupleOp f b]
  returns := [.opResult (freshId b.ops + f.inputs.length) 0]

end Pack

/-- The loop of `TTNNModifySignaturesForDylib`, for one function. -/
def modifySignature (f : FuncOp κ) : Except String (FuncOp κ) :=
  if f.inputs.all Ty.isTensor = false then
    .error "Expected all inputs must be of type RankedTensorType"
  else match f.body with
    | none => .error "no entry block"
    | some b =>
      if 2 ≤ (b.ops.filter isGetDevice).length then
        .error "Only one device expected, but found more than one!"
      else .ok
        { f with
          inputs := .tuple f.inputs :: if (getDeviceOp b).isSome then [.device] else []
          results := [.tuple f.results]
          body := some (packedBody f b) }

/-- `TTNNModifySignaturesForDylib`. -/
def modifySignatures (funcs : List (FuncOp κ)) : Except String (List (FuncOp κ)) :=
  funcs.mapM fun f => if (getUses f).isEmpty then modifySignature f else .ok f

/-- The function `main` is renamed. -/
def renameMain (f : FuncOp κ) : FuncOp κ :=
  if f.name = "main" then { f with name := "_main" } else f

/-- `createInputGeneratorFunction`, with tensors of ones. -/
def createInputGeneratorFunction (f : FuncOp κ) : Except String (FuncOp κ) :=
  if f.inputs.all Ty.isTensor = false then .error "cast<Ty>() argument of incompatible type!"
  else .ok
    { name := "create_inputs_for_" ++ f.name
      inputs := []
      results := f.inputs
      body := some
        { numArgs := 0
          ops := f.inputs.zipIdx.map fun p => ⟨p.2, .ones, [], [p.1]⟩
          returns := (List.range f.inputs.length).map fun i => .opResult i 0 } }

/-- The calls of a generator and of its function. -/
def mainCalls (p : (FuncOp κ × FuncOp κ) × ℕ) : List (Op κ) :=
  [⟨2 * p.2, .call p.1.2.name, [], p.1.2.results⟩,
    ⟨2 * p.2 + 1, .call p.1.1.name,
      (List.range p.1.2.results.length).map (.opResult (2 * p.2)), p.1.1.results⟩]

/-- The function `main`. -/
def mainFuncOp (pairs : List (FuncOp κ × FuncOp κ)) : FuncOp κ where
  name := "main"
  inputs := []
  results := [.i32]
  body := some
    { numArgs := 0
      ops := pairs.zipIdx.flatMap mainCalls ++ [⟨2 * pairs.length, .constant, [], [.i32]⟩]
      returns := [.opResult (2 * pairs.length) 0] }

/-- `TTNNCreateInputGenerators`: the main function and the others.  Whether a function has uses is
asked, but `WalkResult::skip()` is no return. -/
def createInputGenerators (funcs : List (FuncOp κ)) :
    Except String (FuncOp κ × List (FuncOp κ)) := do
  let forwardFuncOps := funcs.map renameMain
  let inputGenFuncOps ← forwardFuncOps.mapM createInputGeneratorFunction
  return (mainFuncOp (forwardFuncOps.zip inputGenFuncOps), forwardFuncOps ++ inputGenFuncOps)

/-! ## What functions compute -/

/-- A datum: one of the tensors, a device, or a tuple. -/
inductive Datum (β : Type) : Type where
  | base (x : β)
  | device
  | tuple (xs : List (Datum β))

/-- What the operations compute, as far as the passes do not say. -/
structure Interp (κ β : Type) : Type where
  compute : κ → List (Datum β) → ℕ → Option (Datum β)
  call : String → List (Datum β) → ℕ → Option (Datum β)
  ones : Datum β
  zero : Datum β

variable {β : Type}

/-- An element of a tuple. -/
def Datum.element : List (Datum β) → ℕ → Option (Datum β)
  | [tuple xs], i => xs[i]?
  | _, _ => none

/-- The meaning of the operations. -/
def Interp.sem (I : Interp κ β) : Sem (OpName κ) (Datum β)
  | .compute name, vs, k => I.compute name vs k
  | .call callee, vs, k | .loadCached callee, vs, k => I.call callee vs k
  | .getDevice, _, _ => some .device
  | .getTupleElement i, vs, _ => Datum.element vs i
  | .tuple, vs, _ => some (.tuple vs)
  | .ones, _, _ => some I.ones
  | .constant, _, _ => some I.zero

theorem Interp.sem_of_isGetDevice (I : Interp κ β) {op : Op κ} (h : isGetDevice op = true)
    (vs : List (Datum β)) (k : ℕ) : I.sem op.name vs k = some .device := by
  unfold isGetDevice at h
  split at h
  · rename_i hname
    rw [hname]
    rfl
  · exact nomatch h

/-- **The packed function computes the same results** from the tuple of the arguments, for all values
that satisfy the equations of the operations. -/
def SameResults (f f' : FuncOp κ) : Prop :=
  ∃ b b', f.body = some b ∧ f'.body = some b' ∧
    ∀ (β : Type) (I : Interp κ β) (args : List (Datum β)) (ρ : Value → Datum β),
      args.length = f.inputs.length → (∀ n < args.length, args[n]? = some (ρ (.blockArg n))) →
      Solves I.sem b.ops ρ → b.eval I.sem args = some (b.returns.map ρ) ∧
        b'.eval I.sem (.tuple args :: f'.inputs.tail.map fun _ => .device)
          = some [.tuple (b.returns.map ρ)]

/-- The calls keep the types of their functions, and a function is left alone, or no other one calls
it and it computes the same results. -/
def Module.KeepsSignatures (m : Module κ) : Prop :=
  ∃ funcs', modifySignatures m.funcs = .ok funcs' ∧ CallsTyped funcs' ∧
    List.Forall₂ (fun f f' => f' = f ∨ ¬m.OthersCall f ∧ SameResults f f') m.funcs funcs'

/-- The main function calls exactly the functions that no other one calls, and all references are to
functions that exist, of different names. -/
def Module.CallsForward (m : Module κ) : Prop :=
  ∃ main others, createInputGenerators m.funcs = .ok (main, others) ∧
    ((main :: others).map FuncOp.name).Nodup ∧
    (∀ f ∈ m.funcs, (∃ op ∈ main.ops, op.name.callee = some (renameMain f).name) ↔
      ¬m.OthersCall f) ∧
    ∀ g ∈ main :: others, ∀ op ∈ g.ops, ∀ callee, op.name.callee = some callee →
      ∃ h ∈ main :: others, h.name = callee

/-- **What both passes have to keep.** -/
def Module.Keeps (m : Module κ) : Prop := m.KeepsSignatures ∧ m.CallsForward

/-- **No function calls another one**, or itself, and every function is one the pass can pack: it
takes tensors, has a body, and asks for one device at most.  The names are not those that the pass
gives, to the main function and to generators. -/
structure Module.Uncalled (m : Module κ) : Prop where
  names : ((m.funcs.map renameMain).map FuncOp.name).Nodup
  generators : ∀ f ∈ m.funcs, ∀ g ∈ m.funcs,
    (renameMain f).name ≠ "create_inputs_for_" ++ (renameMain g).name
  callee : ∀ f ∈ m.funcs, ∀ op ∈ f.ops, op.name.callee = none
  inputs : ∀ f ∈ m.funcs, f.inputs.all Ty.isTensor = true
  body : ∀ f ∈ m.funcs, f.body ≠ none
  device : ∀ f ∈ m.funcs, (f.ops.filter isGetDevice).length < 2

/-! ## Packed functions -/

variable {f f' : FuncOp κ}

/-- A packed function, and what the pass asserts of the function. -/
theorem modifySignature_eq_ok_iff : modifySignature f = .ok f' ↔
    f.inputs.all Ty.isTensor = true ∧ (f.ops.filter isGetDevice).length < 2 ∧
      ∃ b, f.body = some b ∧ f' =
        { f with
          inputs := .tuple f.inputs :: if (getDeviceOp b).isSome then [.device] else []
          results := [.tuple f.results]
          body := some (packedBody f b) } := by
  rw [modifySignature]
  cases hinputs : f.inputs.all Ty.isTensor with
  | false => exact iff_of_false (fun h => nomatch h) (fun h => nomatch h.1)
  | true =>
    cases hbody : f.body with
    | none => exact iff_of_false (fun h => nomatch h) (fun ⟨_, _, _, h, _⟩ => nomatch h)
    | some b =>
      have hops : f.ops = b.ops := by rw [FuncOp.ops, hbody]; rfl
      rw [if_neg (by decide), hops]
      simp only [Option.some_inj, exists_eq_left', true_and]
      by_cases hdevice : 2 ≤ (b.ops.filter isGetDevice).length
      · rw [if_pos hdevice]
        exact iff_of_false (fun h => nomatch h) (fun h => absurd h.1 (by omega))
      · rw [if_neg hdevice, Except.ok.injEq, and_iff_right (by omega), eq_comm]

section Packed

variable {f : FuncOp κ} {b : Block (OpName κ) Ty} (hb : b.WellFormed)
  (hargs : b.numArgs = f.inputs.length)
  (hdevice : (b.ops.filter isGetDevice).length < 2)

include hdevice in
/-- The device operation is the only one. -/
theorem getDeviceOp_of_mem {op : Operation (OpName κ) Ty} (hop : op ∈ b.ops)
    (hname : isGetDevice op = true) : getDeviceOp b = some op := by
  have hsome : (getDeviceOp b).isSome := List.find?_isSome.mpr ⟨op, hop, hname⟩
  obtain ⟨op', hop'⟩ := Option.isSome_iff_exists.mp hsome
  have hmem' : op' ∈ b.ops.filter isGetDevice :=
    List.mem_filter.mpr ⟨List.mem_of_find?_eq_some hop', List.find?_some hop'⟩
  have hmem : op ∈ b.ops.filter isGetDevice := List.mem_filter.mpr ⟨hop, hname⟩
  obtain ⟨a, ha⟩ := List.length_eq_one_iff.mp (show (b.ops.filter isGetDevice).length = 1 by
      have := List.length_pos_of_mem hmem
      omega)
  rw [ha, List.mem_singleton] at hmem hmem'
  rw [hop', hmem, hmem']

theorem mem_unpackOps {op : Operation (OpName κ) Ty} : op ∈ unpackOps f b ↔
    ∃ n ty, f.inputs[n]? = some ty ∧
      op = ⟨freshId b.ops + n, .getTupleElement n, [.blockArg 0], [ty]⟩ := by
  simp only [unpackOps, List.mem_map, List.mem_zipIdx_iff_getElem?, Prod.exists, eq_comm]
  exact ⟨fun ⟨ty, n, h⟩ => ⟨n, ty, h⟩, fun ⟨n, ty, h⟩ => ⟨ty, n, h⟩⟩

theorem map_id_unpackOps :
    (unpackOps f b).map Operation.id = List.range' (freshId b.ops) f.inputs.length := by
  have hids : (unpackOps f b).map Operation.id
      = (f.inputs.zipIdx.map Prod.snd).map (freshId b.ops + ·) := by
    rw [unpackOps, List.map_map, List.map_map]
    rfl
  rw [hids, List.zipIdx_map_snd, List.map_add_range', Nat.add_zero]

theorem scoped_of_forall {visible : List Value} {ops : List (Op κ)}
    (h : ∀ op ∈ ops, ∀ v ∈ op.operands, v ∈ visible) : Scoped visible ops := by
  induction ops generalizing visible with
  | nil => trivial
  | cons op ops ih =>
    refine ⟨h op List.mem_cons_self, ih fun o ho v hv => ?_⟩
    exact List.mem_append_left _ (h o (List.mem_cons_of_mem _ ho) v hv)

theorem mem_kept {op : Op κ} : op ∈ (b.ops.filter fun op => !isGetDevice op).map
    (Operation.mapOperands (replacement b)) ↔
      ∃ op' ∈ b.ops, isGetDevice op' = false ∧ op'.mapOperands (replacement b) = op := by
  simp [and_assoc]

include hb hargs hdevice in
/-- The replacement of a value is a value of the packed body, and an argument, an element of the tuple
or the result of a kept operation. -/
theorem replacement_mem {v : Value} (hv : v ∈ scope b.numArgs b.ops) :
    replacement b v ∈ entryScope (packedBody f b).numArgs ++
        (unpackOps f b).flatMap Operation.results ∨
      replacement b v = v ∧ ∃ a ∈ b.ops, isGetDevice a = false ∧ v ∈ a.results := by
  cases v with
  | blockArg n =>
    have hn : n < f.inputs.length := hargs ▸ blockArg_mem_scope.mp hv
    refine .inl (List.mem_append_right _ (List.mem_flatMap.mpr
      ⟨_, mem_unpackOps.mpr ⟨n, _, List.getElem?_eq_getElem hn, rfl⟩, ?_⟩))
    exact Operation.opResult_mem_results.mpr ⟨rfl, one_pos⟩
  | opResult id k =>
    obtain ⟨op, hop, rfl, hk⟩ := opResult_mem_scope.mp hv
    rw [replacement]
    cases hname : isGetDevice op with
    | true =>
      have hfind := getDeviceOp_of_mem hdevice hop hname
      left
      rw [hfind, Option.map_some, if_pos rfl]
      exact List.mem_append_left _ (by simp [packedBody, hfind])
    | false =>
      right
      rw [if_neg, eq_self, true_and]
      · exact ⟨op, hop, hname, Operation.opResult_mem_results.mpr ⟨rfl, hk⟩⟩
      · intro hid
        obtain ⟨d, hd, hid⟩ := Option.map_eq_some_iff.mp hid
        have heq := eq_of_id_eq hb.nodup (List.mem_of_find?_eq_some hd) hop hid
        rw [heq] at hd
        exact absurd (List.find?_some hd) (by simp [hname])

include hb hargs hdevice in
/-- **A packed body is well formed.** -/
theorem wellFormed_packedBody : (packedBody f b).WellFormed := by
  have hids : ∀ op ∈ b.ops, op.id < freshId b.ops := fun op hop => lt_freshId hop
  refine ⟨?_, ?_, ?_⟩
  · show ((unpackOps f b ++ _ ++ [tupleOp f b]).map Operation.id).Nodup
    rw [List.map_append, List.map_append, map_id_unpackOps, List.map_map]
    have hkept : (b.ops.filter fun op => !isGetDevice op).map
        (Operation.id ∘ Operation.mapOperands (replacement b))
          = (b.ops.filter fun op => !isGetDevice op).map Operation.id := rfl
    rw [hkept]
    have hnodup : ((b.ops.filter fun op => !isGetDevice op).map Operation.id).Nodup :=
      hb.nodup.sublist (List.filter_sublist.map _)
    have hlt : ∀ id ∈ (b.ops.filter fun op => !isGetDevice op).map Operation.id,
        id < freshId b.ops := by
      intro id hid
      obtain ⟨op, hop, rfl⟩ := List.mem_map.mp hid
      exact hids op (List.mem_of_mem_filter hop)
    rw [List.map_singleton]
    refine List.nodup_append.mpr ⟨List.nodup_append.mpr ⟨List.nodup_range', hnodup, ?_⟩,
      List.nodup_singleton _, ?_⟩
    · intro i hi j hj
      have := (List.mem_range'_1.mp hi).1
      have := hlt j hj
      omega
    · intro i hi j hj
      rw [List.mem_singleton.mp hj]
      show i ≠ freshId b.ops + f.inputs.length
      rcases List.mem_append.mp hi with hi | hi
      · have := (List.mem_range'_1.mp hi).2
        omega
      · have := hlt i hi
        omega
  · show Scoped _ (unpackOps f b ++ _ ++ [tupleOp f b])
    have hkept : Scoped (entryScope (packedBody f b).numArgs ++
        (unpackOps f b).flatMap Operation.results)
        ((b.ops.filter fun op => !isGetDevice op).map (Operation.mapOperands (replacement b))) := by
      refine scoped_filter_map hb.dominated hb.nodup ?_ fun op hop _ v hv => ?_
      · intro a _ v hv
        obtain ⟨k, -, rfl⟩ := Operation.mem_results.mp hv
        simp
      · rcases replacement_mem (f := f) hb hargs hdevice
            (hb.dominated.mem_of_mem_operands hop hv) with h | ⟨h, a, ha, hname, hva⟩
        · exact .inl h
        · exact .inr ⟨h, a, ha, by rw [hname]; rfl, hva⟩
    refine scoped_append.mpr ⟨scoped_append.mpr ⟨scoped_of_forall ?_, hkept⟩, ?_, trivial⟩
    · intro op hop v hv
      obtain ⟨n, ty, -, rfl⟩ := mem_unpackOps.mp hop
      rw [List.mem_singleton.mp hv, blockArg_mem_entryScope]
      show 0 < if (getDeviceOp b).isSome then 2 else 1
      split <;> decide
    · intro w hw
      obtain ⟨v, hv, rfl⟩ := List.mem_map.mp hw
      rw [List.flatMap_append, ← List.append_assoc]
      rcases replacement_mem (f := f) hb hargs hdevice (hb.returns_mem v hv) with
        h | ⟨h, a, ha, hname, hva⟩
      · exact List.mem_append_left _ h
      · rw [h]
        exact List.mem_append_right _ (List.mem_flatMap.mpr
          ⟨_, mem_kept.mpr ⟨a, ha, hname, rfl⟩, hva⟩)
  · intro v hv
    rw [List.mem_singleton.mp hv]
    refine opResult_mem_scope.mpr ⟨tupleOp f b, ?_, rfl, one_pos⟩
    exact List.mem_append_right _ (List.mem_singleton_self _)

/-- The values of a packed body. -/
def packedValue (f : FuncOp κ) (b : Block (OpName κ) Ty) (args : List (Datum β))
    (ρ : Value → Datum β) : Value → Datum β
  | .blockArg n => if n = 0 then .tuple args else .device
  | .opResult id k =>
    if id < freshId b.ops then ρ (.opResult id k)
    else if id < freshId b.ops + f.inputs.length then ρ (.blockArg (id - freshId b.ops))
    else .tuple (b.returns.map ρ)

variable {I : Interp κ β} {args : List (Datum β)} {ρ : Value → Datum β}

include hb hargs in
/-- The replacement of a value has its datum. -/
theorem packedValue_replacement (hsolves : Solves I.sem b.ops ρ) {v : Value}
    (hv : v ∈ scope b.numArgs b.ops) : packedValue f b args ρ (replacement b v) = ρ v := by
  cases v with
  | blockArg n =>
    have hn : n < f.inputs.length := hargs ▸ blockArg_mem_scope.mp hv
    rw [replacement, packedValue, if_neg (by omega), if_pos (by omega), Nat.add_sub_cancel_left]
  | opResult id k =>
    obtain ⟨op, hop, rfl, hk⟩ := opResult_mem_scope.mp hv
    rw [replacement]
    split
    · rename_i hid
      obtain ⟨d, hd, hid⟩ := Option.map_eq_some_iff.mp hid
      have heq := eq_of_id_eq hb.nodup (List.mem_of_find?_eq_some hd) hop hid
      have hdatum := hsolves op hop k hk
      rw [I.sem_of_isGetDevice (heq ▸ List.find?_some hd)] at hdatum
      exact Option.some.inj hdatum
    · rw [packedValue, if_pos (lt_freshId hop)]

include hb hargs in
/-- The values of a packed body satisfy the equations of its operations. -/
theorem solves_packedBody (hlen : args.length = f.inputs.length)
    (hvalues : ∀ n < args.length, args[n]? = some (ρ (.blockArg n)))
    (hsolves : Solves I.sem b.ops ρ) :
    Solves I.sem (packedBody f b).ops (packedValue f b args ρ) := by
  have hmap : ∀ vs : List Value, (∀ v ∈ vs, v ∈ scope b.numArgs b.ops) →
      (vs.map (replacement b)).map (packedValue f b args ρ) = vs.map ρ := by
    intro vs hvs
    rw [List.map_map]
    exact List.map_congr_left fun v hv => packedValue_replacement hb hargs hsolves (hvs v hv)
  intro op hop k hk
  rcases List.mem_append.mp hop with hop | hop
  · rcases List.mem_append.mp hop with hop | hop
    · obtain ⟨n, ty, hn, rfl⟩ := mem_unpackOps.mp hop
      have hlt : n < f.inputs.length := (List.getElem?_eq_some_iff.mp hn).1
      show args[n]? = some (packedValue f b args ρ (.opResult (freshId b.ops + n) k))
      rw [packedValue, if_neg (by omega), if_pos (by omega), Nat.add_sub_cancel_left,
        hvalues n (by omega)]
    · obtain ⟨op', hop', -, rfl⟩ := mem_kept.mp hop
      rw [Operation.mapOperands_operands, hmap _ fun v hv =>
        hb.dominated.mem_of_mem_operands hop' hv, Operation.mapOperands_id, packedValue,
        if_pos (lt_freshId hop')]
      exact hsolves op' hop' k hk
  · rw [List.mem_singleton.mp hop]
    show some (Datum.tuple ((b.returns.map (replacement b)).map _)) =
      some (packedValue f b args ρ (.opResult (freshId b.ops + f.inputs.length) k))
    rw [hmap _ hb.returns_mem, packedValue, if_neg (by omega), if_neg (by omega)]

end Packed

/-- **Packing a function keeps its results.** -/
theorem sameResults_modifySignature (hwf : f.WellFormed)
    (h : modifySignature f = .ok f') : SameResults f f' := by
  obtain ⟨-, hdevice, b, hbody, rfl⟩ := modifySignature_eq_ok_iff.mp h
  obtain ⟨hb, hargs⟩ := hwf.block b hbody
  rw [FuncOp.ops, hbody] at hdevice
  refine ⟨b, _, hbody, rfl, fun β I args ρ hlen hvalues hsolves => ⟨?_, ?_⟩⟩
  · exact eval_eq_of_solves hb (fun n hn => hvalues n (by omega)) hsolves
  · have hpacked := solves_packedBody hb hargs hlen hvalues hsolves
    rw [eval_eq_of_solves (wellFormed_packedBody hb hargs hdevice) ?_ hpacked]
    · have hreturn : packedValue f b args ρ (.opResult (freshId b.ops + f.inputs.length) 0)
          = .tuple (b.returns.map ρ) := by
        rw [packedValue, if_neg (by omega), if_neg (by omega)]
      rw [packedBody, List.map_singleton, hreturn]
    · intro n hn
      simp only [packedBody, List.tail_cons] at hn ⊢
      split at hn
      · rename_i hsome
        rw [if_pos hsome]
        interval_cases n <;> rfl
      · obtain rfl : n = 0 := by omega
        rfl

/-! ## Calls -/

/-- A value of the type of a tensor is not replaced by a tuple. -/
theorem not_hasType_tuple (hwf : f.WellFormed) (h : modifySignature f = .ok f')
    {v : Value} {encoding : String} {types : List Ty} (hv : f.HasType v (.tensor encoding)) :
    ∀ b, f.body = some b → ¬f'.HasType (replacement b v) (.tuple types) := by
  obtain ⟨-, -, b, hbody, rfl⟩ := modifySignature_eq_ok_iff.mp h
  have hops : f.ops = b.ops := by rw [FuncOp.ops, hbody]; rfl
  rintro _ hbody' htuple
  obtain rfl := Option.some.inj (hbody.symm.trans hbody')
  obtain ⟨hb, hargs⟩ := hwf.block b hbody
  cases v with
  | blockArg n =>
    have hn : n < f.inputs.length := (List.getElem?_eq_some_iff.mp hv).1
    obtain ⟨op, hop, hid, htype⟩ := htuple
    rcases List.mem_append.mp hop with hop | hop
    · rcases List.mem_append.mp hop with hop | hop
      · obtain ⟨n', ty, hn', rfl⟩ := mem_unpackOps.mp hop
        obtain rfl : n' = n := Nat.add_left_cancel hid
        obtain rfl := Option.some.inj (hn'.symm.trans hv)
        exact nomatch htype
      · obtain ⟨op', hop', -, rfl⟩ := mem_kept.mp hop
        have := lt_freshId hop'
        rw [Operation.mapOperands_id] at hid
        omega
    · rw [List.mem_singleton.mp hop] at hid
      exact absurd (Nat.add_left_cancel hid) hn.ne'
  | opResult id k =>
    obtain ⟨o, ho, rfl, hty⟩ := hv
    rw [hops] at ho
    by_cases hdevice : (getDeviceOp b).map Operation.id = some o.id
    · rw [replacement, if_pos hdevice] at htuple
      change (_ :: if (getDeviceOp b).isSome then [Ty.device] else [])[1]? = _ at htuple
      rw [List.getElem?_cons_succ] at htuple
      split at htuple <;> cases htuple
    · rw [replacement, if_neg hdevice] at htuple
      obtain ⟨op, hop, hid, htype⟩ := htuple
      have hlt := lt_freshId ho
      rcases List.mem_append.mp hop with hop | hop
      · rcases List.mem_append.mp hop with hop | hop
        · obtain ⟨n', ty, -, rfl⟩ := mem_unpackOps.mp hop
          simp only at hid
          omega
        · obtain ⟨op', hop', -, rfl⟩ := mem_kept.mp hop
          obtain rfl := eq_of_id_eq hb.nodup hop' ho hid
          exact nomatch htype.symm.trans hty
      · rw [List.mem_singleton.mp hop] at hid
        simp only [tupleOp] at hid
        omega

theorem modifySignatures_eq (funcs : List (FuncOp κ)) :
    modifySignatures funcs = funcs.mapM modifySignature := rfl

/-- The operations of a packed function call what those of the function call. -/
theorem callee_of_mem_packed (h : modifySignature f = .ok f')
    (hcallee : ∀ op ∈ f.ops, op.name.callee = none) : ∀ op ∈ f'.ops, op.name.callee = none := by
  obtain ⟨-, -, b, hbody, rfl⟩ := modifySignature_eq_ok_iff.mp h
  rw [FuncOp.ops, hbody] at hcallee
  intro op hop
  rcases List.mem_append.mp hop with hop | hop
  · rcases List.mem_append.mp hop with hop | hop
    · obtain ⟨_, _, -, rfl⟩ := mem_unpackOps.mp hop
      rfl
    · obtain ⟨op', hop', -, rfl⟩ := mem_kept.mp hop
      exact hcallee op' hop'
  · rw [List.mem_singleton.mp hop]
    rfl

theorem exists_mapM_eq_ok {γ δ : Type} {f : γ → Except String δ} {l : List γ}
    (h : ∀ a ∈ l, ∃ c, f a = .ok c) : ∃ l', l.mapM f = .ok l' := by
  induction l with
  | nil => exact ⟨[], rfl⟩
  | cons a l ih =>
    obtain ⟨c, hc⟩ := h a List.mem_cons_self
    obtain ⟨l', hl'⟩ := ih fun a' ha' => h a' (List.mem_cons_of_mem _ ha')
    exact ⟨c :: l', by rw [List.mapM_cons, hc, hl']; rfl⟩

/-- **After packing no call has the types of its callee**, whose first argument is a tuple. -/
theorem callee_eq_none {m : Module κ} {funcs' : List (FuncOp κ)}
    (h : modifySignatures m.funcs = .ok funcs') (htyped : CallsTyped funcs') :
    ∀ f ∈ m.funcs, ∀ op ∈ f.ops, op.name.callee = none := by
  have hall := forall₂_of_mapM_eq_ok (modifySignatures_eq m.funcs ▸ h)
  intro f hf op hop
  by_contra hne
  obtain ⟨callee, hcallee⟩ := Option.ne_none_iff_exists'.mp hne
  obtain ⟨g, hg, -, hoperands, -⟩ := m.callsTyped f hf op hop callee hcallee
  obtain ⟨f', hf', hpack⟩ := exists_of_forall₂ hall hf
  obtain ⟨_, -, hgpack⟩ := exists_of_forall₂ hall hg
  have htensors := (modifySignature_eq_ok_iff.mp hgpack).1
  obtain ⟨-, -, b, hbody, hf'eq⟩ := modifySignature_eq_ok_iff.mp hpack
  have hkept : op.mapOperands (replacement b) ∈ f'.ops := by
    rw [FuncOp.ops, hbody] at hop
    rw [hf'eq]
    apply List.mem_append_left
    apply List.mem_append_right
    refine mem_kept.mpr ⟨op, hop, ?_, rfl⟩
    unfold isGetDevice
    split
    · rename_i hname
      rw [hname] at hcallee
      exact nomatch hcallee
    · rfl
  obtain ⟨g', hg', -, hoperands', -⟩ := htyped f' hf' _ hkept callee hcallee
  obtain ⟨g₂, -, hpack₂⟩ := exists_of_forall₂ hall.flip hg'
  obtain ⟨-, -, b₂, -, rfl⟩ := modifySignature_eq_ok_iff.mp hpack₂
  rw [Operation.mapOperands_operands, List.forall₂_map_left_iff] at hoperands'
  generalize op.operands = operands at hoperands hoperands'
  generalize g.inputs = inputs at hoperands htensors
  cases hoperands' with
  | cons htuple _ =>
    cases hoperands with
    | @cons v ty _ _ htensor _ =>
      rw [List.all_cons, Bool.and_eq_true] at htensors
      cases ty with
      | tensor encoding => exact not_hasType_tuple (m.wellFormed f hf) hpack htensor b hbody htuple
      | device | tuple types | i32 => exact nomatch htensors.1

/-! ## Modules -/

theorem mem_main_ops {pairs : List (FuncOp κ × FuncOp κ)} {op : Op κ} {callee : String}
    (hop : op ∈ (mainFuncOp pairs).ops) (hcallee : op.name.callee = some callee) :
    ∃ p ∈ pairs, callee = p.2.name ∨ callee = p.1.name := by
  rcases List.mem_append.mp hop with hop | hop
  · obtain ⟨p, hp, hop⟩ := List.mem_flatMap.mp hop
    refine ⟨p.1, List.fst_mem_of_mem_zipIdx hp, ?_⟩
    rcases List.mem_cons.mp hop with rfl | hop
    · exact .inl (Option.some.inj hcallee).symm
    · rw [List.mem_singleton.mp hop] at hcallee
      exact .inr (Option.some.inj hcallee).symm
  · rw [List.mem_singleton.mp hop] at hcallee
    exact nomatch hcallee

theorem exists_pair {forward gens : List (FuncOp κ)}
    (h : forward.mapM createInputGeneratorFunction = .ok gens) {f : FuncOp κ} (hf : f ∈ forward) :
    ∃ g, (f, g) ∈ forward.zip gens := by
  have hlen := (forall₂_of_mapM_eq_ok h).length_eq
  obtain ⟨i, hi, rfl⟩ := List.getElem_of_mem hf
  refine ⟨gens[i], List.mem_iff_getElem.mpr ⟨i, by simpa [← hlen] using hi, ?_⟩⟩
  rw [List.getElem_zip]

theorem ops_renameMain (f : FuncOp κ) : (renameMain f).ops = f.ops := by
  rw [renameMain]
  split <;> rfl

theorem inputs_renameMain (f : FuncOp κ) : (renameMain f).inputs = f.inputs := by
  rw [renameMain]
  split <;> rfl

theorem name_renameMain_ne (f : FuncOp κ) : (renameMain f).name ≠ "main" := by
  by_cases h : f.name = "main"
  · rw [renameMain, if_pos h]
    exact fun hname : "_main" = "main" => absurd hname (by decide)
  · rwa [renameMain, if_neg h]

/-- The generators are named after their functions. -/
theorem map_name_of_mapM {forward gens : List (FuncOp κ)}
    (h : forward.mapM createInputGeneratorFunction = .ok gens) :
    gens.map FuncOp.name = (forward.map FuncOp.name).map ("create_inputs_for_" ++ ·) := by
  have hall := forall₂_of_mapM_eq_ok h
  clear h
  induction hall with
  | nil => rfl
  | cons hgen _ ih =>
    rw [createInputGeneratorFunction] at hgen
    split at hgen
    · exact nomatch hgen
    · obtain rfl := Except.ok.inj hgen
      exact congrArg _ ih

/-- **When the names after the pass differ.** -/
theorem nodup_names_iff {forward gens : List (FuncOp κ)} {main : FuncOp κ}
    (hmain : main.name = "main") (hforward : ∀ f ∈ forward, f.name ≠ "main")
    (h : forward.mapM createInputGeneratorFunction = .ok gens) :
    ((main :: (forward ++ gens)).map FuncOp.name).Nodup ↔ (forward.map FuncOp.name).Nodup ∧
      ∀ f ∈ forward, ∀ g ∈ forward, f.name ≠ "create_inputs_for_" ++ g.name := by
  have hinjective : Function.Injective ("create_inputs_for_" ++ · : String → String) :=
    fun _ _ => String.append_right_inj _ |>.mp
  rw [List.map_cons, hmain, List.nodup_cons, List.map_append, map_name_of_mapM h,
    List.nodup_append]
  constructor
  · rintro ⟨-, hnodup, -, hne⟩
    exact ⟨hnodup, fun f hf g hg => hne _ (List.mem_map_of_mem hf) _
      (List.mem_map_of_mem (List.mem_map_of_mem hg))⟩
  · rintro ⟨hnodup, hne⟩
    refine ⟨fun hmem => ?_, hnodup, hnodup.map hinjective, ?_⟩
    · rcases List.mem_append.mp hmem with hmem | hmem
      · obtain ⟨f, hf, hname⟩ := List.mem_map.mp hmem
        exact hforward f hf hname
      · obtain ⟨name, -, hname⟩ := List.mem_map.mp hmem
        have hlength := congrArg String.length hname
        rw [String.length_append] at hlength
        exact absurd hlength (Nat.ne_of_gt (Nat.lt_add_right _ (by decide)))
    · intro _ hname _ hgenerator
      obtain ⟨f, hf, rfl⟩ := List.mem_map.mp hname
      rw [List.map_map] at hgenerator
      obtain ⟨g, hg, rfl⟩ := List.mem_map.mp hgenerator
      exact hne f hf g hg

/-- The main function of a module without calls. -/
theorem callsForward_of_uncalled {m : Module κ} (h : m.Uncalled) : m.CallsForward := by
  have hgen : ∀ f ∈ m.funcs.map renameMain, ∃ g, createInputGeneratorFunction f = .ok g := by
    intro f' hf'
    obtain ⟨f, hf, rfl⟩ := List.mem_map.mp hf'
    rw [createInputGeneratorFunction, inputs_renameMain, h.inputs f hf]
    exact ⟨_, rfl⟩
  obtain ⟨gens, hgens⟩ := exists_mapM_eq_ok hgen
  refine ⟨_, _, bind_eq_ok.mpr ⟨gens, hgens, rfl⟩, ?_, fun f hf => ?_, ?_⟩
  · refine (nodup_names_iff rfl ?_ hgens).mpr ⟨h.names, ?_⟩
    · exact List.forall_mem_map.mpr fun f _ => name_renameMain_ne f
    · exact List.forall_mem_map.mpr fun f hf => List.forall_mem_map.mpr (h.generators f hf)
  · refine iff_of_true ?_ fun ⟨g, hg, _, op, hop, hcallee⟩ => ?_
    · obtain ⟨g, hg⟩ := exists_pair hgens (List.mem_map_of_mem hf)
      obtain ⟨i, hi⟩ := List.mem_iff_getElem?.mp hg
      refine ⟨_, List.mem_append_left _ (List.mem_flatMap.mpr
        ⟨((renameMain f, g), i), List.mem_zipIdx_iff_getElem?.mpr hi,
          List.mem_cons_of_mem _ (List.mem_singleton_self _)⟩), rfl⟩
    · rw [h.callee g hg op hop] at hcallee
      exact nomatch hcallee
  · intro g hg op hop callee hcallee
    rcases List.mem_cons.mp hg with rfl | hg
    · obtain ⟨p, hp, hname⟩ := mem_main_ops hop hcallee
      have hmem := List.of_mem_zip hp
      rcases hname with rfl | rfl
      · exact ⟨p.2, List.mem_cons_of_mem _ (List.mem_append_right _ hmem.2), rfl⟩
      · exact ⟨p.1, List.mem_cons_of_mem _ (List.mem_append_left _ hmem.1), rfl⟩
    · exfalso
      rcases List.mem_append.mp hg with hg | hg
      · obtain ⟨f, hf, rfl⟩ := List.mem_map.mp hg
        rw [ops_renameMain] at hop
        rw [h.callee f hf op hop] at hcallee
        exact nomatch hcallee
      · obtain ⟨f, -, hf⟩ := exists_of_forall₂ (forall₂_of_mapM_eq_ok hgens).flip hg
        rw [createInputGeneratorFunction] at hf
        split at hf
        · exact nomatch hf
        · obtain rfl := Except.ok.inj hf
          obtain ⟨p, -, rfl⟩ := List.mem_map.mp hop
          exact nomatch hcallee

/-- **When both passes keep the module**: when no function calls another one. -/
theorem Module.keeps_iff_uncalled (m : Module κ) : m.Keeps ↔ m.Uncalled := by
  constructor
  · rintro ⟨⟨funcs', hfuncs, htyped, -⟩, main, others, hcreate, hnodup, -⟩
    have hall := forall₂_of_mapM_eq_ok (modifySignatures_eq m.funcs ▸ hfuncs)
    obtain ⟨gens, hgens, hothers⟩ := bind_eq_ok.mp hcreate
    obtain ⟨rfl, rfl⟩ := Prod.mk.inj (Except.ok.inj hothers)
    obtain ⟨hnames, hgenerators⟩ := (nodup_names_iff rfl
      (List.forall_mem_map.mpr fun f _ => name_renameMain_ne f) hgens).mp hnodup
    have hpack : ∀ f ∈ m.funcs, ∃ f', modifySignature f = .ok f' := fun f hf =>
      (exists_of_forall₂ hall hf).imp fun _ h => h.2
    refine ⟨hnames, fun f hf g hg => hgenerators _ (List.mem_map_of_mem hf) _
      (List.mem_map_of_mem hg), callee_eq_none hfuncs htyped, fun f hf => ?_, fun f hf => ?_,
      fun f hf => ?_⟩
    all_goals
      obtain ⟨f', hf'⟩ := hpack f hf
      obtain ⟨htensors, hdevice, b, hbody, -⟩ := modifySignature_eq_ok_iff.mp hf'
    · exact htensors
    · rw [hbody]
      exact Option.some_ne_none b
    · exact hdevice
  · intro h
    have hpack : ∀ f ∈ m.funcs, ∃ f', modifySignature f = .ok f' := by
      intro f hf
      obtain ⟨b, hb⟩ := Option.ne_none_iff_exists'.mp (h.body f hf)
      exact ⟨_, modifySignature_eq_ok_iff.mpr ⟨h.inputs f hf, h.device f hf, b, hb, rfl⟩⟩
    obtain ⟨funcs', hfuncs⟩ := exists_mapM_eq_ok hpack
    have hall := forall₂_of_mapM_eq_ok hfuncs
    refine ⟨⟨funcs', hfuncs, ?_, ?_⟩, callsForward_of_uncalled h⟩
    · intro f' hf' op hop callee hcallee
      obtain ⟨f, hf, hf''⟩ := exists_of_forall₂ hall.flip hf'
      rw [callee_of_mem_packed hf'' (h.callee f hf) op hop] at hcallee
      exact nomatch hcallee
    · refine ((List.forall₂_and_left _ _).mpr ⟨fun _ hf => hf, hall⟩).imp fun f f' h' =>
        .inr ⟨?_, sameResults_modifySignature (m.wellFormed f h'.1) h'.2⟩
      rintro ⟨g, hg, -, op, hop, hcallee⟩
      rw [h.callee g hg op hop] at hcallee
      exact nomatch hcallee

/-- A body that calls a function on its argument. -/
def callingBody : Block (OpName Unit) Ty :=
  ⟨1, [⟨0, .call "g", [.blockArg 0], [.tensor "t"]⟩], [.opResult 0 0]⟩

/-- A function that returns its argument. -/
def identity : FuncOp Unit := ⟨"g", [.tensor "t"], [.tensor "t"], some ⟨1, [], [.blockArg 0]⟩⟩

/-- A function that calls it. -/
def caller : FuncOp Unit := ⟨"f", [.tensor "t"], [.tensor "t"], some callingBody⟩

theorem wellFormed_identity : identity.WellFormed where
  block _ h := by
    obtain rfl := Option.some.inj h
    exact ⟨⟨List.nodup_nil, trivial, by simp [scope]⟩, rfl⟩
  getDevice _ hop := absurd hop List.not_mem_nil

theorem wellFormed_caller : caller.WellFormed where
  block _ h := by
    obtain rfl := Option.some.inj h
    exact ⟨⟨List.nodup_singleton _, ⟨by simp [callingBody], trivial⟩, by
      simp [callingBody, scope, Operation.results, Operation.numResults]⟩, rfl⟩
  getDevice op hop h := by
    rw [List.mem_singleton.mp hop] at h
    exact absurd h Bool.false_ne_true

theorem callsTyped_pair : CallsTyped [caller, identity] := by
  intro f hf op hop callee hcallee
  rcases List.mem_cons.mp hf with rfl | hf
  · obtain rfl := List.mem_singleton.mp hop
    obtain rfl := Option.some.inj hcallee
    exact ⟨identity, by simp, rfl, .cons rfl .nil, rfl⟩
  · rw [List.mem_singleton.mp hf] at hop
    exact absurd hop List.not_mem_nil

theorem nodup_callModule : ([caller, identity].map FuncOp.name).Nodup := by decide

/-- A module with one call. -/
def callModule : Module Unit where
  funcs := [caller, identity]
  nodup := nodup_callModule
  wellFormed := List.forall_mem_cons.mpr
    ⟨wellFormed_caller, List.forall_mem_singleton.mpr wellFormed_identity⟩
  callsTyped := callsTyped_pair

/-- **Its called function is packed.** -/
theorem callModule_not_keeps : ¬callModule.Keeps := by
  rintro ⟨⟨funcs', hfuncs, htyped, -⟩, -⟩
  have hnone := callee_eq_none hfuncs htyped caller List.mem_cons_self _ (List.mem_singleton_self _)
  exact nomatch hnone

end ForwardFuncs
