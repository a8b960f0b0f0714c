/-
# Hoisting operations to the CPU module

`TTIRHoistTransform` replaces every tagged operation by a call.  The callee is named after
the operation's name and the shapes of its operands; the first operation of a name becomes
the body of the callee, later ones only call it.  Tensors are converted to `f32` before the
call and back after it.  The callee returns nothing: the caller finds the result where the
last argument was.

* `generateHoistedFuncName`, `hoistOperationToFunction`, `hoistTransform` : the translated
  code;
* `Semantics` : a meaning of operations and of `to_layout` conversions;
* `Preserves` : every call has the types of its callee and computes what the operation
  computed;
* `Reached` : the functions a run has made, as first operations of their names;
* `preserves_iff` : hoisting preserves meaning, up to computing in `f32`, exactly when
  operations of one generated name agree in everything their meaning depends on.

The name leaves out the attributes, the element and result types, and which operands are
the same value.
-/
import Mathlib

namespace HoistCPUOps

/-! ## Operations -/

/-- Element types of tensors. -/
inductive ElementType : Type where
  | float64 | float32 | float16 | bfloat16
  | integer (width : ℕ) (isUnsigned : Bool)
  deriving DecidableEq, Repr

/-- `RankedTensorType`. -/
structure RankedTensorType : Type where
  shape : List ℤ
  elementType : ElementType
  encoding : Option String
  deriving DecidableEq, Repr

/-- The type of a value. -/
inductive ValueType : Type where
  | tensor (type : RankedTensorType)
  | other (name : String)
  deriving DecidableEq, Repr

/-- A use of a value. -/
structure Operand : Type where
  value : ℕ
  type : ValueType
  deriving DecidableEq, Repr

/-- An operation with results; `attributes` is its attribute dictionary with its regions, and
`destination` says that its last operand is the destination of its last result.  A value has
one type. -/
structure Operation (α : Type) : Type where
  name : String
  operands : List Operand
  resultTypes : List ValueType
  attributes : α
  shouldHoist : Bool
  destination : Bool
  results_ne : resultTypes ≠ []
  type_unique : ∀ a ∈ operands, ∀ b ∈ operands, a.value = b.value → a.type = b.type

variable {α : Type}

/-! ## The translated code -/

/-- `getOperandTensorRanks`. -/
def getOperandTensorRanks (op : Operation α) : List ℕ :=
  op.operands.filterMap fun operand =>
    match operand.type with
    | .tensor type => some type.shape.length
    | .other _ => none

/-- `generateHoistedFuncName`. -/
def generateHoistedFuncName (op : Operation α) : String :=
  let shapes := op.operands.map fun operand =>
    match operand.type with
    | .tensor type => "_" ++ String.intercalate "x" (type.shape.map toString)
    | .other _ => ""
  let uniqueName := "hoisted_" ++ op.name ++ String.join shapes ++ "_func"
  uniqueName.map fun c => if c = '.' then '_' else c

/-- The `f32` version of a type in the signature of the callee. -/
def hoistedType : ValueType → ValueType
  | .tensor type =>
    if type.elementType ≠ .float32 then .tensor ⟨type.shape, .float32, type.encoding⟩
    else .tensor type
  | type => type

/-- The type of the operand of the call: `ttir.empty` is built without the encoding. -/
def convertedType : ValueType → ValueType
  | .tensor type =>
    if type.elementType ≠ .float32 then .tensor ⟨type.shape, .float32, none⟩
    else .tensor type
  | type => type

/-- The type of a final result, from the type of the replaced result and of the result of
the call. -/
def finalType : ValueType → ValueType → ValueType
  | .tensor type, callType =>
    if type.elementType ≠ .float32 then .tensor ⟨type.shape, type.elementType, none⟩
    else callType
  | _, callType => callType

/-- A function declaration of the device module. -/
structure LocalFunc : Type where
  name : String
  operandTypes : List ValueType
  resultTypes : List ValueType
  deriving DecidableEq, Repr

/-- The body of a hoisted function: one operation that reads block arguments. -/
structure HoistedBody (α : Type) : Type where
  opName : String
  attributes : α
  destination : Bool
  reads : List ℕ
  argTypes : List ValueType
  resultTypes : List ValueType
  argRanks : List ℕ

/-- A function of the CPU module; those that were there before have no body here. -/
structure CpuFunc (α : Type) : Type where
  name : String
  body : Option (HoistedBody α)

/-- `mapping.map` in a loop over the operands: a value is mapped to the last block
argument it was an operand for. -/
def mappedTo (operands : List Operand) (value : ℕ) : ℕ :=
  operands.zipIdx.foldl (fun arg p => if p.1.value = value then p.2 else arg) 0

/-- The declaration in the device module. -/
def localFuncOf (op : Operation α) : LocalFunc where
  name := generateHoistedFuncName op ++ "_decl"
  operandTypes := op.operands.map fun operand => hoistedType operand.type
  resultTypes := op.resultTypes.map hoistedType

/-- The function in the CPU module, with the cloned operation. -/
def hoistedFuncOf (op : Operation α) : CpuFunc α where
  name := generateHoistedFuncName op
  body := some {
    opName := op.name
    attributes := op.attributes
    destination := op.destination
    reads := op.operands.map fun operand => mappedTo op.operands operand.value
    argTypes := op.operands.map fun operand => hoistedType operand.type
    resultTypes := op.resultTypes.map hoistedType
    argRanks := getOperandTensorRanks op }

/-- A call that replaces an operation. -/
structure HoistedCall (α : Type) : Type where
  op : Operation α
  localFunc : LocalFunc

/-- The two modules the pass works on. -/
structure State (α : Type) : Type where
  localFuncs : List LocalFunc
  cpuFuncs : List (CpuFunc α)
  calls : List (HoistedCall α)

/-- `sourceModule.lookupSymbol`. -/
def lookupSymbol (localFuncs : List LocalFunc) (name : String) : Option LocalFunc :=
  localFuncs.find? fun f => f.name = name

/-- `hoistOperationToFunction`. -/
def hoistOperationToFunction (state : State α) (op : Operation α) : State α :=
  match lookupSymbol state.localFuncs (generateHoistedFuncName op ++ "_decl") with
  | some localFunc => { state with calls := state.calls ++ [⟨op, localFunc⟩] }
  | none =>
    { localFuncs := state.localFuncs ++ [localFuncOf op]
      cpuFuncs := state.cpuFuncs ++ [hoistedFuncOf op]
      calls := state.calls ++ [⟨op, localFuncOf op⟩] }

/-- The root module: the functions of the device module, the names of the functions of the
CPU module, and the operations in the order of the walk. -/
structure RootModule (α : Type) : Type where
  localFuncs : List LocalFunc
  cpuFuncs : List String
  ops : List (Operation α)

/-- `TTIRHoistAnalyze`. -/
def hoistAnalyze (root : RootModule α) : List (Operation α) :=
  root.ops.filter fun op => op.shouldHoist

/-- `TTIRHoistTransform::runOnOperation`. -/
def hoistTransform (root : RootModule α) : State α :=
  (hoistAnalyze root).foldl hoistOperationToFunction
    ⟨root.localFuncs, root.cpuFuncs.map fun name => ⟨name, none⟩, []⟩

/-! ## Meaning -/

/-- A meaning: what an operation computes from its name, its attributes, its operand and
result types and the values of its operands; what `to_layout` does between two element
types; what the functions compute that the pass did not make. -/
structure Semantics (α : Type) : Type 1 where
  Value : Type
  undef : Value
  denote : String → α → List ValueType → List ValueType → List Value → List Value
  length_denote : ∀ name attributes operandTypes resultTypes values,
    (denote name attributes operandTypes resultTypes values).length = resultTypes.length
  toLayout : ElementType → ElementType → Value → Value
  external : String → List Value → List Value

namespace Semantics

variable (S : Semantics α)

/-- The conversion of an operand before the call. -/
def convertOperand : ValueType → S.Value → S.Value
  | .tensor type, v =>
    if type.elementType ≠ .float32 then S.toLayout type.elementType .float32 v else v
  | _, v => v

/-- The conversion of a result after the call. -/
def convertResult : ValueType → S.Value → S.Value
  | .tensor type, v =>
    if type.elementType ≠ .float32 then S.toLayout .float32 type.elementType v else v
  | _, v => v

/-- What an operation computes; `env` gives the values their contents. -/
def compute (op : Operation α) (env : ℕ → S.Value) : List S.Value :=
  S.denote op.name op.attributes (op.operands.map Operand.type) op.resultTypes
    (op.operands.map fun operand => env operand.value)

/-- The operands of the call. -/
def callOperands (op : Operation α) (env : ℕ → S.Value) : List S.Value :=
  op.operands.map fun operand => S.convertOperand operand.type (env operand.value)

/-- What the last argument holds after a hoisted body, which returns nothing: the last result
of an operation with a destination. -/
def runBody (body : HoistedBody α) (args : List S.Value) : S.Value :=
  if body.destination then
    (S.denote body.opName body.attributes
      (body.reads.map fun arg => body.argTypes.getD arg (.other "")) body.resultTypes
      (body.reads.map fun arg => args.getD arg S.undef)).getLastD S.undef
  else args.getLastD S.undef

/-- The results of a call: the declaration stands for the function of the CPU module whose
name it extends, and the caller reads one result from the last argument. -/
def runCall (cpuFuncs : List (CpuFunc α)) (localFunc : LocalFunc) (args : List S.Value) :
    List S.Value :=
  match cpuFuncs.find? fun f => f.name ++ "_decl" = localFunc.name with
  | some ⟨_, some body⟩ => [S.runBody body args]
  | _ => S.external localFunc.name args

/-- The values that replace the results of the operation. -/
def finalResults (cpuFuncs : List (CpuFunc α)) (call : HoistedCall α) (env : ℕ → S.Value) :
    List S.Value :=
  List.zipWith S.convertResult call.op.resultTypes
    (S.runCall cpuFuncs call.localFunc (S.callOperands call.op env))

/-- Computing an operation in `f32` between the conversions gives what it computes in its
own element types. -/
def ComputesInF32 (op : Operation α) : Prop :=
  ∀ env, List.zipWith S.convertResult op.resultTypes
      (S.denote op.name op.attributes
        (op.operands.map fun operand => convertedType operand.type)
        (op.resultTypes.map hoistedType) (S.callOperands op env))
    = S.compute op env

end Semantics

/-- The types of a call: the operands have the declared types, the declared results are the
`f32` versions of the replaced results, and the final results have the replaced types. -/
structure TypesMatch (call : HoistedCall α) : Prop where
  operands : (call.op.operands.map fun operand => convertedType operand.type)
    = call.localFunc.operandTypes
  results : call.localFunc.resultTypes = call.op.resultTypes.map hoistedType
  final : List.zipWith finalType call.op.resultTypes call.localFunc.resultTypes
    = call.op.resultTypes

/-- Hoisting preserves meaning: every call has matching types and computes what the
operation it replaced computed. -/
def Preserves (S : Semantics α) (root : RootModule α) : Prop :=
  ∀ call ∈ (hoistTransform root).calls, TypesMatch call ∧
    ∀ env, S.finalResults (hoistTransform root).cpuFuncs call env = S.compute call.op env

/-- The first hoisted operation of a generated name. -/
def firstNamed (root : RootModule α) (name : String) : Option (Operation α) :=
  (hoistAnalyze root).find? fun op => generateHoistedFuncName op = name

/-- An operation may call the function made from `first`: same operation name, attributes
and types up to `f32`, results without encodings where they are converted, the same value
wherever `first` has the same value, and one result, which `first` writes to its last operand. -/
structure MayShare (first op : Operation α) : Prop where
  name : first.name = op.name
  attributes : first.attributes = op.attributes
  operandTypes : (op.operands.map fun operand => convertedType operand.type)
    = first.operands.map fun operand => hoistedType operand.type
  resultTypes : first.resultTypes.map hoistedType = op.resultTypes.map hoistedType
  encodings : ∀ type, ValueType.tensor type ∈ op.resultTypes →
    type.elementType ≠ .float32 → type.encoding = none
  operands : ∀ j k : ℕ,
    first.operands[j]?.map Operand.value = first.operands[k]?.map Operand.value →
    op.operands[j]?.map Operand.value = op.operands[k]?.map Operand.value
  destination : first.destination
  single : op.resultTypes.length = 1

/-- Operations share a function only when they agree: no function had the generated names
before, and every operation may call the function of the first one of its name. -/
def SharesEqualOps (root : RootModule α) : Prop :=
  ∀ op ∈ hoistAnalyze root,
    lookupSymbol root.localFuncs (generateHoistedFuncName op ++ "_decl") = none ∧
    generateHoistedFuncName op ∉ root.cpuFuncs ∧
    ∀ first, firstNamed root (generateHoistedFuncName op) = some first → MayShare first op

/-! ## The functions a run makes -/

/-- What a run has made after the operations `done`: under each name the function that was
there before, else the one made from the first operation of that name. -/
structure Reached (root : RootModule α) (done : List (Operation α)) (state : State α) :
    Prop where
  localFuncs : ∀ name, lookupSymbol state.localFuncs (name ++ "_decl")
    = (lookupSymbol root.localFuncs (name ++ "_decl")).or
        ((done.find? fun op => generateHoistedFuncName op = name).map localFuncOf)
  cpuFuncs : ∀ name, lookupSymbol root.localFuncs (name ++ "_decl") = none →
    name ∉ root.cpuFuncs → (state.cpuFuncs.find? fun f => f.name = name)
      = (done.find? fun op => generateHoistedFuncName op = name).map hoistedFuncOf
  existing : ∀ name, lookupSymbol root.localFuncs (name ++ "_decl") ≠ none ∨
    name ∈ root.cpuFuncs → ∀ f, (state.cpuFuncs.find? fun f => f.name = name) = some f →
      f.body = none
  kept : ∀ name ∈ root.cpuFuncs, (state.cpuFuncs.find? fun f => f.name = name).isSome
  calls : ∀ call ∈ state.calls, call.op ∈ done ∧
    lookupSymbol state.localFuncs (generateHoistedFuncName call.op ++ "_decl")
      = some call.localFunc
  called : ∀ op ∈ done, ∃ call ∈ state.calls, call.op = op

theorem lookupSymbol_localFuncOf (op : Operation α) (name : String) :
    lookupSymbol [localFuncOf op] (name ++ "_decl")
      = if generateHoistedFuncName op = name then some (localFuncOf op) else none := by
  unfold lookupSymbol localFuncOf
  by_cases h : generateHoistedFuncName op = name
  · simp [h]
  · have hne : generateHoistedFuncName op ++ "_decl" ≠ name ++ "_decl" := by
      intro heq
      exact h ((String.append_left_inj "_decl").mp heq)
    simp [h, hne]

theorem lookupSymbol_append (l m : List LocalFunc) (name : String) :
    lookupSymbol (l ++ m) name = (lookupSymbol l name).or (lookupSymbol m name) :=
  List.find?_append

theorem find?_concat_name (done : List (Operation α)) (op : Operation α) (name : String) :
    ((done ++ [op]).find? fun op => generateHoistedFuncName op = name)
      = (done.find? fun op => generateHoistedFuncName op = name).or
          (if generateHoistedFuncName op = name then some op else none) := by
  rw [List.find?_append, List.find?_singleton]
  by_cases h : generateHoistedFuncName op = name <;> simp [h]

variable {root : RootModule α}

/-- One hoisted operation. -/
theorem Reached.step {done : List (Operation α)} {state : State α}
    (h : Reached root done state) (op : Operation α) :
    Reached root (done ++ [op]) (hoistOperationToFunction state op) := by
  have hold := h.localFuncs (generateHoistedFuncName op)
  unfold hoistOperationToFunction
  cases hlook : lookupSymbol state.localFuncs (generateHoistedFuncName op ++ "_decl") with
  | some localFunc =>
    rw [hlook] at hold
    -- the name is taken: a later operation of the name changes no first one
    have hfirst : ∀ name, lookupSymbol root.localFuncs (name ++ "_decl") = none →
        ((done ++ [op]).find? fun op => generateHoistedFuncName op = name)
          = done.find? fun op => generateHoistedFuncName op = name := by
      intro name hroot
      rw [find?_concat_name]
      by_cases hname : generateHoistedFuncName op = name
      · rw [hname, hroot, Option.none_or] at hold
        obtain ⟨first, hfirst, -⟩ := Option.map_eq_some_iff.mp hold.symm
        rw [hfirst, Option.some_or]
      · rw [if_neg hname, Option.or_none]
    refine ⟨?_, ?_, h.existing, h.kept, ?_, ?_⟩
    · intro name
      show lookupSymbol state.localFuncs _ = _
      rw [h.localFuncs name]
      cases hroot : lookupSymbol root.localFuncs (name ++ "_decl") with
      | some f => rfl
      | none => rw [hfirst name hroot]
    · intro name hroot hcpu
      rw [hfirst name hroot]
      exact h.cpuFuncs name hroot hcpu
    · intro call hcall
      rcases List.mem_append.mp hcall with hcall | hcall
      · obtain ⟨hdone, hfound⟩ := h.calls call hcall
        exact ⟨by simp [hdone], hfound⟩
      · rw [List.mem_singleton] at hcall
        subst hcall
        exact ⟨by simp, hlook⟩
    · intro o ho
      rcases List.mem_append.mp ho with ho | ho
      · obtain ⟨call, hcall, hop⟩ := h.called o ho
        exact ⟨call, by simp [hcall], hop⟩
      · rw [List.mem_singleton] at ho
        exact ⟨⟨op, localFunc⟩, by simp, ho.symm⟩
  | none =>
    rw [hlook] at hold
    obtain ⟨hroot, hnone⟩ := Option.or_eq_none_iff.mp hold.symm
    rw [Option.map_eq_none_iff] at hnone
    refine ⟨?_, ?_, ?_, ?_, ?_, ?_⟩
    · intro name
      show lookupSymbol (state.localFuncs ++ [localFuncOf op]) _ = _
      rw [lookupSymbol_append, lookupSymbol_localFuncOf, h.localFuncs name,
        find?_concat_name, Option.or_assoc]
      congr 1
      by_cases hname : generateHoistedFuncName op = name
      · rw [if_pos hname, if_pos hname, ← hname, hnone]
        rfl
      · rw [if_neg hname, if_neg hname, Option.or_none, Option.or_none]
    · intro name hroot' hcpu
      show (state.cpuFuncs ++ [hoistedFuncOf op]).find? _ = _
      rw [List.find?_append, h.cpuFuncs name hroot' hcpu, find?_concat_name, List.find?_singleton]
      by_cases hname : generateHoistedFuncName op = name
      · rw [← hname, hnone]
        simp [hoistedFuncOf]
      · simp [hoistedFuncOf, hname]
    · intro name hexisting f hf
      have hf' : (state.cpuFuncs ++ [hoistedFuncOf op]).find? (fun f => f.name = name)
          = some f := hf
      rw [List.find?_append] at hf'
      cases hbefore : state.cpuFuncs.find? (fun f => f.name = name) with
      | some g =>
        rw [hbefore, Option.some_or] at hf'
        cases hf'
        exact h.existing name hexisting _ hbefore
      | none =>
        rw [hbefore, Option.none_or, List.find?_singleton] at hf'
        by_cases hname : generateHoistedFuncName op = name
        · rcases hexisting with hlocal | hcpu
          · exact absurd (hname ▸ hroot) hlocal
          · have hkept := h.kept name hcpu
            rw [hbefore] at hkept
            cases hkept
        · simp [hoistedFuncOf, hname] at hf'
    · intro name hcpu
      show ((state.cpuFuncs ++ [hoistedFuncOf op]).find? _).isSome
      rw [List.find?_append]
      obtain ⟨f, hf⟩ := Option.isSome_iff_exists.mp (h.kept name hcpu)
      rw [hf]
      rfl
    · intro call hcall
      have hkeep : ∀ name f, lookupSymbol state.localFuncs name = some f →
          lookupSymbol (state.localFuncs ++ [localFuncOf op]) name = some f := by
        intro name f hf
        rw [lookupSymbol_append, hf, Option.some_or]
      rcases List.mem_append.mp hcall with hcall | hcall
      · obtain ⟨hdone, hfound⟩ := h.calls call hcall
        exact ⟨by simp [hdone], hkeep _ _ hfound⟩
      · rw [List.mem_singleton] at hcall
        subst hcall
        refine ⟨by simp, ?_⟩
        show lookupSymbol (state.localFuncs ++ [localFuncOf op])
          (generateHoistedFuncName op ++ "_decl") = _
        rw [lookupSymbol_append, hlook, lookupSymbol_localFuncOf, if_pos rfl, Option.none_or]
    · intro o ho
      rcases List.mem_append.mp ho with ho | ho
      · obtain ⟨call, hcall, hop⟩ := h.called o ho
        exact ⟨call, by simp [hcall], hop⟩
      · rw [List.mem_singleton] at ho
        exact ⟨⟨op, localFuncOf op⟩, by simp, ho.symm⟩

/-- Before any operation. -/
theorem Reached.init (root : RootModule α) :
    Reached root [] ⟨root.localFuncs, root.cpuFuncs.map fun name => ⟨name, none⟩, []⟩ := by
  refine ⟨?_, ?_, ?_, ?_, by simp, by simp⟩
  · intro name
    simp
  · intro name _ hcpu
    apply List.find?_eq_none.mpr
    intro f hf
    obtain ⟨n, hn, rfl⟩ := List.mem_map.mp hf
    simpa using fun heq : n = name => hcpu (heq ▸ hn)
  · intro name _ f hf
    obtain ⟨n, -, rfl⟩ := List.mem_map.mp (List.mem_of_find?_eq_some hf)
    rfl
  · intro name hcpu
    simpa using hcpu

/-- **The run.**  Every name stands for the function made from its first operation. -/
theorem reached_hoistTransform (root : RootModule α) :
    Reached root (hoistAnalyze root) (hoistTransform root) := by
  suffices h : ∀ ops done state, Reached root done state →
      Reached root (done ++ ops) (ops.foldl hoistOperationToFunction state) from
    h (hoistAnalyze root) [] _ (Reached.init root)
  intro ops
  induction ops with
  | nil =>
    intro done state h
    rwa [List.append_nil]
  | cons op ops ih =>
    intro done state h
    have hnext := ih (done ++ [op]) _ (h.step op)
    rwa [List.append_assoc] at hnext

/-! ## The callee of a call -/

section Callee

variable {root : RootModule α} {call : HoistedCall α}

theorem name_localFunc (hcall : call ∈ (hoistTransform root).calls) :
    call.localFunc.name = generateHoistedFuncName call.op ++ "_decl" := by
  have hfound := ((reached_hoistTransform root).calls call hcall).2
  simpa using List.find?_some hfound

/-- A call runs the function of the CPU module with the generated name. -/
theorem runCall_eq (S : Semantics α) (hcall : call ∈ (hoistTransform root).calls)
    (args : List S.Value) :
    S.runCall (hoistTransform root).cpuFuncs call.localFunc args =
      match (hoistTransform root).cpuFuncs.find?
        fun f => f.name = generateHoistedFuncName call.op with
      | some ⟨_, some body⟩ => [S.runBody body args]
      | _ => S.external call.localFunc.name args := by
  unfold Semantics.runCall
  have hpred : (fun f : CpuFunc α => decide (f.name ++ "_decl" = call.localFunc.name))
      = fun f => decide (f.name = generateHoistedFuncName call.op) := by
    funext f
    rw [name_localFunc hcall]
    exact decide_eq_decide.mpr (String.append_left_inj "_decl")
  rw [hpred]

/-- Under a name that was taken before, a call does not run a hoisted body. -/
theorem runCall_external (S : Semantics α) (hcall : call ∈ (hoistTransform root).calls)
    (htaken : lookupSymbol root.localFuncs (generateHoistedFuncName call.op ++ "_decl") ≠ none ∨
      generateHoistedFuncName call.op ∈ root.cpuFuncs) (args : List S.Value) :
    S.runCall (hoistTransform root).cpuFuncs call.localFunc args
      = S.external call.localFunc.name args := by
  rw [runCall_eq S hcall]
  cases hfind : (hoistTransform root).cpuFuncs.find?
      fun f => f.name = generateHoistedFuncName call.op with
  | none => rfl
  | some f =>
    obtain ⟨name, body⟩ := f
    have hbody : body = none := (reached_hoistTransform root).existing _ htaken ⟨name, body⟩ hfind
    rw [hbody]

/-- Under a new name, a call runs the function made from the first operation of the
name. -/
theorem exists_firstNamed (hcall : call ∈ (hoistTransform root).calls)
    (hlocal : lookupSymbol root.localFuncs (generateHoistedFuncName call.op ++ "_decl") = none)
    (hcpu : generateHoistedFuncName call.op ∉ root.cpuFuncs) :
    ∃ first, firstNamed root (generateHoistedFuncName call.op) = some first ∧
      call.localFunc = localFuncOf first ∧
      ((hoistTransform root).cpuFuncs.find?
        fun f => f.name = generateHoistedFuncName call.op) = some (hoistedFuncOf first) := by
  have hreached := reached_hoistTransform root
  obtain ⟨-, hfound⟩ := hreached.calls call hcall
  rw [hreached.localFuncs, hlocal, Option.none_or] at hfound
  obtain ⟨first, hfirst, hdecl⟩ := Option.map_eq_some_iff.mp hfound
  refine ⟨first, hfirst, hdecl.symm, ?_⟩
  rw [hreached.cpuFuncs _ hlocal hcpu, hfirst]
  rfl

end Callee

/-! ## The body of a hoisted function -/

/-- A value is mapped to an argument that stands for it. -/
theorem mappedTo_spec (operands : List Operand) {operand : Operand} (h : operand ∈ operands) :
    ∃ p, operands[mappedTo operands operand.value]? = some p ∧ p.value = operand.value := by
  induction operands using List.reverseRecOn with
  | nil => cases h
  | append_singleton operands last ih =>
    have hstep : mappedTo (operands ++ [last]) operand.value =
        if last.value = operand.value then operands.length
        else mappedTo operands operand.value := by
      unfold mappedTo
      rw [List.zipIdx_append, List.foldl_append]
      simp
    rw [hstep]
    split_ifs with hlast
    · exact ⟨last, by simp, hlast⟩
    · have hmem : operand ∈ operands := by
        rcases List.mem_append.mp h with h | h
        · exact h
        · rw [List.mem_singleton] at h
          exact absurd (congrArg Operand.value h.symm) hlast
      obtain ⟨p, hp, hvalue⟩ := ih hmem
      refine ⟨p, ?_, hvalue⟩
      have hlt := (List.getElem?_eq_some_iff.mp hp).1
      rw [List.getElem?_append_left hlt]
      exact hp

theorem map_argTypes (first : Operation α) :
    ((first.operands.map fun operand => mappedTo first.operands operand.value).map fun arg =>
      (first.operands.map fun operand => hoistedType operand.type).getD arg (.other ""))
      = first.operands.map fun operand => hoistedType operand.type := by
  rw [List.map_map]
  apply List.map_congr_left
  intro operand hoperand
  obtain ⟨p, hp, hvalue⟩ := mappedTo_spec first.operands hoperand
  have htype : p.type = operand.type :=
    first.type_unique p (List.mem_of_getElem? hp) operand hoperand hvalue
  simp [List.getD, hp, htype]

/-- Arguments read through the mapping of `first` are the operands in order when `op` has
the same value wherever `first` has. -/
theorem map_reads {first op : Operation α} {β : Type} (f : Operand → β) (d : β)
    (hlen : op.operands.length = first.operands.length)
    (hf : ∀ a ∈ op.operands, ∀ b ∈ op.operands, a.value = b.value → f a = f b)
    (hsame : ∀ j k : ℕ,
      first.operands[j]?.map Operand.value = first.operands[k]?.map Operand.value →
      op.operands[j]?.map Operand.value = op.operands[k]?.map Operand.value) :
    ((first.operands.map fun operand => mappedTo first.operands operand.value).map fun arg =>
      (op.operands.map f).getD arg d) = op.operands.map f := by
  apply List.ext_getElem (by simp [hlen])
  intro j h₁ h₂
  have hj : j < op.operands.length := by simpa using h₂
  have hj' : j < first.operands.length := by omega
  obtain ⟨p, hp, hvalue⟩ := mappedTo_spec first.operands (List.getElem_mem hj')
  have hpat := hsame (mappedTo first.operands first.operands[j].value) j
    (by rw [hp, List.getElem?_eq_getElem hj']; simp [hvalue])
  rw [List.getElem?_eq_getElem hj] at hpat
  obtain ⟨q, hq, hqvalue⟩ := Option.map_eq_some_iff.mp hpat
  have hfq : f q = f op.operands[j] :=
    hf q (List.mem_of_getElem? hq) _ (List.getElem_mem hj) hqvalue
  simp [List.getD, hq, hfq]

theorem singleton_getLastD {β : Type} {l : List β} (h : l.length = 1) (d : β) :
    [l.getLastD d] = l := by
  obtain ⟨b, rfl⟩ := List.length_eq_one_iff.mp h
  rfl

/-- When an operation may share the function of `first`, the body computes the operation in
`f32`. -/
theorem runBody_of_mayShare (S : Semantics α) {first op : Operation α}
    (h : MayShare first op) (env : ℕ → S.Value) (body : HoistedBody α)
    (hbody : (hoistedFuncOf first).body = some body) :
    [S.runBody body (S.callOperands op env)] = S.denote op.name op.attributes
        (op.operands.map fun operand => convertedType operand.type)
        (op.resultTypes.map hoistedType) (S.callOperands op env) := by
  cases hbody
  have hlen : op.operands.length = first.operands.length := by
    simpa using congrArg List.length h.operandTypes
  have hreads : (first.operands.map fun operand =>
      mappedTo first.operands operand.value).map (fun arg =>
        (S.callOperands op env).getD arg S.undef) = S.callOperands op env := by
    apply map_reads _ _ hlen _ h.operands
    intro a ha b hb hab
    rw [hab, op.type_unique a ha b hb hab]
  have hcompute : S.denote first.name first.attributes
      ((first.operands.map fun operand => mappedTo first.operands operand.value).map fun arg =>
        (first.operands.map fun operand => hoistedType operand.type).getD arg (.other ""))
      (first.resultTypes.map hoistedType)
      ((first.operands.map fun operand => mappedTo first.operands operand.value).map fun arg =>
        (S.callOperands op env).getD arg S.undef)
      = S.denote op.name op.attributes
        (op.operands.map fun operand => convertedType operand.type)
        (op.resultTypes.map hoistedType) (S.callOperands op env) := by
    rw [hreads, map_argTypes, h.name, h.attributes, h.operandTypes, ← h.resultTypes]
  rw [Semantics.runBody, if_pos h.destination, hcompute]
  apply singleton_getLastD
  rw [S.length_denote, List.length_map, h.single]

/-- The final types are the replaced ones exactly when converted results carry no
encoding. -/
theorem zipWith_finalType_iff (types : List ValueType) :
    List.zipWith finalType types (types.map hoistedType) = types ↔
      ∀ type, ValueType.tensor type ∈ types → type.elementType ≠ .float32 →
        type.encoding = none := by
  have hone : ∀ t, finalType t (hoistedType t) = t ↔
      ∀ type, ValueType.tensor type = t → type.elementType ≠ .float32 → type.encoding = none := by
    intro t
    cases t with
    | other name => simp [finalType, hoistedType]
    | tensor type =>
      obtain ⟨shape, elementType, encoding⟩ := type
      by_cases helt : elementType = .float32
      · simp [finalType, hoistedType, helt]
      · simp [finalType, helt, eq_comm]
  induction types with
  | nil => simp
  | cons t types ih =>
    rw [List.map_cons, List.zipWith_cons_cons, List.cons.injEq]
    refine (and_congr (hone t) ih).trans ?_
    constructor
    · rintro ⟨hhead, htail⟩ type hmem
      rcases List.mem_cons.mp hmem with heq | hmem
      · exact hhead type heq
      · exact htail type hmem
    · intro h
      exact ⟨fun type heq => h type (by simp [heq]), fun type hmem => h type (by simp [hmem])⟩

/-! ## When hoisting preserves meaning -/

variable {call : HoistedCall α}

theorem typesMatch_of_mayShare {first : Operation α}
    (hfirst : call.localFunc = localFuncOf first) (h : MayShare first call.op) :
    TypesMatch call where
  operands := by rw [hfirst]; exact h.operandTypes
  results := by rw [hfirst]; exact h.resultTypes
  final := by
    rw [hfirst]
    show List.zipWith finalType _ (first.resultTypes.map hoistedType) = _
    rw [h.resultTypes]
    exact (zipWith_finalType_iff _).mpr h.encodings

/-- When operations share functions only if they agree, a call computes the operation in
`f32`. -/
theorem finalResults_of_shares (S : Semantics α) (h : SharesEqualOps root)
    (hcall : call ∈ (hoistTransform root).calls) :
    TypesMatch call ∧ ∀ env, S.finalResults (hoistTransform root).cpuFuncs call env
      = List.zipWith S.convertResult call.op.resultTypes (S.denote call.op.name call.op.attributes
            (call.op.operands.map fun operand => convertedType operand.type)
            (call.op.resultTypes.map hoistedType) (S.callOperands call.op env)) := by
  obtain ⟨hop, -⟩ := (reached_hoistTransform root).calls call hcall
  obtain ⟨hlocal, hcpu, hshare⟩ := h call.op hop
  obtain ⟨first, hfirst, hdecl, hfunc⟩ := exists_firstNamed hcall hlocal hcpu
  have hmay := hshare first hfirst
  refine ⟨typesMatch_of_mayShare hdecl hmay, ?_⟩
  intro env
  unfold Semantics.finalResults
  rw [runCall_eq S hcall, hfunc]
  congr 1
  exact runBody_of_mayShare S hmay env _ rfl

/-- The contents of values in the telling meaning; they are not its results. -/
def tellingEnv (v : ℕ) : ℕ := v + 2

/-- The meaning that tells an operation from everything else: one where the name, the
attributes and the operands are its own, zero elsewhere, whatever the types. -/
@[reducible] noncomputable def telling (op : Operation α) : Semantics α where
  Value := ℕ
  undef := 0
  denote name attributes _ resultTypes values := by
    classical
    exact resultTypes.map fun _ =>
      if name = op.name ∧ attributes = op.attributes ∧
        values = op.operands.map (fun operand => tellingEnv operand.value) then 1 else 0
  length_denote _ _ _ _ _ := List.length_map _
  toLayout _ _ v := v
  external _ _ := []

theorem convertOperand_telling (op : Operation α) (type : ValueType) (v : ℕ) :
    (telling op).convertOperand type v = v := by
  cases type with
  | tensor type =>
    show (if type.elementType ≠ .float32 then v else v) = v
    rw [ite_self]
  | other name => rfl

theorem convertResult_telling (op : Operation α) (type : ValueType) (v : ℕ) :
    (telling op).convertResult type v = v := by
  cases type with
  | tensor type =>
    show (if type.elementType ≠ .float32 then v else v) = v
    rw [ite_self]
  | other name => rfl

theorem denote_telling_self (op : Operation α) (operandTypes resultTypes : List ValueType) :
    (telling op).denote op.name op.attributes operandTypes resultTypes
      (op.operands.map fun operand => tellingEnv operand.value)
      = resultTypes.map fun _ => (1 : ℕ) := by
  simp [telling]

theorem denote_telling_ne (op : Operation α) {name : String} {attributes : α}
    {values : List ℕ} (operandTypes resultTypes : List ValueType)
    (h : ¬ (name = op.name ∧ attributes = op.attributes ∧
      values = op.operands.map fun operand => tellingEnv operand.value)) :
    (telling op).denote name attributes operandTypes resultTypes values
      = resultTypes.map fun _ => (0 : ℕ) := by
  simp [telling, h]

theorem zipWith_telling (op : Operation α) (types types' : List ValueType) (v : ℕ) :
    List.zipWith (telling op).convertResult types (types'.map fun _ => v)
      = List.replicate (min types.length types'.length) v := by
  apply List.ext_getElem (by simp)
  intro j h₁ h₂
  rw [List.getElem_zipWith, convertResult_telling]
  simp

/-- In that meaning, conversions and types do not matter. -/
theorem computesInF32_telling (op op' : Operation α) : (telling op).ComputesInF32 op' := by
  classical
  intro env
  have hoperands : (telling op).callOperands op' env
      = op'.operands.map fun operand => env operand.value := by
    apply List.map_congr_left
    intro operand _
    exact convertOperand_telling op operand.type _
  unfold Semantics.compute
  rw [hoperands]
  refine (zipWith_telling op op'.resultTypes _ _).trans ?_
  rw [List.length_map, Nat.min_self]
  exact (List.map_const' ..).symm

/-- A body that yields one is that of an operation with a destination, which is the one that
is told and reads its operands. -/
theorem runBody_telling {first op : Operation α} {body : HoistedBody α}
    (hbody : (hoistedFuncOf first).body = some body)
    (h : (telling op).runBody body (op.operands.map fun operand => tellingEnv operand.value)
      = (1 : ℕ)) :
    first.destination ∧ first.name = op.name ∧ first.attributes = op.attributes ∧
      ((first.operands.map fun operand => mappedTo first.operands operand.value).map fun arg =>
        (op.operands.map fun operand => tellingEnv operand.value).getD arg 0)
        = op.operands.map fun operand => tellingEnv operand.value := by
  classical
  cases hbody
  by_cases hdestination : first.destination
  · rw [Semantics.runBody, if_pos hdestination] at h
    refine ⟨hdestination, ?_⟩
    by_contra hne
    have hzero := denote_telling_ne op ((first.operands.map fun operand =>
      mappedTo first.operands operand.value).map fun arg =>
        (first.operands.map fun operand => hoistedType operand.type).getD arg (.other ""))
      (first.resultTypes.map hoistedType) hne
    rw [hzero, List.getLastD_eq_getLast?, List.getLast?_map] at h
    cases hlast : (first.resultTypes.map hoistedType).getLast? with
    | none =>
      rw [hlast] at h
      cases h
    | some type =>
      rw [hlast] at h
      cases h
  · rw [Semantics.runBody, if_neg hdestination, List.getLastD_eq_getLast?, List.getLast?_map] at h
    cases hlast : op.operands.getLast? with
    | none =>
      rw [hlast] at h
      cases h
    | some operand =>
      rw [hlast] at h
      have hcontra : operand.value + 2 = 1 := h
      omega

/-- A call that computes the operation in the telling meaning runs the function made from
an operation that it may share. -/
theorem mayShare_of_telling (hcall : call ∈ (hoistTransform root).calls) (htypes : TypesMatch call)
    (hcompute : (telling call.op).finalResults (hoistTransform root).cpuFuncs call tellingEnv
      = (telling call.op).compute call.op tellingEnv) :
    lookupSymbol root.localFuncs (generateHoistedFuncName call.op ++ "_decl") = none ∧
    generateHoistedFuncName call.op ∉ root.cpuFuncs ∧
    ∀ first, firstNamed root (generateHoistedFuncName call.op) = some first →
      MayShare first call.op := by
  classical
  have hargs : (telling call.op).callOperands call.op tellingEnv
      = call.op.operands.map fun operand => tellingEnv operand.value := by
    apply List.map_congr_left
    intro operand _
    exact convertOperand_telling call.op operand.type _
  have hpos : 0 < call.op.resultTypes.length := List.length_pos_of_ne_nil call.op.results_ne
  have hown : (telling call.op).compute call.op tellingEnv
      = List.replicate call.op.resultTypes.length (1 : ℕ) :=
    (denote_telling_self call.op _ _).trans (List.map_const' ..)
  rw [hown] at hcompute
  unfold Semantics.finalResults at hcompute
  -- no results come from a function that was there before
  have hnew : ¬ (lookupSymbol root.localFuncs (generateHoistedFuncName call.op ++ "_decl") ≠ none
      ∨ generateHoistedFuncName call.op ∈ root.cpuFuncs) := by
    intro htaken
    rw [runCall_external _ hcall htaken] at hcompute
    have hlen := congrArg List.length hcompute
    simp [telling] at hlen
    omega
  push Not at hnew
  obtain ⟨hlocal, hcpu⟩ := hnew
  refine ⟨hlocal, hcpu, ?_⟩
  obtain ⟨first, hfirst, hdecl, hfunc⟩ := exists_firstNamed hcall hlocal hcpu
  intro other hother
  obtain rfl : first = other := Option.some.inj (hfirst.symm.trans hother)
  have hoperandTypes := htypes.operands
  have hresultTypes := htypes.results
  have hfinal := htypes.final
  rw [hdecl] at hoperandTypes hresultTypes hfinal
  rw [runCall_eq _ hcall, hfunc, hargs] at hcompute
  -- a call has one result, and its flag is one
  have hsingle : call.op.resultTypes.length = 1 := by
    have hlen := congrArg List.length hcompute
    simp only [hoistedFuncOf, List.length_zipWith, List.length_singleton,
      List.length_replicate] at hlen
    omega
  obtain ⟨type, htype⟩ := List.length_eq_one_iff.mp hsingle
  rw [htype] at hcompute
  have hrun := (convertResult_telling call.op type _).symm.trans (List.cons.inj hcompute).1
  obtain ⟨hdestination, hname, hattributes, hreads⟩ := runBody_telling rfl hrun
  refine ⟨hname, hattributes, hoperandTypes, hresultTypes, ?_, ?_, hdestination, hsingle⟩
  · apply (zipWith_finalType_iff _).mp
    rw [← hresultTypes]
    exact hfinal
  · -- equal values of `first` are read from one argument
    have hread : ∀ j : ℕ, (call.op.operands[j]?.map Operand.value).map tellingEnv
        = (first.operands[j]?.map Operand.value).map fun v =>
          (call.op.operands.map fun operand => tellingEnv operand.value).getD
            (mappedTo first.operands v) 0 := by
      intro j
      have hj := congrArg (fun l => l[j]?) hreads
      simp only [List.getElem?_map, Option.map_map] at hj ⊢
      exact hj.symm
    intro j k hjk
    have hinjective : Function.Injective tellingEnv := fun v w h => Nat.add_right_cancel h
    apply Option.map_injective hinjective
    rw [hread j, hread k, hjk]

/-- **Hoisting.**  Whatever operations mean, the calls compute what the replaced operations
computed exactly as far as computing in `f32` does, if and only if operations share a
function only when they agree. -/
theorem preserves_iff (root : RootModule α) :
    (∀ S : Semantics α, Preserves S root ↔ ∀ op ∈ hoistAnalyze root, S.ComputesInF32 op) ↔
      SharesEqualOps root := by
  constructor
  · intro h op hop
    obtain ⟨call, hcall, rfl⟩ := (reached_hoistTransform root).called op hop
    have hpreserves := (h (telling call.op)).mpr fun op' _ => computesInF32_telling call.op op'
    obtain ⟨htypes, hcompute⟩ := hpreserves call hcall
    exact mayShare_of_telling hcall htypes (hcompute tellingEnv)
  · intro h S
    constructor
    · intro hpreserves op hop env
      obtain ⟨call, hcall, rfl⟩ := (reached_hoistTransform root).called op hop
      rw [← (finalResults_of_shares S h hcall).2 env]
      exact (hpreserves call hcall).2 env
    · intro hf32 call hcall
      obtain ⟨htypes, hcompute⟩ := finalResults_of_shares S h hcall
      refine ⟨htypes, ?_⟩
      intro env
      rw [hcompute env]
      exact hf32 call.op ((reached_hoistTransform root).calls call hcall).1 env

/-- `ttir.sum` of a `32x32` tensor over one dimension, into a tensor of `32` elements. -/
def sumOp (input output : ℕ) (dim : ℤ) (h : input ≠ output) : Operation ℤ where
  name := "ttir.sum"
  operands := [⟨input, .tensor ⟨[32, 32], .float32, none⟩⟩,
    ⟨output, .tensor ⟨[32], .float32, none⟩⟩]
  resultTypes := [.tensor ⟨[32], .float32, none⟩]
  attributes := dim
  shouldHoist := true
  destination := true
  results_ne := by simp
  type_unique := by simp [h, h.symm]

/-- A module that sums the columns of one tensor and the rows of another. -/
def sumModule : RootModule ℤ where
  localFuncs := []
  cpuFuncs := []
  ops := [sumOp 0 1 0 (by decide), sumOp 2 3 1 (by decide)]

/-- Sums of integer matrices; the other index of a vector is not used. -/
def sumMeaning : Semantics ℤ where
  Value := ℕ → ℕ → ℤ
  undef _ _ := 0
  denote _ dim _ resultTypes values :=
    let input := values.headD fun _ _ => 0
    resultTypes.map fun _ i _ => if dim = 0 then ((List.range 32).map fun k => input k i).sum
      else ((List.range 32).map fun k => input i k).sum
  length_denote _ _ _ _ _ := List.length_map _
  toLayout _ _ v := v
  external _ _ := []

/-- Two sums over different dimensions share one function: the rows of the second tensor
are not summed, although no conversion is involved. -/
theorem sumModule_not_preserves :
    (∀ op ∈ hoistAnalyze sumModule, sumMeaning.ComputesInF32 op) ∧
      ¬ Preserves sumMeaning sumModule := by
  have hops : hoistAnalyze sumModule = [sumOp 0 1 0 (by decide), sumOp 2 3 1 (by decide)] := rfl
  have hname : generateHoistedFuncName (sumOp 2 3 1 (by decide))
      = generateHoistedFuncName (sumOp 0 1 0 (by decide)) := rfl
  have hrun : hoistTransform sumModule = ⟨[localFuncOf (sumOp 0 1 0 (by decide))],
      [hoistedFuncOf (sumOp 0 1 0 (by decide))],
      [⟨sumOp 0 1 0 (by decide), localFuncOf (sumOp 0 1 0 (by decide))⟩,
        ⟨sumOp 2 3 1 (by decide), localFuncOf (sumOp 0 1 0 (by decide))⟩]⟩ := by
    unfold hoistTransform
    rw [hops]
    simp [hoistOperationToFunction, lookupSymbol, localFuncOf, sumModule, hname]
  refine ⟨?_, ?_⟩
  · intro op hop env
    rw [hops] at hop
    rcases List.mem_pair.mp hop with rfl | rfl
    · rfl
    · rfl
  · intro hpreserves
    -- the second tensor has ones in its first column only
    have hsecond := (hpreserves ⟨sumOp 2 3 1 (by decide), localFuncOf (sumOp 0 1 0 (by decide))⟩
      (by rw [hrun]; simp)).2 fun _ _ j => if j = 0 then 1 else 0
    rw [hrun] at hsecond
    unfold Semantics.finalResults Semantics.runCall at hsecond
    rw [List.find?_cons_of_pos (by simp [hoistedFuncOf, localFuncOf])] at hsecond
    have hvalue := congrArg (fun l => (l.map fun v : ℕ → ℕ → ℤ => v 0 0)) hsecond
    have hcontra : [(32 : ℤ)] = [1] := hvalue
    exact absurd hcontra (by decide)

end HoistCPUOps
