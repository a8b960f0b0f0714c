/-
# Element type normalization

`ElementTypeNormalization`: the greedy driver visits the operations in any order,
`UniformTypeRewriter` gives the tensors among the operands and results the supported type for
their element type, and `ConstantOpAttrRewriter` rebuilds the values of constants.

* `convertType`, `rebuildElementsAttr` : the translated conversions of types and of values;
* `Module.visit`, `Module.runPass` : one visit, and a run of the driver;
* `Module.Normalizes` : what every run has to reach, within a scope;
* `Module.normalizes_outside` : the scope within which it does.

Resources are left alone, and so are the operations in a `GenericOp`. No operation is one that the
driver's folding replaces, by an operand or by a constant.
-/
import TTMLIR.ConstantFill

namespace ElementTypeNormalization

open TTIR Fallible

/-! ## Types -/

/-- `RankedTensorType`, of numbers or quantized, or a type without a conversion. -/
inductive Ty : Type where
  | tensor (shape : List ℕ) (element : ElementType) (encoding : Option String)
  | quantized (shape : List ℕ) (element : String) (encoding : Option String)
  | other (name : String)
  deriving DecidableEq

/-- `convertType` of the `ElementTypeConverter`. -/
def convertType : Ty → Option Ty
  | .tensor shape element encoding =>
    element.toTTMLIRSupportedDataType.map fun element' => .tensor shape element' encoding
  | .quantized shape element encoding => some (.quantized shape element encoding)
  | .other _ => none

/-- The type that `convertTypes` sets. -/
def converted (t : Ty) : Ty := (convertType t).getD t

/-- The element type, of numbers. -/
def Ty.element : Ty → Option ElementType
  | tensor _ element _ => some element
  | _ => none

/-- The type is one that the pass leaves alone. -/
def Ty.IsSupported (t : Ty) : Prop := convertType t = some t

/-! ## Values of constants -/

/-- An element type, and elements of it. -/
abbrev Attr : Type := ElementType × List Element

/-- `truncSSat`: the bits of a signed integer, saturated to fewer. -/
def truncSSat (bits width n : ℕ) : ℕ :=
  (max (-2 ^ (width - 1)) (min (Int.bmod n (2 ^ bits)) (2 ^ (width - 1) - 1)) % 2 ^ width).toNat

/-- An element, with other bits. -/
def mapBits (f : ℕ → Element) : Element → Element
  | .bits n => f n
  | .number x => .number x

/-- An element, with another number. -/
def mapNumber (f : Number → Number) : Element → Element
  | .bits n => .bits n
  | .number x => .number (f x)

/-- `DenseElementsAttr::get`, from integers of a width. -/
def getInts (newType : ElementType) (width : ℕ) (elements : List Element) : Except String Attr :=
  match newType with
  | .integer t =>
    if t.width = width then .ok (newType, elements)
    else .error "expected value to have same bitwidth as element type"
  | .float _ => .error "expected element type to be integer"

/-- `DenseElementsAttr::get`, from floating-point numbers. -/
def getFloats (newType : ElementType) (semantics : FloatType) (elements : List Element) :
    Except String Attr :=
  if newType = .float semantics then .ok (newType, elements)
  else .error "expected value to have same float semantics as element type"

/-- `rebuildIntAttr`. -/
def rebuildIntAttr (newType : ElementType) (t : IntegerType) (elements : List Element) :
    Except String Attr :=
  if t.width = 1 then getFloats newType .bf16 (elements.map (mapBits fun n => .number (.finite n)))
  else getInts newType (if t.width = 64 then 32 else t.width)
    (elements.map (mapBits fun n => .bits (if t.width = 64 then truncSSat 64 32 n else n)))

variable (library : ConstantOp.Library)

/-- `rebuildFloatAttr`; `static_cast<float>` keeps the numbers of single precision. -/
def rebuildFloatAttr (newType : ElementType) (t : FloatType) (elements : List Element) :
    Except String Attr :=
  if t = .f64 then
    getFloats newType .f32 (elements.map (mapNumber (library.convert (.float .f32))))
  else getFloats newType t elements

/-- `rebuildElementsAttr`. -/
def rebuildElementsAttr (isResource : Bool) (attr : Attr) : Except String Attr :=
  match attr.1.toTTMLIRSupportedDataType with
  | none => .error "dyn_cast on a non-existent value"
  | some newType =>
    if newType = attr.1 ∨ isResource then .ok attr
    else match attr.1 with
      | .integer t => rebuildIntAttr newType t attr.2
      | .float t => rebuildFloatAttr library newType t attr.2

/-! ## Modules -/

/-- An operation: the numbers of its operands and results, or of the signature and the entry
arguments of a function; whether its parent is a `GenericOp`; the value of a `ttir.constant`, with
the number of its result. -/
structure Op : Type where
  slots : List ℕ
  inGeneric : Bool
  constant : Option (ElementsAttr × ℕ)

/-- A module: its operations, its block arguments, the types of values and of the signatures, and
which of these have to be the same, at returns and at calls. -/
structure Module : Type where
  ops : List Op
  blockArguments : List ℕ
  types : ℕ → Ty
  links : List (ℕ × ℕ)
  typed : ∀ link ∈ links, types link.1 = types link.2

/-- The types, and the values of the constants. -/
@[ext]
structure State : Type where
  types : ℕ → Ty
  attrs : ℕ → Attr

namespace Module

variable (m : Module)

/-- The value of the constant at a position. -/
def value (i : ℕ) : Option ElementsAttr := ((m.ops[i]?).bind Op.constant).map Prod.fst

/-- The module before the pass. -/
def start : State where
  types := m.types
  attrs i := ((m.value i).map fun attr => (attr.elementType, attr.elements)).getD (.float .f32, [])

/-- The values whose types a visit sets: none in a `GenericOp`. -/
def touched (i : ℕ) : List ℕ :=
  ((m.ops[i]?).map fun op => if op.inGeneric then [] else op.slots).getD []

/-- A visit of an operation, with both patterns. -/
def visit (s : State) (i : ℕ) : Except String State := do
  let types v := if v ∈ m.touched i then converted (s.types v) else s.types v
  match m.value i with
  | none => return { s with types := types }
  | some attr =>
    let newAttr ← rebuildElementsAttr library attr.isResource (s.attrs i)
    return ⟨types, Function.update s.attrs i newAttr⟩

/-- `runOnOperation`, with the visits of the driver in some order. -/
def runPass (order : List ℕ) : Except String State :=
  if m.ops.all fun op => op.slots.all fun v => (convertType (m.types v)).isSome then
    order.foldlM (m.visit library) m.start
  else .error "Unsupported type."

/-- Every operation is visited; the driver starts with all of them. -/
def Complete (order : List ℕ) : Prop := ∀ i < m.ops.length, i ∈ order

end Module

/-! ## What the pass is for -/

/-- **The number that is kept or nearest**: a number of the new type, the same when that is one, and
for an integer no farther than any other. -/
structure Nearest (old new : ElementType) (x y : Number) : Prop where
  represents : new.Represents y
  kept : new.Represents x → y = x
  nearest : ∀ t, old = .integer t → ∀ q r q', x = .finite q → y = .finite r →
    new.Represents (.finite q') → |r - q| ≤ |q' - q|

/-- What is asked of: constants, their elements, and the values whose types count. -/
structure Scope : Type where
  constants : Op → ElementsAttr → Prop
  elements : ElementType → Element → Prop
  slots : ℕ → Prop

/-- The integer is read the same with the signedness of the supported type, and 64 bits of an
unsigned one are fewer than 32, or all ones. -/
def Narrows : ElementType → Element → Prop
  | .integer t, .bits n =>
    (t.signedness = .signed → t.width ∈ [1, 8, 16] → n < 2 ^ (t.width - 1)) ∧
      (t.signedness = .unsigned → t.width = 64 → n < 2 ^ 31 ∨ n = 2 ^ 64 - 1)
  | _, _ => True

namespace Module

variable (m : Module)

/-- What is not in a `GenericOp`, except for resources and for some integers. -/
def outside : Scope where
  constants op attr := op.inGeneric = false ∧ attr.isResource = false
  elements := Narrows
  slots v := ∃ i, v ∈ m.touched i

variable {m} in
/-- What a run has to reach: types and elements as asked for, and nothing left to rewrite. -/
structure Reached (scope : Scope) (library : ConstantOp.Library) (s : State) : Prop where
  stays : ∀ i, m.visit library s i = .ok s
  constants : ∀ i op attr v, m.ops[i]? = some op → op.constant = some (attr, v) →
    scope.constants op attr → (s.types v).element = some (s.attrs i).1 ∧
      List.Forall₂ (fun e e' => scope.elements attr.elementType e →
        Nearest attr.elementType (s.attrs i).1 (attr.elementType.value e) ((s.attrs i).1.value e'))
        attr.elements (s.attrs i).2
  slots : ∀ v, scope.slots v → (s.types v).IsSupported
  links : ∀ link ∈ m.links, scope.slots link.1 → scope.slots link.2 →
    s.types link.1 = s.types link.2

/-- The pass accepts the types, and the values of constants have element types that are converted to
the ones of their results. -/
structure Accepted : Prop where
  supported : ∀ op ∈ m.ops, ∀ v ∈ op.slots, (convertType (m.types v)).isSome
  constants : ∀ op ∈ m.ops, ∀ attr v, op.constant = some (attr, v) → v ∈ op.slots ∧
    ∃ shape element encoding, m.types v = .tensor shape element encoding ∧
      element.toTTMLIRSupportedDataType = attr.elementType.toTTMLIRSupportedDataType

end Module

/-! ## Converted types -/

variable {t : IntegerType}

/-- A supported type is its own supported type. -/
theorem toTTMLIRSupportedDataType_idem {t t' : ElementType}
    (h : t.toTTMLIRSupportedDataType = some t') : t'.toTTMLIRSupportedDataType = some t' := by
  obtain ⟨d, -, rfl⟩ := Option.map_eq_some_iff.mp h
  cases d <;> rfl

variable {library : ConstantOp.Library}

/-- The element that an element becomes. -/
def rebuildElement (library : ConstantOp.Library) : ElementType → Element → Element
  | .integer t =>
    if t.width = 1 then mapBits fun n => .number (.finite n)
    else mapBits fun n => .bits (if t.width = 64 then truncSSat 64 32 n else n)
  | .float t => if t = .f64 then mapNumber (library.convert (.float .f32)) else id

/-- The value that a value becomes. -/
def rebuilt (library : ConstantOp.Library) (attr : ElementsAttr) : Attr :=
  if attr.isResource then (attr.elementType, attr.elements)
  else (attr.elementType.toTTMLIRSupportedDataType.getD attr.elementType,
    attr.elements.map (rebuildElement library attr.elementType))

variable {attr : ElementsAttr} {t' : ElementType}

/-- A rebuilt value stays. -/
theorem rebuildElementsAttr_rebuilt (h : attr.elementType.toTTMLIRSupportedDataType = some t') :
    rebuildElementsAttr library attr.isResource (rebuilt library attr)
      = .ok (rebuilt library attr) := by
  rw [rebuilt, h, Option.getD_some]
  cases hres : attr.isResource with
  | true =>
    rw [if_pos rfl, rebuildElementsAttr, h]
    exact if_pos (.inr rfl)
  | false =>
    rw [if_neg Bool.false_ne_true, rebuildElementsAttr, toTTMLIRSupportedDataType_idem h]
    exact if_pos (.inl rfl)

/-! ## Numbers -/

section Numbers

end Numbers

/-! ## Runs of the driver -/

namespace Module

variable {m : Module} {library : ConstantOp.Library}

/-- The value of a constant, rebuilt. -/
def change (m : Module) (library : ConstantOp.Library) (i : ℕ) (a : Attr) : Attr :=
  ((m.value i).map (rebuilt library)).getD a

/-- The state after some visits. -/
def after (m : Module) (library : ConstantOp.Library) (visited : List ℕ) (s : State) : State where
  types v := if ∃ i ∈ visited, v ∈ m.touched i then converted (s.types v) else s.types v
  attrs j := if j ∈ visited then m.change library j (s.attrs j) else s.attrs j

/-- The values of the constants are the ones at the start, or rebuilt. -/
def Ready (m : Module) (library : ConstantOp.Library) (s : State) : Prop :=
  ∀ i attr, m.value i = some attr →
    rebuildElementsAttr library attr.isResource (s.attrs i) = .ok (rebuilt library attr)

/-- The values of the constants have element types that are converted. -/
theorem Accepted.exists_of_value (h : m.Accepted) {i : ℕ} {attr : ElementsAttr}
    (hattr : m.value i = some attr) :
    ∃ op v, m.ops[i]? = some op ∧ op.constant = some (attr, v) ∧
      ∃ t', attr.elementType.toTTMLIRSupportedDataType = some t' := by
  obtain ⟨⟨_, v⟩, hconstant, rfl⟩ := Option.map_eq_some_iff.mp hattr
  obtain ⟨op, hop, hconstant⟩ := Option.bind_eq_some_iff.mp hconstant
  obtain ⟨hslot, shape, element, encoding, htype, helement⟩ :=
    h.constants op (List.mem_of_getElem? hop) _ v hconstant
  have hsome := h.supported op (List.mem_of_getElem? hop) v hslot
  rw [htype, convertType, Option.isSome_map, helement] at hsome
  exact ⟨op, v, hop, hconstant, Option.isSome_iff_exists.mp hsome⟩

/-- **One visit.** -/
theorem visit_eq {s : State} (hs : m.Ready library s) (i : ℕ) :
    m.visit library s i = .ok (m.after library [i] s) := by
  unfold visit
  simp only
  cases hattr : m.value i with
  | none =>
    refine congrArg Except.ok (State.ext (funext fun v => ?_) (funext fun j => ?_))
    · simp [after]
    · by_cases hj : j = i
      · simp [after, hj, change, hattr]
      · simp [after, hj]
  | some attr =>
    simp only
    rw [hs i attr hattr]
    refine congrArg Except.ok (State.ext (funext fun v => ?_) (funext fun j => ?_))
    · simp [after]
    · by_cases hj : j = i
      · simp [after, hj, change, hattr]
      · simp [after, hj]

theorem Ready.after {s : State} (h : m.Accepted) (hs : m.Ready library s) (visited : List ℕ) :
    m.Ready library (m.after library visited s) := by
  intro i attr hattr
  obtain ⟨-, -, -, -, t', ht'⟩ := h.exists_of_value hattr
  by_cases hi : i ∈ visited
  · have hafter : (m.after library visited s).attrs i = rebuilt library attr := by
      simp [Module.after, hi, change, hattr]
    rw [hafter]
    exact rebuildElementsAttr_rebuilt ht'
  · have hafter : (m.after library visited s).attrs i = s.attrs i := if_neg hi
    rw [hafter]
    exact hs i attr hattr

section Complete

variable {order : List ℕ} (horder : m.Complete order)

include horder

end Complete

variable (m)

end Module

/-! ## A call -/

/-- 2^40, which is saturated. -/
def large : ElementsAttr := ConstantOp.pair ⟨64, .signless⟩ (2 ^ 40) (by decide)

/-- A function calls another one with a constant, and returns what a relu gives there. -/
def callModule : Module where
  ops := [⟨[0], false, some (large, 0)⟩, ⟨[0, 1], false, none⟩, ⟨[1], false, none⟩,
    ⟨[2], false, none⟩, ⟨[3, 4, 5], false, none⟩, ⟨[4, 6], false, none⟩, ⟨[6], false, none⟩]
  blockArguments := [4]
  types _ := .tensor [2] large.elementType none
  links := [(0, 3), (3, 4), (6, 5), (5, 1), (1, 2)]
  typed _ _ := rfl

end ElementTypeNormalization
