/-
# Element types, and the numbers of tensors

The element types of integer and floating-point tensors, and the ones that the compiler supports
(`TTOpsTypes.h`).

* `ElementType.toTTMLIRSupportedDataType` : the supported type for an element type;
* `Number`, `ElementType.Represents` : the numbers of an element type;
* `ElementsAttr` : the value of a constant, with `ElementsAttr.values` for its numbers.

An integer type without a signedness has the one of the supported type of its width: words are
signed, and booleans, bytes and half words are not.
-/
import TTMLIR.TypecastFold
import TTMLIR.TTNNLayout

namespace TTIR

/-! ## Types -/

/-- `mlir::FloatType`; the other types have widths that no supported type has. -/
inductive FloatType : Type where
  | bf16 | f16 | f32 | f64 | other
  deriving DecidableEq, Repr

/-- The element type of a tensor. -/
inductive ElementType : Type where
  | integer (type : IntegerType)
  | float (type : FloatType)
  deriving DecidableEq, Repr

namespace ElementType

/-- `elementTypeToDataTypeImpl`. -/
def elementTypeToDataTypeImpl : ElementType → Option TTNN.DataType
  | .float .bf16 => some .bfloat16
  | .float .f32 => some .float32
  | .float .f64 => some .float32
  | .float .f16 => some .float16
  | .float .other => none
  | .integer t =>
    if t.width = 1 then some .bfloat16
    else if t.width = 8 then some .uint8
    else if t.width = 16 then some .uint16
    else if t.width = 32 ∨ t.width = 64 then
      if t.signedness = .unsigned then some .uint32 else some .int32
    else none

/-- `dataTypeToElementType`. -/
def dataTypeToElementType : TTNN.DataType → ElementType
  | .float32 => .float .f32
  | .float16 | .bfpFloat8 | .bfpFloat4 | .bfpFloat2 => .float .f16
  | .bfloat16 | .bfpBFloat8 | .bfpBFloat4 | .bfpBFloat2 => .float .bf16
  | .uint32 => .integer ⟨32, .unsigned⟩
  | .uint16 => .integer ⟨16, .unsigned⟩
  | .uint8 => .integer ⟨8, .unsigned⟩
  | .int32 => .integer ⟨32, .signed⟩

/-- `toTTMLIRSupportedDataType`. -/
def toTTMLIRSupportedDataType (t : ElementType) : Option ElementType :=
  t.elementTypeToDataTypeImpl.map dataTypeToElementType

end ElementType

/-! ## Numbers -/

/-- A number of a floating-point type. -/
inductive Number : Type where
  | finite (q : ℚ)
  | negZero
  | infinity (negative : Bool)
  | nan
  deriving DecidableEq

/-- The binary digits of a floating-point type, and its least and greatest exponents. -/
def FloatType.format : FloatType → Option (ℕ × ℤ × ℤ)
  | .bf16 => some (8, -133, 120)
  | .f16 => some (11, -24, 5)
  | .f32 => some (24, -149, 104)
  | .f64 => some (53, -1074, 971)
  | .other => none

/-- The number is one of a floating-point type. -/
def FloatType.Represents (t : FloatType) : Number → Prop
  | .finite q => ∃ digits low high, t.format = some (digits, low, high) ∧
      ∃ m e : ℤ, q = m * (2 : ℚ) ^ e ∧ |m| < 2 ^ digits ∧ low ≤ e ∧ e ≤ high
  | _ => t ≠ .other

/-- The number is one of an element type. -/
def ElementType.Represents : ElementType → Number → Prop
  | .integer t, .finite q => ∃ z : ℤ, q = z ∧ t.Holds z
  | .integer _, _ => False
  | .float t, x => t.Represents x

/-- The integers of the type have a sign. -/
def IntegerType.hasSign (t : IntegerType) : Bool :=
  t.signedness = .signed ∨ t.signedness = .signless ∧ t.width ∉ [1, 8, 16]

/-- The integer of some bits. -/
def IntegerType.value (t : IntegerType) (bits : ℕ) : ℤ :=
  if t.hasSign then Int.bmod bits (2 ^ t.width) else bits

/-! ## Constants -/

/-- An element: the bits of an integer, or a floating-point number. -/
inductive Element : Type where
  | bits (n : ℕ)
  | number (x : Number)
  deriving DecidableEq

/-- The element has the element type. -/
def ElementType.Contains : ElementType → Element → Prop
  | .integer t, .bits n => n < 2 ^ t.width
  | .float t, .number x => t.Represents x
  | _, _ => False

/-- The number of an element. -/
def ElementType.value : ElementType → Element → Number
  | .integer t, .bits n => .finite (t.value n)
  | .float _, .bits n => .finite n
  | _, .number x => x

/-- `ElementsAttr`: dense elements, or elements of a resource. -/
structure ElementsAttr : Type where
  elementType : ElementType
  shape : List ℕ
  elements : List Element
  isResource : Bool
  length_eq : elements.length = shape.prod
  contains : ∀ e ∈ elements, elementType.Contains e

namespace ElementsAttr

variable (attr : ElementsAttr)

/-- The numbers, in row-major order. -/
def values : List Number := attr.elements.map attr.elementType.value

/-- `getSplatValue`: the element that all dense elements are. -/
def getSplatValue : Option Element :=
  match attr.elements with
  | [] => none
  | e :: rest => if attr.isResource = false ∧ ∀ e' ∈ rest, e' = e then some e else none

/-- `isSplat`, of a resource the default of the interface: it has one element. -/
def isSplat : Bool :=
  if attr.isResource then attr.elements.length = 1 else attr.getSplatValue.isSome

/-- A splat is its element, repeated. -/
theorem elements_of_splat {e : Element} (h : attr.getSplatValue = some e) :
    e ∈ attr.elements ∧ attr.elements = List.replicate attr.elements.length e := by
  rw [getSplatValue] at h
  split at h
  · exact nomatch h
  · rename_i first rest hrest
    split at h
    · rename_i hall
      obtain rfl := Option.some.inj h
      rw [hrest]
      exact ⟨List.mem_cons_self,
        List.eq_replicate_iff.mpr ⟨rfl, List.forall_mem_cons.mpr ⟨rfl, hall.2⟩⟩⟩
    · exact nomatch h

/-- Only dense elements have a splat value. -/
theorem isResource_of_splat {e : Element} (h : attr.getSplatValue = some e) :
    attr.isResource = false := by
  rw [getSplatValue] at h
  grind

theorem isSplat_of_splat {e : Element} (h : attr.getSplatValue = some e) : attr.isSplat := by
  simp [isSplat, attr.isResource_of_splat h, h]

end ElementsAttr

end TTIR
