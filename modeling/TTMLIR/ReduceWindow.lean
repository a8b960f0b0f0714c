/-
# Lowering windowed reductions

`StableHLOToTTIRReduceWindowOpConversionPattern` of `StableHLOToTTIRPatterns.cpp` recognises
maximum pooling, average pooling and cumulative sums among windowed reductions, by the first
operation of the body, the initial value, and a division that uses the result.

* `ReduceWindowOp`, `ReduceWindowOp.Reduced` : the operation, and the values it may give;
* `checkInitValue`, `extractDivisor`, `isCumSum` : how it is recognised;
* `ReduceWindowOp.matchAndRewrite`, `ReduceWindowOp.Lowers` : the lowering;
* `ReduceWindowOp.lowers_iff_faithful` : when it preserves the values.

Values are rational numbers, and the least value of a type that has one stands below them.  Only
the first byte of an initial value in `bf16` is compared, any chain of operations on one operand is
skipped between the constant and the reduction, the body beyond its first operation is not looked
at, and a division by the number of window positions changes what the other users see.
-/
import TTMLIR.BroadcastInDim
import TTMLIR.PoolingToPool2d
import TTMLIR.WindowReduction

namespace TTIR

open Pooling

/-- The mean over the windows at every position; the padding counts as zero. -/
def Tensor.averagePool (ws : List Window) (x : Tensor ℚ) : Tensor ℚ :=
  ⟨extents ws x.shape, fun o => windowSum ws x.shape x.elem o / (sizes ws).prod⟩

/-- The sums of the elements up to every position along a dimension. -/
def Tensor.cumSum (x : Tensor ℚ) (dim : ℕ) : Tensor ℚ :=
  ⟨x.shape, fun o => ((List.range (o.getD dim 0 + 1)).map fun i => x.elem (o.set dim i)).sum⟩

/-- The elements as values with a least one below them. -/
def Tensor.extended (x : Tensor ℚ) : Tensor (WithBot ℚ) :=
  ⟨x.shape, fun o => (x.elem o : WithBot ℚ)⟩

end TTIR

namespace StableHLO.ReduceWindow

open MixedRadix Pooling TTIR Fallible

/-! ## Constants -/

/-- The element type of a constant. -/
inductive ConstantType where
  | bf16
  | f32
  | f64
  | integer (type : IntegerType)
  /-- Any other type of floating-point numbers. -/
  | float
deriving DecidableEq, Repr

/-- `stablehlo.constant`, with the bits of its first element. -/
structure ConstantOp where
  rank : ℕ
  size : ℕ
  type : ConstantType
  bits : ℕ
deriving DecidableEq, Repr

/-- The number that a floating-point format encodes, if it is finite or the least value. -/
def decodeFloat (exponentBits mantissaBits bits : ℕ) : Option (WithBot ℚ) :=
  let mantissa := bits % 2 ^ mantissaBits
  let exponent := bits / 2 ^ mantissaBits % 2 ^ exponentBits
  let negative := bits / 2 ^ (mantissaBits + exponentBits) % 2 = 1
  let scale : ℤ := 2 ^ (exponentBits - 1) - 1 + mantissaBits
  if exponent = 2 ^ exponentBits - 1 then if mantissa = 0 ∧ negative then some ⊥ else none
  else
    let magnitude : ℚ :=
      if exponent = 0 then mantissa * 2 ^ (1 - scale)
      else (2 ^ mantissaBits + mantissa) * 2 ^ (exponent - scale)
    some (if negative then -magnitude else magnitude : ℚ)

/-- The value of an integer; one bit is a truth value. -/
def integerValue (type : IntegerType) (bits : ℕ) : ℤ :=
  if type.width = 1 then bits % 2 else type.wrap bits

/-- The least value of an integer type. -/
def leastInteger (type : IntegerType) : ℤ :=
  if type.width = 1 ∨ type.isUnsigned then 0 else -2 ^ (type.width - 1)

/-- The value of a constant. -/
def ConstantOp.value (c : ConstantOp) : Option (WithBot ℚ) :=
  match c.type with
  | .bf16 => decodeFloat 8 7 c.bits
  | .f32 => decodeFloat 8 23 c.bits
  | .f64 => decodeFloat 11 52 c.bits
  | .integer type =>
    if integerValue type c.bits = leastInteger type then some ⊥
    else some (integerValue type c.bits : ℚ)
  | .float => none

/-- `TypicalInitReductionValue`. -/
inductive TypicalInitReductionValue where
  | negInf
  | zero
deriving DecidableEq, Repr

/-- The first byte of the raw data, as a signed `char` of 16 bits. -/
def firstByte (bits : ℕ) : ℕ := if bits % 256 < 128 then bits % 256 else bits % 256 + 0xff00

/-- `checkInitValue`. -/
def checkInitValue (c : ConstantOp) (desired : TypicalInitReductionValue) : Except String Bool :=
  if c.size ≠ 1 then .ok false
  else match c.type, desired with
    | .bf16, .negInf => .ok (firstByte c.bits = 0xff80)
    | .bf16, .zero => .ok (firstByte c.bits = 0x0000)
    | .f32, .negInf => .ok (c.bits = 0xff800000)
    | .f32, .zero => .ok (c.bits = 0 ∨ c.bits = 0x80000000)
    | .f64, .negInf => .ok (c.bits = 0xfff0000000000000)
    | .f64, .zero => .ok (c.bits = 0 ∨ c.bits = 0x8000000000000000)
    | .integer type, desired =>
      if type.width = 32 ∨ type.width = 64 then
        if type.isUnsigned then .error "Failed to get the values of the element type"
        else match desired with
          | .negInf => .ok (integerValue type c.bits = leastInteger type)
          | .zero => .ok (integerValue type c.bits = 0)
      else if type.width = 1 then .ok (c.bits % 2 = 0)
      else .ok false
    | .float, _ => .ok false

/-! ## The operation -/

/-- The operation that defines an initial value. -/
inductive InitValue where
  | blockArgument (v : WithBot ℚ)
  | constant (c : ConstantOp)
  /-- An operation on one operand. -/
  | unary (f : WithBot ℚ → WithBot ℚ) (operand : InitValue)
  /-- An operation on no operand, or on several. -/
  | other (v : WithBot ℚ)

/-- The initial value. -/
def InitValue.value : InitValue → Option (WithBot ℚ)
  | .blockArgument v => some v
  | .constant c => c.value
  | .unary f operand => operand.value.map f
  | .other v => some v

/-- A value that the body uses: its arguments, or one from outside. -/
inductive BodyOperand where
  | accumulated
  | element
  | outer (v : WithBot ℚ)
deriving DecidableEq

def BodyOperand.eval (acc elem : WithBot ℚ) : BodyOperand → WithBot ℚ
  | .accumulated => acc
  | .element => elem
  | .outer v => v

/-- An operation of the body; it returns the result of its first operation, or another value. -/
inductive BodyOp where
  | add (a b : BodyOperand)
  | max (a b : BodyOperand)
  | returnOp (v : Option BodyOperand)
  | other
deriving DecidableEq

def BodyOp.eval (acc elem : WithBot ℚ) : BodyOp → WithBot ℚ
  | .add a b => a.eval acc elem + b.eval acc elem
  | .max a b => Max.max (a.eval acc elem) (b.eval acc elem)
  | .returnOp _ => acc
  | .other => acc

/-- The operation that defines a divisor. -/
inductive Divisor where
  | blockArgument
  | constant (c : ConstantOp)
  | broadcastInDim (operand : Divisor)
  | reshape (operand : Divisor)
  /-- A conversion between element types, and what it does to a number. -/
  | convert (f : ℚ → ℚ) (operand : Divisor)
  | other

/-- A user of a result: a division of the result, a broadcast with its users, or another one. -/
inductive ResultUser where
  | div (divisor : Divisor)
  | broadcastInDim (op : BroadcastInDimOp) (users : List ResultUser)
  | other

/-- `stablehlo.reduce_window`: the shapes of its operands and results, what defines its initial
values, the blocks of its body, its attributes, and the users of its result. -/
structure ReduceWindowOp where
  inputs : List (List ℕ)
  initValues : List InitValue
  blocks : List (List BodyOp)
  windowDimensions : List ℤ
  windowStrides : Option (List ℤ)
  baseDilations : Option (List ℤ)
  windowDilations : Option (List ℤ)
  padding : Option (List ℤ)
  results : List (List ℕ)
  users : List ResultUser

namespace ReduceWindowOp

variable (op : ReduceWindowOp)

def ones : List ℤ := List.replicate op.windowDimensions.length 1

def input : List ℕ := op.inputs.getD 0 []

def output : List ℕ := op.results.getD 0 []

/-- The emitted pooling: attributes that are not given have their defaults. -/
def pooling (poolingMethod : PoolingMethod) : PoolingOp where
  inputs := op.inputs.map convertShape
  results := [convertShape op.output]
  poolingMethod := poolingMethod
  windowDimensions := op.windowDimensions
  windowStrides := op.windowStrides.getD op.ones
  baseDilations := op.baseDilations.getD op.ones
  windowDilations := op.windowDilations.getD op.ones
  padding := op.padding.getD (List.replicate (op.windowDimensions.length * 2) 0)

/-- The windows of the reduction. -/
def windows : List Window := (op.pooling .max).windows

/-- What the definition of the operation asks of its attributes and its result. -/
structure Valid : Prop where
  rank : op.windowDimensions.length = op.input.length
  strides : (op.windowStrides.getD op.ones).length = op.input.length
  baseDilations : (op.baseDilations.getD op.ones).length = op.input.length
  dilations : (op.windowDilations.getD op.ones).length = op.input.length
  padding : (op.padding.getD (List.replicate (op.windowDimensions.length * 2) 0)).length
    = 2 * op.input.length
  positive : ∀ w ∈ op.windows, w.Positive
  typed : op.output = extents op.windows op.input
  users : ∀ b us, ResultUser.broadcastInDim b us ∈ op.users → b.operand = op.output

/-- The body: the value it returns. -/
def bodyEval (acc elem : WithBot ℚ) : WithBot ℚ :=
  match op.blocks with
  | [[front, .returnOp none]] => front.eval acc elem
  | [[_, .returnOp (some v)]] => v.eval acc elem
  | _ => acc

/-- The initial value. -/
def initValue : Option (WithBot ℚ) := (op.initValues.head?.bind InitValue.value)

/-- The values that the reduction may give at an output index: those of the window, in their
order, are combined by the body, and the padding holds the initial value. -/
def Reduced (init : WithBot ℚ) (x : Tensor ℚ) (o : List ℕ) (r : WithBot ℚ) : Prop :=
  Reduces op.bodyEval init
    ((slots op.windows op.input o).map fun s => s.elim init fun p => (x.elem p : WithBot ℚ)) r

/-! ## The recognition -/

/-- `hasValidOpStructure`. -/
def hasValidOpStructure : Bool :=
  (match op.blocks with
  | [block] => block.length = 2
  | _ => false) && op.inputs.length = 1 && op.results.length = 1

/-- The constant behind operations on one operand. -/
def definingConstant : InitValue → Except String (Option ConstantOp)
  | .blockArgument _ => .error "null defining operation"
  | .constant c => .ok (some c)
  | .unary _ operand => definingConstant operand
  | .other _ => .ok none

/-- `extractInitValue`. -/
def extractInitValue : Except String (Option TypicalInitReductionValue) :=
  if 1 < op.initValues.length then .ok none
  else match op.initValues with
    | [] => .error "front of an empty range"
    | init :: _ => do
        match ← definingConstant init with
        | none => return none
        | some c =>
          if ← checkInitValue c .negInf then return some .negInf
          else if ← checkInitValue c .zero then return some .zero
          else return none

/-- `isMaxPool`. -/
def isMaxPool (init : TypicalInitReductionValue) (frontOp : BodyOp) : Bool :=
  match frontOp with
  | .max _ _ => init = .negInf
  | _ => false

/-- The constant behind broadcasts, reshapes and conversions. -/
def divisorConstant : Divisor → Option ConstantOp
  | .blockArgument => none
  | .constant c => some c
  | .broadcastInDim operand => divisorConstant operand
  | .reshape operand => divisorConstant operand
  | .convert _ operand => divisorConstant operand
  | .other => none

/-- A division that was found: the broadcast on the way to it, and its divisor. -/
structure DivOp where
  broadcast : Option BroadcastInDimOp
  divisor : Divisor

/-- `int64_t`. -/
def int64 (x : ℤ) : ℤ := IntegerType.wrap ⟨64, .signed⟩ x

/-- The end of `extractDivisor`: the divisor is compared with the size of the kernel. -/
def checkDivisor (broadcast : Option BroadcastInDimOp) : ResultUser → Except String (Option DivOp)
  | .div divisor =>
    match divisorConstant divisor with
    | none => .ok none
    | some c =>
      if c.rank ≠ 0 then .ok none
      else match c.type with
        | .integer type =>
          if int64 (c.bits % 2 ^ type.width : ℕ) = int64 op.windowDimensions.prod then
            .ok (some ⟨broadcast, divisor⟩)
          else .ok none
        | _ => .error "Failed to get the values of the element type"
  | _ => .ok none

/-- `extractDivisor`. -/
def extractDivisor : Except String (Option DivOp) :=
  match op.users with
  | [] => .error "begin of an empty range"
  | .broadcastInDim b users :: _ =>
    match users with
    | [] => .error "begin of an empty range"
    | user :: _ => op.checkDivisor (some b) user
  | user :: _ => op.checkDivisor none user

/-- `isAvgPool`. -/
def isAvgPool (init : TypicalInitReductionValue) (frontOp : BodyOp) :
    Except String (Option DivOp) :=
  match frontOp with
  | .add _ _ => if init = .zero then op.extractDivisor else .ok none
  | _ => .ok none

/-- `hasValidWindowAttributes`: the elements are compared as 32-bit numbers. -/
def hasValidWindowAttributes : Bool :=
  let verifyAttributes : Option (List ℤ) → Bool := fun
    | none => true
    | some arrAttr => arrAttr.all fun value => int32 value = 1
  verifyAttributes op.windowStrides && verifyAttributes op.baseDilations &&
    verifyAttributes op.windowDilations

/-- `findDimensionWithShape`: the first dimension of one element. -/
def findDimensionWithShape (shape : List ℕ) : Option ℕ := shape.findIdx? (· = 1)

/-- `validateNonSplatPadding`. -/
def validateNonSplatPadding (windowDimensions padding : List ℤ) (shape : List ℕ) :
    Except String (Option ℕ) :=
  match (List.range windowDimensions.length).filter fun i => windowDimensions.getD i 0 ≠ 1 with
  | [] => .error "uninitialized dimension"
  | [dimension] =>
    let dimArgValue := windowDimensions.getD dimension 0
    if dimArgValue ≠ shape.getD dimension 0 ∨ dimArgValue ≤ 1 then .ok none
    else if (List.range padding.length).all fun i =>
        padding.getD i 0 = if i = dimension * 2 then dimArgValue - 1 else 0 then
      .ok (some dimension)
    else .ok none
  | _ => .ok none

/-- `hasValidInputAndPadding`. -/
def hasValidInputAndPadding (padding : List ℤ) : Except String (Option ℕ) :=
  let shape := convertShape op.input
  if padding.length ≠ shape.length * 2 then .ok none
  else if padding.all fun p => p = padding.getD 0 0 then
    if padding.getD 0 0 ≠ 0 then .ok none
    else if op.windowDimensions.all fun value => int32 value = 1 then
      .ok (findDimensionWithShape shape)
    else .ok none
  else validateNonSplatPadding op.windowDimensions padding shape

/-- `isCumSum`. -/
def isCumSum (init : TypicalInitReductionValue) (frontOp : BodyOp) (padding : List ℤ) :
    Except String (Option ℕ) :=
  match frontOp with
  | .add _ _ =>
    if init ≠ .zero then .ok none
    else if op.hasValidWindowAttributes then op.hasValidInputAndPadding padding
    else .ok none
  | _ => .ok none

/-! ## The pattern -/

/-- `ttir.cumsum`: the shapes of its operand and result, and its attribute. -/
structure CumSumOp where
  input : List ℕ
  dim : ℤ
  output : List ℕ
deriving DecidableEq, Repr

/-- `CumSumOp::verify`. -/
def CumSumOp.verify (op : CumSumOp) : Except String Unit :=
  if op.dim < -op.input.length ∨ op.input.length ≤ op.dim then
    .error s!"specified dimension should be between {-(op.input.length : ℤ)} and {(op.input.length : ℤ) - 1}, but got: {op.dim}"
  else .ok ()

/-- What the reduction is replaced by; the average also replaces the division. -/
inductive Lowered where
  | maxPool (op : PoolingOp)
  | averagePool (op : PoolingOp) (divOp : DivOp)
  | cumSum (op : CumSumOp)

/-- The checks of the block: it ends with a return, and begins with a sum or a maximum. -/
def frontOp : Except String BodyOp :=
  let operations := op.blocks.getD 0 []
  match operations.getLast?, operations.getD 0 .other with
  | some (.returnOp _), .add a b => .ok (.add a b)
  | some (.returnOp _), .max a b => .ok (.max a b)
  | some (.returnOp _), _ => .error "Invalid first op in the block."
  | _, _ => .error "Invalid last op in the block."

/-- `matchAndRewrite`. -/
def matchAndRewrite : Except String Lowered :=
  if ¬ op.hasValidOpStructure then .error "Invalid structure of reduce window block."
  else do
    match ← op.extractInitValue with
    | none => .error "Unable to extract constant initialization value."
    | some initValue =>
      let frontOp ← op.frontOp
      if isMaxPool initValue frontOp then return .maxPool (op.pooling .max)
      else
        match ← op.isAvgPool initValue frontOp with
        | some divOp => return .averagePool (op.pooling .average) divOp
        | none =>
          match ← op.isCumSum initValue frontOp (op.pooling .max).padding with
          | some dimension =>
            return .cumSum ⟨convertShape op.input, dimension, convertShape op.output⟩
          | none => .error "Unsupported pooling method"

/-! ## The values -/

/-- The divisor as a number: that of its constant, converted. -/
def divisorValue : Divisor → ℚ
  | .constant c =>
    match c.type with
    | .integer type => integerValue type c.bits
    | _ => 0
  | .broadcastInDim operand => divisorValue operand
  | .reshape operand => divisorValue operand
  | .convert f operand => f (divisorValue operand)
  | _ => 0

def DivOp.value (divOp : DivOp) : ℚ := divisorValue divOp.divisor

/-- The result has users other than the division. -/
def otherUsers : List ResultUser → Prop
  | [.broadcastInDim _ users] => users.length ≠ 1
  | [_] => False
  | _ => True

/-- What is done to the result of the reduction is what a tensor function does to the operand,
and the padding contributes the initial value. -/
structure Computes (init e : WithBot ℚ) (f : WithBot ℚ → WithBot ℚ)
    (y : Tensor ℚ → Tensor (WithBot ℚ)) : Prop where
  shape : ∀ x : Tensor ℚ, x.shape = op.input → (y x).shape = op.output
  padding : ∀ o, InShape o op.output → none ∈ slots op.windows op.input o → init = e
  values : ∀ x : Tensor ℚ, x.shape = op.input → ∀ o, InShape o op.output →
    ∀ r, op.Reduced init x o r → f r = (y x).elem o

/-- The user of a broadcast result that is replaced has the values of the average. -/
def Forwards (init : WithBot ℚ) (divOp : DivOp) (y : Tensor ℚ → Tensor (WithBot ℚ)) : Prop :=
  ∀ b, divOp.broadcast = some b → b.result = op.output ∧
    ∀ x : Tensor ℚ, x.shape = op.input → ∀ i, InShape i b.result →
      ∀ r, op.Reduced init x (b.operandIndex i) r → r.map (· / divOp.value) = (y x).elem i

/-- **The reduction is lowered without changing values**: for every operand and every order of
the reduction, what replaces the result, and the division of it, has their values. -/
def Lowers : Lowered → Prop
  | .maxPool p => ∃ init, op.initValue = some init ∧ p.verify = .ok () ∧
      op.Computes init ⊥ id fun x => x.extended.maxPool p.windows
  | .averagePool p divOp => ∃ init, op.initValue = some init ∧ p.verify = .ok () ∧
      divOp.value ≠ 0 ∧
      op.Computes init 0 (WithBot.map (· / divOp.value))
        (fun x => (x.averagePool p.windows).extended) ∧
      op.Forwards init divOp (fun x => (x.averagePool p.windows).extended) ∧
      (otherUsers op.users → op.Computes init 0 id fun x => (x.averagePool p.windows).extended)
  | .cumSum c => ∃ init, op.initValue = some init ∧ c.verify = .ok () ∧
      op.Computes init 0 id fun x => (x.cumSum c.dim.toNat).extended

/-! ## The condition -/

/-- Some output index reads an element of the operand. -/
def ReadsSome : Prop := ∃ o, InShape o op.output ∧ reads op.windows op.input o ≠ []

/-- The body combines its two arguments by its first operation. -/
def Combines : Prop :=
  ∃ a b, (a = .accumulated ∧ b = .element ∨ a = .element ∧ b = .accumulated) ∧
    (op.blocks = [[.max a b, .returnOp none]] ∨ op.blocks = [[.add a b, .returnOp none]])

/-- The initial value is neutral for the body: where there is output, it is the value wanted, the
body keeps it, and where elements are read, the body combines its arguments. -/
def Neutral (init e : WithBot ℚ) : Prop :=
  (∃ o, InShape o op.output) →
    init = e ∧ op.bodyEval e e = e ∧ (op.ReadsSome → op.Combines)

/-- The windows cover the positions up to every one along a dimension. -/
def Cumulative (dim : ℕ) : Prop :=
  op.output = op.input ∧ ∀ o, InShape o op.output → ∀ p,
    p ∈ reads op.windows op.input o ↔ p ∈ (List.range (o.getD dim 0 + 1)).map fun i => o.set dim i

/-- Every division is by the number of window positions, a broadcast on the way to it changes no
window, and others use the result only where that number is one. -/
structure Averages (divOp : DivOp) : Prop where
  value_ne : divOp.value ≠ 0
  value : op.ReadsSome → divOp.value = (sizes op.windows).prod
  broadcast : ∀ b, divOp.broadcast = some b → b.result = op.output ∧
    ∀ i, InShape i op.output → ∀ p,
      p ∈ reads op.windows op.input (b.operandIndex i) ↔ p ∈ reads op.windows op.input i
  others : otherUsers op.users → op.ReadsSome → (sizes op.windows).prod = 1

/-- **What the recognition has to establish**, by the kind of the body and the users. -/
def Faithful : Prop :=
  op.input ≠ [] ∧ ∃ init, op.initValue = some init ∧
    match op.blocks, op.extractDivisor with
    | (.max _ _ :: _) :: _, _ => op.Neutral init ⊥
    | _, .ok (some divOp) => op.Neutral init 0 ∧ op.Averages divOp
    | _, _ => op.Neutral init 0 ∧ ∀ dim,
        op.hasValidInputAndPadding (op.pooling .max).padding = .ok (some dim) → op.Cumulative dim

/-! ## Neutral initial values -/

section Body

/-- What a body returns: the result of its first operation `f`, or another value. -/
def frontEval (f : WithBot ℚ → WithBot ℚ → WithBot ℚ) (a b : BodyOperand)
    (returned : Option BodyOperand) (acc elem : WithBot ℚ) : WithBot ℚ :=
  match returned with
  | none => f (a.eval acc elem) (b.eval acc elem)
  | some v => v.eval acc elem

variable {f : WithBot ℚ → WithBot ℚ → WithBot ℚ} {a b : BodyOperand}
  {returned : Option BodyOperand} {init e : WithBot ℚ}

theorem false_of_forall_eq {v : WithBot ℚ} (h : ∀ q : ℚ, v = q) : False := by
  have hone := (h 0).symm.trans (h 1)
  exact absurd (WithBot.coe_injective hone) (by decide)

/-- A body that keeps every number, before and after the initial value, combines its arguments,
and the initial value is neutral. -/
theorem combines_of_neutral (h : ∀ q : ℚ, frontEval f a b returned init q = q)
    (h' : ∀ q : ℚ, frontEval f a b returned q init = q) :
    returned = none ∧ (a = .accumulated ∧ b = .element ∨ a = .element ∧ b = .accumulated) ∧
      ∀ q : ℚ, f init q = q := by
  -- unless both arguments are used, the value does not depend on the number
  match returned, a, b with
  | some .accumulated, _, _ => exact (false_of_forall_eq (v := init) h).elim
  | some .element, _, _ => exact (false_of_forall_eq (v := init) h').elim
  | some (.outer v), _, _ => exact (false_of_forall_eq (v := v) h).elim
  | none, .accumulated, .element => exact ⟨rfl, .inl ⟨rfl, rfl⟩, h⟩
  | none, .element, .accumulated => exact ⟨rfl, .inr ⟨rfl, rfl⟩, h'⟩
  | none, .accumulated, .accumulated => exact (false_of_forall_eq (v := f init init) h).elim
  | none, .accumulated, .outer v => exact (false_of_forall_eq (v := f init v) h).elim
  | none, .outer v, .accumulated => exact (false_of_forall_eq (v := f v init) h).elim
  | none, .outer v, .outer w => exact (false_of_forall_eq (v := f v w) h).elim
  | none, .element, .element => exact (false_of_forall_eq (v := f init init) h').elim
  | none, .element, .outer v => exact (false_of_forall_eq (v := f init v) h').elim
  | none, .outer v, .element => exact (false_of_forall_eq (v := f v init) h').elim

theorem frontEval_of_combines [Std.Commutative f]
    (h : a = .accumulated ∧ b = .element ∨ a = .element ∧ b = .accumulated) :
    frontEval f a b none = f := by
  have hcomm : ∀ v w : WithBot ℚ, f v w = f w v := Std.Commutative.comm
  funext acc elem
  rcases h with ⟨rfl, rfl⟩ | ⟨rfl, rfl⟩
  · rfl
  · exact hcomm _ _

theorem eq_bot_of_max (h : ∀ q : ℚ, max init (q : WithBot ℚ) = q) : init = ⊥ := by
  induction init with
  | bot => rfl
  | coe v =>
    have hle := max_eq_right_iff.mp (h (v - 1))
    have : v ≤ v - 1 := by exact_mod_cast hle
    linarith

theorem eq_zero_of_add (h : ∀ q : ℚ, init + (q : WithBot ℚ) = q) : init = 0 := by
  have hzero := h 0
  rwa [WithBot.coe_zero, add_zero] at hzero

end Body

instance : Std.LawfulIdentity (α := WithBot ℚ) max ⊥ where
  left_id _ := max_bot_left _
  right_id _ := max_bot_right _

instance : Std.LawfulIdentity (α := WithBot ℚ) (· + ·) 0 where
  left_id := zero_add
  right_id := add_zero

/-! ## The values of a reduction -/

variable {o : List ℕ} {x : Tensor ℚ} {r : WithBot ℚ} {a b : BodyOperand}
variable {returned : Option BodyOperand}

section Values

variable {op : ReduceWindowOp} {init : WithBot ℚ}

theorem exists_reduced (op : ReduceWindowOp) (init : WithBot ℚ) (x : Tensor ℚ) (o : List ℕ) :
    ∃ r, op.Reduced init x o r :=
  Reduces.exists_reduces _ _ _

/-- A reduction that gives every number is by a body that combines its arguments, and its initial
value is neutral. -/
theorem combines_of_reduced {f : WithBot ℚ → WithBot ℚ → WithBot ℚ}
    (hbody : op.bodyEval = frontEval f a b returned)
    (h : ∀ q : ℚ, ∃ x : Tensor ℚ, ∀ r, op.Reduced init x o r → r = q) :
    returned = none ∧ (a = .accumulated ∧ b = .element ∨ a = .element ∧ b = .accumulated) ∧
      ∀ q : ℚ, f init q = q := by
  have hkeep : ∀ q : ℚ, frontEval f a b returned init q = q ∧
      frontEval f a b returned q init = q := by
    intro q
    obtain ⟨x, hx⟩ := h q
    obtain ⟨r, hr⟩ := op.exists_reduced init x o
    have hinit := hx _ (Reduces.init_body hr)
    have hinit' := hx _ (Reduces.body_init hr)
    rw [hx r hr, hbody] at hinit hinit'
    exact ⟨hinit, hinit'⟩
  exact combines_of_neutral (fun q => (hkeep q).1) fun q => (hkeep q).2

theorem reduced_eq_foldr {f : WithBot ℚ → WithBot ℚ → WithBot ℚ} [Std.Associative f]
    [Std.LawfulIdentity f init] (hbody : op.bodyEval = f)
    (h : op.Reduced init x o r) :
    r = ((reads op.windows op.input o).map fun p => (x.elem p : WithBot ℚ)).foldr f init := by
  rw [Reduced, hbody] at h
  rw [h.eq_foldr, foldr_slots]

theorem reduced_eq_of_reads_nil {e : WithBot ℚ} (hinit : init = e) (hbody : op.bodyEval e e = e)
    (hreads : reads op.windows op.input o = [])
    (h : op.Reduced init x o r) : r = e := by
  refine Reduces.eq_of_forall_eq hinit hbody (fun v hv => ?_) h
  obtain ⟨s, hs, rfl⟩ := List.mem_map.mp hv
  cases s with
  | none => exact hinit
  | some p =>
    rw [← mem_reads, hreads] at hs
    cases hs

end Values

/-! ## Windows of an operation -/

section Windows

variable {op : ReduceWindowOp} (hvalid : op.Valid)

include hvalid

theorem length_windows : op.windows.length = op.input.length := by
  rw [windows, PoolingOp.windows, List.length_map, List.length_range]
  exact hvalid.rank

theorem length_output : op.output.length = op.windows.length := by
  rw [hvalid.typed, extents, List.length_zipWith, length_windows hvalid, min_self]

theorem slots_ne_nil (o : List ℕ) : slots op.windows op.input o ≠ [] := by
  have hpos : 0 < (sizes op.windows).prod := by
    apply List.prod_pos
    intro n hn
    obtain ⟨w, hw, rfl⟩ := List.mem_map.mp hn
    have := (hvalid.positive w hw).size
    omega
  intro hnil
  have hlength := congrArg List.length hnil
  rw [slots, windowIndices, List.length_map, List.length_map, List.length_range,
    List.length_nil] at hlength
  omega

end Windows

/-! ## When the values are kept -/

section Kept

variable {op : ReduceWindowOp} {init e : WithBot ℚ}
  {f : WithBot ℚ → WithBot ℚ → WithBot ℚ} {a b : BodyOperand} {returned : Option BodyOperand}

/-- A window that reads nothing shows that the body keeps the initial value. -/
theorem keeps_of_reads_nil (hvalid : op.Valid) (hreads : reads op.windows op.input o = [])
    (hpadding : none ∈ slots op.windows op.input o → init = e)
    (hvalues : ∀ r, op.Reduced init x o r → r = e) : init = e ∧ op.bodyEval e e = e := by
  obtain ⟨s, hs⟩ := List.exists_mem_of_ne_nil _ (slots_ne_nil hvalid o)
  have hnone : s = none := by
    cases s with
    | none => rfl
    | some p =>
      rw [← mem_reads, hreads] at hs
      cases hs
  have hinit := hpadding (hnone ▸ hs)
  obtain ⟨r, hr⟩ := op.exists_reduced init x o
  have hkeep := hvalues _ (Reduces.body_init hr)
  rw [hvalues r hr, hinit] at hkeep
  exact ⟨hinit, hkeep⟩

variable [Std.Commutative f] [Std.Associative f] [Std.LawfulIdentity f e]

/-- **With a neutral initial value**, the reduction folds what is read. -/
theorem reduced_eq (hbody : op.bodyEval = frontEval f a b returned)
    (hinit : init = e) (hkeep : op.bodyEval e e = e)
    (hcombines : reads op.windows op.input o ≠ [] →
      returned = none ∧ (a = .accumulated ∧ b = .element ∨ a = .element ∧ b = .accumulated))
    (h : op.Reduced init x o r) :
    r = ((reads op.windows op.input o).map fun p => (x.elem p : WithBot ℚ)).foldr f e := by
  by_cases hreads : reads op.windows op.input o = []
  · rw [reduced_eq_of_reads_nil hinit hkeep hreads h, hreads]
    rfl
  · obtain ⟨hreturned, hargs⟩ := hcombines hreads
    rw [hreturned, frontEval_of_combines hargs] at hbody
    subst hinit
    exact reduced_eq_foldr hbody h

end Kept

section Maximum

variable {op : ReduceWindowOp} {init : WithBot ℚ} {a b : BodyOperand}
  {returned : Option BodyOperand}

theorem bodyEval_max (hblocks : op.blocks = [[.max a b, .returnOp returned]]) :
    op.bodyEval = frontEval max a b returned := by
  funext acc elem
  rw [bodyEval, hblocks]
  cases returned <;> rfl

theorem combines_max_iff (hblocks : op.blocks = [[.max a b, .returnOp returned]]) : op.Combines ↔
      returned = none ∧ (a = .accumulated ∧ b = .element ∨ a = .element ∧ b = .accumulated) := by
  rw [Combines, hblocks]
  constructor
  · rintro ⟨a', b', hargs, h | h⟩
    · simp only [List.cons.injEq, BodyOp.max.injEq, BodyOp.returnOp.injEq, and_true] at h
      obtain ⟨⟨rfl, rfl⟩, rfl⟩ := h
      exact ⟨rfl, hargs⟩
    · simp at h
  · rintro ⟨rfl, hargs⟩
    exact ⟨a, b, hargs, .inl rfl⟩

/-- **Maximum pooling** has the values of the reduction when the initial value is neutral. -/
theorem computes_max_iff (hvalid : op.Valid)
    (hblocks : op.blocks = [[.max a b, .returnOp returned]]) :
    op.Computes init ⊥ id (fun x => x.extended.maxPool op.windows) ↔ op.Neutral init ⊥ := by
  have hbody := bodyEval_max hblocks
  have hmax : ∀ (x : Tensor ℚ) (o : List ℕ), InShape o op.output →
      ((reads op.windows op.input o).map fun p => (x.elem p : WithBot ℚ)).foldr max ⊥
        = windowMax op.windows op.input x.extended.elem o := by
    intro x o ho
    exact foldr_reads_max hvalid.positive (length_windows hvalid)
      (ho.length_eq.trans (length_output hvalid)) _
  constructor
  · intro h
    have hread : ∀ o, InShape o op.output → reads op.windows op.input o ≠ [] →
        op.Combines ∧ init = ⊥ := by
      intro o ho hreads
      obtain ⟨hreturned, hargs, hneutral⟩ := combines_of_reduced hbody fun q =>
        ⟨⟨op.input, fun _ => q⟩, fun r hr => by
          obtain ⟨p, hp⟩ := List.exists_mem_of_ne_nil _ hreads
          rw [show r = _ from h.values ⟨op.input, fun _ => q⟩ rfl o ho r hr]
          show windowMax op.windows op.input (fun _ => (q : WithBot ℚ)) o = q
          apply le_antisymm
          · exact windowMax_le_iff.mpr fun _ _ _ => le_rfl
          · obtain ⟨hp, hpreads⟩ := (mem_slots_iff hvalid.positive (length_windows hvalid)
              (ho.length_eq.trans (length_output hvalid))).mp (mem_reads.mp hp)
            exact windowMax_le_iff.mp (le_refl (windowMax op.windows op.input
              (fun _ => (q : WithBot ℚ)) o)) p hp hpreads⟩
      exact ⟨(combines_max_iff hblocks).mpr ⟨hreturned, hargs⟩, eq_bot_of_max hneutral⟩
    rintro ⟨o, ho⟩
    by_cases hreads : reads op.windows op.input o = []
    · obtain ⟨hinit, hkeep⟩ := keeps_of_reads_nil (x := ⟨op.input, fun _ => 0⟩) hvalid hreads
        (h.padding o ho) fun r hr => by
          rw [show r = _ from h.values _ rfl o ho r hr]
          show windowMax op.windows op.input _ o = ⊥
          rw [← hmax _ o ho, hreads]
          rfl
      exact ⟨hinit, hkeep, fun ⟨o', ho', hreads'⟩ => (hread o' ho' hreads').1⟩
    · obtain ⟨hcombines, hinit⟩ := hread o ho hreads
      refine ⟨hinit, ?_, fun _ => hcombines⟩
      obtain ⟨hreturned, hargs⟩ := (combines_max_iff hblocks).mp hcombines
      rw [hbody, hreturned, frontEval_of_combines hargs]
      exact max_self _
  · intro h
    refine ⟨fun x hx => ?_, fun o ho _ => (h ⟨o, ho⟩).1, fun x hx o ho r hr => ?_⟩
    · show extents op.windows x.shape = op.output
      rw [hx, hvalid.typed]
    · obtain ⟨hinit, hkeep, hcombines⟩ := h ⟨o, ho⟩
      show r = windowMax op.windows x.shape x.extended.elem o
      rw [hx, ← hmax x o ho]
      exact reduced_eq hbody hinit hkeep
        (fun hreads => (combines_max_iff hblocks).mp (hcombines ⟨o, ho, hreads⟩)) hr

end Maximum

section Sum

variable {op : ReduceWindowOp} {init : WithBot ℚ} {a b : BodyOperand}
  {returned : Option BodyOperand}

theorem bodyEval_add (hblocks : op.blocks = [[.add a b, .returnOp returned]]) :
    op.bodyEval = frontEval (· + ·) a b returned := by
  funext acc elem
  rw [bodyEval, hblocks]
  cases returned <;> rfl

theorem combines_add_iff (hblocks : op.blocks = [[.add a b, .returnOp returned]]) : op.Combines ↔
      returned = none ∧ (a = .accumulated ∧ b = .element ∨ a = .element ∧ b = .accumulated) := by
  rw [Combines, hblocks]
  constructor
  · rintro ⟨a', b', hargs, h | h⟩
    · simp at h
    · simp only [List.cons.injEq, BodyOp.add.injEq, BodyOp.returnOp.injEq, and_true] at h
      obtain ⟨⟨rfl, rfl⟩, rfl⟩ := h
      exact ⟨rfl, hargs⟩
  · rintro ⟨rfl, hargs⟩
    exact ⟨a, b, hargs, .inr rfl⟩

theorem foldr_add_coe (l : List (List ℕ)) (x : List ℕ → ℚ) :
    (l.map fun p => (x p : WithBot ℚ)).foldr (· + ·) 0 = (((l.map x).sum : ℚ) : WithBot ℚ) := by
  induction l with
  | nil => rfl
  | cons p l ih => rw [List.map_cons, List.foldr_cons, ih, List.map_cons, List.sum_cons,
      WithBot.coe_add]

theorem eq_of_map_div {c q : ℚ} (hc : c ≠ 0)
    (h : r.map (· / c) = ((q / c : ℚ) : WithBot ℚ)) : r = q := by
  have hinj : Function.Injective fun v : ℚ => v / c := fun v w hvw => (div_left_inj' hc).mp hvw
  exact WithBot.map_injective hinj h

/-- **Sums** have the values of the reduction, up to factors, when the initial value is neutral,
the factors are the same, and the same indices are summed. -/
theorem computes_sum_iff (hvalid : op.Valid)
    (hblocks : op.blocks = [[.add a b, .returnOp returned]]) {c n : ℚ} (hc : c ≠ 0) (hn : n ≠ 0)
    {y : Tensor ℚ → Tensor ℚ} {summed : List ℕ → List (List ℕ)}
    (hshape : ∀ x : Tensor ℚ, x.shape = op.input → (y x).shape = op.output)
    (hy : ∀ x : Tensor ℚ, x.shape = op.input → ∀ o, (y x).elem o = ((summed o).map x.elem).sum / n)
    (hnodup : ∀ o, InShape o op.output → (summed o).Nodup)
    (hover : ∀ o, InShape o op.output → summed o = [] → reads op.windows op.input o = []) :
    op.Computes init 0 (WithBot.map (· / c)) (fun x => (y x).extended) ↔
      op.Neutral init 0 ∧ (op.ReadsSome → c = n) ∧
        ∀ o, InShape o op.output → ∀ p, p ∈ reads op.windows op.input o ↔ p ∈ summed o := by
  have hbody := bodyEval_add hblocks
  have hreadsNodup : ∀ o, InShape o op.output → (reads op.windows op.input o).Nodup :=
    fun o ho => nodup_reads hvalid.positive (length_windows hvalid)
      (ho.length_eq.trans (length_output hvalid))
  constructor
  · intro h
    have hread : ∀ o, InShape o op.output → summed o ≠ [] → op.Combines ∧ init = 0 ∧ c = n ∧
          ∀ p, p ∈ reads op.windows op.input o ↔ p ∈ summed o := by
      intro o ho hne
      obtain ⟨p, hp⟩ := List.exists_mem_of_ne_nil _ hne
      have hscaled : ∀ k : ℚ, ((summed o).map fun q => k * if q = p then (1 : ℚ) else 0).sum = k := by
        intro k
        rw [List.sum_map_mul_left, sum_mark (hnodup o ho), if_pos hp, mul_one]
      -- a multiple of a mark gives every number
      obtain ⟨hreturned, hargs, hneutral⟩ := combines_of_reduced hbody fun q =>
        ⟨⟨op.input, fun p' => n * q / c * if p' = p then 1 else 0⟩, fun r hr => by
          have hvalue := h.values _ rfl o ho r hr
          rw [show (Tensor.extended _).elem o = _ from congrArg WithBot.some (hy _ rfl o)] at hvalue
          apply eq_of_map_div hc
          rw [hvalue, hscaled]
          congr 1
          field_simp⟩
      have hinit := eq_zero_of_add hneutral
      have hsum : ∀ x : List ℕ → ℚ, ((reads op.windows op.input o).map x).sum / c
          = ((summed o).map x).sum / n := by
        intro x
        obtain ⟨r, hr⟩ := op.exists_reduced init ⟨op.input, x⟩ o
        have hvalue := h.values _ rfl o ho r hr
        have hkeep : op.bodyEval 0 0 = 0 := by
          rw [hbody, hreturned, frontEval_of_combines hargs]
          exact add_zero 0
        rw [reduced_eq hbody hinit hkeep (fun _ => ⟨hreturned, hargs⟩) hr, foldr_add_coe] at hvalue
        rw [show (Tensor.extended _).elem o = _ from congrArg WithBot.some (hy _ rfl o)] at hvalue
        exact WithBot.coe_injective hvalue
      have hmark := hsum fun q => if q = p then 1 else 0
      rw [sum_mark (hreadsNodup o ho), sum_mark (hnodup o ho), if_pos hp] at hmark
      have hcn : c = n := by
        split_ifs at hmark
        · field_simp at hmark
          exact hmark.symm
        · rw [zero_div] at hmark
          exact absurd hmark.symm (one_div_ne_zero hn)
      refine ⟨(combines_add_iff hblocks).mpr ⟨hreturned, hargs⟩, hinit, hcn, ?_⟩
      rw [← sum_eq_iff (hreadsNodup o ho) (hnodup o ho)]
      intro x
      have hdiv := hsum x
      rwa [hcn, div_left_inj' hn] at hdiv
    have hiff : ∀ o, InShape o op.output → ∀ p, p ∈ reads op.windows op.input o ↔ p ∈ summed o := by
      intro o ho
      by_cases hnil : summed o = []
      · rw [hnil, hover o ho hnil]
        exact fun _ => Iff.rfl
      · exact (hread o ho hnil).2.2.2
    have hne : ∀ o, InShape o op.output → reads op.windows op.input o ≠ [] → summed o ≠ [] := by
      intro o ho hreads hnil
      exact hreads (hover o ho hnil)
    refine ⟨?_, fun ⟨o, ho, hreads⟩ => (hread o ho (hne o ho hreads)).2.2.1, hiff⟩
    rintro ⟨o, ho⟩
    by_cases hreads : reads op.windows op.input o = []
    · have hnil : summed o = [] := by
        rw [List.eq_nil_iff_forall_not_mem]
        intro p hp
        rw [← hiff o ho, hreads] at hp
        cases hp
      obtain ⟨hinit, hkeep⟩ := keeps_of_reads_nil (x := ⟨op.input, fun _ => 0⟩) hvalid hreads
        (h.padding o ho) fun r hr => by
          have hvalue := h.values _ rfl o ho r hr
          rw [show (Tensor.extended _).elem o = _ from congrArg WithBot.some (hy _ rfl o), hnil,
            List.map_nil, List.sum_nil, zero_div] at hvalue
          apply eq_of_map_div (q := 0) hc
          rw [hvalue, zero_div]
      exact ⟨hinit, hkeep, fun ⟨o', ho', hreads'⟩ => (hread o' ho' (hne o' ho' hreads')).1⟩
    · obtain ⟨hcombines, hinit, -⟩ := hread o ho (hne o ho hreads)
      refine ⟨hinit, ?_, fun _ => hcombines⟩
      obtain ⟨hreturned, hargs⟩ := (combines_add_iff hblocks).mp hcombines
      rw [hbody, hreturned, frontEval_of_combines hargs]
      exact add_zero 0
  · rintro ⟨hneutral, hcn, hiff⟩
    refine ⟨hshape, fun o ho _ => (hneutral ⟨o, ho⟩).1, fun x hx o ho r hr => ?_⟩
    obtain ⟨hinit, hkeep, hcombines⟩ := hneutral ⟨o, ho⟩
    have hfold := reduced_eq hbody hinit hkeep
      (fun hreads => (combines_add_iff hblocks).mp (hcombines ⟨o, ho, hreads⟩)) hr
    have hsum := (sum_eq_iff (hreadsNodup o ho) (hnodup o ho)).mpr (hiff o ho) x.elem
    rw [hfold, foldr_add_coe]
    show ((((reads op.windows op.input o).map x.elem).sum / c : ℚ) : WithBot ℚ) = ((y x).elem o : ℚ)
    rw [hy x hx o, ← hsum]
    by_cases hreads : reads op.windows op.input o = []
    · rw [hreads, List.map_nil, List.sum_nil, zero_div, zero_div]
    · rw [hcn ⟨o, ho, hreads⟩]

end Sum

/-! ## What is accepted -/

section Accepted

variable {op : ReduceWindowOp}

/-- The body of an accepted operation. -/
theorem exists_blocks (h : op.hasValidOpStructure = true) {front : BodyOp}
    (hfront : op.frontOp = .ok front) :
    ∃ a b returned, (front = .add a b ∨ front = .max a b) ∧
      op.blocks = [[front, .returnOp returned]] := by
  rw [hasValidOpStructure] at h
  match hblocks : op.blocks with
  | [[first, last]] =>
    rw [frontOp, hblocks] at hfront
    cases first <;> cases last <;> try cases hfront
    · exact ⟨_, _, _, .inl rfl, rfl⟩
    · exact ⟨_, _, _, .inr rfl, rfl⟩
  | [] => simp [hblocks] at h
  | [[]] => simp [hblocks] at h
  | [[_]] => simp [hblocks] at h
  | [_ :: _ :: _ :: _] => simp [hblocks] at h
  | _ :: _ :: _ => simp [hblocks] at h

/-- **What is accepted**, and what it is replaced by. -/
theorem accepted_of_matchAndRewrite {l : Lowered} (h : op.matchAndRewrite = .ok l) :
    op.inputs.length = 1 ∧ ∃ returned,
      (∃ a b, op.blocks = [[.max a b, .returnOp returned]] ∧ l = .maxPool (op.pooling .max)) ∨
      (∃ a b divOp, op.blocks = [[.add a b, .returnOp returned]] ∧
        op.extractDivisor = .ok (some divOp) ∧ l = .averagePool (op.pooling .average) divOp) ∨
      ∃ a b dim, op.blocks = [[.add a b, .returnOp returned]] ∧
        op.extractDivisor = .ok none ∧ op.hasValidWindowAttributes = true ∧
        op.hasValidInputAndPadding (op.pooling .max).padding = .ok (some dim) ∧
        l = .cumSum ⟨convertShape op.input, dim, convertShape op.output⟩ := by
  rw [matchAndRewrite] at h
  split_ifs at h with hstructure
  have hinputs : op.inputs.length = 1 := by
    rw [hasValidOpStructure, Bool.and_eq_true, Bool.and_eq_true] at hstructure
    exact of_decide_eq_true hstructure.1.2
  refine ⟨hinputs, ?_⟩
  obtain ⟨init, -, h⟩ := bind_eq_ok.mp h
  cases init with
  | none => cases h
  | some init =>
    obtain ⟨front, hfront, h⟩ := bind_eq_ok.mp h
    obtain ⟨a, b, returned, rfl | rfl, hblocks⟩ := exists_blocks hstructure hfront
    · rw [if_neg (by simp [isMaxPool])] at h
      obtain ⟨divOp, hdivOp, h⟩ := bind_eq_ok.mp h
      rw [isAvgPool] at hdivOp
      cases divOp with
      | some divOp =>
        split_ifs at hdivOp
        · obtain rfl := Except.ok.inj h
          exact ⟨returned, .inr (.inl ⟨a, b, divOp, hblocks, hdivOp, rfl⟩)⟩
        · cases hdivOp
      | none =>
        obtain ⟨dim, hdim, h⟩ := bind_eq_ok.mp h
        rw [isCumSum] at hdim
        cases dim with
        | none => cases h
        | some dim =>
          split_ifs at hdim with hinit hattributes
          · cases hdim
          · rw [if_pos (not_not.mp hinit)] at hdivOp
            obtain rfl := Except.ok.inj h
            exact ⟨returned, .inr (.inr ⟨a, b, dim, hblocks, hdivOp, hattributes, hdim, rfl⟩)⟩
          · cases hdim
    · split_ifs at h
      · obtain rfl := Except.ok.inj h
        exact ⟨returned, .inl ⟨a, b, hblocks, rfl⟩⟩
      · cases h

end Accepted

/-! ## The result -/

section Faithful

variable {op : ReduceWindowOp} (hvalid : op.Valid) (hinputs : op.inputs.length = 1)

theorem convertShape_of_ne_nil {shape : List ℕ} (h : shape ≠ []) : convertShape shape = shape := by
  cases shape with
  | nil => exact absurd rfl h
  | cons n shape => rfl

include hvalid hinputs in
/-- The emitted pooling verifies unless the operand is a scalar. -/
theorem verify_pooling_iff (poolingMethod : PoolingMethod) :
    (op.pooling poolingMethod).verify = .ok () ↔ op.input ≠ [] := by
  obtain ⟨input, hinput⟩ := List.length_eq_one_iff.mp hinputs
  have hfirst : op.input = input := by rw [ReduceWindowOp.input, hinput]; rfl
  have hshapes : (op.pooling poolingMethod).inputs = [convertShape input] := by
    show op.inputs.map convertShape = _
    rw [hinput]
    rfl
  rw [PoolingOp.verify, hshapes]
  have hstrides : (op.pooling poolingMethod).windowStrides.length = _ := hvalid.strides
  have hdilations : (op.pooling poolingMethod).windowDilations.length = _ := hvalid.dilations
  have hrank : (op.pooling poolingMethod).windowDimensions.length = _ := hvalid.rank
  have hpadding : (op.pooling poolingMethod).padding.length = _ := hvalid.padding
  rw [hfirst] at hstrides hdilations hrank hpadding ⊢
  constructor
  · intro h hnil
    subst hnil
    split_ifs at h with _ hlength
    rw [not_not, hstrides] at hlength
    exact absurd hlength (by decide)
  · intro hne
    have hconvert := convertShape_of_ne_nil hne
    simp only [hconvert, List.getD_cons_zero, List.any_cons, List.any_nil, ne_eq,
      not_true_eq_false, decide_false, Bool.or_false, Bool.false_eq_true, if_false]
    rw [if_neg (not_not.mpr hstrides), if_neg (not_not.mpr hdilations),
      if_neg (not_not.mpr hrank), if_neg (not_not.mpr hpadding)]

/-- A division that was found is behind a broadcast that uses the result. -/
theorem mem_users_of_extractDivisor {divOp : DivOp}
    (h : op.extractDivisor = .ok (some divOp)) {b : BroadcastInDimOp}
    (hb : divOp.broadcast = some b) : ∃ users, ResultUser.broadcastInDim b users ∈ op.users := by
  have hcheck : ∀ (broadcast : Option BroadcastInDimOp) (user : ResultUser),
      op.checkDivisor broadcast user = .ok (some divOp) → divOp.broadcast = broadcast := by
    intro broadcast user h
    cases user with
    | div divisor =>
      rw [checkDivisor] at h
      cases hconstant : divisorConstant divisor with
      | none => rw [hconstant] at h; cases h
      | some c =>
        rw [hconstant] at h
        simp only at h
        split_ifs at h
        · cases h
        · split at h
          · split_ifs at h
            · obtain rfl := Option.some.inj (Except.ok.inj h)
              rfl
            · cases h
          · cases h
    | broadcastInDim b us => cases h
    | other => cases h
  rw [extractDivisor] at h
  split at h
  · cases h
  · next b' us rest husers =>
    cases us with
    | nil => cases h
    | cons user us =>
      obtain rfl := Option.some.inj ((hcheck _ _ h).symm.trans hb)
      exact ⟨user :: us, by rw [husers]; simp⟩
  · exact absurd ((hcheck _ _ h).symm.trans hb) (by simp)

/-- The dimension of a cumulative sum is one of the operand, which is no scalar. -/
theorem lt_of_hasValidInputAndPadding (hvalid : op.Valid) {dim : ℕ}
    (h : op.hasValidInputAndPadding (op.pooling .max).padding = .ok (some dim)) :
    op.input ≠ [] ∧ dim < op.input.length := by
  have hpadding : (op.pooling .max).padding.length = _ := hvalid.padding
  have hne : op.input ≠ [] := by
    intro hnil
    rw [hasValidInputAndPadding, hpadding, hnil] at h
    cases h
  refine ⟨hne, ?_⟩
  rw [hasValidInputAndPadding, convertShape_of_ne_nil hne] at h
  split_ifs at h
  · cases h
  · cases h
  · exact (List.findIdx?_eq_some_iff_findIdx_eq.mp (Except.ok.inj h)).1
  · cases h
  · -- the dimension is one of those whose window is not one
    rw [validateNonSplatPadding] at h
    split at h
    · cases h
    · next dimension hfilter =>
      have hmem : dimension ∈ (List.range op.windowDimensions.length).filter fun i =>
          decide (op.windowDimensions.getD i 0 ≠ 1) := by
        rw [hfilter]
        simp
      have hlt := List.mem_range.mp (List.mem_filter.mp hmem).1
      simp only at h
      split_ifs at h
      · cases h
      · obtain rfl := Option.some.inj (Except.ok.inj h)
        rwa [hvalid.rank] at hlt
      · cases h
    · cases h

theorem averagePool_elem (poolingMethod : PoolingMethod) (hx : x.shape = op.input)
    (o : List ℕ) : (x.averagePool (op.pooling poolingMethod).windows).elem o
      = ((reads op.windows op.input o).map x.elem).sum / (sizes op.windows).prod := by
  rw [← hx]
  rfl

theorem cumSum_elem (x : Tensor ℚ) (dim : ℕ) (o : List ℕ) : (x.cumSum dim).elem o
    = (((List.range (o.getD dim 0 + 1)).map fun i => o.set dim i).map x.elem).sum / 1 := by
  rw [div_one, List.map_map]
  rfl

/-- A broadcast reads an index of its operand. -/
theorem inShape_operandIndex {b : BroadcastInDimOp} (hb : b.operand ≠ []) {i : List ℕ}
    (hi : InShape i b.result) : InShape (b.operandIndex i) b.operand := by
  obtain ⟨hlen, hindex⟩ := b.operandIndex_of_ne_nil hb i
  refine forall₂_iff_getD.mpr ⟨hlen, fun d hd => ?_⟩
  rw [hlen] at hd
  rw [hindex d hd]
  split_ifs with hone
  · rw [hone]
    exact Nat.one_pos
  · have hmem : b.broadcastDimensions.getD d 0 < b.result.length := by
      have hd' : d < b.broadcastDimensions.length := b.length_eq ▸ hd
      rw [List.getD_eq_getElem _ 0 hd']
      exact b.lt _ (List.getElem_mem hd')
    rw [(b.extent d hd).resolve_left hone]
    exact getD_lt_of_inShape hi hmem

include hvalid in
theorem prod_sizes_ne_zero : ((sizes op.windows).prod : ℚ) ≠ 0 := by
  have hpos : 0 < (sizes op.windows).prod := by
    apply List.prod_pos
    intro n hn
    obtain ⟨w, hw, rfl⟩ := List.mem_map.mp hn
    have := (hvalid.positive w hw).size
    omega
  exact_mod_cast hpos.ne'

include hvalid in
/-- **Average pooling** has the values of the divided reduction, for itself, for the division and
for the other users, when its initial value is neutral and the division averages. -/
theorem averages_iff (hblocks : op.blocks = [[.add a b, .returnOp returned]]) {divOp : DivOp}
    (hdivOp : op.extractDivisor = .ok (some divOp)) (hne : op.input ≠ []) {init : WithBot ℚ} :
    (divOp.value ≠ 0 ∧ op.Computes init 0 (WithBot.map (· / divOp.value))
        (fun x => (x.averagePool (op.pooling .average).windows).extended) ∧
      op.Forwards init divOp (fun x => (x.averagePool (op.pooling .average).windows).extended) ∧
      (otherUsers op.users → op.Computes init 0 id
        fun x => (x.averagePool (op.pooling .average).windows).extended)) ↔
    op.Neutral init 0 ∧ op.Averages divOp := by
  have hn := prod_sizes_ne_zero hvalid
  have hnodup : ∀ o, InShape o op.output → (reads op.windows op.input o).Nodup :=
    fun o ho => nodup_reads hvalid.positive (length_windows hvalid)
      (ho.length_eq.trans (length_output hvalid))
  have hshape : ∀ x : Tensor ℚ, x.shape = op.input →
      (x.averagePool (op.pooling .average).windows).shape = op.output := by
    intro x hx
    show extents op.windows x.shape = op.output
    rw [hx, hvalid.typed]
  have hcomputes : ∀ {c : ℚ}, c ≠ 0 → (op.Computes init 0 (WithBot.map (· / c))
      (fun x => (x.averagePool (op.pooling .average).windows).extended) ↔
      op.Neutral init 0 ∧ (op.ReadsSome → c = (sizes op.windows).prod)) := by
    intro c hc
    rw [computes_sum_iff hvalid hblocks hc hn hshape (fun x hx o => averagePool_elem _ hx o) hnodup
      fun _ _ h => h]
    constructor
    · exact fun h => ⟨h.1, h.2.1⟩
    · exact fun h => ⟨h.1, h.2, fun _ _ _ => Iff.rfl⟩
  have hid : (id : WithBot ℚ → WithBot ℚ) = WithBot.map (· / 1) := by
    funext r
    simp only [div_one, id_eq]
    exact (congrFun WithBot.map_id r).symm
  -- the broadcast on the way reads indices of the result
  have hbroadcast : ∀ b, divOp.broadcast = some b → b.result = op.output →
      ∀ i, InShape i op.output → InShape (b.operandIndex i) op.output := by
    intro b hb hresult i hi
    obtain ⟨us, hmem⟩ := mem_users_of_extractDivisor hdivOp hb
    have hoperand := hvalid.users b us hmem
    have hnil : op.output ≠ [] := by
      intro hnil
      have hlength := (length_output hvalid).trans (length_windows hvalid)
      rw [hnil] at hlength
      exact hne (List.length_eq_zero_iff.mp hlength.symm)
    rw [← hoperand]
    exact inShape_operandIndex (hoperand ▸ hnil) (hresult ▸ hi)
  constructor
  · rintro ⟨hc, hitself, hforwards, hothers⟩
    obtain ⟨hneutral, hvalue⟩ := (hcomputes hc).mp hitself
    refine ⟨hneutral, hc, hvalue, fun b hb => ?_, fun hother hread => ?_⟩
    · obtain ⟨hresult, hvalues⟩ := hforwards b hb
      refine ⟨hresult, fun i hi => ?_⟩
      have hi' := hbroadcast b hb hresult i hi
      rw [← sum_eq_iff (hnodup _ hi') (hnodup i hi)]
      intro x
      obtain ⟨r, hr⟩ := op.exists_reduced init ⟨op.input, x⟩ (b.operandIndex i)
      have heq := (hitself.values _ rfl _ hi' r hr).symm.trans
        (hvalues ⟨op.input, x⟩ rfl i (hresult ▸ hi) r hr)
      have heq' := WithBot.coe_injective heq
      rw [averagePool_elem _ rfl, averagePool_elem _ rfl, div_left_inj' hn] at heq'
      exact heq'
    · have hothers := hothers hother
      rw [hid] at hothers
      have hone := ((hcomputes one_ne_zero).mp hothers).2 hread
      exact_mod_cast hone.symm
  · rintro ⟨hneutral, haverages⟩
    have hitself := (hcomputes haverages.value_ne).mpr ⟨hneutral, haverages.value⟩
    refine ⟨haverages.value_ne, hitself, fun b hb => ?_, fun hother => ?_⟩
    · obtain ⟨hresult, hsame⟩ := haverages.broadcast b hb
      refine ⟨hresult, fun x hx i hi r hr => ?_⟩
      have hi := hresult ▸ hi
      have hi' := hbroadcast b hb hresult i hi
      rw [hitself.values x hx _ hi' r hr]
      refine congrArg WithBot.some ?_
      rw [averagePool_elem _ hx, averagePool_elem _ hx,
        (sum_eq_iff (hnodup _ hi') (hnodup i hi)).mpr (hsame i hi) x.elem]
    · rw [hid, hcomputes one_ne_zero]
      refine ⟨hneutral, fun hread => ?_⟩
      rw [haverages.others hother hread, Nat.cast_one]

include hvalid in
/-- **Cumulative sums** are the values of the reduction when its initial value is neutral and the
windows are cumulative. -/
theorem cumulative_iff (hblocks : op.blocks = [[.add a b, .returnOp returned]]) {dim : ℕ}
    (hdim : dim < op.input.length) {init : WithBot ℚ} :
    op.Computes init 0 id (fun x => (x.cumSum dim).extended) ↔
      op.Neutral init 0 ∧ op.Cumulative dim := by
  have hid : (id : WithBot ℚ → WithBot ℚ) = WithBot.map (· / 1) := by
    funext r
    simp only [div_one, id_eq]
    exact (congrFun WithBot.map_id r).symm
  have hnodup : ∀ o, InShape o op.output →
      ((List.range (o.getD dim 0 + 1)).map fun i => o.set dim i).Nodup := by
    intro o ho
    have hlt : dim < o.length := by
      rw [ho.length_eq, length_output hvalid, length_windows hvalid]
      exact hdim
    apply List.Nodup.map _ List.nodup_range
    intro i j hij
    have hget := congrArg (fun l : List ℕ => l.getD dim 0) hij
    simpa [List.getD, hlt] using hget
  have hcomputes : op.output = op.input → (op.Computes init 0 (WithBot.map (· / 1))
      (fun x => (x.cumSum dim).extended) ↔ op.Neutral init 0 ∧ op.Cumulative dim) := by
    intro houtput
    have hshape : ∀ x : Tensor ℚ, x.shape = op.input → (x.cumSum dim).shape = op.output :=
      fun x hx => hx.trans houtput.symm
    rw [computes_sum_iff hvalid hblocks one_ne_zero one_ne_zero hshape
      (fun x _ o => cumSum_elem x dim o) hnodup
      fun o _ h => absurd h (by simp)]
    constructor
    · exact fun h => ⟨h.1, houtput, h.2.2⟩
    · exact fun h => ⟨h.1, fun _ => rfl, h.2.2⟩
  rw [hid]
  constructor
  · intro h
    have houtput : op.output = op.input := (h.shape ⟨op.input, fun _ => 0⟩ rfl).symm
    exact (hcomputes houtput).mp h
  · intro h
    exact (hcomputes h.2.1).mpr h

end Faithful

/-! ## When the lowering is faithful -/

/-- Zero encodes zero. -/
theorem decodeFloat_zero {exponentBits mantissaBits bits : ℕ} (hexponent : 2 ≤ exponentBits)
    (hbits : bits = 0 ∨ bits = 2 ^ (mantissaBits + exponentBits)) :
    decodeFloat exponentBits mantissaBits bits = some 0 := by
  have hmantissa : bits % 2 ^ mantissaBits = 0 := by
    rcases hbits with rfl | rfl
    · exact Nat.zero_mod _
    · rw [pow_add]
      exact Nat.mul_mod_right _ _
  have hexp : bits / 2 ^ mantissaBits % 2 ^ exponentBits = 0 := by
    rcases hbits with rfl | rfl
    · rw [Nat.zero_div, Nat.zero_mod]
    · rw [pow_add, Nat.mul_div_cancel_left _ (by positivity), Nat.mod_self]
  have hne : ¬ 0 = 2 ^ exponentBits - 1 := by
    have : 2 ^ 2 ≤ 2 ^ exponentBits := Nat.pow_le_pow_right (by decide) hexponent
    omega
  rw [decodeFloat]
  simp only [hmantissa, hexp, if_neg hne, if_true, Nat.cast_zero, zero_mul, neg_zero, ite_self]
  rfl

/-- **When a windowed reduction is lowered faithfully.**  What an accepted reduction is replaced
by has its values, for the reduction and for its users, exactly when its initial value is neutral
for its body, a division averages and is the only use, and cumulative windows are cumulative. -/
theorem lowers_iff_faithful (op : ReduceWindowOp) (hvalid : op.Valid) {l : Lowered}
    (h : op.matchAndRewrite = .ok l) : op.Lowers l ↔ op.Faithful := by
  obtain ⟨hinputs, returned, ⟨a, b, hblocks, rfl⟩ | ⟨a, b, divOp, hblocks, hdivOp, rfl⟩ |
    ⟨a, b, dim, hblocks, hdivOp, -, hdim, rfl⟩⟩ := accepted_of_matchAndRewrite h
  · have hfaithful : op.Faithful ↔ op.input ≠ [] ∧ ∃ init, op.initValue = some init ∧
        op.Neutral init ⊥ := by
      rw [Faithful, hblocks]
    rw [hfaithful, Lowers]
    simp only [verify_pooling_iff hvalid hinputs]
    constructor
    · rintro ⟨init, hinit, hne, hcomputes⟩
      exact ⟨hne, init, hinit, (computes_max_iff hvalid hblocks).mp hcomputes⟩
    · rintro ⟨hne, init, hinit, hneutral⟩
      exact ⟨init, hinit, hne, (computes_max_iff hvalid hblocks).mpr hneutral⟩
  · have hfaithful : op.Faithful ↔ op.input ≠ [] ∧ ∃ init, op.initValue = some init ∧
        op.Neutral init 0 ∧ op.Averages divOp := by
      rw [Faithful, hblocks, hdivOp]
    rw [hfaithful, Lowers]
    simp only [verify_pooling_iff hvalid hinputs]
    constructor
    · rintro ⟨init, hinit, hne, hvalues⟩
      exact ⟨hne, init, hinit, (averages_iff hvalid hblocks hdivOp hne).mp hvalues⟩
    · rintro ⟨hne, init, hinit, hcondition⟩
      exact ⟨init, hinit, hne, (averages_iff hvalid hblocks hdivOp hne).mpr hcondition⟩
  · obtain ⟨hne, hlt⟩ := lt_of_hasValidInputAndPadding hvalid hdim
    have hfaithful : op.Faithful ↔ op.input ≠ [] ∧ ∃ init, op.initValue = some init ∧
        op.Neutral init 0 ∧ op.Cumulative dim := by
      rw [Faithful, hblocks, hdivOp]
      refine and_congr_right fun _ => exists_congr fun init => and_congr_right fun _ =>
        and_congr_right fun _ => ⟨fun hall => hall dim hdim, fun hcum dim' hdim' => ?_⟩
      obtain rfl := Option.some.inj (Except.ok.inj (hdim.symm.trans hdim'))
      exact hcum
    have hverify : (CumSumOp.mk (convertShape op.input) dim (convertShape op.output)).verify
        = .ok () := by
      rw [CumSumOp.verify, convertShape_of_ne_nil hne, if_neg]
      push Not
      constructor <;> simp only <;> omega
    rw [hfaithful, Lowers]
    simp only [hverify, Int.toNat_natCast, true_and]
    constructor
    · rintro ⟨init, hinit, hcomputes⟩
      exact ⟨hne, init, hinit, (cumulative_iff hvalid hblocks hlt).mp hcomputes⟩
    · rintro ⟨-, init, hinit, hcondition⟩
      exact ⟨init, hinit, (cumulative_iff hvalid hblocks hlt).mpr hcondition⟩

/-- The mean of two numbers: their sum, divided by a converted constant. -/
def meanOfTwo : ReduceWindowOp where
  inputs := [[2]]
  initValues := [.constant ⟨0, 1, .f32, 0⟩]
  blocks := [[.add .accumulated .element, .returnOp none]]
  windowDimensions := [2]
  windowStrides := none
  baseDilations := none
  windowDilations := none
  padding := none
  results := [[1]]
  users := [.div (.convert id (.constant ⟨0, 1, .integer ⟨32, .signless⟩, 2⟩))]

/-- It is lowered faithfully, to average pooling. -/
theorem meanOfTwo_lowers : meanOfTwo.Lowers (.averagePool (meanOfTwo.pooling .average)
    ⟨none, .convert id (.constant ⟨0, 1, .integer ⟨32, .signless⟩, 2⟩)⟩) := by
  have hwindows : ∀ w ∈ meanOfTwo.windows, w.Positive := by
    intro w hw
    obtain rfl : w = ⟨2, 1, 0, 0, 1, 1⟩ := List.mem_singleton.mp hw
    exact ⟨by decide, by decide, by decide, by decide⟩
  have hvalid : meanOfTwo.Valid := ⟨rfl, rfl, rfl, rfl, rfl, hwindows, rfl, fun b us h => by
    cases h with
    | tail _ h => cases h⟩
  have hzero : decodeFloat 8 23 0 = some 0 := decodeFloat_zero (by decide) (.inl rfl)
  have hinit : meanOfTwo.initValue = some 0 := hzero
  have hvalue :
      DivOp.value ⟨none, .convert id (.constant ⟨0, 1, .integer ⟨32, .signless⟩, 2⟩)⟩ = 2 := rfl
  have hcombines : meanOfTwo.Combines := ⟨_, _, .inl ⟨rfl, rfl⟩, .inr rfl⟩
  refine (lowers_iff_faithful meanOfTwo hvalid rfl).mpr ⟨by decide, 0, hinit, ?_⟩
  refine ⟨fun _ => ⟨rfl, add_zero 0, fun _ => hcombines⟩, ⟨?_, fun _ => ?_, fun b hb => ?_,
    fun hother => ?_⟩⟩
  · rw [hvalue]
    exact two_ne_zero
  · rw [hvalue]
    rfl
  · cases hb
  · exact hother.elim

/-- The maximum over single elements, and one. -/
def maximumWithOne : ReduceWindowOp where
  inputs := [[1]]
  initValues := [.constant ⟨0, 1, .bf16, 0x3f80⟩]
  blocks := [[.max .accumulated .element, .returnOp none]]
  windowDimensions := [1]
  windowStrides := none
  baseDilations := none
  windowDilations := none
  padding := none
  results := [[1]]
  users := [.other]

/-- The first byte of one is that of the least value, and one is dropped: the maximum with zero
becomes zero. -/
theorem maximumWithOne_not_lowers : maximumWithOne.Valid ∧
    ∃ l, maximumWithOne.matchAndRewrite = .ok l ∧ ¬ maximumWithOne.Lowers l := by
  have hwindows : ∀ w ∈ maximumWithOne.windows, w.Positive := by
    intro w hw
    obtain rfl : w = .unit := List.mem_singleton.mp hw
    exact ⟨by decide, by decide, by decide, by decide⟩
  have hvalid : maximumWithOne.Valid :=
    ⟨rfl, rfl, rfl, rfl, rfl, hwindows, rfl, fun b us h => by
      cases h with
      | tail _ h => cases h⟩
  refine ⟨hvalid, .maxPool (maximumWithOne.pooling .max), rfl, ?_⟩
  rintro ⟨init, hinit, -, hcomputes⟩
  have hbot := ((computes_max_iff hvalid rfl).mp hcomputes ⟨[0], by decide⟩).1
  -- the initial value is a number
  have hone : maximumWithOne.initValue = decodeFloat 8 7 0x3f80 := rfl
  rw [hone, decodeFloat, if_neg (by decide)] at hinit
  exact WithBot.coe_ne_bot ((Option.some.inj hinit).trans hbot)

end ReduceWindowOp

end StableHLO.ReduceWindow
