/-
# The override options of the optimizer

The parsers of `PassOverrides.cpp` for the options that override the conv2d configuration, the
output layout and the input layout of operations, by name.

* `Conv2dConfigOverrideParser`, `OutputLayoutOverrideParser`, `InputLayoutOverrideParser` :
  reading and printing;
* `Conv2d.parseParams_printParams_iff` : conv2d parameters are read back unless nothing is
  set, or the activation was switched off;
* `overrides_roundTrip_iff` : which maps of the three parsers are read back.
-/
import TTMLIR.OverrideString
import TTMLIR.TTNNLayout

namespace PassOverrides

open OverrideString TTNN

/-! ## Values -/

/-- The value whose name a string is. -/
def symbolize {α : Type} (cases : List α) (stringify : α → Str) (s : Str) : Option α :=
  cases.find? fun a => stringify a = s

/-- `DataTypeEnumToString`. -/
def dataTypeEnumToString : DataType → Str
  | .float32 => "f32".toList
  | .float16 => "f16".toList
  | .bfloat16 => "bf16".toList
  | .bfpFloat8 => "bfp_f8".toList
  | .bfpBFloat8 => "bfp_bf8".toList
  | .bfpFloat4 => "bfp_f4".toList
  | .bfpBFloat4 => "bfp_bf4".toList
  | .bfpFloat2 => "bfp_f2".toList
  | .bfpBFloat2 => "bfp_bf2".toList
  | .uint32 => "u32".toList
  | .uint16 => "u16".toList
  | .uint8 => "u8".toList
  | .int32 => "si32".toList

/-- `DataTypeStringToEnum`. -/
def dataTypeStringToEnum : Str → Option DataType :=
  symbolize [.float32, .float16, .bfloat16, .bfpFloat8, .bfpBFloat8, .bfpFloat4, .bfpBFloat4,
    .bfpFloat2, .bfpBFloat2, .uint32, .uint16, .uint8, .int32] dataTypeEnumToString

/-- `stringifyBufferType`. -/
def stringifyBufferType : BufferType → Str
  | .dram => "dram".toList
  | .l1 => "l1".toList
  | .systemMemory => "system_memory".toList
  | .l1Small => "l1_small".toList
  | .trace => "trace".toList

/-- `symbolizeBufferType`. -/
def symbolizeBufferType : Str → Option BufferType :=
  symbolize [.dram, .l1, .systemMemory, .l1Small, .trace] stringifyBufferType

/-- `stringifyTensorMemoryLayout`. -/
def stringifyTensorMemoryLayout : TensorMemoryLayout → Str
  | .interleaved => "interleaved".toList
  | .singleBank => "single_bank".toList
  | .heightSharded => "height_sharded".toList
  | .widthSharded => "width_sharded".toList
  | .blockSharded => "block_sharded".toList

/-- `symbolizeTensorMemoryLayout`. -/
def symbolizeTensorMemoryLayout : Str → Option TensorMemoryLayout :=
  symbolize [.interleaved, .singleBank, .heightSharded, .widthSharded, .blockSharded]
    stringifyTensorMemoryLayout

/-- `Layout` of the option strings. -/
inductive Layout : Type where
  | rowMajor | tile | invalid
  deriving DecidableEq, Repr

/-- `stringifyLayout`. -/
def stringifyLayout : Layout → Str
  | .rowMajor => "row_major".toList
  | .tile => "tile".toList
  | .invalid => "invalid".toList

/-- `symbolizeLayout`. -/
def symbolizeLayout : Str → Option Layout := symbolize [.rowMajor, .tile, .invalid] stringifyLayout

/-- `int64_t`. -/
structure I64 : Type where
  val : ℤ
  low : -2 ^ 63 ≤ val
  high : val < 2 ^ 63
  deriving DecidableEq

/-- `getAsInteger` for an `int64_t`. -/
def getAsInt64 (s : Str) : Option I64 :=
  (getAsSignedInteger s).bind fun n =>
    if h : -2 ^ 63 ≤ n ∧ n < 2 ^ 63 then some ⟨n, h.1, h.2⟩ else none

/-- `getAsInteger` for a `uint32_t`. -/
def getAsUInt32 (s : Str) : Option UInt32 :=
  (getAsUnsignedInteger s).bind fun n => if n < 2 ^ 32 then some (UInt32.ofNat n) else none

/-- `equals_insensitive`. -/
def equalsInsensitive (s lower : Str) : Bool := s.map Char.toLower = lower

/-- `parseBool`. -/
def parseBool (param : Str) : Option Bool :=
  if equalsInsensitive param "true".toList then some true
  else if equalsInsensitive param "false".toList then some false
  else none

/-- `parseGrid`: the errors it reports, and the grid. -/
def parseGrid (param : Str) : List Str × Option (I64 × I64) :=
  match param.splitOn 'x' with
  | [gridX, gridY] =>
    match getAsInt64 gridX, getAsInt64 gridY with
    | some x, some y => ([], some (x, y))
    | _, _ => (["Invalid grid size: ".toList ++ param], none)
  | _ => ([], none)

/-- An activation as it is stored: the name as it was written, or nothing for none. -/
structure Activation : Type where
  text : Str
  valid : text = [] ∨ equalsInsensitive text "relu".toList = true
  deriving DecidableEq

/-! ## Conv2d configurations -/

namespace Conv2d

/-- The parameters, in the order they are printed. -/
inductive Param : Type where
  | dtype | weightsDtype | activation | deallocateActivation | reallocateHaloOutput
  | actBlockHOverride | actBlockWDiv | reshardIfNotOptimal | overrideShardingConfig | shardLayout
  | transposeShards | outputLayout | preprocessWeightsOnDevice | alwaysPreprocessWeights
  | enableActDoubleBuffer | enableWeightsDoubleBuffer | enableSplitReader | enableSubblockPadding
  deriving DecidableEq, Repr

/-- The kinds of values parameters have. -/
inductive Kind : Type where
  | dataType | activation | flag | number | tensorMemoryLayout | layout
  deriving DecidableEq, Repr

namespace Kind

abbrev Value : Kind → Type
  | .dataType => DataType
  | .activation => Activation
  | .flag => Bool
  | .number => UInt32
  | .tensorMemoryLayout => TensorMemoryLayout
  | .layout => Layout

/-- How a value is read. -/
def read : (kind : Kind) → Str → Option kind.Value
  | .dataType, s => dataTypeStringToEnum s
  | .activation, s =>
    if h : equalsInsensitive s "relu".toList = true then some ⟨s, Or.inr h⟩
    else if equalsInsensitive s "none".toList then some ⟨[], Or.inl rfl⟩
    else none
  | .flag, s => parseBool s
  | .number, s => getAsUInt32 s
  | .tensorMemoryLayout, s => symbolizeTensorMemoryLayout s
  | .layout, s => symbolizeLayout s

/-- How a value is printed. -/
def print : (kind : Kind) → kind.Value → Str
  | .dataType, v => dataTypeEnumToString v
  | .activation, v => v.text
  | .flag, v => if v then "true".toList else "false".toList
  | .number, v => toDecimal v.toNat
  | .tensorMemoryLayout, v => stringifyTensorMemoryLayout v
  | .layout, v => stringifyLayout v

end Kind

namespace Param

def all : List Param :=
  [.dtype, .weightsDtype, .activation, .deallocateActivation, .reallocateHaloOutput,
    .actBlockHOverride, .actBlockWDiv, .reshardIfNotOptimal, .overrideShardingConfig, .shardLayout,
    .transposeShards, .outputLayout, .preprocessWeightsOnDevice, .alwaysPreprocessWeights,
    .enableActDoubleBuffer, .enableWeightsDoubleBuffer, .enableSplitReader,
    .enableSubblockPadding]

/-- The name before the `#`. -/
def paramName : Param → Str
  | .dtype => "dtype".toList
  | .weightsDtype => "weights_dtype".toList
  | .activation => "activation".toList
  | .deallocateActivation => "deallocate_activation".toList
  | .reallocateHaloOutput => "reallocate_halo_output".toList
  | .actBlockHOverride => "act_block_h_override".toList
  | .actBlockWDiv => "act_block_w_div".toList
  | .reshardIfNotOptimal => "reshard_if_not_optimal".toList
  | .overrideShardingConfig => "override_sharding_config".toList
  | .shardLayout => "shard_layout".toList
  | .transposeShards => "transpose_shards".toList
  | .outputLayout => "output_layout".toList
  | .preprocessWeightsOnDevice => "preprocess_weights_on_device".toList
  | .alwaysPreprocessWeights => "always_preprocess_weights".toList
  | .enableActDoubleBuffer => "enable_act_double_buffer".toList
  | .enableWeightsDoubleBuffer => "enable_weights_double_buffer".toList
  | .enableSplitReader => "enable_split_reader".toList
  | .enableSubblockPadding => "enable_subblock_padding".toList

/-- The name in error messages. -/
def label : Param → Str
  | .actBlockHOverride => "actBlockHOverride".toList
  | .actBlockWDiv => "actBlockWDiv".toList
  | .shardLayout => "shardLayout".toList
  | .outputLayout => "outputLayout".toList
  | k => k.paramName

def kind : Param → Kind
  | .dtype | .weightsDtype => .dataType
  | .activation => .activation
  | .actBlockHOverride | .actBlockWDiv => .number
  | .shardLayout => .tensorMemoryLayout
  | .outputLayout => .layout
  | _ => .flag

end Param

/-- The name of a parameter string. -/
def paramName (param : Str) : Str := param.takeWhile (· ≠ '#')

/-- The value of a parameter string. -/
def paramValue (param : Str) : Str := (param.dropWhile (· ≠ '#')).drop 1

/-- The branch of the loop over the parameters that its name selects; `core_grid` is not
supported, and skipped where assertions are compiled out. -/
def read (ndebug : Bool) (param : Str) : Parsed (Option (Σ k : Param, k.kind.Value)) :=
  if paramName param = "core_grid".toList then
    if ndebug then .accept none else ⟨[], .error .assertion⟩
  else
    match Param.all.find? fun k => k.paramName = paramName param with
    | none => .reject ("Invalid override parameter: ".toList ++ paramName param)
    | some k =>
      match k.kind.read (paramValue param) with
      | none => .reject ("Invalid ".toList ++ k.label ++ ": ".toList ++ paramValue param)
      | some v => .accept (some ⟨k, v⟩)

/-- A parameter as it is printed. -/
def print (k : Param) (v : k.kind.Value) : Str := k.paramName ++ '#' :: k.kind.print v

/-- `Conv2dConfigOverrideParams`; no parser sets its core grid. -/
def schema (ndebug : Bool) : Schema where
  Param := Param
  Value k := k.kind.Value
  decEq := inferInstance
  params := Param.all
  nodup := by decide
  complete k := by cases k <;> decide
  read := read ndebug
  print := print
  duplicate k param := "Duplicate ".toList ++ k.label ++ ": ".toList ++ paramValue param

abbrev Conv2dConfigOverrideParams (ndebug : Bool) : Type := (schema ndebug).Params

variable {ndebug : Bool}

/-- The loop over the parameters of an operation. -/
def parseParams (ndebug : Bool) (params : Str) : Parsed (Conv2dConfigOverrideParams ndebug) :=
  (schema ndebug).parseParts (params.splitOn ':') (Schema.Params.empty _)

/-- The parameters of an operation as they are printed, without the last separator. -/
def printParams (params : Conv2dConfigOverrideParams ndebug) : Str :=
  (((schema ndebug).parts params).flatMap fun part => part ++ [':']).dropLast

end Conv2d

/-- `Conv2dConfigOverrideParser`. -/
def Conv2dConfigOverrideParser (ndebug : Bool) :
    MapParser (Conv2d.Conv2dConfigOverrideParams ndebug) where
  parseParams := Conv2d.parseParams ndebug
  printEntry name params := name ++ "=".toList ++ Conv2d.printParams params
  formatError := "Invalid override format ".toList

/-! ## Output layouts -/

namespace OutputLayout

/-- The parameters, in the order they are printed. -/
inductive Param : Type where
  | grid | bufferType | tensorMemoryLayout | memoryLayout | dataType
  deriving DecidableEq, Repr

abbrev Param.Value : Param → Type
  | .grid => I64 × I64
  | .bufferType => BufferType
  | .tensorMemoryLayout => TensorMemoryLayout
  | .memoryLayout => Layout
  | .dataType => DataType

/-- The first parameter a part is a value of. -/
def read (param : Str) : Parsed (Option (Sigma Param.Value)) :=
  match parseGrid param with
  | (reported, some grid) => ⟨reported, .ok (some ⟨.grid, grid⟩)⟩
  | (reported, none) =>
    match symbolizeBufferType param with
    | some bufferType => ⟨reported, .ok (some ⟨.bufferType, bufferType⟩)⟩
    | none =>
      match symbolizeTensorMemoryLayout param with
      | some layout => ⟨reported, .ok (some ⟨.tensorMemoryLayout, layout⟩)⟩
      | none =>
        match symbolizeLayout param with
        | some layout => ⟨reported, .ok (some ⟨.memoryLayout, layout⟩)⟩
        | none =>
          match dataTypeStringToEnum param with
          | some dataType => ⟨reported, .ok (some ⟨.dataType, dataType⟩)⟩
          | none =>
            ⟨reported ++ ["Invalid layout parameter: ".toList ++ param], .error .error⟩

/-- A value as it is printed. -/
def print : (k : Param) → k.Value → Str
  | .grid, (x, y) => toDecimal x.val ++ 'x' :: toDecimal y.val
  | .bufferType, v => stringifyBufferType v
  | .tensorMemoryLayout, v => stringifyTensorMemoryLayout v
  | .memoryLayout, v => stringifyLayout v
  | .dataType, v => dataTypeEnumToString v

/-- The parameters in error messages. -/
def label : Param → Str
  | .grid => "grid".toList
  | .bufferType => "buffer type".toList
  | .tensorMemoryLayout => "tensor memory layout".toList
  | .memoryLayout => "memory layout".toList
  | .dataType => "data type".toList

/-- `OutputLayoutOverrideParams`. -/
def schema : Schema where
  Param := Param
  Value := Param.Value
  decEq := inferInstance
  params := [.grid, .bufferType, .tensorMemoryLayout, .memoryLayout, .dataType]
  nodup := by decide
  complete k := by cases k <;> decide
  read := read
  print := print
  duplicate k param :=
    "Multiple ".toList ++ label k ++ " parameters provided: ".toList ++ param

abbrev OutputLayoutOverrideParams : Type := schema.Params

/-- The loop over the parameters of an operation. -/
def parseParams (params : Str) : Parsed OutputLayoutOverrideParams :=
  schema.parseParts (params.splitOn ':') (Schema.Params.empty _)

/-- The parameters of an operation as they are printed. -/
def printParams (params : OutputLayoutOverrideParams) : Str := accumulate ':' (schema.parts params)

end OutputLayout

/-- `OutputLayoutOverrideParser`. -/
def OutputLayoutOverrideParser : MapParser OutputLayout.OutputLayoutOverrideParams where
  parseParams := OutputLayout.parseParams
  printEntry name params := name ++ "=".toList ++ OutputLayout.printParams params
  formatError := "Invalid format for override: ".toList

/-! ## Input layouts -/

namespace InputLayout

/-- `InputLayoutOverrideParams`: operand indices. -/
abbrev InputLayoutOverrideParams : Type := List I64

/-- The loop over the operand indices. -/
def parseIndexes : List Str → Parsed InputLayoutOverrideParams
  | [] => .accept []
  | operandIndexPart :: rest =>
    match getAsInt64 operandIndexPart with
    | none => .reject ("Invalid operand index: ".toList ++ operandIndexPart)
    | some operandIndexValue =>
      (parseIndexes rest).bind fun operandIndexes =>
        .accept (operandIndexValue :: operandIndexes)

def parseParams (params : Str) : Parsed InputLayoutOverrideParams :=
  parseIndexes (params.splitOn ':')

/-- The operand indices with a separator after each. -/
def printIndexes (params : InputLayoutOverrideParams) : Str :=
  params.flatMap fun operandIdx => toDecimal operandIdx.val ++ [':']

end InputLayout

/-- `InputLayoutOverrideParser`; the last character of an entry is removed. -/
def InputLayoutOverrideParser : MapParser InputLayout.InputLayoutOverrideParams where
  parseParams := InputLayout.parseParams
  printEntry name params := (name ++ "=".toList ++ InputLayout.printIndexes params).dropLast
  formatError := "Invalid format for input layouts override: ".toList

/-! ## Values are read back -/

/-- A name that no other case has is read back. -/
theorem symbolize_stringify {α : Type} {cases : List α} {stringify : α → Str}
    (hinj : ∀ a ∈ cases, ∀ b ∈ cases, stringify a = stringify b → a = b) {a : α} (ha : a ∈ cases) :
    symbolize cases stringify (stringify a) = some a := by
  have hsome : (symbolize cases stringify (stringify a)).isSome := by
    rw [symbolize, List.find?_isSome]
    exact ⟨a, ha, by simp⟩
  obtain ⟨b, hb⟩ := Option.isSome_iff_exists.mp hsome
  have heq : stringify b = stringify a := by simpa using List.find?_some hb
  rw [hb, hinj b (List.mem_of_find?_eq_some hb) a ha heq]

@[simp] theorem dataTypeStringToEnum_toString (v : DataType) :
    dataTypeStringToEnum (dataTypeEnumToString v) = some v :=
  symbolize_stringify (by decide) (by cases v <;> decide)

@[simp] theorem symbolizeTensorMemoryLayout_stringify (v : TensorMemoryLayout) :
    symbolizeTensorMemoryLayout (stringifyTensorMemoryLayout v) = some v :=
  symbolize_stringify (by decide) (by cases v <;> decide)

@[simp] theorem symbolizeLayout_stringify (v : Layout) :
    symbolizeLayout (stringifyLayout v) = some v :=
  symbolize_stringify (by decide) (by cases v <;> decide)

@[simp] theorem getAsInt64_toDecimal (n : I64) : getAsInt64 (toDecimal n.val) = some n := by
  rw [getAsInt64, getAsSignedInteger_toDecimal n.low n.high, Option.bind_some,
    dif_pos ⟨n.low, n.high⟩]

@[simp] theorem getAsUInt32_toDecimal (n : UInt32) : getAsUInt32 (toDecimal n.toNat) = some n := by
  have hlt : n.toNat < 2 ^ 32 := n.toNat_lt
  have hnat : toDecimal n.toNat = Nat.toDigits 10 n.toNat := by simp [toDecimal]
  rw [getAsUInt32, hnat, getAsUnsignedInteger_toDigits (by omega), Option.bind_some, if_pos hlt]
  simp

/-- A character that separates parts of option strings. -/
def IsSeparator (c : Char) : Prop := c = ',' ∨ c = '=' ∨ c = ':'

variable {c : Char}

section

variable (hc : IsSeparator c)

include hc

theorem IsSeparator.notMem_toDecimal (n : ℤ) : c ∉ toDecimal n := by
  rcases hc with rfl | rfl | rfl
  · exact OverrideString.notMem_toDecimal (by decide) (by decide)
  · exact OverrideString.notMem_toDecimal (by decide) (by decide)
  · exact OverrideString.notMem_toDecimal (by decide) (by decide)

theorem IsSeparator.notMem_dataType (v : DataType) : c ∉ dataTypeEnumToString v := by
  rcases hc with rfl | rfl | rfl <;> cases v <;> decide

theorem IsSeparator.notMem_bufferType (v : BufferType) : c ∉ stringifyBufferType v := by
  rcases hc with rfl | rfl | rfl <;> cases v <;> decide

theorem IsSeparator.notMem_tensorMemoryLayout
    (v : TensorMemoryLayout) : c ∉ stringifyTensorMemoryLayout v := by
  rcases hc with rfl | rfl | rfl <;> cases v <;> decide

theorem IsSeparator.notMem_layout (v : Layout) : c ∉ stringifyLayout v := by
  rcases hc with rfl | rfl | rfl <;> cases v <;> decide

theorem IsSeparator.notMem_activation (v : Activation) : c ∉ v.text := by
  intro hmem
  rcases v.valid with hnil | hrelu
  · rw [hnil] at hmem
    cases hmem
  · have hlower : v.text.map Char.toLower = "relu".toList := by
      simpa [equalsInsensitive] using hrelu
    have hin : c.toLower ∈ "relu".toList := hlower ▸ List.mem_map_of_mem hmem
    rcases hc with rfl | rfl | rfl <;> revert hin <;> decide

end

/-! ## Conv2d configurations are read back -/

namespace Conv2d

variable {ndebug : Bool}

/-- No separator is printed. -/
theorem Kind.notMem_print {c : Char} (hc : IsSeparator c) (kind : Kind) (v : kind.Value) :
    c ∉ kind.print v := by
  cases kind with
  | dataType => exact hc.notMem_dataType v
  | activation => exact hc.notMem_activation v
  | flag => rcases hc with rfl | rfl | rfl <;> cases v <;> decide
  | number => exact hc.notMem_toDecimal _
  | tensorMemoryLayout => exact hc.notMem_tensorMemoryLayout v
  | layout => exact hc.notMem_layout v

/-- **A value is read back**, unless it is the activation none. -/
theorem Kind.read_print (kind : Kind) (v : kind.Value) (hne : kind.print v ≠ []) :
    kind.read (kind.print v) = some v := by
  cases kind with
  | dataType => exact dataTypeStringToEnum_toString v
  | activation =>
    have hrelu := v.valid.resolve_left hne
    exact dif_pos hrelu
  | flag => cases v <;> rfl
  | number => exact getAsUInt32_toDecimal v
  | tensorMemoryLayout => exact symbolizeTensorMemoryLayout_stringify v
  | layout => exact symbolizeLayout_stringify v

/-- Only activations are printed as nothing. -/
theorem print_ne_nil {k : Param} (hk : k ≠ .activation) (v : k.kind.Value) :
    k.kind.print v ≠ [] := by
  have hkind : k.kind ≠ .activation := by
    revert hk
    cases k <;> decide
  generalize k.kind = kind at v hkind
  cases kind with
  | activation => exact absurd rfl hkind
  | dataType => cases v <;> decide
  | flag => cases v <;> decide
  | number => exact toDecimal_ne_nil _
  | tensorMemoryLayout => cases v <;> decide
  | layout => cases v <;> decide

theorem decide_ne_hash (k : Param) : ∀ c ∈ k.paramName, decide (c ≠ '#') = true := by
  have hname : '#' ∉ k.paramName := by cases k <;> decide
  intro c hc
  simp only [decide_eq_true_eq]
  rintro rfl
  exact hname hc

theorem paramName_print (k : Param) (v : k.kind.Value) : paramName (print k v) = k.paramName := by
  have hname := decide_ne_hash k
  rw [paramName, print, List.takeWhile_append_of_pos hname, List.takeWhile_cons_of_neg (by simp),
    List.append_nil]

theorem paramValue_print (k : Param) (v : k.kind.Value) :
    paramValue (print k v) = k.kind.print v := by
  have hname := decide_ne_hash k
  rw [paramValue, print, List.dropWhile_append_of_pos hname, List.dropWhile_cons_of_neg (by simp)]
  rfl

theorem find?_paramName (k : Param) :
    (Param.all.find? fun k' => k'.paramName = k.paramName) = some k := by
  cases k <;> decide

/-- **A parameter is read back** if its value is not printed as nothing. -/
theorem read_print {k : Param} {v : k.kind.Value} (hne : k.kind.print v ≠ []) :
    (read ndebug (print k v)).value = .ok (some ⟨k, v⟩) := by
  have hgrid : k.paramName ≠ "core_grid".toList := by cases k <;> decide
  unfold read
  rw [paramName_print, paramValue_print, if_neg hgrid, find?_paramName]
  simp only [Kind.read_print _ v hne]
  rfl

theorem notMem_print {c : Char} (hc : IsSeparator c) (k : Param) (v : k.kind.Value) :
    c ∉ print k v := by
  have hname : c ∉ k.paramName := by rcases hc with rfl | rfl | rfl <;> cases k <;> decide
  have hhash : c ≠ '#' := by rcases hc with rfl | rfl | rfl <;> decide
  simp [print, hname, hhash, Kind.notMem_print hc]

variable {params : Conv2dConfigOverrideParams ndebug}

theorem notMem_parts {c : Char} (hc : IsSeparator c) :
    ∀ part ∈ (schema ndebug).parts params, c ∉ part := by
  intro part hpart
  obtain ⟨k, v, -, rfl⟩ := Schema.mem_parts.mp hpart
  exact notMem_print hc k v

/-- Parameters are printed with colons between them. -/
theorem printParams_eq : printParams params = [':'].intercalate ((schema ndebug).parts params) :=
  dropLast_flatMap_separator ':' _

/-- The activation is switched off. -/
def ActivationNone (params : Conv2dConfigOverrideParams ndebug) : Prop :=
  ∃ v : Activation, params Param.activation = some v ∧ v.text = []

theorem read_activation_none : (read ndebug "activation#".toList).value = .error .error := by
  cases ndebug <;> rfl

/-- **Conv2d parameters are read back** exactly when something is set and the activation is not
switched off. -/
theorem parseParams_printParams_iff : (parseParams ndebug (printParams params)).value = .ok params ↔
      params ≠ Schema.Params.empty _ ∧ ¬ ActivationNone params := by
  rw [parseParams, printParams_eq]
  by_cases hempty : params = Schema.Params.empty _
  · rw [Schema.parts_eq_nil.mpr hempty]
    refine iff_of_false (fun h => ?_) fun h => h.1 hempty
    obtain ⟨reading, hreading⟩ := Schema.exists_read h (show [] ∈ _ by simp [List.intercalate])
    have hnil : (read ndebug []).value = .error .error := by cases ndebug <;> rfl
    rw [show ((schema ndebug).read []).value = (read ndebug []).value from rfl, hnil] at hreading
    cases hreading
  · have hne : (schema ndebug).parts params ≠ [] := fun h => hempty (Schema.parts_eq_nil.mp h)
    rw [List.splitOn_intercalate ':' (notMem_parts (by simp [IsSeparator])) hne]
    constructor
    · refine fun h => ⟨hempty, ?_⟩
      rintro ⟨v, hv, hnil⟩
      have hpart : "activation#".toList ∈ (schema ndebug).parts params :=
        Schema.mem_parts.mpr ⟨Param.activation, v, hv, by
          show Param.activation.paramName ++ '#' :: v.text = _
          rw [hnil]
          rfl⟩
      obtain ⟨reading, hreading⟩ := Schema.exists_read h hpart
      rw [show ((schema ndebug).read _).value = (read ndebug "activation#".toList).value from rfl,
        read_activation_none] at hreading
      cases hreading
    · rintro ⟨-, hnone⟩
      refine Schema.parseParams_printed fun k v hv => read_print ?_
      by_cases hk : k = Param.activation
      · subst hk
        exact fun hnil => hnone ⟨v, hv, hnil⟩
      · exact print_ne_nil hk v

end Conv2d

/-! ## Output layouts are read back -/

namespace OutputLayout

variable {params : OutputLayoutOverrideParams}

theorem notMem_print {c : Char} (hc : IsSeparator c) (k : Param) (v : k.Value) : c ∉ print k v := by
  cases k with
  | grid =>
    have hx : c ≠ 'x' := by rcases hc with rfl | rfl | rfl <;> decide
    simp [print, hc.notMem_toDecimal, hx]
  | bufferType => exact hc.notMem_bufferType v
  | tensorMemoryLayout => exact hc.notMem_tensorMemoryLayout v
  | memoryLayout => exact hc.notMem_layout v
  | dataType => exact hc.notMem_dataType v

/-- A printed grid is read back. -/
theorem parseGrid_print (x y : I64) :
    parseGrid (toDecimal x.val ++ 'x' :: toDecimal y.val) = ([], some (x, y)) := by
  have hx : ∀ n : ℤ, 'x' ∉ toDecimal n := fun n => notMem_toDecimal (by decide) (by decide)
  rw [parseGrid, List.splitOn_append_cons_self_of_not_mem (hx _), List.splitOn_eq_singleton (hx _)]
  simp

/-- **A parameter is read back.** -/
theorem read_print (k : Param) (v : k.Value) : (read (print k v)).value = .ok (some ⟨k, v⟩) := by
  cases k with
  | grid =>
    obtain ⟨x, y⟩ := v
    rw [print, read, parseGrid_print]
  | bufferType => cases v <;> rfl
  | tensorMemoryLayout => cases v <;> rfl
  | memoryLayout => cases v <;> rfl
  | dataType => cases v <;> rfl

theorem print_ne_nil (k : Param) (v : k.Value) : print k v ≠ [] := by
  cases k with
  | grid => simp [print]
  | bufferType => cases v <;> decide
  | tensorMemoryLayout => cases v <;> decide
  | memoryLayout => cases v <;> decide
  | dataType => cases v <;> decide

theorem printParams_eq : printParams params = [':'].intercalate (schema.parts params) := by
  refine accumulate_eq ':' fun part hpart => ?_
  obtain ⟨k, v, -, rfl⟩ := Schema.mem_parts.mp hpart
  exact print_ne_nil k v

/-- **Output layouts are read back** if something is set. -/
theorem parseParams_printParams (hne : params ≠ Schema.Params.empty _) :
    (parseParams (printParams params)).value = .ok params := by
  have hparts : schema.parts params ≠ [] := fun h => hne (Schema.parts_eq_nil.mp h)
  rw [parseParams, printParams_eq, List.splitOn_intercalate ':' (fun part hpart => ?_) hparts]
  · exact Schema.parseParams_printed fun k v _ => read_print k v
  · obtain ⟨k, v, -, rfl⟩ := Schema.mem_parts.mp hpart
    exact notMem_print (by simp [IsSeparator]) k v

/-- What was read sets something. -/
theorem ne_empty_of_parseParams {s : Str} (h : (parseParams s).value = .ok params) :
    params ≠ Schema.Params.empty _ := by
  have hread : ∀ s reading, (schema.read s).value = .ok reading → reading ≠ none := by
    rintro s reading h rfl
    have h : (read s).value = .ok none := h
    unfold read at h
    split at h
    · cases h
    · split at h
      · cases h
      · split at h
        · cases h
        · split at h
          · cases h
          · split at h
            · cases h
            · cases h
  obtain ⟨k, hk⟩ := Schema.exists_isSome hread h (Or.inl (List.splitOn_ne_nil _ _))
  rintro rfl
  cases hk

end OutputLayout

/-! ## Input layouts are read back -/

namespace InputLayout

variable {params : InputLayoutOverrideParams}

theorem printIndexes_dropLast : (printIndexes params).dropLast =
    [':'].intercalate (params.map fun operandIdx => toDecimal operandIdx.val) := by
  rw [← dropLast_flatMap_separator, printIndexes, List.flatMap_map]

theorem parseIndexes_map :
    (parseIndexes (params.map fun operandIdx => toDecimal operandIdx.val)).value = .ok params := by
  induction params with
  | nil => rfl
  | cons operandIdx rest ih =>
    rw [List.map_cons, parseIndexes, getAsInt64_toDecimal]
    exact Parsed.bind_value_eq_ok.mpr ⟨rest, ih, rfl⟩

/-- **Input layouts are read back.** -/
theorem parseParams_printed (hne : params ≠ []) :
    (parseParams (printIndexes params).dropLast).value = .ok params := by
  rw [parseParams, printIndexes_dropLast, List.splitOn_intercalate ':' (fun part hpart => ?_)
    (by simpa using hne)]
  · exact parseIndexes_map
  · obtain ⟨operandIdx, -, rfl⟩ := List.mem_map.mp hpart
    exact IsSeparator.notMem_toDecimal (by simp [IsSeparator]) _

/-- What is read is not empty. -/
theorem ne_nil_of_parseParams {s : Str} (h : (parseParams s).value = .ok params) : params ≠ [] := by
  rw [parseParams] at h
  cases hs : s.splitOn ':' with
  | nil => exact absurd hs (List.splitOn_ne_nil _ _)
  | cons first rest =>
    rw [hs, parseIndexes] at h
    split at h
    · cases h
    · obtain ⟨indexes, -, hok⟩ := Parsed.bind_value_eq_ok.mp h
      obtain rfl := Except.ok.inj hok
      simp

end InputLayout

/-! ## Maps are read back -/

/-- A produced map of conv2d configurations is read back exactly when every operation sets
something and switches no activation off. -/
theorem conv2d_roundTrips_iff {ndebug : Bool}
    {value : StringMap (Conv2d.Conv2dConfigOverrideParams ndebug)}
    (h : (Conv2dConfigOverrideParser ndebug).Produced value) :
    (Conv2dConfigOverrideParser ndebug).RoundTrips value ↔
      ∀ name params, value.lookup name = some params →
        params ≠ Schema.Params.empty _ ∧ ¬ Conv2d.ActivationNone params := by
  obtain ⟨hne, hnames⟩ := h.spec (fun _ => True) fun _ _ _ => trivial
  rw [@MapParser.roundTrips_iff _ (Conv2dConfigOverrideParser ndebug) Conv2d.printParams _ hne]
  · exact forall_congr' fun name => forall_congr' fun params => imp_congr_right fun _ =>
      Conv2d.parseParams_printParams_iff
  · intro name params hparams
    obtain ⟨hcomma, hequals, -⟩ := hnames name params hparams
    refine ⟨by simp [Conv2dConfigOverrideParser], hcomma, hequals, ?_, ?_⟩
    · rw [Conv2d.printParams_eq]
      exact notMem_intercalate (by decide) (Conv2d.notMem_parts (by simp [IsSeparator]))
    · rw [Conv2d.printParams_eq]
      exact notMem_intercalate (by decide) (Conv2d.notMem_parts (by simp [IsSeparator]))

/-- Every produced map of output layouts is read back. -/
theorem outputLayout_roundTrips {value : StringMap OutputLayout.OutputLayoutOverrideParams}
    (h : OutputLayoutOverrideParser.Produced value) : OutputLayoutOverrideParser.RoundTrips value := by
  obtain ⟨hne, hnames⟩ := h.spec (· ≠ Schema.Params.empty _) fun _ _ =>
    OutputLayout.ne_empty_of_parseParams
  have hsep : ∀ {c}, IsSeparator c → ':' ≠ c → ∀ params, c ∉ OutputLayout.printParams params := by
    intro c hc hne params
    rw [OutputLayout.printParams_eq]
    refine notMem_intercalate hne.symm fun part hpart => ?_
    obtain ⟨k, v, -, rfl⟩ := Schema.mem_parts.mp hpart
    exact OutputLayout.notMem_print hc k v
  refine (@MapParser.roundTrips_iff _ OutputLayoutOverrideParser
    OutputLayout.printParams _ hne fun name params hparams => ?_).mpr
    fun name params hparams => OutputLayout.parseParams_printParams (hnames name params hparams).2.2
  obtain ⟨hcomma, hequals, -⟩ := hnames name params hparams
  exact ⟨by simp [OutputLayoutOverrideParser], hcomma, hequals,
    hsep (by simp [IsSeparator]) (by decide) _, hsep (by simp [IsSeparator]) (by decide) _⟩

/-- Every produced map of input layouts is read back. -/
theorem inputLayout_roundTrips {value : StringMap InputLayout.InputLayoutOverrideParams}
    (h : InputLayoutOverrideParser.Produced value) : InputLayoutOverrideParser.RoundTrips value := by
  obtain ⟨hne, hnames⟩ := h.spec (· ≠ []) fun _ _ => InputLayout.ne_nil_of_parseParams
  have hsep : ∀ {c}, IsSeparator c → ':' ≠ c → ∀ params,
      c ∉ (InputLayout.printIndexes params).dropLast := by
    intro c hc hne params
    rw [InputLayout.printIndexes_dropLast]
    refine notMem_intercalate hne.symm fun part hpart => ?_
    obtain ⟨operandIdx, -, rfl⟩ := List.mem_map.mp hpart
    exact hc.notMem_toDecimal _
  refine (@MapParser.roundTrips_iff _ InputLayoutOverrideParser
    (fun params => (InputLayout.printIndexes params).dropLast) _ hne
    fun name params hparams => ?_).mpr
    fun name params hparams => InputLayout.parseParams_printed (hnames name params hparams).2.2
  obtain ⟨hcomma, hequals, hparams⟩ := hnames name params hparams
  refine ⟨?_, hcomma, hequals, hsep (by simp [IsSeparator]) (by decide) _,
    hsep (by simp [IsSeparator]) (by decide) _⟩
  have hindexes : InputLayout.printIndexes params ≠ [] := by
    obtain ⟨first, rest, rfl⟩ := List.exists_cons_of_ne_nil hparams
    simp [InputLayout.printIndexes]
  show (name ++ "=".toList ++ InputLayout.printIndexes params).dropLast = _
  rw [List.dropLast_append_of_ne_nil hindexes]
  simp

/-- **Override options round-trip.**  Of the maps `parse` can produce, those of output and input
layouts are always read back from their string; those of conv2d configurations exactly when
every operation sets something and none switches the activation off. -/
theorem overrides_roundTrip_iff (ndebug : Bool)
    (conv2d : StringMap (Conv2d.Conv2dConfigOverrideParams ndebug))
    (output : StringMap OutputLayout.OutputLayoutOverrideParams)
    (input : StringMap InputLayout.InputLayoutOverrideParams) :
    ((Conv2dConfigOverrideParser ndebug).Produced conv2d →
      ((Conv2dConfigOverrideParser ndebug).RoundTrips conv2d ↔
        ∀ name params, conv2d.lookup name = some params →
          params ≠ Schema.Params.empty _ ∧ ¬ Conv2d.ActivationNone params)) ∧
    (OutputLayoutOverrideParser.Produced output → OutputLayoutOverrideParser.RoundTrips output) ∧
    (InputLayoutOverrideParser.Produced input → InputLayoutOverrideParser.RoundTrips input) :=
  ⟨fun h => conv2d_roundTrips_iff h, fun h => outputLayout_roundTrips h,
    fun h => inputLayout_roundTrips h⟩

/-- The activation of one convolution, as it is stored. -/
def oneActivation (activation : Activation) :
    StringMap (Conv2d.Conv2dConfigOverrideParams false) :=
  (∅ : StringMap _).insert "conv2d_1".toList
    (Function.update (Schema.Params.empty (Conv2d.schema false)) Conv2d.Param.activation
      (some activation))

theorem overrides_roundTrip_relu :
    (Conv2dConfigOverrideParser false).RoundTrips (oneActivation ⟨"ReLU".toList, Or.inr rfl⟩) ↔
      ∀ name params, (oneActivation ⟨"ReLU".toList, Or.inr rfl⟩).lookup name = some params →
        params ≠ Schema.Params.empty _ ∧ ¬ Conv2d.ActivationNone params :=
  (overrides_roundTrip_iff false _ ∅ ∅).1 ⟨"conv2d_1=activation#ReLU".toList, _, rfl, fun _ => rfl⟩

/-- An activation that is switched off is printed as a string the parser rejects. -/
theorem activationNone_not_roundTrips :
    (Conv2dConfigOverrideParser false).Produced (oneActivation ⟨[], Or.inl rfl⟩) ∧
      ¬ (Conv2dConfigOverrideParser false).RoundTrips (oneActivation ⟨[], Or.inl rfl⟩) := by
  have hproduced : (Conv2dConfigOverrideParser false).Produced (oneActivation ⟨[], Or.inl rfl⟩) :=
    ⟨"conv2d_1=activation#none".toList, _, rfl, fun _ => rfl⟩
  refine ⟨hproduced, fun h => ?_⟩
  obtain ⟨-, hnone⟩ := (conv2d_roundTrips_iff hproduced).mp h "conv2d_1".toList _
    (AList.lookup_insert _)
  exact hnone ⟨⟨[], Or.inl rfl⟩, Function.update_self _ _ _, rfl⟩

end PassOverrides
