/-
# GSPMD sharding strings

`MeshSharding::convertGSPMDShardingToMeshSharding` of `ShardingUtils.cpp` reads a sharding
string into the attributes of a `mesh_shard` operation: a mesh, the number of shards in each
dimension of the tensor, and the tensor dimension that each mesh dimension cuts.

* `convertGSPMDShardingToMeshSharding` : the parser, with its errors and its vector accesses;
* `convertCustomCall` : the calls that carry a string, with the assertion on its shard type;
* `OpSharding` : the strings of the syntax and what they give to each device;
* `MeshSharding.slice` : what the attributes give to each device;
* `readsFaithfully_iff` : which strings are read faithfully.

The order of the devices in a string, listed or transposed, is not looked at.
-/
import TTMLIR.OverrideString
import TTMLIR.TileAssignment

open OverrideString MixedRadix

namespace ShardingUtils

/-! ## The translated functions -/

/-- `MeshShardType`. -/
inductive MeshShardType : Type where
  | identity
  | replicate
  | maximal
  | devices
  deriving DecidableEq, Repr

/-- `MeshSharding` after its constructor; the direction and the mesh name are not read from a
string. -/
structure MeshSharding : Type where
  shardType : MeshShardType := .identity
  shardShape : List ℤ := [-1]
  shardDims : List ℤ := [-1]
  meshShape : List ℤ := [-1]
  deviceIds : List ℤ := [-1]
  lastTileDimReplicate : Bool := false
  deriving DecidableEq, Repr

/-- The vectors of a `MeshSharding` that are indexed. -/
inductive VectorName : Type where
  | shardShape
  | shardDims
  | meshShape
  deriving DecidableEq, Repr

/-- An error that is reported, an access out of range, or an assertion that fails. -/
inductive Failure : Type where
  | error (message : Str)
  | outOfRange (vector : VectorName)
  | assertion
  deriving DecidableEq, Repr

abbrev Result (α : Type) : Type := Except Failure α

/-- `str.contains(needle)`. -/
def contains (s needle : Str) : Bool := needle <:+: s

/-- `str.consume_front(front)`. -/
def consumeFront (s front : Str) : Option Str :=
  if front <+: s then some (s.drop front.length) else none

/-- `str.consume_back(back)`. -/
def consumeBack (s back : Str) : Option Str :=
  if back <:+ s then some (s.take (s.length - back.length)) else none

/-- `%d`: the low 32 bits of an argument. -/
def formatD (n : ℤ) : Str := toDecimal (n.bmod (2 ^ 32))

/-- The numbers between commas. -/
def parseDims (s : Str) : Option (List ℤ) := (s.splitOn ',').mapM getAsSignedInteger

/-- `parseDimsFromDimensionStr` with its check for square brackets. -/
def parseDimsFromDimensionStr (s : Str) : Option (List ℤ) := do
  let s ← consumeFront s ['[']
  let s ← consumeBack s [']']
  parseDims s

/-- `MeshSharding::parseGSPMDDevicesStr`. -/
def MeshSharding.parseGSPMDDevicesStr (sharding : MeshSharding) (devicesStr : Str) :
    Result MeshSharding :=
  let reshapeDevicesStrParsing := contains devicesStr "<=".toList
  let firstClosingBracketIdx := devicesStr.idxOf ']'
  if firstClosingBracketIdx ≤ 1 ∨ firstClosingBracketIdx = devicesStr.length then
    .error (.error ("Fail to parse GSPMD devices string [x,y,..]: ".toList ++ devicesStr))
  else
    let axesStr := devicesStr.take (firstClosingBracketIdx + 1)
    let restStr := devicesStr.drop (firstClosingBracketIdx + 1)
    match parseDimsFromDimensionStr axesStr with
    | none => .error (.error ("Fail to parse GSPMD devices axes string: ".toList ++ axesStr))
    | some shardShape =>
      if reshapeDevicesStrParsing then
        let reshapeStr := (restStr.drop 2).takeWhile (· ≠ 'T')
        match parseDimsFromDimensionStr reshapeStr with
        | none =>
          .error (.error ("Fail to parse GSPMD devices reshape string: ".toList ++ reshapeStr))
        | some meshShape => .ok { sharding with shardShape := shardShape, meshShape := meshShape }
      else
        match parseDims restStr with
        | none => .error (.error ("Fail to parse GSPMD device id string: ".toList ++ restStr))
        | some deviceIds =>
          .ok { sharding with
            shardShape := shardShape
            deviceIds := deviceIds
            meshShape := [(deviceIds.length : ℤ)] }

/-- `meshShape.size() - 1 - shardingCnt` of unsigned numbers, or the count itself. -/
def shardDimIdx (reverseOrder : Bool) (meshSize shardingCnt : ℕ) : ℕ :=
  if reverseOrder then (2 ^ 64 + meshSize - 1 - shardingCnt) % 2 ^ 64 else shardingCnt

/-- The loop of `determineGSPMDShardingDims` over the entries of the shard shape from the
`i`-th one. -/
def assignShardDims (reverseOrder : Bool) (meshShape : List ℤ) :
    List ℤ → ℕ → ℕ → List ℤ → Result (List ℤ)
  | [], _, _, shardDims => .ok shardDims
  | s :: shardShape, i, shardingCnt, shardDims =>
    if s = 1 then assignShardDims reverseOrder meshShape shardShape (i + 1) shardingCnt shardDims
    else
      let idx := shardDimIdx reverseOrder meshShape.length shardingCnt
      if 0 < s ∧ meshShape.length ≤ idx then .error (.outOfRange .meshShape)
      else if 0 < s ∧ s ≠ meshShape.getD idx 0 then
        .error (.error ("Fail to determine shardDims. shardShape[".toList ++ formatD i ++
          "] (".toList ++ formatD s ++ ") != meshShape[".toList ++ formatD idx ++
          "] (".toList ++ formatD (meshShape.getD idx 0) ++ ")".toList))
      else if shardDims.length ≤ idx then .error (.outOfRange .shardDims)
      else assignShardDims reverseOrder meshShape shardShape (i + 1) (shardingCnt + 1)
        (shardDims.set idx i)

/-- A product of 64-bit numbers. -/
def totalDevices (meshShape : List ℤ) : ℤ := (meshShape.prod).bmod (2 ^ 64)

/-- `isLineDeviceConfig`. -/
def isLineDeviceConfig (orgShardShape meshShape : List ℤ) : Bool :=
  orgShardShape.any fun s => s = totalDevices meshShape

/-- The mesh the shard dims are determined for. -/
def finalMeshShape (orgShardShape meshShape : List ℤ) : List ℤ :=
  if meshShape.length ≠ 1 then meshShape
  else if isLineDeviceConfig orgShardShape meshShape then [1, meshShape.getD 0 0]
  else orgShardShape.filter (· ≠ 1)

/-- `MeshSharding::determineGSPMDShardingDims`. -/
def MeshSharding.determineGSPMDShardingDims (sharding : MeshSharding) : Result MeshSharding :=
  let orgShardShape := sharding.shardShape
  if sharding.lastTileDimReplicate ∧ sharding.shardShape = [] then
    .error (.outOfRange .shardShape)
  else
    let shardShape :=
      if sharding.lastTileDimReplicate then sharding.shardShape.dropLast else sharding.shardShape
    let reverseOrder : Bool := sharding.meshShape.length ≠ 1
    let isLine := isLineDeviceConfig orgShardShape sharding.meshShape
    let meshShape := finalMeshShape orgShardShape sharding.meshShape
    if meshShape.length ≠ 2 then
      .error (.error ("Only support 2d hardware mesh config. mesh.size()=".toList ++
        formatD meshShape.length))
    else do
      let shardDims ← assignShardDims reverseOrder meshShape shardShape 0 isLine.toNat
        (List.replicate meshShape.length (-1))
      .ok { sharding with shardShape := shardShape, meshShape := meshShape, shardDims := shardDims }

/-- `MeshSharding::setNonDevicesShardType`. -/
def MeshSharding.setNonDevicesShardType (sharding : MeshSharding)
    (targetShardType : MeshShardType) : MeshSharding :=
  { sharding with
    shardType := targetShardType
    shardShape := [1]
    shardDims := [-1]
    meshShape := [-1] }

/-- A token that stands alone: `manual`, `replicated` or `maximal`. -/
def MeshSharding.nonDevicesToken (sharding : MeshSharding) (targetShardType : MeshShardType) :
    Result MeshSharding :=
  if sharding.shardType ≠ .identity then
    .error (.error "Fail to parse GSPMD sharding.".toList)
  else .ok (sharding.setNonDevicesShardType targetShardType)

/-- The body of the loop over the tokens. -/
def MeshSharding.parseToken (sharding : MeshSharding) (str : Str) : Result MeshSharding :=
  if contains str "manual".toList then sharding.nonDevicesToken .identity
  else if contains str "replicated".toList then sharding.nonDevicesToken .replicate
  else if contains str "maximal".toList then sharding.nonDevicesToken .maximal
  else match consumeFront str "device=".toList with
    | some device =>
      if sharding.shardType ≠ .maximal then
        .error (.error "Fail to parse GSPMD sharding.".toList)
      else match getAsSignedInteger device with
        | none => .error (.error "Fail to parse GSPMD sharding.".toList)
        | some d => .ok { sharding with deviceIds := sharding.deviceIds ++ [d] }
    | none =>
      match consumeFront str "devices=".toList with
      | some devices =>
        if sharding.shardType ≠ .identity then
          .error (.error "Fail to parse GSPMD sharding.".toList)
        else { sharding with shardType := .devices }.parseGSPMDDevicesStr devices
      | none =>
        if contains str "last_tile_dim_replicate".toList then
          if sharding.shardType ≠ .devices then
            .error (.error
              "Fail to parse GSPMD sharding in last_tile_dim_replicate.".toList)
          else .ok { sharding with lastTileDimReplicate := true }
        else .error (.error ("Unknown GSPMD sharding: ".toList ++ str))

/-- What `convertGSPMDShardingToMeshSharding` reads before it determines the shard dims. -/
def readTokens (shardingStr : Str) : Result MeshSharding :=
  match consumeFront shardingStr ['\x7b'] with
  | none => .error (.error "Fail to parse GSPMD sharding.".toList)
  | some rest =>
    match consumeBack rest ['\x7d'] with
    | none => .error (.error "Fail to parse GSPMD sharding.".toList)
    | some tokens => (tokens.splitOn ' ').foldlM MeshSharding.parseToken {}

/-- `MeshSharding::convertGSPMDShardingToMeshSharding` of a new object. -/
def convertGSPMDShardingToMeshSharding (shardingStr : Str) : Result MeshSharding := do
  let sharding ← readTokens shardingStr
  if sharding.shardType = .devices then sharding.determineGSPMDShardingDims
  else .ok sharding

/-- `MeshSharding::determineMeshShardOpCreationAndShardType`: the type of the `mesh_shard`
operation that is created, if one is. -/
def MeshSharding.determineMeshShardOpCreationAndShardType (sharding : MeshSharding)
    (foundSharding : Bool) : Result (Option MeshShardType) :=
  match sharding.shardType, foundSharding with
  | .replicate, true => .ok none
  | .devices, true => .ok (some .identity)
  | .replicate, false => .ok (some .replicate)
  | .devices, false => .ok (some .devices)
  | .identity, _ | .maximal, _ => .error .assertion

/-- The custom calls with a sharding string: a tensor is cut by `Sharding` and then
`SPMDFullToShardShape`, and put together by `SPMDShardToFullShape`. -/
inductive CustomCall : Type where
  | sharding
  | spmdFullToShardShape
  | spmdShardToFullShape
  deriving DecidableEq, Repr

/-- The conversion of a custom call: what is read from its string, and the type of the
`mesh_shard` operation that is created, if one is.  A sharding is found where the function has the
same on the argument or on the result. -/
def convertCustomCall (call : CustomCall) (foundSharding : Bool) (shardingStr : Str) :
    Result (MeshSharding × Option MeshShardType) := do
  let sharding ← convertGSPMDShardingToMeshSharding shardingStr
  if call = .spmdFullToShardShape ∨ (call = .sharding ∧ sharding.shardType = .identity) then
    .ok (sharding, none)
  else do
    let shardType ← sharding.determineMeshShardOpCreationAndShardType foundSharding
    .ok (sharding, shardType)

/-! ## The syntax and its meaning -/

/-- The shardings that strings describe. -/
inductive OpSharding : Type where
  | maximal (device : ℕ)
  | manual
  | replicated
  | tiled (t : TileAssignment)

/-- Numbers between commas. -/
def printDims (dims : List ℕ) : Str := [','].intercalate (dims.map fun n : ℕ => toDecimal (n : ℤ))

/-- Numbers in square brackets. -/
def printBracketed (dims : List ℕ) : Str := '[' :: (printDims dims ++ [']'])

/-- The devices of a tile assignment. -/
def printDevices : TileAssignment.DeviceList → Str
  | .explicit ids => printDims ids
  | .iota reshape none => "<=".toList ++ printBracketed reshape
  | .iota reshape (some perm) =>
    "<=".toList ++ printBracketed reshape ++ "T(".toList ++ printDims perm ++ ")".toList

/-- The token of a tile assignment. -/
def printTiled (t : TileAssignment) : Str :=
  "devices=".toList ++ (printBracketed t.dims ++ printDevices t.devices)

/-- The tokens of a sharding. -/
def OpSharding.tokens : OpSharding → List Str
  | maximal device => ["maximal".toList, "device=".toList ++ toDecimal device]
  | manual => ["manual".toList]
  | replicated => ["replicated".toList]
  | tiled t => printTiled t ::
      if t.lastTileDimReplicate then ["last_tile_dim_replicate".toList] else []

/-- The string of a sharding. -/
def OpSharding.print (sharding : OpSharding) : Str :=
  '\x7b' :: ([' '].intercalate sharding.tokens ++ ['\x7d'])

/-- What a device has of a tensor: the tensor it already holds, all of it, or one tile of a
grid. -/
inductive Slice : Type where
  | unsharded
  | whole
  | tile (counts index : List ℕ)
  deriving DecidableEq, Repr

/-- **What a string gives to a device.** -/
def OpSharding.Gives : OpSharding → ℕ → Slice → Prop
  | maximal device, d, slice => d = device ∧ slice = .whole
  | manual, _, slice => slice = .unsharded
  | replicated, _, slice => slice = .whole
  | tiled t, d, slice => ∃ k < t.numDevices, t.devices.deviceAt k = d ∧
      slice = .tile t.counts (t.tileAt k)

/-- The place of a device along the mesh dimensions that cut a tensor dimension. -/
def meshIndex (meshShape : List ℕ) (shardDims : List ℤ) (d x : ℕ) : ℕ :=
  let axes := (meshShape.zip ((unravel meshShape d).zip shardDims)).filter fun axis =>
    axis.2.2 = (x : ℤ)
  rowMajor (axes.map Prod.fst) (axes.map fun axis => axis.2.1)

/-- **What the attributes give to a device** of the mesh, in row-major order of the devices.
The attributes of a maximal sharding do not name a device. -/
def MeshSharding.slice (sharding : MeshSharding) (d : ℕ) : Option Slice :=
  match sharding.shardType with
  | .identity => some .unsharded
  | .replicate => some .whole
  | .maximal => none
  | .devices =>
    let meshShape := sharding.meshShape.map Int.toNat
    if d < meshShape.prod then
      some (.tile (sharding.shardShape.map Int.toNat)
        ((List.range sharding.shardShape.length).map (meshIndex meshShape sharding.shardDims d)))
    else none

/-- **Strings that are read faithfully or rejected**: no access to the mesh shape or the shard
shape is out of range, and a string of the syntax is an error or gives every device its slice. -/
structure ReadsFaithfully (call : CustomCall) (foundSharding : Bool) (str : Str) : Prop where
  inRange : convertCustomCall call foundSharding str ≠ .error (.outOfRange .meshShape) ∧
    convertCustomCall call foundSharding str ≠ .error (.outOfRange .shardShape)
  faithful : ∀ sharding : OpSharding, sharding.print = str →
    (∃ message, convertCustomCall call foundSharding str = .error (.error message)) ∨
      ∃ attributes shardType,
        convertCustomCall call foundSharding str = .ok (attributes, shardType) ∧
          ∀ d slice, sharding.Gives d slice → attributes.slice d = some slice

/-! ## The condition -/

/-- The shard shape without the dimension of the copies. -/
def MeshSharding.tileCounts (sharding : MeshSharding) : List ℤ :=
  if sharding.lastTileDimReplicate then sharding.shardShape.dropLast else sharding.shardShape

/-- The mesh dimensions that can cut the tensor, in the order they are used: from the last one
for a reshaped iota of several dimensions, and without the first one used where one entry of
the shard shape counts all devices. -/
def MeshSharding.openMeshDims (sharding : MeshSharding) : List ℤ :=
  let meshShape := finalMeshShape sharding.shardShape sharding.meshShape
  (if sharding.meshShape.length ≠ 1 then meshShape.reverse else meshShape).drop
    (isLineDeviceConfig sharding.shardShape sharding.meshShape).toNat

/-- A string that lists a positive tile count other than one after counts that use up the mesh. -/
def Overruns (str : Str) : Prop :=
  ∃ sharding, readTokens str = .ok sharding ∧ sharding.shardType = .devices ∧
    (finalMeshShape sharding.shardShape sharding.meshShape).length = 2 ∧
    ∃ pre s post, sharding.tileCounts.filter (· ≠ 1) = pre ++ s :: post ∧
      List.Forall₂ (fun s m => 0 < s → s = m) pre sharding.openMeshDims ∧ 0 < s

/-- Tile assignments whose device order the parser's assumptions fit: a list that keeps each
device among the copies it would be in if the devices were counted up; a reshaped iota of two
dimensions that is transposed, or whose devices are on one line, or that is rejected because
the tile counts are not the mesh from its end. -/
def Readable (t : TileAssignment) : Prop :=
  match t.devices with
  | .explicit ids => (t.numDevices ∉ t.dims ∧ (t.dims.filter (· ≠ 1)).length ≠ 2) ∨
      ∀ k < t.numDevices, ids.getD k 0 / t.replication = k / t.replication
  | .iota [r₀, r₁] transpose => t.numDevices ∈ t.dims ∨ transpose = some [1, 0] ∨
      ¬ t.counts.filter (· ≠ 1) <+: [r₁, r₀]
  | .iota _ _ => True

/-! ## Strings -/

@[simp] theorem consumeFront_append (front s : Str) : consumeFront (front ++ s) front = some s := by
  rw [consumeFront, if_pos (List.prefix_append front s), List.drop_left]

@[simp] theorem consumeBack_append (s back : Str) : consumeBack (s ++ back) back = some s := by
  rw [consumeBack, if_pos (List.suffix_append s back), List.length_append, Nat.add_sub_cancel,
    List.take_left]

theorem contains_eq_false {needle s : Str} {c : Char} (hc : c ∈ needle) (hs : c ∉ s) :
    contains s needle = false := by
  rw [contains, decide_eq_false_iff_not]
  intro h
  exact hs (h.subset hc)

variable {dims : List ℕ}

theorem isDigit_or_of_mem_printDims {c : Char} (h : c ∈ printDims dims) : c.isDigit ∨ c = ',' := by
  by_contra hnot
  rw [not_or] at hnot
  refine notMem_intercalate hnot.2 ?_ h
  intro part hpart
  obtain ⟨n, -, rfl⟩ := List.mem_map.mp hpart
  have hdigits : toDecimal (n : ℤ) = Nat.toDigits 10 n := by
    rw [toDecimal, if_neg (by omega), Int.natAbs_natCast]
  rw [hdigits]
  exact notMem_toDigits (by simpa using hnot.1)

theorem notMem_printDims {c : Char} (hdigit : c.isDigit = false) (hc : c ≠ ',') :
    c ∉ printDims dims := by
  intro h
  rcases isDigit_or_of_mem_printDims h with h | h
  · rw [hdigit] at h
    cases h
  · exact hc h

/-- **Printed numbers are read back.** -/
theorem parseDims_printDims (hne : dims ≠ []) (hlt : ∀ n ∈ dims, n < 2 ^ 63) :
    parseDims (printDims dims) = some (dims.map fun n : ℕ => (n : ℤ)) := by
  have hparts : (printDims dims).splitOn ',' = dims.map fun n : ℕ => toDecimal (n : ℤ) := by
    refine List.splitOn_intercalate ',' ?_ (by simpa using hne)
    intro part hpart
    obtain ⟨n, -, rfl⟩ := List.mem_map.mp hpart
    exact notMem_toDecimal (by decide) (by decide)
  rw [parseDims, hparts]
  clear hparts hne
  induction dims with
  | nil => rfl
  | cons n dims ih =>
    have hn := hlt n (by simp)
    rw [List.map_cons, List.mapM_cons, getAsSignedInteger_toDecimal (by omega) (by omega),
      ih fun m hm => hlt m (by simp [hm])]
    rfl

/-- **Bracketed numbers are read back.** -/
theorem parseDimsFromDimensionStr_printBracketed (hne : dims ≠ []) (hlt : ∀ n ∈ dims, n < 2 ^ 63) :
    parseDimsFromDimensionStr (printBracketed dims) = some (dims.map fun n : ℕ => (n : ℤ)) := by
  have hfront : consumeFront (printBracketed dims) ['['] = some (printDims dims ++ [']']) :=
    consumeFront_append ['['] _
  rw [parseDimsFromDimensionStr, hfront]
  show (consumeBack (printDims dims ++ [']']) [']']).bind parseDims = _
  rw [consumeBack_append]
  exact parseDims_printDims hne hlt

theorem printDims_ne_nil (hne : dims ≠ []) : printDims dims ≠ [] := by
  obtain ⟨n, rest, rfl⟩ := List.exists_cons_of_ne_nil hne
  cases rest with
  | nil => simpa [printDims, List.intercalate] using toDecimal_ne_nil n
  | cons m rest =>
    rw [printDims, List.map_cons, List.map_cons, List.intercalate_cons_cons]
    simp

/-! ## Reading a tile assignment -/

theorem lt_of_mem_of_prod_lt {l : List ℕ} (hpos : ∀ n ∈ l, 0 < n) (hprod : l.prod < 2 ^ 63) :
    ∀ n ∈ l, n < 2 ^ 63 := by
  intro n hn
  have hle := Nat.le_of_dvd (prod_pos_of_forall_pos hpos) (List.dvd_prod hn)
  omega

/-- What is read of a tile assignment. -/
def fieldsOf (t : TileAssignment) : MeshSharding :=
  { shardType := .devices
    shardShape := t.dims.map fun n : ℕ => (n : ℤ)
    meshShape := match t.devices with
      | .explicit ids => [(ids.length : ℤ)]
      | .iota reshape _ => reshape.map fun n : ℕ => (n : ℤ)
    deviceIds := match t.devices with
      | .explicit ids => ids.map fun n : ℕ => (n : ℤ)
      | .iota _ _ => [-1]
    lastTileDimReplicate := t.lastTileDimReplicate }

theorem idxOf_closingBracket (dims : List ℕ) (rest : Str) :
    (printBracketed dims ++ rest).idxOf ']' = (printDims dims).length + 1 := by
  have hnot : ']' ∉ '[' :: printDims dims := by
    rw [List.mem_cons, not_or]
    exact ⟨by decide, notMem_printDims (by decide) (by decide)⟩
  have hsplit : printBracketed dims ++ rest = ('[' :: printDims dims) ++ (']' :: rest) := by
    simp [printBracketed]
  rw [hsplit, List.idxOf_append_of_notMem hnot, List.idxOf_cons_self]
  simp

theorem take_closingBracket (dims : List ℕ) (rest : Str) :
    (printBracketed dims ++ rest).take ((printDims dims).length + 1 + 1) = printBracketed dims := by
  rw [List.take_append_of_le_length (by simp [printBracketed])]
  exact List.take_of_length_le (by simp [printBracketed])

theorem drop_closingBracket (dims : List ℕ) (rest : Str) :
    (printBracketed dims ++ rest).drop ((printDims dims).length + 1 + 1) = rest := by
  have hlen : (printBracketed dims).length = (printDims dims).length + 1 + 1 := by
    simp [printBracketed]
  rw [← hlen, List.drop_left]

/-- What is looked for behind a reshaped iota is the transposition. -/
theorem takeWhile_reshape (reshape : List ℕ) (rest : Str)
    (hrest : rest = [] ∨ ∃ s, rest = 'T' :: s) :
    (printBracketed reshape ++ rest).takeWhile (· ≠ 'T') = printBracketed reshape := by
  have hall : ∀ c ∈ printBracketed reshape, c ≠ 'T' := by
    intro c hc
    rw [printBracketed, List.mem_cons, List.mem_append, List.mem_singleton] at hc
    rcases hc with rfl | hc | rfl
    · decide
    · rintro rfl
      exact notMem_printDims (by decide) (by decide) hc
    · decide
  rw [List.takeWhile_append_of_pos fun c hc => by simpa using hall c hc]
  rcases hrest with rfl | ⟨s, rfl⟩ <;> simp

/-- **The devices token is read back**, the transposition apart. -/
theorem parseGSPMDDevicesStr_print (t : TileAssignment) :
    ({ shardType := .devices } : MeshSharding).parseGSPMDDevicesStr
      (printBracketed t.dims ++ printDevices t.devices) =
        .ok { fieldsOf t with lastTileDimReplicate := false } := by
  have hdims := lt_of_mem_of_prod_lt t.dims_pos t.numDevices_lt
  have hpos : 0 < (printDims t.dims).length :=
    List.length_pos_iff.mpr (printDims_ne_nil t.dims_ne_nil)
  have hlength : (printDims t.dims).length + 1 <
      (printBracketed t.dims ++ printDevices t.devices).length := by
    simp [printBracketed]
  rw [MeshSharding.parseGSPMDDevicesStr]
  simp only [idxOf_closingBracket, take_closingBracket, drop_closingBracket]
  rw [if_neg (by omega), parseDimsFromDimensionStr_printBracketed t.dims_ne_nil hdims]
  have hvalid := t.valid
  cases hdevices : t.devices with
  | explicit ids =>
    rw [hdevices] at hvalid
    have hids : ∀ n ∈ ids, n < 2 ^ 63 := by
      intro n hn
      have := List.mem_range.mp (hvalid.subset hn)
      have := t.numDevices_lt
      omega
    have hne : ids ≠ [] := by
      rintro rfl
      have hlen : 0 = t.dims.prod := by simpa using hvalid.length_eq
      have := t.numDevices_pos
      rw [TileAssignment.numDevices] at this
      omega
    have hcontains : contains (printBracketed t.dims ++ printDims ids) "<=".toList = false := by
      refine contains_eq_false (c := '<') (by decide) ?_
      have h₁ : '<' ∉ printDims t.dims := notMem_printDims (by decide) (by decide)
      have h₂ : '<' ∉ printDims ids := notMem_printDims (by decide) (by decide)
      simp [printBracketed, h₁, h₂]
    simp only [printDevices, parseDims_printDims hne hids, fieldsOf, hdevices, List.length_map]
    rw [if_neg (by rw [hcontains]; decide)]
  | iota reshape transpose =>
    rw [hdevices] at hvalid
    obtain ⟨hne, hrpos, hprod, -⟩ := hvalid
    have hreshape := lt_of_mem_of_prod_lt hrpos (hprod ▸ t.numDevices_lt)
    obtain ⟨rest, hprint, hrest⟩ : ∃ rest, printDevices (.iota reshape transpose) =
        "<=".toList ++ (printBracketed reshape ++ rest) ∧ (rest = [] ∨ ∃ s, rest = 'T' :: s) := by
      cases transpose with
      | none => exact ⟨[], by simp [printDevices], Or.inl rfl⟩
      | some perm =>
        refine ⟨"T(".toList ++ printDims perm ++ ")".toList, ?_, Or.inr ⟨_, rfl⟩⟩
        simp only [printDevices, List.append_assoc]
    have hcontains : contains (printBracketed t.dims ++ printDevices (.iota reshape transpose))
        "<=".toList = true := by
      rw [contains, decide_eq_true_iff, hprint]
      exact List.IsInfix.trans (List.infix_append' [] _ _) (List.suffix_append _ _).isInfix
    have hdrop : (printDevices (.iota reshape transpose)).drop 2 =
        printBracketed reshape ++ rest := by
      rw [hprint]
      rfl
    simp only [hcontains, hdrop, takeWhile_reshape reshape rest hrest,
      parseDimsFromDimensionStr_printBracketed hne hreshape, fieldsOf, hdevices, if_true]

/-- The characters of a devices token other than digits. -/
def tokenChars : Str := "devices=[],<T()".toList

section Characters

variable {c : Char} (hdigit : c.isDigit = false) (hc : c ∉ tokenChars)
include hdigit hc

theorem notMem_printBracketed (dims : List ℕ) : c ∉ printBracketed dims := by
  intro h
  rw [printBracketed, List.mem_cons, List.mem_append] at h
  rcases h with rfl | h | h
  · exact hc (by decide)
  · exact notMem_printDims hdigit (fun heq => hc (heq ▸ by decide)) h
  · obtain rfl := List.mem_singleton.mp h
    exact hc (by decide)

theorem notMem_printDevices (devices : TileAssignment.DeviceList) : c ∉ printDevices devices := by
  have hdims : ∀ dims, c ∉ printDims dims := fun dims =>
    notMem_printDims hdigit fun h => hc (h ▸ by decide)
  have harrow : c ∉ "<=".toList := fun h => hc ((by decide : "<=".toList ⊆ tokenChars) h)
  have hopen : c ∉ "T(".toList := fun h => hc ((by decide : "T(".toList ⊆ tokenChars) h)
  have hclose : c ∉ ")".toList := fun h => hc ((by decide : ")".toList ⊆ tokenChars) h)
  cases devices with
  | explicit ids => exact hdims ids
  | iota reshape transpose =>
    have hreshape := notMem_printBracketed hdigit hc reshape
    cases transpose with
    | none => exact fun h => (List.mem_append.mp h).elim harrow hreshape
    | some perm =>
      intro h
      rcases List.mem_append.mp h with h | h
      · rcases List.mem_append.mp h with h | h
        · rcases List.mem_append.mp h with h | h
          · exact (List.mem_append.mp h).elim harrow hreshape
          · exact hopen h
        · exact hdims perm h
      · exact hclose h

theorem notMem_printTiled (t : TileAssignment) : c ∉ printTiled t := by
  have hkey : c ∉ "devices=".toList :=
    fun h => hc ((by decide : "devices=".toList ⊆ tokenChars) h)
  intro h
  rcases List.mem_append.mp h with h | h
  · exact hkey h
  · exact (List.mem_append.mp h).elim (notMem_printBracketed hdigit hc t.dims)
      (notMem_printDevices hdigit hc t.devices)

end Characters

/-- The devices token sets the fields of a tile assignment. -/
theorem parseToken_printTiled (t : TileAssignment) : ({} : MeshSharding).parseToken (printTiled t) =
      .ok { fieldsOf t with lastTileDimReplicate := false } := by
  have hm : 'm' ∉ printTiled t := notMem_printTiled (by decide) (by decide) t
  have hr : 'r' ∉ printTiled t := notMem_printTiled (by decide) (by decide) t
  have hdevice : consumeFront (printTiled t) "device=".toList = none := by
    refine if_neg ?_
    rintro ⟨s, hs⟩
    have hchar : ("device=".toList ++ s).getD 6 ' ' = (printTiled t).getD 6 ' ' := by rw [hs]
    exact absurd hchar (by decide : ('=' : Char) ≠ 's')
  have hdevices : consumeFront (printTiled t) "devices=".toList =
      some (printBracketed t.dims ++ printDevices t.devices) := consumeFront_append _ _
  rw [MeshSharding.parseToken, contains_eq_false (c := 'm') (by decide) hm,
    contains_eq_false (c := 'r') (by decide) hr, contains_eq_false (c := 'm') (by decide) hm,
    if_neg (by decide), if_neg (by decide), if_neg (by decide), hdevice, hdevices]
  exact parseGSPMDDevicesStr_print t

theorem readTokens_print (sharding : OpSharding) (h : ∀ token ∈ sharding.tokens, ' ' ∉ token)
    (hne : sharding.tokens ≠ []) :
    readTokens sharding.print = sharding.tokens.foldlM MeshSharding.parseToken {} := by
  have hfront : consumeFront sharding.print ['\x7b'] =
      some ([' '].intercalate sharding.tokens ++ ['\x7d']) := consumeFront_append ['\x7b'] _
  rw [readTokens, hfront]
  show (match consumeBack ([' '].intercalate sharding.tokens ++ ['\x7d']) ['\x7d'] with
    | none => _
    | some tokens => (tokens.splitOn ' ').foldlM MeshSharding.parseToken {}) = _
  rw [consumeBack_append]
  show ((([' '].intercalate sharding.tokens).splitOn ' ').foldlM MeshSharding.parseToken {}) = _
  rw [List.splitOn_intercalate ' ' h hne]

/-- **A tile assignment is read back**, the transposition apart. -/
theorem readTokens_tiled (t : TileAssignment) :
    readTokens (OpSharding.tiled t).print = .ok (fieldsOf t) := by
  have hspace : ' ' ∉ printTiled t := notMem_printTiled (by decide) (by decide) t
  have htokens : (OpSharding.tiled t).tokens = printTiled t ::
      if t.lastTileDimReplicate then ["last_tile_dim_replicate".toList] else [] := rfl
  rw [readTokens_print _ ?_ (htokens ▸ List.cons_ne_nil _ _), htokens, List.foldlM_cons,
    parseToken_printTiled]
  · show List.foldlM MeshSharding.parseToken _ _ = _
    cases hlast : t.lastTileDimReplicate with
    | false =>
      show Except.ok _ = _
      rw [fieldsOf, hlast]
    | true =>
      rw [if_pos rfl]
      have hparse : ∀ sharding : MeshSharding, sharding.shardType = .devices →
          sharding.parseToken "last_tile_dim_replicate".toList =
            .ok { sharding with lastTileDimReplicate := true } := by
        intro sharding htype
        rw [MeshSharding.parseToken, if_neg (by decide), if_neg (by decide), if_neg (by decide)]
        have h₁ : consumeFront "last_tile_dim_replicate".toList "device=".toList = none := by
          decide
        have h₂ : consumeFront "last_tile_dim_replicate".toList "devices=".toList = none := by
          decide
        rw [h₁, h₂]
        show (if contains _ _ then _ else _) = _
        rw [if_pos (by decide), if_neg (by simp [htype])]
      rw [List.foldlM_cons, hparse _ rfl]
      show Except.ok _ = _
      rw [fieldsOf, hlast]
  · intro token htoken
    rw [htokens, List.mem_cons] at htoken
    rcases htoken with rfl | htoken
    · exact hspace
    · split_ifs at htoken with hlast
      · obtain rfl := List.mem_singleton.mp htoken
        decide
      · cases htoken

/-! ## The loop over the shard shape -/

/-- The entries other than one, with their positions from `i`. -/
def tiledDims : List ℤ → ℕ → List (ℤ × ℕ)
  | [], _ => []
  | s :: shardShape, i =>
    if s = 1 then tiledDims shardShape (i + 1) else (s, i) :: tiledDims shardShape (i + 1)

theorem map_fst_tiledDims (shardShape : List ℤ) (i : ℕ) :
    (tiledDims shardShape i).map Prod.fst = shardShape.filter (· ≠ 1) := by
  induction shardShape generalizing i with
  | nil => rfl
  | cons s shardShape ih =>
    by_cases h : s = 1
    · rw [tiledDims, if_pos h, ih, List.filter_cons_of_neg (by simpa using h)]
    · rw [tiledDims, if_neg h, List.map_cons, ih, List.filter_cons_of_pos (by simpa using h)]

theorem tiledDims_eq_zip (counts : List ℕ) (i : ℕ) : tiledDims (counts.map fun n : ℕ => (n : ℤ)) i =
      ((counts.filter (· ≠ 1)).map fun n : ℕ => (n : ℤ)).zip (positions counts i) := by
  induction counts generalizing i with
  | nil => rfl
  | cons n counts ih =>
    by_cases h : n = 1
    · rw [List.map_cons, tiledDims, if_pos (by simpa using h), ih, positions, if_pos h,
        List.filter_cons_of_neg (by simpa using h)]
    · rw [List.map_cons, tiledDims, if_neg (by simpa using h), ih, positions, if_neg h,
        List.filter_cons_of_pos (by simpa using h), List.map_cons, List.zip_cons_cons]

/-- The loop over these entries only. -/
def assignTiled (reverseOrder : Bool) (meshShape : List ℤ) :
    List (ℤ × ℕ) → ℕ → List ℤ → Result (List ℤ)
  | [], _, shardDims => .ok shardDims
  | (s, i) :: tiled, shardingCnt, shardDims =>
    let idx := shardDimIdx reverseOrder meshShape.length shardingCnt
    if 0 < s ∧ meshShape.length ≤ idx then .error (.outOfRange .meshShape)
    else if 0 < s ∧ s ≠ meshShape.getD idx 0 then
      .error (.error ("Fail to determine shardDims. shardShape[".toList ++ formatD i ++
        "] (".toList ++ formatD s ++ ") != meshShape[".toList ++ formatD idx ++
        "] (".toList ++ formatD (meshShape.getD idx 0) ++ ")".toList))
    else if shardDims.length ≤ idx then .error (.outOfRange .shardDims)
    else assignTiled reverseOrder meshShape tiled (shardingCnt + 1) (shardDims.set idx i)

theorem assignShardDims_eq (reverseOrder : Bool) (meshShape shardShape : List ℤ)
    (i shardingCnt : ℕ) (shardDims : List ℤ) :
    assignShardDims reverseOrder meshShape shardShape i shardingCnt shardDims =
      assignTiled reverseOrder meshShape (tiledDims shardShape i) shardingCnt shardDims := by
  induction shardShape generalizing i shardingCnt shardDims with
  | nil => rfl
  | cons s shardShape ih =>
    rw [assignShardDims, tiledDims]
    split_ifs with h
    · exact ih _ _ _
    · rw [assignTiled]
      simp only [ih]

/-- The mesh dimensions from a count on, in the order they are used. -/
def openFrom (reverseOrder : Bool) (meshShape : List ℤ) (shardingCnt : ℕ) : List ℤ :=
  (if reverseOrder then meshShape.reverse else meshShape).drop shardingCnt

section Pair

variable (reverseOrder : Bool) (m₀ m₁ : ℤ)

variable {shardingCnt : ℕ}

theorem openFrom_eq_cons (h : shardingCnt < 2) :
    shardDimIdx reverseOrder 2 shardingCnt < 2 ∧ openFrom reverseOrder [m₀, m₁] shardingCnt =
      [m₀, m₁].getD (shardDimIdx reverseOrder 2 shardingCnt) 0 ::
        openFrom reverseOrder [m₀, m₁] (shardingCnt + 1) := by
  have hcnt : shardingCnt = 0 ∨ shardingCnt = 1 := by omega
  rcases hcnt with rfl | rfl <;> cases reverseOrder <;> exact ⟨by decide, rfl⟩

theorem two_le_shardDimIdx : 2 ≤ shardDimIdx reverseOrder 2 2 := by
  cases reverseOrder <;> decide

variable {tiled : List (ℤ × ℕ)} {shardDims : List ℤ}

theorem assignTiled_cons {s : ℤ} {i shardingCnt : ℕ}
    (hcnt : shardingCnt < 2) (hdims : shardDims.length = 2)
    (hs : 0 < s → s = [m₀, m₁].getD (shardDimIdx reverseOrder 2 shardingCnt) 0) :
    assignTiled reverseOrder [m₀, m₁] ((s, i) :: tiled) shardingCnt shardDims =
      assignTiled reverseOrder [m₀, m₁] tiled (shardingCnt + 1)
        (shardDims.set (shardDimIdx reverseOrder 2 shardingCnt) i) := by
  have hidx := (openFrom_eq_cons reverseOrder m₀ m₁ hcnt).1
  have hlen : ([m₀, m₁] : List ℤ).length = 2 := rfl
  rw [assignTiled]
  simp only [hlen]
  rw [if_neg (by omega), if_neg (fun h => h.2 (hs h.1)), if_neg (by omega)]

theorem length_openFrom (shardingCnt : ℕ) :
    (openFrom reverseOrder [m₀, m₁] shardingCnt).length = 2 - shardingCnt := by
  cases reverseOrder <;> simp [openFrom]

/-- **When the loop leaves the mesh**: a positive entry follows entries that use it up. -/
theorem assignTiled_eq_outOfRange_iff (tiled : List (ℤ × ℕ))
    (hcnt : shardingCnt ≤ 2) (hdims : shardDims.length = 2) :
    assignTiled reverseOrder [m₀, m₁] tiled shardingCnt shardDims =
        .error (.outOfRange .meshShape) ↔
      ∃ pre s post, tiled.map Prod.fst = pre ++ s :: post ∧
        List.Forall₂ (fun s m => 0 < s → s = m) pre (openFrom reverseOrder [m₀, m₁] shardingCnt) ∧
          0 < s := by
  induction tiled generalizing shardingCnt shardDims with
  | nil => simp [assignTiled]
  | cons entry tiled ih =>
    obtain ⟨s, i⟩ := entry
    rcases Nat.lt_or_ge shardingCnt 2 with hlt | hge
    · obtain ⟨hidx, hopen⟩ := openFrom_eq_cons reverseOrder m₀ m₁ hlt
      by_cases hs : 0 < s → s = [m₀, m₁].getD (shardDimIdx reverseOrder 2 shardingCnt) 0
      · rw [assignTiled_cons reverseOrder m₀ m₁ hlt hdims hs,
          ih (by omega) (by rw [List.length_set]; exact hdims), hopen]
        constructor
        · rintro ⟨pre, s', post, heq, hpre, hpos⟩
          exact ⟨s :: pre, s', post, by rw [List.map_cons, heq]; rfl,
            List.Forall₂.cons hs hpre, hpos⟩
        · rintro ⟨pre, s', post, heq, hpre, hpos⟩
          cases hpre with
          | cons _ hpre =>
            rw [List.map_cons, List.cons_append] at heq
            exact ⟨_, s', post, (List.cons.inj heq).2, hpre, hpos⟩
      · -- the entry does not match, which is an error
        have hpos : 0 < s := by
          by_contra hneg
          exact hs fun h => absurd h hneg
        have hne : s ≠ [m₀, m₁].getD (shardDimIdx reverseOrder 2 shardingCnt) 0 :=
          fun h => hs fun _ => h
        have hlen : ([m₀, m₁] : List ℤ).length = 2 := rfl
        rw [assignTiled]
        simp only [hlen]
        rw [if_neg (by omega), if_pos ⟨hpos, hne⟩, hopen]
        constructor
        · intro h
          cases h
        · rintro ⟨pre, s', post, heq, hpre, -⟩
          cases hpre with
          | cons hfirst _ =>
            rw [List.map_cons, List.cons_append] at heq
            obtain ⟨rfl, -⟩ := List.cons.inj heq
            exact absurd hfirst hs
    · obtain rfl : shardingCnt = 2 := by omega
      have hopen : openFrom reverseOrder [m₀, m₁] 2 = [] := by
        cases reverseOrder <;> rfl
      have hlen : ([m₀, m₁] : List ℤ).length = 2 := rfl
      have hidx := two_le_shardDimIdx reverseOrder
      rw [assignTiled, hopen]
      simp only [hlen]
      constructor
      · intro h
        refine ⟨[], s, tiled.map Prod.fst, rfl, List.Forall₂.nil, ?_⟩
        by_contra hneg
        rw [if_neg (fun h => hneg h.1), if_neg (fun h => hneg h.1), if_pos (by omega)] at h
        cases h
      · rintro ⟨pre, s', post, heq, hpre, hpos⟩
        cases hpre
        obtain ⟨rfl, -⟩ := List.cons.inj heq
        rw [if_pos ⟨hpos, hidx⟩]

/-- The loop reads no other vector out of range, and asserts nothing. -/
theorem assignTiled_ne_error {f : Failure} (hf : f = .outOfRange .shardShape ∨ f = .assertion)
    (reverseOrder : Bool) (meshShape : List ℤ) (tiled : List (ℤ × ℕ)) (shardingCnt : ℕ)
    (shardDims : List ℤ) :
    assignTiled reverseOrder meshShape tiled shardingCnt shardDims ≠ .error f := by
  induction tiled generalizing shardingCnt shardDims with
  | nil => exact fun h => nomatch h
  | cons entry tiled ih =>
    rw [assignTiled]
    generalize shardDimIdx reverseOrder meshShape.length shardingCnt = idx
    split_ifs
    · rcases hf with rfl | rfl <;> exact fun h => nomatch h
    · rcases hf with rfl | rfl <;> exact fun h => nomatch h
    · rcases hf with rfl | rfl <;> exact fun h => nomatch h
    · exact ih _ _

/-- Positive entries leave the mesh before the shard dims. -/
theorem assignTiled_ne_shardDims (hpos : ∀ entry ∈ tiled, 0 < entry.1)
    (shardingCnt : ℕ) (hdims : shardDims.length = 2) :
    assignTiled reverseOrder [m₀, m₁] tiled shardingCnt shardDims ≠
      .error (.outOfRange .shardDims) := by
  induction tiled generalizing shardingCnt shardDims with
  | nil => exact fun h => nomatch h
  | cons entry tiled ih =>
    have hs := hpos entry (by simp)
    have hlen : ([m₀, m₁] : List ℤ).length = 2 := rfl
    rw [assignTiled]
    simp only [hlen]
    generalize shardDimIdx reverseOrder 2 shardingCnt = idx
    split_ifs with hmesh hmatch hset
    · exact fun h => nomatch h
    · exact fun h => nomatch h
    · omega
    · exact ih (fun e he => hpos e (by simp [he])) _ (by rw [List.length_set]; exact hdims)

/-- **When the loop ends**: positive entries are the open mesh dimensions from the first. -/
theorem counts_of_assignTiled_eq_ok (hpos : ∀ entry ∈ tiled, 0 < entry.1)
    (hcnt : shardingCnt ≤ 2) {shardDims shardDims' : List ℤ} (hdims : shardDims.length = 2)
    (h : assignTiled reverseOrder [m₀, m₁] tiled shardingCnt shardDims = .ok shardDims') :
    tiled.map Prod.fst <+: openFrom reverseOrder [m₀, m₁] shardingCnt := by
  induction tiled generalizing shardingCnt shardDims with
  | nil => exact List.nil_prefix
  | cons entry tiled ih =>
    obtain ⟨s, i⟩ := entry
    have hs : 0 < s := hpos (s, i) (by simp)
    have hlen : ([m₀, m₁] : List ℤ).length = 2 := rfl
    rcases Nat.lt_or_ge shardingCnt 2 with hlt | hge
    · obtain ⟨hidx, hopen⟩ := openFrom_eq_cons reverseOrder m₀ m₁ hlt
      have hmatch : s = [m₀, m₁].getD (shardDimIdx reverseOrder 2 shardingCnt) 0 := by
        by_contra hne
        rw [assignTiled] at h
        simp only [hlen] at h
        rw [if_neg (by omega), if_pos ⟨hs, hne⟩] at h
        cases h
      rw [assignTiled_cons reverseOrder m₀ m₁ hlt hdims fun _ => hmatch] at h
      rw [List.map_cons, hopen, hmatch]
      refine List.cons_prefix_cons.mpr ⟨rfl, ?_⟩
      exact ih (fun entry hentry => hpos entry (by simp [hentry])) (by omega)
        (by rw [List.length_set]; exact hdims) h
    · obtain rfl : shardingCnt = 2 := by omega
      rw [assignTiled] at h
      simp only [hlen] at h
      rw [if_pos ⟨hs, two_le_shardDimIdx reverseOrder⟩] at h
      cases h

/-- One entry that is matched cuts one tensor dimension. -/
theorem assignTiled_one {a : ℤ} {i shardingCnt : ℕ} (ha : 0 < a) (hcnt : shardingCnt < 2)
    {shardDims shardDims' : List ℤ} (hdims : shardDims.length = 2)
    (htiled : ∀ entry ∈ tiled, 0 < entry.1)
    (h : assignTiled reverseOrder [m₀, m₁] ((a, i) :: tiled) shardingCnt shardDims =
      .ok shardDims') :
    assignTiled reverseOrder [m₀, m₁] tiled (shardingCnt + 1)
      (shardDims.set (shardDimIdx reverseOrder 2 shardingCnt) i) = .ok shardDims' := by
  have hpos : ∀ entry ∈ (a, i) :: tiled, 0 < entry.1 := by
    intro entry hentry
    rcases List.mem_cons.mp hentry with rfl | hentry
    · exact ha
    · exact htiled entry hentry
  have hpre := counts_of_assignTiled_eq_ok reverseOrder m₀ m₁ hpos hcnt.le hdims h
  rw [List.map_cons, (openFrom_eq_cons reverseOrder m₀ m₁ hcnt).2] at hpre
  have hmatch := (List.cons_prefix_cons.mp hpre).1
  rwa [assignTiled_cons reverseOrder m₀ m₁ hcnt hdims fun _ => hmatch] at h

/-- Positive entries that are the open mesh dimensions from the first end the loop. -/
theorem exists_assignTiled_eq_ok {values : List ℤ} {ps : List ℕ}
    (hcnt : shardingCnt ≤ 2) (hlen : ps.length = values.length)
    (hpre : values <+: openFrom reverseOrder [m₀, m₁] shardingCnt)
    (hdims : shardDims.length = 2) :
    ∃ shardDims', assignTiled reverseOrder [m₀, m₁] (values.zip ps) shardingCnt shardDims =
      .ok shardDims' := by
  induction values generalizing ps shardingCnt shardDims with
  | nil => exact ⟨shardDims, rfl⟩
  | cons s values ih =>
    obtain ⟨i, ps, rfl⟩ : ∃ i ps', ps = i :: ps' :=
      List.exists_cons_of_length_pos (by rw [hlen]; exact Nat.succ_pos _)
    have hlt : shardingCnt < 2 := by
      have hle := hpre.length_le
      rw [List.length_cons, length_openFrom] at hle
      omega
    obtain ⟨hidx, hopen⟩ := openFrom_eq_cons reverseOrder m₀ m₁ hlt
    rw [hopen] at hpre
    obtain ⟨hmatch, hrest⟩ := List.cons_prefix_cons.mp hpre
    rw [List.zip_cons_cons, assignTiled_cons reverseOrder m₀ m₁ hlt hdims fun _ => hmatch]
    exact ih (by omega) (by simpa using hlen) hrest (by rw [List.length_set]; exact hdims)

end Pair

/-! ## Out of range -/

theorem parseDims_ne_nil {s : Str} {dims : List ℤ} (h : parseDims s = some dims) : dims ≠ [] := by
  obtain ⟨part, parts, hparts⟩ := List.exists_cons_of_ne_nil (List.splitOn_ne_nil ',' s)
  rw [parseDims, hparts, List.mapM_cons] at h
  obtain ⟨d, -, h⟩ := Option.bind_eq_some_iff.mp h
  obtain ⟨ds, -, h⟩ := Option.bind_eq_some_iff.mp h
  rw [← Option.some.inj h]
  exact List.cons_ne_nil _ _

theorem parseDimsFromDimensionStr_ne_nil {s : Str} {dims : List ℤ}
    (h : parseDimsFromDimensionStr s = some dims) : dims ≠ [] := by
  obtain ⟨s₁, -, h⟩ := Option.bind_eq_some_iff.mp h
  obtain ⟨s₂, -, h⟩ := Option.bind_eq_some_iff.mp h
  exact parseDims_ne_nil h

/-- A step of reading reports errors and keeps the shard shape from being empty. -/
def Reads (sharding : MeshSharding) (result : Result MeshSharding) : Prop :=
  match result with
  | .error f => ∃ message, f = .error message
  | .ok sharding' => sharding.shardShape ≠ [] → sharding'.shardShape ≠ []

theorem reads_nonDevicesToken (sharding : MeshSharding) (shardType : MeshShardType) :
    Reads sharding (sharding.nonDevicesToken shardType) := by
  rw [MeshSharding.nonDevicesToken]
  split_ifs
  · exact ⟨_, rfl⟩
  · exact fun _ => List.cons_ne_nil _ _

theorem reads_parseGSPMDDevicesStr (sharding : MeshSharding) (devicesStr : Str) :
    Reads sharding (sharding.parseGSPMDDevicesStr devicesStr) := by
  unfold MeshSharding.parseGSPMDDevicesStr
  simp only
  split
  · exact ⟨_, rfl⟩
  · split
    · exact ⟨_, rfl⟩
    · next shardShape hshape =>
        have hne := parseDimsFromDimensionStr_ne_nil hshape
        split
        · split
          · exact ⟨_, rfl⟩
          · exact fun _ => hne
        · split
          · exact ⟨_, rfl⟩
          · exact fun _ => hne

theorem reads_parseToken (sharding : MeshSharding) (str : Str) :
    Reads sharding (sharding.parseToken str) := by
  unfold MeshSharding.parseToken
  split
  · exact reads_nonDevicesToken _ _
  · split
    · exact reads_nonDevicesToken _ _
    · split
      · exact reads_nonDevicesToken _ _
      · split
        · split
          · exact ⟨_, rfl⟩
          · split
            · exact ⟨_, rfl⟩
            · exact id
        · split
          · split
            · exact ⟨_, rfl⟩
            · exact reads_parseGSPMDDevicesStr { sharding with shardType := .devices } _
          · split
            · split
              · exact ⟨_, rfl⟩
              · exact id
            · exact ⟨_, rfl⟩

/-- The loop over the tokens. -/
theorem reads_foldlM (tokens : List Str) (sharding : MeshSharding) :
    Reads sharding (tokens.foldlM MeshSharding.parseToken sharding) := by
  induction tokens generalizing sharding with
  | nil => exact id
  | cons token tokens ih =>
    have hfirst := reads_parseToken sharding token
    rw [List.foldlM_cons]
    cases hparse : sharding.parseToken token with
    | error f =>
      rw [hparse] at hfirst
      exact hfirst
    | ok sharding' =>
      rw [hparse] at hfirst
      have hrest := ih sharding'
      show Reads sharding (tokens.foldlM MeshSharding.parseToken sharding')
      cases hloop : tokens.foldlM MeshSharding.parseToken sharding' with
      | error f =>
        rw [hloop] at hrest
        exact hrest
      | ok sharding'' =>
        rw [hloop] at hrest
        exact fun hne => hrest (hfirst hne)

/-- **Reading tokens** reports errors, and leaves a shard shape that is not empty. -/
theorem readTokens_cases (str : Str) : (∃ message, readTokens str = .error (.error message)) ∨
      ∃ sharding, readTokens str = .ok sharding ∧ sharding.shardShape ≠ [] := by
  have hreads : Reads {} (readTokens str) := by
    rw [readTokens]
    split
    · exact ⟨_, rfl⟩
    · split
      · exact ⟨_, rfl⟩
      · exact reads_foldlM _ _
  cases hread : readTokens str with
  | error f =>
    rw [hread] at hreads
    obtain ⟨message, rfl⟩ := hreads
    exact Or.inl ⟨message, rfl⟩
  | ok sharding =>
    rw [hread] at hreads
    exact Or.inr ⟨sharding, rfl, hreads (List.cons_ne_nil _ _)⟩

theorem convert_of_ne_devices {str : Str} {sharding : MeshSharding}
    (hread : readTokens str = .ok sharding) (htype : sharding.shardType ≠ .devices) :
    convertGSPMDShardingToMeshSharding str = .ok sharding := by
  rw [convertGSPMDShardingToMeshSharding, hread]
  exact if_neg htype

/-- The attributes for a string with tiles. -/
theorem convert_of_devices {str : Str} {sharding : MeshSharding}
    (hread : readTokens str = .ok sharding) (htype : sharding.shardType = .devices)
    (hne : sharding.shardShape ≠ []) {meshShape : List ℤ}
    (hmesh : finalMeshShape sharding.shardShape sharding.meshShape = meshShape) :
    convertGSPMDShardingToMeshSharding str =
      if meshShape.length ≠ 2 then
        .error (.error ("Only support 2d hardware mesh config. mesh.size()=".toList ++
          formatD meshShape.length))
      else
        (assignTiled (sharding.meshShape.length ≠ 1) meshShape (tiledDims sharding.tileCounts 0)
          (isLineDeviceConfig sharding.shardShape sharding.meshShape).toNat
          (List.replicate meshShape.length (-1))).map fun shardDims =>
            { sharding with
              shardShape := sharding.tileCounts
              meshShape := meshShape
              shardDims := shardDims } := by
  subst hmesh
  have hdetermine : sharding.determineGSPMDShardingDims =
      if (finalMeshShape sharding.shardShape sharding.meshShape).length ≠ 2 then
        .error (.error ("Only support 2d hardware mesh config. mesh.size()=".toList ++
          formatD (finalMeshShape sharding.shardShape sharding.meshShape).length))
      else
        (assignShardDims (sharding.meshShape.length ≠ 1)
          (finalMeshShape sharding.shardShape sharding.meshShape) sharding.tileCounts 0
          (isLineDeviceConfig sharding.shardShape sharding.meshShape).toNat
          (List.replicate (finalMeshShape sharding.shardShape sharding.meshShape).length (-1))).bind
            fun shardDims => .ok { sharding with
              shardShape := sharding.tileCounts
              meshShape := finalMeshShape sharding.shardShape sharding.meshShape
              shardDims := shardDims } := by
    rw [MeshSharding.determineGSPMDShardingDims, if_neg fun h => hne h.2]
    rfl
  rw [convertGSPMDShardingToMeshSharding, hread]
  show (if sharding.shardType = .devices then sharding.determineGSPMDShardingDims
    else Except.ok sharding) = _
  rw [if_pos htype, hdetermine]
  by_cases hlen : (finalMeshShape sharding.shardShape sharding.meshShape).length ≠ 2
  · rw [if_pos hlen, if_pos hlen]
  · rw [if_neg hlen, if_neg hlen, assignShardDims_eq]
    cases assignTiled (decide (sharding.meshShape.length ≠ 1))
      (finalMeshShape sharding.shardShape sharding.meshShape) (tiledDims sharding.tileCounts 0)
      (isLineDeviceConfig sharding.shardShape sharding.meshShape).toNat
      (List.replicate (finalMeshShape sharding.shardShape sharding.meshShape).length (-1)) with
    | error f => rfl
    | ok shardDims => rfl

theorem openMeshDims_eq (sharding : MeshSharding) : sharding.openMeshDims =
    openFrom (sharding.meshShape.length ≠ 1) (finalMeshShape sharding.shardShape sharding.meshShape)
      (isLineDeviceConfig sharding.shardShape sharding.meshShape).toNat := by
  rw [MeshSharding.openMeshDims, openFrom]
  simp only [decide_eq_true_eq]

/-- **Strings that leave the mesh.** -/
theorem outOfRange_iff_overruns (str : Str) :
    convertGSPMDShardingToMeshSharding str = .error (.outOfRange .meshShape) ↔ Overruns str := by
  rcases readTokens_cases str with ⟨message, hread⟩ | ⟨sharding, hread, hne⟩
  · constructor
    · intro h
      rw [convertGSPMDShardingToMeshSharding, hread] at h
      exact absurd h fun h => nomatch h
    · rintro ⟨sharding, hread', -⟩
      rw [hread] at hread'
      cases hread'
  · by_cases htype : sharding.shardType = .devices
    · rw [convert_of_devices hread htype hne rfl]
      constructor
      · intro h
        split_ifs at h with hlen
        · exact absurd h fun h => nomatch h
        · rw [not_not] at hlen
          obtain ⟨m₀, m₁, hmesh⟩ := List.length_eq_two.mp hlen
          refine ⟨sharding, hread, htype, hlen, ?_⟩
          rw [← map_fst_tiledDims _ 0, openMeshDims_eq, hmesh,
            ← assignTiled_eq_outOfRange_iff _ _ _ _ (Bool.toNat_le _ |>.trans (by omega))
              (show (List.replicate 2 (-1 : ℤ)).length = 2 from rfl)]
          rw [hmesh] at h
          cases hassign : assignTiled (decide (sharding.meshShape.length ≠ 1)) [m₀, m₁]
              (tiledDims sharding.tileCounts 0)
              (isLineDeviceConfig sharding.shardShape sharding.meshShape).toNat
              (List.replicate 2 (-1)) with
          | error f =>
            have hlen' : ([m₀, m₁] : List ℤ).length = 2 := rfl
            rw [hlen', hassign] at h
            exact congrArg _ (Except.error.inj h)
          | ok shardDims =>
            have hlen' : ([m₀, m₁] : List ℤ).length = 2 := rfl
            rw [hlen', hassign] at h
            cases h
      · rintro ⟨sharding', hread', -, hlen, hsplit⟩
        obtain rfl := Except.ok.inj (hread.symm.trans hread')
        obtain ⟨m₀, m₁, hmesh⟩ := List.length_eq_two.mp hlen
        rw [← map_fst_tiledDims _ 0, openMeshDims_eq, hmesh,
            ← assignTiled_eq_outOfRange_iff _ _ _ _ (Bool.toNat_le _ |>.trans (by omega))
              (show (List.replicate 2 (-1 : ℤ)).length = 2 from rfl)] at hsplit
        have hlen' : ([m₀, m₁] : List ℤ).length = 2 := rfl
        rw [hmesh, if_neg (by simp), hlen', hsplit]
        rfl
    · rw [convert_of_ne_devices hread htype]
      constructor
      · exact fun h => nomatch h
      · rintro ⟨sharding', hread', htype', -⟩
        obtain rfl := Except.ok.inj (hread.symm.trans hread')
        exact absurd htype' htype

/-- The shard shape is never indexed out of range, and the parser asserts nothing. -/
theorem convert_ne_error {f : Failure} (hf : f = .outOfRange .shardShape ∨ f = .assertion)
    (str : Str) : convertGSPMDShardingToMeshSharding str ≠ .error f := by
  rcases readTokens_cases str with ⟨message, hread⟩ | ⟨sharding, hread, hne⟩
  · rw [convertGSPMDShardingToMeshSharding, hread]
    rcases hf with rfl | rfl <;> exact fun h => nomatch h
  · by_cases htype : sharding.shardType = .devices
    · rw [convert_of_devices hread htype hne rfl]
      split_ifs
      · rcases hf with rfl | rfl <;> exact fun h => nomatch h
      · intro h
        have hassign := assignTiled_ne_error hf (decide (sharding.meshShape.length ≠ 1))
          (finalMeshShape sharding.shardShape sharding.meshShape)
          (tiledDims sharding.tileCounts 0)
          (isLineDeviceConfig sharding.shardShape sharding.meshShape).toNat
          (List.replicate (finalMeshShape sharding.shardShape sharding.meshShape).length (-1))
        revert h hassign
        cases assignTiled (decide (sharding.meshShape.length ≠ 1))
          (finalMeshShape sharding.shardShape sharding.meshShape)
          (tiledDims sharding.tileCounts 0)
          (isLineDeviceConfig sharding.shardShape sharding.meshShape).toNat
          (List.replicate (finalMeshShape sharding.shardShape sharding.meshShape).length (-1)) with
        | error f => exact fun h hassign => hassign (congrArg _ (Except.error.inj h))
        | ok shardDims => exact fun h _ => nomatch h
    · rw [convert_of_ne_devices hread htype]
      exact fun h => nomatch h

/-! ## What the attributes of a tile assignment give -/

theorem unravel_pair (m₀ m₁ d : ℕ) : unravel [m₀, m₁] d = [d / m₁, d % m₁] := by
  simp [unravel]

theorem meshIndex_set (m₀ m₁ d x i : ℕ) {q : ℕ} (hq : q < 2) :
    meshIndex [m₀, m₁] (([-1, -1] : List ℤ).set q i) d x =
      if x = i then (unravel [m₀, m₁] d).getD q 0 else 0 := by
  have hcases : q = 0 ∨ q = 1 := by omega
  by_cases hx : x = i
  · subst hx
    rcases hcases with rfl | rfl <;> simp [meshIndex, unravel_pair]
  · have hx' : ¬ (i : ℤ) = (x : ℤ) := by omega
    rcases hcases with rfl | rfl <;> simp [meshIndex, unravel_pair, hx, hx']

/-- Both mesh dimensions cut the tensor. -/
theorem meshIndex_set_set (m₀ m₁ d x : ℕ) {i j : ℕ} (hij : i ≠ j) {p q : ℕ} (hp : p < 2)
    (hq : q < 2) (hpq : p ≠ q) :
    meshIndex [m₀, m₁] ((([-1, -1] : List ℤ).set p i).set q j) d x =
      if x = i then (unravel [m₀, m₁] d).getD p 0
      else if x = j then (unravel [m₀, m₁] d).getD q 0 else 0 := by
  have hcases : (p = 0 ∧ q = 1) ∨ (p = 1 ∧ q = 0) := by omega
  have hij' : ¬ (j : ℤ) = (i : ℤ) := by omega
  have hji' : ¬ (i : ℤ) = (j : ℤ) := by omega
  by_cases hx : x = i
  · subst hx
    rcases hcases with ⟨rfl, rfl⟩ | ⟨rfl, rfl⟩ <;> simp [meshIndex, unravel_pair, hij']
  · have hx' : ¬ (i : ℤ) = (x : ℤ) := by omega
    by_cases hxj : x = j
    · subst hxj
      rcases hcases with ⟨rfl, rfl⟩ | ⟨rfl, rfl⟩ <;> simp [meshIndex, unravel_pair, hx, hx']
    · have hxj' : ¬ (j : ℤ) = (x : ℤ) := by omega
      rcases hcases with ⟨rfl, rfl⟩ | ⟨rfl, rfl⟩ <;>
        simp [meshIndex, unravel_pair, hx, hx', hxj, hxj']

theorem meshIndex_none (m₀ m₁ d x : ℕ) : meshIndex [m₀, m₁] [-1, -1] d x = 0 := by
  have hx : ¬ (-1 : ℤ) = (x : ℤ) := by omega
  simp [meshIndex, unravel_pair, hx]

theorem coordinate_nil (idx : List ℕ) (x : ℕ) : coordinate [] idx x = 0 := rfl

theorem coordinate_cons (i : ℕ) (ps : List ℕ) (c : ℕ) (idx : List ℕ) (x : ℕ) :
    coordinate (i :: ps) (c :: idx) x = if x = i then c else coordinate ps idx x := by
  rw [coordinate, List.zip_cons_cons, List.lookup_cons]
  by_cases hx : x = i
  · simp [hx]
  · have hbeq : (x == i) = false := by simpa using hx
    rw [hbeq, if_neg hx, coordinate]

theorem positions_nodup (counts : List ℕ) (i : ℕ) : (positions counts i).Nodup := by
  induction counts generalizing i with
  | nil => exact List.nodup_nil
  | cons n counts ih =>
    rw [positions]
    split_ifs
    · exact ih _
    · refine List.nodup_cons.mpr ⟨fun h => ?_, ih _⟩
      have := le_of_mem_positions h
      omega

theorem pos_of_mem_tiledDims {counts : List ℕ} (hcounts : ∀ n ∈ counts, 0 < n) :
    ∀ entry ∈ tiledDims (counts.map fun n : ℕ => (n : ℤ)) 0, 0 < entry.1 := by
  intro entry hentry
  have hmem : entry.1 ∈ (counts.map fun n : ℕ => (n : ℤ)).filter (· ≠ 1) := by
    rw [← map_fst_tiledDims _ 0]
    exact List.mem_map_of_mem hentry
  obtain ⟨n, hn, heq⟩ := List.mem_map.mp (List.mem_filter.mp hmem).1
  have := hcounts n hn
  omega

/-- **The index of a device's tile**, from the places of the device along the mesh dimensions
the tile counts other than one were matched with. -/
theorem map_meshIndex_eq {reverseOrder : Bool} {m₀ m₁ : ℕ} {counts : List ℕ}
    (hcounts : ∀ n ∈ counts, 0 < n) {shardingCnt : ℕ} (hcnt : shardingCnt ≤ 2)
    {shardDims : List ℤ}
    (hassign : assignTiled reverseOrder [(m₀ : ℤ), (m₁ : ℤ)]
      (tiledDims (counts.map fun n : ℕ => (n : ℤ)) 0) shardingCnt [-1, -1] = .ok shardDims)
    {d k : ℕ} (hk : k < counts.prod)
    (hcoord : ∀ n < (counts.filter (· ≠ 1)).length,
      (unravel [m₀, m₁] d).getD (shardDimIdx reverseOrder 2 (shardingCnt + n)) 0 =
        (unravel (counts.filter (· ≠ 1)) k).getD n 0) :
    (List.range counts.length).map (meshIndex [m₀, m₁] shardDims d) = unravel counts k := by
  have hpos := pos_of_mem_tiledDims hcounts
  have hlength : (positions counts 0).length = (counts.filter (· ≠ 1)).length :=
    length_positions counts 0
  have hnodup := positions_nodup counts 0
  have hlen : (counts.filter (· ≠ 1)).length ≤ 2 - shardingCnt := by
    have hle := (counts_of_assignTiled_eq_ok reverseOrder _ _ hpos hcnt rfl hassign).length_le
    rwa [length_openFrom, List.length_map, tiledDims_eq_zip, List.length_zip, List.length_map,
      hlength, Nat.min_self] at hle
  rw [unravel_eq_coordinates counts hk 0, List.range_eq_range']
  refine List.map_congr_left fun x _ => ?_
  rw [tiledDims_eq_zip] at hassign hpos
  generalize counts.filter (· ≠ 1) = tiles at *
  generalize positions counts 0 = ps at *
  rcases tiles with _ | ⟨a, _ | ⟨b, _ | ⟨c, tiles⟩⟩⟩
  · obtain rfl := List.length_eq_zero_iff.mp hlength
    obtain rfl := Except.ok.inj hassign
    rw [meshIndex_none, coordinate_nil]
  · obtain ⟨i, rfl⟩ := List.length_eq_one_iff.mp hlength
    have hlt : shardingCnt < 2 := by
      rw [List.length_singleton] at hlen
      omega
    have hdims := assignTiled_one reverseOrder _ _ (hpos (a, i) (by simp)) hlt rfl (by simp) hassign
    obtain rfl := Except.ok.inj hdims
    rw [meshIndex_set _ _ _ _ _ (openFrom_eq_cons reverseOrder 0 0 hlt).1]
    have hfirst := hcoord 0 (by simp)
    rw [Nat.add_zero] at hfirst
    rw [hfirst]
    show _ = coordinate [i] [k / _] x
    rw [coordinate_cons, coordinate_nil]
    rfl
  · obtain ⟨i, j, rfl⟩ := List.length_eq_two.mp hlength
    have hij : i ≠ j := by simpa using hnodup
    obtain rfl : shardingCnt = 0 := by
      rw [List.length_cons, List.length_singleton] at hlen
      omega
    have hpos' : ∀ entry ∈ [((b : ℤ), j)], 0 < entry.1 := fun entry hentry =>
      hpos entry (by simp [List.mem_singleton.mp hentry])
    have hdims := assignTiled_one reverseOrder _ _ (hpos (a, i) (by simp)) (by omega) rfl hpos'
      hassign
    have hdims' := assignTiled_one reverseOrder _ _ (hpos' (b, j) (by simp)) (by omega) (by simp)
      (by simp) hdims
    obtain rfl := Except.ok.inj hdims'
    have hne : shardDimIdx reverseOrder 2 0 ≠ shardDimIdx reverseOrder 2 1 := by
      cases reverseOrder <;> decide
    rw [meshIndex_set_set _ _ _ _ hij (openFrom_eq_cons reverseOrder 0 0 (by omega)).1
      (openFrom_eq_cons reverseOrder 0 0 (by omega)).1 hne]
    have hfirst := hcoord 0 (by simp)
    have hsecond := hcoord 1 (by simp)
    rw [hfirst, hsecond, unravel_pair, coordinate_cons, coordinate_cons, coordinate_nil]
    rfl
  · rw [List.length_cons, List.length_cons, List.length_cons] at hlen
    omega

/-! ## The outcome for a tile assignment -/

section Tiled

variable (t : TileAssignment)

/-- The mesh of a list of devices. -/
def flatMesh : List ℕ :=
  if t.numDevices ∈ t.dims then [1, t.numDevices] else t.dims.filter (· ≠ 1)

/-- The mesh of a tile assignment. -/
def meshOf : List ℕ :=
  match t.devices with
  | .explicit _ => flatMesh t
  | .iota reshape _ => if reshape.length ≠ 1 then reshape else flatMesh t

theorem prod_meshShape_fieldsOf : (fieldsOf t).meshShape.prod = (t.numDevices : ℤ) := by
  have hvalid := t.valid
  rw [fieldsOf, TileAssignment.numDevices]
  cases hdevices : t.devices with
  | explicit ids =>
    rw [hdevices] at hvalid
    have hlen : ids.length = t.dims.prod := by simpa using hvalid.length_eq
    simp [hlen]
  | iota reshape transpose =>
    rw [hdevices] at hvalid
    show (reshape.map fun n : ℕ => (n : ℤ)).prod = _
    rw [← hvalid.2.2.1]
    exact (Nat.cast_list_prod reshape).symm

theorem isLineDeviceConfig_fieldsOf :
    isLineDeviceConfig (fieldsOf t).shardShape (fieldsOf t).meshShape =
      decide (t.numDevices ∈ t.dims) := by
  have htotal : totalDevices (fieldsOf t).meshShape = (t.numDevices : ℤ) := by
    have := t.numDevices_lt
    rw [totalDevices, prod_meshShape_fieldsOf, TileAssignment.numDevices]
    exact Int.bmod_eq_of_le (by omega) (by omega)
  rw [isLineDeviceConfig, htotal, fieldsOf, Bool.eq_iff_iff]
  simp

theorem finalMeshShape_fieldsOf : finalMeshShape (fieldsOf t).shardShape (fieldsOf t).meshShape =
      (meshOf t).map fun n : ℕ => (n : ℤ) := by
  have hflat : ∀ meshShape : List ℤ, (fieldsOf t).meshShape = meshShape →
      meshShape.length = 1 → finalMeshShape (fieldsOf t).shardShape meshShape =
        (flatMesh t).map fun n : ℕ => (n : ℤ) := by
    intro meshShape hmesh hlen
    obtain ⟨m, rfl⟩ := List.length_eq_one_iff.mp hlen
    have hprod := prod_meshShape_fieldsOf t
    rw [hmesh, List.prod_singleton] at hprod
    have hline := isLineDeviceConfig_fieldsOf t
    rw [hmesh] at hline
    rw [finalMeshShape, if_neg (by simp), hline, flatMesh]
    by_cases hmem : t.numDevices ∈ t.dims
    · simp [hmem, hprod]
    · rw [if_neg (by simpa using hmem), if_neg hmem, fieldsOf, List.filter_map]
      congr 2
      funext n
      simp
  rw [meshOf]
  cases hdevices : t.devices with
  | explicit ids => exact hflat _ rfl (by simp [fieldsOf, hdevices])
  | iota reshape transpose =>
    have hmesh : (fieldsOf t).meshShape = reshape.map fun n : ℕ => (n : ℤ) := by
      simp [fieldsOf, hdevices]
    by_cases hlen : reshape.length ≠ 1
    · show _ = (if reshape.length ≠ 1 then reshape else flatMesh t).map _
      rw [if_pos hlen, hmesh, finalMeshShape, if_pos (by simpa using hlen)]
    · show _ = (if reshape.length ≠ 1 then reshape else flatMesh t).map _
      rw [if_neg hlen]
      rw [not_not] at hlen
      exact hflat _ rfl (by rw [hmesh, List.length_map]; exact hlen)

theorem tileCounts_fieldsOf : (fieldsOf t).tileCounts = t.counts.map fun n : ℕ => (n : ℤ) := by
  rw [MeshSharding.tileCounts, TileAssignment.counts, fieldsOf]
  split_ifs
  · exact List.map_dropLast.symm
  · rfl

/-- Whether the mesh is used from its end. -/
def reversed : Bool :=
  match t.devices with
  | .explicit _ => false
  | .iota reshape _ => reshape.length ≠ 1

theorem reversed_eq : decide ((fieldsOf t).meshShape.length ≠ 1) = reversed t := by
  rw [reversed, fieldsOf]
  cases t.devices with
  | explicit ids => rfl
  | iota reshape transpose => simp

/-- What is read of a tile assignment. -/
def readTiled : Result MeshSharding := convertGSPMDShardingToMeshSharding (OpSharding.tiled t).print

/-- **The outcome**: an error for a mesh that is not two-dimensional, and else what the loop
over the tile counts gives. -/
theorem convert_tiled : readTiled t =
      if (meshOf t).length ≠ 2 then
        .error (.error ("Only support 2d hardware mesh config. mesh.size()=".toList ++
          formatD (meshOf t).length))
      else
        (assignTiled (reversed t) ((meshOf t).map fun n : ℕ => (n : ℤ))
          (tiledDims (t.counts.map fun n : ℕ => (n : ℤ)) 0) (decide (t.numDevices ∈ t.dims)).toNat
          (List.replicate (meshOf t).length (-1))).map fun shardDims =>
            { fieldsOf t with
              shardShape := t.counts.map fun n : ℕ => (n : ℤ)
              meshShape := (meshOf t).map fun n : ℕ => (n : ℤ)
              shardDims := shardDims } := by
  have hne : (fieldsOf t).shardShape ≠ [] := by
    simpa [fieldsOf] using t.dims_ne_nil
  rw [readTiled, convert_of_devices (readTokens_tiled t) rfl hne (finalMeshShape_fieldsOf t),
    isLineDeviceConfig_fieldsOf, tileCounts_fieldsOf, reversed_eq, List.length_map]

variable {m₀ m₁ : ℕ}

/-- What the attributes give, from the places of the device along the mesh. -/
theorem slice_of_assignTiled (hmesh : meshOf t = [m₀, m₁]) {shardDims : List ℤ}
    (hassign : assignTiled (reversed t) [(m₀ : ℤ), (m₁ : ℤ)]
      (tiledDims (t.counts.map fun n : ℕ => (n : ℤ)) 0) (decide (t.numDevices ∈ t.dims)).toNat
      [-1, -1] = .ok shardDims) {d k : ℕ} (hd : d < m₀ * m₁) (hk : k < t.counts.prod)
    (hcoord : ∀ n < (t.counts.filter (· ≠ 1)).length, (unravel [m₀, m₁] d).getD
          (shardDimIdx (reversed t) 2 ((decide (t.numDevices ∈ t.dims)).toNat + n)) 0 =
        (unravel (t.counts.filter (· ≠ 1)) k).getD n 0) :
    MeshSharding.slice { fieldsOf t with
        shardShape := t.counts.map fun n : ℕ => (n : ℤ)
        meshShape := (meshOf t).map fun n : ℕ => (n : ℤ)
        shardDims := shardDims } d = some (.tile t.counts (unravel t.counts k)) := by
  have hcnt : (decide (t.numDevices ∈ t.dims)).toNat ≤ 2 := (Bool.toNat_le _).trans (by omega)
  have hindex := map_meshIndex_eq t.counts_pos hcnt hassign hk hcoord
  have hcast : ∀ l : List ℕ, (l.map fun n : ℕ => (n : ℤ)).map Int.toNat = l := by
    intro l
    rw [List.map_map]
    exact (List.map_congr_left fun n _ => Int.toNat_natCast n).trans (List.map_id _)
  rw [MeshSharding.slice]
  show (if d < (((meshOf t).map fun n : ℕ => (n : ℤ)).map Int.toNat).prod then
    some (Slice.tile ((t.counts.map fun n : ℕ => (n : ℤ)).map Int.toNat)
      ((List.range (t.counts.map fun n : ℕ => (n : ℤ)).length).map
        (meshIndex (((meshOf t).map fun n : ℕ => (n : ℤ)).map Int.toNat) shardDims d)))
    else none) = _
  rw [hcast, hcast, hmesh, List.length_map, if_pos (by simpa using hd), hindex]

theorem filter_dims : t.dims.filter (· ≠ 1) =
    t.counts.filter (· ≠ 1) ++ if t.replication = 1 then [] else [t.replication] := by
  unfold TileAssignment.counts TileAssignment.replication
  split_ifs with hlast hone
  · conv_lhs => rw [← List.dropLast_append_getLast t.dims_ne_nil]
    rw [List.filter_append, hone]
    rfl
  · conv_lhs => rw [← List.dropLast_append_getLast t.dims_ne_nil]
    rw [List.filter_append, List.filter_cons_of_pos (by simpa using hone), List.filter_nil]
  · rw [List.append_nil]
  · exact absurd rfl ‹¬ (1 : ℕ) = 1›

theorem eq_nil_of_prod_eq_one {l : List ℕ} (h : ∀ n ∈ l, n ≠ 1) (hprod : l.prod = 1) : l = [] := by
  cases l with
  | nil => rfl
  | cons n l =>
    rw [List.prod_cons] at hprod
    exact absurd (Nat.eq_one_of_mul_eq_one_right hprod) (h n (by simp))

/-- **Devices on one line**: all of them, or one copy each, along one tensor dimension. -/
theorem counts_of_line (hline : t.numDevices ∈ t.dims) : t.counts.filter (· ≠ 1) = [] ∨
      t.counts.filter (· ≠ 1) = [t.numDevices] ∧ t.replication = 1 := by
  have hne : ∀ n ∈ t.dims.filter (· ≠ 1), n ≠ 1 := fun n hn => by
    simpa using (List.mem_filter.mp hn).2
  have hprod : (t.dims.filter (· ≠ 1)).prod = t.numDevices := prod_filter_ne_one _
  have hfilter := filter_dims t
  by_cases hone : t.numDevices = 1
  · have hnil := eq_nil_of_prod_eq_one hne (hprod.trans hone)
    rw [hnil] at hfilter
    exact Or.inl (List.append_eq_nil_iff.mp hfilter.symm).1
  · have hmem : t.numDevices ∈ t.dims.filter (· ≠ 1) :=
      List.mem_filter.mpr ⟨hline, by simpa using hone⟩
    obtain ⟨p, q, hsplit⟩ := List.append_of_mem hmem
    have hpos := t.numDevices_pos
    rw [hsplit, List.prod_append, List.prod_cons] at hprod
    have hpq : p.prod * q.prod = 1 := by
      have : t.numDevices * (p.prod * q.prod) = t.numDevices * 1 := by
        calc t.numDevices * (p.prod * q.prod) = p.prod * (t.numDevices * q.prod) := by ring
          _ = t.numDevices * 1 := by rw [hprod, Nat.mul_one]
      exact Nat.eq_of_mul_eq_mul_left hpos this
    have hp : p = [] := eq_nil_of_prod_eq_one
      (fun n hn => hne n (by rw [hsplit]; simp [hn])) (Nat.eq_one_of_mul_eq_one_right hpq)
    have hq : q = [] := eq_nil_of_prod_eq_one
      (fun n hn => hne n (by rw [hsplit]; simp [hn])) (Nat.eq_one_of_mul_eq_one_left hpq)
    rw [hsplit, hp, hq, List.nil_append] at hfilter
    by_cases hr : t.replication = 1
    · rw [if_pos hr, List.append_nil] at hfilter
      exact Or.inr ⟨hfilter.symm, hr⟩
    · rw [if_neg hr] at hfilter
      have hlen := congrArg List.length hfilter
      rw [List.length_append, List.length_singleton, List.length_singleton] at hlen
      exact Or.inl (List.length_eq_zero_iff.mp (by omega))

theorem prod_counts_of_nil (h : t.counts.filter (· ≠ 1) = []) : t.counts.prod = 1 := by
  rw [← prod_filter_ne_one, h, List.prod_nil]

/-- The open mesh dimensions of a tile assignment. -/
def openOf (m₀ m₁ : ℕ) : List ℕ :=
  (if reversed t then [m₁, m₀] else [m₀, m₁]).drop (decide (t.numDevices ∈ t.dims)).toNat

theorem openFrom_eq_map (m₀ m₁ : ℕ) :
    openFrom (reversed t) [(m₀ : ℤ), (m₁ : ℤ)] (decide (t.numDevices ∈ t.dims)).toNat =
      (openOf t m₀ m₁).map fun n : ℕ => (n : ℤ) := by
  rw [openFrom, openOf, List.map_drop]
  split_ifs <;> rfl

theorem map_cast_isPrefixOf {l l' : List ℕ} :
    (l.map fun n : ℕ => (n : ℤ)) <+: (l'.map fun n : ℕ => (n : ℤ)) ↔ l <+: l' :=
  List.prefix_map_iff_of_injective fun _ _ h => Int.ofNat.inj h

/-- **Tile counts that are the mesh**: the attributes, and what they give to a device. -/
theorem exists_attributes (hmesh : meshOf t = [m₀, m₁])
    (hpre : t.counts.filter (· ≠ 1) <+: openOf t m₀ m₁) :
    ∃ attributes, readTiled t = .ok attributes ∧
      ∀ d < m₀ * m₁, ∀ k < t.counts.prod, (∀ n < (t.counts.filter (· ≠ 1)).length,
          (unravel [m₀, m₁] d).getD
              (shardDimIdx (reversed t) 2 ((decide (t.numDevices ∈ t.dims)).toNat + n)) 0 =
            (unravel (t.counts.filter (· ≠ 1)) k).getD n 0) →
        attributes.slice d = some (.tile t.counts (unravel t.counts k)) := by
  have hcnt : (decide (t.numDevices ∈ t.dims)).toNat ≤ 2 := (Bool.toNat_le _).trans (by omega)
  rw [← map_cast_isPrefixOf, ← openFrom_eq_map] at hpre
  have hlen : (positions t.counts 0).length =
      ((t.counts.filter (· ≠ 1)).map fun n : ℕ => (n : ℤ)).length := by
    rw [List.length_map, length_positions]
  obtain ⟨shardDims, hassign⟩ := exists_assignTiled_eq_ok (reversed t) m₀ m₁ hcnt hlen hpre
    (show ([-1, -1] : List ℤ).length = 2 from rfl)
  rw [← tiledDims_eq_zip] at hassign
  have hout := convert_tiled t
  rw [if_neg (by simp [hmesh])] at hout
  refine ⟨{ fieldsOf t with
    shardShape := t.counts.map fun n : ℕ => (n : ℤ)
    meshShape := (meshOf t).map fun n : ℕ => (n : ℤ)
    shardDims := shardDims }, ?_, ?_⟩
  · rw [hout, hmesh]
    show Except.map _ (assignTiled _ _ _ _ [-1, -1]) = _
    rw [show ([m₀, m₁].map fun n : ℕ => (n : ℤ)) = [(m₀ : ℤ), (m₁ : ℤ)] from rfl, hassign]
    rfl
  · intro d hd k hk hcoord
    exact slice_of_assignTiled t hmesh hassign hd hk hcoord

/-- Other tile counts have no attributes. -/
theorem ne_ok_of_counts (hmesh : meshOf t = [m₀, m₁])
    (hpre : ¬ t.counts.filter (· ≠ 1) <+: openOf t m₀ m₁) (attributes : MeshSharding) :
    readTiled t ≠ .ok attributes := by
  have hcnt : (decide (t.numDevices ∈ t.dims)).toNat ≤ 2 := (Bool.toNat_le _).trans (by omega)
  intro h
  rw [convert_tiled, if_neg (by simp [hmesh]), hmesh] at h
  apply hpre
  rw [← map_cast_isPrefixOf, ← openFrom_eq_map]
  cases hassign : assignTiled (reversed t) [(m₀ : ℤ), (m₁ : ℤ)]
      (tiledDims (t.counts.map fun n : ℕ => (n : ℤ)) 0) (decide (t.numDevices ∈ t.dims)).toNat
      [-1, -1] with
  | error f =>
    have hfail := congrArg (Except.map fun shardDims => { fieldsOf t with
      shardShape := t.counts.map fun n : ℕ => (n : ℤ)
      meshShape := [m₀, m₁].map fun n : ℕ => (n : ℤ)
      shardDims := shardDims }) hassign
    exact nomatch hfail.symm.trans h
  | ok shardDims =>
    have hall := counts_of_assignTiled_eq_ok _ _ _ (pos_of_mem_tiledDims t.counts_pos) hcnt rfl
      hassign
    rw [map_fst_tiledDims, List.filter_map] at hall
    have hfilter : ((fun x : ℤ => decide (x ≠ 1)) ∘ fun n : ℕ => (n : ℤ)) =
        fun n : ℕ => decide (n ≠ 1) := by
      funext n
      simp
    rwa [hfilter] at hall

/-- **A list of devices**, or an iota of one dimension: the devices are counted up. -/
theorem slice_of_flat (hrev : reversed t = false) (hmesh : meshOf t = flatMesh t)
    (hlen : (meshOf t).length = 2) :
    ∃ attributes, readTiled t = .ok attributes ∧
      ∀ d < t.numDevices, attributes.slice d =
        some (.tile t.counts (unravel t.counts (d / t.replication))) := by
  have hprod := t.prod_counts_mul_replication
  have hfilter := filter_dims t
  have hdimsprod : (t.dims.filter (· ≠ 1)).prod = t.numDevices := prod_filter_ne_one _
  have hcountsprod : (t.counts.filter (· ≠ 1)).prod = t.counts.prod := prod_filter_ne_one _
  obtain ⟨m₀, m₁, hpair⟩ := List.length_eq_two.mp hlen
  have hflat : flatMesh t = [m₀, m₁] := hmesh.symm.trans hpair
  by_cases hline : t.numDevices ∈ t.dims
  · -- one mesh dimension is left, of all devices
    rw [flatMesh, if_pos hline] at hflat
    obtain ⟨rfl, rfl⟩ : 1 = m₀ ∧ t.numDevices = m₁ := by simpa using hflat
    have hpre : t.counts.filter (· ≠ 1) <+: openOf t 1 t.numDevices := by
      rw [openOf, hrev, decide_eq_true hline]
      rcases counts_of_line t hline with hnil | ⟨hone, -⟩
      · rw [hnil]
        exact List.nil_prefix
      · rw [hone]
        exact List.prefix_refl _
    obtain ⟨attributes, hok, hslice⟩ := exists_attributes t hpair hpre
    refine ⟨attributes, hok, fun d hd => ?_⟩
    refine hslice d (by omega) _ (t.div_replication_lt hd) fun n hn => ?_
    rcases counts_of_line t hline with hnil | ⟨hone, hr⟩
    · rw [hnil] at hn
      cases hn
    · rw [hone, List.length_singleton, Nat.lt_one_iff] at hn
      subst hn
      rw [hrev, decide_eq_true hline, hone, hr, unravel_pair]
      show d % t.numDevices = d / 1 / 1
      rw [Nat.div_one, Nat.div_one]
      exact Nat.mod_eq_of_lt hd
  · -- the mesh is the grid without its dimensions of one
    rw [flatMesh, if_neg hline] at hflat
    have hpre : t.counts.filter (· ≠ 1) <+: openOf t m₀ m₁ := by
      rw [openOf, hrev, decide_eq_false hline]
      show _ <+: [m₀, m₁]
      rw [← hflat, hfilter]
      exact List.prefix_append _ _
    have hm : m₀ * m₁ = t.numDevices := by
      rw [← hdimsprod, hflat]
      simp
    obtain ⟨attributes, hok, hslice⟩ := exists_attributes t hpair hpre
    refine ⟨attributes, hok, fun d hd => ?_⟩
    refine hslice d (by omega) _ (t.div_replication_lt hd) ?_
    rw [hrev, decide_eq_false hline, unravel_pair]
    rw [hflat] at hfilter
    generalize t.counts.filter (· ≠ 1) = tiles at *
    rcases tiles with _ | ⟨a, _ | ⟨b, tiles⟩⟩
    · simp
    · -- the copies are the second mesh dimension
      obtain rfl : m₀ = a := (List.cons.inj hfilter).1
      have hrest : [m₁] = if t.replication = 1 then [] else [t.replication] :=
        (List.cons.inj hfilter).2
      have hr : t.replication = m₁ := by
        split_ifs at hrest with hone
        exact (List.cons.inj hrest).1.symm
      intro n hn
      obtain rfl : n = 0 := by simpa using hn
      rw [hr]
      show d / m₁ = d / m₁ / 1
      rw [Nat.div_one]
    · obtain rfl : m₀ = a := (List.cons.inj hfilter).1
      have hsecond : [m₁] = b :: (tiles ++ if t.replication = 1 then [] else [t.replication]) :=
        (List.cons.inj hfilter).2
      obtain rfl : m₁ = b := (List.cons.inj hsecond).1
      obtain ⟨rfl, hcopies⟩ := List.append_eq_nil_iff.mp (List.cons.inj hsecond).2.symm
      have hr : t.replication = 1 := by
        by_contra hne
        rw [if_neg hne] at hcopies
        cases hcopies
      intro n hn
      have hcases : n = 0 ∨ n = 1 := by
        simp at hn
        omega
      rw [hr, Nat.div_one, unravel_pair]
      rcases hcases with rfl | rfl <;> rfl

variable {r₀ r₁ : ℕ}

/-- A reshaped iota of two dimensions whose devices are on one line. -/
theorem slice_of_line (hrev : reversed t = true) (hmesh : meshOf t = [r₀, r₁])
    (hprod : r₀ * r₁ = t.numDevices) (hline : t.numDevices ∈ t.dims)
    (hpre : t.counts.filter (· ≠ 1) <+: openOf t r₀ r₁) :
    (t.counts.filter (· ≠ 1) = [] ∨ r₁ = 1) ∧
      ∃ attributes, readTiled t = .ok attributes ∧
        ∀ d < t.numDevices, attributes.slice d =
          some (.tile t.counts (unravel t.counts (d / t.replication))) := by
  have hopen : openOf t r₀ r₁ = [r₀] := by
    rw [openOf, hrev, decide_eq_true hline]
    rfl
  have hone : t.counts.filter (· ≠ 1) = [] ∨ t.counts.filter (· ≠ 1) = [t.numDevices] ∧
      t.replication = 1 ∧ r₁ = 1 := by
    rcases counts_of_line t hline with hnil | ⟨hone, hr⟩
    · exact Or.inl hnil
    · rw [hopen, hone] at hpre
      have hr₀ : t.numDevices = r₀ := (List.cons_prefix_cons.mp hpre).1
      refine Or.inr ⟨hone, hr, ?_⟩
      rw [← hr₀] at hprod
      exact Nat.eq_of_mul_eq_mul_left t.numDevices_pos (by omega)
  refine ⟨hone.imp_right fun h => h.2.2, ?_⟩
  obtain ⟨attributes, hok, hslice⟩ := exists_attributes t hmesh hpre
  refine ⟨attributes, hok, fun d hd => ?_⟩
  refine hslice d (by omega) _ (t.div_replication_lt hd) fun n hn => ?_
  rcases hone with hnil | ⟨hone, hr, rfl⟩
  · rw [hnil] at hn
    cases hn
  · rw [hone, List.length_singleton, Nat.lt_one_iff] at hn
    subst hn
    have hidx : shardDimIdx true 2 1 = 0 := rfl
    rw [hrev, decide_eq_true hline, hone, hr, unravel_pair]
    show [d / 1, d % 1].getD (shardDimIdx true 2 1) 0 = d / 1 / 1
    rw [hidx]
    show d / 1 = d / 1 / 1
    simp only [Nat.div_one]

/-- The offset that a reshaped iota of two dimensions is read to give to a device. -/
def readOffset (r₀ r₁ d : ℕ) : ℕ := d % r₁ * r₀ + d / r₁

theorem readOffset_lt {r₀ r₁ d : ℕ} (hd : d < r₀ * r₁) : readOffset r₀ r₁ d < r₀ * r₁ := by
  have hr₁ : 0 < r₁ := Nat.pos_of_mul_pos_left (lt_of_le_of_lt (Nat.zero_le d) hd)
  have hmod := Nat.mod_lt d hr₁
  have hdiv : d / r₁ < r₀ := Nat.div_lt_of_lt_mul (by rwa [Nat.mul_comm])
  calc readOffset r₀ r₁ d < d % r₁ * r₀ + r₀ := by
        rw [readOffset]
        omega
    _ = (d % r₁ + 1) * r₀ := by ring
    _ ≤ r₁ * r₀ := Nat.mul_le_mul_right _ hmod
    _ = r₀ * r₁ := Nat.mul_comm _ _

/-- A reshaped iota of two dimensions whose devices are not on one line is read as
transposed. -/
theorem slice_of_pair (hrev : reversed t = true) (hmesh : meshOf t = [r₀, r₁])
    (hprod : r₀ * r₁ = t.numDevices) (hline : t.numDevices ∉ t.dims)
    (hpre : t.counts.filter (· ≠ 1) <+: openOf t r₀ r₁) :
    ∃ attributes, readTiled t = .ok attributes ∧
      ∀ d < t.numDevices, attributes.slice d =
        some (.tile t.counts (unravel t.counts (readOffset r₀ r₁ d / t.replication))) := by
  have hmul := t.prod_counts_mul_replication
  have hopen : openOf t r₀ r₁ = [r₁, r₀] := by
    rw [openOf, hrev, decide_eq_false hline]
    rfl
  have hpos := t.numDevices_pos
  have hr₁ : 0 < r₁ := Nat.pos_of_mul_pos_left (hprod ▸ hpos)
  obtain ⟨attributes, hok, hslice⟩ := exists_attributes t hmesh hpre
  refine ⟨attributes, hok, fun d hd => ?_⟩
  have hd' : d < r₀ * r₁ := by omega
  have hdiv : d / r₁ < r₀ := Nat.div_lt_of_lt_mul (by rwa [Nat.mul_comm])
  have hr₀ : 0 < r₀ := lt_of_le_of_lt (Nat.zero_le _) hdiv
  refine hslice d hd' _ (t.div_replication_lt (hprod ▸ readOffset_lt hd')) ?_
  have hquot : readOffset r₀ r₁ d / r₀ = d % r₁ := by
    rw [readOffset, Nat.mul_comm, Nat.mul_add_div hr₀, Nat.div_eq_of_lt hdiv, Nat.add_zero]
  have hrem : readOffset r₀ r₁ d % r₀ = d / r₁ := by
    rw [readOffset, Nat.mul_comm, Nat.mul_add_mod, Nat.mod_eq_of_lt hdiv]
  have hcountsprod : (t.counts.filter (· ≠ 1)).prod = t.counts.prod := prod_filter_ne_one _
  rw [hopen] at hpre
  rw [hrev, decide_eq_false hline, unravel_pair]
  have hidx₀ : shardDimIdx true 2 0 = 1 := rfl
  have hidx₁ : shardDimIdx true 2 1 = 0 := rfl
  generalize t.counts.filter (· ≠ 1) = tiles at *
  rcases tiles with _ | ⟨a, _ | ⟨b, tiles⟩⟩
  · simp
  · -- the copies are the first mesh dimension
    obtain rfl : a = r₁ := (List.cons_prefix_cons.mp hpre).1
    have hr : t.replication = r₀ := by
      rw [List.prod_singleton] at hcountsprod
      rw [← hcountsprod, ← hprod, Nat.mul_comm] at hmul
      exact Nat.eq_of_mul_eq_mul_right hr₁ hmul
    intro n hn
    obtain rfl : n = 0 := by simpa using hn
    rw [hr, hquot]
    show [d / a, d % a].getD (shardDimIdx true 2 0) 0 = d % a / 1
    rw [hidx₀, Nat.div_one]
    rfl
  · obtain ⟨rfl, hsecond⟩ := List.cons_prefix_cons.mp hpre
    obtain ⟨rfl, hthird⟩ := List.cons_prefix_cons.mp hsecond
    obtain rfl := List.prefix_nil.mp hthird
    have hr : t.replication = 1 := by
      simp only [List.prod_cons, List.prod_nil, Nat.mul_one] at hcountsprod
      rw [← hcountsprod, ← hprod, Nat.mul_comm a b] at hmul
      exact Nat.eq_of_mul_eq_mul_left (hprod ▸ hpos) (by omega)
    intro n hn
    have hcases : n = 0 ∨ n = 1 := by
      simp at hn
      omega
    rw [hr, Nat.div_one, unravel_pair, hquot, hrem]
    rcases hcases with rfl | rfl
    · show [d / a, d % a].getD (shardDimIdx true 2 0) 0 = _
      rw [hidx₀]
      rfl
    · show [d / a, d % a].getD (shardDimIdx true 2 1) 0 = _
      rw [hidx₁]
      rfl

/-- A tile assignment is an error, has attributes, or leaves the mesh. -/
theorem outcome_of_ne_ok (h : ∀ attributes, readTiled t ≠ .ok attributes)
    (hrange : readTiled t ≠ .error (.outOfRange .meshShape)) :
    ∃ message, readTiled t = .error (.error message) := by
  have hdims : readTiled t ≠ .error (.outOfRange .shardDims) := by
    rw [convert_tiled]
    split_ifs with hlen
    · exact fun h => nomatch h
    · rw [not_not] at hlen
      obtain ⟨m₀, m₁, hmesh⟩ := List.length_eq_two.mp hlen
      rw [hmesh]
      have hne := assignTiled_ne_shardDims (reversed t) m₀ m₁ (pos_of_mem_tiledDims t.counts_pos)
        (decide (t.numDevices ∈ t.dims)).toNat (show ([-1, -1] : List ℤ).length = 2 from rfl)
      intro heq
      apply hne
      revert heq
      show Except.map _ (assignTiled (reversed t) [(m₀ : ℤ), (m₁ : ℤ)] _ _ [-1, -1]) = _ → _
      cases assignTiled (reversed t) [(m₀ : ℤ), (m₁ : ℤ)]
        (tiledDims (t.counts.map fun n : ℕ => (n : ℤ)) 0)
        (decide (t.numDevices ∈ t.dims)).toNat [-1, -1] with
      | error f => exact fun heq => congrArg _ (Except.error.inj heq)
      | ok shardDims => exact fun heq => nomatch heq
  cases hresult : readTiled t with
  | ok attributes => exact absurd hresult (h attributes)
  | error f =>
    cases f with
    | error message => exact ⟨message, rfl⟩
    | assertion => exact absurd hresult (convert_ne_error (.inr rfl) _)
    | outOfRange vector =>
      cases vector with
      | shardShape => exact absurd hresult (convert_ne_error (.inl rfl) _)
      | shardDims => exact absurd hresult hdims
      | meshShape => exact absurd hresult hrange

/-- A string of a tile assignment that is an error, or whose attributes give every device its
tile. -/
def ReadOrRejected : Prop :=
  (∃ message, readTiled t = .error (.error message)) ∨
    ∃ attributes, readTiled t = .ok attributes ∧
      ∀ d slice, (OpSharding.tiled t).Gives d slice → attributes.slice d = some slice

variable {t}

/-- **Attributes are right** when the offset a device is read to be at has the tile of the
offset it is at. -/
theorem readOrRejected_iff_of_slices (readAt : ℕ → ℕ)
    (hread : ∀ d < t.numDevices, readAt d < t.numDevices)
    (hdevice : ∀ k < t.numDevices, t.devices.deviceAt k < t.numDevices)
    (hslices : ∃ attributes, readTiled t = .ok attributes ∧
      ∀ d < t.numDevices, attributes.slice d =
        some (.tile t.counts (unravel t.counts (readAt d / t.replication)))) :
    ReadOrRejected t ↔ ∀ k < t.numDevices,
      readAt (t.devices.deviceAt k) / t.replication = k / t.replication := by
  obtain ⟨attributes, hok, hslice⟩ := hslices
  constructor
  · rintro (⟨message, herror⟩ | ⟨attributes', hok', hgives⟩) k hk
    · rw [hok] at herror
      cases herror
    · obtain rfl := Except.ok.inj (hok.symm.trans hok')
      have hgiven := hgives _ _ ⟨k, hk, rfl, rfl⟩
      rw [hslice _ (hdevice k hk), t.tileAt_eq] at hgiven
      have htile := (Slice.tile.inj (Option.some.inj hgiven)).2
      exact (t.unravel_counts_eq_iff (hread _ (hdevice k hk)) hk).mp htile
  · intro h
    refine Or.inr ⟨attributes, hok, ?_⟩
    rintro d slice ⟨k, hk, rfl, rfl⟩
    rw [hslice _ (hdevice k hk), t.tileAt_eq, h k hk]

theorem readOrRejected_of_length (h : (meshOf t).length ≠ 2) : ReadOrRejected t := by
  exact Or.inl ⟨_, (convert_tiled t).trans (if_pos h)⟩

theorem flatMesh_length_ne (h : (flatMesh t).length ≠ 2) :
    t.numDevices ∉ t.dims ∧ (t.dims.filter (· ≠ 1)).length ≠ 2 := by
  rw [flatMesh] at h
  split_ifs at h with hline
  · exact absurd rfl h
  · exact ⟨hline, h⟩

/-- **Lists of devices.** -/
theorem readOrRejected_explicit {ids : List ℕ} (hdevices : t.devices = .explicit ids) :
    ReadOrRejected t ↔ (t.numDevices ∉ t.dims ∧ (t.dims.filter (· ≠ 1)).length ≠ 2) ∨
      ∀ k < t.numDevices, ids.getD k 0 / t.replication = k / t.replication := by
  have hrev : reversed t = false := by rw [reversed, hdevices]
  have hmesh : meshOf t = flatMesh t := by rw [meshOf, hdevices]
  have hvalid := t.valid
  rw [hdevices] at hvalid
  by_cases hlen : (meshOf t).length = 2
  · have hleft : ¬ (t.numDevices ∉ t.dims ∧ (t.dims.filter (· ≠ 1)).length ≠ 2) := by
      rintro ⟨hline, hne⟩
      rw [hmesh, flatMesh, if_neg hline] at hlen
      exact hne hlen
    have hiff := readOrRejected_iff_of_slices id (fun _ hd => hd) ?_
      (slice_of_flat t hrev hmesh hlen)
    · rw [hiff, hdevices, or_iff_right hleft]
      rfl
    · intro k hk
      rw [hdevices]
      have hlength : k < ids.length := by
        rw [hvalid.length_eq, List.length_range]
        exact hk
      show ids.getD k 0 < t.numDevices
      rw [List.getD_eq_getElem _ _ hlength]
      exact List.mem_range.mp (hvalid.subset (List.getElem_mem hlength))
  · have hne : (flatMesh t).length ≠ 2 := hmesh ▸ hlen
    exact iff_of_true (readOrRejected_of_length hlen) (Or.inl (flatMesh_length_ne hne))

/-- **Iotas of one dimension** are always read or rejected. -/
theorem readOrRejected_iota_one {r : ℕ} {transpose : Option (List ℕ)}
    (hdevices : t.devices = .iota [r] transpose) : ReadOrRejected t := by
  have hrev : reversed t = false := by
    rw [reversed, hdevices]
    rfl
  have hmesh : meshOf t = flatMesh t := by
    rw [meshOf, hdevices]
    rfl
  have hvalid := t.valid
  rw [hdevices] at hvalid
  have hdevice : ∀ k, t.devices.deviceAt k = k := by
    intro k
    rw [hdevices]
    exact TileAssignment.DeviceList.deviceAt_singleton hvalid.2.2.2 k
  by_cases hlen : (meshOf t).length = 2
  · rw [readOrRejected_iff_of_slices id (fun _ hd => hd)
      (fun k hk => (hdevice k).symm ▸ hk) (slice_of_flat t hrev hmesh hlen)]
    intro k _
    rw [hdevice]
    rfl
  · exact readOrRejected_of_length hlen

/-- A device of a transposed iota is read at its offset. -/
theorem readOffset_deviceAt {r₀ r₁ k : ℕ} (hk : k < r₀ * r₁) :
    (TileAssignment.DeviceList.iota [r₀, r₁] (some [1, 0])).deviceAt k < r₀ * r₁ ∧
      readOffset r₀ r₁ ((TileAssignment.DeviceList.iota [r₀, r₁] (some [1, 0])).deviceAt k) =
        k := by
  have hr₀ : 0 < r₀ := Nat.pos_of_mul_pos_right (lt_of_le_of_lt (Nat.zero_le k) hk)
  have hmod := Nat.mod_lt k hr₀
  have hdiv : k / r₀ < r₁ := Nat.div_lt_of_lt_mul hk
  have hr₁ : 0 < r₁ := lt_of_le_of_lt (Nat.zero_le _) hdiv
  rw [TileAssignment.DeviceList.deviceAt_transpose]
  constructor
  · have hlt : readOffset r₁ r₀ k < r₁ * r₀ := readOffset_lt (by rwa [Nat.mul_comm])
    rw [readOffset, Nat.mul_comm r₁ r₀] at hlt
    exact hlt
  · rw [readOffset, Nat.mul_comm (k % r₀), Nat.mul_add_mod, Nat.mod_eq_of_lt hdiv,
      Nat.mul_add_div hr₁, Nat.div_eq_of_lt hdiv, Nat.add_zero]
    exact Nat.div_add_mod' k r₀

/-- Where no count is that of all devices, some dimension is cut. -/
theorem counts_ne_nil (hline : t.numDevices ∉ t.dims) : t.counts.filter (· ≠ 1) ≠ [] := by
  intro hnil
  have hmul := t.prod_counts_mul_replication
  have hfilter := filter_dims t
  rw [prod_counts_of_nil t hnil, Nat.one_mul] at hmul
  rw [hnil, List.nil_append, hmul] at hfilter
  split_ifs at hfilter with hone
  · obtain ⟨n, rest, hdims⟩ := List.exists_cons_of_ne_nil t.dims_ne_nil
    have hn : n = 1 := by
      by_contra hn
      have hmem : n ∈ t.dims.filter (· ≠ 1) :=
        List.mem_filter.mpr ⟨by rw [hdims]; simp, by simpa using hn⟩
      rw [hfilter] at hmem
      cases hmem
    exact hline (by rw [hone, hdims, hn]; simp)
  · exact hline (List.mem_filter.mp (by rw [hfilter]; simp : t.numDevices ∈ t.dims.filter _)).1

/-- Devices that are counted up on a mesh that is not a line: the second one is read at the other
end of the mesh. -/
theorem exists_readOffset_ne (hr₀pos : 0 < r₀) (hprod : r₀ * r₁ = t.numDevices)
    (hline : t.numDevices ∉ t.dims) (hpre : t.counts.filter (· ≠ 1) <+: [r₁, r₀]) :
    ∃ k < t.numDevices, readOffset r₀ r₁ k / t.replication ≠ k / t.replication := by
  have hmul := t.prod_counts_mul_replication
  have hcountsprod : (t.counts.filter (· ≠ 1)).prod = t.counts.prod := prod_filter_ne_one _
  have hmem : ∀ n ∈ t.dims.filter (· ≠ 1), n ≠ t.numDevices := fun n hn heq =>
    hline (heq ▸ (List.mem_filter.mp hn).1)
  have hne : ∀ n ∈ t.counts.filter (· ≠ 1), n ≠ 1 := fun n hn => by
    simpa using (List.mem_filter.mp hn).2
  obtain ⟨a, tiles, htiles⟩ := List.exists_cons_of_ne_nil (counts_ne_nil hline)
  have ha : a = r₁ := by
    rw [htiles] at hpre
    exact (List.cons_prefix_cons.mp hpre).1
  have hr₁ : r₁ ≠ 1 := ha ▸ hne a (by rw [htiles]; simp)
  have hr₁' : r₁ ≠ t.numDevices := ha ▸ hmem a (by rw [filter_dims t, htiles]; simp)
  have hr₁pos : 0 < r₁ := Nat.pos_of_mul_pos_left (hprod ▸ t.numDevices_pos)
  have hr₀ : r₀ ≠ 1 := by
    rintro rfl
    exact hr₁' (by omega)
  have hone : 1 < t.numDevices := by
    rw [← hprod]
    calc 1 < r₁ := by omega
      _ = 1 * r₁ := (Nat.one_mul _).symm
      _ ≤ r₀ * r₁ := Nat.mul_le_mul_right _ hr₀pos
  have hvalue : readOffset r₀ r₁ 1 = r₀ := by
    rw [readOffset, Nat.mod_eq_of_lt (by omega), Nat.div_eq_of_lt (by omega)]
    omega
  refine ⟨1, hone, fun hat => ?_⟩
  rw [hvalue] at hat
  rw [htiles, ha] at hpre hcountsprod
  have hrest := (List.cons_prefix_cons.mp hpre).2
  cases tiles with
  | nil =>
    have hr : t.replication = r₀ := by
      rw [List.prod_singleton] at hcountsprod
      rw [← hcountsprod, ← hprod, Nat.mul_comm] at hmul
      exact Nat.eq_of_mul_eq_mul_right hr₁pos hmul
    rw [hr, Nat.div_self hr₀pos, Nat.div_eq_of_lt (by omega)] at hat
    omega
  | cons b tiles =>
    obtain ⟨rfl, hthird⟩ := List.cons_prefix_cons.mp hrest
    obtain rfl := List.prefix_nil.mp hthird
    have hr : t.replication = 1 := by
      simp only [List.prod_cons, List.prod_nil, Nat.mul_one] at hcountsprod
      rw [← hcountsprod, ← hprod, Nat.mul_comm r₁ b] at hmul
      exact Nat.eq_of_mul_eq_mul_left (hprod ▸ t.numDevices_pos) (by omega)
    rw [hr, Nat.div_one, Nat.div_one] at hat
    exact hr₀ hat

section Iota

variable {transpose : Option (List ℕ)} (hdevices : t.devices = .iota [r₀, r₁] transpose)

include hdevices

/-- An iota that is not transposed counts the devices up. -/
theorem deviceAt_eq_self (hne : transpose ≠ some [1, 0]) (k : ℕ) : t.devices.deviceAt k = k := by
  have hvalid := t.valid
  rw [hdevices] at hvalid ⊢
  cases transpose with
  | none => rfl
  | some perm =>
    rcases TileAssignment.DeviceList.eq_or_eq_of_perm (hvalid.2.2.2 perm rfl) with rfl | rfl
    · exact TileAssignment.DeviceList.deviceAt_untransposed r₀ r₁ k
    · exact absurd rfl hne

/-- A mesh that is a line, or a tensor that is not cut: each device has its own tile. -/
theorem deviceAt_of_line (hprod : r₀ * r₁ = t.numDevices)
    (hone : t.counts.filter (· ≠ 1) = [] ∨ r₁ = 1) {k : ℕ} (hk : k < t.numDevices) :
    t.devices.deviceAt k < t.numDevices ∧
      t.devices.deviceAt k / t.replication = k / t.replication := by
  by_cases htranspose : transpose = some [1, 0]
  · rw [hdevices, htranspose]
    have hlt := (readOffset_deviceAt (hprod.symm ▸ hk)).1
    rw [hprod] at hlt
    refine ⟨hlt, ?_⟩
    rcases hone with hnil | rfl
    · have h₁ := t.div_replication_lt hlt
      have h₂ := t.div_replication_lt hk
      rw [prod_counts_of_nil t hnil, Nat.lt_one_iff] at h₁ h₂
      rw [h₁, h₂]
    · have hk₀ : k < r₀ := by omega
      rw [TileAssignment.DeviceList.deviceAt_transpose, Nat.mul_one,
        Nat.mod_eq_of_lt hk₀, Nat.div_eq_of_lt hk₀, Nat.add_zero]
  · rw [deviceAt_eq_self hdevices htranspose]
    exact ⟨hk, rfl⟩

/-- **Iotas of two dimensions.** -/
theorem readOrRejected_iota_two (hrange : readTiled t ≠ .error (.outOfRange .meshShape)) :
    ReadOrRejected t ↔ t.numDevices ∈ t.dims ∨ transpose = some [1, 0] ∨
      ¬ t.counts.filter (· ≠ 1) <+: [r₁, r₀] := by
  have hrev : reversed t = true := by
    rw [reversed, hdevices]
    rfl
  have hmesh : meshOf t = [r₀, r₁] := by
    rw [meshOf, hdevices]
    rfl
  have hvalid := t.valid
  rw [hdevices] at hvalid
  obtain ⟨-, hrpos, hprod, -⟩ := hvalid
  have hprod' : r₀ * r₁ = t.numDevices := by
    rw [TileAssignment.numDevices, ← hprod]
    simp
  by_cases hpre : t.counts.filter (· ≠ 1) <+: openOf t r₀ r₁
  · by_cases hline : t.numDevices ∈ t.dims
    · refine iff_of_true ?_ (Or.inl hline)
      obtain ⟨hone, hslices⟩ := slice_of_line t hrev hmesh hprod' hline hpre
      exact (readOrRejected_iff_of_slices id (fun _ hd => hd)
        (fun k hk => (deviceAt_of_line hdevices hprod' hone hk).1) hslices).mpr
        fun k hk => (deviceAt_of_line hdevices hprod' hone hk).2
    · have hopen : openOf t r₀ r₁ = [r₁, r₀] := by
        rw [openOf, hrev, decide_eq_false hline]
        rfl
      have hslices := slice_of_pair t hrev hmesh hprod' hline hpre
      have hread : ∀ d < t.numDevices, readOffset r₀ r₁ d < t.numDevices := by
        intro d hd
        rw [← hprod'] at hd ⊢
        exact readOffset_lt hd
      rw [hopen] at hpre
      by_cases htranspose : transpose = some [1, 0]
      · refine iff_of_true ?_ (Or.inr (Or.inl htranspose))
        rw [readOrRejected_iff_of_slices (readOffset r₀ r₁) hread ?_ hslices]
        · intro k hk
          rw [hdevices, htranspose, (readOffset_deviceAt (hprod'.symm ▸ hk)).2]
        · intro k hk
          rw [hdevices, htranspose, ← hprod']
          exact (readOffset_deviceAt (hprod'.symm ▸ hk)).1
      · have hdevice := deviceAt_eq_self hdevices htranspose
        refine iff_of_false ?_ (by
          rintro (h | h | h)
          exacts [hline h, htranspose h, h hpre])
        rw [readOrRejected_iff_of_slices (readOffset r₀ r₁) hread
          (fun k hk => (hdevice k).symm ▸ hk) hslices]
        intro h
        obtain ⟨k, hk, hne⟩ := exists_readOffset_ne (hrpos r₀ (by simp)) hprod' hline hpre
        exact hne (by simpa only [hdevice] using h k hk)
  · have herror := outcome_of_ne_ok t (ne_ok_of_counts t hmesh hpre) hrange
    refine iff_of_true (Or.inl herror) ?_
    by_cases hline : t.numDevices ∈ t.dims
    · exact Or.inl hline
    · have hopen : openOf t r₀ r₁ = [r₁, r₀] := by
        rw [openOf, hrev, decide_eq_false hline]
        rfl
      exact Or.inr (Or.inr (hopen ▸ hpre))

end Iota

/-- **Tile assignments that are read or rejected.** -/
theorem readOrRejected_iff
    (hrange : readTiled t ≠ .error (.outOfRange .meshShape)) :
    ReadOrRejected t ↔ Readable t := by
  unfold Readable
  cases hdevices : t.devices with
  | explicit ids => exact readOrRejected_explicit hdevices
  | iota reshape transpose =>
    have hlong : reshape.length ≠ 1 → reshape.length ≠ 2 → ReadOrRejected t := by
      intro h₁ h₂
      refine readOrRejected_of_length ?_
      rw [meshOf, hdevices]
      show (if reshape.length ≠ 1 then reshape else flatMesh t).length ≠ 2
      rw [if_pos h₁]
      exact h₂
    rcases reshape with _ | ⟨r₀, _ | ⟨r₁, _ | ⟨r₂, reshape⟩⟩⟩
    · exact iff_of_true (hlong (by simp) (by simp)) trivial
    · exact iff_of_true (readOrRejected_iota_one hdevices) trivial
    · exact readOrRejected_iota_two hdevices hrange
    · exact iff_of_true (hlong (by simp) (by simp)) trivial

end Tiled

/-! ## The strings of the syntax -/

theorem convert_manual : convertGSPMDShardingToMeshSharding OpSharding.manual.print =
      .ok (MeshSharding.setNonDevicesShardType {} .identity) := by
  have hread : readTokens OpSharding.manual.print =
      .ok (MeshSharding.setNonDevicesShardType {} .identity) := by
    rw [readTokens_print _ (by decide) (by decide)]
    decide
  exact convert_of_ne_devices hread (by decide)

theorem convert_replicated : convertGSPMDShardingToMeshSharding OpSharding.replicated.print =
      .ok (MeshSharding.setNonDevicesShardType {} .replicate) := by
  have hread : readTokens OpSharding.replicated.print =
      .ok (MeshSharding.setNonDevicesShardType {} .replicate) := by
    rw [readTokens_print _ (by decide) (by decide)]
    decide
  exact convert_of_ne_devices hread (by decide)

/-- What is read of a string that names one device. -/
theorem convert_maximal (device : ℕ) :
    convertGSPMDShardingToMeshSharding (OpSharding.maximal device).print =
      match getAsSignedInteger (toDecimal device) with
      | none => .error (.error "Fail to parse GSPMD sharding.".toList)
      | some d => .ok { MeshSharding.setNonDevicesShardType {} .maximal with
          deviceIds := [-1] ++ [d] } := by
  have hletter : ∀ c : Char, c.isDigit = false → c ≠ '-' → c ∉ "device=".toList →
      c ∉ "device=".toList ++ toDecimal device := by
    intro c hdigit hminus hc hmem
    rcases List.mem_append.mp hmem with hmem | hmem
    · exact hc hmem
    · exact absurd hmem (notMem_toDecimal hdigit hminus)
  have hspace : ' ' ∉ "device=".toList ++ toDecimal device :=
    hletter _ (by decide) (by decide) (by decide)
  have hm : 'm' ∉ "device=".toList ++ toDecimal device :=
    hletter _ (by decide) (by decide) (by decide)
  have hr : 'r' ∉ "device=".toList ++ toDecimal device :=
    hletter _ (by decide) (by decide) (by decide)
  have hfirst : MeshSharding.parseToken {} "maximal".toList =
      .ok (MeshSharding.setNonDevicesShardType {} .maximal) := by
    decide
  have hsecond : (MeshSharding.setNonDevicesShardType {} .maximal).parseToken
      ("device=".toList ++ toDecimal device) =
        match getAsSignedInteger (toDecimal device) with
        | none => .error (.error "Fail to parse GSPMD sharding.".toList)
        | some d => .ok { MeshSharding.setNonDevicesShardType {} .maximal with
            deviceIds := [-1] ++ [d] } := by
    rw [MeshSharding.parseToken, contains_eq_false (c := 'm') (by decide) hm,
      contains_eq_false (c := 'r') (by decide) hr, contains_eq_false (c := 'm') (by decide) hm,
      if_neg (by decide), if_neg (by decide), if_neg (by decide), consumeFront_append]
    rfl
  have hread : readTokens (OpSharding.maximal device).print =
      match getAsSignedInteger (toDecimal device) with
        | none => .error (.error "Fail to parse GSPMD sharding.".toList)
        | some d => .ok { MeshSharding.setNonDevicesShardType {} .maximal with
            deviceIds := [-1] ++ [d] } := by
    rw [readTokens_print (.maximal device) ?_ (List.cons_ne_nil _ _)]
    · show (MeshSharding.parseToken {} "maximal".toList >>= fun sharding =>
        sharding.parseToken ("device=".toList ++ toDecimal device) >>= Except.ok) = _
      rw [hfirst]
      show ((MeshSharding.setNonDevicesShardType {} .maximal).parseToken
        ("device=".toList ++ toDecimal device) >>= Except.ok) = _
      rw [hsecond]
      cases getAsSignedInteger (toDecimal device) with
      | none => rfl
      | some d => rfl
    · intro token htoken
      rcases List.mem_cons.mp htoken with rfl | htoken
      · decide
      · obtain rfl := List.mem_singleton.mp htoken
        exact hspace
  rw [convertGSPMDShardingToMeshSharding, hread]
  cases getAsSignedInteger (toDecimal device) with
  | none => rfl
  | some d => rfl

/-! ## The custom calls -/

section Calls

variable {call : CustomCall} {foundSharding : Bool} {str : Str}

/-- The shard types that a call takes: the assertion on them holds, or no operation is created. -/
def CustomCall.Takes (call : CustomCall) : MeshShardType → Prop
  | .replicate | .devices => True
  | .identity => call ≠ .spmdShardToFullShape
  | .maximal => call = .spmdFullToShardShape

theorem convertCustomCall_of_error {f : Failure}
    (h : convertGSPMDShardingToMeshSharding str = .error f) :
    convertCustomCall call foundSharding str = .error f := by
  rw [convertCustomCall, h]
  rfl

/-- **A call whose string is read** is converted where its shard type is taken. -/
theorem convertCustomCall_of_ok {attributes : MeshSharding}
    (h : convertGSPMDShardingToMeshSharding str = .ok attributes) :
    (call.Takes attributes.shardType ∧ ∃ shardType,
        convertCustomCall call foundSharding str = .ok (attributes, shardType)) ∨
      ¬ call.Takes attributes.shardType ∧
        convertCustomCall call foundSharding str = .error .assertion := by
  rw [convertCustomCall, h]
  obtain ⟨shardType, _, _, _, _, _⟩ := attributes
  cases call <;> cases shardType <;> cases foundSharding
  all_goals
    first
      | exact .inl ⟨by simp [CustomCall.Takes], _, rfl⟩
      | exact .inr ⟨by simp [CustomCall.Takes], rfl⟩

theorem convert_of_convertCustomCall {attributes : MeshSharding} {shardType : Option MeshShardType}
    (h : convertCustomCall call foundSharding str = .ok (attributes, shardType)) :
    convertGSPMDShardingToMeshSharding str = .ok attributes ∧
      call.Takes attributes.shardType := by
  cases hread : convertGSPMDShardingToMeshSharding str with
  | error f => exact nomatch (convertCustomCall_of_error hread).symm.trans h
  | ok attributes' =>
    rcases convertCustomCall_of_ok hread with ⟨htakes, shardType', hok⟩ | ⟨-, herror⟩
    · obtain ⟨rfl, -⟩ := Prod.mk.inj (Except.ok.inj (hok.symm.trans h))
      exact ⟨rfl, htakes⟩
    · exact nomatch herror.symm.trans h

/-- A call fails where its string is not read, or by an assertion. -/
theorem convert_of_convertCustomCall_error {f : Failure}
    (h : convertCustomCall call foundSharding str = .error f) :
    convertGSPMDShardingToMeshSharding str = .error f ∨ f = .assertion := by
  cases hread : convertGSPMDShardingToMeshSharding str with
  | error g =>
    obtain rfl := Except.error.inj ((convertCustomCall_of_error hread).symm.trans h)
    exact .inl rfl
  | ok attributes =>
    rcases convertCustomCall_of_ok hread with ⟨-, shardType, hok⟩ | ⟨-, herror⟩
    · exact nomatch hok.symm.trans h
    · exact .inr (Except.error.inj (h.symm.trans herror))

/-- Calls leave the mesh where their strings do. -/
theorem ne_outOfRange_iff :
    convertCustomCall call foundSharding str ≠ .error (.outOfRange .meshShape) ↔
      ¬ Overruns str := by
  rw [← outOfRange_iff_overruns, ne_eq, not_iff_not]
  constructor
  · exact fun h => (convert_of_convertCustomCall_error h).resolve_right fun h => nomatch h
  · exact convertCustomCall_of_error

/-- Tile assignments that are read faithfully are read or rejected. -/
theorem ReadsFaithfully.readable {t : TileAssignment}
    (h : ReadsFaithfully call foundSharding (OpSharding.tiled t).print) : Readable t := by
  have hover := ne_outOfRange_iff.mp h.inRange.1
  refine (readOrRejected_iff (t := t) fun h => hover ((outOfRange_iff_overruns _).mp h)).mp ?_
  rcases h.faithful _ rfl with ⟨message, herror⟩ | ⟨attributes, shardType, hok, hgives⟩
  · exact .inl ⟨message,
      (convert_of_convertCustomCall_error herror).resolve_right fun h => nomatch h⟩
  · exact .inr ⟨attributes, (convert_of_convertCustomCall hok).1, hgives⟩

end Calls

/-- The strings of a tensor on one device, which no slices express, and of a tensor in shards that
are to stay where the call puts them together. -/
def Unshardable (call : CustomCall) (str : Str) : Prop :=
  (∃ device < 2 ^ 63, (OpSharding.maximal device).print = str) ∨
    call = .spmdShardToFullShape ∧ OpSharding.manual.print = str

/-- **Strings that are read faithfully or rejected** are those that do not leave the mesh, whose
shard type the call takes, and whose device order the parser's assumptions fit. -/
theorem readsFaithfully_iff (call : CustomCall) (foundSharding : Bool) (str : Str) :
    ReadsFaithfully call foundSharding str ↔
      ¬ Overruns str ∧ ¬ Unshardable call str ∧
        ∀ t : TileAssignment, (OpSharding.tiled t).print = str → Readable t := by
  have hshardShape : convertCustomCall call foundSharding str ≠ .error (.outOfRange .shardShape) :=
    fun h => convert_ne_error (.inl rfl) str
      ((convert_of_convertCustomCall_error h).resolve_right fun h => nomatch h)
  constructor
  · intro h
    refine ⟨ne_outOfRange_iff.mp h.inRange.1, ?_, ?_⟩
    · rintro (⟨device, hdevice, rfl⟩ | ⟨rfl, rfl⟩)
      · have hread := convert_maximal device
        rw [getAsSignedInteger_toDecimal (by omega) (by omega)] at hread
        rcases h.faithful _ rfl with ⟨message, herror⟩ | ⟨attributes, shardType, hok, hgives⟩
        · exact nomatch hread.symm.trans
            ((convert_of_convertCustomCall_error herror).resolve_right fun h => nomatch h)
        · obtain rfl := Except.ok.inj (hread.symm.trans (convert_of_convertCustomCall hok).1)
          exact nomatch hgives device .whole ⟨rfl, rfl⟩
      · rcases h.faithful _ rfl with ⟨message, herror⟩ | ⟨attributes, shardType, hok, -⟩
        · exact nomatch convert_manual.symm.trans
            ((convert_of_convertCustomCall_error herror).resolve_right fun h => nomatch h)
        · obtain ⟨hread, htakes⟩ := convert_of_convertCustomCall hok
          obtain rfl := Except.ok.inj (convert_manual.symm.trans hread)
          exact htakes rfl
    · rintro t rfl
      exact h.readable
  · rintro ⟨hover, hshard, hreadable⟩
    refine ⟨⟨ne_outOfRange_iff.mpr hover, hshardShape⟩, ?_⟩
    rintro sharding rfl
    -- what is read faithfully is converted where the shard type is taken
    have htaken : ∀ {attributes : MeshSharding},
        convertGSPMDShardingToMeshSharding sharding.print = .ok attributes →
        call.Takes attributes.shardType → ∃ shardType,
          convertCustomCall call foundSharding sharding.print = .ok (attributes, shardType) :=
      fun hread htakes => ((convertCustomCall_of_ok hread).resolve_right fun h => h.1 htakes).2
    cases sharding with
    | maximal device =>
      have hbig : ¬ device < 2 ^ 63 := fun hlt => hshard (.inl ⟨device, hlt, rfl⟩)
      have hread := convert_maximal device
      rw [getAsSignedInteger_toDecimal_of_le (by omega)] at hread
      exact .inl ⟨_, convertCustomCall_of_error hread⟩
    | manual =>
      obtain ⟨shardType, hok⟩ := htaken convert_manual fun h => hshard (.inr ⟨h, rfl⟩)
      refine .inr ⟨_, _, hok, ?_⟩
      rintro d slice rfl
      rfl
    | replicated =>
      obtain ⟨shardType, hok⟩ := htaken convert_replicated trivial
      refine .inr ⟨_, _, hok, ?_⟩
      rintro d slice rfl
      rfl
    | tiled t =>
      rcases (readOrRejected_iff (t := t) fun h => hover ((outOfRange_iff_overruns _).mp h)).mpr
        (hreadable t rfl) with ⟨message, herror⟩ | ⟨attributes, hread, hgives⟩
      · exact .inl ⟨message, convertCustomCall_of_error herror⟩
      · -- the first device has a tile
        have htype : attributes.shardType = .devices := by
          have htile := hgives _ _ ⟨0, t.numDevices_pos, rfl, rfl⟩
          rw [MeshSharding.slice] at htile
          cases hty : attributes.shardType with
          | devices => rfl
          | identity | replicate | maximal =>
            rw [hty] at htile
            exact nomatch htile
        obtain ⟨shardType, hok⟩ := htaken hread (by rw [htype]; trivial)
        exact .inr ⟨attributes, shardType, hok, hgives⟩

/-- Two devices that are listed from the last one, each with one row. -/
def listedBackwards : TileAssignment where
  dims := [2, 1]
  devices := .explicit [1, 0]
  lastTileDimReplicate := false
  dims_ne_nil := by decide
  dims_pos := by decide
  numDevices_lt := by decide
  valid := List.Perm.swap 0 1 []

/-- **Strings that are misread.**  The order of the devices in `{devices=[2,1]1,0}` is lost, and
`{devices=[2,3]0,1}` has more counts than the mesh has dimensions. -/
theorem not_readsFaithfully :
    ¬ ReadsFaithfully .sharding false "\x7bdevices=[2,1]1,0\x7d".toList ∧
      ¬ ReadsFaithfully .sharding false "\x7bdevices=[2,3]0,1\x7d".toList := by
  constructor
  · intro h
    have hprint : (OpSharding.tiled listedBackwards).print = "\x7bdevices=[2,1]1,0\x7d".toList := by
      decide
    rw [← hprint] at h
    rcases h.readable with ⟨hline, -⟩ | hcopies
    · exact hline (by decide)
    · exact absurd (hcopies 0 (by decide)) (by decide)
  · intro h
    apply h.inRange.1
    decide

end ShardingUtils
