/-
# Shardy shardings, mesh shardings and tensor annotations

A Shardy sharding is converted to a `MeshSharding`, that is written as a `TensorMeshShardingAttr`,
and read back with the mesh of the module.

* `convertSdyShardingToMeshSharding`, `getTensorMeshShardingAttr` : the conversion and the encoder;
* `roundTrip` : the encoder followed by the decoder;
* `TensorShardingAttr.slice` : the slice a Shardy sharding gives to a device;
* `parseSdySharding_spec` : the fields of the conversion in closed form;
* `roundTrip_of_devices` : what is encoded for `devices` is decoded;
* `order_of_rowMajor_eq` : the places along some axes determine the order of the axes;
* `preserved_iff_ordered` : when nothing is lost.

A `MeshSharding` names the tensor dimension of every mesh axis, and so forgets in which order a
dimension lists its axes; and the order in which a mesh lists its devices is dropped.
-/
import TTMLIR.TensorAnnotationCleanup

namespace ShardyToTTIR

open ShardingUtils Fallible MixedRadix
open TensorAnnotationCleanup (TensorMeshShardingAttr TensorMeshShardingAxisAttr MeshAttr setShardDim
  extractMeshShardingFromTensorMeshShardingAttr)

/-! ## Shardings -/

/-- `sdy::AxisRefAttr`. -/
structure AxisRefAttr : Type where
  name : String
  subAxisInfo : Option (ℤ × ℤ) := none
  deriving DecidableEq

/-- `sdy::DimensionShardingAttr`. -/
structure DimensionShardingAttr : Type where
  axes : List AxisRefAttr
  isClosed : Bool := true
  deriving DecidableEq

/-- `sdy::TensorShardingAttr`. -/
structure TensorShardingAttr : Type where
  meshName : String
  dimShardings : List DimensionShardingAttr
  deriving DecidableEq

/-- `sdy::MeshAxisAttr`. -/
structure MeshAxisAttr : Type where
  name : String
  size : ℤ
  deriving DecidableEq

/-- `sdy::MeshAttr`. -/
structure SdyMeshAttr : Type where
  axes : List MeshAxisAttr
  deviceIds : List ℤ := []
  deriving DecidableEq

/-- One turn of the loops of `parseSdySharding`, for an axis of the dimension `dimIdx`. -/
def parseAxis (meshAttr : SdyMeshAttr) (dimIdx : ℕ) (fields : List ℤ × List ℤ)
    (axis : AxisRefAttr) : Except String (List ℤ × List ℤ) :=
  if axis.subAxisInfo.isSome then
    .error "Sharding with subaxis partitioning is currently not supported."
  else
    match meshAttr.axes.find? fun meshAxis => meshAxis.name = axis.name with
    | none => .error "axis not in mesh"
    | some meshAxis =>
      .ok (fields.1.modify dimIdx (· * meshAxis.size),
        if 1 < meshAxis.size then
          fields.2.set (meshAttr.axes.findIdx fun meshAxis => meshAxis.name = axis.name) dimIdx
        else fields.2)

/-- `MeshSharding::parseSdySharding`. -/
def parseSdySharding (sdySharding : TensorShardingAttr) (meshAttr : SdyMeshAttr) :
    Except String MeshSharding :=
  if ¬ sdySharding.dimShardings.all DimensionShardingAttr.isClosed then
    .error "Sharding with open dimension is currently not supported."
  else do
    let fields ← sdySharding.dimShardings.zipIdx.foldlM
      (fun fields (dimSharding, dimIdx) =>
        dimSharding.axes.foldlM (parseAxis meshAttr dimIdx) fields)
      (sdySharding.dimShardings.map fun _ => 1, meshAttr.axes.map fun _ => -1)
    .ok { shardType := .devices
          shardShape := fields.1
          shardDims := fields.2
          meshShape := meshAttr.axes.map MeshAxisAttr.size }

/-- `MeshSharding::setNonDevicesShardType`. -/
def setNonDevicesShardType (targetShardType : MeshShardType) (meshSharding : MeshSharding) :
    MeshSharding :=
  { meshSharding with
    shardType := targetShardType, shardShape := [1], shardDims := [-1], meshShape := [-1] }

/-- `MeshSharding::convertSdyShardingToMeshSharding`. -/
def convertSdyShardingToMeshSharding (sdySharding : TensorShardingAttr)
    (meshAttr : SdyMeshAttr) : Except String MeshSharding :=
  if meshAttr.axes = [] ∧ meshAttr.deviceIds = [] then .ok { meshShape := [] }
  else if meshAttr.axes = [] then
    .ok { setNonDevicesShardType .maximal {} with deviceIds := meshAttr.deviceIds }
  else do
    let meshSharding ← parseSdySharding sdySharding meshAttr
    let totalPartition := meshSharding.shardShape.foldl (· * ·) 1
    if totalPartition = 1 then .ok (setNonDevicesShardType .replicate meshSharding)
    else .ok meshSharding

/-- `MeshSharding::getTensorMeshShardingAttr`. -/
def getTensorMeshShardingAttr (meshName : String) (meshSharding : MeshSharding) :
    Option TensorMeshShardingAttr :=
  if meshSharding.meshShape = [] then none
  else if meshSharding.shardType ≠ .devices then some ⟨meshName, []⟩
  else
    some ⟨meshName, meshSharding.shardShape.zipIdx.map fun (shape, dim) =>
      ⟨shape, (meshSharding.shardDims.zipIdx.filter fun (shardDim, _) => shardDim = dim).map
        fun (_, shardIdx) => (shardIdx : ℤ)⟩⟩

/-! ## The two conversions, and what they are meant to keep -/

/-- The mesh that the conversion of a Shardy mesh adds to the module. -/
def moduleMesh (meshName : String) (mesh : SdyMeshAttr) : MeshAttr :=
  ⟨meshName, mesh.axes.map MeshAxisAttr.size⟩

/-- The annotation of a sharding, and the sharding extracted from it. -/
def roundTrip (meshName : String) (mesh : SdyMeshAttr) (sharding : MeshSharding) :
    Option MeshSharding := do
  let attr ← getTensorMeshShardingAttr meshName sharding
  extractMeshShardingFromTensorMeshShardingAttr (moduleMesh meshName mesh) attr

/-- The fields that are to come back. -/
structure SameFields (sharding back : MeshSharding) : Prop where
  shardType : back.shardType = sharding.shardType
  shardShape : back.shardShape = sharding.shardShape
  shardDims : back.shardDims = sharding.shardDims
  meshShape : back.meshShape = sharding.meshShape

/-- The sizes of the axes of a mesh. -/
def SdyMeshAttr.sizes (mesh : SdyMeshAttr) : List ℕ := mesh.axes.map fun axis => axis.size.toNat

/-- The place of an axis in its mesh. -/
def SdyMeshAttr.position (mesh : SdyMeshAttr) (axis : AxisRefAttr) : ℕ :=
  mesh.axes.findIdx fun meshAxis => meshAxis.name = axis.name

/-- The size of an axis. -/
def SdyMeshAttr.axisSize (mesh : SdyMeshAttr) (axis : AxisRefAttr) : ℕ :=
  mesh.sizes.getD (mesh.position axis) 1

/-- The place of a device in the mesh, counted in row-major order; a mesh may list its devices. -/
def SdyMeshAttr.place (mesh : SdyMeshAttr) (d : ℕ) : ℕ :=
  if mesh.deviceIds = [] then d else mesh.deviceIds.idxOf (d : ℤ)

/-- **What a Shardy sharding gives to a device**: a dimension is cut along its axes, the first one
being the major one. -/
def TensorShardingAttr.slice (sdySharding : TensorShardingAttr) (mesh : SdyMeshAttr) (d : ℕ) :
    Slice :=
  .tile (sdySharding.dimShardings.map fun dim => (dim.axes.map mesh.axisSize).prod)
    (sdySharding.dimShardings.map fun dim =>
      rowMajor (dim.axes.map mesh.axisSize)
        (dim.axes.map fun axis =>
          (unravel mesh.sizes (mesh.place d)).getD (mesh.position axis) 0))

/-- The fields come back from the annotation. -/
def FieldsKept (meshName : String) (mesh : SdyMeshAttr) (sharding : MeshSharding) : Prop :=
  ∃ back, roundTrip meshName mesh sharding = some back ∧ SameFields sharding back

/-- **Nothing is lost**: the fields come back, and each device has the slice of the Shardy sharding
under both. -/
def Preserved (meshName : String) (mesh : SdyMeshAttr) (sdySharding : TensorShardingAttr)
    (sharding : MeshSharding) : Prop :=
  ∃ back, roundTrip meshName mesh sharding = some back ∧ SameFields sharding back ∧
    ∀ d < mesh.sizes.prod, sharding.slice d = some (sdySharding.slice mesh d) ∧
      back.slice d = some (sdySharding.slice mesh d)

/-- What the verifiers of Shardy ask: the axes of a mesh have names of their own and sizes from one
on, and no axis is used twice in a sharding. -/
structure Wellformed (mesh : SdyMeshAttr) (sdySharding : TensorShardingAttr) : Prop where
  names : (mesh.axes.map MeshAxisAttr.name).Nodup
  sizes : ∀ axis ∈ mesh.axes, 1 ≤ axis.size
  usedOnce : (sdySharding.dimShardings.flatMap fun dim =>
    dim.axes.map AxisRefAttr.name).Nodup

/-- Some dimension is cut: it lists an axis of more than one device. -/
def Cut (mesh : SdyMeshAttr) (sdySharding : TensorShardingAttr) : Prop :=
  ∃ dim ∈ sdySharding.dimShardings, ∃ axis ∈ dim.axes, 1 < mesh.axisSize axis

/-- Each dimension lists its axes of more than one device in the order of the mesh. -/
def InMeshOrder (mesh : SdyMeshAttr) (sdySharding : TensorShardingAttr) : Prop :=
  ∀ dim ∈ sdySharding.dimShardings,
    ((dim.axes.filter fun axis => 1 < mesh.axisSize axis).map mesh.position).Pairwise (· < ·)

instance (mesh : SdyMeshAttr) (sdySharding : TensorShardingAttr) :
    Decidable (InMeshOrder mesh sdySharding) :=
  inferInstanceAs (Decidable (∀ dim ∈ sdySharding.dimShardings, _))

/-! ## Entries that are set one after the other -/

section Assign

variable {dims : List ℤ} {l : List (ℕ × ℤ)}

/-- The entries of a list are set. -/
def assign (dims : List ℤ) (l : List (ℕ × ℤ)) : List ℤ :=
  l.foldl (fun dims entry => dims.set entry.1 entry.2) dims

theorem length_assign (dims : List ℤ) (l : List (ℕ × ℤ)) :
    (assign dims l).length = dims.length := by
  induction l generalizing dims with
  | nil => rfl
  | cons entry l ih =>
    show (assign (dims.set entry.1 entry.2) l).length = dims.length
    rw [ih, List.length_set]

theorem getElem?_assign_of_notMem {p : ℕ} (h : ∀ v, (p, v) ∉ l) :
    (assign dims l)[p]? = dims[p]? := by
  induction l generalizing dims with
  | nil => rfl
  | cons entry l ih =>
    have hne : entry.1 ≠ p := fun heq => h entry.2 (by rw [← heq]; simp)
    show (assign (dims.set entry.1 entry.2) l)[p]? = dims[p]?
    rw [ih fun v hv => h v (List.mem_cons_of_mem _ hv), List.getElem?_set_ne hne]

/-- What is set to one value only has this value. -/
theorem getElem?_assign_of_mem {p : ℕ} {v : ℤ} (hp : p < dims.length) (hmem : (p, v) ∈ l)
    (hsame : ∀ w, (p, w) ∈ l → w = v) : (assign dims l)[p]? = some v := by
  induction l generalizing dims with
  | nil => cases hmem
  | cons entry l ih =>
    show (assign (dims.set entry.1 entry.2) l)[p]? = some v
    by_cases hlater : ∃ w, (p, w) ∈ l
    · obtain ⟨w, hw⟩ := hlater
      obtain rfl := hsame w (List.mem_cons_of_mem _ hw)
      exact ih (by simpa using hp) hw fun w' hw' => hsame w' (List.mem_cons_of_mem _ hw')
    · have hnone : ∀ w, (p, w) ∉ l := fun w hw => hlater ⟨w, hw⟩
      rcases List.mem_cons.mp hmem with heq | hmem
      · rw [getElem?_assign_of_notMem hnone, ← heq, List.getElem?_set_self hp]
      · exact absurd hmem (hnone v)

end Assign

/-! ## The conversion from Shardy -/

variable {axis : AxisRefAttr} {sharding : MeshSharding}

section Parse

variable {mesh : SdyMeshAttr}

/-- The axes of the dimensions from the `k`-th on, with their dimensions. -/
def refs : List DimensionShardingAttr → ℕ → List (ℕ × AxisRefAttr)
  | [], _ => []
  | dim :: dims, k => dim.axes.map (fun axis => (k, axis)) ++ refs dims (k + 1)

/-- An axis of a dimension. -/
theorem mem_refs {dims : List DimensionShardingAttr} {k i : ℕ} :
    (i, axis) ∈ refs dims k ↔ ∃ x dim, dims[x]? = some dim ∧ i = k + x ∧ axis ∈ dim.axes := by
  induction dims generalizing k with
  | nil => simp [refs]
  | cons dim dims ih =>
    rw [refs, List.mem_append, ih]
    constructor
    · rintro (h | ⟨x, dim', hdim, rfl, haxis⟩)
      · obtain ⟨axis', haxis, heq⟩ := List.mem_map.mp h
        cases heq
        exact ⟨0, dim, rfl, rfl, haxis⟩
      · exact ⟨x + 1, dim', hdim, by omega, haxis⟩
    · rintro ⟨x, dim', hdim, rfl, haxis⟩
      cases x with
      | zero =>
        obtain rfl := Option.some.inj hdim
        exact .inl (List.mem_map.mpr ⟨axis, haxis, rfl⟩)
      | succ x => exact .inr ⟨x, dim', hdim, by omega, haxis⟩

theorem foldlM_refs (dims : List DimensionShardingAttr) (k : ℕ) (fields : List ℤ × List ℤ) :
    (dims.zipIdx k).foldlM (fun fields (dimSharding, dimIdx) =>
        dimSharding.axes.foldlM (parseAxis mesh dimIdx) fields) fields =
      (refs dims k).foldlM (fun fields ref => parseAxis mesh ref.1 fields ref.2) fields := by
  induction dims generalizing k fields with
  | nil => rfl
  | cons dim dims ih =>
    rw [List.zipIdx_cons, List.foldlM_cons, refs, List.foldlM_append, List.foldlM_map]
    congr 1
    funext fields
    exact ih (k + 1) fields

/-- The axes that set a mesh dimension: those of more than one device. -/
def sets (mesh : SdyMeshAttr) (l : List (ℕ × AxisRefAttr)) : List (ℕ × ℤ) :=
  (l.filter fun ref => 1 < mesh.axisSize ref.2).map fun ref => (mesh.position ref.2, (ref.1 : ℤ))

/-- One axis. -/
theorem parseAxis_eq_ok (hsizes : ∀ axis ∈ mesh.axes, 1 ≤ axis.size) {i : ℕ}
    {fields fields' : List ℤ × List ℤ}
    (h : parseAxis mesh i fields axis = .ok fields') :
    mesh.position axis < mesh.axes.length ∧
      fields'.1 = fields.1.modify i (· * (mesh.axisSize axis : ℤ)) ∧
      fields'.2 = if 1 < mesh.axisSize axis then fields.2.set (mesh.position axis) i
        else fields.2 := by
  rw [parseAxis] at h
  split at h
  · cases h
  · split at h
    · cases h
    · rename_i meshAxis hfind
      obtain rfl := (Except.ok.inj h).symm
      have hmem : meshAxis ∈ mesh.axes := List.mem_of_find?_eq_some hfind
      have hname := List.find?_some hfind
      have hlt : mesh.position axis < mesh.axes.length :=
        List.findIdx_lt_length_of_exists ⟨meshAxis, hmem, hname⟩
      have hget : mesh.axes[mesh.position axis]? = some meshAxis := by
        rw [← hfind]
        exact List.find?_eq_getElem?_findIdx.symm
      have hsize : (mesh.axisSize axis : ℤ) = meshAxis.size := by
        have hpos := hsizes meshAxis hmem
        rw [SdyMeshAttr.axisSize, SdyMeshAttr.sizes, List.getD_eq_getElem?_getD,
          List.getElem?_map, hget]
        show ((meshAxis.size.toNat : ℕ) : ℤ) = meshAxis.size
        omega
      refine ⟨hlt, by rw [hsize], ?_⟩
      show (if 1 < meshAxis.size then _ else _) = _
      have hiff : 1 < meshAxis.size ↔ 1 < mesh.axisSize axis := by omega
      by_cases h1 : 1 < mesh.axisSize axis
      · rw [if_pos (hiff.mpr h1), if_pos h1]
        rfl
      · rw [if_neg fun h => h1 (hiff.mp h), if_neg h1]

/-- The loop over the axes: every axis is in the mesh, the sizes are multiplied up and the mesh
dimensions are set. -/
theorem foldlM_parseAxis_eq_ok (hsizes : ∀ axis ∈ mesh.axes, 1 ≤ axis.size)
    {l : List (ℕ × AxisRefAttr)} {fields fields' : List ℤ × List ℤ}
    (h : l.foldlM (fun fields ref => parseAxis mesh ref.1 fields ref.2) fields = .ok fields') :
    (∀ ref ∈ l, mesh.position ref.2 < mesh.axes.length) ∧
      fields'.1 = l.foldl (fun shape ref => shape.modify ref.1 (· * (mesh.axisSize ref.2 : ℤ)))
        fields.1 ∧
      fields'.2 = assign fields.2 (sets mesh l) := by
  induction l generalizing fields with
  | nil =>
    obtain rfl : fields = fields' := Except.ok.inj h
    exact ⟨by simp, rfl, rfl⟩
  | cons ref l ih =>
    rw [List.foldlM_cons] at h
    obtain ⟨fields₁, hstep, h⟩ := bind_eq_ok.mp h
    obtain ⟨hlt, hshape, hdims⟩ := parseAxis_eq_ok hsizes hstep
    obtain ⟨hlts, hshapes, hdimss⟩ := ih h
    refine ⟨List.forall_mem_cons.mpr ⟨hlt, hlts⟩, ?_, ?_⟩
    · rw [hshapes, hshape]
      rfl
    · rw [hdimss, hdims]
      by_cases h1 : 1 < mesh.axisSize ref.2
      · rw [if_pos h1, sets, sets, List.filter_cons_of_pos (by simpa using h1)]
        rfl
      · rw [if_neg h1, sets, sets, List.filter_cons_of_neg (by simpa using h1)]

/-- The axes of one dimension multiply its entry. -/
theorem foldl_modify (axes : List AxisRefAttr) (pre post : List ℤ) (c : ℤ) :
    (axes.map fun axis => (pre.length, axis)).foldl
        (fun shape ref => shape.modify ref.1 (· * (mesh.axisSize ref.2 : ℤ))) (pre ++ c :: post) =
      pre ++ c * ((axes.map mesh.axisSize).prod : ℕ) :: post := by
  induction axes generalizing c with
  | nil => simp
  | cons axis axes ih =>
    rw [List.map_cons, List.foldl_cons]
    have hmodify : (pre ++ c :: post).modify pre.length (· * (mesh.axisSize axis : ℤ)) =
        pre ++ c * (mesh.axisSize axis : ℤ) :: post := by
      clear ih
      induction pre with
      | nil => rfl
      | cons a pre ih => exact congrArg (a :: ·) ih
    rw [hmodify, ih, List.map_cons, List.prod_cons, Nat.cast_mul, mul_assoc]

/-- **The shard shape**: the number of devices each dimension is cut for. -/
theorem foldl_refs (mesh : SdyMeshAttr) (dims : List DimensionShardingAttr) (pre : List ℤ) :
    (refs dims pre.length).foldl
        (fun shape ref => shape.modify ref.1 (· * (mesh.axisSize ref.2 : ℤ)))
        (pre ++ dims.map fun _ => 1) =
      pre ++ dims.map fun dim => (((dim.axes.map mesh.axisSize).prod : ℕ) : ℤ) := by
  induction dims generalizing pre with
  | nil => rfl
  | cons dim dims ih =>
    rw [refs, List.foldl_append, List.map_cons, foldl_modify, one_mul, List.map_cons]
    have h := ih (pre ++ [(((dim.axes.map mesh.axisSize).prod : ℕ) : ℤ)])
    simpa using h

/-- The shard dims of the conversion. -/
def shardDimsOf (mesh : SdyMeshAttr) (sdySharding : TensorShardingAttr) : List ℤ :=
  assign (mesh.axes.map fun _ => -1) (sets mesh (refs sdySharding.dimShardings 0))

/-- The result of the conversion for several devices. -/
def devicesSharding (mesh : SdyMeshAttr) (sdySharding : TensorShardingAttr) : MeshSharding where
  shardType := .devices
  shardShape := sdySharding.dimShardings.map fun dim =>
    (((dim.axes.map mesh.axisSize).prod : ℕ) : ℤ)
  shardDims := shardDimsOf mesh sdySharding
  meshShape := mesh.axes.map MeshAxisAttr.size

/-- **The conversion, in closed form.** -/
theorem parseSdySharding_spec {sdySharding : TensorShardingAttr}
    (hsizes : ∀ axis ∈ mesh.axes, 1 ≤ axis.size)
    (h : parseSdySharding sdySharding mesh = .ok sharding) :
    (∀ ref ∈ refs sdySharding.dimShardings 0, mesh.position ref.2 < mesh.axes.length) ∧
      sharding = devicesSharding mesh sdySharding := by
  rw [parseSdySharding] at h
  split at h
  · cases h
  · obtain ⟨fields, hfields, h⟩ := bind_eq_ok.mp h
    rw [foldlM_refs] at hfields
    obtain ⟨hlt, hshape, hdims⟩ := foldlM_parseAxis_eq_ok hsizes hfields
    refine ⟨hlt, ?_⟩
    rw [← Except.ok.inj h, hshape, hdims]
    have hfold := foldl_refs mesh sdySharding.dimShardings []
    simp only [List.nil_append, List.length_nil] at hfold
    rw [hfold]
    rfl

end Parse

/-! ## The annotation, written and read -/

section Annotation

variable {dims : List ℤ}

/-- The mesh dimensions that are read up to the tensor dimension `k`. -/
def upTo (k : ℕ) (dims : List ℤ) : List ℤ := dims.map fun v : ℤ => if v < (k : ℤ) then v else -1

theorem foldlM_setShardDim (k : ℕ) (axes : List ℕ) (h : ∀ p ∈ axes, p < dims.length) :
    (axes.map fun p : ℕ => (p : ℤ)).foldlM (setShardDim · k ·) dims =
      some (assign dims (axes.map fun p : ℕ => (p, (k : ℤ)))) := by
  induction axes generalizing dims with
  | nil => rfl
  | cons p axes ih =>
    have hp := h p (by simp)
    rw [List.map_cons, List.foldlM_cons, setShardDim, Int.toNat_natCast,
      if_pos ⟨Int.natCast_nonneg p, hp⟩, Option.bind_eq_bind, Option.bind_some,
      ih fun q hq => by simpa using h q (List.mem_cons_of_mem _ hq)]
    rfl

/-- The mesh dimensions of a tensor dimension, as the encoder lists them. -/
theorem map_filter_zipIdx (dims : List ℤ) (k : ℕ) :
    ((dims.zipIdx.filter fun entry => entry.1 = (k : ℤ)).map fun entry => (entry.2 : ℤ)) =
      ((List.range dims.length).filter fun p => dims[p]? = some (k : ℤ)).map
        fun p : ℕ => (p : ℤ) := by
  rw [List.zipIdx_eq_zip_range', ← List.range_eq_range']
  have hzip : dims.zip (List.range dims.length) =
      (List.range dims.length).map fun p => (dims.getD p 0, p) := by
    apply List.ext_getElem
    · simp
    · intro p hp hp'
      have hlt : p < dims.length := by simpa using hp
      simp [List.getD_eq_getElem?_getD, List.getElem?_eq_getElem hlt]
  rw [hzip, List.filter_map, List.map_map]
  refine congrArg (List.map fun p : ℕ => (p : ℤ)) ?_
  refine List.filter_congr fun p hp => ?_
  have hlt : p < dims.length := List.mem_range.mp hp
  simp [List.getD_eq_getElem?_getD, List.getElem?_eq_getElem hlt]

/-- Reading one tensor dimension more. -/
theorem assign_upTo (k : ℕ) : assign (upTo k dims)
        (((List.range dims.length).filter fun p => dims[p]? = some (k : ℤ)).map
          fun p => (p, (k : ℤ))) = upTo (k + 1) dims := by
  apply List.ext_getElem?
  intro p
  by_cases hp : p < dims.length
  · have hup : ∀ j, (upTo j dims)[p]? = some (if dims[p] < j then dims[p] else -1) := by
      intro j
      rw [upTo, List.getElem?_map, List.getElem?_eq_getElem hp]
      rfl
    rw [hup]
    by_cases hk : dims[p] = (k : ℤ)
    · rw [getElem?_assign_of_mem (v := (k : ℤ)) (by simpa [upTo] using hp) ?_ ?_, hk,
        if_pos (by omega)]
      · refine List.mem_map.mpr ⟨p, List.mem_filter.mpr ⟨List.mem_range.mpr hp, ?_⟩, rfl⟩
        simp [List.getElem?_eq_getElem hp, hk]
      · intro w hw
        obtain ⟨q, -, heq⟩ := List.mem_map.mp hw
        exact (congrArg Prod.snd heq).symm
    · rw [getElem?_assign_of_notMem ?_, hup]
      · have hiff : dims[p] < (k : ℤ) ↔ dims[p] < ((k + 1 : ℕ) : ℤ) := by omega
        rw [if_congr hiff rfl rfl]
      · intro v hv
        obtain ⟨q, hq, heq⟩ := List.mem_map.mp hv
        obtain rfl : q = p := congrArg Prod.fst heq
        have hdim := (List.mem_filter.mp hq).2
        rw [List.getElem?_eq_getElem hp, decide_eq_true_eq] at hdim
        exact hk (Option.some.inj hdim)
  · have hlength : ∀ j, (upTo j dims).length = dims.length := fun j => List.length_map ..
    rw [List.getElem?_eq_none (by rw [length_assign, hlength]; omega),
      List.getElem?_eq_none (by rw [hlength]; omega)]

/-- The loop of the decoder over what the encoder has written. -/
theorem foldlM_annotation (dims shape : List ℤ) (k : ℕ) :
    (((shape.zipIdx k).map fun (entry : ℤ × ℕ) => (⟨entry.1,
        (dims.zipIdx.filter fun shardDim => shardDim.1 = (entry.2 : ℤ)).map
          fun shardDim => (shardDim.2 : ℤ)⟩ : TensorMeshShardingAxisAttr)).zipIdx k).foldlM
      (fun shardDims (axis, dim) => axis.axes.foldlM (setShardDim · dim ·) shardDims)
      (upTo k dims) = some (upTo (k + shape.length) dims) := by
  induction shape generalizing k with
  | nil => rfl
  | cons s shape ih =>
    have hstep : ((dims.zipIdx.filter fun shardDim => shardDim.1 = (k : ℤ)).map
        fun shardDim => (shardDim.2 : ℤ)).foldlM (setShardDim · k ·) (upTo k dims) =
          some (upTo (k + 1) dims) := by
      rw [map_filter_zipIdx, foldlM_setShardDim, assign_upTo]
      intro p hp
      rw [upTo, List.length_map]
      exact List.mem_range.mp (List.mem_filter.mp hp).1
    rw [List.zipIdx_cons, List.map_cons, List.zipIdx_cons, List.foldlM_cons]
    simp only
    rw [hstep, Option.bind_eq_bind, Option.bind_some, List.length_cons,
      show k + (shape.length + 1) = k + 1 + shape.length by omega]
    exact ih (k + 1)

/-- **What is encoded for `devices` is decoded.** -/
theorem roundTrip_of_devices {meshName : String} {mesh : SdyMeshAttr}
    (hmesh : mesh.axes ≠ []) (htype : sharding.shardType = .devices)
    (hshape : sharding.meshShape = mesh.axes.map MeshAxisAttr.size)
    (hlength : sharding.shardDims.length = mesh.axes.length)
    (hdims : ∀ v ∈ sharding.shardDims, -1 ≤ v ∧ v < sharding.shardShape.length) :
    roundTrip meshName mesh sharding = some { sharding with
      deviceIds := [-1], lastTileDimReplicate := false } := by
  have hne : sharding.meshShape ≠ [] := by
    rw [hshape]
    simpa using hmesh
  rw [roundTrip, getTensorMeshShardingAttr, if_neg hne, if_neg (by simp [htype])]
  show extractMeshShardingFromTensorMeshShardingAttr _ _ = _
  have hstart : (mesh.axes.map MeshAxisAttr.size).map (fun _ => (-1 : ℤ)) =
      upTo 0 sharding.shardDims := by
    rw [upTo, List.map_map]
    apply List.ext_getElem
    · simp [hlength]
    · intro p hp hp'
      have hv := hdims _ (List.getElem_mem (by simpa using hp'))
      rw [List.getElem_map, List.getElem_map]
      split_ifs with hlt
      · show (-1 : ℤ) = _
        have := hv.1
        push_cast at hlt
        omega
      · rfl
  have hend : upTo (0 + sharding.shardShape.length) sharding.shardDims = sharding.shardDims := by
    rw [upTo]
    refine (List.map_congr_left fun v hv => ?_).trans (List.map_id _)
    rw [if_pos (by rw [Nat.zero_add]; exact (hdims v hv).2)]
    rfl
  rw [extractMeshShardingFromTensorMeshShardingAttr]
  have hfold := foldlM_annotation sharding.shardDims sharding.shardShape 0
  rw [hend, ← hstart] at hfold
  have hshapes : ∀ (shape : List ℤ) (k : ℕ), ((shape.zipIdx k).map fun (entry : ℤ × ℕ) =>
      (⟨entry.1, (sharding.shardDims.zipIdx.filter fun shardDim => shardDim.1 = (entry.2 : ℤ)).map
        fun shardDim => (shardDim.2 : ℤ)⟩ : TensorMeshShardingAxisAttr)).map
          TensorMeshShardingAxisAttr.shardShape = shape := by
    intro shape k
    rw [List.map_map]
    exact List.zipIdx_map_fst ..
  simp only [moduleMesh]
  rw [hfold, Option.bind_eq_bind, Option.bind_some, hshapes, ← hshape, ← htype]

end Annotation

/-! ## The order of the axes -/

section Order

variable {S : ℕ → ℕ} {l l' : List ℕ}

/-- How far one step along an axis goes: the number of places of the axes behind it. -/
def weight (S : ℕ → ℕ) : List ℕ → ℕ → ℕ
  | [], _ => 0
  | q :: l, p => if q = p then (l.map S).prod else weight S l p

/-- The device that is one step along an axis. -/
def oneStep (p q : ℕ) : ℕ := if q = p then 1 else 0

theorem weight_of_notMem {p : ℕ} (h : p ∉ l) : weight S l p = 0 := by
  induction l with
  | nil => rfl
  | cons q l ih =>
    rw [List.mem_cons, not_or] at h
    rw [weight, if_neg fun heq => h.1 heq.symm, ih h.2]

/-- The place of the device that is one step along an axis. -/
theorem rowMajor_oneStep (hnodup : l.Nodup) (p : ℕ) :
    rowMajor (l.map S) (l.map (oneStep p)) = weight S l p := by
  induction l with
  | nil => rfl
  | cons q l ih =>
    obtain ⟨hq, hl⟩ := List.nodup_cons.mp hnodup
    show oneStep p q * (l.map S).prod + rowMajor (l.map S) (l.map (oneStep p)) = _
    rw [ih hl, weight, oneStep]
    by_cases hqp : q = p
    · rw [if_pos hqp, if_pos hqp, weight_of_notMem (by rw [← hqp]; exact hq)]
      omega
    · rw [if_neg hqp, if_neg hqp]
      omega

theorem weight_lt (hS : ∀ q ∈ l, 1 < S q) (p : ℕ) : weight S l p < (l.map S).prod := by
  induction l with
  | nil => simp [weight]
  | cons q l ih =>
    have hlt := ih fun r hr => hS r (List.mem_cons_of_mem _ hr)
    have hq := hS q (by simp)
    have hmul : (l.map S).prod < S q * (l.map S).prod := lt_mul_of_one_lt_left (by omega) hq
    rw [weight, List.map_cons, List.prod_cons]
    split_ifs <;> omega

/-- The weights decrease along the list. -/
theorem pairwise_weight (hnodup : l.Nodup) (hS : ∀ q ∈ l, 1 < S q) :
    l.Pairwise fun p q => weight S l q < weight S l p := by
  induction l with
  | nil => exact .nil
  | cons q l ih =>
    obtain ⟨hq, hl⟩ := List.nodup_cons.mp hnodup
    have hS' : ∀ r ∈ l, 1 < S r := fun r hr => hS r (List.mem_cons_of_mem _ hr)
    have htail : ∀ r ∈ l, weight S (q :: l) r = weight S l r := fun r hr => by
      rw [weight, if_neg fun heq => hq (by rw [heq]; exact hr)]
    refine List.pairwise_cons.mpr ⟨fun r hr => ?_, ?_⟩
    · rw [htail r hr, weight, if_pos rfl]
      exact weight_lt hS' r
    · refine (ih hl hS').imp_of_mem fun hp hr h => ?_
      rw [htail _ hp, htail _ hr]
      exact h

/-- **The places of the devices determine the order of the axes.** -/
theorem order_of_rowMajor_eq (hnodup : l.Nodup) (hnodup' : l'.Nodup) (hmem : ∀ p, p ∈ l ↔ p ∈ l')
    (hS : ∀ p ∈ l, 1 < S p)
    (h : ∀ p ∈ l, rowMajor (l.map S) (l.map (oneStep p)) =
      rowMajor (l'.map S) (l'.map (oneStep p))) : l = l' := by
  have hweight : ∀ p ∈ l, weight S l p = weight S l' p := fun p hp => by
    rw [← rowMajor_oneStep hnodup, ← rowMajor_oneStep hnodup', h p hp]
  have hdecr' : l'.Pairwise fun p q => weight S l q < weight S l p := by
    refine (pairwise_weight hnodup' fun p hp => hS p ((hmem p).mpr hp)).imp_of_mem
      fun hp hq hlt => ?_
    rw [hweight _ ((hmem _).mpr hp), hweight _ ((hmem _).mpr hq)]
    exact hlt
  exact ((List.perm_ext_iff_of_nodup hnodup hnodup').mpr hmem).eq_of_pairwise
    (fun _ _ _ _ hab hba => absurd hab (by omega)) (pairwise_weight hnodup hS) hdecr'

end Order

/-! ## The slices of a mesh sharding -/

section Slices

variable {sizes : List ℕ} {dims : List ℤ}

/-- The mesh dimensions that cut a tensor dimension. -/
def axesOf (dims : List ℤ) (x : ℕ) : List ℕ :=
  (List.range dims.length).filter fun p => dims[p]? = some (x : ℤ)

/-- The place of a device along these, taken by position. -/
theorem meshIndex_eq (hlength : dims.length = sizes.length) {d : ℕ} (hd : d < sizes.prod) (x : ℕ) :
    meshIndex sizes dims d x = rowMajor ((axesOf dims x).map fun p => sizes.getD p 1)
        ((axesOf dims x).map fun p => (unravel sizes d).getD p 0) := by
  have hcoords : (unravel sizes d).length = sizes.length := (inShape_unravel sizes d hd).length_eq
  have hzip : sizes.zip ((unravel sizes d).zip dims) = (List.range dims.length).map fun p =>
      (sizes.getD p 1, (unravel sizes d).getD p 0, dims.getD p 0) := by
    apply List.ext_getElem
    · simp [hcoords, hlength]
    · intro p hp hp'
      have hlt : p < dims.length := by simpa using hp'
      have hlt₁ : p < sizes.length := by omega
      have hlt₂ : p < (unravel sizes d).length := by omega
      simp [List.getD_eq_getElem?_getD, hlt, hlt₁]
  have hfilter : ((sizes.zip ((unravel sizes d).zip dims)).filter fun axis =>
      axis.2.2 = (x : ℤ)) = (axesOf dims x).map fun p =>
        (sizes.getD p 1, (unravel sizes d).getD p 0, dims.getD p 0) := by
    rw [hzip, List.filter_map, axesOf]
    refine congrArg _ (List.filter_congr fun p hp => ?_)
    have hlt : p < dims.length := List.mem_range.mp hp
    simp [List.getD_eq_getElem?_getD, List.getElem?_eq_getElem hlt]
  rw [meshIndex, hfilter, List.map_map, List.map_map]
  rfl

end Slices

/-! ## When nothing is lost -/

section Result

variable {mesh : SdyMeshAttr} {sdySharding : TensorShardingAttr}

theorem name_of_position (h : mesh.position axis < mesh.axes.length) :
    mesh.axes[mesh.position axis].name = axis.name :=
  of_decide_eq_true (List.findIdx_getElem (w := h))

theorem name_eq_of_position_eq {axis axis' : AxisRefAttr}
    (h : mesh.position axis < mesh.axes.length) (heq : mesh.position axis = mesh.position axis') :
    axis.name = axis'.name := by
  rw [← name_of_position h, ← name_of_position (heq ▸ h)]
  exact congrArg MeshAxisAttr.name (by simp only [heq])

theorem map_name_refs (dims : List DimensionShardingAttr) (k : ℕ) :
    (refs dims k).map (fun ref => ref.2.name) =
      dims.flatMap fun dim => dim.axes.map AxisRefAttr.name := by
  induction dims generalizing k with
  | nil => rfl
  | cons dim dims ih =>
    rw [refs, List.map_append, ih, List.flatMap_cons, List.map_map]
    rfl

/-- A mesh dimension and the tensor dimension it is set to. -/
theorem mem_sets {p : ℕ} {v : ℤ} : (p, v) ∈ sets mesh (refs sdySharding.dimShardings 0) ↔
    ∃ (x : ℕ) (dim : DimensionShardingAttr), sdySharding.dimShardings[x]? = some dim ∧ v = x ∧
      ∃ axis ∈ dim.axes, 1 < mesh.axisSize axis ∧ mesh.position axis = p := by
  rw [sets, List.mem_map]
  constructor
  · rintro ⟨⟨i, axis⟩, hmem, heq⟩
    obtain ⟨hrefs, hsize⟩ := List.mem_filter.mp hmem
    obtain ⟨x, dim, hdim, hi, haxis⟩ := mem_refs.mp hrefs
    obtain rfl : i = x := by omega
    exact ⟨i, dim, hdim, (congrArg Prod.snd heq).symm, axis, haxis, of_decide_eq_true hsize,
      congrArg Prod.fst heq⟩
  · rintro ⟨x, dim, hdim, rfl, axis, haxis, hsize, rfl⟩
    exact ⟨(x, axis), List.mem_filter.mpr
      ⟨mem_refs.mpr ⟨x, dim, hdim, by omega, haxis⟩, decide_eq_true hsize⟩, rfl⟩

/-- An axis used once sets its mesh dimension once. -/
theorem eq_of_mem_sets (hwf : Wellformed mesh sdySharding)
    (hlt : ∀ ref ∈ refs sdySharding.dimShardings 0, mesh.position ref.2 < mesh.axes.length)
    {p : ℕ} {v w : ℤ} (hv : (p, v) ∈ sets mesh (refs sdySharding.dimShardings 0))
    (hw : (p, w) ∈ sets mesh (refs sdySharding.dimShardings 0)) : v = w := by
  obtain ⟨ref, href, heq⟩ := List.mem_map.mp hv
  obtain ⟨ref', href', heq'⟩ := List.mem_map.mp hw
  have hmem := (List.mem_filter.mp href).1
  have hmem' := (List.mem_filter.mp href').1
  have hnames : ((refs sdySharding.dimShardings 0).map fun ref => ref.2.name).Nodup := by
    rw [map_name_refs]
    exact hwf.usedOnce
  have hposition : mesh.position ref.2 = mesh.position ref'.2 :=
    (congrArg Prod.fst heq).trans (congrArg Prod.fst heq').symm
  have hrefs : ref = ref' := List.inj_on_of_nodup_map hnames hmem hmem'
    (name_eq_of_position_eq (hlt ref hmem) hposition)
  subst hrefs
  exact (congrArg Prod.snd heq).symm.trans (congrArg Prod.snd heq')

theorem length_shardDimsOf : (shardDimsOf mesh sdySharding).length = mesh.axes.length := by
  rw [shardDimsOf, length_assign, List.length_map]

section

variable (hwf : Wellformed mesh sdySharding)
  (hlt : ∀ ref ∈ refs sdySharding.dimShardings 0, mesh.position ref.2 < mesh.axes.length)

include hwf hlt

/-- **A mesh dimension cuts a tensor dimension** that lists its axis, if it has more than one
device. -/
theorem getElem?_shardDimsOf (p x : ℕ) : (shardDimsOf mesh sdySharding)[p]? = some (x : ℤ) ↔
      (p, (x : ℤ)) ∈ sets mesh (refs sdySharding.dimShardings 0) := by
  constructor
  · intro h
    by_contra hnot
    by_cases hsome : ∃ v, (p, v) ∈ sets mesh (refs sdySharding.dimShardings 0)
    · obtain ⟨v, hv⟩ := hsome
      have hp : p < (mesh.axes.map fun _ => (-1 : ℤ)).length := by
        have hlength := (List.getElem?_eq_some_iff.mp h).1
        rwa [shardDimsOf, length_assign] at hlength
      rw [shardDimsOf, getElem?_assign_of_mem hp hv fun w hw => eq_of_mem_sets hwf hlt hw hv] at h
      rw [Option.some.inj h] at hv
      exact hnot hv
    · push Not at hsome
      rw [shardDimsOf, getElem?_assign_of_notMem hsome, List.getElem?_map] at h
      obtain ⟨axis, -, heq⟩ := Option.map_eq_some_iff.mp h
      omega
  · intro h
    obtain ⟨x', dim, hdim, hx, axis, haxis, -, rfl⟩ := mem_sets.mp h
    have hp := hlt (x', axis) (mem_refs.mpr ⟨x', dim, hdim, by omega, haxis⟩)
    exact getElem?_assign_of_mem (by simpa using hp) h fun w hw => eq_of_mem_sets hwf hlt hw h

/-- The shard dims are tensor dimensions, or `-1`. -/
theorem bounds_of_mem_shardDimsOf {v : ℤ} (hv : v ∈ shardDimsOf mesh sdySharding) :
    -1 ≤ v ∧ v < sdySharding.dimShardings.length := by
  obtain ⟨p, hp⟩ := List.getElem?_of_mem hv
  by_cases hsome : ∃ w, (p, w) ∈ sets mesh (refs sdySharding.dimShardings 0)
  · obtain ⟨w, hw⟩ := hsome
    have hp' : p < (mesh.axes.map fun _ => (-1 : ℤ)).length := by
      have hlength := (List.getElem?_eq_some_iff.mp hp).1
      rwa [shardDimsOf, length_assign] at hlength
    rw [shardDimsOf, getElem?_assign_of_mem hp' hw
      fun w' hw' => eq_of_mem_sets hwf hlt hw' hw] at hp
    obtain rfl := Option.some.inj hp
    obtain ⟨x, dim, hdim, rfl, -⟩ := mem_sets.mp hw
    have := (List.getElem?_eq_some_iff.mp hdim).1
    omega
  · push Not at hsome
    rw [shardDimsOf, getElem?_assign_of_notMem hsome, List.getElem?_map] at hp
    obtain ⟨axis, -, heq⟩ := Option.map_eq_some_iff.mp hp
    omega

end

theorem axisSize_pos (hwf : Wellformed mesh sdySharding) (axis : AxisRefAttr) :
    1 ≤ mesh.axisSize axis := by
  rw [SdyMeshAttr.axisSize, SdyMeshAttr.sizes, List.getD_eq_getElem?_getD, List.getElem?_map]
  cases h : mesh.axes[mesh.position axis]? with
  | none => exact Nat.le_refl 1
  | some meshAxis =>
    have hsize := hwf.sizes meshAxis (List.mem_of_getElem? h)
    show 1 ≤ meshAxis.size.toNat
    omega

theorem prod_eq_one_iff {l : List ℕ} : l.prod = 1 ↔ ∀ n ∈ l, n = 1 :=
  ⟨fun h _ hn => Nat.dvd_one.mp (h ▸ List.dvd_prod hn), List.prod_eq_one⟩

/-- The tensor is in one piece when no dimension is cut. -/
theorem totalPartition_eq_one_iff (hwf : Wellformed mesh sdySharding) :
    (sdySharding.dimShardings.map fun dim =>
      (((dim.axes.map mesh.axisSize).prod : ℕ) : ℤ)).foldl (· * ·) 1 = 1 ↔
        ¬ Cut mesh sdySharding := by
  have hcast : (sdySharding.dimShardings.map fun dim =>
      (((dim.axes.map mesh.axisSize).prod : ℕ) : ℤ)).foldl (· * ·) 1 =
        (((sdySharding.dimShardings.map fun dim =>
          (dim.axes.map mesh.axisSize).prod).prod : ℕ) : ℤ) := by
    rw [← List.prod_eq_foldl, Nat.cast_list_prod, List.map_map]
    rfl
  rw [hcast, Nat.cast_eq_one, prod_eq_one_iff]
  constructor
  · rintro h ⟨dim, hdim, axis, haxis, hsize⟩
    have hone := prod_eq_one_iff.mp (h _ (List.mem_map.mpr ⟨dim, hdim, rfl⟩)) _
      (List.mem_map.mpr ⟨axis, haxis, rfl⟩)
    omega
  · intro h n hn
    obtain ⟨dim, hdim, rfl⟩ := List.mem_map.mp hn
    refine prod_eq_one_iff.mpr fun k hk => ?_
    obtain ⟨axis, haxis, rfl⟩ := List.mem_map.mp hk
    have hpos := axisSize_pos hwf axis
    by_contra hne
    exact h ⟨dim, hdim, axis, haxis, by omega⟩

/-- The places in the mesh of the axes a dimension lists, those of one device left out. -/
def listed (mesh : SdyMeshAttr) (dim : DimensionShardingAttr) : List ℕ :=
  (dim.axes.filter fun axis => 1 < mesh.axisSize axis).map mesh.position

/-- **The place of a device** in the sense of Shardy depends on these only. -/
theorem place_eq (hwf : Wellformed mesh sdySharding) {d : ℕ} (hd : d < mesh.sizes.prod)
    (dim : DimensionShardingAttr) :
    rowMajor (dim.axes.map mesh.axisSize)
        (dim.axes.map fun axis => (unravel mesh.sizes d).getD (mesh.position axis) 0) =
      rowMajor ((listed mesh dim).map fun p => mesh.sizes.getD p 1)
        ((listed mesh dim).map fun p => (unravel mesh.sizes d).getD p 0) := by
  have hone : ∀ axis ∈ dim.axes, ¬ 1 < mesh.axisSize axis →
      mesh.axisSize axis = 1 ∧ (unravel mesh.sizes d).getD (mesh.position axis) 0 = 0 := by
    intro axis _ hsize
    have hpos := axisSize_pos hwf axis
    have hsize1 : mesh.axisSize axis = 1 := by omega
    refine ⟨hsize1, ?_⟩
    have hshape := inShape_unravel mesh.sizes d hd
    by_cases hlt : mesh.position axis < mesh.sizes.length
    · have hcoord := getD_lt_of_inShape hshape hlt
      rw [SdyMeshAttr.axisSize, List.getD_eq_getElem _ _ hlt] at hsize1
      rw [List.getD_eq_getElem mesh.sizes 0 hlt, hsize1] at hcoord
      omega
    · exact List.getD_eq_default _ _ (by rw [hshape.length_eq]; omega)
  rw [← (rowMajor_filter _ dim.axes mesh.axisSize _ hone).1, listed, List.map_map, List.map_map]
  rfl

variable (hwf : Wellformed mesh sdySharding)
  (hlt : ∀ ref ∈ refs sdySharding.dimShardings 0, mesh.position ref.2 < mesh.axes.length)

variable {dim : DimensionShardingAttr}

include hlt in
theorem position_lt {x : ℕ} (hdim : sdySharding.dimShardings[x]? = some dim)
    (haxis : axis ∈ dim.axes) : mesh.position axis < mesh.axes.length :=
  hlt (x, axis) (mem_refs.mpr ⟨x, dim, hdim, by omega, haxis⟩)

include hwf hlt

section

variable {x : ℕ} (hdim : sdySharding.dimShardings[x]? = some dim)

include hdim

theorem nodup_listed : (listed mesh dim).Nodup := by
  have hnames : (dim.axes.map AxisRefAttr.name).Nodup :=
    (List.nodup_flatMap.mp hwf.usedOnce).1 dim (List.mem_of_getElem? hdim)
  have hnodup : (dim.axes.map mesh.position).Nodup := by
    refine List.Nodup.map_on (fun axis haxis axis' haxis' heq => ?_) (List.Nodup.of_map _ hnames)
    exact List.inj_on_of_nodup_map hnames haxis haxis'
      (name_eq_of_position_eq (position_lt hlt hdim haxis) heq)
  exact hnodup.sublist (List.filter_sublist.map _)

/-- The mesh dimensions that cut a dimension are those it lists. -/
theorem mem_axesOf_iff (p : ℕ) :
    p ∈ axesOf (shardDimsOf mesh sdySharding) x ↔ p ∈ listed mesh dim := by
  have hiff := getElem?_shardDimsOf hwf hlt p x
  rw [axesOf, List.mem_filter, decide_eq_true_eq, List.mem_range, listed, List.mem_map]
  constructor
  · rintro ⟨-, hp⟩
    obtain ⟨x', dim', hdim', hx, axis, haxis, hsize, rfl⟩ := mem_sets.mp (hiff.mp hp)
    obtain rfl : x = x' := by omega
    obtain rfl := Option.some.inj (hdim.symm.trans hdim')
    exact ⟨axis, List.mem_filter.mpr ⟨haxis, decide_eq_true hsize⟩, rfl⟩
  · rintro ⟨axis, hmem, rfl⟩
    obtain ⟨haxis, hsize⟩ := List.mem_filter.mp hmem
    refine ⟨by rw [length_shardDimsOf]; exact position_lt hlt hdim haxis, hiff.mpr ?_⟩
    exact mem_sets.mpr ⟨x, dim, hdim, rfl, axis, haxis, of_decide_eq_true hsize, rfl⟩

/-- **The order of one dimension**: its axes are taken in the order of the mesh exactly when every
device has the place Shardy gives it. -/
theorem places_iff :
    (∀ d < mesh.sizes.prod, meshIndex mesh.sizes (shardDimsOf mesh sdySharding) d x =
        rowMajor (dim.axes.map mesh.axisSize)
          (dim.axes.map fun axis => (unravel mesh.sizes d).getD (mesh.position axis) 0)) ↔
      (listed mesh dim).Pairwise (· < ·) := by
  have hlength : (shardDimsOf mesh sdySharding).length = mesh.sizes.length := by
    rw [length_shardDimsOf, SdyMeshAttr.sizes, List.length_map]
  have hsorted : (axesOf (shardDimsOf mesh sdySharding) x).Pairwise (· < ·) :=
    List.pairwise_lt_range.filter _
  have hnodup : (axesOf (shardDimsOf mesh sdySharding) x).Nodup := hsorted.imp Nat.ne_of_lt
  have hmem := mem_axesOf_iff hwf hlt hdim
  have hlisted := nodup_listed hwf hlt hdim
  constructor
  · intro h
    -- the devices one step along an axis tell the order of the axes
    have hS : ∀ p ∈ axesOf (shardDimsOf mesh sdySharding) x, 1 < mesh.sizes.getD p 1 := by
      intro p hp
      obtain ⟨axis, hmem', rfl⟩ := List.mem_map.mp ((hmem p).mp hp)
      exact of_decide_eq_true (List.mem_filter.mp hmem').2
    have hbound : ∀ p ∈ axesOf (shardDimsOf mesh sdySharding) x, p < mesh.sizes.length := by
      intro p hp
      rw [← hlength]
      exact List.mem_range.mp (List.mem_filter.mp hp).1
    rw [← order_of_rowMajor_eq hnodup hlisted hmem hS ?_]
    · exact hsorted
    · intro p hp
      have hstep : InShape ((List.range mesh.sizes.length).map (oneStep p)) mesh.sizes := by
        refine List.forall₂_iff_get.mpr ⟨by simp, fun i hi hi' => ?_⟩
        have hsize : 1 ≤ mesh.sizes[i] := by
          have hmem' := List.getElem_mem hi'
          obtain ⟨axis, haxis, heq⟩ := List.mem_map.mp hmem'
          have := hwf.sizes axis haxis
          omega
        have hone := hS p hp
        simp only [List.get_eq_getElem, List.getElem_map, List.getElem_range, oneStep]
        split_ifs with hip
        · subst hip
          rwa [List.getD_eq_getElem _ _ hi'] at hone
        · exact hsize
      have hplace := h _ (rowMajor_lt hstep)
      rw [meshIndex_eq hlength (rowMajor_lt hstep), place_eq hwf (rowMajor_lt hstep),
        unravel_rowMajor hstep] at hplace
      have hcoords : ∀ l : List ℕ, (∀ q ∈ l, q < mesh.sizes.length) →
          (l.map fun q => ((List.range mesh.sizes.length).map (oneStep p)).getD q 0) =
            l.map (oneStep p) := by
        intro l hl
        refine List.map_congr_left fun q hq => ?_
        rw [List.getD_eq_getElem _ _ (by simpa using hl q hq), List.getElem_map, List.getElem_range]
      rwa [hcoords _ hbound, hcoords _ fun q hq => hbound q ((hmem q).mpr hq)] at hplace
  · intro h d hd
    have heq : axesOf (shardDimsOf mesh sdySharding) x = listed mesh dim :=
      ((List.perm_ext_iff_of_nodup hnodup hlisted).mpr hmem).eq_of_pairwise
        (fun _ _ _ _ hab hba => absurd hab (by omega)) hsorted h
    rw [meshIndex_eq hlength hd, heq, place_eq hwf hd]

end

/-- The slices of the conversion are those of Shardy when the axes are listed in the order of the
mesh. -/
theorem slices_iff (hids : mesh.deviceIds = []) :
    (∀ d < mesh.sizes.prod, (devicesSharding mesh sdySharding).slice d =
        some (sdySharding.slice mesh d)) ↔ InMeshOrder mesh sdySharding := by
  have hplace : ∀ d, mesh.place d = d := fun d => if_pos hids
  simp only [TensorShardingAttr.slice, hplace]
  have hsizes : (devicesSharding mesh sdySharding).meshShape.map Int.toNat = mesh.sizes := by
    rw [devicesSharding, List.map_map]
    rfl
  have hcounts : (devicesSharding mesh sdySharding).shardShape.map Int.toNat =
      sdySharding.dimShardings.map fun dim => (dim.axes.map mesh.axisSize).prod := by
    rw [devicesSharding, List.map_map]
    exact List.map_congr_left fun dim _ => Int.toNat_natCast _
  have hslice : ∀ d < mesh.sizes.prod, (devicesSharding mesh sdySharding).slice d = some (.tile
      (sdySharding.dimShardings.map fun dim => (dim.axes.map mesh.axisSize).prod)
      ((List.range sdySharding.dimShardings.length).map
        (meshIndex mesh.sizes (shardDimsOf mesh sdySharding) d))) := by
    intro d hd
    have hlength : (devicesSharding mesh sdySharding).shardShape.length =
        sdySharding.dimShardings.length := List.length_map ..
    show (if d < ((devicesSharding mesh sdySharding).meshShape.map Int.toNat).prod then _
      else _) = _
    rw [hsizes, if_pos hd, hcounts, hlength]
    rfl
  have hplaces := fun (x : ℕ) (dim : DimensionShardingAttr)
    (hdim : sdySharding.dimShardings[x]? = some dim) => places_iff hwf hlt hdim
  constructor
  · intro h dim hmem
    obtain ⟨x, hdim⟩ := List.getElem?_of_mem hmem
    refine (hplaces x dim hdim).mp fun d hd => ?_
    have heq := h d hd
    rw [hslice d hd] at heq
    have hindex := (Slice.tile.inj (Option.some.inj heq)).2
    have hget := congrArg (fun l : List ℕ => l[x]?) hindex
    have hx := (List.getElem?_eq_some_iff.mp hdim).1
    simp only [List.getElem?_map, List.getElem?_range hx, hdim, Option.map_some,
      Option.some.injEq] at hget
    exact hget
  · intro h d hd
    rw [hslice d hd]
    refine congrArg some (congrArg (Slice.tile _) ?_)
    apply List.ext_getElem?
    intro x
    rw [List.getElem?_map, List.getElem?_map]
    cases hdim : sdySharding.dimShardings[x]? with
    | none =>
      have hx := List.getElem?_eq_none_iff.mp hdim
      rw [List.getElem?_eq_none (by simpa using hx)]
      rfl
    | some dim =>
      have hx := (List.getElem?_eq_some_iff.mp hdim).1
      rw [List.getElem?_range hx]
      exact congrArg some ((hplaces x dim hdim).mpr (h dim (List.mem_of_getElem? hdim)) d hd)

end Result

/-- What is read from an annotation is always of the type `devices`. -/
theorem shardType_of_roundTrip {meshName : String} {mesh : SdyMeshAttr}
    {sharding back : MeshSharding} (h : roundTrip meshName mesh sharding = some back) :
    back.shardType = .devices := by
  obtain ⟨attr, -, hback⟩ := Option.bind_eq_some_iff.mp h
  rw [extractMeshShardingFromTensorMeshShardingAttr] at hback
  obtain ⟨dims, -, hdims⟩ := Option.bind_eq_some_iff.mp hback
  rw [← Option.some.inj hdims]

/-- **Nothing is lost** when some dimension is cut, the dimensions list their axes in the order of
the mesh, and the mesh does not list its devices; without such a list only then.  The fields alone
need the first. -/
theorem preserved_iff_ordered {mesh : SdyMeshAttr} {sdySharding : TensorShardingAttr}
    {sharding : MeshSharding} (meshName : String) (hwf : Wellformed mesh sdySharding)
    (h : convertSdyShardingToMeshSharding sdySharding mesh = .ok sharding) :
    (FieldsKept meshName mesh sharding ↔ Cut mesh sdySharding) ∧
      (Cut mesh sdySharding ∧ InMeshOrder mesh sdySharding ∧ mesh.deviceIds = [] →
        Preserved meshName mesh sdySharding sharding) ∧
      (Preserved meshName mesh sdySharding sharding →
        Cut mesh sdySharding ∧ (InMeshOrder mesh sdySharding ∨ mesh.deviceIds ≠ [])) := by
  -- a sharding of another type than `devices` does not come back
  have hother : sharding.shardType ≠ .devices → ¬ Cut mesh sdySharding →
      (FieldsKept meshName mesh sharding ↔ Cut mesh sdySharding) ∧
        (Cut mesh sdySharding ∧ InMeshOrder mesh sdySharding ∧ mesh.deviceIds = [] →
          Preserved meshName mesh sdySharding sharding) ∧
        (Preserved meshName mesh sdySharding sharding →
          Cut mesh sdySharding ∧ (InMeshOrder mesh sdySharding ∨ mesh.deviceIds ≠ [])) := by
    intro htype hcut
    have hnot : ∀ back, roundTrip meshName mesh sharding = some back →
        ¬ SameFields sharding back := fun back hback hsame =>
      htype (hsame.shardType.symm.trans (shardType_of_roundTrip hback))
    refine ⟨iff_of_false ?_ hcut, fun h => absurd h.1 hcut, ?_⟩
    · rintro ⟨back, hback, hsame⟩
      exact hnot back hback hsame
    · rintro ⟨back, hback, hsame, -⟩
      exact absurd hsame (hnot back hback)
  have hnoAxes : mesh.axes = [] → ¬ Cut mesh sdySharding := by
    rintro haxes ⟨dim, -, axis, -, hsize⟩
    rw [SdyMeshAttr.axisSize, SdyMeshAttr.sizes, haxes] at hsize
    exact absurd hsize (by simp)
  rw [convertSdyShardingToMeshSharding] at h
  split_ifs at h with hempty haxes
  · rw [← Except.ok.inj h] at hother ⊢
    exact hother (by simp) (hnoAxes hempty.1)
  · rw [← Except.ok.inj h] at hother ⊢
    exact hother (by simp [setNonDevicesShardType]) (hnoAxes haxes)
  · obtain ⟨parsed, hparsed, h⟩ := bind_eq_ok.mp h
    obtain ⟨hlt, hspec⟩ := parseSdySharding_spec hwf.sizes hparsed
    have htotal := totalPartition_eq_one_iff hwf
    simp only at h
    rw [hspec] at h
    split_ifs at h with hone
    · rw [← Except.ok.inj h] at hother ⊢
      exact hother (by simp [setNonDevicesShardType]) (htotal.mp hone)
    · obtain rfl := Except.ok.inj h
      have hcut : Cut mesh sdySharding := not_not.mp fun hnot => hone (htotal.mpr hnot)
      have hback : roundTrip meshName mesh (devicesSharding mesh sdySharding) =
          some (devicesSharding mesh sdySharding) :=
        roundTrip_of_devices haxes rfl rfl length_shardDimsOf fun v hv => by
          rw [devicesSharding, List.length_map]
          exact bounds_of_mem_shardDimsOf hwf hlt hv
      have hslices := slices_iff hwf hlt
      refine ⟨iff_of_true ⟨_, hback, rfl, rfl, rfl, rfl⟩ hcut, ?_, ?_⟩
      · rintro ⟨-, horder, hids⟩
        exact ⟨_, hback, ⟨rfl, rfl, rfl, rfl⟩, fun d hd =>
          ⟨(hslices hids).mpr horder d hd, (hslices hids).mpr horder d hd⟩⟩
      · rintro ⟨back, -, -, hgives⟩
        refine ⟨hcut, ?_⟩
        by_cases hids : mesh.deviceIds = []
        · exact .inl ((hslices hids).mp fun d hd => (hgives d hd).1)
        · exact .inr hids

/-- A mesh of two by four devices. -/
def twoByFour : SdyMeshAttr where
  axes := [⟨"x", 2⟩, ⟨"y", 4⟩]

/-- A tensor cut along both axes of the mesh, in its order. -/
def cutAlongBoth : TensorShardingAttr := ⟨"mesh", [⟨[⟨"x", none⟩, ⟨"y", none⟩], true⟩]⟩

/-- Nothing of it is lost. -/
theorem cutAlongBoth_preserved :
    Preserved "mesh" twoByFour cutAlongBoth (devicesSharding twoByFour cutAlongBoth) :=
  (preserved_iff_ordered "mesh" ⟨by decide, by decide, by decide⟩ rfl).2.1
    ⟨⟨_, List.mem_singleton.mpr rfl, ⟨"x", none⟩, by decide, by decide⟩, by decide, rfl⟩

/-- A tensor of one dimension that no axis cuts. -/
def notCut : TensorShardingAttr := ⟨"mesh", [⟨[], true⟩]⟩

/-- A tensor cut along both axes, the second one first. -/
def cutAcross : TensorShardingAttr := ⟨"mesh", [⟨[⟨"y", none⟩, ⟨"x", none⟩], true⟩]⟩

/-- Two devices, the second one first. -/
def swapped : SdyMeshAttr := ⟨[⟨"x", 2⟩], [1, 0]⟩

/-- A tensor cut along their axis. -/
def cutAlongX : TensorShardingAttr := ⟨"mesh", [⟨[⟨"x", none⟩], true⟩]⟩

/-- A replicated tensor comes back as one of the type `devices`, and the orders of two axes and of
two devices are lost. -/
theorem replicated_not_preserved :
    (∃ sharding, convertSdyShardingToMeshSharding notCut twoByFour = .ok sharding ∧
      ¬ FieldsKept "mesh" twoByFour sharding) ∧
    (∃ sharding, convertSdyShardingToMeshSharding cutAcross twoByFour = .ok sharding ∧
      ¬ Preserved "mesh" twoByFour cutAcross sharding) ∧
    ∃ sharding, convertSdyShardingToMeshSharding cutAlongX swapped = .ok sharding ∧
      ¬ Preserved "mesh" swapped cutAlongX sharding := by
  refine ⟨⟨_, rfl, ?_⟩, ⟨_, rfl, ?_⟩, ⟨_, rfl, ?_⟩⟩
  · rintro ⟨back, hback, hsame⟩
    have htype := hsame.shardType
    rw [shardType_of_roundTrip hback] at htype
    exact absurd htype (by decide)
  · rintro ⟨back, -, -, hgives⟩
    exact absurd (hgives 1 (by decide)).1 (by decide)
  · rintro ⟨back, -, -, hgives⟩
    exact absurd (hgives 0 (by decide)).1 (by decide)

end ShardyToTTIR
