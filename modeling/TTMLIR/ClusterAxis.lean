/-
# The cluster axis of a collective

The StableHLO collectives name the devices that take part together, the replica groups; those of
TTIR name an axis of the mesh.  `determineClusterAxis` of `StableHLOToTTIRPatterns.cpp` finds the
axis from the first two devices of the first group.

* `determineClusterAxis`, `getReduceType`, `Collective.convert` : the conversions;
* `Mesh.line` : the devices that differ only in one coordinate;
* `Agrees` : the groups are the lines along an axis;
* `Collective.agreesOrFails_iff` : when the axis that is found is that of the groups.

The other groups, and the mesh, are never looked at.
-/
import TTMLIR.Fallible
import TTMLIR.UnitExtents

namespace StableHLO

open MixedRadix Fallible

/-! ## Replica groups -/

/-- The attribute `replica_groups`: a shape, and the elements in row-major order. -/
structure ReplicaGroups where
  shape : List ℕ
  elements : List (BitVec 64)
  length_eq : elements.length = shape.prod

/-- The groups: the rows of the attribute. -/
def ReplicaGroups.rows (g : ReplicaGroups) : List (List ℤ) :=
  match g.shape with
  | [n, k] => (List.range n).map fun i => ((g.elements.drop (i * k)).take k).map BitVec.toInt
  | _ => []

/-- How a conversion stops: it does not match, or it reads past the end of the attribute. -/
inductive Stop where
  | failure
  | readPastEnd
deriving DecidableEq, Repr

/-- `determineClusterAxis`. -/
def determineClusterAxis (replicaGroups : ReplicaGroups) : Except Stop ℕ :=
  if replicaGroups.shape.length ≠ 2 then .error .failure
  else if replicaGroups.shape.getD 1 0 ≠ 1 then
    match replicaGroups.elements with
    | first :: second :: _ => .ok (if first + 1 = second then 1 else 0)
    | _ => .error .readPastEnd
  else .ok 0

/-! ## The conversions -/

inductive ReduceType where
  | sum | mean | max | min | std | var
deriving DecidableEq, Repr

/-- An operation of a reduction body, as far as it is looked at. -/
inductive BodyOp where
  | add | max | min | other
deriving DecidableEq, Repr

/-- `getReduceType`: the first operation of the block that is known. -/
def getReduceType : List BodyOp → Except Stop ReduceType
  | [] => .error .failure
  | .add :: _ => .ok .sum
  | .max :: _ => .ok .max
  | .min :: _ => .ok .min
  | .other :: rest => getReduceType rest

/-- The channel of a collective is between devices, or not given (`StableHLOChannelType`). -/
def checkChannel : Option ℤ → Except Stop Unit
  | none => .ok ()
  | some channelType =>
    if channelType ≠ 1 ∧ channelType ≠ 0 then .error .failure else .ok ()

/-- `stablehlo.all_reduce`: operands with the types of the results, the type of the channel, the
groups and the body. -/
structure AllReduceOp (τ : Type) where
  operands : List (ℕ × τ)
  channelType : Option ℤ
  replicaGroups : ReplicaGroups
  computation : List BodyOp

/-- `stablehlo.reduce_scatter`. -/
structure ReduceScatterOp (τ : Type) where
  operand : ℕ × τ
  channelType : Option ℤ
  replicaGroups : ReplicaGroups
  computation : List BodyOp
  scatterDimension : BitVec 64

/-- `stablehlo.all_gather`. -/
structure AllGatherOp (τ : Type) where
  operands : List (ℕ × τ)
  replicaGroups : ReplicaGroups
  allGatherDim : BitVec 64

/-- The collectives of TTIR. -/
inductive CCLOp (τ : Type) where
  | allReduce (input : ℕ) (type : τ) (reduceType : ReduceType) (clusterAxis : ℕ)
  | reduceScatter (input : ℕ) (type : τ) (reduceType : ReduceType) (scatterDim : BitVec 32)
      (clusterAxis : ℕ)
  | allGather (input : ℕ) (type : τ) (allGatherDim : BitVec 32) (clusterAxis : ℕ)

/-- The axis a collective works along. -/
def CCLOp.clusterAxis {τ : Type} : CCLOp τ → ℕ
  | allReduce _ _ _ clusterAxis => clusterAxis
  | reduceScatter _ _ _ _ clusterAxis => clusterAxis
  | allGather _ _ _ clusterAxis => clusterAxis

variable {τ : Type} (convertType : τ → τ)

/-- `StableHLOToTTIRAllReduceOpConversionPattern`. -/
def AllReduceOp.convert (srcOp : AllReduceOp τ) : Except Stop (List (CCLOp τ)) := do
  if srcOp.operands = [] then throw .failure
  checkChannel srcOp.channelType
  let clusterAxis ← determineClusterAxis srcOp.replicaGroups
  let reduceType ← getReduceType srcOp.computation
  return srcOp.operands.map fun (input, type) =>
    .allReduce input (convertType type) reduceType clusterAxis

/-- `StableHLOToTTIRReduceScatterOpConversionPattern`. -/
def ReduceScatterOp.convert (srcOp : ReduceScatterOp τ) : Except Stop (List (CCLOp τ)) := do
  checkChannel srcOp.channelType
  let clusterAxis ← determineClusterAxis srcOp.replicaGroups
  let reduceType ← getReduceType srcOp.computation
  return [.reduceScatter srcOp.operand.1 (convertType srcOp.operand.2) reduceType
    (srcOp.scatterDimension.setWidth 32) clusterAxis]

/-- `StableHLOToTTIRAllGatherOpConversionPattern`. -/
def AllGatherOp.convert (srcOp : AllGatherOp τ) : Except Stop (List (CCLOp τ)) :=
  match srcOp.operands with
  | [(input, type)] => do
      let clusterAxis ← determineClusterAxis srcOp.replicaGroups
      return [.allGather input (convertType type) (srcOp.allGatherDim.setWidth 32) clusterAxis]
  | _ => .error .failure

/-- A collective with replica groups. -/
inductive Collective (τ : Type) where
  | allReduce (op : AllReduceOp τ)
  | reduceScatter (op : ReduceScatterOp τ)
  | allGather (op : AllGatherOp τ)

namespace Collective

def convert : Collective τ → Except Stop (List (CCLOp τ))
  | allReduce op => op.convert convertType
  | reduceScatter op => op.convert convertType
  | allGather op => op.convert convertType

def replicaGroups : Collective τ → ReplicaGroups
  | allReduce op => op.replicaGroups
  | reduceScatter op => op.replicaGroups
  | allGather op => op.replicaGroups

/-- What is checked before the groups are looked at: operands and channel. -/
def Matches : Collective τ → Prop
  | allReduce op => op.operands ≠ [] ∧ checkChannel op.channelType = .ok ()
  | reduceScatter op => checkChannel op.channelType = .ok ()
  | allGather op => op.operands.length = 1

/-- What is checked after: the body reduces in a known way. -/
def Reduces : Collective τ → Prop
  | allReduce op => ∃ t, getReduceType op.computation = .ok t
  | reduceScatter op => ∃ t, getReduceType op.computation = .ok t
  | allGather _ => True

end Collective

/-! ## Meshes -/

/-- A mesh: an extent for each axis, none of them zero. -/
structure Mesh where
  shape : List ℕ
  pos : ∀ n ∈ shape, 0 < n

namespace Mesh

/-- The extent of an axis. -/
def extent (mesh : Mesh) (axis : ℕ) : ℕ := mesh.shape.getD axis 0

/-- The distance of neighbours along an axis, in the row-major numbering. -/
def stride (mesh : Mesh) (axis : ℕ) : ℕ := (mesh.shape.drop (axis + 1)).prod

/-- The devices that differ from one only in the coordinate along an axis. -/
def line (mesh : Mesh) (axis : ℕ) (device : List ℕ) : List ℤ :=
  (List.range (mesh.extent axis)).map fun j => (rowMajor mesh.shape (device.set axis j) : ℤ)

end Mesh

/-- **The groups are the lines along an axis**, each of them once. -/
structure Agrees (mesh : Mesh) (groups : List (List ℤ)) (axis : ℕ) : Prop where
  axis_lt : axis < mesh.shape.length
  nodup : groups.Nodup
  mem_iff : ∀ group, group ∈ groups ↔
    ∃ device, InShape device mesh.shape ∧ mesh.line axis device = group

/-- **The conversion agrees with the groups, or fails.** -/
def Collective.AgreesOrFails (mesh : Mesh) (c : Collective τ) : Prop :=
  c.convert convertType = .error .failure ∨
    ∃ ops, c.convert convertType = .ok ops ∧
      ∀ op ∈ ops, Agrees mesh c.replicaGroups.rows op.clusterAxis

/-- **When it does.**  The operation is turned down, or its groups are the lines along the first
axis, and that axis has one device or neighbours that are not numbered one after the other, or
along the second, and it has several devices, numbered one after the other. -/
inductive Collective.Determined (mesh : Mesh) (c : Collective τ) : Prop where
  | notMatches (h : ¬c.Matches)
  | notRank (h : c.replicaGroups.shape.length ≠ 2)
  | notReduces (h : ¬c.Reduces)
      (hreads : c.replicaGroups.shape.getD 1 0 = 1 ∨ 2 ≤ c.replicaGroups.elements.length)
  | first (h : Agrees mesh c.replicaGroups.rows 0)
      (hne : mesh.extent 0 = 1 ∨ mesh.stride 0 ≠ 1)
  | second (h : Agrees mesh c.replicaGroups.rows 1) (hext : 1 < mesh.extent 1)
      (hstride : mesh.stride 1 = 1)

/-! ## What the conversions do -/

theorem checkChannel_eq (channelType : Option ℤ) :
    checkChannel channelType = .ok () ∨ checkChannel channelType = .error .failure := by
  cases channelType with
  | none => exact .inl rfl
  | some channelType =>
    rw [checkChannel]
    split
    · exact .inr rfl
    · exact .inl rfl

theorem getReduceType_eq (body : List BodyOp) :
    (∃ t, getReduceType body = .ok t) ∨ getReduceType body = .error .failure := by
  induction body with
  | nil => exact .inr rfl
  | cons op rest ih =>
    cases op with
    | add => exact .inl ⟨_, rfl⟩
    | max => exact .inl ⟨_, rfl⟩
    | min => exact .inl ⟨_, rfl⟩
    | other => exact ih

namespace Collective

variable (c : Collective τ)

theorem convert_of_not_matches (h : ¬c.Matches) : c.convert convertType = .error .failure := by
  cases c with
  | allReduce op =>
    by_cases hnil : op.operands = []
    · rw [convert, AllReduceOp.convert, if_pos hnil]
      rfl
    · have hchannel := (checkChannel_eq op.channelType).resolve_left fun hok => h ⟨hnil, hok⟩
      rw [convert, AllReduceOp.convert, if_neg hnil, hchannel]
      rfl
  | reduceScatter op =>
    rw [convert, ReduceScatterOp.convert, (checkChannel_eq op.channelType).resolve_left h]
    rfl
  | allGather op =>
    rw [convert, AllGatherOp.convert]
    split
    · rename_i hone
      exact absurd (congrArg List.length hone) h
    · rfl

/-- Past the first checks, the conversion stops where the axis is not found. -/
theorem convert_of_stop (h : c.Matches) {stop : Stop}
    (haxis : determineClusterAxis c.replicaGroups = .error stop) :
    c.convert convertType = .error stop := by
  cases c with
  | allReduce op =>
    have haxis' : determineClusterAxis op.replicaGroups = .error stop := haxis
    rw [convert, AllReduceOp.convert, if_neg h.1, h.2, haxis']
    rfl
  | reduceScatter op =>
    have haxis' : determineClusterAxis op.replicaGroups = .error stop := haxis
    rw [convert, ReduceScatterOp.convert, show checkChannel op.channelType = .ok () from h, haxis']
    rfl
  | allGather op =>
    obtain ⟨operand, hone⟩ := List.length_eq_one_iff.mp h
    rw [convert, AllGatherOp.convert, hone]
    exact congrArg (· >>= _) haxis

/-- It fails where the body is not known. -/
theorem convert_of_not_reduces (h : c.Matches) {axis : ℕ}
    (haxis : determineClusterAxis c.replicaGroups = .ok axis) (hbody : ¬c.Reduces) :
    c.convert convertType = .error .failure := by
  cases c with
  | allReduce op =>
    have hfail := (getReduceType_eq op.computation).resolve_left hbody
    have haxis' : determineClusterAxis op.replicaGroups = .ok axis := haxis
    rw [convert, AllReduceOp.convert, if_neg h.1, h.2, haxis', hfail]
    rfl
  | reduceScatter op =>
    have hfail := (getReduceType_eq op.computation).resolve_left hbody
    have haxis' : determineClusterAxis op.replicaGroups = .ok axis := haxis
    rw [convert, ReduceScatterOp.convert, show checkChannel op.channelType = .ok () from h,
      haxis', hfail]
    rfl
  | allGather op => exact absurd trivial hbody

/-- Otherwise it emits collectives along the axis. -/
theorem convert_of_reduces (h : c.Matches) {axis : ℕ}
    (haxis : determineClusterAxis c.replicaGroups = .ok axis) (hbody : c.Reduces) :
    ∃ ops, c.convert convertType = .ok ops ∧ ops ≠ [] ∧ ∀ op ∈ ops, op.clusterAxis = axis := by
  cases c with
  | allReduce op =>
    obtain ⟨t, ht⟩ := hbody
    have haxis' : determineClusterAxis op.replicaGroups = .ok axis := haxis
    rw [convert, AllReduceOp.convert, if_neg h.1, h.2, haxis', ht]
    refine ⟨_, rfl, fun hnil => h.1 (List.map_eq_nil_iff.mp hnil), fun op' hop' => ?_⟩
    obtain ⟨operand, -, rfl⟩ := List.mem_map.mp hop'
    rfl
  | reduceScatter op =>
    obtain ⟨t, ht⟩ := hbody
    have haxis' : determineClusterAxis op.replicaGroups = .ok axis := haxis
    rw [convert, ReduceScatterOp.convert, show checkChannel op.channelType = .ok () from h,
      haxis', ht]
    refine ⟨_, rfl, List.cons_ne_nil _ _, fun op' hop' => ?_⟩
    rw [List.mem_singleton.mp hop']
    rfl
  | allGather op =>
    obtain ⟨operand, hone⟩ := List.length_eq_one_iff.mp h
    have haxis' : determineClusterAxis op.replicaGroups = .ok axis := haxis
    rw [convert, AllGatherOp.convert, hone]
    simp only
    rw [haxis']
    refine ⟨_, rfl, List.cons_ne_nil _ _, fun op' hop' => ?_⟩
    rw [List.mem_singleton.mp hop']
    rfl

end Collective

/-! ## The axis of a line -/

namespace Mesh

variable (mesh : Mesh)

theorem extent_pos {axis : ℕ} (haxis : axis < mesh.shape.length) : 0 < mesh.extent axis := by
  rw [extent, List.getD_eq_getElem _ _ haxis]
  exact mesh.pos _ (List.getElem_mem haxis)

theorem stride_pos (axis : ℕ) : 0 < mesh.stride axis := by
  apply prod_pos_of_forall_pos
  exact fun n hn => mesh.pos n (List.mem_of_mem_drop hn)

theorem length_line (axis : ℕ) (device : List ℕ) :
    (mesh.line axis device).length = mesh.extent axis := by
  rw [line, List.length_map, List.length_range]

end Mesh

theorem add_one_eq_iff {a b : BitVec 64} {s : ℕ} (ha : 0 ≤ a.toInt) (hs : 0 < s)
    (h : b.toInt = a.toInt + s) : a + 1 = b ↔ s = 1 := by
  have hb := BitVec.toInt_lt (x := b)
  have hsum : (a + 1).toInt = a.toInt + 1 := by
    rw [BitVec.toInt_add, show (1 : BitVec 64).toInt = 1 by decide, Int.bmod_eq_of_le]
    · omega
    · omega
  rw [← BitVec.toInt_inj, hsum, h]
  omega

/-- **The axis that is found**, for groups that are the lines along an axis. -/
theorem determineClusterAxis_of_agrees {mesh : Mesh} {g : ReplicaGroups} {axis : ℕ}
    (h : Agrees mesh g.rows axis) :
    determineClusterAxis g
      = .ok (if mesh.extent axis = 1 then 0 else if mesh.stride axis = 1 then 1 else 0) := by
  obtain ⟨shape, elements, hlength⟩ := g
  -- the device with all coordinates zero is in some group, so there is a first one
  have hsome := (h.mem_iff _).mpr ⟨_, inShape_replicate_zero mesh.pos, rfl⟩
  match shape, hlength, h, hsome with
  | [n, k], hlength, h, hsome =>
    rw [List.prod_cons, List.prod_singleton] at hlength
    have hn : 0 < n := by
      by_contra hzero
      obtain rfl : n = 0 := by omega
      exact nomatch hsome
    obtain ⟨device, hdevice, hline⟩ := (h.mem_iff ((elements.take k).map BitVec.toInt)).mp
      (List.mem_map.mpr ⟨0, List.mem_range.mpr hn, by rw [Nat.zero_mul, List.drop_zero]⟩)
    have hk : mesh.extent axis = k := by
      have := congrArg List.length hline
      rw [mesh.length_line, List.length_map, List.length_take, hlength] at this
      have := Nat.le_mul_of_pos_left k hn
      omega
    rw [determineClusterAxis, if_neg (by simp)]
    by_cases hone : k = 1
    · rw [if_pos (hk.trans hone), if_neg]
      exact not_not.mpr hone
    · have hpos := mesh.extent_pos h.axis_lt
      obtain ⟨m, rfl⟩ : ∃ m, k = m + 2 := ⟨k - 2, by omega⟩
      have htwo : 2 ≤ elements.length := by
        have := Nat.le_mul_of_pos_left (m + 2) hn
        omega
      have hext : mesh.extent axis ≠ 1 := by omega
      have hsize : [n, m + 2].getD 1 0 ≠ 1 := hone
      rw [if_neg hext, if_pos hsize]
      match elements, htwo, hline with
      | first :: second :: rest, _, hline =>
        rw [Mesh.line, hk, List.range_succ_eq_map, List.range_succ_eq_map] at hline
        simp only [List.map_cons, List.take_succ_cons, List.cons.injEq] at hline
        obtain ⟨hfirst, hsecond, -⟩ := hline
        have hlen := hdevice.length_eq
        have hnext := rowMajor_set_succ h.axis_lt hlen 0
        have hiff := add_one_eq_iff (a := first) (b := second) (by omega)
          (mesh.stride_pos axis) (by rw [← hfirst, ← hsecond]; exact_mod_cast hnext)
        simp only [hiff]

/-- The axis is not looked for in an attribute of another rank, and is found in one that is not
read past its end. -/
theorem determineClusterAxis_cases (g : ReplicaGroups) :
    (g.shape.length ≠ 2 ∧ determineClusterAxis g = .error .failure) ∨
      determineClusterAxis g = .error .readPastEnd ∨
      ((g.shape.getD 1 0 = 1 ∨ 2 ≤ g.elements.length) ∧
        ∃ axis, determineClusterAxis g = .ok axis) := by
  rw [determineClusterAxis]
  by_cases hrank : g.shape.length ≠ 2
  · exact .inl ⟨hrank, if_pos hrank⟩
  · rw [if_neg hrank]
    by_cases hone : g.shape.getD 1 0 ≠ 1
    · rw [if_pos hone]
      match g.elements with
      | [] => exact .inr (.inl rfl)
      | [_] => exact .inr (.inl rfl)
      | _ :: _ :: rest => exact .inr (.inr ⟨.inr (by simp), _, rfl⟩)
    · rw [if_neg hone]
      exact .inr (.inr ⟨.inl (not_not.mp hone), _, rfl⟩)

theorem determineClusterAxis_ne_readPastEnd {g : ReplicaGroups}
    (h : g.shape.getD 1 0 = 1 ∨ 2 ≤ g.elements.length) :
    determineClusterAxis g ≠ .error .readPastEnd := by
  rw [determineClusterAxis]
  split
  · nofun
  · split
    · rename_i hne
      have htwo := h.resolve_left hne
      match g.elements, htwo with
      | _ :: _ :: _, _ => nofun
    · nofun

/-! ## When the axis is that of the groups -/

theorem Collective.agreesOrFails_of_agrees {mesh : Mesh} {c : Collective τ} {axis : ℕ}
    (haxis : determineClusterAxis c.replicaGroups = .ok axis)
    (h : Agrees mesh c.replicaGroups.rows axis) : c.AgreesOrFails convertType mesh := by
  by_cases hmatches : c.Matches
  · by_cases hbody : c.Reduces
    · obtain ⟨ops, hops, -, hall⟩ := c.convert_of_reduces convertType hmatches haxis hbody
      exact .inr ⟨ops, hops, fun op hop => hall op hop ▸ h⟩
    · exact .inl (c.convert_of_not_reduces convertType hmatches haxis hbody)
  · exact .inl (c.convert_of_not_matches convertType hmatches)

/-- **The condition for the cluster axis.**  A conversion of a collective fails, or emits
collectives along an axis whose lines are the replica groups, if and only if it is turned down, or
the groups are the lines along the first axis and do not look like the second, or the lines along
the second and look like it. -/
theorem Collective.agreesOrFails_iff (mesh : Mesh) (c : Collective τ) :
    c.AgreesOrFails convertType mesh ↔ c.Determined mesh := by
  constructor
  · intro hagrees
    by_cases hmatches : c.Matches
    swap
    · exact .notMatches hmatches
    obtain ⟨hrank, -⟩ | hstop | ⟨hreads, axis, haxis⟩ :=
      determineClusterAxis_cases c.replicaGroups
    · exact .notRank hrank
    · have hconvert := c.convert_of_stop convertType hmatches hstop
      rcases hagrees with hfail | ⟨ops, hops, -⟩
      · exact nomatch hfail.symm.trans hconvert
      · exact nomatch hops.symm.trans hconvert
    · by_cases hbody : c.Reduces
      swap
      · exact .notReduces hbody hreads
      obtain ⟨ops, hops, hne, hall⟩ := c.convert_of_reduces convertType hmatches haxis hbody
      rcases hagrees with hfail | ⟨ops', hops', hlines⟩
      · exact nomatch hfail.symm.trans hops
      obtain rfl := Except.ok.inj (hops.symm.trans hops')
      obtain ⟨op, hop⟩ := List.exists_mem_of_ne_nil ops hne
      have hline := hlines op hop
      rw [hall op hop] at hline
      -- the axis that is found must be the one the groups run along
      have hfound := Except.ok.inj (haxis.symm.trans (determineClusterAxis_of_agrees hline))
      have hpos := mesh.extent_pos hline.axis_lt
      split_ifs at hfound with hone hstride
      · subst hfound
        exact .first hline (.inl hone)
      · subst hfound
        exact .second hline (by omega) hstride
      · subst hfound
        exact .first hline (.inr hstride)
  · intro hdetermined
    cases hdetermined with
    | notMatches hmatches => exact .inl (c.convert_of_not_matches convertType hmatches)
    | notRank hrank =>
      by_cases hmatches : c.Matches
      · exact .inl (c.convert_of_stop convertType hmatches (if_pos hrank))
      · exact .inl (c.convert_of_not_matches convertType hmatches)
    | notReduces hbody hreads =>
      by_cases hmatches : c.Matches
      · obtain ⟨-, hfail⟩ | hstop | ⟨-, axis, haxis⟩ :=
          determineClusterAxis_cases c.replicaGroups
        · exact .inl (c.convert_of_stop convertType hmatches hfail)
        · exact absurd hstop (determineClusterAxis_ne_readPastEnd hreads)
        · exact .inl (c.convert_of_not_reduces convertType hmatches haxis hbody)
      · exact .inl (c.convert_of_not_matches convertType hmatches)
    | first h hne =>
      apply Collective.agreesOrFails_of_agrees convertType _ h
      rw [determineClusterAxis_of_agrees h]
      rcases hne with hone | hstride
      · rw [if_pos hone]
      · rw [if_neg hstride, ite_self]
    | second h hext hstride =>
      apply Collective.agreesOrFails_of_agrees convertType _ h
      rw [determineClusterAxis_of_agrees h, if_neg (by omega), if_pos hstride]

/-- **Pairs on a mesh of two rows of four.**  The groups are no lines of the mesh, and the
reduction is over the rows. -/
theorem Collective.pairs_not_agreesOrFails :
    ¬(Collective.allReduce
        { operands := [(0, ())], channelType := none, computation := [.add]
          replicaGroups := ⟨[4, 2], [0, 1, 2, 3, 4, 5, 6, 7], rfl⟩ }).AgreesOrFails id
      ⟨[2, 4], by decide⟩ := by
  rintro (hfail | ⟨ops, hops, hall⟩)
  · exact nomatch hfail
  · obtain rfl := Except.ok.inj hops
    have hagrees := hall _ (List.mem_singleton.mpr rfl)
    obtain ⟨device, -, hline⟩ := (hagrees.mem_iff [0, 1]).mp (by decide)
    have hlen := congrArg List.length hline
    rw [Mesh.length_line] at hlen
    exact absurd hlen (by decide)

end StableHLO
