/-
# The buffer allocator

`SimpleAllocator` of `Allocate.cpp` is a bump allocator with one pointer for each memory
space; `createSimpleAllocator` configures it from a chip descriptor, and
`runAllocateBuffers` asks it for an address for every `memref.alloc` in device memory.

* `allocate`, `createSimpleAllocator`, `allocateBuffers` : the translated functions;
* `allocate_spec` : what one successful request does;
* `allocateBuffers_safe` : what a whole run does;
* `allocateBuffers_safe_iff` : the descriptors under which every run is safe.

The capacity given to the allocator is a size, but the code fills it with the distance of
the last usable byte from address zero; the two agree only for a base of zero.
-/
import Mathlib

namespace TTIRAllocate

/-! ## The translated functions -/

/-- `MemorySpace`. -/
inductive MemorySpace : Type where
  | System
  | SystemMMIO
  | DeviceDRAM
  | DeviceL1
  deriving DecidableEq, Repr

/-- `isSystemMemorySpace`. -/
def isSystemMemorySpace (memorySpace : MemorySpace) : Bool :=
  memorySpace = .System || memorySpace = MemorySpace.SystemMMIO

/-- `isDeviceMemorySpace`. -/
def isDeviceMemorySpace (memorySpace : MemorySpace) : Bool :=
  memorySpace = .DeviceDRAM || memorySpace = .DeviceL1

/-- `ttmlir::utils::alignUp` on 64-bit unsigned integers. -/
def alignUp (ptr alignment : UInt64) : UInt64 :=
  (ptr + alignment - 1) &&& ~~~(alignment - 1)

/-- The fields of `ChipDescAttr` that the allocation reads. -/
structure ChipDescAttr : Type where
  l1Size : UInt32
  dramChannelSize : UInt32
  nocL1AddressAlignBytes : UInt32
  nocDRAMAddressAlignBytes : UInt32
  l1UnreservedBase : UInt32
  dramUnreservedBase : UInt32
  dramUnreservedEnd : UInt32
  deriving DecidableEq, Repr

namespace ChipDescAttr

/-- `getScratchL1RegionSize`: 4KB. -/
def getScratchL1RegionSize (_ : ChipDescAttr) : UInt32 := (1 : UInt32) <<< 12

/-- `getScratchL1RegionAddress`. -/
def getScratchL1RegionAddress (desc : ChipDescAttr) : UInt32 :=
  desc.l1Size - desc.getScratchL1RegionSize

/-- The descriptor `SystemDescAttr::getDefault` gives to every chip. -/
def getDefault : ChipDescAttr where
  l1Size := 1499136
  dramChannelSize := (1 : UInt32) <<< 30
  nocL1AddressAlignBytes := 16
  nocDRAMAddressAlignBytes := 32
  l1UnreservedBase := 1024
  dramUnreservedBase := 1024
  dramUnreservedEnd := (1 : UInt32) <<< 30

end ChipDescAttr

/-- `SimpleAllocator::MemorySpaceInfo`. -/
structure MemorySpaceInfo : Type where
  baseAddress : UInt64 := 0
  size : UInt64 := 0
  alignment : UInt64 := 0
  deriving DecidableEq, Repr

/-- `MemorySpaceInfo::end`. -/
def MemorySpaceInfo.endAddress (info : MemorySpaceInfo) : UInt64 :=
  info.baseAddress + info.size

/-- `SimpleAllocator`: its two vectors are indexed by the memory space. -/
structure SimpleAllocator : Type where
  currPtr : MemorySpace → UInt64
  memorySpaceInfo : MemorySpace → MemorySpaceInfo

/-- The constructor of `SimpleAllocator`: every pointer starts at its base. -/
def SimpleAllocator.ofInfo (memorySpaceInfo : MemorySpace → MemorySpaceInfo) :
    SimpleAllocator where
  currPtr space := (memorySpaceInfo space).baseAddress
  memorySpaceInfo := memorySpaceInfo

/-- `SimpleAllocator::allocate`: the new allocator, the address and the alignment, or
`none` where the assertion `"Out of memory"` fails. -/
def SimpleAllocator.allocate (a : SimpleAllocator) (size : UInt64) (memorySpace : MemorySpace) :
    Option (SimpleAllocator × UInt64 × UInt64) :=
  if isSystemMemorySpace memorySpace then
    some (a, 0, 0)
  else
    let alignment := (a.memorySpaceInfo memorySpace).alignment
    let result := alignUp (a.currPtr memorySpace) alignment
    let ptr := result + size
    if ptr ≤ (a.memorySpaceInfo memorySpace).endAddress then
      some ({ a with currPtr := Function.update a.currPtr memorySpace ptr }, result, alignment)
    else
      none

/-- What `createSimpleAllocator` configures for each memory space. -/
def memorySpaceInfo (chipDesc : ChipDescAttr) : MemorySpace → MemorySpaceInfo
  | .DeviceL1 =>
    ⟨chipDesc.l1UnreservedBase.toUInt64,
      (chipDesc.l1Size - chipDesc.getScratchL1RegionSize).toUInt64,
      chipDesc.nocL1AddressAlignBytes.toUInt64⟩
  | .DeviceDRAM =>
    ⟨chipDesc.dramUnreservedBase.toUInt64, chipDesc.dramChannelSize.toUInt64,
      chipDesc.nocDRAMAddressAlignBytes.toUInt64⟩
  | _ => {}

/-- `createSimpleAllocator`. -/
def createSimpleAllocator (chipDesc : ChipDescAttr) : SimpleAllocator :=
  SimpleAllocator.ofInfo (memorySpaceInfo chipDesc)

/-- A `memref.alloc`: its size in bytes, a 64-bit signed number, and its memory space. -/
structure AllocOp : Type where
  sizeBytes : UInt64
  memorySpace : Option MemorySpace
  sizeBytes_lt : sizeBytes.toNat < 2 ^ 63

/-- The address and alignment written onto a `memref.alloc`. -/
structure Placement : Type where
  sizeBytes : UInt64
  memorySpace : MemorySpace
  address : UInt64
  alignment : UInt64
  deriving DecidableEq, Repr

/-- The walk of `runAllocateBuffers` over the allocs of a function: an unset memory space
means host memory, which is skipped. -/
def allocateBuffers : SimpleAllocator → List AllocOp → Option (List Placement)
  | _, [] => some []
  | a, op :: ops =>
    let memorySpace := op.memorySpace.getD .System
    if isDeviceMemorySpace memorySpace then do
      let (a', address, alignment) ← a.allocate op.sizeBytes memorySpace
      let rest ← allocateBuffers a' ops
      some (⟨op.sizeBytes, memorySpace, address, alignment⟩ :: rest)
    else
      allocateBuffers a ops

/-- `runAllocateBuffers` on the allocs of a function. -/
def runAllocateBuffers (chipDesc : ChipDescAttr) (ops : List AllocOp) :
    Option (List Placement) :=
  allocateBuffers (createSimpleAllocator chipDesc) ops

/-! ## What allocation is for -/

/-- The unreserved base of a device memory space. -/
def unreservedBase (chipDesc : ChipDescAttr) : MemorySpace → ℕ
  | .DeviceL1 => chipDesc.l1UnreservedBase.toNat
  | .DeviceDRAM => chipDesc.dramUnreservedBase.toNat
  | _ => 0

/-- The first byte past the base that is reserved for something else. -/
def reservedEnd (chipDesc : ChipDescAttr) : MemorySpace → ℕ
  | .DeviceL1 => chipDesc.getScratchL1RegionAddress.toNat
  | .DeviceDRAM => chipDesc.dramUnreservedEnd.toNat
  | _ => 0

/-- The alignment of addresses in a device memory space. -/
def requiredAlignment (chipDesc : ChipDescAttr) : MemorySpace → ℕ
  | .DeviceL1 => chipDesc.nocL1AddressAlignBytes.toNat
  | .DeviceDRAM => chipDesc.nocDRAMAddressAlignBytes.toNat
  | _ => 0

/-- The bytes of a placed buffer. -/
def Placement.bytes (p : Placement) : Set ℕ :=
  Set.Ico p.address.toNat (p.address.toNat + p.sizeBytes.toNat)

/-- **Safe placements**: aligned, inside the usable memory of their space, and disjoint
within a space. -/
structure Safe (chipDesc : ChipDescAttr) (ps : List Placement) : Prop where
  aligned : ∀ p ∈ ps, requiredAlignment chipDesc p.memorySpace ∣ p.address.toNat
  above_base : ∀ p ∈ ps, unreservedBase chipDesc p.memorySpace ≤ p.address.toNat
  below_end : ∀ p ∈ ps,
    p.address.toNat + p.sizeBytes.toNat ≤ reservedEnd chipDesc p.memorySpace
  disjoint : ps.Pairwise fun p q =>
    p.memorySpace = q.memorySpace → Disjoint p.bytes q.bytes

/-- The first address the allocator can hand out in a space. -/
def firstAddress (info : MemorySpaceInfo) : UInt64 := alignUp info.baseAddress info.alignment

/-- The condition on one memory space: either not even an empty buffer fits, or the
allocator stops where the usable memory stops and `alignUp` rounds every pointer it can
meet up to a multiple of the alignment. -/
def StaysInside (chipDesc : ChipDescAttr) (space : MemorySpace) : Prop :=
  let info := memorySpaceInfo chipDesc space
  info.endAddress < firstAddress info ∨
    (info.endAddress.toNat ≤ reservedEnd chipDesc space ∧
      ∀ ptr, (ptr = info.baseAddress ∨ firstAddress info ≤ ptr) → ptr ≤ info.endAddress →
        alignUp ptr info.alignment ≤ info.endAddress →
          ptr ≤ alignUp ptr info.alignment ∧
            info.alignment.toNat ∣ (alignUp ptr info.alignment).toNat)

/-! ## Rounding up -/

/-- Rounding up twice is rounding up once. -/
theorem alignUp_alignUp (ptr alignment : UInt64) :
    alignUp (alignUp ptr alignment) alignment = alignUp ptr alignment := by
  unfold alignUp
  set m := alignment - 1 with hm
  have hassoc : ∀ x : UInt64, x + alignment - 1 = x + m := by
    intro x
    grind
  rw [hassoc, hassoc]
  apply UInt64.eq_of_toBitVec_eq
  simp only [UInt64.toBitVec_and, UInt64.toBitVec_add, UInt64.toBitVec_not]
  generalize ptr.toBitVec + m.toBitVec = x
  generalize m.toBitVec = y
  have hdisj : (x &&& ~~~y) &&& y = 0#64 := by
    rw [BitVec.and_assoc, BitVec.and_comm (~~~y), BitVec.and_not_self]
    simp
  rw [BitVec.add_eq_or_of_and_eq_zero _ _ hdisj]
  ext i hi
  simp only [BitVec.getElem_and, BitVec.getElem_or, BitVec.getElem_not]
  cases x[i] <;> cases y[i] <;> rfl

/-- Rounding a pointer that is not too large neither overflows nor goes far. -/
theorem alignUp_lt {ptr alignment : UInt64} (hptr : ptr.toNat < 2 ^ 33)
    (halign : alignment.toNat < 2 ^ 32) : (alignUp ptr alignment).toNat < 2 ^ 34 := by
  unfold alignUp
  by_cases h0 : alignment = 0
  · subst h0
    have hzero : ~~~((0 : UInt64) - 1) = 0 := by decide
    rw [hzero]
    simp
  · have hpos : 0 < alignment.toNat := by
      rcases Nat.eq_zero_or_pos alignment.toNat with h | h
      · exact absurd (UInt64.toNat_inj.mp h) h0
      · exact h
    have hsum : (ptr + alignment - 1).toNat = ptr.toNat + alignment.toNat - 1 := by
      have hadd : (ptr + alignment).toNat = ptr.toNat + alignment.toNat := by
        rw [UInt64.toNat_add, Nat.mod_eq_of_lt (by omega)]
      rw [UInt64.toNat_sub_of_le, hadd]
      · rfl
      · rw [UInt64.le_iff_toNat_le, hadd]
        show 1 ≤ _
        omega
    rw [UInt64.toNat_and, hsum]
    exact lt_of_le_of_lt Nat.and_le_left (by omega)

/-! ## One request -/

theorem memorySpaceInfo_lt (chipDesc : ChipDescAttr) (space : MemorySpace) :
    (memorySpaceInfo chipDesc space).baseAddress.toNat < 2 ^ 32 ∧
      (memorySpaceInfo chipDesc space).size.toNat < 2 ^ 32 ∧
      (memorySpaceInfo chipDesc space).alignment.toNat < 2 ^ 32 := by
  have hlt : ∀ x : UInt32, x.toUInt64.toNat < 2 ^ 32 := fun x => by
    rw [UInt32.toNat_toUInt64]
    exact x.toNat_lt
  cases space with
  | System => simp [memorySpaceInfo]
  | SystemMMIO => simp [memorySpaceInfo]
  | DeviceDRAM => exact ⟨hlt _, hlt _, hlt _⟩
  | DeviceL1 => exact ⟨hlt _, hlt _, hlt _⟩

theorem endAddress_lt (chipDesc : ChipDescAttr) (space : MemorySpace) :
    (memorySpaceInfo chipDesc space).endAddress.toNat < 2 ^ 33 := by
  obtain ⟨hbase, hsize, -⟩ := memorySpaceInfo_lt chipDesc space
  rw [MemorySpaceInfo.endAddress, UInt64.toNat_add, Nat.mod_eq_of_lt (by omega)]
  omega

variable {space : MemorySpace}

theorem baseAddress_eq (chipDesc : ChipDescAttr) (hspace : isDeviceMemorySpace space) :
    (memorySpaceInfo chipDesc space).baseAddress.toNat = unreservedBase chipDesc space := by
  cases space <;> simp_all [isDeviceMemorySpace, memorySpaceInfo, unreservedBase]

theorem alignment_eq (chipDesc : ChipDescAttr) (hspace : isDeviceMemorySpace space) :
    (memorySpaceInfo chipDesc space).alignment.toNat = requiredAlignment chipDesc space := by
  cases space <;> simp_all [isDeviceMemorySpace, memorySpaceInfo, requiredAlignment]

/-- A pointer the allocator can meet: the base, or an address from the first aligned one
to the end. -/
def Meets (info : MemorySpaceInfo) (ptr : UInt64) : Prop :=
  ptr = info.baseAddress ∨ (firstAddress info ≤ ptr ∧ ptr ≤ info.endAddress)

variable {chipDesc : ChipDescAttr}

theorem Meets.lt {ptr : UInt64}
    (h : Meets (memorySpaceInfo chipDesc space) ptr) : ptr.toNat < 2 ^ 33 := by
  rcases h with rfl | ⟨-, hle⟩
  · obtain ⟨hbase, -, -⟩ := memorySpaceInfo_lt chipDesc space
    omega
  · exact lt_of_le_of_lt (UInt64.le_iff_toNat_le.mp hle) (endAddress_lt chipDesc space)

theorem toNat_alignUp_add {ptr size : UInt64}
    (h : Meets (memorySpaceInfo chipDesc space) ptr) (hsize : size.toNat < 2 ^ 63) :
    (alignUp ptr (memorySpaceInfo chipDesc space).alignment + size).toNat
      = (alignUp ptr (memorySpaceInfo chipDesc space).alignment).toNat + size.toNat := by
  have hlt := alignUp_lt h.lt (memorySpaceInfo_lt chipDesc space).2.2
  rw [UInt64.toNat_add, Nat.mod_eq_of_lt (by omega)]

/-- A request in device memory succeeds exactly when its end is not past the end of the
space, and is placed at the rounded pointer. -/
theorem allocate_eq_some_iff (a a' : SimpleAllocator) (size address alignment : UInt64)
    (hspace : isDeviceMemorySpace space) :
    a.allocate size space = some (a', address, alignment) ↔
      address = alignUp (a.currPtr space) (a.memorySpaceInfo space).alignment ∧
        alignment = (a.memorySpaceInfo space).alignment ∧
        address + size ≤ (a.memorySpaceInfo space).endAddress ∧
        a' = { a with currPtr := Function.update a.currPtr space (address + size) } := by
  have hsystem : isSystemMemorySpace space = false := by
    cases space <;> simp_all [isDeviceMemorySpace, isSystemMemorySpace]
  unfold SimpleAllocator.allocate
  simp only [hsystem, Bool.false_eq_true, if_false]
  constructor
  · intro h
    split_ifs at h with hle
    simp only [Option.some.injEq, Prod.mk.injEq] at h
    obtain ⟨rfl, rfl, rfl⟩ := h
    exact ⟨rfl, rfl, hle, rfl⟩
  · rintro ⟨rfl, rfl, hle, rfl⟩
    rw [if_pos hle]

variable {a a' : SimpleAllocator} {size address alignment : UInt64}

/-- **One request.**  In a space that stays inside, a successful request is placed at or
above the pointer, aligned, before the reserved bytes, and leaves the pointer at its end. -/
theorem allocate_spec (hspace : isDeviceMemorySpace space) (hinside : StaysInside chipDesc space)
    (hinfo : a.memorySpaceInfo = memorySpaceInfo chipDesc)
    (hmeets : Meets (memorySpaceInfo chipDesc space) (a.currPtr space))
    (hsize : size.toNat < 2 ^ 63)
    (h : a.allocate size space = some (a', address, alignment)) :
    requiredAlignment chipDesc space ∣ address.toNat ∧ (a.currPtr space).toNat ≤ address.toNat ∧
      address.toNat + size.toNat ≤ reservedEnd chipDesc space ∧
      (a'.currPtr space).toNat = address.toNat + size.toNat ∧
      Meets (memorySpaceInfo chipDesc space) (a'.currPtr space) := by
  obtain ⟨haddr, -, hle, rfl⟩ := (allocate_eq_some_iff a a' size address alignment hspace).mp h
  rw [hinfo] at haddr hle
  set info := memorySpaceInfo chipDesc space with hinfo_def
  have hend : (address + size).toNat = address.toNat + size.toNat := by
    rw [haddr]
    exact toNat_alignUp_add hmeets hsize
  have hle' : address.toNat + size.toNat ≤ info.endAddress.toNat := by
    rw [← hend]
    exact UInt64.le_iff_toNat_le.mp hle
  have haddr_le : alignUp (a.currPtr space) info.alignment ≤ info.endAddress := by
    rw [← haddr, UInt64.le_iff_toNat_le]
    omega
  unfold StaysInside at hinside
  simp only [← hinfo_def] at hinside
  rcases hinside with hfull | ⟨hreserved, hround⟩
  · -- no pointer past the base is reachable, and rounding the base leaves the space
    exfalso
    rw [UInt64.lt_iff_toNat_lt] at hfull
    rcases hmeets with hbase | ⟨hfirst, hptr⟩
    · rw [hbase, ← firstAddress] at haddr_le
      have := UInt64.le_iff_toNat_le.mp haddr_le
      omega
    · have h₁ := UInt64.le_iff_toNat_le.mp hfirst
      have h₂ := UInt64.le_iff_toNat_le.mp hptr
      omega
  · have hcase : a.currPtr space = info.baseAddress ∨ firstAddress info ≤ a.currPtr space :=
      hmeets.imp id And.left
    have hptr_le : a.currPtr space ≤ info.endAddress := by
      rcases hmeets with hbase | ⟨-, hptr⟩
      · obtain ⟨h₁, h₂, -⟩ := memorySpaceInfo_lt chipDesc space
        rw [← hinfo_def] at h₁ h₂
        rw [hbase, UInt64.le_iff_toNat_le, MemorySpaceInfo.endAddress, UInt64.toNat_add,
          Nat.mod_eq_of_lt (by omega)]
        omega
      · exact hptr
    obtain ⟨hup, hdvd⟩ := hround _ hcase hptr_le haddr_le
    rw [← haddr] at hup hdvd
    have hup' := UInt64.le_iff_toNat_le.mp hup
    have hptr : (Function.update a.currPtr space (address + size)) space = address + size :=
      Function.update_self ..
    refine ⟨?_, hup', by omega, ?_, ?_⟩
    · rwa [hinfo_def, alignment_eq chipDesc hspace] at hdvd
    · simp only [hptr, hend]
    · simp only [hptr]
      refine Or.inr ⟨?_, hle⟩
      rw [UInt64.le_iff_toNat_le, hend]
      rcases hcase with hbase | hfirst
      · rw [firstAddress, ← hbase, ← haddr]
        omega
      · have := UInt64.le_iff_toNat_le.mp hfirst
        omega

theorem allocate_frame (hspace : isDeviceMemorySpace space)
    (h : a.allocate size space = some (a', address, alignment)) :
    a'.memorySpaceInfo = a.memorySpaceInfo ∧
      ∀ other, other ≠ space → a'.currPtr other = a.currPtr other := by
  obtain ⟨-, -, -, rfl⟩ := (allocate_eq_some_iff a a' size address alignment hspace).mp h
  exact ⟨rfl, fun other hne => Function.update_of_ne hne _ _⟩

/-! ## A whole run -/

variable {ops : List AllocOp} {ps : List Placement}

/-- The placements of a run are in device memory. -/
theorem device_of_mem_allocateBuffers {a : SimpleAllocator} (h : allocateBuffers a ops = some ps) :
    ∀ p ∈ ps, isDeviceMemorySpace p.memorySpace := by
  induction ops generalizing a ps with
  | nil =>
    obtain rfl : [] = ps := by simpa [allocateBuffers] using h
    simp
  | cons op ops ih =>
    rw [allocateBuffers] at h
    split_ifs at h with hspace
    · simp only [Option.bind_eq_bind, Option.bind_eq_some_iff] at h
      obtain ⟨⟨a', address, alignment⟩, -, rest, hrest, heq⟩ := h
      obtain rfl := Option.some.inj heq
      intro p hp
      rcases List.mem_cons.mp hp with rfl | hp
      · exact hspace
      · exact ih hrest p hp
    · exact ih h

/-- **A run from any met state.**  Placements are aligned, at or above the pointer of their
space, before the reserved bytes, and disjoint within a space. -/
theorem allocateBuffers_spec
    (hinside : ∀ space, isDeviceMemorySpace space → StaysInside chipDesc space)
    {a : SimpleAllocator}
    (hinfo : a.memorySpaceInfo = memorySpaceInfo chipDesc)
    (hmeets : ∀ space, isDeviceMemorySpace space →
      Meets (memorySpaceInfo chipDesc space) (a.currPtr space))
    (h : allocateBuffers a ops = some ps) :
    (∀ p ∈ ps, requiredAlignment chipDesc p.memorySpace ∣ p.address.toNat ∧
        (a.currPtr p.memorySpace).toNat ≤ p.address.toNat ∧
        p.address.toNat + p.sizeBytes.toNat ≤ reservedEnd chipDesc p.memorySpace) ∧
      ps.Pairwise fun p q => p.memorySpace = q.memorySpace → Disjoint p.bytes q.bytes := by
  induction ops generalizing a ps with
  | nil =>
    obtain rfl : [] = ps := by simpa [allocateBuffers] using h
    simp
  | cons op ops ih =>
    rw [allocateBuffers] at h
    split_ifs at h with hspace
    · simp only [Option.bind_eq_bind, Option.bind_eq_some_iff] at h
      obtain ⟨⟨a', address, alignment⟩, halloc, rest, hrest, heq⟩ := h
      obtain rfl := Option.some.inj heq
      set space := op.memorySpace.getD .System with hspace_def
      obtain ⟨hdvd, hup, hbound, hptr, hmeets'⟩ := allocate_spec hspace (hinside _ hspace)
        hinfo (hmeets _ hspace) op.sizeBytes_lt halloc
      obtain ⟨hinfo', hother⟩ := allocate_frame hspace halloc
      have hmeetsAll : ∀ s, isDeviceMemorySpace s →
          Meets (memorySpaceInfo chipDesc s) (a'.currPtr s) := by
        intro s hs
        by_cases hne : s = space
        · rw [hne]
          exact hmeets'
        · rw [hother s hne]
          exact hmeets s hs
      obtain ⟨hall, hdisjoint⟩ := ih (hinfo'.trans hinfo) hmeetsAll hrest
      refine ⟨?_, List.pairwise_cons.mpr ⟨?_, hdisjoint⟩⟩
      · intro p hp
        rcases List.mem_cons.mp hp with rfl | hp
        · exact ⟨hdvd, hup, hbound⟩
        · obtain ⟨hdvd', hup', hbound'⟩ := hall p hp
          refine ⟨hdvd', ?_, hbound'⟩
          by_cases hne : p.memorySpace = space
          · rw [hne] at hup' ⊢
            omega
          · rwa [hother _ hne] at hup'
      · -- a later buffer of the same space starts at or after the end of this one
        intro q hq hsame
        obtain ⟨-, hup', -⟩ := hall q hq
        rw [← hsame, hptr] at hup'
        refine Set.disjoint_left.mpr fun x hx hx' => ?_
        obtain ⟨-, hx₂⟩ := hx
        obtain ⟨hx₁, -⟩ := hx'
        exact absurd hx₂ (by simp only; omega)
    · exact ih hinfo hmeets h

/-- **Sufficiency.**  If both device spaces stay inside, every run is safe. -/
theorem allocateBuffers_safe
    (hinside : ∀ space, isDeviceMemorySpace space → StaysInside chipDesc space)
    (h : runAllocateBuffers chipDesc ops = some ps) : Safe chipDesc ps := by
  obtain ⟨hall, hdisjoint⟩ := allocateBuffers_spec hinside (a := createSimpleAllocator chipDesc)
    rfl (fun space _ => Or.inl rfl) h
  refine ⟨fun p hp => (hall p hp).1, fun p hp => ?_, fun p hp => (hall p hp).2.2, hdisjoint⟩
  rw [← baseAddress_eq chipDesc (device_of_mem_allocateBuffers h p hp)]
  exact (hall p hp).2.1

/-! ## When every run is safe -/

theorem allocateBuffers_cons_eq (hspace : isDeviceMemorySpace space) (hsize : size.toNat < 2 ^ 63)
    (ops : List AllocOp) (h : a.allocate size space = some (a', address, alignment)) :
    allocateBuffers a (⟨size, some space, hsize⟩ :: ops)
      = (allocateBuffers a' ops).map (⟨size, space, address, alignment⟩ :: ·) := by
  rw [allocateBuffers]
  simp only [Option.getD_some, hspace, if_true, h, Option.bind_eq_bind, Option.bind_some]
  cases allocateBuffers a' ops <;> rfl

theorem allocate_fits {a : SimpleAllocator} {ptr size : UInt64}
    (hspace : isDeviceMemorySpace space) (hcurr : a.currPtr space = ptr)
    (hle : alignUp ptr (a.memorySpaceInfo space).alignment + size
      ≤ (a.memorySpaceInfo space).endAddress) :
    ∃ a', a.allocate size space = some (a', alignUp ptr (a.memorySpaceInfo space).alignment,
        (a.memorySpaceInfo space).alignment) ∧
      a'.currPtr space = alignUp ptr (a.memorySpaceInfo space).alignment + size ∧
      a'.memorySpaceInfo = a.memorySpaceInfo := by
  subst hcurr
  exact ⟨_, (allocate_eq_some_iff _ _ _ _ _ hspace).mpr ⟨rfl, rfl, hle, rfl⟩,
    Function.update_self .., rfl⟩

theorem run_one (hspace : isDeviceMemorySpace space) {size : UInt64} (hsize : size.toNat < 2 ^ 63)
    (hle : firstAddress (memorySpaceInfo chipDesc space) + size
      ≤ (memorySpaceInfo chipDesc space).endAddress) :
    runAllocateBuffers chipDesc [⟨size, some space, hsize⟩]
      = some [⟨size, space, firstAddress (memorySpaceInfo chipDesc space),
          (memorySpaceInfo chipDesc space).alignment⟩] := by
  obtain ⟨a, halloc, -, -⟩ := allocate_fits (a := createSimpleAllocator chipDesc) hspace rfl hle
  rw [runAllocateBuffers, allocateBuffers_cons_eq hspace hsize [] halloc]
  rfl

/-- A run of two buffers that fit: the second is placed at the rounded end of the first. -/
theorem run_two (hspace : isDeviceMemorySpace space) {size₁ size₂ ptr : UInt64}
    (hsize₁ : size₁.toNat < 2 ^ 63) (hsize₂ : size₂.toNat < 2 ^ 63)
    (hptr : firstAddress (memorySpaceInfo chipDesc space) + size₁ = ptr)
    (hle₁ : ptr ≤ (memorySpaceInfo chipDesc space).endAddress)
    (hle₂ : alignUp ptr (memorySpaceInfo chipDesc space).alignment + size₂
      ≤ (memorySpaceInfo chipDesc space).endAddress) :
    runAllocateBuffers chipDesc [⟨size₁, some space, hsize₁⟩, ⟨size₂, some space, hsize₂⟩]
      = some [⟨size₁, space, firstAddress (memorySpaceInfo chipDesc space),
            (memorySpaceInfo chipDesc space).alignment⟩,
          ⟨size₂, space, alignUp ptr (memorySpaceInfo chipDesc space).alignment,
            (memorySpaceInfo chipDesc space).alignment⟩] := by
  subst hptr
  obtain ⟨a, halloc, hcurr, hinfo⟩ :=
    allocate_fits (a := createSimpleAllocator chipDesc) hspace rfl hle₁
  have hinfo' : a.memorySpaceInfo space = memorySpaceInfo chipDesc space := congrFun hinfo space
  obtain ⟨a', halloc', -, -⟩ := (@allocate_fits _ _ _ size₂) hspace hcurr (by
    rw [hinfo']
    exact hle₂)
  rw [runAllocateBuffers, allocateBuffers_cons_eq hspace hsize₁ _ halloc,
    allocateBuffers_cons_eq hspace hsize₂ [] halloc', hinfo']
  rfl

section

variable (hspace : isDeviceMemorySpace space)
  (hsafe : ∀ ops ps, runAllocateBuffers chipDesc ops = some ps → Safe chipDesc ps)
  (hfits : firstAddress (memorySpaceInfo chipDesc space) ≤
    (memorySpaceInfo chipDesc space).endAddress)

include hspace hsafe hfits

/-- If every run is safe and something fits, the space ends before the reserved bytes:
one buffer could fill it. -/
theorem endAddress_le_of_safe :
    (memorySpaceInfo chipDesc space).endAddress.toNat ≤ reservedEnd chipDesc space := by
  have hend := endAddress_lt chipDesc space
  have hsize := UInt64.toNat_sub_of_le _ _ hfits
  have hfill : firstAddress (memorySpaceInfo chipDesc space)
      + ((memorySpaceInfo chipDesc space).endAddress
        - firstAddress (memorySpaceInfo chipDesc space))
      = (memorySpaceInfo chipDesc space).endAddress := by grind
  have hrun := run_one hspace (by rw [hsize]; omega) (by
    rw [hfill]
    exact UInt64.le_refl _)
  have hbound := (hsafe _ _ hrun).below_end _ (List.mem_singleton.mpr rfl)
  simp only [hsize] at hbound
  have hfits' := UInt64.le_iff_toNat_le.mp hfits
  omega

/-- If every run is safe, the base is rounded up to a multiple of the alignment. -/
theorem round_base_of_safe : (memorySpaceInfo chipDesc space).baseAddress
        ≤ firstAddress (memorySpaceInfo chipDesc space) ∧
      (memorySpaceInfo chipDesc space).alignment.toNat
        ∣ (firstAddress (memorySpaceInfo chipDesc space)).toNat := by
  have hs := hsafe _ _ ((@run_one _ _ hspace 0) (by decide) (by simpa using hfits))
  constructor
  · rw [UInt64.le_iff_toNat_le, baseAddress_eq chipDesc hspace]
    exact hs.above_base _ (List.mem_singleton.mpr rfl)
  · rw [alignment_eq chipDesc hspace]
    exact hs.aligned _ (List.mem_singleton.mpr rfl)

end

/-- If every run is safe, a pointer from the first address on is rounded up to a multiple
of the alignment: otherwise a second buffer is misaligned or overlaps the first. -/
theorem round_later_of_safe {ptr : UInt64} (hspace : isDeviceMemorySpace space)
    (hsafe : ∀ ops ps, runAllocateBuffers chipDesc ops = some ps → Safe chipDesc ps)
    (hfirst : firstAddress (memorySpaceInfo chipDesc space) ≤ ptr)
    (hptr : ptr ≤ (memorySpaceInfo chipDesc space).endAddress)
    (hround : alignUp ptr (memorySpaceInfo chipDesc space).alignment
      ≤ (memorySpaceInfo chipDesc space).endAddress) :
    ptr ≤ alignUp ptr (memorySpaceInfo chipDesc space).alignment ∧
      (memorySpaceInfo chipDesc space).alignment.toNat
        ∣ (alignUp ptr (memorySpaceInfo chipDesc space).alignment).toNat := by
  have hend := endAddress_lt chipDesc space
  have hptr' := UInt64.le_iff_toNat_le.mp hptr
  have hfirst' := UInt64.le_iff_toNat_le.mp hfirst
  -- the first buffer moves the pointer from the first address to `ptr`
  have hsize₁ := UInt64.toNat_sub_of_le _ _ hfirst
  have hmove : firstAddress (memorySpaceInfo chipDesc space)
      + (ptr - firstAddress (memorySpaceInfo chipDesc space)) = ptr := by grind
  have hsecond := fun size₂ hsize₂ hle₂ => hsafe _ _ ((@run_two _ _ hspace _ size₂ _)
    (by rw [hsize₁]; omega) hsize₂ hmove hptr hle₂)
  constructor
  · by_contra hlt
    rw [UInt64.not_le, UInt64.lt_iff_toNat_lt] at hlt
    -- the first buffer is not empty, since rounding fixes the first address
    have hne : (firstAddress (memorySpaceInfo chipDesc space)).toNat ≠ ptr.toNat := by
      intro heq
      rw [← UInt64.toNat_inj.mp heq, firstAddress, alignUp_alignUp] at hlt
      omega
    have hsize₂ := UInt64.toNat_sub_of_le _ _ (UInt64.le_iff_toNat_le.mpr hlt.le)
    have hback : alignUp ptr (memorySpaceInfo chipDesc space).alignment
        + (ptr - alignUp ptr (memorySpaceInfo chipDesc space).alignment) = ptr := by grind
    have hs := hsecond _ (by rw [hsize₂]; omega) (hback.symm ▸ hptr)
    have hdisjoint := (List.pairwise_cons.mp hs.disjoint).1 _ (List.mem_singleton.mpr rfl) rfl
    -- both buffers hold the last byte before `ptr`
    simp only [Placement.bytes, Set.Ico_disjoint_Ico, hsize₁, hsize₂] at hdisjoint
    omega
  · rw [alignment_eq chipDesc hspace]
    have hs := hsecond 0 (by decide) (by simpa using hround)
    exact hs.aligned _ (List.mem_cons_of_mem _ (List.mem_singleton.mpr rfl))

/-- **Necessity.**  If every run is safe, both device spaces stay inside. -/
theorem staysInside_of_safe (hspace : isDeviceMemorySpace space)
    (hsafe : ∀ ops ps, runAllocateBuffers chipDesc ops = some ps → Safe chipDesc ps) :
    StaysInside chipDesc space := by
  by_cases hfits : firstAddress (memorySpaceInfo chipDesc space)
    ≤ (memorySpaceInfo chipDesc space).endAddress
  · refine Or.inr ⟨endAddress_le_of_safe hspace hsafe hfits, ?_⟩
    rintro ptr (rfl | hfirst) hptr hround
    · exact round_base_of_safe hspace hsafe hround
    · exact round_later_of_safe hspace hsafe hfirst hptr hround
  · exact Or.inl (UInt64.not_le.mp hfits)

/-- **When allocation is safe.**  Every run of the allocator a descriptor configures is
safe exactly when both device spaces stay inside. -/
theorem allocateBuffers_safe_iff (chipDesc : ChipDescAttr) :
    (∀ ops ps, runAllocateBuffers chipDesc ops = some ps → Safe chipDesc ps) ↔
      ∀ space, isDeviceMemorySpace space → StaysInside chipDesc space :=
  ⟨fun hsafe _ hspace => staysInside_of_safe hspace hsafe,
    fun hinside _ _ h => allocateBuffers_safe hinside h⟩

/-- One L1 buffer that fills the default allocator reaches 1024 bytes into the scratch
region at 1495040. -/
theorem default_reaches_scratch :
    runAllocateBuffers ChipDescAttr.getDefault [⟨1495040, some .DeviceL1, by decide⟩]
        = some [⟨1495040, .DeviceL1, 1024, 16⟩] ∧
      reservedEnd ChipDescAttr.getDefault .DeviceL1 = 1495040 ∧
      ¬ ∀ ops ps, runAllocateBuffers ChipDescAttr.getDefault ops = some ps →
        Safe ChipDescAttr.getDefault ps := by
  have hrun : runAllocateBuffers ChipDescAttr.getDefault
      [⟨1495040, some .DeviceL1, by decide⟩] = some [⟨1495040, .DeviceL1, 1024, 16⟩] := by
    decide
  refine ⟨hrun, by decide, fun hsafe => ?_⟩
  have hbound := (hsafe _ _ hrun).below_end _ (List.mem_singleton.mpr rfl)
  exact absurd hbound (by decide)

end TTIRAllocate
