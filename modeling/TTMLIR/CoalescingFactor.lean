/-
# The coalescing factor of a gather

`GenericLowerDMAs.cpp` samples the memory map of a stream over a shard and counts how many
elements follow each other in memory: `calculateCoalescingFactor` starts from the shard volume
and takes the greatest common divisor with its counter wherever the run is broken off.  A shard
that is one run becomes one copy, any other a loop nest that copies single elements.

* `visit`, `sampleShard`, `calculateCoalescingFactor` : the translated functions;
* `elementGather`, `coalescedGather`, `lowered` : the copies of one shard;
* `Sound` : what the factor is for;
* `dvd_calculateCoalescingFactor` : the divisors of the factor, from the breaks alone;
* `sound_iff` : when the groups of the factor are contiguous.

At a break the counter is neither reset nor does it count the element that starts the new run,
so from the second break on it lags behind the position.
-/
import TTMLIR.Runs
import TTMLIR.CoreRangeSet

open MLIR MixedRadix CoreRangeSet Runs

namespace CoalescingFactor

/-! ## The translated code -/

/-- What the factor is calculated from.  A device layout splits the rank of a memref in two
halves, and a memory map has a byte offset as its last result. -/
structure Stream : Type where
  memoryMap : AffineMap
  gridShape : List ℕ
  shardShape : List ℕ
  elemSizeBytes : ℕ
  rank_eq : shardShape.length = gridShape.length
  results_ne_nil : memoryMap.results ≠ []

/-- The variables of the inner loop. -/
structure Sampling : Type where
  coalescingFactor : ℕ
  currentCoalescingFactor : ℕ
  nextAddress : List ℤ
  deriving DecidableEq, Repr

/-- `address.back() += elemSizeBytes`. -/
def advance (elemSizeBytes : ℕ) (address : List ℤ) : List ℤ :=
  address.modify (address.length - 1) (· + (elemSizeBytes : ℤ))

namespace Stream

variable (stream : Stream)

/-- `memoryMap.compose(memoryIndex)`. -/
def address (gridIndex shardIndex : List ℕ) : List ℤ :=
  stream.memoryMap.eval ((gridIndex ++ shardIndex).map fun i => (i : ℤ)) []

/-- The body of the inner loop, at one address. -/
def visit (sampling : Sampling) (address : List ℤ) : Sampling :=
  let nextAddress := advance stream.elemSizeBytes address
  if sampling.nextAddress = [] ∨ sampling.nextAddress = address then
    { sampling with
      currentCoalescingFactor := sampling.currentCoalescingFactor + 1
      nextAddress := nextAddress }
  else
    -- the counter goes on from where it is
    { sampling with
      coalescingFactor := sampling.coalescingFactor.gcd sampling.currentCoalescingFactor
      nextAddress := nextAddress }

/-- The body of the outer loop, at one grid index. -/
def sampleShard (coalescingFactor : ℕ) (gridIndex : List ℕ) : ℕ :=
  (((sample stream.shardShape).map (stream.address gridIndex)).foldl stream.visit
    ⟨coalescingFactor, 0, []⟩).coalescingFactor

/-- The shard volume. -/
def volume : ℕ := stream.shardShape.prod

/-- `calculateCoalescingFactor`. -/
def calculateCoalescingFactor : ℕ :=
  (sample stream.gridShape).foldl stream.sampleShard stream.volume

/-- The address of the element at a row-major position of the shard. -/
def addressAt (gridIndex : List ℕ) (position : ℕ) : List ℤ :=
  stream.address gridIndex (unravel stream.shardShape position)

/-- The gather of single elements: each position of the destination with the address it is
read from. -/
def elementGather (gridIndex : List ℕ) : List (ℕ × List ℤ) :=
  (List.range stream.volume).map fun position => (position, stream.addressAt gridIndex position)

/-- The gather of groups: each group is read from the address of its first element on. -/
def coalescedGather (factor : ℕ) (gridIndex : List ℕ) : List (ℕ × List ℤ) :=
  (List.range (stream.volume / factor)).flatMap fun group =>
    (List.range factor).map fun k =>
      (group * factor + k,
        (advance stream.elemSizeBytes)^[k] (stream.addressAt gridIndex (group * factor)))

/-- What the rewrite emits: one copy of the whole shard, or the loop nest. -/
def lowered (gridIndex : List ℕ) : List (ℕ × List ℤ) :=
  if stream.calculateCoalescingFactor = stream.volume then
    stream.coalescedGather stream.volume gridIndex
  else
    stream.elementGather gridIndex

/-! ## What the factor is for -/

/-- The element at a position is not where its predecessor ends. -/
abbrev BreaksAt (gridIndex : List ℕ) (position : ℕ) : Prop :=
  IsBreak (advance stream.elemSizeBytes) (stream.addressAt gridIndex) position

/-- The factor is sound: its groups are contiguous, it is the volume exactly for contiguous
shards, and both the gather of groups and the emitted copies read what the gather of single
elements reads. -/
structure Sound : Prop where
  groups : ∀ gridIndex, InShape gridIndex stream.gridShape → ∀ position < stream.volume,
    ¬ stream.calculateCoalescingFactor ∣ position → ¬ stream.BreaksAt gridIndex position
  full : stream.calculateCoalescingFactor = stream.volume ↔
    ∀ gridIndex, InShape gridIndex stream.gridShape → ∀ position < stream.volume,
      ¬ stream.BreaksAt gridIndex position
  gather : ∀ gridIndex, InShape gridIndex stream.gridShape →
    stream.coalescedGather stream.calculateCoalescingFactor gridIndex
      = stream.elementGather gridIndex
  emitted : ∀ gridIndex, InShape gridIndex stream.gridShape →
    stream.lowered gridIndex = stream.elementGather gridIndex

/-- Every shard has at most two runs. -/
def AtMostTwoRuns : Prop :=
  ∀ gridIndex, InShape gridIndex stream.gridShape →
    ∀ i < stream.volume, ∀ j < stream.volume,
      stream.BreaksAt gridIndex i → stream.BreaksAt gridIndex j → i = j

/-- The elements before a position that go on where their predecessor ends, and the first. -/
def unbrokenBefore (gridIndex : List ℕ) (position : ℕ) : ℕ :=
  counted (advance stream.elemSizeBytes) (stream.addressAt gridIndex) position

/-- The volume and the counts at the breaks have no common divisor but one. -/
def CoprimeBreaks : Prop :=
  ∀ d, d ∣ stream.volume →
    (∀ gridIndex, InShape gridIndex stream.gridShape → ∀ position < stream.volume,
      stream.BreaksAt gridIndex position → d ∣ stream.unbrokenBefore gridIndex position) → d = 1

/-! ## The loops -/

variable {stream}

theorem advance_ne_nil {n : ℕ} {address : List ℤ} (h : address ≠ []) : advance n address ≠ [] := by
  intro hnil
  apply h
  rw [← List.length_eq_zero_iff, ← List.length_modify (· + (n : ℤ)) address (address.length - 1)]
  exact List.length_eq_zero_iff.mpr hnil

theorem addressAt_ne_nil (gridIndex : List ℕ) (position : ℕ) :
    stream.addressAt gridIndex position ≠ [] := by
  intro h
  exact stream.results_ne_nil (List.map_eq_nil_iff.mp h)

theorem visited_eq (h : stream.shardShape ≠ []) (gridIndex : List ℕ) :
    (sample stream.shardShape).map (stream.address gridIndex)
      = (List.range stream.volume).map (stream.addressAt gridIndex) := by
  rw [sample_eq h, List.map_map]
  rfl

/-- **The inner loop.**  After the first `n` positions the counter is what `counted` says, and
the divisors of the factor are those that divide it at every break. -/
theorem foldl_visit (gridIndex : List ℕ) (coalescingFactor n : ℕ) :
    let sampling := ((List.range n).map (stream.addressAt gridIndex)).foldl stream.visit
      ⟨coalescingFactor, 0, []⟩
    sampling.currentCoalescingFactor = stream.unbrokenBefore gridIndex n ∧
      (sampling.nextAddress = if n = 0 then [] else
        advance stream.elemSizeBytes (stream.addressAt gridIndex (n - 1))) ∧
      ∀ d, d ∣ sampling.coalescingFactor ↔ d ∣ coalescingFactor ∧
        ∀ i < n, stream.BreaksAt gridIndex i → d ∣ stream.unbrokenBefore gridIndex i := by
  induction n with
  | zero => exact ⟨rfl, rfl, fun d => by simp⟩
  | succ n ih =>
    obtain ⟨hcurrent, hnext, hdvd⟩ := ih
    rw [List.range_succ, List.map_append, List.foldl_append]
    generalize ((List.range n).map (stream.addressAt gridIndex)).foldl stream.visit
      ⟨coalescingFactor, 0, []⟩ = sampling at hcurrent hnext hdvd ⊢
    have hcounted : stream.unbrokenBefore gridIndex (n + 1) = _ := counted_succ n
    by_cases hbreak : stream.BreaksAt gridIndex n
    · -- the gcd is taken, and the counter stays
      have hne : ¬ (sampling.nextAddress = [] ∨
          sampling.nextAddress = stream.addressAt gridIndex n) := by
        rw [hnext, if_neg hbreak.1.ne']
        rintro (hnil | heq)
        · exact advance_ne_nil (addressAt_ne_nil gridIndex _) hnil
        · exact hbreak.2 heq.symm
      rw [if_pos hbreak, Nat.add_zero] at hcounted
      simp only [List.map_cons, List.map_nil, List.foldl_cons, List.foldl_nil, visit, if_neg hne]
      refine ⟨hcurrent.trans hcounted.symm, by simp, fun d => ?_⟩
      rw [Nat.dvd_gcd_iff, hdvd, hcurrent, and_assoc]
      refine and_congr_right fun _ => ⟨?_, ?_⟩
      · rintro ⟨hbefore, hhere⟩ i hi hb
        rcases Nat.lt_succ_iff_lt_or_eq.mp hi with hlt | rfl
        · exact hbefore i hlt hb
        · exact hhere
      · intro h
        exact ⟨fun i hi => h i (by omega), h n (by omega) hbreak⟩
    · -- the element is counted
      have heq : sampling.nextAddress = [] ∨
          sampling.nextAddress = stream.addressAt gridIndex n := by
        rw [hnext]
        by_cases h0 : n = 0
        · exact Or.inl (if_pos h0)
        · right
          rw [if_neg h0]
          by_contra hne
          exact hbreak ⟨Nat.pos_of_ne_zero h0, fun h => hne h.symm⟩
      rw [if_neg hbreak] at hcounted
      simp only [List.map_cons, List.map_nil, List.foldl_cons, List.foldl_nil, visit, if_pos heq]
      refine ⟨?_, by simp, fun d => ?_⟩
      · rw [hcurrent]
        exact hcounted.symm
      · rw [hdvd]
        refine and_congr_right fun _ => ⟨?_, fun h i hi => h i (by omega)⟩
        intro h i hi hb
        rcases Nat.lt_succ_iff_lt_or_eq.mp hi with hlt | rfl
        · exact h i hlt hb
        · exact absurd hb hbreak

/-- The divisors of the factor after one shard. -/
theorem dvd_sampleShard (gridIndex : List ℕ) (coalescingFactor d : ℕ) :
    d ∣ stream.sampleShard coalescingFactor gridIndex ↔ d ∣ coalescingFactor ∧
      ∀ i < stream.volume, stream.BreaksAt gridIndex i → d ∣ stream.unbrokenBefore gridIndex i := by
  by_cases h : stream.shardShape = []
  · -- a shard of rank zero has a single element, which no address precedes
    have hvolume : stream.volume = 1 := by rw [volume, h, List.prod_nil]
    have hsample : stream.sampleShard coalescingFactor gridIndex = coalescingFactor := by
      rw [sampleShard, h]
      rfl
    rw [hsample, hvolume]
    refine ⟨fun hd => ⟨hd, fun i hi hb => ?_⟩, And.left⟩
    exact absurd hb.1 (by omega)
  · rw [sampleShard, visited_eq h]
    exact (foldl_visit gridIndex coalescingFactor stream.volume).2.2 d

theorem dvd_foldl_sampleShard (gridIndices : List (List ℕ)) (coalescingFactor d : ℕ) :
    d ∣ gridIndices.foldl stream.sampleShard coalescingFactor ↔ d ∣ coalescingFactor ∧
      ∀ gridIndex ∈ gridIndices, ∀ i < stream.volume, stream.BreaksAt gridIndex i →
        d ∣ stream.unbrokenBefore gridIndex i := by
  induction gridIndices generalizing coalescingFactor with
  | nil => simp
  | cons gridIndex rest ih =>
    rw [List.foldl_cons, ih, dvd_sampleShard, List.forall_mem_cons, and_assoc]

/-- **The divisors of the factor.** -/
theorem dvd_calculateCoalescingFactor (d : ℕ) :
    d ∣ stream.calculateCoalescingFactor ↔ d ∣ stream.volume ∧
      ∀ gridIndex, InShape gridIndex stream.gridShape → ∀ i < stream.volume,
        stream.BreaksAt gridIndex i → d ∣ stream.unbrokenBefore gridIndex i := by
  rw [calculateCoalescingFactor, dvd_foldl_sampleShard]
  refine and_congr_right fun _ => ?_
  by_cases h : stream.gridShape = []
  · have hshard : stream.shardShape = [] := by
      rw [← List.length_eq_zero_iff, stream.rank_eq, h, List.length_nil]
    have hvolume : stream.volume = 1 := by rw [volume, hshard, List.prod_nil]
    rw [h, hvolume]
    refine ⟨fun _ gridIndex _ i hi hb => absurd hb.1 (by omega), fun _ gridIndex hmem => ?_⟩
    exact absurd hmem (List.not_mem_nil)
  · exact forall_congr' fun gridIndex => imp_congr_left (mem_sample h gridIndex)

theorem calculateCoalescingFactor_dvd_volume : stream.calculateCoalescingFactor ∣ stream.volume :=
  ((dvd_calculateCoalescingFactor _).mp dvd_rfl).1

theorem calculateCoalescingFactor_dvd_unbrokenBefore {gridIndex : List ℕ}
    (hgrid : InShape gridIndex stream.gridShape) {i : ℕ} (hi : i < stream.volume)
    (hb : stream.BreaksAt gridIndex i) :
    stream.calculateCoalescingFactor ∣ stream.unbrokenBefore gridIndex i :=
  ((dvd_calculateCoalescingFactor _).mp dvd_rfl).2 gridIndex hgrid i hi hb

/-! ## The factor and the volume -/

/-- **The factor is the volume exactly for contiguous shards.** -/
theorem eq_volume_iff : stream.calculateCoalescingFactor = stream.volume ↔
      ∀ gridIndex, InShape gridIndex stream.gridShape → ∀ position < stream.volume,
        ¬ stream.BreaksAt gridIndex position := by
  constructor
  · intro h gridIndex hgrid i hi hb
    -- before the first break every element is counted, so the volume would divide its position
    have hex : ∃ j, j < stream.volume ∧ stream.BreaksAt gridIndex j := ⟨i, hi, hb⟩
    obtain ⟨hp, hbp⟩ := Nat.find_spec hex
    have hcount : stream.unbrokenBefore gridIndex (Nat.find hex) = Nat.find hex :=
      counted_of_unbroken fun j hj hbj => Nat.find_min hex hj ⟨hj.trans hp, hbj⟩
    have hdvd := calculateCoalescingFactor_dvd_unbrokenBefore hgrid hp hbp
    rw [h, hcount] at hdvd
    exact absurd (Nat.le_of_dvd hbp.1 hdvd) (Nat.not_le.mpr hp)
  · intro h
    apply Nat.dvd_antisymm calculateCoalescingFactor_dvd_volume
    apply (dvd_calculateCoalescingFactor _).mpr
    exact ⟨dvd_rfl, fun gridIndex hgrid i hi hb => absurd hb (h gridIndex hgrid i hi)⟩

/-! ## The copies -/

theorem flatMap_groups {β : Type} (f : ℕ → β) (groups factor : ℕ) :
    (List.range groups).flatMap (fun group =>
        (List.range factor).map fun k => f (group * factor + k))
      = (List.range (groups * factor)).map f := by
  induction groups with
  | zero => simp
  | succ groups ih =>
    rw [List.range_succ, List.flatMap_append, ih, Nat.succ_mul, List.range_add, List.map_append,
      List.map_map]
    simp

/-- The gather of groups, by positions. -/
theorem coalescedGather_eq {factor : ℕ} (hdvd : factor ∣ stream.volume) (gridIndex : List ℕ) :
    stream.coalescedGather factor gridIndex = (List.range stream.volume).map fun position =>
      (position, (advance stream.elemSizeBytes)^[position % factor]
        (stream.addressAt gridIndex (position / factor * factor))) := by
  rw [coalescedGather]
  nth_rewrite 2 [← Nat.div_mul_cancel hdvd]
  rw [← flatMap_groups]
  apply List.flatMap_congr
  intro group _
  apply List.map_congr_left
  intro k hk
  have hlt : k < factor := List.mem_range.mp hk
  have hdiv : (group * factor + k) / factor = group := by
    rw [Nat.mul_comm, Nat.mul_add_div (by omega), Nat.div_eq_of_lt hlt, Nat.add_zero]
  have hmod : (group * factor + k) % factor = k := by
    rw [Nat.mul_comm, Nat.mul_add_mod, Nat.mod_eq_of_lt hlt]
  rw [hdiv, hmod]

/-- **Whole groups.**  The gather of groups reads what the gather of elements reads exactly when
no break cuts a group. -/
theorem coalescedGather_eq_elementGather_iff {factor : ℕ} (hdvd : factor ∣ stream.volume)
    (gridIndex : List ℕ) :
    stream.coalescedGather factor gridIndex = stream.elementGather gridIndex ↔
      Whole (advance stream.elemSizeBytes) (stream.addressAt gridIndex) factor stream.volume := by
  rw [coalescedGather_eq hdvd, elementGather, whole_iff_iterate hdvd, List.map_inj_left]
  constructor
  · intro h i hi
    exact (Prod.mk.inj (h i (List.mem_range.mpr hi))).2.symm
  · intro h i hi
    rw [h i (List.mem_range.mp hi)]

/-- **The emitted copies** are those of the gather of single elements, for every stream. -/
theorem lowered_eq_elementGather {gridIndex : List ℕ} (hgrid : InShape gridIndex stream.gridShape) :
    stream.lowered gridIndex = stream.elementGather gridIndex := by
  unfold lowered
  split_ifs with h
  · apply (coalescedGather_eq_elementGather_iff dvd_rfl gridIndex).mpr
    intro i hi hb
    exact absurd hb (eq_volume_iff.mp h gridIndex hgrid i hi)
  · rfl

/-! ## Soundness -/

/-- The factor is sound exactly when its groups are whole. -/
theorem sound_iff_whole : stream.Sound ↔ ∀ gridIndex, InShape gridIndex stream.gridShape →
      Whole (advance stream.elemSizeBytes) (stream.addressAt gridIndex)
        stream.calculateCoalescingFactor stream.volume := by
  constructor
  · intro h gridIndex hgrid i hi hb
    by_contra hnot
    exact h.groups gridIndex hgrid i hi hnot hb
  · intro h
    exact {
      groups := fun gridIndex hgrid i hi hnot hb => hnot (h gridIndex hgrid i hi hb)
      full := eq_volume_iff
      gather := fun gridIndex hgrid => (coalescedGather_eq_elementGather_iff
        calculateCoalescingFactor_dvd_volume gridIndex).mpr (h gridIndex hgrid)
      emitted := fun gridIndex hgrid => lowered_eq_elementGather hgrid }

theorem eq_one_iff : stream.calculateCoalescingFactor = 1 ↔ stream.CoprimeBreaks := by
  constructor
  · intro h d hd hbreaks
    have := (dvd_calculateCoalescingFactor d).mpr ⟨hd, hbreaks⟩
    rw [h] at this
    exact Nat.dvd_one.mp this
  · intro h
    apply h
    · exact calculateCoalescingFactor_dvd_volume
    · exact fun gridIndex hgrid i hi hb => calculateCoalescingFactor_dvd_unbrokenBefore hgrid hi hb

end Stream

/-- **Soundness of the coalescing factor.**  The groups of the factor are contiguous and the
gather of groups is right exactly when every shard has at most two runs or the factor is one. -/
theorem sound_iff (stream : Stream) :
    stream.Sound ↔ stream.AtMostTwoRuns ∨ stream.CoprimeBreaks := by
  rw [Stream.sound_iff_whole, ← Stream.eq_one_iff]
  have hgroup : ∀ gridIndex, InShape gridIndex stream.gridShape → (_ ↔ _) :=
    fun gridIndex hgrid => whole_iff_of_dvd fun i hi hb =>
      Stream.calculateCoalescingFactor_dvd_unbrokenBefore hgrid hi hb
  constructor
  · intro h
    by_cases hone : stream.calculateCoalescingFactor = 1
    · exact Or.inr hone
    · left
      intro gridIndex hgrid
      exact ((hgroup gridIndex hgrid).mp (h gridIndex hgrid)).resolve_right hone
  · rintro (hruns | hone) gridIndex hgrid
    · exact (hgroup gridIndex hgrid).mpr (Or.inl (hruns gridIndex hgrid))
    · exact (hgroup gridIndex hgrid).mpr (Or.inr hone)

/-- A shard of six elements in runs of three, one and two. -/
def unequalRuns : Stream where
  memoryMap := ⟨2, 0, [.add (.dim 1) (.add (.mul (.constant 10) (.floorDiv (.dim 1) (.constant 3)))
    (.mul (.constant 10) (.floorDiv (.add (.dim 1) (.constant 2)) (.constant 6))))]⟩
  gridShape := [1]
  shardShape := [6]
  elemSizeBytes := 1
  rank_eq := rfl
  results_ne_nil := by decide

/-- The factor is three, although the fourth element stands alone. -/
theorem unequalRuns_not_sound : ¬ unequalRuns.Sound := by
  intro h
  refine h.groups [0] (by decide) 4 (by decide) (by decide) ?_
  decide

end CoalescingFactor
