/-
# Retained tensors

A caller marks a tensor as retained so that programs do not deallocate it.  A deallocation
respects the mark, but gathering the outputs of a program clears the mark of every tensor an
output id denotes, also when it is the caller's.

* `record` : the tensors the caller has marked, and neither unmarked nor deallocated itself;
* `Survives`, `PoolsSound` : marked tensors are marked and allocated, pools act as maps;
* `KeepsRetained` : a step that does not clear, free or forcibly deallocate a marked tensor;
* `survives_of_reaches` : in every run of such steps marked tensors survive;
* `returned_input_not_survives` : a program that returns its input.
-/
import TTMLIR.ProgramExecutor

namespace TTNNRuntime

variable {κ ρ α : Type}

/-! ## What is promised -/

/-- The tensor is allocated. -/
def Memory.isAllocated (m : Memory α) (w : ℕ) : Bool :=
  ((m.storageOf w).bind m.contents).isSome

/-- The record of a run: the tensors the caller has marked as retained while they were
allocated, less those it has unmarked or deallocated itself. -/
def record (σ : State κ α) (marks : List ℕ) : Event ρ α → List ℕ
  | .call (.setTensorRetain tensor true) =>
    if σ.memory.isAllocated tensor then tensor :: marks else marks
  | .call (.setTensorRetain tensor false) => marks.filter fun w => w ≠ tensor
  | .call (.deallocateTensor tensor force) => marks.filter fun w =>
    ¬ (w = tensor ∨ (force = true ∧ σ.memory.storageOf w = σ.memory.storageOf tensor))
  | .call (.toLayout tensor _ retain) =>
    match σ.memory.wrappers[tensor]? with
    | none => marks
    | some wrapper =>
      if retain.getD wrapper.retain then σ.memory.wrappers.length :: marks
      else marks.filter fun w => w ≠ tensor
  | _ => marks

/-- The retain mark is set and the tensor is allocated. -/
def Survives (m : Memory α) (w : ℕ) : Prop :=
  ∃ wrapper a, m.wrappers[w]? = some wrapper ∧ wrapper.retain = true ∧
    m.contents wrapper.tensor = some a

/-- The pools of all running programs act as maps to existing tensors. -/
def PoolsSound (σ : State κ α) : Prop :=
  ∀ f ∈ σ.frames, f.pool.Sound σ.memory.wrappers.length

/-- Marked tensors survive and pools are sound. -/
def RetainedSurvive (σ : State κ α) (marks : List ℕ) : Prop :=
  (∀ w ∈ marks, Survives σ.memory w) ∧ PoolsSound σ

/-- A step that spares the marked tensors: a program that ends has none of them among its
outputs, a deallocation with `force` does not go through another tensor of the same storage,
and a library operation does not free their storages. -/
def KeepsRetained (K : Kernels κ ρ α) (σ : State κ α) (marks : List ℕ) : Event ρ α → Prop
  | .call _ => True
  | .exec =>
    match σ.frames with
    | [] => True
    | f :: _ =>
      match f.operations with
      | [] => ∀ globalId ∈ f.pool.programOutputIds, ∀ w,
          f.pool.getRuntimeTensor globalId = some w → w ∉ marks
      | .deallocate input true :: _ => ∀ w wrapper,
          f.pool.getRuntimeTensor input = some w → σ.memory.wrappers[w]? = some wrapper →
          wrapper.retain = false → ∀ m ∈ marks, σ.memory.storageOf m ≠ some wrapper.tensor
      | .compute kind inputs _ :: _ => ∀ storages effect,
          σ.effect K f kind inputs = some (storages, effect) →
          ∀ i ∈ effect.frees, ∀ s, storages[i]? = some s →
            ∀ m ∈ marks, σ.memory.storageOf m ≠ some s
      | _ => True

/-! ## The invariant -/

/-- What is known of a reachable state. -/
structure Keeps (σ : State κ α) (marks : List ℕ) : Prop where
  held : ∀ w ∈ σ.held, w < σ.memory.wrappers.length
  marks_held : ∀ w ∈ marks, w ∈ σ.held
  survives : ∀ w ∈ marks, Survives σ.memory w
  pools : ∀ f ∈ σ.frames, f.pool.WellFormed σ.memory.wrappers.length

variable {w : ℕ}

theorem Survives.grows {m m' : Memory α} (h : Survives m w) (hg : m.Grows m') : Survives m' w := by
  obtain ⟨wrapper, a, hwrapper, hretain, ha⟩ := h
  exact ⟨wrapper, a, hg.getElem? hwrapper, hretain, hg.contents ha⟩

variable {m : Memory α}

theorem Survives.storageOf (h : Survives m w) :
    ∃ s a, m.storageOf w = some s ∧ m.contents s = some a := by
  obtain ⟨wrapper, a, hwrapper, -, ha⟩ := h
  exact ⟨wrapper.tensor, a, by simp [Memory.storageOf, hwrapper], ha⟩

theorem Survives.of_wrappers {m m' : Memory α} (h : Survives m w)
    (hwrappers : m'.wrappers = m.wrappers)
    (hcontents : ∀ s a, m.storageOf w = some s → m.contents s = some a →
      ∃ a', m'.contents s = some a') : Survives m' w := by
  obtain ⟨wrapper, a, hwrapper, hretain, ha⟩ := h
  obtain ⟨a', ha'⟩ := hcontents wrapper.tensor a (by simp [Memory.storageOf, hwrapper]) ha
  exact ⟨wrapper, a', by rw [hwrappers]; exact hwrapper, hretain, ha'⟩

theorem Survives.free {w s : ℕ} (h : Survives m w)
    (hs : m.storageOf w ≠ some s) : Survives (m.free s) w := by
  have hwrappers : (m.free s).wrappers = m.wrappers := rfl
  apply h.of_wrappers hwrappers
  intro t a ht ha
  refine ⟨a, ?_⟩
  rw [Memory.contents_eq_some] at ha ⊢
  have hne : s ≠ t := fun heq => hs (heq ▸ ht)
  exact (List.getElem?_set_ne hne).trans ha

section Steps

variable {K : Kernels κ ρ α} {binary : Binary κ} {σ σ' : State κ α} {marks : List ℕ}
  {f : Frame κ} {rest : List (Frame κ)}

variable {ops : List (Op κ)}

/-- A library operation. -/
theorem Keeps.runCompute (h : Keeps σ marks) (hframes : σ.frames = f :: rest) {kind : κ}
    {inputs outputs : List ℕ}
    (hok : ∀ storages effect, σ.effect K f kind inputs = some (storages, effect) →
      ∀ i ∈ effect.frees, ∀ s, storages[i]? = some s → ∀ m ∈ marks, σ.memory.storageOf m ≠ some s)
    (hrun : σ.runCompute K f rest kind inputs outputs ops = some σ') : Keeps σ' marks := by
  obtain ⟨wrappers, storages, contents, effect, m₁, m₂, placed, m₃, pool, m₄, heffect, -, -, -, -,
    hwrite, hfree, hplace, -, hinsert, rfl⟩ := State.runCompute_cases hrun
  obtain ⟨hwr₁, -, -, -, halloc₁⟩ := Memory.writeAll_spec hwrite
  obtain ⟨hwr₂, -, -, hother₂, -⟩ := Memory.freeAll_spec hfree
  have hgrows₃ := Memory.grows_place hplace
  have hlen₂ : m₂.wrappers.length = σ.memory.wrappers.length := by rw [hwr₂, hwr₁]
  have hpool : f.pool.WellFormed m₃.wrappers.length :=
    (h.pools f (by simp [hframes])).mono (hlen₂ ▸ hgrows₃.wrappers_le)
  obtain ⟨hgrows₄, hpool₄, -, -⟩ := insertAll_spec hinsert hpool
  have hle : σ.memory.wrappers.length ≤ m₄.wrappers.length :=
    (hlen₂ ▸ hgrows₃.wrappers_le).trans hgrows₄.wrappers_le
  refine ⟨fun w hw => (h.held w hw).trans_le hle, h.marks_held, ?_, ?_⟩
  · intro w hw
    have hsurvives := h.survives w hw
    have h₁ : Survives m₁ w := hsurvives.of_wrappers hwr₁ fun s a _ ha => halloc₁ s a ha
    have h₂ : Survives m₂ w := by
      apply h₁.of_wrappers hwr₂
      intro s a hs ha
      have hs' : σ.memory.storageOf w = some s := by
        unfold Memory.storageOf at hs ⊢
        rw [← hwr₁]
        exact hs
      refine ⟨a, ?_⟩
      rw [Memory.contents_eq_some] at ha ⊢
      rw [hother₂ s fun i hi hsi => hok storages effect heffect i hi s hsi w hw hs']
      exact ha
    exact (h₂.grows hgrows₃).grows hgrows₄
  · intro g hg
    rcases List.mem_cons.mp hg with rfl | hg
    · exact hpool₄
    · exact (h.pools g (by simp [hframes, hg])).mono hle

/-- Deallocating a tensor that is not marked. -/
theorem Keeps.deallocate (h : Keeps σ marks) {force : Bool} (hw : w ∉ marks)
    (hok : force = true → ∀ s, σ.memory.storageOf w = some s →
      ∀ m ∈ marks, σ.memory.storageOf m ≠ some s) :
    ∀ m ∈ marks, Survives (σ.deallocate w force) m := by
  intro m hm
  rcases State.deallocate_cases σ w force with heq | ⟨s, hs, heq, hforce⟩
  · rw [heq]
    exact h.survives m hm
  · rw [heq]
    apply (h.survives m hm).free
    rcases hforce with hforce | hlast
    · exact hok hforce s hs m hm
    · -- the caller's handle of a marked tensor is another reference
      have href : m ∈ σ.references := by
        simp [State.references, h.marks_held m hm]
      exact hlast m href fun heq => hw (heq ▸ hm)

/-- A deallocation of a program. -/
theorem Keeps.runDeallocate (h : Keeps σ marks) (hframes : σ.frames = f :: rest) {input : ℕ}
    {force : Bool}
    (hok : force = true → ∀ w wrapper, f.pool.getRuntimeTensor input = some w →
      σ.memory.wrappers[w]? = some wrapper → wrapper.retain = false →
      ∀ m ∈ marks, σ.memory.storageOf m ≠ some wrapper.tensor)
    (hrun : σ.runDeallocate f rest input force ops = some σ') : Keeps σ' marks := by
  obtain ⟨w, wrapper, pool, hw, hwrapper, hpool, rfl⟩ := State.runDeallocate_cases hrun
  have hwf := (h.pools f (by simp [hframes])).erase hpool
  have hlen : (if ¬ wrapper.retain then σ.deallocate w force else σ.memory).wrappers
      = σ.memory.wrappers := by
    split_ifs
    · rfl
    · exact (σ.deallocate_spec w force).1
  refine ⟨?_, h.marks_held, ?_, ?_⟩
  · intro v hv
    show v < (if ¬ wrapper.retain then σ.deallocate w force else σ.memory).wrappers.length
    rw [hlen]
    exact h.held v hv
  · intro m hm
    show Survives (if ¬ wrapper.retain then σ.deallocate w force else σ.memory) m
    by_cases hretain : wrapper.retain = true
    · rw [if_neg (not_not.mpr hretain)]
      exact h.survives m hm
    · rw [if_pos hretain]
      have hunmarked : w ∉ marks := by
        intro hmem
        obtain ⟨v, a, hv, hvretain, -⟩ := h.survives w hmem
        rw [hwrapper] at hv
        cases hv
        exact hretain hvretain
      apply h.deallocate hunmarked _ m hm
      intro hforce s hs
      have hs' : s = wrapper.tensor := by
        simpa [Memory.storageOf, hwrapper, eq_comm] using hs
      rw [hs']
      exact hok hforce w wrapper hw hwrapper (by simpa using hretain)
  · intro g hg
    show g.pool.WellFormed (if ¬ wrapper.retain then σ.deallocate w force
      else σ.memory).wrappers.length
    rw [hlen]
    rcases List.mem_cons.mp hg with rfl | hg
    · exact hwf
    · exact h.pools g (by simp [hframes, hg])

/-- `load_cached` only adds wrappers. -/
theorem Keeps.runLoadCached (h : Keeps σ marks) (hframes : σ.frames = f :: rest)
    {calleeName : String} {programIdx : ℕ} {inputs outputs : List ℕ}
    (hrun : σ.runLoadCached binary f rest calleeName programIdx inputs outputs ops = some σ') :
    Keeps σ' marks := by
  obtain ⟨wrappers, inputWrappers, hw, -, hit | miss⟩ := State.runLoadCached_cases hrun
  · obtain ⟨tensors, storages, pool, m, -, -, -, hinsert, rfl⟩ := hit
    obtain ⟨hgrows, hpool, -, -⟩ := insertAll_spec hinsert (h.pools f (by simp [hframes]))
    refine ⟨fun w hw => (h.held w hw).trans_le hgrows.wrappers_le, h.marks_held,
      fun w hw => (h.survives w hw).grows hgrows, ?_⟩
    intro g hg
    rcases List.mem_cons.mp hg with rfl | hg
    · exact hpool
    · exact (h.pools g (by simp [hframes, hg])).mono hgrows.wrappers_le
  · obtain ⟨callee, -, henter, rfl⟩ := miss
    have hfpool := h.pools f (by simp [hframes])
    refine ⟨h.held, h.marks_held, h.survives, ?_⟩
    intro g hg
    rcases List.mem_cons.mp hg with rfl | hg
    · exact State.enter_spec henter (forall_lt_of_mapM hfpool hw)
    · rcases List.mem_cons.mp hg with rfl | hg
      · exact ⟨hfpool.inputs, hfpool.input, hfpool.intermed, hfpool.live⟩
      · exact h.pools g (by simp [hframes, hg])

theorem Survives.setRetainAll (h : Survives m w) {outs : List ℕ}
    (hw : w ∉ outs) : Survives (outs.foldl (fun m w => m.setRetain w false) m) w := by
  obtain ⟨hstorages, -, -, hother, -⟩ := Memory.setRetainAll_spec outs false m
  obtain ⟨wrapper, a, hwrapper, hretain, ha⟩ := h
  refine ⟨wrapper, a, (hother w hw).trans hwrapper, hretain, ?_⟩
  unfold Memory.contents
  rw [hstorages]
  exact ha

/-- An output of a program is the tensor of an output id. -/
theorem exists_id_of_mem_outs {pool : ProgramTensorPool} {ids outs : List ℕ}
    (h : ids.mapM pool.getRuntimeTensor = some outs) (hw : w ∈ outs) :
    ∃ globalId ∈ ids, pool.getRuntimeTensor globalId = some w := by
  induction ids generalizing outs with
  | nil =>
    cases h
    cases hw
  | cons globalId ids ih =>
    simp only [List.mapM_cons, bind, Option.bind_eq_some_iff, pure, Option.some.injEq] at h
    obtain ⟨v, hv, vs, hvs, rfl⟩ := h
    rcases List.mem_cons.mp hw with rfl | hw
    · exact ⟨globalId, by simp, hv⟩
    · obtain ⟨i, hi, hget⟩ := ih hvs hw
      exact ⟨i, by simp [hi], hget⟩

/-- The end of a program. -/
theorem Keeps.finish (h : Keeps σ marks) (hframes : σ.frames = f :: rest)
    (hok : ∀ globalId ∈ f.pool.programOutputIds, ∀ w,
      f.pool.getRuntimeTensor globalId = some w → w ∉ marks)
    (hrun : σ.finish f rest = some σ') : Keeps σ' marks := by
  obtain ⟨outs, houts, hret⟩ := State.finish_cases hrun
  have hfpool := h.pools f (by simp [hframes])
  have hlt := forall_lt_of_mapM hfpool houts
  obtain ⟨-, -, hlen, -, -⟩ := Memory.setRetainAll_spec outs false σ.memory
  have hsurvives : ∀ w ∈ marks,
      Survives (outs.foldl (fun m w => m.setRetain w false) σ.memory) w := by
    intro w hw
    apply (h.survives w hw).setRetainAll
    intro hmem
    obtain ⟨globalId, hid, hget⟩ := exists_id_of_mem_outs houts hmem
    exact hok globalId hid w hget hw
  rcases hret with ⟨-, rfl⟩ | ⟨cacheKey, calleeName, inputVersions, outputs, parent, rest',
    storages, pool, m, -, rfl, -, -, hinsert, rfl⟩
  · refine ⟨?_, fun w hw => List.mem_append_left _ (h.marks_held w hw), hsurvives, ?_⟩
    · intro w hw
      show w < (outs.foldl (fun m w => m.setRetain w false) σ.memory).wrappers.length
      rw [hlen]
      rcases List.mem_append.mp hw with hw | hw
      · exact h.held w hw
      · exact hlt w hw
    · intro g hg
      show g.pool.WellFormed (outs.foldl (fun m w => m.setRetain w false) σ.memory).wrappers.length
      rw [hlen]
      exact h.pools g (by simp [hframes, hg])
  · have hparent := h.pools parent (by simp [hframes])
    rw [← hlen] at hparent
    obtain ⟨hgrows, hpool, -, -⟩ := insertAll_spec hinsert hparent
    have hle : σ.memory.wrappers.length ≤ m.wrappers.length := by
      rw [← hlen]
      exact hgrows.wrappers_le
    refine ⟨fun w hw => (h.held w hw).trans_le hle, h.marks_held,
      fun w hw => (hsurvives w hw).grows hgrows, ?_⟩
    intro g hg
    rcases List.mem_cons.mp hg with rfl | hg
    · exact hpool
    · exact (h.pools g (by simp [hframes, hg])).mono hle

/-- An operation of a program. -/
theorem Keeps.exec (h : Keeps σ marks) (hok : KeepsRetained (ρ := ρ) K σ marks .exec)
    (hrun : σ.exec K binary = some σ') : Keeps σ' marks := by
  cases hframes : σ.frames with
  | nil =>
    unfold State.exec at hrun
    rw [hframes] at hrun
    cases hrun
  | cons f rest =>
    unfold State.exec at hrun
    unfold KeepsRetained at hok
    rw [hframes] at hrun hok
    cases hops : f.operations with
    | nil =>
      simp only [hops] at hrun hok
      exact h.finish hframes hok hrun
    | cons op ops =>
      cases op with
      | compute kind inputs outputs =>
        simp only [hops] at hrun hok
        exact h.runCompute hframes hok hrun
      | deallocate input force =>
        simp only [hops] at hrun hok
        apply h.runDeallocate hframes _ hrun
        intro hforce
        subst hforce
        exact hok
      | loadCached calleeName programIdx inputs outputs =>
        simp only [hops] at hrun
        exact h.runLoadCached hframes hrun

theorem Survives.setRetain_ne {w v : ℕ} (h : Survives m w) (hne : v ≠ w)
    (retain : Bool) : Survives (m.setRetain v retain) w := by
  obtain ⟨wrapper, a, hwrapper, hretain, ha⟩ := h
  refine ⟨wrapper, a, ?_, hretain, ha⟩
  simp [Memory.setRetain, hne, hwrapper]

theorem Survives.setRetain_self {w s : ℕ} {a : α} (hw : m.storageOf w = some s)
    (ha : m.contents s = some a) : Survives (m.setRetain w true) w := by
  obtain ⟨wrapper, hwrapper, rfl⟩ := Option.map_eq_some_iff.mp hw
  refine ⟨{ wrapper with retain := true }, a, ?_, rfl, ha⟩
  simp [Memory.setRetain, hwrapper]

section

variable (h : Keeps σ marks) (hframes : σ.frames = [])

include h hframes

/-- Marking an allocated tensor adds it to the record. -/
theorem Keeps.setTensorRetain {tensor : ℕ} (hheld : tensor ∈ σ.held) (retain : Bool) :
    Keeps { σ with memory := σ.memory.setRetain tensor retain }
      (record (ρ := ρ) σ marks (.call (.setTensorRetain tensor retain))) := by
  have hlen : (σ.memory.setRetain tensor retain).wrappers.length = σ.memory.wrappers.length := by
    simp [Memory.setRetain]
  have hheld' : ∀ w ∈ σ.held, w < (σ.memory.setRetain tensor retain).wrappers.length := by
    rw [hlen]
    exact h.held
  have hpools : ∀ f ∈ σ.frames,
      f.pool.WellFormed (σ.memory.setRetain tensor retain).wrappers.length := by
    rw [hframes]
    simp
  cases retain with
  | false =>
    refine ⟨hheld', ?_, ?_, hpools⟩
    · intro w hw
      exact h.marks_held w (List.mem_filter.mp hw).1
    · intro w hw
      obtain ⟨hmem, hne⟩ := List.mem_filter.mp hw
      have hne' : w ≠ tensor := of_decide_eq_true hne
      exact (h.survives w hmem).setRetain_ne hne'.symm false
  | true =>
    have hkeep : ∀ w ∈ marks, Survives (σ.memory.setRetain tensor true) w := by
      intro w hw
      by_cases heq : tensor = w
      · subst heq
        obtain ⟨s, a, hs, ha⟩ := (h.survives tensor hw).storageOf
        exact Survives.setRetain_self hs ha
      · exact (h.survives w hw).setRetain_ne heq true
    have hrecord : record (ρ := ρ) σ marks (.call (.setTensorRetain tensor true))
        = if σ.memory.isAllocated tensor then tensor :: marks else marks := rfl
    rw [hrecord]
    by_cases halloc : σ.memory.isAllocated tensor = true
    · rw [if_pos halloc]
      obtain ⟨a, ha⟩ := Option.isSome_iff_exists.mp halloc
      obtain ⟨s, hs, hcontents⟩ := Option.bind_eq_some_iff.mp ha
      refine ⟨hheld', ?_, ?_, hpools⟩
      · intro w hw
        rcases List.mem_cons.mp hw with rfl | hw
        · exact hheld
        · exact h.marks_held w hw
      · intro w hw
        rcases List.mem_cons.mp hw with rfl | hw
        · exact Survives.setRetain_self hs hcontents
        · exact hkeep w hw
    · rw [if_neg halloc]
      exact ⟨hheld', h.marks_held, hkeep, hpools⟩

/-- A call of the caller to deallocate a tensor. -/
theorem Keeps.deallocateTensor (tensor : ℕ) (force : Bool) :
    Keeps { σ with memory := σ.deallocate tensor force }
      (record (ρ := ρ) σ marks (.call (.deallocateTensor tensor force))) := by
  have hkept : Keeps σ (record (ρ := ρ) σ marks (.call (.deallocateTensor tensor force))) := by
    refine ⟨h.held, ?_, ?_, h.pools⟩
    · intro w hw
      exact h.marks_held w (List.mem_filter.mp hw).1
    · intro w hw
      exact h.survives w (List.mem_filter.mp hw).1
  have hspared : ∀ w ∈ record (ρ := ρ) σ marks (.call (.deallocateTensor tensor force)),
      w ≠ tensor ∧ (force = true → σ.memory.storageOf w ≠ σ.memory.storageOf tensor) := by
    intro w hw
    have hcond := (List.mem_filter.mp hw).2
    simp only [not_or, not_and, decide_eq_true_eq] at hcond
    exact hcond
  refine ⟨?_, hkept.marks_held, ?_, ?_⟩
  · intro w hw
    show w < (σ.deallocate tensor force).wrappers.length
    rw [(State.deallocate_spec _ tensor _).1]
    exact h.held w hw
  · apply hkept.deallocate
    · intro hmem
      exact (hspared tensor hmem).1 rfl
    · intro hforce s hs m hm
      rw [← hs]
      exact (hspared m hm).2 hforce
  · rw [hframes]
    simp

/-- Converting a tensor: the result takes over the mark, or the tensor is given up. -/
theorem Keeps.toLayout {tensor : ℕ} {layout : ρ}
    {retain : Option Bool} (hrun : σ.call K binary (.toLayout tensor layout retain) = some σ') :
    Keeps σ' (record σ marks (.call (.toLayout tensor layout retain))) := by
  simp only [State.call] at hrun
  split_ifs at hrun with hheld
  simp only [bind, Option.bind_eq_some_iff, Option.some.injEq] at hrun
  obtain ⟨wrapper, hwrapper, a, ha, rfl⟩ := hrun
  have hrecord : record σ marks (.call (.toLayout tensor layout retain))
      = if retain.getD wrapper.retain then σ.memory.wrappers.length :: marks
        else marks.filter fun w => w ≠ tensor := by
    show (match σ.memory.wrappers[tensor]? with | none => _ | some wrapper => _) = _
    rw [hwrapper]
  rw [hrecord]
  obtain ⟨s, m, hconvert⟩ : ∃ s m,
      σ.memory.convertLayout K layout wrapper.tensor a = (s, m) := ⟨_, _, rfl⟩
  obtain ⟨hgrows, hwrappers, -, b, hb⟩ := Memory.convertLayout_spec hconvert ha
  rw [hconvert]
  simp only
  have hgrows' := hgrows.trans (m.grows_createRuntimeTensor s (retain.getD wrapper.retain))
  have hnew : (m.createRuntimeTensor s (retain.getD wrapper.retain)).1
      = σ.memory.wrappers.length := by
    rw [← hwrappers]
    rfl
  have hlt : σ.memory.wrappers.length
      < (m.createRuntimeTensor s (retain.getD wrapper.retain)).2.wrappers.length := by
    rw [← hwrappers]
    simp [Memory.createRuntimeTensor]
  have hheld' : ∀ w ∈ σ.held ++ [(m.createRuntimeTensor s (retain.getD wrapper.retain)).1],
      w < (m.createRuntimeTensor s (retain.getD wrapper.retain)).2.wrappers.length := by
    intro w hw
    rcases List.mem_append.mp hw with hw | hw
    · exact (h.held w hw).trans_le hgrows'.wrappers_le
    · rw [List.mem_singleton, hnew] at hw
      rw [hw]
      exact hlt
  have hpools : ∀ bound, ∀ f ∈ σ.frames, f.pool.WellFormed bound := by
    rw [hframes]
    simp
  by_cases hretain : retain.getD wrapper.retain = true
  · -- the new tensor is marked, and the old one stays
    rw [if_pos hretain, if_neg (not_not.mpr hretain)]
    refine ⟨hheld', ?_, ?_, hpools _⟩
    · intro w hw
      rcases List.mem_cons.mp hw with rfl | hw
      · simp [hnew]
      · exact List.mem_append_left _ (h.marks_held w hw)
    · intro w hw
      rcases List.mem_cons.mp hw with rfl | hw
      · refine ⟨⟨s, true, m.latestVersion⟩, b, ?_, rfl, hb⟩
        rw [hretain, ← hwrappers]
        simp [Memory.createRuntimeTensor]
      · exact (h.survives w hw).grows hgrows'
  · -- the old tensor loses its mark, and is deallocated
    rw [if_neg hretain, if_pos hretain]
    have hkept : Keeps
        { σ with
          memory := (m.createRuntimeTensor s (retain.getD wrapper.retain)).2
          held := σ.held ++ [(m.createRuntimeTensor s (retain.getD wrapper.retain)).1] }
        (marks.filter fun w => w ≠ tensor) := by
      refine ⟨hheld', ?_, ?_, hpools _⟩
      · intro w hw
        exact List.mem_append_left _ (h.marks_held w (List.mem_filter.mp hw).1)
      · intro w hw
        exact (h.survives w (List.mem_filter.mp hw).1).grows hgrows'
    refine ⟨?_, hkept.marks_held, ?_, hpools _⟩
    · intro w hw
      show w < (State.deallocate _ tensor false).wrappers.length
      rw [(State.deallocate_spec _ tensor _).1]
      exact hkept.held w hw
    · apply hkept.deallocate
      · intro hmem
        simpa using (List.mem_filter.mp hmem).2
      · intro hforce
        cases hforce

/-- A call between submissions. -/
theorem Keeps.call (c : Call ρ α)
    (hrun : σ.call K binary c = some σ') : Keeps σ' (record σ marks (.call c)) := by
  cases c with
  | createTensor contents =>
    cases hrun
    have hgrows := (σ.memory.grows_allocate contents).trans
      ((σ.memory.allocate contents).2.grows_createRuntimeTensor
        (σ.memory.allocate contents).1 false)
    refine ⟨?_, fun w hw => List.mem_append_left _ (h.marks_held w hw),
      fun w hw => (h.survives w hw).grows hgrows, ?_⟩
    · intro w hw
      rcases List.mem_append.mp hw with hw | hw
      · exact (h.held w hw).trans_le hgrows.wrappers_le
      · rw [List.mem_singleton] at hw
        rw [hw]
        simp
    · rw [hframes]
      simp
  | memcpy dst src =>
    simp only [State.call] at hrun
    split_ifs at hrun
    simp only [bind, Option.bind_eq_some_iff, Option.some.injEq] at hrun
    obtain ⟨d, -, s, -, a, -, old, hold, rfl⟩ := hrun
    refine ⟨h.held, h.marks_held, ?_, ?_⟩
    · intro w hw
      have hwrappers : (σ.memory.write d a).wrappers = σ.memory.wrappers := rfl
      apply (h.survives w hw).of_wrappers hwrappers
      intro t b _ hb
      rw [Memory.contents_eq_some] at hb
      by_cases heq : d = t
      · subst heq
        refine ⟨a, Memory.contents_eq_some.mpr ?_⟩
        exact List.getElem?_set_self (List.getElem?_eq_some_iff.mp hb).1
      · exact ⟨b, Memory.contents_eq_some.mpr ((List.getElem?_set_ne heq).trans hb)⟩
    · rw [hframes]
      simp
  | toLayout tensor layout retain => exact h.toLayout hframes hrun
  | setTensorRetain tensor retain =>
    simp only [State.call] at hrun
    split_ifs at hrun with hheld
    cases hrun
    exact h.setTensorRetain hframes hheld retain
  | deallocateTensor tensor force =>
    simp only [State.call] at hrun
    split_ifs at hrun
    cases hrun
    exact h.deallocateTensor hframes tensor force
  | submit deviceId programIndex inputs =>
    simp only [State.call] at hrun
    split_ifs at hrun with hheld
    simp only [bind, Option.bind_eq_some_iff, Option.some.injEq] at hrun
    obtain ⟨f, hf, rfl⟩ := hrun
    refine ⟨h.held, h.marks_held, h.survives, ?_⟩
    intro g hg
    rw [List.mem_singleton] at hg
    subst hg
    exact State.enter_spec hf fun w hw => h.held w (hheld w hw)
  | clearCache =>
    cases hrun
    refine ⟨h.held, h.marks_held, h.survives, ?_⟩
    rw [hframes]
    simp

end

end Steps

/-- **Retained tensors survive.**  In every run whose steps spare the marked tensors, every
state reached has them marked and allocated, and the pools of its running programs act as
maps to existing tensors. -/
theorem survives_of_reaches {K : Kernels κ ρ α} {binary : Binary κ} {σ : State κ α}
    {marks : List ℕ} (h : Reaches K binary [] record (KeepsRetained K) σ marks) :
    RetainedSurvive σ marks := by
  have hkeeps : Keeps σ marks := by
    apply Reaches.invariant Keeps _ _ h
    · refine ⟨?_, ?_, ?_, ?_⟩
      all_goals simp [State.initial]
    · intro σ σ' marks e hinv hok hstep
      cases e with
      | exec => exact hinv.exec hok hstep
      | call c =>
        unfold State.step at hstep
        split_ifs at hstep with hframes
        exact hinv.call hframes c hstep
  exact ⟨hkeeps.survives, fun f hf => (hkeeps.pools f hf).sound⟩


/-! ## A program that returns its input -/

/-- A library without operations. -/
def noKernels : Kernels Unit Unit ℕ := ⟨fun _ _ => none, fun _ _ => .operand 0⟩

/-- Two programs: the identity, and one that deallocates its input. -/
def identityBinary : Binary Unit where
  programs := [⟨[0], [0], []⟩, ⟨[0], [], [.deallocate 0 false]⟩]

/-- A marked tensor that is only submitted to the second program survives it. -/
theorem survives_of_reaches_deallocate :
    ∃ σ : State Unit ℕ, σ.frames = [] ∧ σ.memory.storages = [some 7] ∧ RetainedSurvive σ [0] := by
  have created : Reaches noKernels identityBinary [] record (KeepsRetained noKernels) _ _ :=
    Reaches.init.step (e := .call (.createTensor 7)) trivial rfl
  have marked := created.step (e := .call (.setTensorRetain 0 true)) trivial rfl
  have submitted := marked.step (e := .call (.submit 0 1 [0])) trivial rfl
  have deallocated := submitted.step (e := .exec) trivial rfl
  have finished := deallocated.step (e := .exec) (by intro i hi; cases hi) rfl
  exact ⟨_, rfl, rfl, survives_of_reaches finished⟩

/-- A marked tensor is submitted to the identity and then to the second program: the first
submission clears its mark, the second one deallocates it. -/
theorem returned_input_not_survives :
    ∃ (σ : State Unit ℕ) (marks : List ℕ),
      Reaches noKernels identityBinary [] record (fun _ _ _ => True) σ marks ∧
      marks = [0] ∧ σ.memory.storages = [none] ∧ ¬ RetainedSurvive σ marks := by
  have created : Reaches noKernels identityBinary [] record (fun _ _ _ => True) _ _ :=
    Reaches.init.step (e := .call (.createTensor 7)) trivial rfl
  have marked := created.step (e := .call (.setTensorRetain 0 true)) trivial rfl
  have submitted := marked.step (e := .call (.submit 0 0 [0])) trivial rfl
  have returned := submitted.step (e := .exec) trivial rfl
  have again := returned.step (e := .call (.submit 0 1 [0])) trivial rfl
  have deallocated := again.step (e := .exec) trivial rfl
  refine ⟨_, _, deallocated, rfl, rfl, ?_⟩
  rintro ⟨hsurvive, -⟩
  obtain ⟨wrapper, a, hwrapper, -, ha⟩ := hsurvive 0 (by decide)
  cases hwrapper
  cases ha

end TTNNRuntime
