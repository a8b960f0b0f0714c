/-
# Cached constants

A `load_cached` operation reuses the outputs of a const-eval function while the versions of
its inputs are the ones they were computed from.  A version is given to a wrapper when it is
constructed; `updateVersion` has no caller, so a tensor that is overwritten in place keeps
its version.

* `Runs`, `Evaluates` : what a program computes from contents, without wrappers, marks,
  versions, cache or deallocation; `Evaluates.unique`;
* `recordConstants` : the storages that `load_cached` operations have read and cached;
* `KeepsConstants` : a step that overwrites none of those and frees no cached tensor;
* `PairsOk` : the storages of a running function beside those of its evaluation;
* `neverStale_of_reaches` : in every run of such steps a hit is what the function would
  compute now;
* `overwritten_constant_stale` : a weight that is copied over between two submissions.
-/
import TTMLIR.ProgramExecutor
import TTMLIR.Fallible

namespace TTNNRuntime

open Runtime (TensorCache generateCacheOuterKey)
open Fallible

variable {κ ρ α : Type}

/-! ## What a program computes -/

/-- Storages and the ids that denote them. -/
structure Env (α : Type) : Type where
  memory : Memory α
  ids : ℕ → Option ℕ

namespace Env

/-- The inputs of a program. -/
def start (inputs : List ℕ) (contents : List α) : Env α :=
  ⟨⟨contents.map some, [], 0⟩, fun i => inputs.idxOf? i⟩

/-- Give ids to storages. -/
def bindAll : List (ℕ × ℕ) → (ℕ → Option ℕ) → ℕ → Option ℕ
  | [], ids => ids
  | (globalId, s) :: outputs, ids =>
    bindAll outputs (Function.update ids globalId (some s))

/-- The contents of ids. -/
def read (e : Env α) (ids : List ℕ) : Option (List α) := do
  let storages ← ids.mapM e.ids
  storages.mapM e.memory.contents

/-- A library operation. -/
def compute (K : Kernels κ ρ α) (e : Env α) (kind : κ) (inputs outputs : List ℕ) :
    Option (Env α) := do
  let storages ← inputs.mapM e.ids
  let contents ← storages.mapM e.memory.contents
  let effect ← K.run kind contents
  let m ← e.memory.writeAll storages effect.writes
  let (placed, m) ← m.place storages effect.results
  if placed.length ≠ outputs.length then none
  else some ⟨m, bindAll (outputs.zip placed) e.ids⟩

/-- Give ids to new storages with some contents. -/
def bindFresh : List ℕ → List α → Env α → Env α
  | globalId :: outputs, a :: results, e =>
    bindFresh outputs results
      ⟨(e.memory.allocate a).2, Function.update e.ids globalId (some e.memory.storages.length)⟩
  | _, _, e => e

end Env

/-- Operations take one environment to another; a `load_cached` operation evaluates its
function. -/
inductive Runs (K : Kernels κ ρ α) (binary : Binary κ) : List (Op κ) → Env α → Env α → Prop
  | nil (e : Env α) : Runs K binary [] e e
  | compute {ops : List (Op κ)} {e e₁ e₂ : Env α} {kind : κ} {inputs outputs : List ℕ}
      (before : Runs K binary ops e e₁) (hop : e₁.compute K kind inputs outputs = some e₂) :
      Runs K binary (ops ++ [.compute kind inputs outputs]) e e₂
  | deallocate {ops : List (Op κ)} {e e₁ : Env α} {input : ℕ} {force : Bool}
      (before : Runs K binary ops e e₁) :
      Runs K binary (ops ++ [.deallocate input force]) e
        ⟨e₁.memory, Function.update e₁.ids input none⟩
  | loadCached {ops : List (Op κ)} {e e₁ e₂ : Env α} {calleeName : String} {programIdx : ℕ}
      {inputs outputs : List ℕ} {program : Program κ} {contents results : List α}
      (before : Runs K binary ops e e₁) (hinputs : e₁.read inputs = some contents)
      (hprogram : binary.programs[programIdx]? = some program)
      (hcallee : Runs K binary program.operations (Env.start program.inputs contents) e₂)
      (hresults : e₂.read program.outputs = some results) :
      Runs K binary (ops ++ [.loadCached calleeName programIdx inputs outputs]) e
        (Env.bindFresh outputs results e₁)

/-- A program of the binary computes results from contents. -/
def Evaluates (K : Kernels κ ρ α) (binary : Binary κ) (programIdx : ℕ)
    (contents results : List α) : Prop :=
  ∃ program e, binary.programs[programIdx]? = some program ∧
    Runs K binary program.operations (Env.start program.inputs contents) e ∧
    e.read program.outputs = some results

variable {K : Kernels κ ρ α} {binary : Binary κ}

/-- Operations are deterministic. -/
theorem Runs.unique {ops : List (Op κ)} {e a b : Env α}
    (ha : Runs K binary ops e a) (hb : Runs K binary ops e b) : a = b := by
  induction ha generalizing b with
  | nil e =>
    generalize hops : ([] : List (Op κ)) = ops at hb
    cases hb with
    | nil => rfl
    | compute _ _ => simp at hops
    | deallocate _ => simp at hops
    | loadCached _ _ _ _ _ => simp at hops
  | @compute ops e e₁ e₂ kind inputs outputs before hop ih =>
    generalize hops : ops ++ [Op.compute kind inputs outputs] = all at hb
    cases hb with
    | nil => simp at hops
    | compute before' hop' =>
      obtain ⟨rfl, hlast⟩ := List.append_inj' hops rfl
      cases hlast
      obtain rfl := ih before'
      exact Option.some.inj (hop.symm.trans hop')
    | deallocate _ => cases (List.append_inj' hops rfl).2
    | loadCached _ _ _ _ _ => cases (List.append_inj' hops rfl).2
  | @deallocate ops e e₁ input force before ih =>
    generalize hops : ops ++ [Op.deallocate input force] = all at hb
    cases hb with
    | nil => simp at hops
    | compute _ _ => cases (List.append_inj' hops rfl).2
    | deallocate before' =>
      obtain ⟨rfl, hlast⟩ := List.append_inj' hops rfl
      cases hlast
      obtain rfl := ih before'
      rfl
    | loadCached _ _ _ _ _ => cases (List.append_inj' hops rfl).2
  | @loadCached ops e e₁ e₂ calleeName programIdx inputs outputs program contents results before
      hinputs hprogram hcallee hresults ih ihcallee =>
      generalize hops : ops ++ [Op.loadCached calleeName programIdx inputs outputs] = all at hb
      cases hb with
      | nil => simp at hops
      | compute _ _ => cases (List.append_inj' hops rfl).2
      | deallocate _ => cases (List.append_inj' hops rfl).2
      | loadCached before' hinputs' hprogram' hcallee' hresults' =>
        obtain ⟨rfl, hlast⟩ := List.append_inj' hops rfl
        cases hlast
        obtain rfl := ih before'
        obtain rfl := Option.some.inj (hinputs.symm.trans hinputs')
        obtain rfl := Option.some.inj (hprogram.symm.trans hprogram')
        obtain rfl := ihcallee hcallee'
        obtain rfl := Option.some.inj (hresults.symm.trans hresults')
        rfl

theorem Evaluates.unique {programIdx : ℕ}
    {contents a b : List α} (ha : Evaluates K binary programIdx contents a)
    (hb : Evaluates K binary programIdx contents b) : a = b := by
  obtain ⟨program, e, hprogram, hruns, hread⟩ := ha
  obtain ⟨program', e', hprogram', hruns', hread'⟩ := hb
  obtain rfl := Option.some.inj (hprogram.symm.trans hprogram')
  obtain rfl := hruns.unique hruns'
  exact Option.some.inj (hread.symm.trans hread')

/-! ## What is promised -/

/-- The storages that ids of a running program denote. -/
def State.storagesOf (σ : State κ α) (f : Frame κ) (ids : List ℕ) : List ℕ :=
  (ids.filterMap f.pool.getRuntimeTensor).filterMap σ.memory.storageOf

/-- The record of a run: the storages that `load_cached` operations read, and at the end of
their functions those that they cache; clearing the cache forgets them. -/
def recordConstants (σ : State κ α) (g : List ℕ) : Event ρ α → List ℕ
  | .exec =>
    match σ.frames with
    | [] => g
    | f :: _ =>
      match f.operations with
      | .loadCached _ _ inputs _ :: _ => g ++ σ.storagesOf f inputs
      | [] =>
        match f.ret with
        | .submit => g
        | .cached _ _ _ _ => g ++ σ.storagesOf f f.pool.programOutputIds
      | _ => g
  | .call .clearCache => []
  | .call _ => g

/-- The storage of a tensor in the cache. -/
def State.Caches (σ : State κ α) (s : ℕ) : Prop :=
  ∃ outer inner value, σ.cache.entry outer inner = some value ∧
    ∃ w ∈ value.tensors, σ.memory.storageOf w = some s

/-- A step that overwrites in place nothing that a `load_cached` operation has read or
cached; the inputs of a `load_cached` operation, and outputs that are cached, are allocated. -/
def KeepsContents (K : Kernels κ ρ α) (σ : State κ α) (g : List ℕ) : Event ρ α → Prop
  | .exec =>
    match σ.frames with
    | [] => True
    | f :: _ =>
      match f.operations with
      | .compute kind inputs _ :: _ => ∀ storages effect,
          σ.effect K f kind inputs = some (storages, effect) →
          ∀ p ∈ effect.writes, ∀ s, storages[p.1]? = some s → s ∉ g
      | .loadCached _ _ inputs _ :: _ =>
        ∀ s ∈ σ.storagesOf f inputs, (σ.memory.contents s).isSome
      | [] => f.ret = .submit ∨
          ∀ s ∈ σ.storagesOf f f.pool.programOutputIds, (σ.memory.contents s).isSome
      | _ => True
  | .call (.memcpy dst _) => ∀ s, σ.memory.storageOf dst = some s → s ∉ g
  | .call _ => True

/-- Deallocating a tensor frees the storage. -/
def State.Releases (σ : State κ α) (w : ℕ) (force : Bool) (s : ℕ) : Prop :=
  σ.memory.storageOf w = some s ∧
    (force = true ∨ ∀ w' ∈ σ.references, w' ≠ w → σ.memory.storageOf w' ≠ some s)

/-- A step frees the storage: a library operation frees an operand, or a tensor without a mark
is deallocated. -/
def State.Frees (K : Kernels κ ρ α) (σ : State κ α) (s : ℕ) : Event ρ α → Prop
  | .exec =>
    match σ.frames with
    | [] => False
    | f :: _ =>
      match f.operations with
      | .compute kind inputs _ :: _ => ∃ storages effect,
          σ.effect K f kind inputs = some (storages, effect) ∧
            ∃ i ∈ effect.frees, storages[i]? = some s
      | .deallocate input force :: _ => ∃ w wrapper, f.pool.getRuntimeTensor input = some w ∧
          σ.memory.wrappers[w]? = some wrapper ∧ wrapper.retain = false ∧ σ.Releases w force s
      | _ => False
  | .call (.toLayout w layout retain) => ∃ wrapper a b, σ.memory.wrappers[w]? = some wrapper ∧
      σ.memory.contents wrapper.tensor = some a ∧ retain.getD wrapper.retain = false ∧
      K.convertTensorLayout layout a = .fresh b ∧ σ.Releases w false s
  | .call (.deallocateTensor w force) => σ.Releases w force s
  | .call _ => False

/-- Such a step, if it also frees no storage of a cached tensor. -/
structure KeepsConstants (K : Kernels κ ρ α) (σ : State κ α) (g : List ℕ) (e : Event ρ α) :
    Prop where
  contents : KeepsContents K σ g e
  cached : ∀ s, σ.Caches s → ¬ σ.Frees K s e

/-- One callee name of a program stands for one program of the binary. -/
def Binary.CalleesConsistent (binary : Binary κ) : Prop :=
  ∀ program ∈ binary.programs, ∀ calleeName programIdx programIdx' inputs inputs' outputs outputs',
    Op.loadCached calleeName programIdx inputs outputs ∈ program.operations →
    Op.loadCached calleeName programIdx' inputs' outputs' ∈ program.operations →
    programIdx = programIdx'

/-- When the next operation is a `load_cached` operation that hits the cache, the cached
tensors are allocated and hold what its function computes from the current contents of its
inputs. -/
def NeverStale (K : Kernels κ ρ α) (binary : Binary κ) (σ : State κ α) : Prop :=
  ∀ f rest calleeName programIdx inputs outputs ops wrappers inputWrappers contents tensors,
    σ.frames = f :: rest →
    f.operations = .loadCached calleeName programIdx inputs outputs :: ops →
    inputs.mapM f.pool.getRuntimeTensor = some wrappers →
    wrappers.mapM (fun w => σ.memory.wrappers[w]?) = some inputWrappers →
    inputWrappers.mapM (fun wrapper => σ.memory.contents wrapper.tensor) = some contents →
    (σ.cache.getAll (generateCacheOuterKey f.deviceId f.programIndex) calleeName
      (inputWrappers.map TTNNTensorWrapper.version)).1 = some tensors →
    ∃ results storages, Evaluates K binary programIdx contents results ∧
      tensors.mapM σ.memory.storageOf = some storages ∧
      storages.mapM σ.memory.contents = some results

/-! ## Storages beside their evaluation -/

/-- Storages `p.1` of a running function beside the storages `p.2` of its evaluation: the
function's own are at or above `base`, the others are constant; allocated contents agree;
and, constants apart, storages are shared as in the evaluation. -/
structure PairsOk (m slots : Memory α) (g : List ℕ) (base limit : ℕ) (P : List (ℕ × ℕ)) :
    Prop where
  lt : ∀ p ∈ P, p.1 < limit
  owned : ∀ p ∈ P, p.1 ∈ g ∨ base ≤ p.1
  contents : ∀ p ∈ P, ∃ a, slots.contents p.2 = some a ∧
    ∀ b, m.contents p.1 = some b → b = a
  slot : ∀ p ∈ P, ∀ q ∈ P, p.2 = q.2 → p.1 = q.1
  share : ∀ p ∈ P, ∀ q ∈ P, p.1 = q.1 → p.2 = q.2 ∨ p.1 ∈ g

section Pairs

variable {m m' slots slots' : Memory α} {g g' : List ℕ} {base limit : ℕ} {P : List (ℕ × ℕ)}

theorem PairsOk.mono (h : PairsOk m slots g base limit P) (hg : ∀ s, s ∈ g → s ∈ g')
    {limit' : ℕ} (hlimit : limit ≤ limit')
    (hm : ∀ s < limit, ∀ b, m'.contents s = some b → m.contents s = some b) :
    PairsOk m' slots g' base limit' P where
  lt p hp := (h.lt p hp).trans_le hlimit
  owned p hp := (h.owned p hp).imp_left (hg _)
  contents p hp := by
    obtain ⟨a, ha, hb⟩ := h.contents p hp
    exact ⟨a, ha, fun b hcontents => hb b (hm p.1 (h.lt p hp) b hcontents)⟩
  slot := h.slot
  share p hp q hq heq := (h.share p hp q hq heq).imp_right (hg _)

/-- An overwritten storage of the function's own is overwritten in the evaluation. -/
theorem PairsOk.write (h : PairsOk m slots g base limit P) {p : ℕ × ℕ} (hp : p ∈ P)
    (hconst : p.1 ∉ g) (a : α) : PairsOk (m.write p.1 a) (slots.write p.2 a) g base limit P where
  lt := h.lt
  owned := h.owned
  contents q hq := by
    obtain ⟨c, hc, hb⟩ := h.contents q hq
    rw [Memory.contents_eq_some] at hc
    by_cases heq : p.1 = q.1
    · have hslot : p.2 = q.2 := (h.share p hp q hq heq).resolve_right hconst
      refine ⟨a, ?_, ?_⟩
      · rw [Memory.contents_eq_some, ← hslot]
        exact List.getElem?_set_self (hslot ▸ (List.getElem?_eq_some_iff.mp hc).1)
      · intro b hcontents
        rw [Memory.contents_eq_some, ← heq] at hcontents
        have hlt : p.1 < m.storages.length := by
          simpa [Memory.write] using (List.getElem?_eq_some_iff.mp hcontents).1
        have hself : (m.write p.1 a).storages[p.1]? = some (some a) := List.getElem?_set_self hlt
        rw [hself] at hcontents
        cases hcontents
        rfl
    · have hslot : p.2 ≠ q.2 := fun hslot => heq (h.slot p hp q hq hslot)
      refine ⟨c, ?_, ?_⟩
      · rw [Memory.contents_eq_some]
        exact (List.getElem?_set_ne hslot).trans hc
      · intro b hcontents
        apply hb
        rw [Memory.contents_eq_some] at hcontents ⊢
        exact (List.getElem?_set_ne heq).symm.trans hcontents
  slot := h.slot
  share := h.share

variable {ss ts : List ℕ}

section

variable (h : PairsOk m slots g base limit P)

include h

/-- Writes to operands that are not constant. -/
theorem PairsOk.writeAll
    (hpairs : List.Forall₂ (fun s t => (s, t) ∈ P) ss ts) {writes : List (ℕ × α)}
    (hconst : ∀ p ∈ writes, ∀ s, ss[p.1]? = some s → s ∉ g)
    (hwrite : m.writeAll ss writes = some m') :
    ∃ slots', slots.writeAll ts writes = some slots' ∧ PairsOk m' slots' g base limit P := by
  induction writes generalizing m slots with
  | nil =>
    cases hwrite
    exact ⟨slots, rfl, h⟩
  | cons p writes ih =>
    obtain ⟨i, a⟩ := p
    simp only [Memory.writeAll, bind, Option.bind_eq_some_iff] at hwrite
    obtain ⟨s, hs, hwrite⟩ := hwrite
    obtain ⟨t, ht, hmem⟩ := exists_getElem?_of_forall₂ hpairs hs
    have hstep := h.write hmem (hconst (i, a) (by simp) s hs) a
    obtain ⟨slots', hslots', h'⟩ := ih hstep (fun p hp => hconst p (by simp [hp])) hwrite
    refine ⟨slots', ?_, h'⟩
    simp only [Memory.writeAll, bind, ht, Option.bind_some]
    exact hslots'

/-- A storage beside a new one with its contents: a constant, or one of the function's own
that is beside nothing yet. -/
theorem PairsOk.cons {s : ℕ} (hs : s < limit) (howned : s ∈ g ∨ base ≤ s)
    (hnew : s ∈ g ∨ ∀ p ∈ P, p.1 ≠ s) {a : α} (ha : ∀ b, m.contents s = some b → b = a) :
    PairsOk m (slots.allocate a).2 g base limit ((s, slots.storages.length) :: P) := by
  have hslot : ∀ p ∈ P, p.2 < slots.storages.length := by
    intro p hp
    obtain ⟨c, hc, -⟩ := h.contents p hp
    rw [Memory.contents_eq_some] at hc
    exact (List.getElem?_eq_some_iff.mp hc).1
  refine ⟨?_, ?_, ?_, ?_, ?_⟩
  · intro p hp
    rcases List.mem_cons.mp hp with rfl | hp
    · exact hs
    · exact h.lt p hp
  · intro p hp
    rcases List.mem_cons.mp hp with rfl | hp
    · exact howned
    · exact h.owned p hp
  · intro p hp
    rcases List.mem_cons.mp hp with rfl | hp
    · refine ⟨a, ?_, ha⟩
      rw [Memory.contents_eq_some]
      simp [Memory.allocate]
    · obtain ⟨c, hc, hb⟩ := h.contents p hp
      exact ⟨c, (slots.grows_allocate a).contents hc, hb⟩
  · intro p hp q hq heq
    rcases List.mem_cons.mp hp with rfl | hp
    · rcases List.mem_cons.mp hq with rfl | hq
      · rfl
      · exact absurd heq (hslot q hq).ne'
    · rcases List.mem_cons.mp hq with rfl | hq
      · exact absurd heq (hslot p hp).ne
      · exact h.slot p hp q hq heq
  · intro p hp q hq heq
    rcases List.mem_cons.mp hp with rfl | hp
    · rcases List.mem_cons.mp hq with rfl | hq
      · exact .inl rfl
      · exact .inr (hnew.resolve_right fun hne => hne q hq heq.symm)
    · rcases List.mem_cons.mp hq with rfl | hq
      · exact .inr (heq ▸ hnew.resolve_right fun hne => hne p hp heq)
      · exact h.share p hp q hq heq

/-- A new storage beside a new storage. -/
theorem PairsOk.allocate (hlimit : limit = m.storages.length)
    (hbase : base ≤ m.storages.length) (a : α) :
    PairsOk (m.allocate a).2 (slots.allocate a).2 g base (m.allocate a).2.storages.length
      ((m.storages.length, slots.storages.length) :: P) := by
  subst hlimit
  have hgrown : PairsOk (m.allocate a).2 slots g base (m.allocate a).2.storages.length P := by
    refine h.mono (fun _ => id) (m.grows_allocate a).storages_le fun s hs b hb => ?_
    rw [Memory.contents_eq_some] at hb ⊢
    exact ((m.grows_allocate a).storages s hs).symm.trans hb
  refine hgrown.cons (by simp [Memory.allocate]) (.inr hbase)
    (.inr fun p hp => (h.lt p hp).ne) fun b hb => ?_
  rw [Memory.contents_eq_some] at hb
  simpa [Memory.allocate, eq_comm] using hb

/-- Results are placed in step. -/
theorem PairsOk.place (hlimit : limit = m.storages.length) (hbase : base ≤ m.storages.length)
    (hpairs : List.Forall₂ (fun s t => (s, t) ∈ P) ss ts) {results : List (Result α)}
    {placed : List ℕ} (hplace : m.place ss results = some (placed, m')) :
    ∃ placed' slots' P', slots.place ts results = some (placed', slots') ∧ P ⊆ P' ∧
      List.Forall₂ (fun s t => (s, t) ∈ P') placed placed' ∧
      PairsOk m' slots' g base m'.storages.length P' := by
  induction results generalizing m slots limit P placed with
  | nil =>
    cases hplace
    exact ⟨[], slots, P, rfl, fun _ hp => hp, List.Forall₂.nil, hlimit ▸ h⟩
  | cons result results ih =>
    cases result with
    | fresh a =>
      simp only [Memory.place, bind, Option.bind_eq_some_iff, Option.some.injEq,
        Prod.mk.injEq, Prod.exists] at hplace
      obtain ⟨rest, m'', hrest, rfl, rfl⟩ := hplace
      have hstep := h.allocate hlimit hbase a
      obtain ⟨rest', slots', P', hrest', hsub, hforall, h'⟩ :=
        ih hstep rfl (hbase.trans (m.grows_allocate a).storages_le)
          (hpairs.imp fun s t hst => List.mem_cons_of_mem _ hst) hrest
      refine ⟨(slots.allocate a).1 :: rest', slots', P', ?_,
        fun p hp => hsub (List.mem_cons_of_mem _ hp),
        List.Forall₂.cons (hsub List.mem_cons_self) hforall, h'⟩
      simp only [Memory.place, bind, hrest', Option.bind_some]
    | operand position =>
      simp only [Memory.place, bind, Option.bind_eq_some_iff, Option.some.injEq,
        Prod.mk.injEq, Prod.exists] at hplace
      obtain ⟨s, hs, rest, m'', hrest, rfl, rfl⟩ := hplace
      obtain ⟨t, ht, hmem⟩ := exists_getElem?_of_forall₂ hpairs hs
      obtain ⟨rest', slots', P', hrest', hsub, hforall, h'⟩ := ih h hlimit hbase hpairs hrest
      refine ⟨t :: rest', slots', P', ?_, hsub, List.Forall₂.cons (hsub hmem) hforall, h'⟩
      simp only [Memory.place, bind, ht, hrest', Option.bind_some]

/-- The contents of allocated storages are those of the evaluation. -/
theorem PairsOk.mapM_contents
    (hpairs : List.Forall₂ (fun s t => (s, t) ∈ P) ss ts) {contents : List α}
    (hcontents : ss.mapM m.contents = some contents) : ts.mapM slots.contents = some contents := by
  rw [mapM_eq_some_iff] at hcontents ⊢
  induction hpairs generalizing contents with
  | nil =>
    cases hcontents
    exact List.Forall₂.nil
  | cons hhead _ ih =>
    cases hcontents with
    | cons hb hrest =>
      obtain ⟨a, ha, hsame⟩ := h.contents _ hhead
      obtain rfl := hsame _ hb
      exact List.Forall₂.cons ha (ih hrest)

end

/-- The ids of a pool and of the evaluation denote storages side by side. -/
def Linked (m : Memory α) (P : List (ℕ × ℕ)) (pool : ProgramTensorPool) (ids : ℕ → Option ℕ) :
    Prop :=
  ∀ i, (pool.getRuntimeTensor i = none ∧ ids i = none) ∨
    ∃ w s t, pool.getRuntimeTensor i = some w ∧ m.storageOf w = some s ∧ ids i = some t ∧
      (s, t) ∈ P

variable {pool pool' : ProgramTensorPool} {ids : ℕ → Option ℕ}

theorem Linked.mono (h : Linked m P pool ids) {P' : List (ℕ × ℕ)} (hP : P ⊆ P')
    (hm : ∀ w s, m.storageOf w = some s → m'.storageOf w = some s) : Linked m' P' pool ids := by
  intro i
  rcases h i with hnone | ⟨w, s, t, hw, hs, ht, hst⟩
  · exact .inl hnone
  · exact .inr ⟨w, s, t, hw, hm w s hs, ht, hP hst⟩

/-- Operands denote storages side by side. -/
theorem Linked.mapM (h : Linked m P pool ids) {inputs wrappers storages : List ℕ}
    (hw : inputs.mapM pool.getRuntimeTensor = some wrappers)
    (hs : wrappers.mapM m.storageOf = some storages) :
    ∃ slots, inputs.mapM ids = some slots ∧
      List.Forall₂ (fun s t => (s, t) ∈ P) storages slots := by
  rw [mapM_eq_some_iff] at hw hs
  induction hw generalizing storages with
  | nil =>
    cases hs
    exact ⟨[], rfl, List.Forall₂.nil⟩
  | @cons i w inputs wrappers hget _ ih =>
    cases hs with
    | cons hhead hrest =>
      obtain ⟨slots, hslots, hpairs⟩ := ih hrest
      rcases h i with ⟨hnone, -⟩ | ⟨w', s', t, hw', hs', ht, hst⟩
      · rw [hget] at hnone
        cases hnone
      · obtain rfl := Option.some.inj (hget.symm.trans hw')
        obtain rfl := Option.some.inj (hhead.symm.trans hs')
        refine ⟨t :: slots, ?_, List.Forall₂.cons hst hpairs⟩
        rw [List.mapM_cons, ht, hslots]
        rfl

theorem Linked.insert (h : Linked m P pool ids) {bound : ℕ} (hpool : pool.WellFormed bound)
    {globalId w s t : ℕ} (hs : m.storageOf w = some s) (hst : (s, t) ∈ P) :
    Linked m P (pool.insert globalId w) (Function.update ids globalId (some t)) := by
  intro i
  by_cases heq : i = globalId
  · subst heq
    refine .inr ⟨w, s, t, ?_, hs, ?_, hst⟩
    · rw [hpool.getRuntimeTensor_insert, if_pos rfl]
    · rw [Function.update_self]
  · rw [hpool.getRuntimeTensor_insert, if_neg heq, Function.update_of_ne heq]
    exact h i

theorem Linked.erase (h : Linked m P pool ids) {bound : ℕ} (hpool : pool.WellFormed bound)
    {globalId : ℕ} (herase : pool.erase globalId = some pool') :
    Linked m P pool' (Function.update ids globalId none) := by
  intro i
  rw [hpool.getRuntimeTensor_erase herase]
  by_cases heq : i = globalId
  · subst heq
    exact .inl ⟨if_pos rfl, Function.update_self ..⟩
  · rw [if_neg heq, Function.update_of_ne heq]
    exact h i

theorem storageOf_createRuntimeTensor (m : Memory α) (s : ℕ) (retain : Bool) :
    (m.createRuntimeTensor s retain).2.storageOf (m.createRuntimeTensor s retain).1 = some s := by
  simp [Memory.createRuntimeTensor, Memory.storageOf]

theorem lt_createRuntimeTensor (m : Memory α) (s : ℕ) (retain : Bool) :
    (m.createRuntimeTensor s retain).1 < (m.createRuntimeTensor s retain).2.wrappers.length := by
  simp [Memory.createRuntimeTensor]

/-- Results are inserted in step. -/
theorem Linked.insertAll (h : Linked m P pool ids) (hpool : pool.WellFormed m.wrappers.length)
    {outputs placed placed' : List ℕ} (hpairs : List.Forall₂ (fun s t => (s, t) ∈ P) placed placed')
    (hinsert : insertAll (outputs.zip placed) pool m = (pool', m')) :
    Linked m' P pool' (Env.bindAll (outputs.zip placed') ids) := by
  induction hpairs generalizing outputs pool m ids with
  | nil =>
    rw [List.zip_nil_right] at hinsert
    cases hinsert
    rw [List.zip_nil_right]
    exact h
  | @cons s t placed placed' hst _ ih =>
    cases outputs with
    | nil =>
      cases hinsert
      exact h
    | cons globalId outputs =>
      have hgrows := m.grows_createRuntimeTensor s false
      have hpool' := hpool.mono hgrows.wrappers_le
      apply ih _ (hpool'.insert (lt_createRuntimeTensor m s false)) hinsert
      exact (h.mono (fun _ hp => hp) fun w s hs => hgrows.storageOf hs).insert hpool'
        (storageOf_createRuntimeTensor m s false) hst

/-- Constants are inserted beside new storages with their contents. -/
theorem Linked.insertConstants {e : Env α} (h : Linked m P pool e.ids)
    (hpairs : PairsOk m e.memory g base limit P) (hpool : pool.WellFormed m.wrappers.length)
    {outputs storages : List ℕ} {results : List α} {old : Memory α}
    (hold : ∀ s b, m.contents s = some b → old.contents s = some b)
    (hconst : List.Forall₂ (fun s a => s < limit ∧ s ∈ g ∧
      ∀ b, old.contents s = some b → b = a) storages results)
    (hinsert : TTNNRuntime.insertAll (outputs.zip storages) pool m = (pool', m')) :
    ∃ P', PairsOk m' (Env.bindFresh outputs results e).memory g base limit P' ∧
      Linked m' P' pool' (Env.bindFresh outputs results e).ids := by
  induction hconst generalizing outputs pool m e P with
  | nil =>
    rw [List.zip_nil_right] at hinsert
    cases hinsert
    cases outputs with
    | nil => exact ⟨P, hpairs, h⟩
    | cons _ _ => exact ⟨P, hpairs, h⟩
  | @cons s a storages results hsa hrest ih =>
    cases outputs with
    | nil =>
      cases hinsert
      exact ⟨P, hpairs, h⟩
    | cons globalId outputs =>
      obtain ⟨hs, hg, ha⟩ := hsa
      have hgrows := m.grows_createRuntimeTensor s false
      have hpool' := hpool.mono hgrows.wrappers_le
      have hcontents : ∀ t b, (m.createRuntimeTensor s false).2.contents t = some b →
          m.contents t = some b := fun _ _ hb => hb
      have hpairs' := (hpairs.cons hs (.inl hg) (.inl hg) fun b hb => ha b (hold s b hb)).mono
        (fun _ hs => hs) (le_refl limit)
        fun t _ b hb => hcontents t b hb
      have hlinked' : Linked (m.createRuntimeTensor s false).2 ((s, e.memory.storages.length) :: P)
          (pool.insert globalId (m.createRuntimeTensor s false).1)
          (Function.update e.ids globalId (some e.memory.storages.length)) :=
        (h.mono (List.subset_cons_self _ P) fun w s hs => hgrows.storageOf hs).insert hpool'
          (storageOf_createRuntimeTensor m s false) List.mem_cons_self
      exact ih (e := ⟨(e.memory.allocate a).2, _⟩) hlinked' hpairs'
        (hpool'.insert (lt_createRuntimeTensor m s false))
        (fun t b hb => hold t b (hcontents t b hb)) hinsert

end Pairs

/-! ## Keys and versions -/

theorem takeWhile_digits (n : ℕ) (cs : List Char) :
    ((Nat.toDigits 10 n).reverse ++ ':' :: cs).takeWhile (fun c => c != ':')
      = (Nat.toDigits 10 n).reverse := by
  rw [List.takeWhile_append_of_pos]
  · simp
  · intro c hc
    have hdigit := Nat.isDigit_of_mem_toDigits (by norm_num) (by norm_num) (List.mem_reverse.mp hc)
    have hne : c ≠ ':' := by
      rintro rfl
      exact absurd hdigit (by decide)
    simpa using hne

theorem programIndex_eq_of_key {d d' : ℤ} {i j : ℕ}
    (h : generateCacheOuterKey d i = generateCacheOuterKey d' j) : i = j := by
  have hlist := congrArg (fun s : String => s.toList.reverse) h
  have hrev : (Nat.toDigits 10 i).reverse ++ ':' :: (toString d).toList.reverse
      = (Nat.toDigits 10 j).reverse ++ ':' :: (toString d').toList.reverse := by
    simpa [generateCacheOuterKey, String.toList_append] using hlist
  have hdigits := congrArg (List.takeWhile (fun c => c != ':')) hrev
  rw [takeWhile_digits, takeWhile_digits] at hdigits
  have hdigits' := List.reverse_injective hdigits
  have hi : Nat.repr i = Nat.repr j := by
    rw [Nat.repr_eq_ofList_toDigits, Nat.repr_eq_ofList_toDigits, hdigits']
  exact Nat.repr_injective hi

/-- Every wrapper has the version of its construction. -/
structure Memory.Versioned (m : Memory α) : Prop where
  versions : ∀ w wrapper, m.wrappers[w]? = some wrapper → wrapper.version = UInt64.ofNat w
  latest : m.latestVersion = UInt64.ofNat m.wrappers.length

variable {pool pool' : ProgramTensorPool} {outputs : List (ℕ × ℕ)}

namespace Memory.Versioned

variable {m m' : Memory α}

theorem of_eq (h : m.Versioned) (hw : m'.wrappers = m.wrappers)
    (hv : m'.latestVersion = m.latestVersion) : m'.Versioned := by
  refine ⟨?_, ?_⟩
  · rw [hw]
    exact h.versions
  · rw [hw, hv]
    exact h.latest

theorem createRuntimeTensor (h : m.Versioned) (s : ℕ) (retain : Bool) :
    (m.createRuntimeTensor s retain).2.Versioned := by
  refine ⟨?_, ?_⟩
  · intro w wrapper hw
    by_cases hlt : w < m.wrappers.length
    · apply h.versions w wrapper
      rw [← hw]
      exact ((m.grows_createRuntimeTensor s retain).wrappers w hlt).symm
    · have hw' : (m.wrappers ++ [(⟨s, retain, m.latestVersion⟩ : TTNNTensorWrapper)])[w]?
          = some wrapper := hw
      have hlast : w = m.wrappers.length := by
        have := (List.getElem?_eq_some_iff.mp hw').1
        rw [List.length_append, List.length_singleton] at this
        omega
      subst hlast
      rw [List.getElem?_concat_length] at hw'
      cases hw'
      exact h.latest
  · show m.latestVersion + 1 = UInt64.ofNat (m.wrappers ++ [_]).length
    rw [h.latest, List.length_append, List.length_singleton, UInt64.ofNat_add]
    rfl

theorem place (h : m.Versioned) {storages placed : List ℕ} {results : List (Result α)}
    (hplace : m.place storages results = some (placed, m')) : m'.Versioned := by
  induction results generalizing m placed with
  | nil =>
    cases hplace
    exact h
  | cons result results ih =>
    cases result with
    | fresh a =>
      simp only [Memory.place, bind, Option.bind_eq_some_iff, Option.some.injEq,
        Prod.mk.injEq, Prod.exists] at hplace
      obtain ⟨placed', m'', hrest, -, rfl⟩ := hplace
      have h' : (m.allocate a).2.Versioned := h.of_eq rfl rfl
      exact ih h' hrest
    | operand position =>
      simp only [Memory.place, bind, Option.bind_eq_some_iff, Option.some.injEq,
        Prod.mk.injEq, Prod.exists] at hplace
      obtain ⟨s, -, placed', m'', hrest, -, rfl⟩ := hplace
      exact ih h hrest

theorem insertAll (h : m.Versioned)
    (hinsert : insertAll outputs pool m = (pool', m')) : m'.Versioned := by
  induction outputs generalizing m pool with
  | nil =>
    cases hinsert
    exact h
  | cons output outputs ih => exact ih (h.createRuntimeTensor output.2 false) hinsert

theorem setRetainAll (h : m.Versioned) (outs : List ℕ) (retain : Bool) :
    (outs.foldl (fun m w => m.setRetain w retain) m).Versioned := by
  obtain ⟨-, hlatest, hlen, -, hsame⟩ := Memory.setRetainAll_spec outs retain m
  refine ⟨?_, ?_⟩
  · intro w wrapper hw
    have hw' := hsame w
    rw [hw] at hw'
    obtain ⟨old, hold, heq⟩ := Option.map_eq_some_iff.mp hw'.symm
    have hversion : old.version = wrapper.version := congrArg Prod.snd heq
    rw [← hversion]
    exact h.versions w old hold
  · rw [hlatest, hlen]
    exact h.latest

/-- While there are at most `2^64` wrappers, a version names one wrapper. -/
theorem unique (h : m.Versioned) (hcount : m.wrappers.length ≤ 2 ^ 64) {v w : ℕ}
    {wrapper wrapper' : TTNNTensorWrapper} (hv : m.wrappers[v]? = some wrapper)
    (hw : m.wrappers[w]? = some wrapper') (heq : wrapper.version = wrapper'.version) : v = w := by
  rw [h.versions v wrapper hv, h.versions w wrapper' hw] at heq
  have hlt := (List.getElem?_eq_some_iff.mp hv).1
  have hlt' := (List.getElem?_eq_some_iff.mp hw).1
  have hnat := congrArg UInt64.toNat heq
  have hsize : UInt64.size = 2 ^ 64 := rfl
  rw [UInt64.toNat_ofNat_of_lt' (by omega), UInt64.toNat_ofNat_of_lt' (by omega)] at hnat
  exact hnat

end Memory.Versioned

/-! ## The invariant -/

/-- What a step leaves as it was: the tensors and versions of wrappers, and contents of
constants and of storages below a limit as far as they are still allocated. -/
structure Memory.Carries (m m' : Memory α) (g : List ℕ) (limit : ℕ) : Prop where
  wrapper : ∀ (w : ℕ) (wrapper : TTNNTensorWrapper), m.wrappers[w]? = some wrapper →
    ∃ wrapper' : TTNNTensorWrapper, m'.wrappers[w]? = some wrapper' ∧
      wrapper'.tensor = wrapper.tensor ∧ wrapper'.version = wrapper.version
  back : ∀ s, (s < limit ∨ s ∈ g) → ∀ b, m'.contents s = some b → m.contents s = some b

/-- Tensors are constants, which hold some contents while they are allocated. -/
def ConstantsHold (m : Memory α) (g : List ℕ) (wrappers : List ℕ) (contents : List α) : Prop :=
  List.Forall₂ (fun w a => ∃ s, m.storageOf w = some s ∧ s ∈ g ∧
    ∀ b, m.contents s = some b → b = a) wrappers contents

/-- The versions of wrappers. -/
def VersionsOf (m : Memory α) (wrappers : List ℕ) (versions : List UInt64) : Prop :=
  List.Forall₂ (fun w v => ∃ wrapper, m.wrappers[w]? = some wrapper ∧ wrapper.version = v)
    wrappers versions

/-- A `load_cached` operation of a program. -/
def Calls (binary : Binary κ) (programIndex : ℕ) (calleeName : String) (programIdx : ℕ) : Prop :=
  ∃ program inputs outputs, binary.programs[programIndex]? = some program ∧
    Op.loadCached calleeName programIdx inputs outputs ∈ program.operations

/-- A cached value: constants that its function computed from constants. -/
structure ValueOk (K : Kernels κ ρ α) (binary : Binary κ) (m : Memory α) (g : List ℕ)
    (programIdx : ℕ) (versions : List UInt64) (tensors : List ℕ) : Prop where
  valid : ∃ wrappers contents results, VersionsOf m wrappers versions ∧
    ConstantsHold m g wrappers contents ∧ Evaluates K binary programIdx contents results ∧
    ConstantsHold m g tensors results

/-- Every cached value is what its function computes. -/
def CacheOk (K : Kernels κ ρ α) (binary : Binary κ) (m : Memory α) (g : List ℕ)
    (cache : TensorCache ℕ) : Prop :=
  ∀ outer inner value, cache.entry outer inner = some value →
    ∃ deviceId programIndex programIdx,
      outer = generateCacheOuterKey deviceId programIndex ∧
      Calls binary programIndex inner programIdx ∧
      ValueOk K binary m g programIdx value.inputVersions value.tensors

/-- A running function beside its evaluation: the operations before the pending ones have
been evaluated, and its storages are those of the evaluation. -/
structure FrameSim (K : Kernels κ ρ α) (binary : Binary κ) (m : Memory α) (g : List ℕ)
    (f : Frame κ) (pending : List (Op κ)) (base limit : ℕ) (contents : List α) (e : Env α) :
    Prop where
  runs : ∃ program done, binary.programs[f.programIndex]? = some program ∧
    program.operations = done ++ (pending ++ f.operations) ∧
    Runs K binary done (Env.start program.inputs contents) e ∧
    f.pool.programOutputIds = program.outputs
  inputs : ConstantsHold m g f.pool.programInputs contents
  pairs : ∃ P, PairsOk m e.memory g base limit P ∧ Linked m P f.pool e.ids

/-- The running programs: const-eval functions beside their evaluations, each called by a
pending operation of the program below, down to a submitted program. -/
inductive StackSim (K : Kernels κ ρ α) (binary : Binary κ) (m : Memory α) (g : List ℕ) :
    List (Frame κ) → List (Op κ) → List α → ℕ → Prop
  | submit {f : Frame κ} {pending : List (Op κ)} {awaited : List α} {limit : ℕ}
      {program : Program κ} {done : List (Op κ)} (hret : f.ret = .submit)
      (hprogram : binary.programs[f.programIndex]? = some program)
      (hops : program.operations = done ++ (pending ++ f.operations)) :
      StackSim K binary m g [f] pending awaited limit
  | cached {f parent : Frame κ} {rest : List (Frame κ)} {pending : List (Op κ)}
      {awaited contents : List α} {base limit : ℕ} {e : Env α} {calleeName : String}
      {versions : List UInt64} {inputs outputs : List ℕ}
      (hret : f.ret = .cached (generateCacheOuterKey parent.deviceId parent.programIndex)
        calleeName versions outputs)
      (hsim : FrameSim K binary m g f pending base limit contents e)
      (hawaited : ∀ calleeName programIdx ins outs,
        pending = [.loadCached calleeName programIdx ins outs] → e.read ins = some awaited)
      (hbase : base ≤ limit) (hversions : VersionsOf m f.pool.programInputs versions)
      (hbelow : StackSim K binary m g (parent :: rest)
        [.loadCached calleeName f.programIndex inputs outputs] contents base) :
      StackSim K binary m g (f :: parent :: rest) pending awaited limit

/-- What is known of a reachable state. -/
structure Fresh (K : Kernels κ ρ α) (binary : Binary κ) (σ : State κ α) (g : List ℕ) :
    Prop where
  versioned : σ.memory.Versioned
  held : ∀ w ∈ σ.held, w < σ.memory.wrappers.length
  pools : ∀ f ∈ σ.frames, f.pool.WellFormed σ.memory.wrappers.length
  bound : ∀ s, s ∈ g → s < σ.memory.storages.length
  cache : CacheOk K binary σ.memory g σ.cache
  stack : σ.frames = [] ∨ StackSim K binary σ.memory g σ.frames [] [] σ.memory.storages.length

/-! ## What a step leaves as it was -/

variable {versions : List UInt64}

section Carries

variable {K : Kernels κ ρ α} {binary : Binary κ} {m m' m'' : Memory α} {g g' : List ℕ}
  {limit : ℕ}

theorem Memory.Carries.refl (m : Memory α) : m.Carries m g limit :=
  ⟨fun _ wrapper hw => ⟨wrapper, hw, rfl, rfl⟩, fun _ _ _ hb => hb⟩

theorem Memory.Carries.trans (h : m.Carries m' g limit) (h' : m'.Carries m'' g limit) :
    m.Carries m'' g limit where
  wrapper w wrapper hw := by
    obtain ⟨wrapper', hw', ht, hv⟩ := h.wrapper w wrapper hw
    obtain ⟨wrapper'', hw'', ht', hv'⟩ := h'.wrapper w wrapper' hw'
    exact ⟨wrapper'', hw'', ht'.trans ht, hv'.trans hv⟩
  back s hs b hb := h.back s hs b (h'.back s hs b hb)

theorem Memory.Grows.carries (h : m.Grows m') (hbound : ∀ s, s ∈ g → s < m.storages.length)
    (hlimit : limit ≤ m.storages.length) : m.Carries m' g limit where
  wrapper w wrapper hw := ⟨wrapper, h.getElem? hw, rfl, rfl⟩
  back s hs b hb := by
    have hlt : s < m.storages.length := hs.elim (fun h => h.trans_le hlimit) (hbound s)
    rw [Memory.contents_eq_some] at hb ⊢
    rw [← h.storages s hlt]
    exact hb

theorem Memory.Carries.storageOf (h : m.Carries m' g limit) {w s : ℕ}
    (hw : m.storageOf w = some s) : m'.storageOf w = some s := by
  obtain ⟨wrapper, hwrapper, rfl⟩ := Option.map_eq_some_iff.mp hw
  obtain ⟨wrapper', hwrapper', htensor, -⟩ := h.wrapper w wrapper hwrapper
  unfold Memory.storageOf
  rw [hwrapper']
  exact congrArg some htensor

theorem ConstantsHold.carries {wrappers : List ℕ} {contents : List α}
    (h : ConstantsHold m g wrappers contents) (hm : m.Carries m' g limit) (hg : g ⊆ g') :
    ConstantsHold m' g' wrappers contents := by
  apply h.imp
  rintro w a ⟨s, hs, hconst, hb⟩
  exact ⟨s, hm.storageOf hs, hg hconst, fun b hcontents =>
    hb b (hm.back s (.inr hconst) b hcontents)⟩

theorem VersionsOf.carries {wrappers : List ℕ}
    (h : VersionsOf m wrappers versions) (hm : m.Carries m' g limit) :
    VersionsOf m' wrappers versions := by
  apply h.imp
  rintro w v ⟨wrapper, hwrapper, rfl⟩
  obtain ⟨wrapper', hwrapper', -, hversion⟩ := hm.wrapper w wrapper hwrapper
  exact ⟨wrapper', hwrapper', hversion⟩

theorem ValueOk.carries {programIdx : ℕ} {tensors : List ℕ}
    (h : ValueOk K binary m g programIdx versions tensors) (hm : m.Carries m' g limit)
    (hg : g ⊆ g') : ValueOk K binary m' g' programIdx versions tensors := by
  obtain ⟨wrappers, contents, results, hversions, hinputs, heval, htensors⟩ := h.valid
  exact ⟨wrappers, contents, results, hversions.carries hm, hinputs.carries hm hg, heval,
    htensors.carries hm hg⟩

theorem CacheOk.carries {cache : TensorCache ℕ} (h : CacheOk K binary m g cache)
    (hm : m.Carries m' g limit) (hg : g ⊆ g') : CacheOk K binary m' g' cache := by
  intro outer inner value hvalue
  obtain ⟨deviceId, programIndex, programIdx, hkey, hcalls, hok⟩ := h outer inner value hvalue
  exact ⟨deviceId, programIndex, programIdx, hkey, hcalls, hok.carries hm hg⟩

theorem FrameSim.carries {f : Frame κ} {pending : List (Op κ)} {base : ℕ} {contents : List α}
    {e : Env α} (h : FrameSim K binary m g f pending base limit contents e)
    (hm : m.Carries m' g limit) (hg : g ⊆ g') :
    FrameSim K binary m' g' f pending base limit contents e where
  runs := h.runs
  inputs := h.inputs.carries hm hg
  pairs := by
    obtain ⟨P, hpairs, hlinked⟩ := h.pairs
    exact ⟨P, hpairs.mono (fun _ hs => hg hs) (le_refl limit)
      fun s hs b hb => hm.back s (.inl hs) b hb, hlinked.mono (fun _ hp => hp)
      fun w s hs => hm.storageOf hs⟩

theorem Memory.Carries.mono (h : m.Carries m' g limit) {limit' : ℕ} (hle : limit' ≤ limit) :
    m.Carries m' g limit' where
  wrapper := h.wrapper
  back s hs b hb := h.back s (hs.imp_left fun hlt => hlt.trans_le hle) b hb

theorem StackSim.carries {frames : List (Frame κ)} {pending : List (Op κ)} {awaited : List α}
    (h : StackSim K binary m g frames pending awaited limit) (hm : m.Carries m' g limit)
    (hg : g ⊆ g') : StackSim K binary m' g' frames pending awaited limit := by
  induction h with
  | submit hret hprogram hops => exact .submit hret hprogram hops
  | cached hret hsim hawaited hbase hversions _ ih =>
    exact .cached hret (hsim.carries hm hg) hawaited hbase (hversions.carries hm)
      (ih (hm.mono hbase))

end Carries

/-! ## One operation -/

section Steps

variable {K : Kernels κ ρ α} {binary : Binary κ} {σ σ' : State κ α} {g g' : List ℕ}
  {m m' : Memory α} {f : Frame κ} {rest : List (Frame κ)} {limit limit' : ℕ}

theorem programInputs_insertAll
    (h : insertAll outputs pool m = (pool', m')) : pool'.programInputs = pool.programInputs := by
  induction outputs generalizing pool m with
  | nil =>
    cases h
    rfl
  | cons output outputs ih =>
    have htail := ih h
    exact htail

variable {storages : List ℕ}

/-- Writes to storages that are neither constant nor below the limit. -/
theorem carries_writeAll {writes : List (ℕ × α)} (hwrite : m.writeAll storages writes = some m')
    (hconst : ∀ p ∈ writes, ∀ s, storages[p.1]? = some s → limit ≤ s ∧ s ∉ g) :
    m.Carries m' g limit := by
  obtain ⟨hwrappers, -, -, hother, -⟩ := Memory.writeAll_spec hwrite
  refine ⟨?_, ?_⟩
  · intro w wrapper hw
    exact ⟨wrapper, hwrappers ▸ hw, rfl, rfl⟩
  · intro s hs b hb
    rw [Memory.contents_eq_some] at hb ⊢
    rw [← hb]
    apply (hother s _).symm
    intro p hp hps
    obtain ⟨hle, hnot⟩ := hconst p hp s hps
    rcases hs with hlt | hmem
    · omega
    · exact hnot hmem

theorem carries_freeAll {storages frees : List ℕ} (hfree : m.freeAll storages frees = some m') :
    m.Carries m' g limit := by
  obtain ⟨hwrappers, -, -, -, hold⟩ := Memory.freeAll_spec hfree
  exact ⟨fun w wrapper hw => ⟨wrapper, hwrappers ▸ hw, rfl, rfl⟩, fun s _ b hb => hold s b hb⟩

theorem carries_deallocate (σ : State κ α) (w : ℕ) (force : Bool) :
    σ.memory.Carries (σ.deallocate w force) g limit := by
  obtain ⟨hwrappers, -, -, hold⟩ := σ.deallocate_spec w force
  exact ⟨fun w wrapper hw => ⟨wrapper, hwrappers ▸ hw, rfl, rfl⟩, fun s _ b hb => hold s b hb⟩

/-- The innermost program takes a step, its next operation or the one it awaits, and its
evaluation with it, when the step leaves what is below its own storages. -/
theorem StackSim.advance {op : Op κ} {pending ops : List (Op κ)} {awaited : List α}
    {pool : ProgramTensorPool} (h : StackSim K binary m g (f :: rest) pending awaited limit)
    (hf : pending ++ f.operations = op :: ops) (hlimit : limit ≤ limit') (hg : g ⊆ g')
    (hinputs : pool.programInputs = f.pool.programInputs)
    (houtputs : pool.programOutputIds = f.pool.programOutputIds)
    (hstep : ∀ base e P, base ≤ limit → PairsOk m e.memory g base limit P →
      Linked m P f.pool e.ids →
      (∀ calleeName programIdx ins outs, pending = [.loadCached calleeName programIdx ins outs] →
        e.read ins = some awaited) →
      m.Carries m' g base ∧ ∃ e' : Env α, (∀ done start, Runs K binary done start e →
          Runs K binary (done ++ [op]) start e') ∧
        ∃ P', PairsOk m' e'.memory g' base limit' P' ∧ Linked m' P' pool e'.ids) :
    StackSim K binary m' g' ({ f with pool := pool, operations := ops } :: rest) [] [] limit' := by
  cases h with
  | @submit _ _ _ _ program done hret hprogram hops =>
    have hops' : program.operations = (done ++ [op]) ++ ([] ++ ops) := by
      rw [hops, hf]
      simp
    exact .submit (f := { f with pool := pool, operations := ops }) hret hprogram hops'
  | @cached _ parent rest' _ _ contents base _ e calleeName versions inputs outputs hret hsim
      hawaited hbase hversions hbelow =>
      obtain ⟨P, hpairs, hlinked⟩ := hsim.pairs
      obtain ⟨hcarries, e', hruns', hpairs'⟩ := hstep base e P hbase hpairs hlinked hawaited
      obtain ⟨program, done, hprogram, hops, hruns, hids⟩ := hsim.runs
      have hsim' : FrameSim K binary m' g' { f with pool := pool, operations := ops } [] base
          limit' contents e' := by
        refine ⟨⟨program, done ++ [op], hprogram, ?_, hruns' done _ hruns, houtputs.trans hids⟩, ?_,
          hpairs'⟩
        · rw [hops, hf]
          simp
        · show ConstantsHold m' g' pool.programInputs contents
          rw [hinputs]
          exact hsim.inputs.carries hcarries hg
      have hversions' : VersionsOf m' pool.programInputs versions := by
        rw [hinputs]
        exact hversions.carries hcarries
      exact .cached (f := { f with pool := pool, operations := ops }) hret hsim'
        (fun _ _ _ _ hpending => by cases hpending) (hbase.trans hlimit) hversions'
        (hbelow.carries hcarries hg)

theorem Fresh.stackSim (h : Fresh K binary σ g) (hframes : σ.frames = f :: rest) :
    StackSim K binary σ.memory g (f :: rest) [] [] σ.memory.storages.length := by
  rcases h.stack with hnil | hstack
  · rw [hframes] at hnil
    cases hnil
  · rw [hframes] at hstack
    exact hstack

variable {ops : List (Op κ)} {inputs outputs : List ℕ}

/-- A library operation that writes no constant. -/
theorem Fresh.runCompute (h : Fresh K binary σ g) (hframes : σ.frames = f :: rest) {kind : κ}
    (hops : f.operations = .compute kind inputs outputs :: ops)
    (hok : ∀ storages effect, σ.effect K f kind inputs = some (storages, effect) →
      ∀ p ∈ effect.writes, ∀ s, storages[p.1]? = some s → s ∉ g)
    (hrun : σ.runCompute K f rest kind inputs outputs ops = some σ') :
    Fresh K binary σ' g := by
  obtain ⟨wrappers, storages, contents, effect, m₁, m₂, placed, m₃, pool, m₄, heffect, hw, hs, hc,
    hkernel, h₁, h₂, h₃, hlen, hinsert, rfl⟩ := State.runCompute_cases hrun
  have hconst := hok storages effect heffect
  obtain ⟨hwrappers₁, hversion₁, hlen₁, -, -⟩ := Memory.writeAll_spec h₁
  obtain ⟨hwrappers₂, hversion₂, hlen₂, -, hold₂⟩ := Memory.freeAll_spec h₂
  have hgrows₃ := Memory.grows_place h₃
  have hpool := h.pools f (by simp [hframes])
  have hle₃ : σ.memory.wrappers.length ≤ m₃.wrappers.length := by
    rw [← hwrappers₁, ← hwrappers₂]
    exact hgrows₃.wrappers_le
  obtain ⟨hgrows₄, hpool₄, hstorages₄, hids⟩ := insertAll_spec hinsert (hpool.mono hle₃)
  have hle : σ.memory.storages.length ≤ m₄.storages.length := by
    rw [← hlen₁, ← hlen₂]
    exact hgrows₃.storages_le.trans hgrows₄.storages_le
  have hcarries : ∀ base, base ≤ σ.memory.storages.length →
      (∀ p ∈ effect.writes, ∀ s, storages[p.1]? = some s → base ≤ s) →
      σ.memory.Carries m₄ g base ∧ σ.memory.Carries m₃ g base := by
    intro base hbase hge
    have hfirst := (carries_writeAll h₁ fun p hp s hps => ⟨hge p hp s hps, hconst p hp s hps⟩).trans
      (carries_freeAll h₂)
    have hbound : ∀ s ∈ g, s < m₂.storages.length := by
      rw [hlen₂, hlen₁]
      exact h.bound
    have hbase₂ : base ≤ m₂.storages.length := by
      rw [hlen₂, hlen₁]
      exact hbase
    exact ⟨hfirst.trans ((hgrows₃.trans hgrows₄).carries hbound hbase₂),
      hfirst.trans (hgrows₃.carries hbound hbase₂)⟩
  have hversioned₂ : m₂.Versioned :=
    h.versioned.of_eq (hwrappers₂.trans hwrappers₁) (hversion₂.trans hversion₁)
  refine ⟨(hversioned₂.place h₃).insertAll hinsert,
    fun w hw => (h.held w hw).trans_le (hle₃.trans hgrows₄.wrappers_le), ?_,
    fun s hs => (h.bound s hs).trans_le hle,
    h.cache.carries (hcarries 0 (Nat.zero_le _) fun _ _ _ _ => Nat.zero_le _).1 fun _ hs => hs,
    .inr ?_⟩
  · intro f' hf'
    rcases List.mem_cons.mp hf' with rfl | hf'
    · exact hpool₄
    · exact (h.pools f' (by simp [hframes, hf'])).mono (hle₃.trans hgrows₄.wrappers_le)
  · apply (h.stackSim hframes).advance hops hle (fun _ hs => hs) (programInputs_insertAll hinsert)
      hids
    intro base e P hbase hpairs hlinked _
    obtain ⟨slots, hslots, hforall⟩ := hlinked.mapM hw hs
    -- the operands of the function's own are at or above its base
    have hge : ∀ p ∈ effect.writes, ∀ s, storages[p.1]? = some s → base ≤ s := by
      intro p hp s hps
      obtain ⟨t, -, hmem⟩ := exists_getElem?_of_forall₂ hforall hps
      exact (hpairs.owned _ hmem).resolve_left (hconst p hp s hps)
    obtain ⟨hcarries₄, hcarries₃⟩ := hcarries base hbase hge
    obtain ⟨slots₁, hslots₁, hpairs₁⟩ := hpairs.writeAll hforall hconst h₁
    have hpairs₂ := hpairs₁.mono (fun _ hs => hs) (le_refl _) fun s _ b hb => hold₂ s b hb
    obtain ⟨placed', slots₂, P', hplace', hsub, hforall', hpairs₃⟩ :=
      hpairs₂.place (by rw [hlen₂, hlen₁]) (by rw [hlen₂, hlen₁]; exact hbase) hforall h₃
    have hlinked₄ := (hlinked.mono hsub fun w s hws => hcarries₃.storageOf hws).insertAll
      (hpool.mono hle₃) hforall' hinsert
    refine ⟨hcarries₄, ⟨slots₂, Env.bindAll (outputs.zip placed') e.ids⟩, ?_, P', ?_, hlinked₄⟩
    · intro done start hruns
      apply hruns.compute
      have hread := hpairs.mapM_contents hforall hc
      have hlen' : placed'.length = outputs.length := hforall'.length_eq.symm.trans hlen
      simp only [Env.compute, bind, hslots, hread, hkernel, hslots₁, hplace', Option.bind_some,
        hlen', ne_eq, not_true_eq_false, if_false]
    · apply hpairs₃.mono (fun _ hs => hs) (by rw [hstorages₄])
      intro s _ b hb
      rw [Memory.contents_eq_some, hstorages₄] at hb
      exact Memory.contents_eq_some.mpr hb

/-- A deallocation. -/
theorem Fresh.runDeallocate (h : Fresh K binary σ g) (hframes : σ.frames = f :: rest)
    {input : ℕ} {force : Bool} (hops : f.operations = .deallocate input force :: ops)
    (hrun : σ.runDeallocate f rest input force ops = some σ') : Fresh K binary σ' g := by
  obtain ⟨w, wrapper, pool, hw, hwrapper, herase, rfl⟩ := State.runDeallocate_cases hrun
  have hpool := h.pools f (by simp [hframes])
  have hpool' := hpool.erase herase
  obtain ⟨m, hm, hversioned, hwrappers, hlen, hcarries⟩ :
      ∃ m, m = (if ¬ wrapper.retain then σ.deallocate w force else σ.memory) ∧ m.Versioned ∧
        m.wrappers = σ.memory.wrappers ∧ m.storages.length = σ.memory.storages.length ∧
        ∀ limit, σ.memory.Carries m g limit := by
    obtain ⟨hwrappers, hversion, hlen, -⟩ := σ.deallocate_spec w force
    refine ⟨_, rfl, ?_⟩
    split_ifs
    · exact ⟨h.versioned, rfl, rfl, fun limit => Memory.Carries.refl σ.memory⟩
    · exact ⟨h.versioned.of_eq hwrappers hversion, hwrappers, hlen,
        fun limit => carries_deallocate σ w force⟩
  rw [← hm]
  refine ⟨hversioned, ?_, ?_, ?_, h.cache.carries (hcarries 0) fun _ hs => hs, .inr ?_⟩
  · intro v hv
    show v < m.wrappers.length
    rw [hwrappers]
    exact h.held v hv
  · intro f' hf'
    show f'.pool.WellFormed m.wrappers.length
    rw [hwrappers]
    rcases List.mem_cons.mp hf' with rfl | hf'
    · exact hpool'
    · exact h.pools f' (by simp [hframes, hf'])
  · intro s hs
    show s < m.storages.length
    rw [hlen]
    exact h.bound s hs
  · obtain ⟨hinputs, houtputs⟩ : pool.programInputs = f.pool.programInputs ∧
        pool.programOutputIds = f.pool.programOutputIds := by
      unfold ProgramTensorPool.erase at herase
      split_ifs at herase
      cases herase
      exact ⟨rfl, rfl⟩
    apply (h.stackSim hframes).advance hops (le_of_eq hlen.symm) (fun _ hs => hs) hinputs houtputs
    intro base e P hbase hpairs hlinked _
    refine ⟨hcarries base, ⟨e.memory, Function.update e.ids input none⟩, ?_, P, ?_, ?_⟩
    · intro done start hruns
      exact hruns.deallocate
    · exact hpairs.mono (fun _ hs => hs) (le_of_eq hlen.symm) fun s hs b hb =>
        (hcarries _).back s (.inl hs) b hb
    · exact (hlinked.mono (fun _ hp => hp) fun v s hv => (hcarries 0).storageOf hv).erase hpool
        herase

/-! ## `load_cached` -/

variable {wrappers storages : List ℕ}

/-- Reading the storages and contents of wrappers that hold constants. -/
theorem ConstantsHold.contents_eq {contents outs : List α}
    (h : ConstantsHold m g wrappers contents) (hs : wrappers.mapM m.storageOf = some storages)
    (ho : storages.mapM m.contents = some outs) : outs = contents := by
  rw [mapM_eq_some_iff] at hs ho
  induction h generalizing storages outs with
  | nil =>
    cases hs
    cases ho
    rfl
  | cons hhead _ ih =>
    cases hs with
    | cons hs hss =>
      cases ho with
      | cons ho hoo =>
        obtain ⟨s, hs', -, hb⟩ := hhead
        obtain rfl := Option.some.inj (hs.symm.trans hs')
        rw [hb _ ho, ih hss hoo]

variable {contents : List α}

/-- Constants stay below the storages. -/
theorem ConstantsHold.constants
    (h : ConstantsHold m g wrappers contents) (hs : wrappers.mapM m.storageOf = some storages)
    (hbound : ∀ s ∈ g, s < limit) :
    List.Forall₂ (fun s a => s < limit ∧ s ∈ g ∧ ∀ b, m.contents s = some b → b = a)
      storages contents := by
  rw [mapM_eq_some_iff] at hs
  induction h generalizing storages with
  | nil =>
    cases hs
    exact List.Forall₂.nil
  | cons hhead _ ih =>
    cases hs with
    | cons hs hss =>
      obtain ⟨s, hs', hmem, hb⟩ := hhead
      obtain rfl := Option.some.inj (hs.symm.trans hs')
      exact List.Forall₂.cons ⟨hbound _ hmem, hmem, hb⟩ (ih hss)

theorem mapM_storageOf {wrappers : List ℕ} {inputWrappers : List TTNNTensorWrapper}
    (h : wrappers.mapM (fun w => m.wrappers[w]?) = some inputWrappers) :
    wrappers.mapM m.storageOf = some (inputWrappers.map TTNNTensorWrapper.tensor) ∧
      VersionsOf m wrappers (inputWrappers.map TTNNTensorWrapper.version) := by
  rw [mapM_eq_some_iff] at h ⊢
  induction h with
  | nil => exact ⟨List.Forall₂.nil, List.Forall₂.nil⟩
  | @cons w wrapper _ _ hhead _ ih =>
    refine ⟨List.Forall₂.cons ?_ ih.1, List.Forall₂.cons ⟨wrapper, hhead, rfl⟩ ih.2⟩
    unfold Memory.storageOf
    rw [hhead]
    rfl

/-- Versions name wrappers. -/
theorem VersionsOf.unique {wrappers wrappers' : List ℕ}
    (h : VersionsOf m wrappers versions) (h' : VersionsOf m wrappers' versions)
    (hversioned : m.Versioned) (hcount : m.wrappers.length ≤ 2 ^ 64) : wrappers = wrappers' := by
  induction h generalizing wrappers' with
  | nil =>
    cases h'
    rfl
  | cons hhead _ ih =>
    cases h' with
    | cons hhead' htail' =>
      obtain ⟨wrapper, hw, hv⟩ := hhead
      obtain ⟨wrapper', hw', hv'⟩ := hhead'
      rw [hversioned.unique hcount hw hw' (hv.trans hv'.symm), ih htail']

variable {calleeName : String} {programIdx : ℕ}

/-- The next operation, or the one that is awaited, is one of the program's. -/
theorem StackSim.calls {pending ops : List (Op κ)} {awaited : List α}
    (h : StackSim K binary m g (f :: rest) pending awaited limit)
    (hops : pending ++ f.operations = .loadCached calleeName programIdx inputs outputs :: ops) :
    Calls binary f.programIndex calleeName programIdx := by
  cases h with
  | @submit _ _ _ _ program done hret hprogram hall =>
    refine ⟨program, inputs, outputs, hprogram, ?_⟩
    rw [hall, hops]
    simp
  | @cached _ parent rest' _ _ contents base _ e calleeName versions _ _ hret hsim =>
    obtain ⟨program, done, hprogram, hall, -, -⟩ := hsim.runs
    refine ⟨program, inputs, outputs, hprogram, ?_⟩
    rw [hall, hops]
    simp

theorem Calls.unique (hbinary : binary.CalleesConsistent) {programIndex i j : ℕ}
    (hi : Calls binary programIndex calleeName i)
    (hj : Calls binary programIndex calleeName j) : i = j := by
  obtain ⟨program, inputs, outputs, hprogram, hmem⟩ := hi
  obtain ⟨program', inputs', outputs', hprogram', hmem'⟩ := hj
  obtain rfl := Option.some.inj (hprogram.symm.trans hprogram')
  exact hbinary program (List.mem_of_getElem? hprogram) calleeName i j inputs inputs' outputs
    outputs' hmem hmem'

/-- A hit: the cached tensors are constants that hold what the function computes from the
current contents of its inputs. -/
theorem Fresh.hit (h : Fresh K binary σ g) (hbinary : binary.CalleesConsistent)
    (hcount : σ.memory.wrappers.length ≤ 2 ^ 64) (hframes : σ.frames = f :: rest)
    {inputs outputs wrappers : List ℕ}
    {inputWrappers : List TTNNTensorWrapper} {tensors : List ℕ}
    (hops : f.operations = .loadCached calleeName programIdx inputs outputs :: ops)
    (hv : wrappers.mapM (fun w => σ.memory.wrappers[w]?) = some inputWrappers)
    (hc : inputWrappers.mapM (fun wrapper => σ.memory.contents wrapper.tensor) = some contents)
    (hhit : (σ.cache.getAll (generateCacheOuterKey f.deviceId f.programIndex) calleeName
      (inputWrappers.map TTNNTensorWrapper.version)).1 = some tensors) :
    ∃ results, Evaluates K binary programIdx contents results ∧
      ConstantsHold σ.memory g tensors results := by
  rw [TensorCache.getAll_answer, Option.map_eq_some_iff] at hhit
  obtain ⟨value, hvalue, rfl⟩ := hhit
  obtain ⟨hentry, hversions⟩ := Option.filter_eq_some_iff.mp hvalue
  obtain ⟨deviceId, programIndex, programIdx', hkey, hcalls, hok⟩ := h.cache _ _ _ hentry
  obtain ⟨wrappers', contents', results, hversions', hinputs, heval, htensors⟩ := hok.valid
  obtain rfl := programIndex_eq_of_key hkey
  obtain rfl := ((h.stackSim hframes).calls hops).unique hbinary hcalls
  obtain ⟨hstorages, hcurrent⟩ := mapM_storageOf hv
  have hsame : wrappers = wrappers' := by
    apply hcurrent.unique _ h.versioned hcount
    simpa [of_decide_eq_true hversions] using hversions'
  subst hsame
  have hcontents : (inputWrappers.map TTNNTensorWrapper.tensor).mapM σ.memory.contents
      = some contents := by
    rw [List.mapM_map]
    exact hc
  rw [hinputs.contents_eq hstorages hcontents]
  exact ⟨results, heval, htensors⟩

/-- The innermost program waits for a function. -/
theorem StackSim.await (h : StackSim K binary m g (f :: rest) [] [] limit)
    (hf : f.operations = .loadCached calleeName programIdx inputs outputs :: ops)
    (hread : ∀ base (e : Env α) P, PairsOk m e.memory g base limit P → Linked m P f.pool e.ids →
      e.read inputs = some contents) :
    StackSim K binary m g ({ f with operations := ops } :: rest)
      [.loadCached calleeName programIdx inputs outputs] contents limit := by
  cases h with
  | @submit _ _ _ _ program done hret hprogram hops =>
    rw [hf] at hops
    exact .submit (f := { f with operations := ops }) hret hprogram hops
  | @cached _ parent rest' _ _ contents base _ e calleeName versions inputs outputs hret hsim _
      hbase hversions hbelow =>
      obtain ⟨program, done, hprogram, hops, hruns, hids⟩ := hsim.runs
      obtain ⟨P, hpairs, hlinked⟩ := hsim.pairs
      rw [hf] at hops
      apply StackSim.cached (f := { f with operations := ops }) hret
        ⟨⟨program, done, hprogram, hops, hruns, hids⟩, hsim.inputs, hsim.pairs⟩ _ hbase hversions
        hbelow
      intro _ _ _ _ hpending
      cases hpending
      exact hread base e P hpairs hlinked

theorem filterMap_of_mapM {β γ : Type} {f : β → Option γ} {l : List β} {m : List γ}
    (h : l.mapM f = some m) : l.filterMap f = m := by
  rw [mapM_eq_some_iff] at h
  induction h with
  | nil => rfl
  | cons hhead _ ih => rw [List.filterMap_cons_some hhead, ih]

theorem State.storagesOf_eq {ids : List ℕ} (hw : ids.mapM f.pool.getRuntimeTensor = some wrappers)
    (hs : wrappers.mapM σ.memory.storageOf = some storages) : σ.storagesOf f ids = storages := by
  rw [State.storagesOf, filterMap_of_mapM hw, filterMap_of_mapM hs]

/-- Allocated storages can be read. -/
theorem exists_mapM_contents (h : ∀ s ∈ storages, (m.contents s).isSome) :
    ∃ contents, storages.mapM m.contents = some contents := by
  refine ⟨storages.filterMap m.contents, mapM_eq_some_iff.mpr ?_⟩
  induction storages with
  | nil => exact List.Forall₂.nil
  | cons s storages ih =>
    obtain ⟨a, ha⟩ := Option.isSome_iff_exists.mp (h s List.mem_cons_self)
    rw [List.filterMap_cons_some ha]
    exact List.Forall₂.cons ha (ih fun t ht => h t (List.mem_cons_of_mem s ht))

theorem lt_of_mapM_contents
    (h : storages.mapM m.contents = some contents) : ∀ s ∈ storages, s < m.storages.length := by
  rw [mapM_eq_some_iff] at h
  induction h with
  | nil => simp
  | cons hhead _ ih =>
    intro s hs
    rcases List.mem_cons.mp hs with rfl | hs
    · exact (List.getElem?_eq_some_iff.mp (Memory.contents_eq_some.mp hhead)).1
    · exact ih s hs

/-- Inputs that become constants. -/
theorem constantsHold_of_mapM (hs : wrappers.mapM m.storageOf = some storages)
    (hc : storages.mapM m.contents = some contents) (hg : storages ⊆ g) :
    ConstantsHold m g wrappers contents := by
  rw [mapM_eq_some_iff] at hs hc
  induction hs generalizing contents with
  | nil =>
    cases hc
    exact List.Forall₂.nil
  | @cons w s _ storages hhead _ ih =>
    cases hc with
    | cons hc hcc =>
      refine List.Forall₂.cons ⟨s, hhead, hg List.mem_cons_self, ?_⟩
        (ih hcc fun t ht => hg (List.mem_cons_of_mem _ ht))
      intro b hb
      exact Option.some.inj (hb.symm.trans hc)

theorem getElem?_of_mapM {β γ : Type} {f : β → Option γ} {l : List β} {m : List γ}
    (h : l.mapM f = some m) {k : ℕ} {a : β} (ha : l[k]? = some a) :
    ∃ b, m[k]? = some b ∧ f a = some b :=
  exists_getElem?_of_forall₂ (mapM_eq_some_iff.mp h) ha

/-- Inputs beside the storages their evaluation starts from. -/
theorem pairsOk_inputs (ids : List ℕ)
    (hc : storages.mapM m.contents = some contents) (hg : storages ⊆ g) :
    PairsOk m (Env.start ids contents).memory g m.storages.length m.storages.length
      storages.zipIdx := by
  have hmem : ∀ p ∈ storages.zipIdx, p.1 ∈ storages := fun p hp =>
    List.mem_of_getElem? (List.mem_zipIdx_iff_getElem?.mp hp)
  refine ⟨?_, ?_, ?_, ?_, ?_⟩
  · intro p hp
    exact lt_of_mapM_contents hc p.1 (hmem p hp)
  · intro p hp
    exact .inl (hg (hmem p hp))
  · intro p hp
    obtain ⟨a, ha, hcontents⟩ := getElem?_of_mapM hc (List.mem_zipIdx_iff_getElem?.mp hp)
    refine ⟨a, ?_, fun b hb => Option.some.inj (hb.symm.trans hcontents)⟩
    rw [Memory.contents_eq_some]
    simp [Env.start, ha]
  · intro p hp q hq heq
    have hp' := List.mem_zipIdx_iff_getElem?.mp hp
    have hq' := List.mem_zipIdx_iff_getElem?.mp hq
    rw [heq] at hp'
    exact Option.some.inj (hp'.symm.trans hq')
  · intro p hp q _ _
    exact .inr (hg (hmem p hp))

/-- The pool of a new program has the inputs under their ids. -/
theorem lookup_of_tryEmplace {ids : List ℕ} {index : ℕ} {live live' : AList fun _ : ℕ => TensorPtr}
    (h : ProgramTensorPool.tryEmplace ids index live = some live') (i : ℕ) :
    live'.lookup i = ((ids.idxOf? i).map fun k => .input (index + k)).or (live.lookup i) ∧
      (i ∈ ids → live.lookup i = none) := by
  induction ids generalizing index live with
  | nil =>
    cases h
    simp
  | cons globalId ids ih =>
    unfold ProgramTensorPool.tryEmplace at h
    split_ifs at h with hnone
    obtain ⟨hlookup, hfresh⟩ := ih h
    by_cases heq : i = globalId
    · subst heq
      have hnotMem : i ∉ ids := by
        intro hmem
        have := hfresh hmem
        rw [AList.lookup_insert] at this
        cases this
      refine ⟨?_, fun _ => hnone⟩
      rw [hlookup, List.idxOf?_eq_none_iff.mpr hnotMem, AList.lookup_insert, List.idxOf?_cons]
      simp
    · rw [AList.lookup_insert_ne heq] at hlookup hfresh
      refine ⟨?_, ?_⟩
      · have hne : (globalId == i) = false := beq_eq_false_iff_ne.mpr (Ne.symm heq)
        rw [hlookup, List.idxOf?_cons, hne]
        cases ids.idxOf? i with
        | none => rfl
        | some k =>
          simp only [Option.map_some, Bool.false_eq_true, if_false]
          rw [Nat.add_assoc, Nat.add_comm 1 k]
      · intro hmem
        exact hfresh ((List.mem_cons.mp hmem).resolve_left heq)

/-- The ids of the inputs of a new program, beside those its evaluation starts from. -/
theorem linked_inputs {ids wrappers storages : List ℕ}
    {live : AList fun _ : ℕ => TensorPtr} {outputIds : List ℕ} (hlen : ids.length = wrappers.length)
    (hlive : ProgramTensorPool.tryEmplace ids 0 ∅ = some live)
    (hs : wrappers.mapM m.storageOf = some storages) :
    Linked m storages.zipIdx ⟨wrappers, outputIds, ∅, live⟩ (Env.start ids contents).ids := by
  intro i
  have hlookup := (lookup_of_tryEmplace hlive i).1
  rw [AList.lookup_empty, Option.or_none] at hlookup
  unfold ProgramTensorPool.getRuntimeTensor
  show (live.lookup i).bind _ = none ∧ ids.idxOf? i = none ∨
    ∃ w s t, (live.lookup i).bind _ = some w ∧ m.storageOf w = some s ∧ ids.idxOf? i = some t ∧ _
  rw [hlookup]
  cases hidx : ids.idxOf? i with
  | none => exact .inl ⟨rfl, rfl⟩
  | some k =>
    right
    have hk : k < wrappers.length := by
      rw [← hlen]
      exact (List.idxOf?_eq_some_iff.mp hidx).1
    have hw : wrappers[k]? = some wrappers[k] := List.getElem?_eq_getElem hk
    obtain ⟨s, hsk, hstorage⟩ := getElem?_of_mapM hs hw
    refine ⟨wrappers[k], s, k, ?_, hstorage, rfl, List.mem_zipIdx_iff_getElem?.mpr hsk⟩
    rw [Option.map_some, Option.bind_some, Nat.zero_add]
    exact hw

/-- `load_cached`: its inputs become constants; a hit inserts the cached tensors, a miss
enters the function. -/
theorem Fresh.runLoadCached (h : Fresh K binary σ g) (hbinary : binary.CalleesConsistent)
    (hcount : σ.memory.wrappers.length ≤ 2 ^ 64) (hframes : σ.frames = f :: rest)
    (hops : f.operations = .loadCached calleeName programIdx inputs outputs :: ops)
    (hok : ∀ s ∈ σ.storagesOf f inputs, (σ.memory.contents s).isSome)
    (hrun : σ.runLoadCached binary f rest calleeName programIdx inputs outputs ops = some σ') :
    Fresh K binary σ' (g ++ σ.storagesOf f inputs) := by
  obtain ⟨wrappers, inputWrappers, hw, hv, hcases⟩ := State.runLoadCached_cases hrun
  obtain ⟨hs, hversions⟩ := mapM_storageOf hv
  rw [State.storagesOf_eq hw hs] at hok ⊢
  obtain ⟨contents, hc'⟩ := exists_mapM_contents hok
  have hc : inputWrappers.mapM (fun wrapper => σ.memory.contents wrapper.tensor)
      = some contents := by
    rw [List.mapM_map] at hc'
    exact hc'
  generalize hstorages : inputWrappers.map TTNNTensorWrapper.tensor = storages at hs hc'
  have hg : g ⊆ g ++ storages := List.subset_append_left g storages
  have hbound : ∀ s ∈ g ++ storages, s < σ.memory.storages.length := by
    intro s hmem
    rcases List.mem_append.mp hmem with hmem | hmem
    · exact h.bound s hmem
    · exact lt_of_mapM_contents hc' s hmem
  have hread : ∀ base (e : Env α) P,
      PairsOk σ.memory e.memory g base σ.memory.storages.length P → Linked σ.memory P f.pool e.ids →
      e.read inputs = some contents := by
    intro base e P hpairs hlinked
    obtain ⟨slots, hslots, hforall⟩ := hlinked.mapM hw hs
    simp only [Env.read, bind, hslots, Option.bind_some]
    exact hpairs.mapM_contents hforall hc'
  have hpool := h.pools f (by simp [hframes])
  rcases hcases with ⟨tensors, outStorages, pool, m, hhit, -, hts, hinsert, rfl⟩ |
    ⟨callee, -, henter, rfl⟩
  · obtain ⟨results, heval, htensors⟩ := h.hit hbinary hcount hframes hops hv hc hhit
    obtain ⟨hgrows, hpool', hmem, hids⟩ := insertAll_spec hinsert hpool
    have hlen : m.storages.length = σ.memory.storages.length := by rw [hmem]
    refine ⟨h.versioned.insertAll hinsert, fun w hw => (h.held w hw).trans_le hgrows.wrappers_le,
      ?_, ?_, ?_, .inr ?_⟩
    · intro f' hf'
      rcases List.mem_cons.mp hf' with rfl | hf'
      · exact hpool'
      · exact (h.pools f' (by simp [hframes, hf'])).mono hgrows.wrappers_le
    · intro s hs
      exact (hbound s hs).trans_le hgrows.storages_le
    · show CacheOk K binary m _ (σ.cache.getAll _ _ _).2
      intro outer inner value hvalue
      rw [TensorCache.entry, TensorCache.getAll_cache] at hvalue
      exact h.cache.carries (hgrows.carries h.bound (Nat.zero_le _)) hg outer inner value hvalue
    · apply (h.stackSim hframes).advance hops hgrows.storages_le hg
        (programInputs_insertAll hinsert) hids
      intro base e P hbase hpairs hlinked _
      refine ⟨hgrows.carries h.bound hbase, Env.bindFresh outputs results e, ?_, ?_⟩
      · intro done start hruns
        obtain ⟨program, e₂, hprogram, hcallee, hresults⟩ := heval
        exact hruns.loadCached (hread base e P hpairs hlinked) hprogram hcallee hresults
      · have hconst := htensors.constants hts h.bound
        obtain ⟨P', hpairs', hlinked'⟩ := hlinked.insertConstants
          (hpairs.mono hg (le_refl _) fun _ _ _ hb => hb) hpool (fun _ _ hb => hb)
          (hconst.imp fun s a hsa => ⟨hsa.1, hg hsa.2.1, hsa.2.2⟩) hinsert
        exact ⟨P', hpairs'.mono (fun _ hs => hs) hgrows.storages_le fun _ _ _ hb => hb, hlinked'⟩
  · obtain ⟨program, live, hprogram, hlen, hlive, rfl⟩ := State.enter_cases henter
    have hinputs := forall_lt_of_mapM hpool hw
    refine ⟨h.versioned, h.held, ?_, hbound, ?_, .inr ?_⟩
    · intro f' hf'
      rcases List.mem_cons.mp hf' with rfl | hf'
      · exact State.enter_spec henter hinputs
      · rcases List.mem_cons.mp hf' with rfl | hf'
        · exact hpool
        · exact h.pools f' (by simp [hframes, hf'])
    · show CacheOk K binary σ.memory _ (σ.cache.getAll _ _ _).2
      intro outer inner value hvalue
      rw [TensorCache.entry, TensorCache.getAll_cache] at hvalue
      have hsame : σ.memory.Carries σ.memory g 0 := Memory.Carries.refl _
      exact h.cache.carries hsame hg outer inner value hvalue
    · have hbelow := ((h.stackSim hframes).await hops hread).carries (Memory.Carries.refl _) hg
      have hsub : storages ⊆ g ++ storages := List.subset_append_right g storages
      apply StackSim.cached (e := Env.start program.inputs contents) (f := ⟨_, _, _, _, _⟩) rfl ?_
        ?_ (le_refl _) hversions hbelow
      · refine ⟨⟨program, [], hprogram, rfl, .nil _, rfl⟩, constantsHold_of_mapM hs hc' hsub,
          storages.zipIdx, pairsOk_inputs _ hc' hsub, linked_inputs hlen hlive hs⟩
      · intro _ _ _ _ hpending
        cases hpending

theorem carries_setRetainAll (outs : List ℕ) (retain : Bool) (m : Memory α) :
    m.Carries (outs.foldl (fun m w => m.setRetain w retain) m) g limit := by
  obtain ⟨hstorages, -, -, -, hsame⟩ := Memory.setRetainAll_spec outs retain m
  refine ⟨?_, ?_⟩
  · intro w wrapper hw
    have hw' := hsame w
    rw [hw] at hw'
    obtain ⟨wrapper', hwrapper', heq⟩ := Option.map_eq_some_iff.mp hw'
    exact ⟨wrapper', hwrapper', congrArg Prod.fst heq, congrArg Prod.snd heq⟩
  · intro s _ b hb
    rw [Memory.contents_eq_some, hstorages] at hb
    exact Memory.contents_eq_some.mpr hb

theorem storageOf_setRetainAll (outs : List ℕ) (retain : Bool) (m : Memory α) :
    (outs.foldl (fun m w => m.setRetain w retain) m).storageOf = m.storageOf := by
  obtain ⟨-, -, -, -, hsame⟩ := Memory.setRetainAll_spec outs retain m
  funext w
  have hfst := congrArg (Option.map Prod.fst) (hsame w)
  rw [Option.map_map, Option.map_map] at hfst
  exact hfst

/-- A running function at its end has computed its outputs. -/
theorem FrameSim.evaluates {contents results : List α} {base limit : ℕ} {e : Env α}
    {outs storages : List ℕ} (hsim : FrameSim K binary m g f [] base limit contents e)
    (hops : f.operations = [])
    (houts : f.pool.programOutputIds.mapM f.pool.getRuntimeTensor = some outs)
    (hs : outs.mapM m.storageOf = some storages) (hc : storages.mapM m.contents = some results) :
    Evaluates K binary f.programIndex contents results := by
  obtain ⟨P, hpairs, hlinked⟩ := hsim.pairs
  obtain ⟨program, done, hprogram, hall, hruns, hoids⟩ := hsim.runs
  obtain ⟨slots, hslots, hforall⟩ := hlinked.mapM houts hs
  refine ⟨program, e, hprogram, ?_, ?_⟩
  · rw [hall, hops, List.append_nil, List.append_nil]
    exact hruns
  · rw [← hoids]
    simp only [Env.read, bind, hslots, Option.bind_some]
    exact hpairs.mapM_contents hforall hc

section

variable (h : Fresh K binary σ g)

include h

/-- The outputs of a submitted program go to the caller. -/
theorem Fresh.finishSubmit (hframes : σ.frames = f :: rest) (hret : f.ret = .submit)
    {outs : List ℕ} (houts : f.pool.programOutputIds.mapM f.pool.getRuntimeTensor = some outs) :
    Fresh K binary { σ with
      memory := outs.foldl (fun m w => m.setRetain w false) σ.memory
      held := σ.held ++ outs
      frames := rest } g := by
  obtain ⟨hstorages, -, hlen, -, -⟩ := Memory.setRetainAll_spec outs false σ.memory
  have hcarries : σ.memory.Carries _ g 0 := carries_setRetainAll outs false σ.memory
  refine ⟨h.versioned.setRetainAll outs false, ?_, ?_, ?_,
    h.cache.carries hcarries fun _ hs => hs, .inl ?_⟩
  · intro w hw
    rw [hlen]
    rcases List.mem_append.mp hw with hw | hw
    · exact h.held w hw
    · exact forall_lt_of_mapM (h.pools f (by simp [hframes])) houts w hw
  · intro f' hf'
    rw [hlen]
    exact h.pools f' (by simp [hframes, hf'])
  · intro s hs
    rw [hstorages]
    exact h.bound s hs
  · have hstack := h.stackSim hframes
    cases hstack with
    | submit => rfl
    | cached hret' =>
      rw [hret] at hret'
      cases hret'

/-- The end of a program: its outputs are returned, or they become constants and a cached
value of the program below. -/
theorem Fresh.finish (hframes : σ.frames = f :: rest)
    (hops : f.operations = [])
    (hok : f.ret = .submit ∨
      ∀ s ∈ σ.storagesOf f f.pool.programOutputIds, (σ.memory.contents s).isSome)
    (hrun : σ.finish f rest = some σ') :
    Fresh K binary σ' (recordConstants (ρ := ρ) σ g .exec) := by
  obtain ⟨outs, houts, hcases⟩ := State.finish_cases hrun
  obtain ⟨hstorages₀, -, hlen₀, -, -⟩ := Memory.setRetainAll_spec outs false σ.memory
  have hversioned₀ := h.versioned.setRetainAll outs false
  have hcarries₀ : ∀ limit, σ.memory.Carries _ g limit := fun limit =>
    carries_setRetainAll outs false σ.memory
  rcases hcases with ⟨hret, rfl⟩ | ⟨cacheKey, calleeName, inputVersions, outputs, parent, rest',
    storages, pool, m, hret, rfl, -, hs, hinsert, rfl⟩
  · have hrecord : recordConstants (ρ := ρ) σ g .exec = g := by
      simp only [recordConstants, hframes, hops, hret]
    rw [hrecord]
    exact h.finishSubmit hframes hret houts
  · have hs' : outs.mapM σ.memory.storageOf = some storages := by
      rw [← storageOf_setRetainAll outs false σ.memory]
      exact hs
    have hrecord : recordConstants (ρ := ρ) σ g .exec = g ++ storages := by
      simp only [recordConstants, hframes, hops, hret, State.storagesOf_eq houts hs']
    obtain ⟨results, hc⟩ : ∃ results, storages.mapM
        (outs.foldl (fun m w => m.setRetain w false) σ.memory).contents = some results := by
      rw [hret, State.storagesOf_eq houts hs'] at hok
      apply exists_mapM_contents
      intro s hmem
      unfold Memory.contents
      rw [hstorages₀]
      exact hok.resolve_left Return.noConfusion s hmem
    rw [hrecord]
    generalize outs.foldl (fun m w => m.setRetain w false) σ.memory = m₀ at *
    have hg : g ⊆ g ++ storages := List.subset_append_left g storages
    have hsub : storages ⊆ g ++ storages := List.subset_append_right g storages
    have hparent := h.pools parent (by simp [hframes])
    rw [← hlen₀] at hparent
    obtain ⟨hgrows, hpool, hmem, hids⟩ := insertAll_spec hinsert hparent
    have hbound₀ : ∀ s ∈ g ++ storages, s < m₀.storages.length := by
      intro s hmem
      rcases List.mem_append.mp hmem with hmem | hmem
      · rw [hstorages₀]
        exact h.bound s hmem
      · exact lt_of_mapM_contents hc s hmem
    have hbound₀' : ∀ s ∈ g, s < m₀.storages.length := fun s hs => hbound₀ s (hg hs)
    have hcarries : ∀ limit, limit ≤ σ.memory.storages.length → σ.memory.Carries m g limit := by
      intro limit hlimit
      apply (hcarries₀ limit).trans (hgrows.carries hbound₀' _)
      rw [hstorages₀]
      exact hlimit
    have hstack := h.stackSim hframes
    cases hstack with
    | @cached _ _ _ _ _ contents base _ e calleeName' versions inputs outputs' hret' hsim _ hbase
        hversions hbelow =>
        rw [hret] at hret'
        cases hret'
        have hsame : σ.memory.contents = m₀.contents := by
          unfold Memory.contents
          rw [hstorages₀]
        have heval := hsim.evaluates hops houts hs' (hsame ▸ hc)
        have houtsHold : ConstantsHold m (g ++ storages) outs results :=
          (constantsHold_of_mapM hs hc hsub).carries
            (hgrows.carries hbound₀ (Nat.zero_le m₀.storages.length)) fun _ hs => hs
        have hle : σ.memory.wrappers.length ≤ m.wrappers.length := by
          rw [← hlen₀]
          exact hgrows.wrappers_le
        refine ⟨hversioned₀.insertAll hinsert, fun w hw => (h.held w hw).trans_le hle, ?_, ?_, ?_,
          .inr ?_⟩
        · intro f' hf'
          rcases List.mem_cons.mp hf' with rfl | hf'
          · exact hpool
          · exact (h.pools f' (by simp [hframes, hf'])).mono hle
        · intro s hs
          exact (hbound₀ s hs).trans_le hgrows.storages_le
        · intro outer inner value hvalue
          rw [TensorCache.entry_store] at hvalue
          split_ifs at hvalue with hkey
          · obtain ⟨rfl, rfl⟩ := hkey
            cases hvalue
            have hcalls := hbelow.calls rfl
            exact ⟨parent.deviceId, parent.programIndex, f.programIndex, rfl, hcalls,
              ⟨f.pool.programInputs, contents, results,
                hversions.carries (hcarries 0 (Nat.zero_le _)),
                hsim.inputs.carries (hcarries 0 (Nat.zero_le _)) hg, heval, houtsHold⟩⟩
          · exact h.cache.carries (hcarries 0 (Nat.zero_le _)) hg outer inner value hvalue
        · have hbelow₀ := hbelow.carries (hcarries₀ base) (fun _ hs => hs)
          apply hbelow₀.advance rfl (hbase.trans (by rw [hmem, hstorages₀])) hg
            (programInputs_insertAll hinsert) hids
          intro base' e' P' hbase' hpairs' hlinked' hawaited
          refine ⟨hgrows.carries hbound₀' (by rw [hstorages₀]; exact hbase'.trans hbase),
            Env.bindFresh outputs results e', ?_, ?_⟩
          · intro done start hruns'
            obtain ⟨program', e₂, hprogram', hcallee, hresults⟩ := heval
            exact hruns'.loadCached (hawaited _ _ _ _ rfl) hprogram' hcallee hresults
          · have hle : base ≤ m₀.storages.length := by
              rw [hstorages₀]
              exact hbase
            have hconst := (constantsHold_of_mapM hs hc hsub).constants hs hbound₀
            obtain ⟨P₂, hpairs₂, hlinked₂⟩ := hlinked'.insertConstants
              (hpairs'.mono hg hle fun _ _ _ hb => hb) hparent (fun _ _ hb => hb) hconst hinsert
            exact ⟨P₂, hpairs₂.mono (fun _ hs => hs) hgrows.storages_le fun _ _ _ hb => hb,
              hlinked₂⟩

/-- The next operation, or the end, of the innermost running program. -/
theorem Fresh.exec (hbinary : binary.CalleesConsistent)
    (hcount : σ.memory.wrappers.length ≤ 2 ^ 64) (hok : KeepsContents (ρ := ρ) K σ g .exec)
    (hexec : σ.exec K binary = some σ') :
    Fresh K binary σ' (recordConstants (ρ := ρ) σ g .exec) := by
  unfold State.exec at hexec
  unfold KeepsContents at hok
  cases hframes : σ.frames with
  | nil =>
    rw [hframes] at hexec
    cases hexec
  | cons f rest =>
    rw [hframes] at hexec hok
    cases hops : f.operations with
    | nil =>
      simp only [hops] at hexec hok
      exact h.finish hframes hops hok hexec
    | cons op ops =>
      simp only [hops] at hexec hok
      cases op with
      | compute kind inputs outputs =>
        have hrecord : recordConstants (ρ := ρ) σ g .exec = g := by
          simp only [recordConstants, hframes, hops]
        rw [hrecord]
        exact h.runCompute hframes hops hok hexec
      | deallocate input force =>
        have hrecord : recordConstants (ρ := ρ) σ g .exec = g := by
          simp only [recordConstants, hframes, hops]
        rw [hrecord]
        exact h.runDeallocate hframes hops hexec
      | loadCached calleeName programIdx inputs outputs =>
        have hrecord : recordConstants (ρ := ρ) σ g .exec = g ++ σ.storagesOf f inputs := by
          simp only [recordConstants, hframes, hops]
        rw [hrecord]
        exact h.runLoadCached hbinary hcount hframes hops hok hexec

/-! ## One call -/

theorem Fresh.idle (hframes : σ'.frames = [])
    (hcache : σ'.cache = σ.cache) (hversioned : σ'.memory.Versioned)
    (hheld : ∀ w ∈ σ'.held, w < σ'.memory.wrappers.length)
    (hlen : σ.memory.storages.length ≤ σ'.memory.storages.length)
    (hcarries : σ.memory.Carries σ'.memory g 0) : Fresh K binary σ' g := by
  refine ⟨hversioned, hheld, ?_, fun s hs => (h.bound s hs).trans_le hlen, ?_, .inl hframes⟩
  · rw [hframes]
    simp
  · rw [hcache]
    exact h.cache.carries hcarries fun _ hs => hs

theorem Fresh.held_createRuntimeTensor
    (hwrappers : m.wrappers = σ.memory.wrappers) (s : ℕ) (retain : Bool) :
    ∀ w ∈ σ.held ++ [(m.createRuntimeTensor s retain).1],
      w < (m.createRuntimeTensor s retain).2.wrappers.length := by
  intro w hw
  rcases List.mem_append.mp hw with hw | hw
  · apply (h.held w hw).trans_le
    rw [← hwrappers]
    exact (m.grows_createRuntimeTensor s retain).wrappers_le
  · rw [List.mem_singleton] at hw
    rw [hw]
    exact lt_createRuntimeTensor m s retain

theorem Fresh.deallocateTensor (hframes : σ.frames = []) (tensor : ℕ)
    (force : Bool) : Fresh K binary { σ with memory := σ.deallocate tensor force } g := by
  obtain ⟨hwrappers, hversion, hlen, -⟩ := σ.deallocate_spec tensor force
  refine h.idle hframes rfl (h.versioned.of_eq hwrappers hversion) ?_ (le_of_eq hlen.symm)
    (carries_deallocate σ tensor force)
  intro w hw
  exact (h.held w hw).trans_eq (congrArg List.length hwrappers).symm

/-- A call that overwrites no constant. -/
theorem Fresh.call (hframes : σ.frames = []) (c : Call ρ α)
    (hok : KeepsContents K σ g (.call c)) (hcall : σ.call K binary c = some σ') :
    Fresh K binary σ' (recordConstants σ g (.call c)) := by
  cases c with
  | createTensor contents =>
    cases hcall
    have hgrows := (σ.memory.grows_allocate contents).trans
      ((σ.memory.allocate contents).2.grows_createRuntimeTensor
        (σ.memory.allocate contents).1 false)
    have hversioned : (σ.memory.allocate contents).2.Versioned := h.versioned.of_eq rfl rfl
    exact h.idle hframes rfl (hversioned.createRuntimeTensor _ false)
      (h.held_createRuntimeTensor rfl _ false) hgrows.storages_le
      (hgrows.carries h.bound (Nat.zero_le _))
  | memcpy dst src =>
    -- the version of `dst` stays, so its storage must be no constant
    simp only [State.call] at hcall
    split_ifs at hcall
    simp only [bind, Option.bind_eq_some_iff, Option.some.injEq] at hcall
    obtain ⟨d, hd, s, -, a, -, old, -, rfl⟩ := hcall
    have hwrite : σ.memory.writeAll [d] [(0, a)] = some (σ.memory.write d a) := rfl
    obtain ⟨-, -, hlen, -, -⟩ := Memory.writeAll_spec hwrite
    have hversioned : (σ.memory.write d a).Versioned := h.versioned.of_eq rfl rfl
    refine h.idle hframes rfl hversioned h.held (le_of_eq hlen.symm) ?_
    apply carries_writeAll hwrite
    intro p hp t ht
    rw [List.mem_singleton] at hp
    subst hp
    cases ht
    exact ⟨Nat.zero_le _, hok d hd⟩
  | toLayout tensor layout retain =>
    simp only [State.call] at hcall
    split_ifs at hcall
    simp only [bind, Option.bind_eq_some_iff, Option.some.injEq] at hcall
    obtain ⟨wrapper, hwrapper, a, ha, rfl⟩ := hcall
    obtain ⟨s, m, hconvert⟩ : ∃ s m,
        σ.memory.convertLayout K layout wrapper.tensor a = (s, m) := ⟨_, _, rfl⟩
    obtain ⟨hgrows, hwrappers, hversion, -⟩ := Memory.convertLayout_spec hconvert ha
    rw [hconvert]
    simp only
    have hgrows' := hgrows.trans (m.grows_createRuntimeTensor s (retain.getD wrapper.retain))
    have hversioned : m.Versioned := h.versioned.of_eq hwrappers hversion
    have hconverted : Fresh K binary
        { σ with
          memory := (m.createRuntimeTensor s (retain.getD wrapper.retain)).2
          held := σ.held ++ [(m.createRuntimeTensor s (retain.getD wrapper.retain)).1] } g :=
      h.idle hframes rfl (hversioned.createRuntimeTensor s _)
        (h.held_createRuntimeTensor hwrappers s _) hgrows'.storages_le
        (hgrows'.carries h.bound (Nat.zero_le _))
    split_ifs
    · exact hconverted
    · exact hconverted.deallocateTensor hframes tensor false
  | setTensorRetain tensor retain =>
    simp only [State.call] at hcall
    split_ifs at hcall
    cases hcall
    obtain ⟨-, -, hlen, -, -⟩ := Memory.setRetainAll_spec [tensor] retain σ.memory
    refine h.idle hframes rfl (h.versioned.setRetainAll [tensor] retain) ?_ le_rfl
      (carries_setRetainAll [tensor] retain σ.memory)
    intro w hw
    exact (h.held w hw).trans_eq hlen.symm
  | deallocateTensor tensor force =>
    simp only [State.call] at hcall
    split_ifs at hcall
    cases hcall
    exact h.deallocateTensor hframes tensor force
  | submit deviceId programIndex inputs =>
    simp only [State.call] at hcall
    split_ifs at hcall with hheld
    simp only [bind, Option.bind_eq_some_iff, Option.some.injEq] at hcall
    obtain ⟨f, hf, rfl⟩ := hcall
    have hpool : f.pool.WellFormed σ.memory.wrappers.length :=
      State.enter_spec hf fun w hw => h.held w (hheld w hw)
    obtain ⟨program, live, hprogram, -, -, rfl⟩ := State.enter_cases hf
    refine ⟨h.versioned, h.held, ?_, h.bound, h.cache, .inr ?_⟩
    · intro f' hf'
      rw [List.mem_singleton] at hf'
      subst hf'
      exact hpool
    · exact .submit (f := ⟨_, _, _, _, _⟩) rfl hprogram (List.nil_append _).symm
  | clearCache =>
    cases hcall
    refine ⟨h.versioned, h.held, ?_, by simp [recordConstants], ?_, .inl hframes⟩
    · rw [hframes]
      simp
    · intro outer inner value hvalue
      simp [TensorCache.entry, TensorCache.clear] at hvalue

end

end Steps

/-! ## Wrappers and cached tensors stay -/

section Stay

variable {K : Kernels κ ρ α} {binary : Binary κ} {σ σ' : State κ α} {m m' : Memory α}

theorem memory_insertAll (h : insertAll outputs pool m = (pool', m')) :
    m.Grows m' ∧ m'.storages = m.storages := by
  induction outputs generalizing pool m with
  | nil =>
    cases h
    exact ⟨Memory.Grows.refl _, rfl⟩
  | cons output outputs ih =>
    have htail := ih h
    exact ⟨(m.grows_createRuntimeTensor output.2 false).trans htail.1, htail.2⟩

/-- Wrappers keep their tensors. -/
def Memory.Wraps (m m' : Memory α) : Prop :=
  ∀ w s, m.storageOf w = some s → m'.storageOf w = some s

theorem Memory.Wraps.of_eq (h : m'.wrappers = m.wrappers) : m.Wraps m' := by
  intro w s hs
  unfold Memory.storageOf at hs ⊢
  rw [h]
  exact hs

theorem Memory.exists_storageOf {w : ℕ} (h : w < m.wrappers.length) :
    ∃ s, m.storageOf w = some s := by
  refine ⟨m.wrappers[w].tensor, ?_⟩
  rw [storageOf, List.getElem?_eq_getElem h]
  rfl

theorem Memory.Wraps.le (h : m.Wraps m') : m.wrappers.length ≤ m'.wrappers.length := by
  by_contra hlt
  obtain ⟨s, hs⟩ := exists_storageOf (not_le.mp hlt)
  have hs' := h _ s hs
  rw [storageOf, List.getElem?_eq_none le_rfl] at hs'
  cases hs'

/-- Storages that are not freed stay allocated. -/
theorem State.isSome_deallocate {w s : ℕ} {force : Bool} (hs : (σ.memory.contents s).isSome)
    (h : ¬ σ.Releases w force s) : ((σ.deallocate w force).contents s).isSome := by
  rcases σ.deallocate_cases w force with heq | ⟨t, ht, heq, hfree⟩
  · rwa [heq]
  · have hne : t ≠ s := fun hts => h ⟨hts ▸ ht, hts ▸ hfree⟩
    rw [heq, Memory.contents, Memory.free, List.getElem?_set_ne hne]
    exact hs

theorem Memory.Grows.isSome (h : m.Grows m') {s : ℕ} (hs : (m.contents s).isSome) :
    (m'.contents s).isSome := by
  obtain ⟨a, ha⟩ := Option.isSome_iff_exists.mp hs
  exact Option.isSome_iff_exists.mpr ⟨a, h.contents ha⟩

/-- What a step leaves of wrappers and storages, and where the values of the cache come from:
they were cached before, or are the outputs of a function that ends. -/
structure State.Leaves (freed : ℕ → Prop) (σ σ' : State κ α) : Prop where
  wraps : σ.memory.Wraps σ'.memory
  allocated : ∀ s, (σ.memory.contents s).isSome → ¬ freed s → (σ'.memory.contents s).isSome
  entry : ∀ outer inner value, σ'.cache.entry outer inner = some value →
    σ.cache.entry outer inner = some value ∨
      ∃ f rest, σ.frames = f :: rest ∧ f.operations = [] ∧ f.ret ≠ .submit ∧
        f.pool.programOutputIds.mapM f.pool.getRuntimeTensor = some value.tensors ∧
        σ'.memory.storages = σ.memory.storages

theorem leaves_of_exec (h : σ.exec K binary = some σ') :
    σ.Leaves (σ.Frees K · .exec) σ' := by
  unfold State.exec at h
  unfold State.Frees
  cases hframes : σ.frames with
  | nil =>
    rw [hframes] at h
    cases h
  | cons f rest =>
    rw [hframes] at h
    cases hops : f.operations with
    | nil =>
      simp only [hops] at h ⊢
      obtain ⟨outs, houts, hcases⟩ := State.finish_cases h
      obtain ⟨hstorages, -, -, -, -⟩ := Memory.setRetainAll_spec outs false σ.memory
      have hmarks : σ.memory.Wraps (outs.foldl (fun m w => m.setRetain w false) σ.memory) := by
        intro w s hs
        rw [storageOf_setRetainAll]
        exact hs
      rcases hcases with ⟨-, rfl⟩ | ⟨_, _, _, _, _, _, _, _, m, hret, -, -, -, hinsert, rfl⟩
      · refine ⟨hmarks, fun s hs _ => ?_, fun _ _ _ hvalue => .inl hvalue⟩
        rwa [Memory.contents, hstorages]
      · obtain ⟨hgrows, hsame⟩ := memory_insertAll hinsert
        refine ⟨fun w s hs => hgrows.storageOf (hmarks w s hs), fun s hs _ => ?_,
          fun outer inner value hvalue => ?_⟩
        · rwa [Memory.contents, hsame, hstorages]
        rw [TensorCache.entry_store] at hvalue
        split_ifs at hvalue
        · cases hvalue
          exact .inr ⟨f, rest, hframes, hops, by rw [hret]; exact Return.noConfusion, houts,
            hsame.trans hstorages⟩
        · exact .inl hvalue
    | cons op ops =>
      simp only [hops] at h ⊢
      cases op with
      | compute kind inputs outputs =>
        obtain ⟨_, storages, _, effect, m₁, m₂, _, m₃, _, _, heffect, -, -, -, -, h₁, h₂, h₃, -,
          hinsert, rfl⟩ := State.runCompute_cases h
        have hfreed : σ.memory.Wraps m₂ :=
          .of_eq ((Memory.freeAll_spec h₂).1.trans (Memory.writeAll_spec h₁).1)
        have hgrows := (Memory.grows_place h₃).trans (memory_insertAll hinsert).1
        refine ⟨fun w s hs => hgrows.storageOf (hfreed w s hs), fun s hs hfree => ?_,
          fun _ _ _ hvalue => .inl hvalue⟩
        obtain ⟨a, ha⟩ := Option.isSome_iff_exists.mp hs
        obtain ⟨b, hb⟩ := (Memory.writeAll_spec h₁).2.2.2.2 s a ha
        refine hgrows.isSome (Option.isSome_iff_exists.mpr ⟨b, ?_⟩)
        rwa [Memory.contents, (Memory.freeAll_spec h₂).2.2.2.1 s fun i hi hs' =>
          hfree ⟨storages, effect, heffect, i, hi, hs'⟩]
      | deallocate input force =>
        obtain ⟨w, wrapper, _, hw, hwrapper, -, rfl⟩ := State.runDeallocate_cases h
        cases hretain : wrapper.retain with
        | true => exact ⟨.of_eq rfl, fun _ hs _ => hs, fun _ _ _ hvalue => .inl hvalue⟩
        | false =>
          refine ⟨.of_eq (σ.deallocate_spec w force).1, fun s hs hfree => ?_,
            fun _ _ _ hvalue => .inl hvalue⟩
          exact State.isSome_deallocate hs fun hreleases =>
            hfree ⟨w, wrapper, hw, hwrapper, hretain, hreleases⟩
      | loadCached calleeName programIdx inputs outputs =>
        obtain ⟨_, _, -, -, ⟨_, _, _, _, -, -, -, hinsert, rfl⟩ | ⟨_, -, -, rfl⟩⟩ :=
          State.runLoadCached_cases h
        · obtain ⟨hgrows, -⟩ := memory_insertAll hinsert
          refine ⟨fun w s hs => hgrows.storageOf hs, fun s hs _ => hgrows.isSome hs, ?_⟩
          intro outer inner value hvalue
          rw [TensorCache.entry, TensorCache.getAll_cache] at hvalue
          exact .inl hvalue
        · refine ⟨.of_eq rfl, fun _ hs _ => hs, fun outer inner value hvalue => ?_⟩
          rw [TensorCache.entry, TensorCache.getAll_cache] at hvalue
          exact .inl hvalue

theorem leaves_of_call {c : Call ρ α} (h : σ.call K binary c = some σ') :
    σ.Leaves (σ.Frees K · (.call c)) σ' := by
  have hsame : σ.memory.Wraps σ'.memory → (∀ s, (σ.memory.contents s).isSome →
      ¬ σ.Frees K s (.call c) → (σ'.memory.contents s).isSome) → σ'.cache = σ.cache →
      σ.Leaves (σ.Frees K · (.call c)) σ' := by
    intro hwraps hallocated hcache
    exact ⟨hwraps, hallocated, fun _ _ _ hvalue => .inl (hcache ▸ hvalue)⟩
  cases c with
  | createTensor contents =>
    cases h
    have hgrows := (σ.memory.grows_allocate contents).trans
      ((σ.memory.allocate contents).2.grows_createRuntimeTensor
        (σ.memory.allocate contents).1 false)
    exact hsame (fun w s hs => hgrows.storageOf hs) (fun s hs _ => hgrows.isSome hs) rfl
  | memcpy dst src =>
    simp only [State.call] at h
    split_ifs at h
    simp only [bind, Option.bind_eq_some_iff, Option.some.injEq] at h
    obtain ⟨d, -, _, -, a, -, _, -, rfl⟩ := h
    refine hsame (.of_eq rfl) (fun s hs _ => ?_) rfl
    obtain ⟨b, hb⟩ := Option.isSome_iff_exists.mp hs
    have hwrite : σ.memory.writeAll [d] [(0, a)] = some (σ.memory.write d a) := rfl
    exact Option.isSome_iff_exists.mpr ((Memory.writeAll_spec hwrite).2.2.2.2 s b hb)
  | toLayout tensor layout retain =>
    simp only [State.call] at h
    split_ifs at h
    simp only [bind, Option.bind_eq_some_iff, Option.some.injEq] at h
    obtain ⟨wrapper, hwrapper, a, ha, rfl⟩ := h
    obtain ⟨s, m, hconvert⟩ : ∃ s m,
        σ.memory.convertLayout K layout wrapper.tensor a = (s, m) := ⟨_, _, rfl⟩
    have hgrows := (Memory.convertLayout_spec hconvert ha).1.trans
      (m.grows_createRuntimeTensor s (retain.getD wrapper.retain))
    rw [hconvert] at hsame ⊢
    simp only at hsame ⊢
    split_ifs at hsame ⊢ with hretain
    · exact hsame (fun w s hs => hgrows.storageOf hs) (fun s hs _ => hgrows.isSome hs) rfl
    · refine hsame (fun w s hs => ?_) (fun t ht hfree => ?_) rfl
      · exact Memory.Wraps.of_eq (State.deallocate_spec _ tensor false).1 w s (hgrows.storageOf hs)
      · refine State.isSome_deallocate (hgrows.isSome ht) fun ⟨hstorage, hreleases⟩ => ?_
        have hshared := hreleases.resolve_left Bool.false_ne_true
        have hold : σ.memory.storageOf tensor = some wrapper.tensor := by
          rw [Memory.storageOf, hwrapper]
          rfl
        obtain rfl := Option.some.inj ((hgrows.storageOf hold).symm.trans hstorage)
        cases hkernel : K.convertTensorLayout layout a with
        | fresh b =>
          refine hfree ⟨wrapper, a, b, hwrapper, ha, Bool.eq_false_iff.mpr hretain, hkernel, hold,
            .inr fun w' hw' hne hs' => hshared w' ?_ hne (hgrows.storageOf hs')⟩
          simp only [State.references, List.mem_append] at hw' ⊢
          tauto
        | operand position =>
          -- the new wrapper has the same tensor
          rw [Memory.convertLayout, hkernel] at hconvert
          cases hconvert
          have hlt := (List.getElem?_eq_some_iff.mp hwrapper).1
          exact hshared (σ.memory.createRuntimeTensor _ _).1 (by simp [State.references]) hlt.ne'
            (storageOf_createRuntimeTensor _ _ _)
  | setTensorRetain tensor retain =>
    simp only [State.call] at h
    split_ifs at h
    cases h
    refine hsame (fun w s hs => ?_) (fun _ hs _ => hs) rfl
    exact (congrFun (storageOf_setRetainAll [tensor] retain σ.memory) w).trans hs
  | deallocateTensor tensor force =>
    simp only [State.call] at h
    split_ifs at h
    cases h
    exact hsame (.of_eq (σ.deallocate_spec tensor force).1)
      (fun s hs hfree => State.isSome_deallocate hs hfree) rfl
  | submit deviceId programIndex inputs =>
    simp only [State.call] at h
    split_ifs at h
    simp only [bind, Option.bind_eq_some_iff, Option.some.injEq] at h
    obtain ⟨_, -, rfl⟩ := h
    exact hsame (.of_eq rfl) (fun _ hs _ => hs) rfl
  | clearCache =>
    cases h
    refine ⟨.of_eq rfl, fun _ hs _ => hs, fun outer inner value hvalue => ?_⟩
    simp [TensorCache.entry, TensorCache.clear] at hvalue

theorem leaves_of_step {e : Event ρ α} (h : σ.step K binary e = some σ') :
    σ.Leaves (σ.Frees K · e) σ' := by
  cases e with
  | exec => exact leaves_of_exec h
  | call c =>
    unfold State.step at h
    split_ifs at h
    exact leaves_of_call h

/-- The tensors in the cache are allocated. -/
def State.CachedAllocated (σ : State κ α) : Prop :=
  ∀ s, σ.Caches s → (σ.memory.contents s).isSome

/-- A step that frees no cached tensor, and caches none that is freed. -/
theorem Fresh.cachedAllocated {g : List ℕ} {e : Event ρ α} (h : Fresh K binary σ g)
    (halloc : σ.CachedAllocated) (hok : KeepsConstants K σ g e)
    (hstep : σ.step K binary e = some σ') : σ'.CachedAllocated := by
  obtain ⟨hwraps, hallocated, hentry⟩ := leaves_of_step hstep
  rintro s ⟨outer, inner, value, hvalue, w, hw, hs⟩
  rcases hentry outer inner value hvalue with hold | ⟨f, rest, hframes, hops, hret, houts, hsame⟩
  · obtain ⟨_, _, _, -, -, ⟨_, _, _, -, -, -, htensors⟩⟩ := h.cache outer inner value hold
    obtain ⟨i, hi, rfl⟩ := List.getElem_of_mem hw
    obtain ⟨_, -, s₀, hs₀, -⟩ := exists_getElem?_of_forall₂ htensors (List.getElem?_eq_getElem hi)
    obtain rfl := Option.some.inj ((hwraps _ s₀ hs₀).symm.trans hs)
    have hcached : σ.Caches s₀ := ⟨outer, inner, value, hold, _, hw, hs₀⟩
    exact hallocated s₀ (halloc s₀ hcached) (hok.cached s₀ hcached)
  · have hlt := forall_lt_of_mapM (h.pools f (by simp [hframes])) houts w hw
    obtain ⟨s₀, hs₀⟩ := Memory.exists_storageOf hlt
    obtain rfl := Option.some.inj ((hwraps w s₀ hs₀).symm.trans hs)
    have hend : e = .exec := by
      cases e with
      | exec => rfl
      | call c =>
        unfold State.step at hstep
        rw [hframes] at hstep
        cases hstep
    subst hend
    have hcontents := hok.contents
    simp only [KeepsContents, hframes, hops] at hcontents
    rw [Memory.contents, hsame]
    apply hcontents.resolve_left hret
    rw [State.storagesOf, filterMap_of_mapM houts]
    exact List.mem_filterMap.mpr ⟨w, hw, hs₀⟩

end Stay

/-! ## Every hit is current -/

/-- Allocated constants can be read. -/
theorem ConstantsHold.read {m : Memory α} {g wrappers : List ℕ} {contents : List α}
    (h : ConstantsHold m g wrappers contents)
    (halloc : ∀ w ∈ wrappers, ∀ s, m.storageOf w = some s → (m.contents s).isSome) :
    ∃ storages, wrappers.mapM m.storageOf = some storages ∧
      storages.mapM m.contents = some contents := by
  simp only [mapM_eq_some_iff]
  induction h with
  | nil => exact ⟨[], List.Forall₂.nil, List.Forall₂.nil⟩
  | cons hhead _ ih =>
    obtain ⟨s, hs, -, hb⟩ := hhead
    obtain ⟨b, hcontents⟩ := Option.isSome_iff_exists.mp (halloc _ List.mem_cons_self s hs)
    obtain rfl := hb b hcontents
    obtain ⟨storages, hss, hcc⟩ := ih fun w hw => halloc w (List.mem_cons_of_mem _ hw)
    exact ⟨s :: storages, List.Forall₂.cons hs hss, List.Forall₂.cons hcontents hcc⟩

theorem Fresh.neverStale {σ : State κ α} {g : List ℕ}
    (h : Fresh K binary σ g) (halloc : σ.CachedAllocated) (hbinary : binary.CalleesConsistent)
    (hcount : σ.memory.wrappers.length ≤ 2 ^ 64) : NeverStale K binary σ := by
  intro f rest calleeName programIdx inputs outputs ops wrappers inputWrappers contents tensors
    hframes hops _ hv hc hhit
  obtain ⟨results, heval, htensors⟩ := h.hit hbinary hcount hframes hops hv hc hhit
  rw [TensorCache.getAll_answer, Option.map_eq_some_iff] at hhit
  obtain ⟨value, hvalue, rfl⟩ := hhit
  obtain ⟨hentry, -⟩ := Option.filter_eq_some_iff.mp hvalue
  obtain ⟨storages, hs, ho⟩ := htensors.read fun w hw s hs =>
    halloc s ⟨_, _, value, hentry, w, hw, hs⟩
  exact ⟨results, storages, heval, hs, ho⟩

/-- **Cached constants.**  In every run whose steps overwrite nothing that a `load_cached`
operation has read or cached and free no cached tensor, and which makes at most `2^64` tensors,
every hit returns what its function computes from the current contents of its inputs. -/
theorem neverStale_of_reaches {K : Kernels κ ρ α} {binary : Binary κ} {σ : State κ α}
    {g : List ℕ} (hbinary : binary.CalleesConsistent)
    (h : Reaches K binary [] recordConstants (KeepsConstants K) σ g)
    (hcount : σ.memory.wrappers.length ≤ 2 ^ 64) : NeverStale K binary σ := by
  have hfresh : σ.memory.wrappers.length ≤ 2 ^ 64 → Fresh K binary σ g ∧ σ.CachedAllocated := by
    apply Reaches.invariant (fun (σ : State κ α) g =>
      σ.memory.wrappers.length ≤ 2 ^ 64 → Fresh K binary σ g ∧ σ.CachedAllocated) _ _ h
    · intro _
      have hempty : ∀ outer inner value,
          ¬ (State.initial : State κ α).cache.entry outer inner = some value := by
        intro outer inner value hvalue
        simp [State.initial, TensorCache.empty, TensorCache.entry] at hvalue
      refine ⟨⟨⟨?_, rfl⟩, ?_, ?_, ?_, ?_, .inl rfl⟩, ?_⟩
      · intro w wrapper hw
        simp [State.initial] at hw
      · simp [State.initial]
      · simp [State.initial]
      · simp
      · exact fun outer inner value hvalue => absurd hvalue (hempty outer inner value)
      · rintro s ⟨outer, inner, value, hvalue, -⟩
        exact absurd hvalue (hempty outer inner value)
    · intro σ σ' g e hinv hok hstep hcount'
      have hcount := (leaves_of_step hstep).wraps.le.trans hcount'
      obtain ⟨hfresh, halloc⟩ := hinv hcount
      refine ⟨?_, hfresh.cachedAllocated halloc hok hstep⟩
      cases e with
      | exec => exact hfresh.exec hbinary hcount hok.contents hstep
      | call c =>
        unfold State.step at hstep
        split_ifs at hstep with hframes
        exact hfresh.call hframes c hok.contents hstep
  exact (hfresh hcount).1.neverStale (hfresh hcount).2 hbinary hcount

/-! ## A weight that is copied over -/

/-- A library with one operation, which adds one. -/
def increment : Kernels Unit Unit ℕ where
  run _ contents := contents.head?.map fun a => ⟨[.fresh (a + 1)], [], []⟩
  convertTensorLayout _ a := .fresh a

/-- A program that loads a cached constant, and the function that computes it. -/
def weightBinary : Binary Unit where
  programs := [⟨[0], [1], [.loadCached "f" 1 [0] [1]]⟩, ⟨[0], [1], [.compute () [0] [1]]⟩]

/-- The second submission of a weight hits the cache. -/
theorem neverStale_of_reaches_resubmitted :
    ∃ σ : State Unit ℕ, σ.cache.entry "0:0" "f" ≠ none ∧ σ.frames ≠ [] ∧
      σ.memory.storages = [some 7, some 8] ∧ NeverStale increment weightBinary σ := by
  have created : Reaches increment weightBinary [] recordConstants
      (KeepsConstants increment) _ _ :=
    Reaches.init.step (e := .call (.createTensor 7)) ⟨trivial, fun _ _ => id⟩ rfl
  have submitted := created.step (e := .call (.submit 0 0 [0])) ⟨trivial, fun _ _ => id⟩ rfl
  have missed := submitted.step (e := .exec) ⟨(by
    show ∀ s ∈ [0], _
    decide), fun _ _ => id⟩ rfl
  have computed := missed.step (e := .exec) ⟨(by
    rintro storages effect heffect p hp
    cases heffect
    cases hp), fun s _ ⟨storages, effect, heffect, i, hi, _⟩ => by
    cases heffect
    cases hi⟩ rfl
  have cached := computed.step (e := .exec) ⟨.inr (by
    show ∀ s ∈ [1], _
    decide), fun _ _ => id⟩ rfl
  have returned := cached.step (e := .exec) ⟨.inl rfl, fun _ _ => id⟩ rfl
  have again := returned.step (e := .call (.submit 0 0 [0])) ⟨trivial, fun _ _ => id⟩ rfl
  have hbinary : weightBinary.CalleesConsistent := by
    intro program hprogram calleeName i j inputs inputs' outputs outputs' hi hj
    rcases List.mem_pair.mp hprogram with rfl | rfl
    · cases List.mem_singleton.mp hi
      cases List.mem_singleton.mp hj
      rfl
    · cases List.mem_singleton.mp hi
  exact ⟨_, by decide, by decide, by decide, neverStale_of_reaches hbinary again (by decide)⟩

/-- The weight is overwritten between two submissions, and the second one still gets what was
computed from the old weight. -/
theorem overwritten_constant_stale :
    ∃ (σ : State Unit ℕ) (g : List ℕ),
      Reaches increment weightBinary [] recordConstants (fun _ _ _ => True) σ g ∧
      σ.memory.storages = [some 9, some 8, some 9] ∧ ¬ NeverStale increment weightBinary σ := by
  have created : Reaches increment weightBinary [] recordConstants (fun _ _ _ => True) _ _ :=
    Reaches.init.step (e := .call (.createTensor 7)) trivial rfl
  have submitted := created.step (e := .call (.submit 0 0 [0])) trivial rfl
  have missed := submitted.step (e := .exec) trivial rfl
  have computed := missed.step (e := .exec) trivial rfl
  have cached := computed.step (e := .exec) trivial rfl
  have returned := cached.step (e := .exec) trivial rfl
  have other := returned.step (e := .call (.createTensor 9)) trivial rfl
  have copied := other.step (e := .call (.memcpy 0 3)) trivial rfl
  have again := copied.step (e := .call (.submit 0 0 [0])) trivial rfl
  refine ⟨_, _, again, rfl, ?_⟩
  intro hstale
  obtain ⟨results, storages, heval, hs, ho⟩ := hstale _ _ _ _ _ _ _ [0] [⟨0, false, 0⟩] [9] [1]
    rfl rfl rfl rfl rfl rfl
  have hnow : Evaluates increment weightBinary 1 [9] [10] :=
    ⟨⟨[0], [1], [] ++ [.compute () [0] [1]]⟩, _, rfl, .compute (.nil _) rfl, rfl⟩
  cases heval.unique hnow
  obtain rfl : [1] = storages := Option.some.inj hs
  cases Option.some.inj ho

end TTNNRuntime
