/-
# Instructions whose effects complete later

A host issues instructions in order.  Each issues effects on a memory, which a device applies
in the order of their issue, at any time after it; a barrier waits for all of them.

* `settle` : the memory once all pending effects are applied;
* `Machine.Step` : the host issues an instruction, passes a barrier, or the device applies the
  first pending effect;
* `Machine.run` : the synchronous meaning, every effect applied at its issue;
* `Machine.run_of_reaches` : in every state of every run, the synchronous meaning of the rest,
  on the settled memory, is that of the whole program;
* `Machine.exists_finished` : every state reaches the end;
* `Machine.Fenced` : every instruction with a late effect is followed by a barrier, so that no
  other instruction meets one that is pending (`Machine.fenced_of_reaches`).
-/
import Mathlib.Logic.Relation
import Mathlib.Tactic.Common

namespace CommandQueue

variable {ι σ ε μ α : Type}

/-! ## Pending effects -/

/-- The memory once every pending effect is applied, in order. -/
def settle (apply : ε → μ → Option μ) : List ε → μ → Option μ
  | [], m => some m
  | e :: pending, m => (apply e m).bind (settle apply pending)

section Settle

variable {apply : ε → μ → Option μ} {m m' : μ}

@[simp] theorem settle_nil : settle apply [] m = some m := rfl

theorem settle_cons {e : ε} {pending : List ε} :
    settle apply (e :: pending) m = (apply e m).bind (settle apply pending) := rfl

theorem settle_append {p q : List ε} :
    settle apply (p ++ q) m = (settle apply p m).bind (settle apply q) := by
  induction p generalizing m with
  | nil => rfl
  | cons e p ih =>
    rw [List.cons_append, settle_cons, settle_cons, Option.bind_assoc]
    congr 1
    funext m₁
    exact ih

/-- What no pending command touches stays. -/
theorem settle_frame {obs : μ → α} {pending : List ε}
    (hframe : ∀ e ∈ pending, ∀ m m', apply e m = some m' → obs m' = obs m)
    (h : settle apply pending m = some m') : obs m' = obs m := by
  induction pending generalizing m with
  | nil =>
    obtain rfl := Option.some.inj h
    rfl
  | cons e pending ih =>
    obtain ⟨m₁, h₁, h⟩ := Option.bind_eq_some_iff.mp h
    rw [ih (fun e' he' => hframe e' (List.mem_cons_of_mem _ he')) h]
    exact hframe e List.mem_cons_self m m₁ h₁

end Settle

/-! ## The machine -/

/-- A host with its instructions: which are barriers, what an instruction does on the host,
and the effects it issues; and what an effect does to the memory. -/
structure Machine (ι σ ε μ : Type) : Type where
  isBarrier : ι → Bool
  issue : ι → σ → Option (σ × List ε)
  apply : ε → μ → Option μ

/-- What is left of the program, the host, the effects that are pending and the memory. -/
structure Config (ι σ ε μ : Type) : Type where
  program : List ι
  host : σ
  pending : List ε
  memory : μ

namespace Machine

variable (M : Machine ι σ ε μ)

/-- One step, of the host or of the device. -/
inductive Step : Config ι σ ε μ → Config ι σ ε μ → Prop
  | issue {i : ι} {program : List ι} {s s' : σ} {pending es : List ε} {m : μ} :
      M.isBarrier i = false → M.issue i s = some (s', es) →
      Step ⟨i :: program, s, pending, m⟩ ⟨program, s', pending ++ es, m⟩
  | barrier {i : ι} {program : List ι} {s : σ} {m : μ} :
      M.isBarrier i = true → Step ⟨i :: program, s, [], m⟩ ⟨program, s, [], m⟩
  | complete {program : List ι} {s : σ} {e : ε} {pending : List ε} {m m' : μ} :
      M.apply e m = some m' → Step ⟨program, s, e :: pending, m⟩ ⟨program, s, pending, m'⟩

/-- Any number of steps. -/
abbrev Reaches : Config ι σ ε μ → Config ι σ ε μ → Prop := Relation.ReflTransGen M.Step

/-- The host is through, and nothing is pending. -/
def Finished (c : Config ι σ ε μ) : Prop := c.program = [] ∧ c.pending = []

/-- An instruction whose effects are applied at once. -/
def exec (i : ι) (s : σ) (m : μ) : Option (σ × μ) :=
  if M.isBarrier i then some (s, m)
  else (M.issue i s).bind fun (s', es) => (settle M.apply es m).map fun m' => (s', m')

/-- The synchronous meaning of a program. -/
def run : List ι → σ → μ → Option (σ × μ)
  | [], s, m => some (s, m)
  | i :: program, s, m => (M.exec i s m).bind fun (s', m') => run program s' m'

variable {M} {c c' : Config ι σ ε μ} {program : List ι} {s s' : σ} {m m' : μ} {r : σ × μ}

theorem exec_barrier {i : ι} (hi : M.isBarrier i = true) : M.exec i s m = some (s, m) := by
  rw [exec, if_pos hi]

theorem exec_eq_some {i : ι} (hi : M.isBarrier i = false) : M.exec i s m = some (s', m') ↔
      ∃ es, M.issue i s = some (s', es) ∧ settle M.apply es m = some m' := by
  rw [exec, if_neg (by simp [hi])]
  constructor
  · intro h
    obtain ⟨⟨s₁, es⟩, hissue, h⟩ := Option.bind_eq_some_iff.mp h
    obtain ⟨m₁, hsettle, h⟩ := Option.map_eq_some_iff.mp h
    obtain ⟨rfl, rfl⟩ := Prod.mk.inj h
    exact ⟨es, hissue, hsettle⟩
  · rintro ⟨es, hissue, hsettle⟩
    rw [hissue, Option.bind_some]
    exact congrArg (Option.map fun m' => (s', m')) hsettle

theorem run_cons {i : ι} : M.run (i :: program) s m = some r ↔
      ∃ s' m', M.exec i s m = some (s', m') ∧ M.run program s' m' = some r := by
  constructor
  · intro h
    obtain ⟨⟨s', m'⟩, hexec, h⟩ := Option.bind_eq_some_iff.mp h
    exact ⟨s', m', hexec, h⟩
  · rintro ⟨s', m', hexec, h⟩
    exact Option.bind_eq_some_iff.mpr ⟨(s', m'), hexec, h⟩

/-- A program runs in two parts. -/
theorem run_append {p q : List ι} : M.run (p ++ q) s m = some r ↔
      ∃ s' m', M.run p s m = some (s', m') ∧ M.run q s' m' = some r := by
  induction p generalizing s m with
  | nil =>
    refine ⟨fun h => ⟨s, m, rfl, h⟩, ?_⟩
    rintro ⟨s', m', h, hq⟩
    obtain ⟨rfl, rfl⟩ := Prod.mk.inj (Option.some.inj h)
    exact hq
  | cons i p ih =>
    constructor
    · intro h
      obtain ⟨s₁, m₁, hexec, h⟩ := run_cons.mp h
      obtain ⟨s', m', hp, hq⟩ := ih.mp h
      exact ⟨s', m', run_cons.mpr ⟨s₁, m₁, hexec, hp⟩, hq⟩
    · rintro ⟨s', m', hp, hq⟩
      obtain ⟨s₁, m₁, hexec, hp⟩ := run_cons.mp hp
      exact run_cons.mpr ⟨s₁, m₁, hexec, ih.mpr ⟨s', m', hp, hq⟩⟩

/-! ## The synchronous meaning along a run -/

/-- The rest of the program means `r` on the settled memory. -/
def Means (M : Machine ι σ ε μ) (r : σ × μ) (c : Config ι σ ε μ) : Prop :=
  ∃ m, settle M.apply c.pending c.memory = some m ∧ M.run c.program c.host m = some r

/-- A step keeps the meaning of the rest. -/
theorem Means.step (h : M.Means r c) (hstep : M.Step c c') : M.Means r c' := by
  obtain ⟨m₀, hsettle, hrun⟩ := h
  cases hstep with
  | @issue i program s s' pending es m hi hissue =>
    obtain ⟨s₁, m₁, hexec, hrun⟩ := run_cons.mp hrun
    obtain ⟨es₁, hissue', hes⟩ := (exec_eq_some hi).mp hexec
    rw [hissue] at hissue'
    obtain ⟨rfl, rfl⟩ := Prod.mk.inj (Option.some.inj hissue')
    refine ⟨m₁, ?_, hrun⟩
    change settle M.apply (pending ++ es) m = some m₁
    rw [settle_append, hsettle, Option.bind_some, hes]
  | barrier hi =>
    obtain ⟨s₁, m₁, hexec, hrun⟩ := run_cons.mp hrun
    rw [exec_barrier hi] at hexec
    obtain ⟨rfl, rfl⟩ := Prod.mk.inj (Option.some.inj hexec)
    exact ⟨m₀, hsettle, hrun⟩
  | complete happly =>
    obtain ⟨m₁, happly', hsettle⟩ := Option.bind_eq_some_iff.mp hsettle
    rw [happly] at happly'
    obtain rfl := Option.some.inj happly'
    exact ⟨m₀, hsettle, hrun⟩

/-- **Asynchronous runs have the synchronous meaning.**  Whatever is pending when, the rest of
the program means, on the settled memory, what the whole program means. -/
theorem run_of_reaches (hrun : M.run program s m = some r)
    (hreach : M.Reaches ⟨program, s, [], m⟩ c) : M.Means r c := by
  induction hreach with
  | refl => exact ⟨m, settle_nil, hrun⟩
  | tail _ hstep ih => exact ih.step hstep

/-! ## Progress -/

/-- A state that is not finished takes a step. -/
theorem Means.exists_step (h : M.Means r c) (hfin : ¬ Finished c) : ∃ c', M.Step c c' := by
  obtain ⟨m₀, hsettle, hrun⟩ := h
  obtain ⟨program, s, pending, m⟩ := c
  cases pending with
  | cons e pending =>
    obtain ⟨m₁, happly, -⟩ := Option.bind_eq_some_iff.mp hsettle
    exact ⟨_, .complete happly⟩
  | nil =>
    cases program with
    | nil => exact absurd ⟨rfl, rfl⟩ hfin
    | cons i program =>
      cases hi : M.isBarrier i with
      | true => exact ⟨_, .barrier hi⟩
      | false =>
        obtain ⟨s₁, m₁, hexec, -⟩ := run_cons.mp hrun
        obtain ⟨es, hissue, -⟩ := (exec_eq_some hi).mp hexec
        exact ⟨_, .issue hi hissue⟩

theorem Step.lt (hstep : M.Step c c') :
    Prod.Lex (· < ·) (· < ·) (c'.program.length, c'.pending.length)
      (c.program.length, c.pending.length) := by
  cases hstep with
  | issue => exact .left _ _ (Nat.lt_succ_self _)
  | barrier => exact .left _ _ (Nat.lt_succ_self _)
  | complete => exact .right _ (Nat.lt_succ_self _)

/-- Steps end. -/
theorem wellFounded_step : WellFounded fun c' c : Config ι σ ε μ => M.Step c c' :=
  Subrelation.wf (fun hstep => Step.lt hstep)
    (InvImage.wf (fun c : Config ι σ ε μ => (c.program.length, c.pending.length))
      (Prod.lex ⟨_, Nat.lt_wfRel.wf⟩ ⟨_, Nat.lt_wfRel.wf⟩).wf)

/-- **Every state reaches the end.** -/
theorem Means.exists_finished (h : M.Means r c) : ∃ c', M.Reaches c c' ∧ Finished c' := by
  induction c using wellFounded_step (M := M) |>.induction with
  | _ c ih =>
    by_cases hfin : Finished c
    · exact ⟨c, .refl, hfin⟩
    · obtain ⟨c₁, hstep⟩ := h.exists_step hfin
      obtain ⟨c', hreach, hc'⟩ := ih c₁ hstep (h.step hstep)
      exact ⟨c', .head hstep hreach, hc'⟩

/-! ## Fences -/

/-- The next instruction is a barrier. -/
def AtBarrier (M : Machine ι σ ε μ) (program : List ι) : Prop :=
  ∃ i rest, program = i :: rest ∧ M.isBarrier i = true

/-- Every instruction with a late effect is followed by a barrier. -/
def Fenced (M : Machine ι σ ε μ) (late : ε → Prop) : List ι → Prop
  | [] => True
  | i :: program =>
    ((∀ s s' es, M.issue i s = some (s', es) → ∀ e ∈ es, ¬ late e) ∨ M.AtBarrier program) ∧
      M.Fenced late program

/-- No late effect is pending, unless a barrier is next. -/
def Guarded (M : Machine ι σ ε μ) (late : ε → Prop) (c : Config ι σ ε μ) : Prop :=
  M.Fenced late c.program ∧ ((∀ e ∈ c.pending, ¬ late e) ∨ M.AtBarrier c.program)

variable {late : ε → Prop}

/-- A step leaves late effects behind a barrier. -/
theorem Guarded.step (h : M.Guarded late c) (hstep : M.Step c c') : M.Guarded late c' := by
  obtain ⟨hfenced, hpending⟩ := h
  cases hstep with
  | @issue i program s s' pending es m hi hissue =>
    refine ⟨hfenced.2, ?_⟩
    rcases hfenced.1 with hnone | hbarrier
    · left
      have hold : ∀ e ∈ pending, ¬ late e := by
        rcases hpending with hpending | ⟨j, rest, hcons, hj⟩
        · exact hpending
        · -- the instruction that was issued is not the barrier
          obtain ⟨rfl, -⟩ := List.cons.inj hcons
          rw [hi] at hj
          cases hj
      intro e he
      rcases List.mem_append.mp he with he | he
      · exact hold e he
      · exact hnone _ _ _ hissue e he
    · exact .inr hbarrier
  | barrier hi => exact ⟨hfenced.2, .inl fun e he => absurd he List.not_mem_nil⟩
  | complete happly =>
    exact ⟨hfenced, hpending.imp_left fun h e he => h e (List.mem_cons_of_mem _ he)⟩

/-- **Fences hold back late effects.**  Whenever the host is about to issue an instruction,
none of the pending effects is late. -/
theorem fenced_of_reaches (hfenced : M.Fenced late program)
    (hreach : M.Reaches ⟨program, s, [], m⟩ c) : M.Guarded late c := by
  induction hreach with
  | refl => exact ⟨hfenced, .inl fun e he => absurd he List.not_mem_nil⟩
  | tail _ hstep ih => exact ih.step hstep

end Machine

end CommandQueue
