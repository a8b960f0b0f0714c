/-
# Loop nests

Code made of instructions, counted loops and conditionals.  How often a loop runs, and which
branch is taken, depends on the induction variables of the enclosing loops.

* `Code`, `Code.trace` : code, and the instructions it executes in their order;
* `blockInduction` : induction over code and its blocks;
* `expand` : every instruction replaced by several;
* `InBlock` : rewriting of one block, wherever it is;
* `Traced` : an automaton that reads what is executed.
-/
import Mathlib.Data.List.Basic
import Mathlib.Logic.Relation

namespace LoopNest

/-- An instruction, a loop or a conditional.  The numbers are the induction variables of the
enclosing loops, innermost first. -/
inductive Code (α : Type) : Type where
  | instr (a : α)
  | loop (trips : List ℕ → ℕ) (body : List (Code α))
  | branch (cond : List ℕ → Bool) (thenBlock elseBlock : List (Code α))

/-- A block of code. -/
abbrev Block (α : Type) : Type := List (Code α)

variable {α β σ : Type}

/-- Induction over code and its blocks. -/
@[elab_as_elim]
theorem blockInduction {P : Code α → Prop} {Q : Block α → Prop} (instr : ∀ a, P (.instr a))
    (loop : ∀ trips body, Q body → P (.loop trips body))
    (branch : ∀ cond thenBlock elseBlock, Q thenBlock → Q elseBlock →
      P (.branch cond thenBlock elseBlock))
    (nil : Q []) (cons : ∀ code rest, P code → Q rest → Q (code :: rest)) (b : Block α) : Q b :=
  Code.rec_1 (motive_1 := P) (motive_2 := Q) instr loop branch nil cons b

/-! ## Execution -/

mutual

/-- What code executes. -/
def Code.trace (ρ : List ℕ) : Code α → List α
  | .instr a => [a]
  | .loop trips body => (List.range (trips ρ)).flatMap fun i => blockTrace (i :: ρ) body
  | .branch cond thenBlock elseBlock =>
    if cond ρ then blockTrace ρ thenBlock else blockTrace ρ elseBlock

/-- What a block executes. -/
def blockTrace (ρ : List ℕ) : List (Code α) → List α
  | [] => []
  | code :: rest => code.trace ρ ++ blockTrace ρ rest

end

section Trace

variable {ρ : List ℕ}

theorem blockTrace_append (b b' : Block α) :
    blockTrace ρ (b ++ b') = blockTrace ρ b ++ blockTrace ρ b' := by
  induction b with
  | nil => rfl
  | cons code rest ih =>
    rw [List.cons_append, blockTrace, ih, blockTrace, List.append_assoc]

end Trace

/-! ## The instructions -/

/-- The instruction that code is, if it is one. -/
def Code.instr? : Code α → Option α
  | .instr a => some a
  | .loop _ _ => none
  | .branch _ _ _ => none

/-- What a block is, without the blocks in it. -/
def skeleton (b : Block α) : List (Option α) := b.map Code.instr?

mutual

/-- The instructions of code. -/
def Code.instrs : Code α → List α
  | .instr a => [a]
  | .loop _ body => blockInstrs body
  | .branch _ thenBlock elseBlock => blockInstrs thenBlock ++ blockInstrs elseBlock

/-- The instructions of a block. -/
def blockInstrs : List (Code α) → List α
  | [] => []
  | code :: rest => code.instrs ++ blockInstrs rest

end

mutual

/-- Every instruction of code, replaced. -/
def Code.expand (f : α → List β) : Code α → List (Code β)
  | .instr a => (f a).map .instr
  | .loop trips body => [.loop trips (expand f body)]
  | .branch cond thenBlock elseBlock =>
    [.branch cond (expand f thenBlock) (expand f elseBlock)]

/-- Every instruction of a block, replaced. -/
def expand (f : α → List β) : List (Code α) → List (Code β)
  | [] => []
  | code :: rest => code.expand f ++ expand f rest

end

section Expand

variable (f : α → List β)

theorem expand_append (b b' : Block α) : expand f (b ++ b') = expand f b ++ expand f b' := by
  induction b with
  | nil => rfl
  | cons code rest ih =>
    rw [List.cons_append, expand, ih, expand, List.append_assoc]

theorem blockInstrs_append (b b' : Block α) :
    blockInstrs (b ++ b') = blockInstrs b ++ blockInstrs b' := by
  induction b with
  | nil => rfl
  | cons code rest ih =>
    rw [List.cons_append, blockInstrs, ih, blockInstrs, List.append_assoc]

theorem blockInstrs_instrs (l : List α) : blockInstrs (l.map Code.instr) = l := by
  induction l with
  | nil => rfl
  | cons a l ih =>
    rw [List.map_cons, blockInstrs, ih, Code.instrs, List.singleton_append]

/-- The instructions of a block whose instructions are replaced. -/
theorem blockInstrs_expand (b : Block α) :
    blockInstrs (expand f b) = (blockInstrs b).flatMap f := by
  induction b using blockInduction (P := fun code : Code α =>
    blockInstrs (code.expand f) = code.instrs.flatMap f) with
  | instr a =>
    rw [Code.expand, blockInstrs_instrs, Code.instrs, List.flatMap_singleton]
  | loop trips body ih =>
    rw [Code.expand, blockInstrs, blockInstrs, List.append_nil, Code.instrs, Code.instrs, ih]
  | branch cond thenBlock elseBlock ihThen ihElse =>
    rw [Code.expand, blockInstrs, blockInstrs, List.append_nil, Code.instrs, Code.instrs, ihThen,
      ihElse, List.flatMap_append]
  | nil => rfl
  | cons code rest ih ihRest =>
    rw [expand, blockInstrs_append, ih, ihRest, blockInstrs, List.flatMap_append]

/-- Instructions that are left as they are. -/
theorem expand_eq_self {f : α → List α} {b : Block α} (h : ∀ a ∈ blockInstrs b, f a = [a]) :
    expand f b = b := by
  induction b using blockInduction (P := fun code : Code α =>
    (∀ a ∈ code.instrs, f a = [a]) → code.expand f = [code]) with
  | instr a h =>
    rw [Code.expand, h a (List.mem_singleton_self a)]
    rfl
  | loop trips body ih h => rw [Code.expand, ih h]
  | branch cond thenBlock elseBlock ihThen ihElse h =>
    obtain ⟨hthen, helse⟩ := List.forall_mem_append.mp h
    rw [Code.expand, ihThen hthen, ihElse helse]
  | nil => rfl
  | cons code rest ih ihRest =>
    obtain ⟨hcode, hrest⟩ := List.forall_mem_append.mp h
    rw [expand, ih hcode, ihRest hrest, List.singleton_append]

end Expand

/-! ## All blocks -/

mutual

/-- All blocks of code have a property. -/
def Code.All (P : Block α → Prop) : Code α → Prop
  | .instr _ => True
  | .loop _ body => P body ∧ AllIn P body
  | .branch _ thenBlock elseBlock =>
    (P thenBlock ∧ AllIn P thenBlock) ∧ P elseBlock ∧ AllIn P elseBlock

/-- All blocks in a block have a property. -/
def AllIn (P : Block α → Prop) : List (Code α) → Prop
  | [] => True
  | code :: rest => code.All P ∧ AllIn P rest

end

/-- A block and all blocks in it have a property. -/
def Everywhere (P : Block α → Prop) (b : Block α) : Prop := P b ∧ AllIn P b

mutual

/-- How many blocks of code have a property. -/
def Code.count (p : Block α → Bool) : Code α → ℕ
  | .instr _ => 0
  | .loop _ body => (p body).toNat + countIn p body
  | .branch _ thenBlock elseBlock =>
    (p thenBlock).toNat + countIn p thenBlock + ((p elseBlock).toNat + countIn p elseBlock)

/-- How many blocks in a block have a property. -/
def countIn (p : Block α → Bool) : List (Code α) → ℕ
  | [] => 0
  | code :: rest => code.count p + countIn p rest

end

/-- How many blocks have a property, the block itself and those in it. -/
def count (p : Block α → Bool) (b : Block α) : ℕ := (p b).toNat + countIn p b

section All

variable {P : Block α → Prop} {p : Block α → Bool} {b : Block α}

theorem allIn_append {b b' : Block α} : AllIn P (b ++ b') ↔ AllIn P b ∧ AllIn P b' := by
  induction b with
  | nil => exact (true_and _).symm.to_iff
  | cons code rest ih =>
    rw [List.cons_append, AllIn, ih, AllIn, and_assoc]

theorem countIn_append (b b' : Block α) : countIn p (b ++ b') = countIn p b + countIn p b' := by
  induction b with
  | nil => exact (Nat.zero_add _).symm
  | cons code rest ih =>
    rw [List.cons_append, countIn, ih, countIn, Nat.add_assoc]

/-- Properties that all blocks have. -/
theorem Everywhere.mp {P Q S : Block α → Prop} (hP : Everywhere P b) (hQ : Everywhere Q b)
    (h : ∀ b, P b → Q b → S b) : Everywhere S b := by
  suffices hall : AllIn P b → AllIn Q b → AllIn S b from ⟨h b hP.1 hQ.1, hall hP.2 hQ.2⟩
  clear hP hQ
  induction b using blockInduction (P := fun code : Code α =>
    code.All P → code.All Q → code.All S) with
  | instr a => trivial
  | loop trips body ih hP hQ => exact ⟨h body hP.1 hQ.1, ih hP.2 hQ.2⟩
  | branch cond thenBlock elseBlock ihThen ihElse hP hQ =>
    exact ⟨⟨h thenBlock hP.1.1 hQ.1.1, ihThen hP.1.2 hQ.1.2⟩,
      h elseBlock hP.2.1 hQ.2.1, ihElse hP.2.2 hQ.2.2⟩
  | nil => exact fun _ _ => trivial
  | cons code rest ih ihRest => exact fun hP hQ => ⟨ih hP.1 hQ.1, ihRest hP.2 hQ.2⟩

/-- A property of all instructions, block by block. -/
theorem everywhere_of_instrs {q : α → Prop} (h : ∀ a ∈ blockInstrs b, q a) :
    Everywhere (fun block => ∀ a, some a ∈ skeleton block → q a) b := by
  have hself : ∀ block : Block α, (∀ a ∈ blockInstrs block, q a) →
      ∀ a, some a ∈ skeleton block → q a := by
    intro block hblock a ha
    obtain ⟨code, hcode, hinstr⟩ := List.mem_map.mp ha
    cases code with
    | instr a' =>
      obtain rfl := Option.some.inj hinstr
      obtain ⟨pre, post, rfl⟩ := List.append_of_mem hcode
      rw [blockInstrs_append] at hblock
      exact hblock a' (List.mem_append_right _ List.mem_cons_self)
    | loop trips body => cases hinstr
    | branch cond thenBlock elseBlock => cases hinstr
  refine ⟨hself b h, ?_⟩
  induction b using blockInduction (P := fun code : Code α => (∀ a ∈ code.instrs, q a) →
    code.All fun block => ∀ a, some a ∈ skeleton block → q a) with
  | instr a => trivial
  | loop trips body ih h => exact ⟨hself body h, ih h⟩
  | branch cond thenBlock elseBlock ihThen ihElse h =>
    obtain ⟨hthen, helse⟩ := List.forall_mem_append.mp h
    exact ⟨⟨hself thenBlock hthen, ihThen hthen⟩, hself elseBlock helse, ihElse helse⟩
  | nil => trivial
  | cons code rest ih ihRest =>
    obtain ⟨hcode, hrest⟩ := List.forall_mem_append.mp h
    exact ⟨ih hcode, ihRest hrest⟩

end All

/-! ## Rewriting -/

/-- One block is rewritten: the block itself or one in it. -/
inductive InBlock (R : Block α → Block α → Prop) : Block α → Block α → Prop where
  | here {b b' : Block α} (h : R b b') : InBlock R b b'
  | loop (pre post : Block α) (trips : List ℕ → ℕ) {body body' : Block α}
      (h : InBlock R body body') :
      InBlock R (pre ++ .loop trips body :: post) (pre ++ .loop trips body' :: post)
  | thenBlock (pre post : Block α) (cond : List ℕ → Bool) (elseBlock : Block α) {b b' : Block α}
      (h : InBlock R b b') :
      InBlock R (pre ++ .branch cond b elseBlock :: post) (pre ++ .branch cond b' elseBlock :: post)
  | elseBlock (pre post : Block α) (cond : List ℕ → Bool) (thenBlock : Block α) {b b' : Block α}
      (h : InBlock R b b') :
      InBlock R (pre ++ .branch cond thenBlock b :: post) (pre ++ .branch cond thenBlock b' :: post)

section InBlock

variable {R : Block α → Block α → Prop}

/-- The skeleton does not look into nested code. -/
theorem skeleton_replace (pre post : Block α) (code code' : Code α)
    (h : code.instr? = code'.instr?) :
    skeleton (pre ++ code :: post) = skeleton (pre ++ code' :: post) := by
  simp only [skeleton, List.map_append, List.map_cons, h]

variable {b b' : Block α}

/-- A rewrite that keeps what blocks expand to keeps it anywhere. -/
theorem expand_inBlock {f : α → List β} (hR : ∀ b b', R b b' → expand f b = expand f b')
    (h : InBlock R b b') : expand f b = expand f b' := by
  induction h with
  | here h => exact hR _ _ h
  | loop pre post trips h ih =>
    rw [expand_append, expand_append, expand, expand, Code.expand, Code.expand, ih]
  | thenBlock pre post cond elseBlock h ih =>
    rw [expand_append, expand_append, expand, expand, Code.expand, Code.expand, ih]
  | elseBlock pre post cond thenBlock h ih =>
    rw [expand_append, expand_append, expand, expand, Code.expand, Code.expand, ih]

/-- A property of the skeletons of blocks is kept by rewriting that keeps it. -/
theorem Everywhere.inBlock {P : Block α → Prop} (hP : ∀ b b', skeleton b = skeleton b' → P b → P b')
    (hR : ∀ b b', R b b' → Everywhere P b → Everywhere P b')
    (h : InBlock R b b') (hb : Everywhere P b) : Everywhere P b' := by
  induction h with
  | here h => exact hR _ _ h hb
  | loop pre post trips h ih =>
    rename_i body body'
    obtain ⟨hself, hin⟩ := hb
    obtain ⟨hpre, hbody, hpost⟩ := allIn_append.mp hin
    exact ⟨hP _ _ (skeleton_replace pre post (.loop trips body) (.loop trips body') rfl) hself,
      allIn_append.mpr ⟨hpre, ih hbody, hpost⟩⟩
  | thenBlock pre post cond elseBlock h ih =>
    rename_i block block'
    obtain ⟨hself, hin⟩ := hb
    obtain ⟨hpre, ⟨hthen, helse⟩, hpost⟩ := allIn_append.mp hin
    exact ⟨hP _ _ (skeleton_replace pre post (.branch cond block elseBlock)
        (.branch cond block' elseBlock) rfl) hself,
      allIn_append.mpr ⟨hpre, ⟨ih hthen, helse⟩, hpost⟩⟩
  | elseBlock pre post cond thenBlock h ih =>
    rename_i block block'
    obtain ⟨hself, hin⟩ := hb
    obtain ⟨hpre, ⟨hthen, helse⟩, hpost⟩ := allIn_append.mp hin
    exact ⟨hP _ _ (skeleton_replace pre post (.branch cond thenBlock block)
        (.branch cond thenBlock block') rfl) hself,
      allIn_append.mpr ⟨hpre, ⟨hthen, ih helse⟩, hpost⟩⟩

/-- Rewriting that lessens the number of certain blocks where it is done lessens it. -/
theorem count_lt_of_inBlock {p : Block α → Bool}
    (hp : ∀ b b', skeleton b = skeleton b' → p b = p b')
    (hR : ∀ b b', R b b' → count p b' < count p b) (h : InBlock R b b') :
    count p b' < count p b := by
  induction h with
  | here h => exact hR _ _ h
  | loop pre post trips h ih =>
    rename_i body body'
    rw [count, count, countIn_append, countIn_append,
      hp _ _ (skeleton_replace pre post (.loop trips body) (.loop trips body') rfl)]
    simp only [countIn, Code.count, count] at ih ⊢
    omega
  | thenBlock pre post cond elseBlock h ih =>
    rename_i block block'
    rw [count, count, countIn_append, countIn_append, hp _ _ (skeleton_replace pre post
      (.branch cond block elseBlock) (.branch cond block' elseBlock) rfl)]
    simp only [countIn, Code.count, count] at ih ⊢
    omega
  | elseBlock pre post cond thenBlock h ih =>
    rename_i block block'
    rw [count, count, countIn_append, countIn_append, hp _ _ (skeleton_replace pre post
      (.branch cond thenBlock block) (.branch cond thenBlock block') rfl)]
    simp only [countIn, Code.count, count] at ih ⊢
    omega

/-- No block can be rewritten. -/
def Normal (R : Block α → Block α → Prop) (b : Block α) : Prop := ∀ b', ¬ InBlock R b b'

/-- **Nothing is left to rewrite** in any block. -/
theorem everywhere_of_normal {b : Block α} (h : Normal R b) :
    Everywhere (fun block => ∀ b', ¬ R block b') b := by
  refine ⟨fun b' hb' => h b' (.here hb'), ?_⟩
  suffices hall : ∀ pre : Block α, Normal R (pre ++ b) →
      AllIn (fun block => ∀ b', ¬ R block b') b from hall [] h
  clear h
  induction b using blockInduction (P := fun code : Code α => ∀ pre post : Block α,
    Normal R (pre ++ code :: post) → code.All fun block => ∀ b', ¬ R block b') with
  | instr a => trivial
  | loop trips body ih pre post h =>
    have hbody : Normal R body := fun b' hb' => h _ (.loop pre post trips hb')
    exact ⟨fun b' hb' => hbody b' (.here hb'), ih [] hbody⟩
  | branch cond thenBlock elseBlock ihThen ihElse pre post h =>
    have hthen : Normal R thenBlock := fun b' hb' =>
      h _ (.thenBlock pre post cond elseBlock hb')
    have helse : Normal R elseBlock := fun b' hb' =>
      h _ (.elseBlock pre post cond thenBlock hb')
    exact ⟨⟨fun b' hb' => hthen b' (.here hb'), ihThen [] hthen⟩,
      fun b' hb' => helse b' (.here hb'), ihElse [] helse⟩
  | nil => exact fun _ _ => trivial
  | cons code rest ih ihRest =>
    intro pre h
    refine ⟨ih pre rest h, ihRest (pre ++ [code]) ?_⟩
    rwa [List.append_assoc, List.singleton_append]

/-- **Rewriting ends** when it lessens a number. -/
theorem exists_normal {m : Block α → ℕ} (hm : ∀ b b', InBlock R b b' → m b' < m b) (b : Block α) :
    ∃ b', Relation.ReflTransGen (InBlock R) b b' ∧ Normal R b' := by
  by_cases hnormal : Normal R b
  · exact ⟨b, .refl, hnormal⟩
  · obtain ⟨b', hb'⟩ := not_forall_not.mp hnormal
    have hlt : m b' < m b := hm b b' hb'
    obtain ⟨final, hsteps, hfinal⟩ := exists_normal hm b'
    exact ⟨final, .head hb' hsteps, hfinal⟩
  termination_by m b

end InBlock

/-! ## Automata -/

section Automata

variable (step : σ → α → Option σ)

/-- What an automaton does with what is executed. -/
def run (s : σ) (t : List α) : Option σ := t.foldlM step s

/-- The automaton comes back to the state it was in, wherever it does not fail. -/
def Returns (t : List α) : Prop := ∀ s s', run step s t = some s' → s' = s

variable {step}

theorem run_append (s : σ) (t t' : List α) :
    run step s (t ++ t') = (run step s t).bind fun s' => run step s' t' := by
  rw [run, List.foldlM_append]
  rfl

theorem returns_nil : Returns step [] := fun _ _ h => (Option.some.inj h).symm

theorem Returns.append {t t' : List α} (h : Returns step t) (h' : Returns step t') :
    Returns step (t ++ t') := by
  intro s s' hrun
  rw [run_append] at hrun
  obtain ⟨mid, hmid, hrest⟩ := Option.bind_eq_some_iff.mp hrun
  obtain rfl := h s mid hmid
  exact h' mid s' hrest

theorem run_append_iff {t : List α} (h : Returns step t) (t' : List α) (s s' : σ) :
    run step s (t ++ t') = some s' ↔ run step s t = some s ∧ run step s t' = some s' := by
  rw [run_append]
  constructor
  · intro hrun
    obtain ⟨mid, hmid, hrest⟩ := Option.bind_eq_some_iff.mp hrun
    obtain rfl := h s mid hmid
    exact ⟨hmid, hrest⟩
  · rintro ⟨hmid, hrest⟩
    rw [hmid]
    exact hrest

theorem Returns.flatMap {ι : Type} {f : ι → List α} (h : ∀ i, Returns step (f i)) (l : List ι) :
    Returns step (l.flatMap f) := by
  induction l with
  | nil => exact returns_nil
  | cons i l ih =>
    rw [List.flatMap_cons]
    exact (h i).append ih

@[simp] theorem run_nil (s : σ) : run step s [] = some s := rfl

/-- Traces that return the state are run one by one. -/
theorem run_flatMap_iff {ι : Type} {f : ι → List α} (h : ∀ i, Returns step (f i)) (s : σ)
    (l : List ι) : run step s (l.flatMap f) = some s ↔ ∀ i ∈ l, run step s (f i) = some s := by
  induction l with
  | nil => simp
  | cons i l ih =>
    rw [List.flatMap_cons, run_append_iff (h i), ih, List.forall_mem_cons]

end Automata

end LoopNest
