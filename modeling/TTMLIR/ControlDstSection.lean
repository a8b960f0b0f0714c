/-
# The sections of the destination registers

`ControlDstSection.cpp` puts the operations that control the destination registers around the
packs of a kernel.  A pack of a block that holds no commit gets a commit and a wait in front and
a release behind, and its block an acquire at its start.  The driver takes the packs in an order
that is not specified.

* `TileRegsRewriter`, `Controls` : the pattern, and the results of the driver;
* `DstState`, `WellFormed` : the cycles of the registers;
* `Sectioned` : the kernels in which every pack has a block and the mathematical operations
  before it to itself;
* `Placed` : the blocks the driver leaves;
* `run_iff_sectioned` : the cycles of a kernel with such blocks;
* `wellFormed_iff` : the registers go through their cycles exactly when the kernel is sectioned.

A second pack in a block is left without a section, since the block then holds a commit.
-/
import TTMLIR.TTIRToTTKernel

namespace ControlDstSection

open LoopNest TTIRToTTKernel

/-! ## The pass -/

/-- An operation that is directly in a block. -/
def holds (p : KernelOp → Bool) (block : Block KernelOp) : Bool :=
  (skeleton block).any fun op? => op?.any p

/-- `PackTileOp`. -/
def isPack (op : KernelOp) : Bool := op.access = .pack

/-- `TileRegsCommitOp`. -/
def isCommit (op : KernelOp) : Bool := op.access = .commit

/-- A pack and its block, with the operations that control its section. -/
def controlled (pre : Block KernelOp) (pack : KernelOp) (post : Block KernelOp) : Block KernelOp :=
  .instr .tileRegsAcquire :: (pre ++ .instr .tileRegsCommit :: .instr .tileRegsWait ::
    .instr pack :: .instr .tileRegsRelease :: post)

/-- `TTKernelTileRegsRewriter`, on the block of a pack. -/
inductive TileRegsRewriter : Block KernelOp → Block KernelOp → Prop where
  | matchAndRewrite (pre post : Block KernelOp) (pack : KernelOp) (hpack : isPack pack = true)
      (h : holds isCommit (pre ++ .instr pack :: post) = false) :
      TileRegsRewriter (pre ++ .instr pack :: post) (controlled pre pack post)

/-- What the greedy driver can leave: no pack is left to rewrite. -/
def Controls (kernel final : Block KernelOp) : Prop :=
  Relation.ReflTransGen (InBlock TileRegsRewriter) kernel final ∧ Normal TileRegsRewriter final

/-! ## Cycles -/

/-- Where the registers are in their cycle. -/
inductive DstState : Type where
  | idle
  | acquired
  | committed
  | waited
  deriving DecidableEq, Repr

/-- The state after an access, if it is allowed. -/
def DstState.next : DstState → Access → Option DstState
  | s, .none => some s
  | .idle, .acquire => some .acquired
  | .acquired, .math => some .acquired
  | .acquired, .commit => some .committed
  | .committed, .wait => some .waited
  | .waited, .pack => some .waited
  | .waited, .release => some .idle
  | _, _ => none

/-- The state after an operation, if it may be executed. -/
def DstState.step (s : DstState) (op : KernelOp) : Option DstState := s.next op.access

/-- **Strict cycles.**  The registers are acquired, committed, waited for and released, copies
and mathematical operations are executed between an acquire and a commit, and packs between a
wait and a release. -/
def WellFormed (trace : List KernelOp) : Prop := run DstState.step .idle trace = some .idle

/-! ## Sections -/

mutual

/-- Code that may stand before the pack of a section: it executes no pack. -/
def inSection (ρ : List ℕ) : Code KernelOp → Prop
  | .instr op => op.access ≠ .pack
  | .loop trips body => ∀ i < trips ρ, allInSection (i :: ρ) body
  | .branch cond thenBlock elseBlock =>
    if cond ρ then allInSection ρ thenBlock else allInSection ρ elseBlock

/-- All of a list may stand before the pack of a section. -/
def allInSection (ρ : List ℕ) : List (Code KernelOp) → Prop
  | [] => True
  | code :: rest => inSection ρ code ∧ allInSection ρ rest

end

mutual

/-- Code that may stand outside of a section: its mathematical operations and packs are in
sections of blocks in it. -/
def outside (ρ : List ℕ) : Code KernelOp → Prop
  | .instr op => op.access ≠ .pack ∧ op.access ≠ .math
  | .loop trips body => ∀ i < trips ρ,
      if holds isPack body = true then untilPack (i :: ρ) body else allOutside (i :: ρ) body
  | .branch cond thenBlock elseBlock =>
    if cond ρ then
      if holds isPack thenBlock = true then untilPack ρ thenBlock else allOutside ρ thenBlock
    else if holds isPack elseBlock = true then untilPack ρ elseBlock else allOutside ρ elseBlock

/-- All of a list may stand outside of a section. -/
def allOutside (ρ : List ℕ) : List (Code KernelOp) → Prop
  | [] => True
  | code :: rest => outside ρ code ∧ allOutside ρ rest

/-- The first pack ends a section, and what is behind it is outside. -/
def untilPack (ρ : List ℕ) : List (Code KernelOp) → Prop
  | [] => False
  | code :: rest =>
    if code.instr?.any isPack = true then allOutside ρ rest
    else inSection ρ code ∧ untilPack ρ rest

end

/-- **A sectioned kernel.**  A block that holds a pack holds one, and nothing executed before it
in the block executes another; mathematical operations are executed before the pack of their
block, or in code that stands there. -/
def Sectioned (ρ : List ℕ) (block : Block KernelOp) : Prop :=
  if holds isPack block = true then untilPack ρ block else allOutside ρ block

/-! ## The blocks the driver leaves -/

/-- The operations that control the registers, taken out again. -/
def uncontrolled (block : Block KernelOp) : Block KernelOp :=
  expand (fun op => if op.isControl = true then [] else [op]) block

/-- A block without operations that control the registers, or with those of one pack. -/
def Partly (block : Block KernelOp) : Prop :=
  holds KernelOp.isControl block = false ∨ ∃ pre pack post, isPack pack = true ∧
    holds KernelOp.isControl pre = false ∧ holds KernelOp.isControl post = false ∧
      block = controlled pre pack post

/-- A block without packs, or with the operations that control the section of one. -/
def Placed (block : Block KernelOp) : Prop :=
  holds KernelOp.isControl block = false ∧ holds isPack block = false ∨
    ∃ pre pack post, isPack pack = true ∧ holds KernelOp.isControl pre = false ∧
      holds KernelOp.isControl post = false ∧ block = controlled pre pack post

section Blocks

variable {p : KernelOp → Bool} {pre post block : Block KernelOp} {pack : KernelOp}

theorem holds_eq_false_iff : holds p block = false ↔ ∀ op, some op ∈ skeleton block → p op = false := by
  rw [holds, List.any_eq_false]
  constructor
  · exact fun h op hop => Bool.eq_false_iff.mpr (h (some op) hop)
  · intro h op? hop
    cases op? with
    | none => exact Bool.false_ne_true
    | some op => exact Bool.eq_false_iff.mp (h op hop)

theorem holds_append (block' : Block KernelOp) :
    holds p (block ++ block') = (holds p block || holds p block') := by
  rw [holds, skeleton, List.map_append, List.any_append]
  rfl

theorem holds_instr (op : KernelOp) : holds p (.instr op :: block) = (p op || holds p block) := rfl

theorem holds_cons (code : Code KernelOp) :
    holds p (code :: block) = (code.instr?.any p || holds p block) := rfl

theorem exists_of_holds (h : holds p block = true) :
    ∃ pre op post, p op = true ∧ block = pre ++ .instr op :: post := by
  obtain ⟨op?, hop, hany⟩ := List.any_eq_true.mp h
  obtain ⟨code, hcode, rfl⟩ := List.mem_map.mp hop
  cases code with
  | instr op =>
    obtain ⟨pre, post, rfl⟩ := List.append_of_mem hcode
    exact ⟨pre, op, post, hany, rfl⟩
  | loop trips body => cases hany
  | branch cond thenBlock elseBlock => cases hany

theorem instr_of_instr? {code : Code KernelOp} {op : KernelOp} (h : code.instr? = some op) :
    code = .instr op := by
  cases code with
  | instr op' => rw [Option.some.inj h]
  | loop trips body => cases h
  | branch cond thenBlock elseBlock => cases h

/-- The operations that control a section are seen from outside of the blocks in a block. -/
theorem controlled_of_skeleton (h : skeleton (controlled pre pack post) = skeleton block) :
    ∃ pre' post', skeleton pre = skeleton pre' ∧ skeleton post = skeleton post' ∧
      block = controlled pre' pack post' := by
  rw [controlled, skeleton, List.map_cons, List.map_append] at h
  simp only [List.map_cons] at h
  obtain ⟨acquire, rest, rfl, hacquire, hrest⟩ := List.map_eq_cons_iff.mp h.symm
  obtain ⟨pre', rest, rfl, hpre, hrest⟩ := List.map_eq_append_iff.mp hrest
  obtain ⟨commit, rest, rfl, hcommit, hrest⟩ := List.map_eq_cons_iff.mp hrest
  obtain ⟨wait, rest, rfl, hwait, hrest⟩ := List.map_eq_cons_iff.mp hrest
  obtain ⟨pack', rest, rfl, hpack, hrest⟩ := List.map_eq_cons_iff.mp hrest
  obtain ⟨release, post', rfl, hrelease, hpost⟩ := List.map_eq_cons_iff.mp hrest
  refine ⟨pre', post', hpre.symm, hpost.symm, ?_⟩
  rw [instr_of_instr? hacquire, instr_of_instr? hcommit, instr_of_instr? hwait,
    instr_of_instr? hpack, instr_of_instr? hrelease, controlled]

variable {block' : Block KernelOp}

theorem holds_congr (h : skeleton block = skeleton block') : holds p block = holds p block' := by
  rw [holds, holds, h]

theorem partly_congr (h : skeleton block = skeleton block')
    (hblock : Partly block) : Partly block' := by
  rcases hblock with hfree | ⟨pre, pack, post, hpack, hpre, hpost, rfl⟩
  · exact .inl (holds_congr h ▸ hfree)
  · obtain ⟨pre', post', hskelPre, hskelPost, rfl⟩ := controlled_of_skeleton h
    exact .inr ⟨pre', pack, post', hpack, holds_congr hskelPre ▸ hpre, holds_congr hskelPost ▸ hpost,
      rfl⟩

theorem holds_commit_controlled : holds isCommit (controlled pre pack post) = true := by
  rw [controlled, holds_instr, holds_append, holds_instr]
  simp [isCommit, KernelOp.access]

theorem isControl_of_isPack (h : isPack pack = true) : pack.isControl = false := by
  have haccess : pack.access = .pack := of_decide_eq_true h
  rw [KernelOp.isControl, haccess]
  rfl

theorem uncontrolled_controlled (hpack : isPack pack = true) :
    uncontrolled (controlled pre pack post) =
      uncontrolled pre ++ .instr pack :: uncontrolled post := by
  have hcontrol := isControl_of_isPack hpack
  rw [uncontrolled, controlled, expand, expand_append, expand, expand, expand, expand]
  simp only [Code.expand, hcontrol]
  rfl

theorem uncontrolled_rewriter (h : TileRegsRewriter block block') :
    uncontrolled block = uncontrolled block' := by
  obtain ⟨pre, post, pack, hpack, -⟩ := h
  have hcontrol := isControl_of_isPack hpack
  rw [uncontrolled_controlled hpack, uncontrolled, expand_append, expand, Code.expand,
    if_neg (by rw [hcontrol]; exact Bool.false_ne_true)]
  rfl

theorem partly_rewriter (h : TileRegsRewriter block block')
    (hblock : Everywhere Partly block) : Everywhere Partly block' := by
  obtain ⟨pre, post, pack, hpack, hcommit⟩ := h
  obtain ⟨hself, hin⟩ := hblock
  obtain ⟨hpre, -, hpost⟩ := allIn_append.mp hin
  refine ⟨?_, trivial, allIn_append.mpr ⟨hpre, trivial, trivial, trivial, trivial, hpost⟩⟩
  rcases hself with hfree | ⟨_, _, _, -, -, -, heq⟩
  · rw [holds_append, holds_instr, Bool.or_eq_false_iff, Bool.or_eq_false_iff] at hfree
    exact .inr ⟨pre, pack, post, hpack, hfree.1, hfree.2.2, rfl⟩
  · rw [heq, holds_commit_controlled] at hcommit
    cases hcommit

/-- Every block where nothing is left to rewrite is placed. -/
theorem placed_of_normal (hblock : Partly block)
    (hnormal : ∀ block', ¬ TileRegsRewriter block block') : Placed block := by
  rcases hblock with hfree | hcontrolled
  · refine .inl ⟨hfree, Bool.eq_false_iff.mpr fun hholds => ?_⟩
    obtain ⟨pre, pack, post, hpack, rfl⟩ := exists_of_holds hholds
    refine hnormal _ (.matchAndRewrite pre post pack hpack ?_)
    rw [holds_eq_false_iff] at hfree ⊢
    intro op hop
    have hcontrol := hfree op hop
    rw [KernelOp.isControl, Bool.or_eq_false_iff, Bool.or_eq_false_iff, Bool.or_eq_false_iff]
      at hcontrol
    exact hcontrol.1.1.2
  · exact .inr hcontrolled

theorem count_rewriter (h : TileRegsRewriter block block') :
    count (fun b => holds isPack b && !holds isCommit b) block' <
      count (fun b => holds isPack b && !holds isCommit b) block := by
  obtain ⟨pre, post, pack, hpack, hcommit⟩ := h
  have hpacks : holds isPack (pre ++ .instr pack :: post) = true := by
    rw [holds_append, holds_instr, hpack, Bool.true_or, Bool.or_true]
  rw [count, count, holds_commit_controlled, hcommit, hpacks, controlled]
  simp only [countIn, countIn_append, Code.count, Bool.not_true, Bool.and_false, Bool.not_false,
    Bool.and_true, Bool.toNat_false, Bool.toNat_true]
  omega

end Blocks

/-! ## The results of the driver -/

section Driver

variable {kernel final : Block KernelOp}

/-- **The driver ends.** -/
theorem exists_controls (kernel : Block KernelOp) : ∃ final, Controls kernel final := by
  refine exists_normal (fun b b' h => count_lt_of_inBlock (p := fun b =>
    holds isPack b && !holds isCommit b) (fun b b' hskel => ?_) (fun b b' => count_rewriter) h) kernel
  rw [holds_congr hskel, holds_congr hskel]

/-- **What the driver leaves** is placed in every block, and is the kernel up to the operations
that are put in. -/
theorem Controls.placed (h : Controls kernel final) (hkernel : NoControl (blockInstrs kernel)) :
    Everywhere Placed final ∧ uncontrolled final = kernel := by
  obtain ⟨hsteps, hnormal⟩ := h
  have hkept : Everywhere Partly final ∧ uncontrolled kernel = uncontrolled final := by
    clear hnormal
    induction hsteps with
    | refl =>
      have hfree := everywhere_of_instrs hkernel
      exact ⟨hfree.mp hfree fun b h _ => .inl (holds_eq_false_iff.mpr h), rfl⟩
    | tail _ hstep ih =>
      exact ⟨ih.1.inBlock (fun b b' => partly_congr) (fun b b' => partly_rewriter) hstep,
        ih.2.trans (expand_inBlock (fun b b' => uncontrolled_rewriter) hstep)⟩
  refine ⟨hkept.1.mp (everywhere_of_normal hnormal) fun b => placed_of_normal, ?_⟩
  rw [← hkept.2]
  refine expand_eq_self fun op hop => ?_
  rw [hkernel op hop]
  rfl

end Driver

/-! ## Runs of placed blocks -/

section Runs

variable {ρ : List ℕ} {pre post block : Block KernelOp} {pack : KernelOp}

/-- What a list of code executes, where it may stand, and what it does to the registers. -/
structure Follows (ρ : List ℕ) (block : Block KernelOp) : Prop where
  returns : Returns DstState.step (blockTrace ρ block)
  acquired : run DstState.step .acquired (blockTrace ρ block) = some .acquired ↔
    allInSection ρ (uncontrolled block)
  idle : run DstState.step .idle (blockTrace ρ block) = some .idle ↔
    allOutside ρ (uncontrolled block)

/-- What a block executes, and what it does to the registers. -/
structure Behaves (ρ : List ℕ) (block : Block KernelOp) : Prop where
  returns : Returns DstState.step (blockTrace ρ block)
  acquired : run DstState.step .acquired (blockTrace ρ block) = some .acquired ↔
    allInSection ρ (uncontrolled block)
  idle : run DstState.step .idle (blockTrace ρ block) = some .idle ↔ Sectioned ρ (uncontrolled block)

theorem allInSection_append (block' : Block KernelOp) :
    allInSection ρ (block ++ block') ↔ allInSection ρ block ∧ allInSection ρ block' := by
  induction block with
  | nil => exact (true_and _).symm.to_iff
  | cons code rest ih => rw [List.cons_append, allInSection, ih, allInSection, and_assoc]

theorem allOutside_append (block' : Block KernelOp) :
    allOutside ρ (block ++ block') ↔ allOutside ρ block ∧ allOutside ρ block' := by
  induction block with
  | nil => exact (true_and _).symm.to_iff
  | cons code rest ih => rw [List.cons_append, allOutside, ih, allOutside, and_assoc]

/-- Any pack of a block can be taken for the one that ends the section. -/
theorem untilPack_append (hpack : isPack pack = true) :
    untilPack ρ (pre ++ .instr pack :: post) ↔ allInSection ρ pre ∧ allOutside ρ post := by
  have haccess : pack.access = .pack := of_decide_eq_true hpack
  induction pre with
  | nil =>
    have hinstr : (Code.instr pack).instr?.any isPack = true := hpack
    rw [List.nil_append, untilPack, if_pos hinstr, allInSection, true_and]
  | cons code rest ih =>
    rw [List.cons_append, untilPack, allInSection]
    by_cases hcode : code.instr?.any isPack = true
    · -- two packs: neither side holds
      obtain ⟨op, hop, hany⟩ := (Option.any_eq_true _ _).mp hcode
      have hop' : op.access = .pack := of_decide_eq_true hany
      rw [if_pos hcode, instr_of_instr? hop, inSection, allOutside_append, allOutside, outside]
      exact iff_of_false (fun h => h.2.1.1 haccess) fun h => h.1.1 hop'
    · rw [if_neg hcode, and_assoc]
      exact and_congr_right fun _ => ih

theorem uncontrolled_append (block' : Block KernelOp) :
    uncontrolled (block ++ block') = uncontrolled block ++ uncontrolled block' :=
  expand_append _ block block'

theorem Follows.nil : Follows ρ [] :=
  ⟨returns_nil, iff_of_true rfl trivial, iff_of_true rfl trivial⟩

theorem Follows.append {block' : Block KernelOp} (h : Follows ρ block) (h' : Follows ρ block') :
    Follows ρ (block ++ block') := by
  refine ⟨?_, ?_, ?_⟩
  · rw [blockTrace_append]
    exact h.returns.append h'.returns
  · rw [blockTrace_append, run_append_iff h.returns, h.acquired, h'.acquired,
      uncontrolled_append, allInSection_append]
  · rw [blockTrace_append, run_append_iff h.returns, h.idle, h'.idle, uncontrolled_append,
      allOutside_append]

theorem follows_of_forall (h : ∀ code ∈ block, Follows ρ [code]) : Follows ρ block := by
  induction block with
  | nil => exact .nil
  | cons code rest ih =>
    obtain ⟨hcode, hrest⟩ := List.forall_mem_cons.mp h
    exact hcode.append (ih hrest)

/-- An operation that does not control the registers. -/
theorem follows_instr {op : KernelOp} (h : op.isControl = false) : Follows ρ [.instr op] := by
  have huncontrolled : uncontrolled [.instr op] = [.instr op] := by
    rw [uncontrolled, expand, Code.expand, h]
    rfl
  have hrun : ∀ s, run DstState.step s (blockTrace ρ [.instr op]) = s.next op.access := fun s => by
    show (s.next op.access).bind some = s.next op.access
    rw [Option.bind_fun_some]
  have haccess : op.access = .none ∨ op.access = .math ∨ op.access = .pack := by
    rw [KernelOp.isControl] at h
    revert h
    cases op.access <;> decide
  refine ⟨fun s s' hs => ?_, ?_, ?_⟩
  · rw [hrun] at hs
    rcases haccess with h | h | h <;> rw [h] at hs <;> cases s <;>
      first | exact (Option.some.inj hs).symm | cases hs
  · rw [hrun, huncontrolled, allInSection, allInSection, inSection]
    rcases haccess with h | h | h <;> rw [h] <;> decide
  · rw [hrun, huncontrolled, allOutside, allOutside, outside]
    rcases haccess with h | h | h <;> rw [h] <;> decide

/-- A loop whose body behaves. -/
theorem follows_loop {trips : List ℕ → ℕ} {body : Block KernelOp}
    (h : ∀ i, Behaves (i :: ρ) body) : Follows ρ [.loop trips body] := by
  have htrace : blockTrace ρ [.loop trips body] =
      (List.range (trips ρ)).flatMap fun i => blockTrace (i :: ρ) body := by
    rw [blockTrace, blockTrace, List.append_nil, Code.trace]
  have huncontrolled : uncontrolled [.loop trips body] = [.loop trips (uncontrolled body)] := rfl
  refine ⟨?_, ?_, ?_⟩
  · rw [htrace]
    exact Returns.flatMap (fun i => (h i).returns) _
  · rw [htrace, run_flatMap_iff fun i => (h i).returns, huncontrolled, allInSection, allInSection,
      and_true, inSection]
    simp only [List.mem_range, (h _).acquired]
  · rw [htrace, run_flatMap_iff fun i => (h i).returns, huncontrolled, allOutside, allOutside,
      and_true, outside]
    simp only [List.mem_range, (h _).idle, Sectioned]

/-- A conditional whose branches behave. -/
theorem follows_branch {cond : List ℕ → Bool} {thenBlock elseBlock : Block KernelOp}
    (hthen : Behaves ρ thenBlock) (helse : Behaves ρ elseBlock) :
    Follows ρ [.branch cond thenBlock elseBlock] := by
  have htrace : blockTrace ρ [.branch cond thenBlock elseBlock] =
      if cond ρ then blockTrace ρ thenBlock else blockTrace ρ elseBlock := by
    rw [blockTrace, blockTrace, List.append_nil, Code.trace]
  have huncontrolled : uncontrolled [.branch cond thenBlock elseBlock] =
      [.branch cond (uncontrolled thenBlock) (uncontrolled elseBlock)] := rfl
  by_cases hcond : cond ρ = true
  · rw [if_pos hcond] at htrace
    refine ⟨htrace ▸ hthen.returns, ?_, ?_⟩
    · rw [htrace, huncontrolled, allInSection, allInSection, and_true, inSection, if_pos hcond]
      exact hthen.acquired
    · rw [htrace, huncontrolled, allOutside, allOutside, and_true, outside, if_pos hcond]
      exact hthen.idle
  · rw [if_neg hcond] at htrace
    refine ⟨htrace ▸ helse.returns, ?_, ?_⟩
    · rw [htrace, huncontrolled, allInSection, allInSection, and_true, inSection, if_neg hcond]
      exact helse.acquired
    · rw [htrace, huncontrolled, allOutside, allOutside, and_true, outside, if_neg hcond]
      exact helse.idle

/-- The operations of a block are those it had, without those that are taken out. -/
theorem holds_uncontrolled (h : holds isPack block = false) :
    holds isPack (uncontrolled block) = false := by
  induction block with
  | nil => rfl
  | cons code rest ih =>
    rw [holds_cons, Bool.or_eq_false_iff] at h
    have hcons : uncontrolled (code :: rest) =
        code.expand (fun op => if op.isControl = true then [] else [op]) ++ uncontrolled rest := rfl
    rw [hcons, holds_append, ih h.2, Bool.or_false]
    cases code with
    | instr op =>
      rw [Code.expand]
      by_cases hcontrol : op.isControl = true
      · rw [if_pos hcontrol]
        rfl
      · rw [if_neg hcontrol]
        exact (Bool.or_false _).trans h.1
    | loop trips body => rfl
    | branch cond thenBlock elseBlock => rfl

/-- A section goes through one cycle. -/
theorem run_controlled (hpack : isPack pack = true)
    (hpre : Returns DstState.step (blockTrace ρ pre))
    (hpost : Returns DstState.step (blockTrace ρ post)) (s s' : DstState) :
    run DstState.step s (blockTrace ρ (controlled pre pack post)) = some s' ↔
      (s = .idle ∧ s' = .idle) ∧ run DstState.step .acquired (blockTrace ρ pre) = some .acquired ∧
        run DstState.step .idle (blockTrace ρ post) = some .idle := by
  have haccess : pack.access = .pack := of_decide_eq_true hpack
  have htrace : blockTrace ρ (controlled pre pack post) = .tileRegsAcquire :: (blockTrace ρ pre ++
      .tileRegsCommit :: .tileRegsWait :: pack :: .tileRegsRelease :: blockTrace ρ post) := by
    rw [controlled, blockTrace, blockTrace_append]
    rfl
  have hpackStep : DstState.step .waited pack = some .waited := by
    rw [DstState.step, haccess]
    rfl
  have hcycle : run DstState.step .acquired
      (.tileRegsCommit :: .tileRegsWait :: pack :: .tileRegsRelease :: blockTrace ρ post) =
        run DstState.step .idle (blockTrace ρ post) := by
    show (DstState.step .waited pack).bind _ = _
    rw [hpackStep]
    rfl
  rw [htrace]
  cases s with
  | idle =>
    have hacquire : run DstState.step .idle (.tileRegsAcquire :: (blockTrace ρ pre ++
        .tileRegsCommit :: .tileRegsWait :: pack :: .tileRegsRelease :: blockTrace ρ post)) =
        run DstState.step .acquired (blockTrace ρ pre ++
          .tileRegsCommit :: .tileRegsWait :: pack :: .tileRegsRelease :: blockTrace ρ post) := rfl
    rw [hacquire, run_append_iff hpre, hcycle]
    constructor
    · rintro ⟨hruns, hrest⟩
      obtain rfl := hpost _ _ hrest
      exact ⟨⟨rfl, rfl⟩, hruns, hrest⟩
    · rintro ⟨⟨-, rfl⟩, hruns, hrest⟩
      exact ⟨hruns, hrest⟩
  | acquired =>
    exact iff_of_false (fun h => Option.some_ne_none s' h.symm) fun h => absurd h.1.1 (by decide)
  | committed =>
    exact iff_of_false (fun h => Option.some_ne_none s' h.symm) fun h => absurd h.1.1 (by decide)
  | waited =>
    exact iff_of_false (fun h => Option.some_ne_none s' h.symm) fun h => absurd h.1.1 (by decide)

/-- **A placed block** keeps the state the registers are in, or fails. -/
theorem behaves_of_placed (h : Placed block)
    (hall : ∀ code ∈ block, code.instr?.any KernelOp.isControl = false → Follows ρ [code]) :
    Behaves ρ block := by
  have hfollows : ∀ part : Block KernelOp, part ⊆ block →
      holds KernelOp.isControl part = false → Follows ρ part := by
    intro part hpart hfree
    refine follows_of_forall fun code hcode => hall code (hpart hcode) ?_
    rw [Bool.eq_false_iff]
    intro hany
    exact List.any_eq_false.mp hfree _ (List.mem_map_of_mem hcode) hany
  rcases h with ⟨hfree, hnopack⟩ | ⟨pre, pack, post, hpack, hpre, hpost, rfl⟩
  · have hblock := hfollows block (List.Subset.refl _) hfree
    refine ⟨hblock.returns, hblock.acquired, ?_⟩
    rw [Sectioned, if_neg (by rw [holds_uncontrolled hnopack]; exact Bool.false_ne_true)]
    exact hblock.idle
  · have hpre' := hfollows pre (by intro c hc; simp [controlled, hc]) hpre
    have hpost' := hfollows post (by intro c hc; simp [controlled, hc]) hpost
    have haccess : pack.access = .pack := of_decide_eq_true hpack
    have hruns := run_controlled hpack hpre'.returns hpost'.returns
    have hholds : holds isPack (uncontrolled pre ++ .instr pack :: uncontrolled post) = true := by
      rw [holds_append, holds_instr, hpack, Bool.true_or, Bool.or_true]
    refine ⟨fun s s' hs => ?_, ?_, ?_⟩
    · obtain ⟨⟨rfl, rfl⟩, -⟩ := (hruns s s').mp hs
      rfl
    · rw [hruns, uncontrolled_controlled hpack, allInSection_append, allInSection, inSection]
      exact iff_of_false (fun h => absurd h.1.1 (by decide)) fun h => h.2.1 haccess
    · rw [hruns, uncontrolled_controlled hpack, Sectioned, if_pos hholds, untilPack_append hpack,
        hpre'.acquired, hpost'.idle]
      exact and_iff_right ⟨rfl, rfl⟩

/-- All placed blocks behave. -/
theorem behaves_of_everywhere (h : Everywhere Placed block) (ρ : List ℕ) : Behaves ρ block := by
  suffices hall : AllIn Placed block → ∀ ρ, ∀ code ∈ block,
      code.instr?.any KernelOp.isControl = false → Follows ρ [code] from
    behaves_of_placed h.1 (hall h.2 ρ)
  clear h ρ
  induction block using blockInduction (P := fun code : Code KernelOp => code.All Placed →
    ∀ ρ, code.instr?.any KernelOp.isControl = false → Follows ρ [code]) with
  | instr op h ρ hcontrol => exact follows_instr hcontrol
  | loop trips body ih h ρ =>
    exact follows_loop fun i => behaves_of_placed h.1 (ih h.2 (i :: ρ))
  | branch cond thenBlock elseBlock ihThen ihElse h ρ =>
    exact follows_branch (behaves_of_placed h.1.1 (ihThen h.1.2 ρ))
      (behaves_of_placed h.2.1 (ihElse h.2.2 ρ))
  | nil => exact fun _ _ code hcode => absurd hcode List.not_mem_nil
  | cons code rest ih ihRest =>
    intro h ρ code' hcode'
    rcases List.mem_cons.mp hcode' with rfl | hcode'
    · exact ih h.1 ρ
    · exact ihRest h.2 ρ code' hcode'

end Runs

/-! ## The kernels that are sectioned -/

section Kernels

variable {kernel final : Block KernelOp}

/-- **The cycles of one execution**, whatever the driver leaves. -/
theorem run_iff_sectioned (hkernel : NoControl (blockInstrs kernel)) (h : Controls kernel final)
    (ρ : List ℕ) : WellFormed (blockTrace ρ final) ↔ Sectioned ρ kernel := by
  obtain ⟨hplaced, heq⟩ := h.placed hkernel
  rw [WellFormed, (behaves_of_everywhere hplaced ρ).idle, heq]

/-- **When destination registers go through their cycles.**  In every execution of a compute
kernel, whatever order the driver takes, they do exactly when the kernel is sectioned. -/
theorem wellFormed_iff {f : ComputeFunc} (h : convert f = some kernel) :
    (∀ final, Controls kernel final → ∀ ρ, WellFormed (blockTrace ρ final)) ↔
      ∀ ρ, Sectioned ρ kernel := by
  have hkernel := noControl_convert h
  constructor
  · intro hall ρ
    obtain ⟨final, hfinal⟩ := exists_controls kernel
    exact (run_iff_sectioned hkernel hfinal ρ).mp (hall final hfinal ρ)
  · intro hall final hfinal ρ
    exact (run_iff_sectioned hkernel hfinal ρ).mpr (hall ρ)

/-- The loops of a tiled matrix multiplication: one row of four tiles, from three tiles each. -/
def tiledMatmul : ComputeFunc where
  args := [0, 1, 2]
  body := [.instr (.collapseShape 3 0), .instr (.collapseShape 4 1), .instr (.collapseShape 5 2),
    .loop (fun _ => 1) [.loop (fun _ => 4) [.loop (fun _ => 3) [.instr .other,
      .instr (.load 7 3 6), .instr (.load 8 4 6), .instr (.load 9 5 6),
      .instr (.tileMatmul 10 7 8 9), .instr (.store 10 5 6)]]]]

/-- The kernel of the multiplication. -/
def tiledMatmulKernel : Block KernelOp :=
  [.instr (.getCompileArgVal 0 0), .instr (.getCompileArgVal 1 1), .instr (.getCompileArgVal 2 2),
    .instr (.cbReinterpretShape 3 0), .instr (.cbReinterpretShape 4 1),
    .instr (.cbReinterpretShape 5 2), .instr (.mmInit 3 4 5),
    .loop (fun _ => 1) [.loop (fun _ => 4) [.loop (fun _ => 3) [.instr .other,
      .instr (.load 7 3 6), .instr (.load 8 4 6), .instr (.load 9 5 6),
      .instr (.copyTileInit 5), .instr (.copyTile 5 6 0), .instr (.mmInitShort 3 4),
      .instr (.matmulTiles 3 4 6 6 0), .instr (.packTile 0 5 6)]]]]

/-- Each tile is copied, multiplied and packed in a section of its own. -/
theorem wellFormed_tiledMatmul : convert tiledMatmul = some tiledMatmulKernel ∧
    ∀ final, Controls tiledMatmulKernel final → ∀ ρ, WellFormed (blockTrace ρ final) := by
  have hconvert : convert tiledMatmul = some tiledMatmulKernel := rfl
  refine ⟨hconvert, (wellFormed_iff hconvert).mpr fun ρ => ?_⟩
  simp [Sectioned, tiledMatmulKernel, holds, skeleton, Code.instr?, isPack, KernelOp.access,
    allOutside, outside, untilPack, inSection]

/-- Two results in one block. -/
def twoStores : ComputeFunc where
  args := [0, 1, 2]
  body := [.instr .other, .instr (.load 4 0 3), .instr (.load 5 1 3),
    .instr (.tileFPU .add 6 4 5), .instr (.store 6 2 3), .instr (.tileFPU .mul 7 4 5),
    .instr (.store 7 2 3)]

/-- The kernel of two results in one block. -/
def twoStoresKernel : Block KernelOp :=
  [.instr (.getCompileArgVal 0 0), .instr (.getCompileArgVal 1 1), .instr (.getCompileArgVal 2 2),
    .instr .other, .instr (.load 4 0 3), .instr (.load 5 1 3),
    .instr (.binaryOpInitCommon 0 1 2), .instr (.tilesInit .add 0 1),
    .instr (.tiles .add 0 1 3 3 0), .instr (.packTile 0 2 3),
    .instr (.binaryOpInitCommon 0 1 2), .instr (.tilesInit .mul 0 1),
    .instr (.tiles .mul 0 1 3 3 0), .instr (.packTile 0 2 3)]

/-- Only one of two packs has a section, whichever the driver takes. -/
theorem twoStores_not_wellFormed : convert twoStores = some twoStoresKernel ∧
    (∃ final, Controls twoStoresKernel final) ∧
      ∀ final, Controls twoStoresKernel final → ∀ ρ, ¬ WellFormed (blockTrace ρ final) := by
  have hconvert : convert twoStores = some twoStoresKernel := rfl
  refine ⟨hconvert, exists_controls _, fun final hfinal ρ h => ?_⟩
  rw [run_iff_sectioned (noControl_convert hconvert) hfinal] at h
  simp [Sectioned, twoStoresKernel, holds, skeleton, Code.instr?, isPack, KernelOp.access,
    allOutside, outside, untilPack, inSection] at h

end Kernels

end ControlDstSection
