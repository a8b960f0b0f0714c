/-
# Cloning operations under a value map

Copies of a list of operations under fresh identities, with a map from the values they read
to the values their copies read; the map grows by the results of each copy.

* `Operation.clone`, `cloneAll` : the copies and the map after them;
* `scoped_cloneAll` : copies of scoped operations are scoped;
* `exists_solves_cloneAll` : copies compute what the originals compute.
-/
import TTMLIR.SSA

namespace SSA

variable {κ τ α : Type}

/-- A copy of an operation under a new identity and a value map. -/
def Operation.clone (m : Value → Value) (id : ℕ) (op : Operation κ τ) : Operation κ τ :=
  { op with id := id, operands := op.operands.map m }

/-- The value map after the operation `op` is copied under the identity `id`. -/
def mapResults (m : Value → Value) (op : Operation κ τ) (id : ℕ) : Value → Value
  | .blockArg n => m (.blockArg n)
  | .opResult o k => if o = op.id ∧ k < op.numResults then .opResult id k else m (.opResult o k)

/-- Copies of operations under the identities `n`, `n + 1`, ..., and the value map after
them. -/
def cloneAll (m : Value → Value) (n : ℕ) :
    List (Operation κ τ) → List (Operation κ τ) × (Value → Value)
  | [] => ([], m)
  | op :: ops =>
    let (rest, m') := cloneAll (mapResults m op n) (n + 1) ops
    (op.clone m n :: rest, m')

section

variable (m : Value → Value) (id : ℕ) (op : Operation κ τ)

@[simp] theorem Operation.clone_id : (op.clone m id).id = id := rfl

@[simp] theorem Operation.clone_name : (op.clone m id).name = op.name := rfl

@[simp] theorem Operation.clone_operands : (op.clone m id).operands = op.operands.map m := rfl

end

/-- The first operation is copied, and the others with its results replaced. -/
theorem cloneAll_cons (m : Value → Value) (n : ℕ) (op : Operation κ τ)
    (ops : List (Operation κ τ)) :
    cloneAll m n (op :: ops) = (op.clone m n :: (cloneAll (mapResults m op n) (n + 1) ops).1,
        (cloneAll (mapResults m op n) (n + 1) ops).2) := rfl

variable {m : Value → Value} {op : Operation κ τ}

/-- Other values are mapped as before. -/
theorem mapResults_of_not_mem {id : ℕ} {v : Value}
    (hv : v ∉ op.results) : mapResults m op id v = m v := by
  cases v with
  | blockArg n => rfl
  | opResult o k =>
    rw [mapResults, if_neg fun h => hv (Operation.opResult_mem_results.mpr h)]

/-- A result is mapped to that of the copy. -/
theorem mapResults_result {id k : ℕ}
    (hk : k < op.numResults) : mapResults m op id (.opResult op.id k) = .opResult id k := by
  rw [mapResults, if_pos ⟨rfl, hk⟩]

/-- The copies are numbered in order. -/
theorem map_id_cloneAll (m : Value → Value) (n : ℕ) (ops : List (Operation κ τ)) :
    (cloneAll m n ops).1.map Operation.id = List.range' n ops.length := by
  induction ops generalizing m n with
  | nil => rfl
  | cons op ops ih =>
    rw [cloneAll_cons, List.map_cons, ih, List.length_cons, List.range'_succ]
    rfl

variable {ops : List (Operation κ τ)}

/-- The range of the identities of copies. -/
theorem id_of_mem_cloneAll {n : ℕ} (hop : op ∈ (cloneAll m n ops).1) :
    n ≤ op.id ∧ op.id < n + ops.length := by
  have hid := List.mem_map_of_mem (f := Operation.id) hop
  rw [map_id_cloneAll, List.mem_range'_1] at hid
  exact hid

/-- A copy is one of some operation of the list. -/
theorem exists_of_mem_cloneAll {n : ℕ} {op' : Operation κ τ} (hop : op' ∈ (cloneAll m n ops).1) :
    ∃ op ∈ ops, ∃ m' i, op' = op.clone m' i := by
  induction ops generalizing m n with
  | nil => simp [cloneAll] at hop
  | cons op ops ih =>
    rw [cloneAll_cons] at hop
    rcases List.mem_cons.mp hop with rfl | hop
    · exact ⟨op, by simp, m, n, rfl⟩
    · obtain ⟨o, ho, h⟩ := ih hop
      exact ⟨o, List.mem_cons_of_mem _ ho, h⟩

/-! ## Copies of scoped operations -/

/-- Visible values are mapped to visible ones. -/
theorem mapResults_mem {n : ℕ}
    {visible visible' : List Value} (hm : ∀ v ∈ visible, m v ∈ visible') :
    ∀ v ∈ visible ++ op.results, mapResults m op n v ∈ visible' ++ (op.clone m n).results := by
  intro v hv
  by_cases hres : v ∈ op.results
  · obtain ⟨k, hk, rfl⟩ := Operation.mem_results.mp hres
    rw [mapResults_result hk]
    exact List.mem_append_right _ (Operation.opResult_mem_results.mpr ⟨rfl, hk⟩)
  · rw [mapResults_of_not_mem hres]
    rcases List.mem_append.mp hv with hv | hv
    · exact List.mem_append_left _ (hm v hv)
    · exact absurd hv hres

/-- **Copies of scoped operations are scoped**, and the map sends visible values to visible
values. -/
theorem scoped_cloneAll {n : ℕ} {visible visible' : List Value} (hscoped : Scoped visible ops)
    (hm : ∀ v ∈ visible, m v ∈ visible') :
    Scoped visible' (cloneAll m n ops).1 ∧ ∀ v ∈ visible ++ ops.flatMap Operation.results,
        (cloneAll m n ops).2 v ∈ visible' ++ (cloneAll m n ops).1.flatMap Operation.results := by
  induction ops generalizing m n visible visible' with
  | nil => exact ⟨trivial, by simpa [cloneAll] using hm⟩
  | cons op ops ih =>
    obtain ⟨hop, hops⟩ := hscoped
    obtain ⟨hscoped', hmap⟩ := ih (n := n + 1) hops (mapResults_mem (n := n) hm)
    rw [cloneAll_cons]
    refine ⟨⟨?_, hscoped'⟩, ?_⟩
    · intro v hv
      obtain ⟨w, hw, rfl⟩ := List.mem_map.mp hv
      exact hm w (hop w hw)
    · simpa only [List.flatMap_cons, List.append_assoc] using hmap

/-- Values in which the results of the copy `n` are those of the original `id`. -/
def assignCopy (ρ ρ₀ : Value → α) (id n : ℕ) : Value → α
  | .opResult i k => if i = n then ρ (.opResult id k) else ρ₀ (.opResult i k)
  | .blockArg j => ρ₀ (.blockArg j)

@[simp] theorem assignCopy_copy (ρ ρ₀ : Value → α) (id n k : ℕ) :
    assignCopy ρ ρ₀ id n (.opResult n k) = ρ (.opResult id k) := if_pos rfl

theorem assignCopy_of_ne (ρ ρ₀ : Value → α) (id : ℕ) {n : ℕ} {v : Value}
    (h : ∀ k, v ≠ .opResult n k) : assignCopy ρ ρ₀ id n v = ρ₀ v := by
  cases v with
  | blockArg j => rfl
  | opResult i k => exact if_neg fun heq => h k (by rw [heq])

/-- **Copies compute what the originals compute.**  Values of what is visible to the copies
extend to values of the copies' results, and the map relates them to the values of the
originals. -/
theorem exists_solves_cloneAll {sem : Sem κ α}
    {n : ℕ} {visible visible' : List Value} {ρ ρ₀ : Value → α} (hscoped : Scoped visible ops)
    (hm : ∀ v ∈ visible, m v ∈ visible') (hsolves : Solves sem ops ρ)
    (hfresh : ∀ i ≥ n, ∀ k, Value.opResult i k ∉ visible')
    (hρ₀ : ∀ v ∈ visible, ρ₀ (m v) = ρ v) :
    ∃ ρ', (∀ v, (∀ i ≥ n, ∀ k, v ≠ .opResult i k) → ρ' v = ρ₀ v) ∧
      (∀ v ∈ visible ++ ops.flatMap Operation.results, ρ' ((cloneAll m n ops).2 v) = ρ v) ∧
      Solves sem (cloneAll m n ops).1 ρ' := by
  induction ops generalizing m n visible visible' ρ₀ with
  | nil => exact ⟨ρ₀, fun _ _ => rfl, by simpa [cloneAll] using hρ₀, by simp [Solves, cloneAll]⟩
  | cons op ops ih =>
    obtain ⟨hop, hops⟩ := hscoped
    -- the results of the first copy take the values of the first original
    have hkeep : ∀ v ∈ visible', assignCopy ρ ρ₀ op.id n v = ρ₀ v := fun v hv =>
      assignCopy_of_ne ρ ρ₀ op.id fun k h => hfresh n le_rfl k (h ▸ hv)
    have hfirst : ∀ v ∈ visible ++ op.results,
        assignCopy ρ ρ₀ op.id n (mapResults m op n v) = ρ v := by
      intro v hv
      by_cases hres : v ∈ op.results
      · obtain ⟨k, hk, rfl⟩ := Operation.mem_results.mp hres
        rw [mapResults_result hk, assignCopy_copy]
      · rw [mapResults_of_not_mem hres]
        rcases List.mem_append.mp hv with hv | hv
        · rw [hkeep _ (hm v hv), hρ₀ v hv]
        · exact absurd hv hres
    obtain ⟨ρ', hsame, hmap, hrest⟩ := ih (n := n + 1) hops (mapResults_mem (n := n) hm)
      (fun o ho => hsolves o (by simp [ho]))
      (fun i hi k hmem => by
        rcases List.mem_append.mp hmem with hmem | hmem
        · exact hfresh i (by omega) k hmem
        · obtain ⟨hid, -⟩ := Operation.opResult_mem_results.mp hmem
          rw [Operation.clone_id] at hid
          omega)
      hfirst
    have hold : ∀ v ∈ visible', ρ' v = ρ₀ v := by
      intro v hv
      rw [hsame v fun i hi k h => hfresh i (by omega) k (h ▸ hv), hkeep v hv]
    rw [cloneAll_cons]
    refine ⟨ρ', ?_, ?_, ?_⟩
    · intro v hv
      rw [hsame v fun i hi k => hv i (by omega) k]
      exact assignCopy_of_ne ρ ρ₀ op.id fun k => hv n le_rfl k
    · simpa only [List.flatMap_cons, List.append_assoc] using hmap
    · intro o ho k hk
      rcases List.mem_cons.mp ho with rfl | ho
      · have hoperands : (op.operands.map m).map ρ' = op.operands.map ρ := by
          rw [List.map_map]
          refine List.map_congr_left fun v hv => ?_
          rw [Function.comp_apply, hold _ (hm v (hop v hv)), hρ₀ v (hop v hv)]
        have hresult : ρ' (.opResult n k) = ρ (.opResult op.id k) := by
          rw [hsame _ fun i hi k' h => by
            have := (Value.opResult.inj h).1
            omega]
          exact assignCopy_copy ρ ρ₀ op.id n k
        rw [Operation.clone_operands, Operation.clone_name, Operation.clone_id, hoperands, hresult]
        exact hsolves op (by simp) k hk
      · exact hrest o ho k hk

end SSA
