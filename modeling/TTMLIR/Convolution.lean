/-
# Grouped convolutions

The value of a convolution at one output position, for any number of spatial dimensions: a
sum over the positions of the kernel and the channels of a group.  A position of the input
is read through padding, stride, and the dilations of input and kernel; what falls into the
padding or into a hole of a dilated input adds nothing.

* `Window.tap` : the input position a kernel position reads along one dimension;
* `convolve` : the value of a convolution;
* `inShape_taps` : what is read is a position of the input;
* `convolve_mul` : scaling the kernel of an output feature scales its values;
* `convolve_append` : a dimension of one input and one kernel position adds nothing.
-/
import TTMLIR.MixedRadix

namespace Convolution

open MixedRadix

/-- One spatial dimension of the window of a convolution. -/
structure Window where
  stride : ℕ
  padLow : ℤ
  padHigh : ℤ
  inputDilation : ℕ
  dilation : ℕ
deriving DecidableEq, Repr

namespace Window

/-- The position, among `n` input positions, that the kernel position `k` reads for the output
position `o`; there is none in the padding and in the holes of a dilated input. -/
def tap (w : Window) (n o k : ℕ) : Option ℕ :=
  let p : ℤ := o * w.stride + k * w.dilation - w.padLow
  if 0 ≤ p ∧ p % w.inputDilation = 0 ∧ p / w.inputDilation < n then
    some (p / w.inputDilation).toNat
  else none

/-- The number of output positions, for `n` input and `k` kernel positions. -/
def outExtent (w : Window) (n k : ℕ) : ℤ :=
  ((n - 1) * w.inputDilation + 1 + w.padLow + w.padHigh - (w.dilation * (k - 1) + 1))
    / w.stride + 1

/-- The window that reads its one position. -/
def unit : Window := ⟨1, 0, 0, 1, 1⟩

/-- The window without holes in the input. -/
def undilated (w : Window) : Window := { w with inputDilation := 1 }

@[simp] theorem tap_unit : unit.tap 1 0 0 = some 0 := rfl

end Window

/-- The input position that a kernel position reads for an output position. -/
def taps : List Window → List ℕ → List ℕ → List ℕ → Option (List ℕ)
  | w :: ws, n :: ns, o :: os, k :: ks => do
      let i ← w.tap n o k
      let is ← taps ws ns os ks
      return i :: is
  | _, _, _, _ => some []

/-- The extents of a convolution and its windows. -/
structure Spec where
  windows : List Window
  input : List ℕ
  kernel : List ℕ
  outputFeatures : ℕ
  groupFeatures : ℕ
  groups : ℕ
deriving DecidableEq, Repr

namespace Spec

/-- The first input feature of the group of an output feature. -/
def groupStart (s : Spec) (f : ℕ) : ℕ := f / (s.outputFeatures / s.groups) * s.groupFeatures

/-- One more spatial dimension. -/
def append (s : Spec) (w : Window) (n k : ℕ) : Spec :=
  { s with windows := s.windows ++ [w], input := s.input ++ [n], kernel := s.kernel ++ [k] }

end Spec

section Values

variable {α : Type*} [NonUnitalNonAssocSemiring α]

/-- **A convolution at one output position.**  The input `x` is read at a batch, a feature and
a position, the kernel `w` at an output feature, an input feature of the group and a
position. -/
def convolve (s : Spec) (x w : ℕ → ℕ → List ℕ → α) (b f : ℕ) (os : List ℕ) : α :=
  ∑ k ∈ Finset.range s.kernel.prod, ∑ c ∈ Finset.range s.groupFeatures,
    match taps s.windows s.input os (unravel s.kernel k) with
    | some is => x b (s.groupStart f + c) is * w f c (unravel s.kernel k)
    | none => 0

/-- A convolution reads the kernel of its output feature at positions of the kernel. -/
theorem convolve_congr {s : Spec} {x x' w w' : ℕ → ℕ → List ℕ → α} {b f : ℕ} {os : List ℕ}
    (hx : ∀ c < s.groupFeatures, ∀ k < s.kernel.prod, ∀ is,
      taps s.windows s.input os (unravel s.kernel k) = some is →
        x b (s.groupStart f + c) is = x' b (s.groupStart f + c) is)
    (hw : ∀ c < s.groupFeatures, ∀ k < s.kernel.prod,
      w f c (unravel s.kernel k) = w' f c (unravel s.kernel k)) :
    convolve s x w b f os = convolve s x' w' b f os := by
  apply Finset.sum_congr rfl
  intro k hk
  apply Finset.sum_congr rfl
  intro c hc
  rw [Finset.mem_range] at hk hc
  cases htaps : taps s.windows s.input os (unravel s.kernel k) with
  | none => rfl
  | some is => exact congrArg₂ (· * ·) (hx c hc k hk is htaps) (hw c hc k hk)

end Values

/-- **Scaling the kernel** of an output feature scales the values of the feature. -/
theorem convolve_mul {α : Type*} [NonUnitalSemiring α] (s : Spec) (x w : ℕ → ℕ → List ℕ → α)
    (r : ℕ → α) (b f : ℕ) (os : List ℕ) :
    convolve s x (fun f c ks => w f c ks * r f) b f os = convolve s x w b f os * r f := by
  rw [convolve, convolve, Finset.sum_mul]
  apply Finset.sum_congr rfl
  intro k _
  rw [Finset.sum_mul]
  apply Finset.sum_congr rfl
  intro c _
  cases taps s.windows s.input os (unravel s.kernel k) with
  | none => exact (zero_mul _).symm
  | some is => exact (mul_assoc _ _ _).symm

/-! ## Positions that are read -/

theorem Window.tap_lt {w : Window} {n o k i : ℕ} (h : w.tap n o k = some i) : i < n := by
  unfold Window.tap at h
  simp only at h
  split_ifs at h with hp
  obtain rfl := Option.some.inj h
  have hnonneg := Int.ediv_nonneg hp.1 (Int.natCast_nonneg w.inputDilation)
  omega

/-- What is read is a position of the input. -/
theorem inShape_taps {ws : List Window} {ns os ks is : List ℕ} (hns : ns.length = ws.length)
    (hos : os.length = ws.length) (hks : ks.length = ws.length)
    (h : taps ws ns os ks = some is) : InShape is ns := by
  induction ws generalizing ns os ks is with
  | nil =>
    obtain rfl := List.length_eq_zero_iff.mp hns
    obtain rfl := Option.some.inj h
    exact .nil
  | cons w ws ih =>
    obtain ⟨n, ns, rfl⟩ := List.exists_cons_of_length_eq_add_one hns
    obtain ⟨o, os, rfl⟩ := List.exists_cons_of_length_eq_add_one hos
    obtain ⟨k, ks, rfl⟩ := List.exists_cons_of_length_eq_add_one hks
    simp only [List.length_cons, Nat.add_right_cancel_iff] at hns hos hks
    obtain ⟨i, hi, h⟩ := Option.bind_eq_some_iff.mp h
    obtain ⟨is, his, h⟩ := Option.bind_eq_some_iff.mp h
    obtain rfl := Option.some.inj h
    exact .cons (Window.tap_lt hi) (ih hns hos hks his)

/-- The features of a group are features of the input. -/
theorem Spec.groupStart_add_lt {s : Spec} {f c : ℕ} (hgroups : s.groups ∣ s.outputFeatures)
    (hpos : 0 < s.groups) (hf : f < s.outputFeatures) (hc : c < s.groupFeatures) :
    s.groupStart f + c < s.groupFeatures * s.groups := by
  obtain ⟨d, hd⟩ := hgroups
  have hdiv : s.outputFeatures / s.groups = d := by rw [hd, Nat.mul_div_cancel_left d hpos]
  have hlt : f / d < s.groups := by
    rw [hd] at hf
    exact Nat.div_lt_of_lt_mul (by rwa [Nat.mul_comm])
  rw [Spec.groupStart, hdiv]
  calc f / d * s.groupFeatures + c < f / d * s.groupFeatures + s.groupFeatures := by omega
    _ = (f / d + 1) * s.groupFeatures := by ring
    _ ≤ s.groups * s.groupFeatures := Nat.mul_le_mul_right _ hlt
    _ = s.groupFeatures * s.groups := Nat.mul_comm _ _

/-! ## A dimension of one position -/

/-- A further dimension is read on its own. -/
theorem taps_append {ws : List Window} {ns os ks : List ℕ} {w : Window} {n o k i : ℕ}
    (hns : ns.length = ws.length) (hos : os.length = ws.length) (hks : ks.length = ws.length)
    (hi : w.tap n o k = some i) :
    taps (ws ++ [w]) (ns ++ [n]) (os ++ [o]) (ks ++ [k]) = (taps ws ns os ks).map (· ++ [i]) := by
  induction ws generalizing ns os ks with
  | nil =>
    obtain rfl := List.length_eq_zero_iff.mp hns
    obtain rfl := List.length_eq_zero_iff.mp hos
    obtain rfl := List.length_eq_zero_iff.mp hks
    simp [taps, hi]
  | cons w' ws ih =>
    obtain ⟨n', ns, rfl⟩ := List.exists_cons_of_length_eq_add_one hns
    obtain ⟨o', os, rfl⟩ := List.exists_cons_of_length_eq_add_one hos
    obtain ⟨k', ks, rfl⟩ := List.exists_cons_of_length_eq_add_one hks
    simp only [List.length_cons, Nat.add_right_cancel_iff] at hns hos hks
    simp only [List.cons_append, taps, ih hns hos hks]
    cases w'.tap n' o' k' with
    | none => rfl
    | some i' => cases taps ws ns os ks <;> rfl

/-- The positions of a shape with a last extent of one. -/
theorem unravel_append_one (shape : List ℕ) {k : ℕ} (hk : k < shape.prod) :
    unravel (shape ++ [1]) k = unravel shape k ++ [0] := by
  induction shape generalizing k with
  | nil =>
    rw [List.prod_nil] at hk
    obtain rfl : k = 0 := by omega
    rfl
  | cons n shape ih =>
    have hpos : 0 < shape.prod := by
      rw [List.prod_cons] at hk
      exact Nat.pos_of_lt_mul_left hk
    have hprod : (shape ++ [1]).prod = shape.prod := by simp
    rw [List.cons_append, unravel, unravel, hprod, ih (Nat.mod_lt _ hpos), List.cons_append]

/-- **One more dimension of one position.**  A convolution does not change when input and
kernel have one more spatial dimension of extent one. -/
theorem convolve_append {α : Type*} [NonUnitalNonAssocSemiring α] {s : Spec}
    (hinput : s.input.length = s.windows.length) (hkernel : s.kernel.length = s.windows.length)
    {x w x' w' : ℕ → ℕ → List ℕ → α} {b f : ℕ} {os : List ℕ}
    (hos : os.length = s.windows.length)
    (hx : ∀ c < s.groupFeatures, ∀ k < s.kernel.prod, ∀ is,
      taps s.windows s.input os (unravel s.kernel k) = some is →
        x' b (s.groupStart f + c) (is ++ [0]) = x b (s.groupStart f + c) is)
    (hw : ∀ c < s.groupFeatures, ∀ k < s.kernel.prod,
      w' f c (unravel s.kernel k ++ [0]) = w f c (unravel s.kernel k)) :
    convolve (s.append Window.unit 1 1) x' w' b f (os ++ [0]) = convolve s x w b f os := by
  have hprod : (s.append Window.unit 1 1).kernel.prod = s.kernel.prod := by simp [Spec.append]
  rw [convolve, convolve, hprod]
  apply Finset.sum_congr rfl
  intro k hk
  rw [Finset.mem_range] at hk
  have hunravel : unravel (s.append Window.unit 1 1).kernel k = unravel s.kernel k ++ [0] :=
    unravel_append_one s.kernel hk
  have htaps : taps (s.append Window.unit 1 1).windows (s.append Window.unit 1 1).input
      (os ++ [0]) (unravel s.kernel k ++ [0]) =
        (taps s.windows s.input os (unravel s.kernel k)).map (· ++ [0]) :=
    taps_append hinput hos (by rw [length_unravel, hkernel]) Window.tap_unit
  rw [hunravel, htaps]
  apply Finset.sum_congr rfl
  intro c hc
  have hc' : c < s.groupFeatures := Finset.mem_range.mp hc
  cases hread : taps s.windows s.input os (unravel s.kernel k) with
  | none => rfl
  | some is =>
    show x' b (s.groupStart f + c) (is ++ [0]) * w' f c (unravel s.kernel k ++ [0]) = _
    rw [hx c hc' k hk is hread, hw c hc' k hk]

end Convolution
