import RootSearch.Proofs.SignChange
/-!
# Divisors

A division is refused only if its divisor equals zero. Some methods test their divisors before they
divide, and elsewhere a few laws of arithmetic are enough: a difference is zero only between equals, and
a step of which a factor is zero is never short enough to be trusted. Doubles obey these laws and so do
the reals.
-/

namespace RootSearch

/-- Zero, or what is not a number. -/
def Scalar.Vanishes {α : Type} [Scalar α] (x : α) : Prop := isNaN x = true ∨ (x == 0.0) = true

/-- What the proofs take of arithmetic: where a zero can come from and what it can lead to. -/
class LawfulArithmetic (α : Type) [Scalar α] : Prop extends LawfulScalar α where
  beq_of_sub : ∀ {a b : α}, (a - b == 0.0) = true → (a == b) = true
  vanishes_sub : ∀ {a b : α}, Scalar.Vanishes a → Scalar.Vanishes b → Scalar.Vanishes (a - b)
  vanishes_mul : ∀ {a b : α}, (b == 0.0) = true → Scalar.Vanishes (a * b)
  isNaN_abs : ∀ {a : α}, Scalar.isNaN a = true → Scalar.isNaN (Scalar.abs a) = true
  twice_abs : ∀ {a : α}, ¬2.0 * Scalar.abs a < 0.0

theorem bind_total {ε β γ : Type} {m : Except ε β} {k : β → Except ε γ} (hm : ∃ b, m = .ok b)
    (hk : ∀ b, ∃ c, k b = .ok c) : ∃ c, m >>= k = .ok c := by
  obtain ⟨b, rfl⟩ := hm
  exact hk b

namespace Scalar

variable {α : Type} [Scalar α] {x y : α}

theorem quotient_total (x : α) (hy : ¬(y == 0.0) = true) : ∃ z, quotient x y = .ok z :=
  ⟨x / y, if_neg hy⟩

theorem vanishes_minOf (hx : Vanishes x) (hy : Vanishes y) : Vanishes (minOf x y) := by
  unfold minOf
  split
  · exact hy
  · exact hx

variable [LawfulArithmetic α]

export LawfulArithmetic (vanishes_sub vanishes_mul)

theorem vanishes_abs (h : Vanishes x) : Vanishes (abs x) := by
  rcases h with hnan | hzero
  · exact .inl (LawfulArithmetic.isNaN_abs hnan)
  · have hx : x ≤ x := beq_iff.1 (beq_trans hzero (beq_symm hzero)) |>.1
    exact .inr (beq_iff.2 ⟨abs_le_zero hzero, zero_le_abs hx⟩)

/-- Only a number has a magnitude that is one. -/
theorem number_of_abs (h : abs x ≤ abs x) : x ≤ x := by
  rw [← isNaN_eq_false_iff] at h ⊢
  cases hx : isNaN x with
  | false => rfl
  | true =>
    rw [LawfulArithmetic.isNaN_abs hx] at h
    cases h

/-- What is below something that vanishes is below zero. -/
theorem lt_zero_of_lt_vanishes (h : x < y) (hy : Vanishes y) : x < 0.0 := by
  rcases hy with hnan | hzero
  · have hnumber := isNaN_eq_false_iff.2 (le_refl_of_le (le_of_lt h)).2
    rw [hnan] at hnumber
    cases hnumber
  · exact lt_of_lt_of_le h (beq_iff.1 hzero).1

end Scalar

/-! ## Divisors of the methods -/

section Methods

variable {α : Type} [Scalar α] [LawfulArithmetic α]

theorem Secant.secantStep_total {p : Points α} (hp : ¬(p.fx == p.fLast) = true) :
    ∃ dx, secantStep p = .ok dx :=
  Scalar.quotient_total _ fun hzero => hp (LawfulArithmetic.beq_of_sub hzero)

namespace Brent

variable {b : Bracket α} {i : Iterate α} {accuracy half tol : α}

omit [LawfulArithmetic α] in
theorem interpolate_total (hmin : ¬(b.fMin == 0.0) = true) (hmax : ¬(b.fMax == 0.0) = true) :
    ∃ pq, interpolate b i half = .ok pq := by
  refine bind_total (Scalar.quotient_total _ hmin) fun t => ?_
  split
  · exact ⟨_, rfl⟩
  · refine bind_total (Scalar.quotient_total _ hmax) fun q => ?_
    exact bind_total (Scalar.quotient_total _ hmax) fun r => ⟨_, rfl⟩

/-- The test that a step is trusted is strict, so it rules out that its divisor is zero. -/
theorem isTrusted_off_zero {p q lastStep : α}
    (h : isTrusted (Scalar.abs p) q half tol lastStep = true) : ¬(q == 0.0) = true := by
  intro hq
  have hlimit : Scalar.Vanishes
      (Scalar.minOf (3.0 * half * q - Scalar.abs (tol * q)) (Scalar.abs (lastStep * q))) := by
    refine Scalar.vanishes_minOf (Scalar.vanishes_sub ?_ ?_) ?_
    · exact Scalar.vanishes_mul hq
    · exact Scalar.vanishes_abs (Scalar.vanishes_mul hq)
    · exact Scalar.vanishes_abs (Scalar.vanishes_mul hq)
  exact LawfulArithmetic.twice_abs (Scalar.lt_zero_of_lt_vanishes (of_decide_eq_true h) hlimit)

/-- A value that misses the accuracy is farther from zero than a zero is, so an arranged contrapoint has
no value of zero. -/
theorem contrapoint_off_zero (haccuracy : 0.0 ≤ accuracy) (hmiss : ¬Scalar.abs i.fx ≤ accuracy)
    (hordered : ¬Scalar.abs b.fMax < Scalar.abs i.fx) (hfx : i.fx ≤ i.fx) :
    ¬(b.fMax == 0.0) = true := by
  intro hzero
  have hmax : Scalar.abs b.fMax ≤ 0.0 := Scalar.abs_le_zero hzero
  have hle : Scalar.abs i.fx ≤ Scalar.abs b.fMax :=
    Scalar.not_lt (Scalar.le_refl_of_le hmax).1 (Scalar.abs_le_abs_self hfx) hordered
  exact hmiss (Scalar.le_trans hle (Scalar.le_trans hmax haccuracy))

theorem chooseStep_total (haccuracy : 0.0 ≤ accuracy) (hmiss : ¬Scalar.abs i.fx ≤ accuracy)
    (hordered : ¬Scalar.abs b.fMax < Scalar.abs i.fx) :
    ∃ steps, chooseStep b i half tol = .ok steps := by
  unfold chooseStep
  split
  · next hinterpolates =>
    have hlt : Scalar.abs i.fx < Scalar.abs b.fMin := hinterpolates.2
    have hfx : i.fx ≤ i.fx := Scalar.number_of_abs (Scalar.le_refl_of_le (Scalar.le_of_lt hlt)).1
    have hmin : ¬(b.fMin == 0.0) = true := by
      intro hzero
      have hneg := Scalar.lt_of_lt_of_le hlt (Scalar.abs_le_zero hzero)
      exact (Scalar.lt_iff.1 hneg).2 (Scalar.zero_le_abs hfx)
    have hmax := contrapoint_off_zero haccuracy hmiss hordered hfx
    refine bind_total (interpolate_total hmin hmax) fun (p, q) => ?_
    obtain ⟨q', hq'⟩ : ∃ q' : α, q' = if 0.0 < p then -q else q := ⟨_, rfl⟩
    simp only [← hq']
    split
    · next htrusted =>
      exact bind_total (Scalar.quotient_total _ (isTrusted_off_zero htrusted)) fun step => ⟨_, rfl⟩
    · exact ⟨_, rfl⟩
  · exact ⟨_, rfl⟩

end Brent

end Methods

/-! ## The reals -/

namespace Scalar

theorem real_beq_zero {x : ℝ} : (x == 0.0) = true ↔ x = 0 := by
  norm_num

theorem vanishes_iff {x : ℝ} : Vanishes x ↔ x = 0 := by
  simp [Vanishes, isNaN, real_zero]

end Scalar

instance : LawfulArithmetic ℝ where
  beq_of_sub := by
    intro a b h
    rw [Scalar.real_beq_zero, sub_eq_zero] at h
    rw [Scalar.real_beq, h, decide_eq_true rfl]
  vanishes_sub := by
    intro a b ha hb
    rw [Scalar.vanishes_iff] at ha hb ⊢
    rw [ha, hb, sub_zero]
  vanishes_mul := by
    intro a b hb
    rw [Scalar.real_beq_zero] at hb
    rw [Scalar.vanishes_iff, hb, mul_zero]
  isNaN_abs := by
    intro a ha
    simp [Scalar.isNaN] at ha
  twice_abs := by
    intro a
    norm_num

end RootSearch
