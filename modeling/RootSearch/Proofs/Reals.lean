import Mathlib
import RootSearch.Bracket
import RootSearch.Proofs.Order
/-!
# The reals as scalars

Over the reals a method is the mathematical one: nothing is rounded, there is one zero, everything
is a number, and no point lies at infinity.
-/

namespace RootSearch

noncomputable instance : Scalar ℝ where
  add := (· + ·)
  sub := (· - ·)
  mul := (· * ·)
  div := (· / ·)
  neg := (- ·)
  lt := (· < ·)
  le := (· ≤ ·)
  beq x y := decide (x = y)
  ofScientific m negative e := OfScientific.ofScientific m negative e
  decidableLT _ _ := Classical.propDecidable _
  decidableLE _ _ := Classical.propDecidable _
  abs x := |x|
  sqrt := Real.sqrt
  copySign magnitude sign := if sign < 0 then -|magnitude| else |magnitude|
  signBit x := decide (x < 0)
  ofInt? n := some n
  epsilon := 1 / 2 ^ 52
  infinity? := none

namespace Scalar

theorem real_zero : (0.0 : ℝ) = 0 := by
  norm_num

theorem real_one : (1.0 : ℝ) = 1 := by
  norm_num

@[simp] theorem real_abs (x : ℝ) : Scalar.abs x = |x| := rfl

@[simp] theorem real_beq (x y : ℝ) : (x == y) = decide (x = y) := rfl

theorem real_copySign (x y : ℝ) : copySign x y = if y < 0 then -|x| else |x| := rfl

theorem minOf_le_left (x y : ℝ) : minOf x y ≤ x := by
  unfold minOf
  split
  · next h => exact h.le
  · exact le_refl x

theorem minOf_le_right (x y : ℝ) : minOf x y ≤ y := by
  unfold minOf
  split
  · exact le_refl y
  · next h => exact le_of_not_gt h

theorem real_epsilon : (epsilon : ℝ) = 1 / 2 ^ 52 := rfl

theorem real_epsilon_pos : (0 : ℝ) < epsilon := by
  rw [real_epsilon]
  norm_num

theorem real_resolution (x : ℝ) : resolution x = 2 * epsilon * |x| + 1 / 2 * epsilon := by
  unfold resolution
  norm_num

theorem resolution_pos (x : ℝ) : 0 < resolution x := by
  have heps := real_epsilon_pos
  have habs := abs_nonneg x
  rw [real_resolution]
  positivity

end Scalar

/-- The functions that prices need, as they are defined in analysis. -/
noncomputable instance : AnalyticScalar ℝ where
  exp := Real.exp
  log := Real.log
  pow := (· ^ ·)
  pi := Real.pi
  normalCdf := ProbabilityTheory.cdf (ProbabilityTheory.gaussianReal 0 1)

instance : LawfulScalar ℝ where
  le_trans := le_trans
  le_refl_of_le _ := ⟨le_refl _, le_refl _⟩
  le_total _ _ := le_total _ _
  lt_iff := lt_iff_le_not_ge
  beq_iff := by
    intro a b
    rw [Scalar.real_beq, decide_eq_true_iff, le_antisymm_iff]
  le_abs _ := le_abs_self _
  zero_le_abs := by
    intro a _
    norm_num
  abs_le_zero := by
    intro a h
    norm_num at h ⊢
    exact h
  epsilon_pos := by
    norm_num
    exact Scalar.real_epsilon_pos

theorem Scalar.real_maxNaN (x y : ℝ) : Scalar.maxNaN x y = max x y := by
  have hnan (z : ℝ) : Scalar.isNaN z = false := Scalar.isNaN_eq_false_iff.2 (le_refl z)
  rw [Scalar.maxNaN, hnan, hnan, if_neg Bool.false_ne_true, if_neg Bool.false_ne_true]
  unfold Scalar.maxOf
  split
  · next h => exact (max_eq_right h.le).symm
  · next h => exact (max_eq_left (le_of_not_gt h)).symm

end RootSearch
