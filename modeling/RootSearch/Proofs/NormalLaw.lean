import Mathlib
import RootSearch.Proofs.Reals
/-!
# The normal distribution over the reals

The standard normal distribution function has the standard normal density as its derivative, and it is
symmetric. Claims about prices that need no more than one of the two are made for every function in the
place of the distribution function that has it.
-/

namespace RootSearch

open MeasureTheory ProbabilityTheory

/-- The reals with `N` in the place of the normal distribution function. -/
@[reducible] noncomputable def AnalyticScalar.withCdf (N : ℝ → ℝ) : AnalyticScalar ℝ where
  exp := Real.exp
  log := Real.log
  pow := (· ^ ·)
  pi := Real.pi
  normalCdf := N

/-- The standard normal density. -/
noncomputable def density (x : ℝ) : ℝ := Real.exp (-(x * x) / 2.0) / √(2.0 * Real.pi)

theorem density_eq (x : ℝ) : density x = Real.exp (-(x ^ 2) / 2) / √(2 * Real.pi) := by
  have htwo : (2.0 : ℝ) = 2 := by norm_num
  rw [density, htwo, sq]

theorem density_pos (x : ℝ) : 0 < density x := by
  rw [density_eq]
  positivity

theorem density_neg (x : ℝ) : density (-x) = density x := by
  rw [density_eq, neg_sq, density_eq]

theorem continuous_density : Continuous density := by
  rw [funext density_eq]
  fun_prop

theorem normalPdf_eq (N : ℝ → ℝ) (x : ℝ) : @AnalyticScalar.normalPdf ℝ (.withCdf N) x = density x := rfl

theorem gaussianPDFReal_eq (x : ℝ) : gaussianPDFReal 0 1 x = density x := by
  rw [gaussianPDFReal, density_eq]
  simp
  ring

theorem normalCdf_eq_integral (x : ℝ) :
    AnalyticScalar.normalCdf x = ∫ t in Set.Iic x, density t := by
  have hmeasure : (gaussianReal 0 1).real (Set.Iic x) = ∫ t in Set.Iic x, gaussianPDFReal 0 1 t := by
    rw [measureReal_def, gaussianReal_apply_eq_integral 0 one_ne_zero, ENNReal.toReal_ofReal]
    exact integral_nonneg fun t => gaussianPDFReal_nonneg 0 1 t
  simp only [gaussianPDFReal_eq] at hmeasure
  exact (cdf_eq_real _ x).trans hmeasure

theorem integrable_density : Integrable density :=
  funext gaussianPDFReal_eq ▸ integrable_gaussianPDFReal 0 1

theorem integral_density : ∫ t, density t = 1 :=
  funext gaussianPDFReal_eq ▸ integral_gaussianPDFReal_eq_one 0 one_ne_zero

/-- The distribution function is an integral of the density, so this is its derivative. -/
theorem hasDerivAt_normalCdf (x : ℝ) : HasDerivAt (AnalyticScalar.normalCdf : ℝ → ℝ) (density x) x := by
  have hsplit : (AnalyticScalar.normalCdf : ℝ → ℝ) =
      fun y => AnalyticScalar.normalCdf (0 : ℝ) + ∫ t in (0 : ℝ)..y, density t := by
    funext y
    rw [normalCdf_eq_integral, normalCdf_eq_integral, ← intervalIntegral.integral_Iic_sub_Iic
      integrable_density.integrableOn integrable_density.integrableOn]
    ring
  rw [hsplit]
  exact (continuous_density.integral_hasStrictDerivAt 0 x).hasDerivAt.const_add _

/-- The density is the same on both sides of zero. -/
theorem normalCdf_neg (x : ℝ) :
    AnalyticScalar.normalCdf (-x) = 1 - AnalyticScalar.normalCdf x := by
  have htail : ∫ t in Set.Iic (-x), density t = ∫ t in Set.Ioi x, density t := by
    have hmirror := integral_comp_neg_Iic (-x) density
    simpa only [density_neg, neg_neg] using hmirror
  have hwhole := intervalIntegral.integral_Iic_add_Ioi
    (integrable_density.integrableOn (s := Set.Iic x)) integrable_density.integrableOn
  rw [integral_density] at hwhole
  rw [normalCdf_eq_integral, normalCdf_eq_integral, htail]
  linarith

end RootSearch
