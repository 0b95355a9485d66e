import RootSearch.Proofs.DoubleHalf
/-!
# What is not a number

An operation on something that is not a number gives something that is not a number, and so does the
normal distribution function. No comparison holds of it.
-/

namespace RootSearch.Double

open Float.Model (UnpackedFloat Format)

variable {x y : Double}

theorem scalar_isNaN_iff : Scalar.isNaN x = true ↔ x.parts = .notANumber := by
  rw [← Bool.not_eq_false, Scalar.isNaN_eq_false_iff, le_self_iff, not_not]

theorem isNaN_iff : x.isNaN = true ↔ x.parts = .notANumber := UnpackedFloat.isNaN_iff

theorem isNaN_nan : (0.0 / 0.0 : Double).isNaN = true := by
  decide +kernel

theorem parts_nan : (0.0 / 0.0 : Double).parts = .notANumber := isNaN_iff.1 isNaN_nan

theorem kept_notANumber : kept .notANumber = .notANumber := by
  rw [← parts_nan, kept_parts]

/-! ## Operations -/

section Operations

variable (h : x.parts = .notANumber ∨ y.parts = .notANumber)

include h

theorem sub_undefined : (x - y).parts = .notANumber := by
  have hparts : UnpackedFloat.sub Format.binary64 x.parts y.parts = .notANumber := by
    rcases h with h | h <;> rw [h]
    · rfl
    · cases x.parts <;> rfl
  rw [parts_sub, hparts]
  exact kept_notANumber

theorem mul_undefined : (x * y).parts = .notANumber := by
  have hparts : UnpackedFloat.mul Format.binary64 x.parts y.parts = .notANumber := by
    rcases h with h | h <;> rw [h]
    · rfl
    · cases x.parts <;> rfl
  rw [parts_mul, hparts]
  exact kept_notANumber

theorem div_undefined : (x / y).parts = .notANumber := by
  have hparts : UnpackedFloat.div Format.binary64 x.parts y.parts = .notANumber := by
    rcases h with h | h <;> rw [h]
    · rfl
    · cases x.parts <;> rfl
  rw [parts_div, hparts]
  exact kept_notANumber

theorem not_lt_undefined : ¬x < y := by
  rw [lt_iff]
  rintro ⟨hx, hy, -⟩
  exact h.elim hx hy

end Operations

theorem abs_undefined (h : x.parts = .notANumber) : (Scalar.abs x).parts = .notANumber := by
  rw [parts_abs, h]
  rfl

/-- The distribution function takes what is not a number for the outcome. -/
theorem normalCdf_undefined (h : x.parts = .notANumber) :
    (AnalyticScalar.normalCdf x).parts = .notANumber := by
  have hscaled : (x * 0.70710678118654752440 : Double).parts = .notANumber := mul_undefined (.inl h)
  have hnear : ¬((x * 0.70710678118654752440 : Double).value.abs < 1.0) :=
    not_lt_undefined (x := Scalar.abs (x * 0.70710678118654752440)) (y := 1.0)
      (.inl (abs_undefined hscaled))
  have hnan : (x * 0.70710678118654752440 : Double).value.isNaN = true := isNaN_iff.2 hscaled
  have hcdf : Normal.cdf x.value = (x * 0.70710678118654752440 : Double).value := by
    show (if (x * 0.70710678118654752440 : Double).value.abs < 1.0 then _
      else if (x * 0.70710678118654752440 : Double).value.isNaN = true then _ else _) = _
    rw [if_neg hnear, if_pos hnan]
    rfl
  show (Normal.cdf x.value).toModel.unpack = .notANumber
  rw [hcdf]
  exact hscaled

end RootSearch.Double
