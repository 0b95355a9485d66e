import RootSearch.Proofs.Divisors
import RootSearch.Proofs.DoubleNaN
import RootSearch.Proofs.DoubleProducts
/-!
# Differences of doubles

All doubles are multiples of the smallest of them. Two that are not equal are at least that far apart, so
their difference is not rounded to zero. This is the law of arithmetic that needs an argument; the others
say what becomes of zeros.
-/

namespace RootSearch.Double

open Float.Model (UnpackedFloat Format totalExponent)
open Float.Model.UnpackedFloat (Sign)

/-! ## Rounding a difference -/

/-- A multiple of the smallest double keeps its sign when it is rounded. -/
theorem side_kept_round (s : Sign) {m : ℕ} (hm : 0 < m) {e : ℤ} (he : -1074 ≤ e) :
    side (kept (UnpackedFloat.round Format.binary64 s m e)) = some s := by
  obtain ⟨k, hk⟩ : ∃ k, k = (e - Format.binary64.targetExponent (totalExponent m e)).toNat := ⟨_, rfl⟩
  have hround : UnpackedFloat.round Format.binary64 s m e =
      UnpackedFloat.roundWithAccuracy Format.binary64 s (m <<< k) (e - k) .exact := by
    rw [hk]
    rfl
  have hvalue : ((m <<< k : ℕ) : ℚ) * 2 ^ (e - k) = m * 2 ^ e := by
    rw [Nat.shiftLeft_eq, zpow_sub₀ (by norm_num), zpow_natCast]
    push_cast
    field_simp
  have hlarge : ¬((m <<< k : ℕ) : ℚ) * 2 ^ (e - k) ≤ 2 ^ (-1075 : ℤ) := by
    rw [hvalue, not_le]
    have hone : (1 : ℚ) ≤ m := by exact_mod_cast hm
    calc (2 : ℚ) ^ (-1075 : ℤ) < 2 ^ e := zpow_lt_zpow_right₀ (by norm_num) (by omega)
      _ ≤ m * 2 ^ e := le_mul_of_one_le_left (by positivity) hone
  have hshifted : 0 < m <<< k := by
    rw [Nat.shiftLeft_eq]
    positivity
  rw [hround]
  rcases round_cases s hshifted (e - k) with ⟨hsmall, -⟩ | ⟨-, M, E, hM, hfinite, hlog, hE⟩
  · exact absurd hsmall hlarge
  · rw [hfinite]
    exact side_kept hlog hE

theorem side_kept_normalize {n e : ℤ} (hn : n ≠ 0) (he : -1074 ≤ e) (s : Sign) :
    ∃ t, side (kept (UnpackedFloat.normalize Format.binary64 n e s)) = some t := by
  rcases lt_or_gt_of_ne hn with hneg | hpos
  · have hmantissa : 0 < (-n).toNat := by omega
    simp only [UnpackedFloat.normalize, compare_lt_iff_lt.2 hneg]
    exact ⟨.negative, side_kept_round .negative hmantissa he⟩
  · have hmantissa : 0 < n.toNat := by omega
    simp only [UnpackedFloat.normalize, compare_gt_iff_gt.2 hpos]
    exact ⟨.positive, side_kept_round .positive hmantissa he⟩

/-! ## Equal magnitudes -/

/-- A mantissa and an exponent as doubles have them: as many bits as there are, or the least exponent. -/
structure Canonical (m : ℕ) (e : ℤ) : Prop where
  exponent : -1074 ≤ e
  bits : m.log2 ≤ 52
  tight : e = -1074 ∨ m.log2 = 52

theorem canonical_of_parts {x : Double} {s : Sign} {m : ℕ} {e : ℤ} {hm : 0 < m}
    (h : x.parts = .finite s m e hm) : Canonical m e := by
  rcases unpack_finite h with ⟨he, hlog⟩ | ⟨hlog, he, -⟩
  · exact ⟨he.ge, hlog.le, .inl he⟩
  · exact ⟨he, hlog.le, .inr hlog⟩

/-- A magnitude with a higher exponent is larger. -/
theorem Canonical.lt_shift {m n : ℕ} {e e' : ℤ} (hm : Canonical m e) (hn : Canonical n e')
    (h : e < e') : m < n <<< (e' - e).toNat := by
  have hlog : n.log2 = 52 := hn.tight.resolve_left (by have := hm.exponent; omega)
  have hpos : n ≠ 0 := by
    rintro rfl
    simp at hlog
  have hlow : 2 ^ 52 ≤ n := hlog ▸ Nat.log2_self_le hpos
  have hstep : 2 ^ 1 ≤ 2 ^ (e' - e).toNat := Nat.pow_le_pow_right (by decide) (by omega)
  have hbits : m < 2 ^ 53 := lt_of_lt_of_le Nat.lt_log2_self
    (Nat.pow_le_pow_right (by decide) (Nat.succ_le_succ hm.bits))
  calc m < 2 ^ 52 * 2 ^ 1 := hbits
    _ ≤ n * 2 ^ (e' - e).toNat := Nat.mul_le_mul hlow hstep
    _ = n <<< (e' - e).toNat := (Nat.shiftLeft_eq _ _).symm

theorem Canonical.eq_of_shifted_eq {m n : ℕ} {e e' : ℤ} (hm : Canonical m e) (hn : Canonical n e')
    (h : m <<< (e - min e e').toNat = n <<< (e' - min e e').toNat) : m = n ∧ e = e' := by
  rcases lt_trichotomy e e' with hlt | rfl | hlt
  · have := hm.lt_shift hn hlt
    rw [min_eq_left hlt.le, sub_self] at h
    exact absurd h this.ne
  · simpa using h
  · have := hn.lt_shift hm hlt
    rw [min_eq_right hlt.le, sub_self] at h
    exact absurd h this.ne'

/-! ## Differences that are zero -/

theorem eq_of_apply_eq {s t : Sign} {m n : ℕ} (hm : 0 < m) (h : s.apply m = t.apply n) :
    s = t ∧ m = n := by
  cases s <;> cases t <;> simp [Sign.apply] at h ⊢ <;> omega

/-- Of two finite numbers off zero only equals have no difference. -/
theorem side_sub_finite {x y : Double} {s t : Sign} {m n : ℕ} {e e' : ℤ} {hm : 0 < m} {hn : 0 < n}
    (hx : x.parts = .finite s m e hm) (hy : y.parts = .finite t n e' hn) (hne : x.parts ≠ y.parts) :
    ∃ u, side (x - y).parts = some u := by
  have hcx := canonical_of_parts hx
  have hcy := canonical_of_parts hy
  have hdiff : s.apply (m <<< (e - min e e').toNat) - t.apply (n <<< (e' - min e e').toNat) ≠ 0 := by
    intro hzero
    have hpos : 0 < m <<< (e - min e e').toNat := by
      rw [Nat.shiftLeft_eq]
      positivity
    obtain ⟨hsign, hshifted⟩ := eq_of_apply_eq hpos (sub_eq_zero.1 hzero)
    obtain ⟨hmantissa, hexponent⟩ := hcx.eq_of_shifted_eq hcy hshifted
    subst hsign hmantissa hexponent
    exact hne (hx.trans hy.symm)
  rw [parts_sub, hx, hy]
  exact side_kept_normalize hdiff (le_min hcx.exponent hcy.exponent) .positive

/-- What is off zero and need not be rounded is not kept as zero. -/
theorem kept_ne_zero {u : UnpackedFloat} (hzero : ∀ s, u ≠ .zero s)
    (hcanonical : ∀ s m e hm, u = .finite s m e hm → Canonical m e) (s : Sign) : kept u ≠ .zero s := by
  have hside {w : UnpackedFloat} {v : Sign} (h : side w = some v) : w ≠ .zero s := by
    rintro rfl
    cases h
  rcases u with v | _ | v | ⟨v, m, e, hm⟩
  · exact hside (side_kept_infinity v)
  · rw [kept_notANumber]
    exact nofun
  · exact absurd rfl (hzero v)
  · obtain ⟨hexponent, hbits, -⟩ := hcanonical v m e hm rfl
    exact hside (side_kept hbits hexponent)

/-- Only equals have a difference of zero. -/
theorem beq_of_sub_zero {x y : Double} {s : Sign} (h : (x - y).parts = .zero s) : (x == y) = true := by
  -- all differences but those of two zeros and of two finite numbers are infinite, one of the two, or none
  have hspecial (hzero : ∀ t, UnpackedFloat.sub Format.binary64 x.parts y.parts ≠ .zero t)
      (hcanonical : ∀ t m e hm, UnpackedFloat.sub Format.binary64 x.parts y.parts = .finite t m e hm →
        Canonical m e) : (x == y) = true :=
    absurd h (kept_ne_zero hzero hcanonical s)
  have hcx (t m e hm) (hx : x.parts = .finite t m e hm) : Canonical m e := canonical_of_parts hx
  have hcy (t m e hm) (hy : y.parts = .finite t m e hm) : Canonical m e := canonical_of_parts hy
  rcases hx : x.parts with a | _ | a | ⟨a, m, e, hm⟩ <;>
    rcases hy : y.parts with b | _ | b | ⟨b, n, e', hn⟩ <;>
    rw [hx, hy] at hspecial
  case zero.zero => exact beq_iff.2 ⟨by simp [hx], by simp [hy], by simp [hx, hy, rank]⟩
  case finite.finite =>
    by_cases heq : x.parts = y.parts
    · exact beq_of_parts_eq (by simp [hy]) heq
    · obtain ⟨v, hside⟩ := side_sub_finite hx hy heq
      rw [h] at hside
      cases hside
  case infinity.infinity =>
    refine hspecial (fun t => ?_) fun t m e hm => ?_ <;> cases a <;> cases b <;> intro hsub <;> cases hsub
  case zero.finite =>
    refine hspecial (fun t hsub => ?_) fun t m e hm hsub => ?_
    · cases hsub
    · cases hsub
      exact hcy _ _ _ _ hy
  case finite.zero =>
    refine hspecial (fun t hsub => ?_) fun t m e hm hsub => ?_
    · cases hsub
    · cases hsub
      exact hcx _ _ _ _ hx
  all_goals
    refine hspecial (fun t hsub => ?_) fun t m e hm hsub => ?_
    · cases hsub
    · cases hsub

/-! ## The laws of arithmetic -/

theorem beq_zero_iff {x : Double} : (x == 0.0) = true ↔ ∃ s, x.parts = .zero s := by
  rw [beq_iff, parts_zero]
  constructor
  · rintro ⟨hx, -, hrank⟩
    exact eq_zero_of_rank_eq hx hrank
  · rintro ⟨s, hx⟩
    rw [hx]
    exact ⟨by simp, by simp, rfl⟩

theorem vanishes_iff {x : Double} :
    Scalar.Vanishes x ↔ x.parts = .notANumber ∨ ∃ s, x.parts = .zero s := by
  unfold Scalar.Vanishes
  rw [scalar_isNaN_iff, beq_zero_iff]

theorem mul_zero_vanishes {x y : Double} {s : Sign} (hy : y.parts = .zero s) :
    (x * y).parts = .notANumber ∨ ∃ t, (x * y).parts = .zero t := by
  rw [parts_mul, hy]
  rcases x.parts with t | _ | t | ⟨t, m, e, hm⟩
  · exact .inl kept_notANumber
  · exact .inl kept_notANumber
  · exact .inr ⟨t * s, kept_zero _⟩
  · exact .inr ⟨t * s, kept_zero _⟩

theorem abs_not_neg (x : Double) : ¬Scalar.abs x < 0.0 := by
  rw [lt_zero_iff, parts_abs]
  rcases x.parts with s | _ | s | ⟨s, m, e, hm⟩ <;> exact nofun

instance : LawfulArithmetic Double where
  beq_of_sub h := by
    obtain ⟨s, hs⟩ := beq_zero_iff.1 h
    exact beq_of_sub_zero hs
  vanishes_sub := by
    intro x y hx hy
    rw [vanishes_iff] at hx hy ⊢
    rcases hx with hx | ⟨s, hx⟩
    · exact .inl (sub_undefined (.inl hx))
    · rcases hy with hy | ⟨t, hy⟩
      · exact .inl (sub_undefined (.inr hy))
      · exact .inr (parts_sub_zeros hx hy)
  vanishes_mul := by
    intro x y hy
    obtain ⟨s, hy⟩ := beq_zero_iff.1 hy
    exact vanishes_iff.2 (mul_zero_vanishes hy)
  isNaN_abs := by
    intro x hx
    rw [scalar_isNaN_iff] at hx ⊢
    exact abs_undefined hx
  twice_abs := by
    intro x hneg
    -- two is positive, so a product below zero would have a magnitude below zero
    rcases opposite_of_mul_lt_zero hneg with ⟨htwo, -⟩ | ⟨-, hx⟩
    · rw [lt_zero_iff, parts_two] at htwo
      cases htwo
    · exact abs_not_neg x hx

end RootSearch.Double
