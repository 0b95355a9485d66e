import RootSearch.Proofs.DoubleSigns
/-!
# The sign of a product of doubles

The product of two doubles has the sign of the exact product, unless that is so close to zero that it
is rounded to zero: no farther than half of the smallest double.
-/

namespace RootSearch.Double

open Float.Model (UnpackedFloat Format totalExponent)
open Float.Model.UnpackedFloat (Sign packComponents packedInfinity ExtendedMantissa Accuracy)

/-! ## Rounding a mantissa -/

/-- A shift leaves the bits before the point, the first bit after it, and whether any other is set. -/
theorem shift_exact (m k : ℕ) : (⟨m, false, false⟩ : ExtendedMantissa) >>> (k + 1) =
    ⟨m / 2 ^ (k + 1), m / 2 ^ k % 2 != 0, m % 2 ^ k != 0⟩ := by
  induction k with
  | zero => simp [HShiftRight.hShiftRight, Nat.repeat, ExtendedMantissa.shiftRightOne, Nat.mod_one]
  | succ k ih =>
    have hstep : (⟨m, false, false⟩ : ExtendedMantissa) >>> (k + 2) =
        ((⟨m, false, false⟩ : ExtendedMantissa) >>> (k + 1)).shiftRightOne := rfl
    have hdiv : m / 2 ^ (k + 1) / 2 = m / 2 ^ (k + 2) := by
      rw [Nat.div_div_eq_div_mul, ← Nat.pow_succ]
    have hsticky : (m / 2 ^ k % 2 != 0 || m % 2 ^ k != 0) = (m % 2 ^ (k + 1) != 0) := by
      rw [Nat.mod_pow_succ, Bool.eq_iff_iff]
      have hpos : 0 < 2 ^ k := by positivity
      simp only [Bool.or_eq_true, bne_iff_ne, ne_eq, Nat.add_eq_zero_iff, Nat.mul_eq_zero]
      omega
    rw [hstep, ih]
    simp only [ExtendedMantissa.shiftRightOne, hdiv, hsticky]

theorem shift_mantissa (m k : ℕ) :
    ((⟨m, false, false⟩ : ExtendedMantissa) >>> k).mantissa = m / 2 ^ k := by
  cases k with
  | zero => exact (Nat.div_one m).symm
  | succ k => rw [shift_exact]

theorem roundedMantissa_eq_zero {em : ExtendedMantissa} :
    em.roundedMantissa = 0 ↔ em.mantissa = 0 ∧ ¬(em.roundBit = true ∧ em.stickyBit = true) := by
  obtain ⟨m, r, t⟩ := em
  cases r <;> cases t <;>
    simp [ExtendedMantissa.roundedMantissa, ExtendedMantissa.accuracy, Accuracy.roundToNearestEven]
  omega

/-- What is rounded to zero is at most half of the unit that is kept: a tie goes to zero. -/
theorem roundedMantissa_shift_eq_zero {m : ℕ} (hm : 0 < m) (k : ℕ) :
    ((⟨m, false, false⟩ : ExtendedMantissa) >>> k).roundedMantissa = 0 ↔ 2 * m ≤ 2 ^ k := by
  cases k with
  | zero =>
    have h : ((⟨m, false, false⟩ : ExtendedMantissa) >>> 0).roundedMantissa = m := rfl
    rw [h]
    omega
  | succ k =>
    have hsplit := Nat.div_add_mod m (2 ^ k)
    have hlt := Nat.mod_lt m (show 0 < 2 ^ k by positivity)
    have hdiv : m / 2 ^ (k + 1) = m / 2 ^ k / 2 := by rw [Nat.div_div_eq_div_mul, ← Nat.pow_succ]
    rw [shift_exact, roundedMantissa_eq_zero, hdiv, Nat.pow_succ]
    simp only [bne_iff_ne]
    -- the units in the mantissa: none, one, or more than are rounded away
    rcases hunits : m / 2 ^ k with _ | _ | units
    · rw [hunits, Nat.mul_zero] at hsplit
      simp
      omega
    · rw [hunits, Nat.mul_one] at hsplit
      simp
      omega
    · rw [hunits] at hsplit
      have hmany : 2 ^ k * 2 ≤ 2 ^ k * (units + 1 + 1) := Nat.mul_le_mul_left _ (by omega)
      constructor
      · intro h
        omega
      · intro h
        omega

/-! ## Rounding a number -/

/-- The exponent of the unit that is kept of a number. -/
theorem targetExponent_eq (m : ℕ) (e : ℤ) :
    Format.binary64.targetExponent (totalExponent m e) = max (m.log2 + e - 52) (-1074) := by
  simp only [Format.targetExponent, totalExponent, Format.mantissaBits, Format.minExponent]
  norm_num
  omega

theorem shiftToTarget_eq (m : ℕ) (e : ℤ) :
    UnpackedFloat.shiftToTargetExponent Format.binary64 m e .exact =
      let k := (max (m.log2 + e - 52) (-1074) - e).toNat
      ((⟨m, false, false⟩ : ExtendedMantissa) >>> k, e + k) := by
  rw [UnpackedFloat.shiftToTargetExponent, targetExponent_eq]
  rfl

/-- A mantissa at an exponent that can be kept loses only what is beyond its leading 53 bits. -/
theorem shift_kept {r : ℕ} (hr : 0 < r) {e : ℤ} (he : -1074 ≤ e) :
    ∃ M E, UnpackedFloat.shiftToTargetExponent Format.binary64 r e .exact = (M, E) ∧
      0 < M.mantissa ∧ M.mantissa.log2 ≤ 52 ∧ -1074 ≤ E := by
  have hk : (max (r.log2 + e - 52) (-1074) - e).toNat = r.log2 - 52 := by omega
  refine ⟨_, _, shiftToTarget_eq r e, ?_⟩
  rw [hk, shift_mantissa]
  have hlow : 2 ^ r.log2 ≤ r := Nat.log2_self_le hr.ne'
  have hhigh : r < 2 ^ (r.log2 + 1) := Nat.lt_log2_self
  have hpos : 0 < r / 2 ^ (r.log2 - 52) := by
    refine Nat.div_pos (le_trans ?_ hlow) (by positivity)
    exact Nat.pow_le_pow_right (by decide) (by omega)
  refine ⟨hpos, Nat.lt_succ_iff.1 ((Nat.log2_lt hpos.ne').2 ?_), by omega⟩
  rw [Nat.div_lt_iff_lt_mul (by positivity), ← Nat.pow_add]
  exact lt_of_lt_of_le hhigh (Nat.pow_le_pow_right (by decide) (by omega))

/-- The numbers that are rounded to zero, for any exponent that they are given at. -/
theorem two_mul_le_iff {m : ℕ} (hm : 0 < m) (e : ℤ) :
    2 * m ≤ 2 ^ (max (m.log2 + e - 52) (-1074) - e).toNat ↔ (m : ℚ) * 2 ^ e ≤ 2 ^ (-1075 : ℤ) := by
  have hlow : 2 ^ m.log2 ≤ m := Nat.log2_self_le hm.ne'
  by_cases hsmall : m.log2 + e ≤ -1075
  · obtain ⟨k, hk⟩ : ∃ k : ℕ, (k : ℤ) = -1074 - e := ⟨(-1074 - e).toNat, by omega⟩
    have htoNat : (max (m.log2 + e - 52) (-1074) - e).toNat = k := by omega
    have hunit : (0 : ℚ) < 2 ^ (e - 1) := by positivity
    have hleft : ((2 * m : ℕ) : ℚ) * 2 ^ (e - 1) = m * 2 ^ e := by
      rw [zpow_sub_one₀ (by norm_num)]
      push_cast
      ring
    have hright : ((2 ^ k : ℕ) : ℚ) * 2 ^ (e - 1) = 2 ^ (-1075 : ℤ) := by
      have hexponent : (k : ℤ) + (e - 1) = -1075 := by omega
      rw [Nat.cast_pow, Nat.cast_ofNat, ← zpow_natCast, ← zpow_add₀ (by norm_num), hexponent]
    have hcast : 2 * m ≤ 2 ^ k ↔ ((2 * m : ℕ) : ℚ) ≤ ((2 ^ k : ℕ) : ℚ) := Nat.cast_le.symm
    rw [htoNat, hcast, ← mul_le_mul_iff_left₀ hunit, hleft, hright]
  · have hk : 2 ^ (max (m.log2 + e - 52) (-1074) - e).toNat ≤ 2 ^ m.log2 :=
      Nat.pow_le_pow_right (by decide) (by omega)
    have hlow' : (2 : ℚ) ^ (m.log2 : ℤ) ≤ m := by
      rw [zpow_natCast]
      exact_mod_cast hlow
    have hlarge : (2 : ℚ) ^ (-1075 : ℤ) < m * 2 ^ e := by
      calc (2 : ℚ) ^ (-1075 : ℤ) < 2 ^ (m.log2 + e) := zpow_lt_zpow_right₀ (by norm_num) (by omega)
        _ = 2 ^ (m.log2 : ℤ) * 2 ^ e := zpow_add₀ (by norm_num) _ _
        _ ≤ m * 2 ^ e := mul_le_mul_of_nonneg_right hlow' (by positivity)
    constructor
    · intro h
      omega
    · intro h
      exact absurd h (not_le.2 hlarge)

/-- A number is rounded to zero if it is small enough, and otherwise to one that can be packed. -/
theorem round_cases (s : Sign) {m : ℕ} (hm : 0 < m) (e : ℤ) :
    (m : ℚ) * 2 ^ e ≤ 2 ^ (-1075 : ℤ) ∧
        UnpackedFloat.roundWithAccuracy Format.binary64 s m e .exact = .zero s ∨
      ¬(m : ℚ) * 2 ^ e ≤ 2 ^ (-1075 : ℤ) ∧ ∃ M E hM,
        UnpackedFloat.roundWithAccuracy Format.binary64 s m e .exact = .finite s M E hM ∧
        M.log2 ≤ 52 ∧ -1074 ≤ E := by
  obtain ⟨k, hk⟩ : ∃ k, k = (max (m.log2 + e - 52) (-1074) - e).toNat := ⟨_, rfl⟩
  obtain ⟨r, hr⟩ : ∃ r, r = ((⟨m, false, false⟩ : ExtendedMantissa) >>> k).roundedMantissa := ⟨_, rfl⟩
  have hfirst : UnpackedFloat.shiftToTargetExponent Format.binary64 m e .exact =
      ((⟨m, false, false⟩ : ExtendedMantissa) >>> k, e + k) := by
    rw [shiftToTarget_eq, hk]
  have hzero : r = 0 ↔ (m : ℚ) * 2 ^ e ≤ 2 ^ (-1075 : ℤ) := by
    rw [hr, roundedMantissa_shift_eq_zero hm, hk, two_mul_le_iff hm]
  simp only [UnpackedFloat.roundWithAccuracy, hfirst, ← hr]
  by_cases hsmall : r = 0
  · refine .inl ⟨hzero.1 hsmall, dif_pos ?_⟩
    rw [hsmall, shiftToTarget_eq, shift_mantissa, Nat.zero_div]
  · obtain ⟨M, E, hsecond, hpos, hlog, hE⟩ := shift_kept (Nat.pos_of_ne_zero hsmall)
      (show -1074 ≤ e + k by omega)
    refine .inr ⟨fun h => hsmall (hzero.2 h), M.mantissa, E, hpos, ?_, hlog, hE⟩
    simp only [hsecond]
    exact dif_neg hpos.ne'

/-! ## Packing -/

theorem side_kept_infinity (s : Sign) : side (kept (.infinity s)) = some s := by
  cases s <;> rfl

theorem kept_zero (s : Sign) : kept (.zero s) = .zero s := by
  cases s <;> rfl

/-- A subnormal number keeps its sign: its mantissa has no leading bit to lose. -/
theorem side_unpack_subnormal (s : Sign) {m : ℕ} (hm : 0 < m) (hlt : m < 2 ^ 52) :
    side (UnpackedFloat.unpack Format.binary64
      (packComponents Format.binary64 s 0#11 (BitVec.ofNat 52 m))) = some s := by
  have hmantissa : BitVec.ofNat 52 m ≠ 0#52 := by
    rw [ne_eq, ← BitVec.toNat_inj, BitVec.toNat_ofNat, Nat.mod_eq_of_lt hlt]
    simp
    omega
  simp only [UnpackedFloat.unpack, UnpackedFloat.unpackExponent_packComponents,
    UnpackedFloat.unpackMantissa_packComponents, UnpackedFloat.unpackSign_packComponents,
    Sign.ofBitVec_toBitVec]
  rw [if_neg (by decide), if_pos trivial, dif_neg hmantissa]
  rfl

/-- A finite number keeps its sign, also when it is too large and becomes infinite. -/
theorem side_kept {s : Sign} {m : ℕ} {e : ℤ} {hm : 0 < m} (hlog : m.log2 ≤ 52) (he : -1074 ≤ e) :
    side (kept (.finite s m e hm)) = some s := by
  by_cases hlarge : 972 ≤ e
  · have hpack : UnpackedFloat.pack Format.binary64 (.finite s m e hm) =
        UnpackedFloat.pack Format.binary64 (.infinity s) := by
      have hbiased : 2 ^ 11 ≤ (e + (1023 : ℕ) + (52 : ℕ)).toNat + 1 := by omega
      exact if_pos hbiased
    rw [kept, hpack]
    exact side_kept_infinity s
  · by_cases hnormal : m.log2 = 52
    · obtain ⟨k, hk, h⟩ := @kept_finite s m e hm hnormal he (by omega)
      rw [h]
      rfl
    · have hpack : UnpackedFloat.pack Format.binary64 (.finite s m e hm) =
          packComponents Format.binary64 s 0#11 (BitVec.ofNat 52 m) := by
        have hbiased : ¬2 ^ 11 ≤ (e + (1023 : ℕ) + (52 : ℕ)).toNat + 1 := by omega
        have hbits : ¬m.log2 + 1 = 1 + 52 := by omega
        exact (if_neg hbiased).trans (if_neg hbits)
      rw [kept, hpack]
      exact side_unpack_subnormal s hm ((Nat.log2_lt hm.ne').1 (by omega))

/-! ## Products -/

/-- The exact value of a finite double; zero for what is not finite. -/
def exact (x : Double) : ℚ :=
  match x.parts with
  | .finite s m e _ => s.apply m * 2 ^ e
  | _ => 0

/-- The exact product of two doubles is at most half of the smallest double from zero. -/
def Underflows (y z : Double) : Prop := |exact y * exact z| ≤ 2 ^ (-1075 : ℤ)

theorem isFinite_cases {x : Double} (h : x.isFinite = true) :
    (∃ s, x.parts = .zero s) ∨ ∃ s m e hm, x.parts = .finite s m e hm := by
  have hfinite : x.parts.isFinite = true := h
  rcases hparts : x.parts with _ | _ | s | ⟨s, m, e, hm⟩
  · rw [hparts] at hfinite
    cases hfinite
  · rw [hparts] at hfinite
    cases hfinite
  · exact .inl ⟨s, rfl⟩
  · exact .inr ⟨s, m, e, hm, rfl⟩

theorem abs_exact {x : Double} {s : Sign} {m : ℕ} {e : ℤ} {hm : 0 < m}
    (h : x.parts = .finite s m e hm) : |exact x| = m * 2 ^ e := by
  have hpos : (0 : ℚ) ≤ m * 2 ^ e := by positivity
  simp only [exact, h]
  cases s with
  | positive => exact abs_of_nonneg hpos
  | negative =>
    simp only [Sign.apply, Int.cast_neg, Int.cast_natCast, neg_mul, abs_neg]
    exact abs_of_nonneg hpos

/-- With a zero factor the exact product is zero, and so is the product. -/
theorem mul_of_zero {y z : Double} (hy : y.isFinite = true) (hz : z.isFinite = true) {s : Sign}
    (h : y.parts = .zero s ∨ z.parts = .zero s) :
    Underflows y z ∧ ∃ t, (y * z).parts = .zero t := by
  have hexact : exact y * exact z = 0 := by
    rcases h with h | h <;> simp [exact, h]
  refine ⟨?_, ?_⟩
  · unfold Underflows
    rw [hexact, abs_zero]
    positivity
  · obtain ⟨t, hmul⟩ : ∃ t, UnpackedFloat.mul Format.binary64 y.parts z.parts = .zero t := by
      rcases isFinite_cases hy with ⟨u, hy⟩ | ⟨u, m, e, hm, hy⟩ <;>
        rcases isFinite_cases hz with ⟨v, hz⟩ | ⟨v, n, e', hn, hz⟩ <;>
        rw [hy, hz] at h ⊢
      · exact ⟨u * v, rfl⟩
      · exact ⟨u * v, rfl⟩
      · exact ⟨u * v, rfl⟩
      · rcases h with h | h <;> cases h
    rw [parts_mul, hmul]
    exact ⟨t, kept_zero t⟩

/-- A product of numbers that are not zero is rounded to zero, or it has the sign of the exact one. -/
theorem mul_of_finite {y z : Double} {s t : Sign} {m n : ℕ} {e e' : ℤ} {hm : 0 < m} {hn : 0 < n}
    (hy : y.parts = .finite s m e hm) (hz : z.parts = .finite t n e' hn) :
    Underflows y z ∧ (∃ u, (y * z).parts = .zero u) ∨
      ¬Underflows y z ∧ side (y * z).parts = some (s * t) := by
  have hexact : Underflows y z ↔ ((m * n : ℕ) : ℚ) * 2 ^ (e + e') ≤ 2 ^ (-1075 : ℤ) := by
    have hproduct : |exact y * exact z| = ((m * n : ℕ) : ℚ) * 2 ^ (e + e') := by
      rw [abs_mul, abs_exact hy, abs_exact hz, zpow_add₀ (by norm_num)]
      push_cast
      ring
    unfold Underflows
    rw [hproduct]
  have hmul : UnpackedFloat.mul Format.binary64 y.parts z.parts =
      UnpackedFloat.roundWithAccuracy Format.binary64 (s * t) (m * n) (e + e') .exact := by
    rw [hy, hz]
    rfl
  rw [parts_mul, hmul, hexact]
  rcases round_cases (s * t) (Nat.mul_pos hm hn) (e + e') with
    ⟨hsmall, hround⟩ | ⟨hlarge, M, E, hM, hround, hlog, hE⟩
  · rw [hround]
    exact .inl ⟨hsmall, s * t, kept_zero _⟩
  · rw [hround]
    exact .inr ⟨hlarge, side_kept hlog hE⟩

/-! ## A product as a test of signs -/

theorem opposite_iff_side {y z : Double} : Opposite y z ↔
    side y.parts = some .negative ∧ side z.parts = some .positive ∨
      side y.parts = some .positive ∧ side z.parts = some .negative := by
  unfold Opposite
  rw [lt_zero_iff, zero_lt_iff, zero_lt_iff, lt_zero_iff]

/-- Of two finite doubles the product is zero, negative or positive as the doubles tell. -/
theorem mul_cases {y z : Double} (hy : y.isFinite = true) (hz : z.isFinite = true) :
    Underflows y z ∧ (∃ s, (y * z).parts = .zero s) ∨
      ¬Underflows y z ∧ (Opposite y z ∧ side (y * z).parts = some .negative ∨
        ¬Opposite y z ∧ side (y * z).parts = some .positive) := by
  rcases isFinite_cases hy with ⟨s, hys⟩ | ⟨s, m, e, hm, hys⟩
  · exact .inl (mul_of_zero hy hz (.inl hys))
  rcases isFinite_cases hz with ⟨t, hzt⟩ | ⟨t, n, e', hn, hzt⟩
  · exact .inl (mul_of_zero hy hz (.inr hzt))
  rcases mul_of_finite hys hzt with hsmall | ⟨hlarge, hside⟩
  · exact .inl hsmall
  refine .inr ⟨hlarge, ?_⟩
  rw [opposite_iff_side, hside, hys, hzt]
  cases s <;> cases t <;> simp [side] <;> rfl

variable {y z : Double}

theorem mul_lt_zero_iff (hy : y.isFinite = true) (hz : z.isFinite = true) :
    y * z < 0.0 ↔ Opposite y z ∧ ¬Underflows y z := by
  rw [lt_zero_iff]
  rcases mul_cases hy hz with ⟨hsmall, s, hzero⟩ | ⟨hlarge, ⟨hopp, hside⟩ | ⟨hsame, hside⟩⟩
  · simp [hzero, side, hsmall]
  · simp [hside, hopp, hlarge]
  · simp [hside, hsame]

theorem mul_le_zero_iff (hy : y.isFinite = true) (hz : z.isFinite = true) :
    y * z ≤ 0.0 ↔ Opposite y z ∨ Underflows y z := by
  rcases mul_cases hy hz with ⟨hsmall, s, hzero⟩ | ⟨hlarge, ⟨hopp, hside⟩ | ⟨hsame, hside⟩⟩
  · have hle : y * z ≤ 0.0 := by
      rw [le_iff, hzero, parts_zero]
      exact ⟨by simp, by simp, le_refl _⟩
    simp [hle, hsmall]
  · have hle : y * z ≤ 0.0 := Scalar.le_of_lt (lt_zero_iff.2 hside)
    simp [hle, hopp]
  · have hle : ¬y * z ≤ 0.0 := (Scalar.lt_iff.1 (zero_lt_iff.2 hside)).2
    simp [hle, hsame, hlarge]

/-- If a factor is not finite, there is no product, or it is infinite with the product of the signs. -/
theorem mul_of_infinite {u v : UnpackedFloat} (h : ¬(u.isFinite = true ∧ v.isFinite = true)) :
    UnpackedFloat.mul Format.binary64 u v = .notANumber ∨
      ∃ s t, side u = some s ∧ side v = some t ∧
        UnpackedFloat.mul Format.binary64 u v = .infinity (s * t) := by
  rcases u with s | _ | s | ⟨s, m, e, hm⟩ <;> rcases v with t | _ | t | ⟨t, n, e', hn⟩
  all_goals first
    | exact .inl rfl
    | exact .inr ⟨s, t, rfl, rfl, rfl⟩
    | exact absurd ⟨rfl, rfl⟩ h

/-- A product below zero tells a sign change, of infinite values too. -/
theorem opposite_of_mul_lt_zero (h : y * z < 0.0) : Opposite y z := by
  by_cases hfinite : y.isFinite = true ∧ z.isFinite = true
  · exact ((mul_lt_zero_iff hfinite.1 hfinite.2).1 h).1
  · rw [lt_zero_iff, parts_mul] at h
    have hparts : ¬(y.parts.isFinite = true ∧ z.parts.isFinite = true) := hfinite
    rcases mul_of_infinite hparts with hmul | ⟨s, t, hs, ht, hmul⟩ <;> rw [hmul] at h
    · cases h
    · rw [side_kept_infinity] at h
      rw [opposite_iff_side, hs, ht]
      cases s <;> cases t <;> cases h <;> simp

end RootSearch.Double
