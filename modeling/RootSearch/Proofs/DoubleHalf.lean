import RootSearch.Proofs.DoubleOrder
/-!
# Halves and zeros of doubles

Half of a double that is not very small is above zero: nothing is lost when it is rounded. The two
zeros are the only doubles that are equal without being the same.
-/

namespace RootSearch.Double

open Float.Model (UnpackedFloat Format totalExponent)
open Float.Model.UnpackedFloat (Sign packComponents unpackExponent unpackMantissa Accuracy ExtendedMantissa)

/-! ## Halving a mantissa -/

theorem targetExponent_normal {m : ℕ} {e : ℤ} (hm : m.log2 = 52) (he : -1000 ≤ e) :
    Format.binary64.targetExponent (totalExponent m e) = e := by
  simp [Format.targetExponent, totalExponent, hm, Format.mantissaBits, Format.minExponent]
  omega

/-- A mantissa of the right length is not rounded. -/
theorem shift_normal {m : ℕ} {e : ℤ} (hm : m.log2 = 52) (he : -1000 ≤ e) :
    UnpackedFloat.shiftToTargetExponent Format.binary64 m e .exact = (⟨m, false, false⟩, e) := by
  simp only [UnpackedFloat.shiftToTargetExponent, targetExponent_normal hm he,
    UnpackedFloat.shiftToExponent, sub_self]
  simp [ExtendedMantissa.ofMantissaAndAccuracy]
  rfl

theorem shift_double {m : ℕ} {e : ℤ} (hm : m.log2 = 52) (he : -1000 ≤ e) :
    UnpackedFloat.shiftToTargetExponent Format.binary64 (2 * m) (e - 1) .exact =
      (⟨m, false, false⟩, e) := by
  have hpos : m ≠ 0 := by rintro rfl; simp at hm
  have hlog : (2 * m).log2 = 53 := by rw [Nat.log2_two_mul hpos, hm]
  have ht : Format.binary64.targetExponent (totalExponent (2 * m) (e - 1)) = e := by
    simp [Format.targetExponent, totalExponent, hlog, Format.mantissaBits, Format.minExponent]
    omega
  have hs : (e - (e - 1)).toNat = 1 := by omega
  rw [UnpackedFloat.shiftToTargetExponent, ht]
  simp only [UnpackedFloat.shiftToExponent, hs]
  simp [ExtendedMantissa.ofMantissaAndAccuracy, HShiftRight.hShiftRight, Nat.repeat,
    ExtendedMantissa.shiftRightOne]

theorem divCore_two {m : ℕ} {e : ℤ} (hm : m.log2 = 52) (he : -1000 ≤ e) :
    UnpackedFloat.divCore Format.binary64 m e (2 ^ 52) (-51) = (2 * m, e - 2, .exact) := by
  have ht : Format.binary64.targetExponent (totalExponent m e - totalExponent (2 ^ 52) (-51)) = e - 2 := by
    rw [totalExponent, totalExponent, hm, Nat.log2_two_pow]
    simp [Format.targetExponent, Format.mantissaBits, Format.minExponent]
    omega
  have hmin : min (e - -51) (e - 2) = e - 2 := by omega
  have hs : (e - -51 - (e - 2)).toNat = 53 := by omega
  simp only [UnpackedFloat.divCore, ht, hmin, hs, Nat.shiftLeft_eq]
  have h : m * 2 ^ 53 = 2 ^ 52 * (2 * m) := by ring
  rw [h, Nat.mul_div_cancel_left _ (by decide), Nat.mul_mod_right]
  rfl

/-- Half of a number that is not very small has the same mantissa. -/
theorem div_two {m : ℕ} {e : ℤ} (hm : m.log2 = 52) (he : -999 ≤ e) (hpos : 0 < m) :
    UnpackedFloat.div Format.binary64 (.finite .positive m e hpos)
        (.finite .positive (2 ^ 52) (-51) (by decide)) = .finite .positive m (e - 1) hpos := by
  have hs := shift_double hm (by omega : -1000 ≤ e - 1)
  rw [show e - 1 - 1 = e - 2 by ring] at hs
  simp only [UnpackedFloat.div, divCore_two hm (by omega : -1000 ≤ e), UnpackedFloat.roundWithAccuracy, hs]
  simp only [ExtendedMantissa.roundedMantissa, ExtendedMantissa.accuracy, Accuracy.roundToNearestEven,
    shift_normal hm (by omega : -1000 ≤ e - 1)]
  simp [hpos.ne']
  rfl

/-! ## Packing and unpacking -/

/-- A normal mantissa has an implicit leading bit. -/
theorem toNat_implicit (v : BitVec 52) : (1#1 ++ v).toNat = 2 ^ 52 + v.toNat := by
  have hsum := Nat.two_pow_add_eq_or_of_lt v.isLt 1
  rw [Nat.mul_one] at hsum
  rw [hsum, BitVec.toNat_append]
  rfl

theorem toNat_exponent {k : ℕ} (hk : k < 2048) : (BitVec.ofNat 11 k).toNat = k := by
  rw [BitVec.toNat_ofNat, Nat.mod_eq_of_lt hk]

theorem unpack_finite {b : BitVec Format.binary64.numBits} {s : Sign} {m : ℕ} {e : ℤ} {hm : 0 < m}
    (h : UnpackedFloat.unpack Format.binary64 b = .finite s m e hm) :
    e = -1074 ∧ m.log2 < 52 ∨ m.log2 = 52 ∧ -1074 ≤ e ∧ e ≤ 971 := by
  have hlt : (unpackExponent b).toNat < 2048 := (unpackExponent b).isLt
  have hbias : Format.binary64.exponentBias = 1023 := rfl
  simp only [UnpackedFloat.unpack] at h
  split at h
  · split at h <;> cases h
  · next hexp =>
    have hall : (unpackExponent b).toNat ≠ 2047 :=
      fun he => hexp (BitVec.eq_of_toNat_eq (by simpa using he))
    split at h
    · next hzero =>
      split at h
      · cases h
      · cases h
        exact .inl ⟨by simp [hzero, hbias], (Nat.log2_lt (by omega)).2 (unpackMantissa b).isLt⟩
    · next hnormal =>
      have hpos : (unpackExponent b).toNat ≠ 0 :=
        fun he => hnormal (BitVec.eq_of_toNat_eq (by simpa using he))
      cases h
      have hlt := (unpackMantissa b).isLt
      have hm : (1#1 ++ unpackMantissa b).toNat = 2 ^ 52 + (unpackMantissa b).toNat :=
        toNat_implicit _
      refine .inr ⟨(Nat.log2_eq_iff (by omega)).2 (by omega), ?_, ?_⟩
      · rw [hbias]
        omega
      · rw [hbias]
        omega

/-- What a double keeps of a result. -/
def kept (u : UnpackedFloat) : UnpackedFloat :=
  UnpackedFloat.unpack Format.binary64 (UnpackedFloat.pack Format.binary64 u)

/-- The sign and the exponent of a normal number survive packing. -/
theorem kept_finite {s : Sign} {m : ℕ} {e : ℤ} {hm : 0 < m} (hlog : m.log2 = 52)
    (he : -1074 ≤ e) (he' : e ≤ 971) :
    ∃ k hk, kept (.finite s m e hm) = .finite s k e hk := by
  have hbias : Format.binary64.exponentBias = 1023 := rfl
  have hbits : Format.binary64.mantissaBits = 53 := rfl
  obtain ⟨k, hk⟩ : ∃ k : ℕ, e + 1075 = k := ⟨(e + 1075).toNat, by omega⟩
  have hk' : (e + (1023 : ℕ) + (52 : ℕ)).toNat = k := by omega
  have hnat : (BitVec.ofNat 11 k).toNat = k := toNat_exponent (by omega)
  -- the exponents of all ones and all zeros are not for normal numbers
  have hall : BitVec.ofNat 11 k ≠ -1#11 := by
    rw [ne_eq, ← BitVec.toNat_inj, hnat]
    simp
    omega
  have hzero : BitVec.ofNat 11 k ≠ 0#11 := by
    rw [ne_eq, ← BitVec.toNat_inj, hnat]
    simp
    omega
  have hpack : UnpackedFloat.pack Format.binary64 (.finite s m e hm) =
      packComponents Format.binary64 s (BitVec.ofNat 11 k) (BitVec.ofNat 52 m) := by
    simp only [UnpackedFloat.pack, hbias, hlog, hbits]
    rw [hk', if_neg (by omega), if_pos trivial]
  rw [kept, hpack]
  simp only [UnpackedFloat.unpack, UnpackedFloat.unpackExponent_packComponents, hall, hzero, if_false,
    UnpackedFloat.unpackSign_packComponents, Sign.ofBitVec_toBitVec, hbias]
  have hexp : ((BitVec.ofNat 11 k).toNat : ℤ) - ((1023 : ℕ) + (52 : ℕ)) = e := by omega
  simp only [hexp]
  have hpos (v : BitVec 52) : 0 < (1#1 ++ v).toNat := by rw [toNat_implicit]; omega
  exact ⟨_, hpos _, rfl⟩

/-! ## Operations -/

section Operations

variable (x y : Double)

theorem kept_parts : kept x.parts = x.parts := by
  have h := UnpackedFloat.pack_unpack_of_valid x.value.toModel.valid
  exact congrArg (UnpackedFloat.unpack Format.binary64) h

theorem parts_add : (x + y).parts = kept (UnpackedFloat.add Format.binary64 x.parts y.parts) := rfl

theorem parts_sub : (x - y).parts = kept (UnpackedFloat.sub Format.binary64 x.parts y.parts) := rfl

theorem parts_mul : (x * y).parts = kept (UnpackedFloat.mul Format.binary64 x.parts y.parts) := rfl

theorem parts_div : (x / y).parts = kept (UnpackedFloat.div Format.binary64 x.parts y.parts) := rfl

end Operations

theorem parts_two : (2.0 : Double).parts = .finite .positive (2 ^ 52) (-51) (by decide) := by
  rfl

theorem parts_epsilon :
    (Scalar.epsilon : Double).parts = .finite .positive (2 ^ 52) (-104) (by decide) := by
  rfl

/-! ## Doubles that are not very small -/

/-- What is at least the spacing of doubles at one is infinite or a normal number. -/
theorem parts_of_epsilon_le {t : Double} (h : Scalar.epsilon ≤ t) :
    t.parts = .infinity .positive ∨
      ∃ m e hm, t.parts = .finite .positive m e hm ∧ m.log2 = 52 ∧ -104 ≤ e ∧ e ≤ 971 := by
  obtain ⟨_, ht, hrank⟩ := le_iff.1 h
  rw [parts_epsilon] at hrank
  rcases e : t.parts with ⟨_ | _⟩ | _ | s | ⟨_ | _, m, e', hm⟩
  · simp [e, rank, weight, Prod.Lex.toLex_le_toLex] at hrank
  · exact .inl rfl
  · contradiction
  · simp [e, rank, weight, Prod.Lex.toLex_le_toLex] at hrank
  · simp [e, rank, weight, Prod.Lex.toLex_le_toLex] at hrank
  · simp only [e, rank, weight, Prod.Lex.toLex_le_toLex] at hrank
    rcases unpack_finite e with ⟨he, -⟩ | ⟨hlog, -, he⟩
    · omega
    · exact .inr ⟨m, e', hm, rfl, hlog, by omega, he⟩

/-- Adding a zero changes no parts. -/
theorem parts_add_zero {t z : Double} {s : Sign} (ht : ∀ s, t.parts ≠ .zero s)
    (hz : z.parts = .zero s) : (t + z).parts = t.parts := by
  have hadd : UnpackedFloat.add Format.binary64 t.parts z.parts = t.parts := by
    rw [hz]
    rcases e : t.parts with _ | _ | s' | _
    · rfl
    · rfl
    · exact absurd e (ht s')
    · rfl
  rw [parts_add, hadd, kept_parts]

/-- Half of what is at least the spacing of doubles at one is above zero. -/
theorem zero_lt_half {t z : Double} {s : Sign} (ht : Scalar.epsilon ≤ t) (hz : z.parts = .zero s) :
    0.0 < (t + z) / 2.0 := by
  rw [lt_iff, parts_zero, parts_div, parts_two]
  rcases parts_of_epsilon_le ht with e | ⟨m, e', hm, e, hlog, hlow, hhigh⟩
  · rw [parts_add_zero (by simp [e]) hz, e]
    have hinf : kept (.infinity .positive) = .infinity .positive := rfl
    rw [UnpackedFloat.div, show Sign.positive / Sign.positive = Sign.positive from rfl, hinf]
    refine ⟨by simp, by simp, ?_⟩
    simp [rank, weight, Prod.Lex.toLex_lt_toLex]
  · rw [parts_add_zero (by simp [e]) hz, e, div_two hlog (by omega)]
    obtain ⟨k, hk, h⟩ := kept_finite hlog (by omega : -1074 ≤ e' - 1) (by omega)
    rw [h]
    refine ⟨by simp, by simp, ?_⟩
    simp [rank, weight, Prod.Lex.toLex_lt_toLex]

/-! ## Zeros -/

theorem eq_of_parts_eq {x y : Double} (hx : x.parts ≠ .notANumber) (h : x.parts = y.parts) : x = y := by
  have hv : x.value = y.value := by
    have hbits := (UnpackedFloat.unpack_inj_of_valid x.value.toModel.valid y.value.toModel.valid).1 h
    exact Float.toBits_inj.1 (UInt64.toBitVec_inj.1 hbits)
  -- a number has no sign beside its value
  have hsign (z : Double) (hz : z.parts ≠ .notANumber) : z.nanSign = false := by
    by_contra hs
    have := z.signBeside.isNaN (by simpa using hs)
    exact hz (UnpackedFloat.isNaN_iff.1 this)
  have hx' := hsign x hx
  have hy' := hsign y (h ▸ hx)
  obtain ⟨xv, xs⟩ := x
  obtain ⟨yv, ys⟩ := y
  subst hv hx'
  subst hy'
  rfl

/-- Equal doubles are the same or are both zero. -/
theorem eq_or_zeros {x y : Double} (h : (x == y) = true) :
    x = y ∨ ∃ s t, x.parts = .zero s ∧ y.parts = .zero t := by
  have h' : x.parts.beq y.parts = true := h
  obtain ⟨hx, _, he⟩ := (UnpackedFloat.beq_iff_ne_notANumber_and_eq _ _).1 h'
  rcases he with he | ⟨hx, hy⟩ | ⟨hx, hy⟩
  · exact .inl (eq_of_parts_eq hx he)
  · exact .inr ⟨_, _, hx, hy⟩
  · exact .inr ⟨_, _, hx, hy⟩

theorem parts_sub_zeros {x y : Double} {s t : Sign} (hx : x.parts = .zero s) (hy : y.parts = .zero t) :
    ∃ u, (x - y).parts = .zero u := by
  rw [parts_sub, hx, hy]
  cases s <;> cases t <;> exact ⟨_, rfl⟩

theorem parts_half_zero {x : Double} {s : Sign} (hx : x.parts = .zero s) :
    ∃ u, (x / 2.0).parts = .zero u := by
  rw [parts_div, hx]
  cases s <;> exact ⟨_, rfl⟩

end RootSearch.Double
