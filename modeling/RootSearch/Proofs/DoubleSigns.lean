import RootSearch.Proofs.DoubleHalf
import RootSearch.Proofs.SignChange
/-!
# Signs of doubles

A double off zero carries its sign in one bit, the one that is read when a sign is copied. So a
double that is given the sign it has stays the same.
-/

namespace RootSearch.Double

open Float.Model (UnpackedFloat Format)
open Float.Model.UnpackedFloat (Sign unpackSign)

/-- The sign of what is on one side of zero. -/
def side : UnpackedFloat → Option Sign
  | .infinity s | .finite s _ _ _ => some s
  | .zero _ | .notANumber => none

theorem ne_notANumber_of_side {u : UnpackedFloat} {s : Sign} (h : side u = some s) :
    u ≠ .notANumber := by
  rintro rfl
  cases h

theorem rank_lt_zero_iff {u : UnpackedFloat} {s : Sign} :
    rank u < rank (.zero s) ↔ side u = some .negative := by
  rcases u with ⟨_ | _⟩ | _ | _ | ⟨_ | _, _, _, _⟩ <;>
    simp [side, rank, weight, Prod.Lex.toLex_lt_toLex]

theorem zero_lt_rank_iff {u : UnpackedFloat} {s : Sign} :
    rank (.zero s) < rank u ↔ side u = some .positive := by
  rcases u with ⟨_ | _⟩ | _ | _ | ⟨_ | _, _, _, _⟩ <;>
    simp [side, rank, weight, Prod.Lex.toLex_lt_toLex]

theorem lt_zero_iff {x : Double} : x < 0.0 ↔ side x.parts = some .negative := by
  rw [lt_iff, parts_zero, rank_lt_zero_iff]
  exact ⟨fun h => h.2.2, fun h => ⟨ne_notANumber_of_side h, by simp, h⟩⟩

theorem zero_lt_iff {x : Double} : 0.0 < x ↔ side x.parts = some .positive := by
  rw [lt_iff, parts_zero, zero_lt_rank_iff]
  exact ⟨fun h => h.2.2, fun h => ⟨by simp, ne_notANumber_of_side h, h⟩⟩

/-! ## The sign bit -/

theorem ofBitVec_unpackSign {b : BitVec Format.binary64.numBits} {s : Sign}
    (h : side (UnpackedFloat.unpack Format.binary64 b) = some s) :
    Sign.ofBitVec (unpackSign b) = s := by
  simp only [UnpackedFloat.unpack] at h
  split at h
  · split at h
    · exact Option.some.inj h
    · cases h
  · split at h
    · split at h
      · cases h
      · exact Option.some.inj h
    · exact Option.some.inj h

theorem ofBitVec_negative_iff {v : BitVec 1} : Sign.ofBitVec v = .negative ↔ v.toNat = 1 := by
  unfold Sign.ofBitVec
  rcases BitVec.eq_zero_or_eq_one v with rfl | rfl <;> simp

theorem top_bit_iff {b : UInt64} :
    (b >>> 63 == 1) = true ↔ (@unpackSign Format.binary64 b.toBitVec).toNat = 1 := by
  have htoNat : (@unpackSign Format.binary64 b.toBitVec).toNat = b.toNat >>> 63 % 2 := by
    rw [UnpackedFloat.unpackSign_def, BitVec.extractLsb'_toNat]
    rfl
  rw [htoNat, beq_iff_eq, ← UInt64.toNat_inj, UInt64.toNat_shiftRight]
  have hlt := b.toNat_lt
  simp [Nat.shiftRight_eq_div_pow]
  omega

theorem signBit_iff {x : Double} {s : Sign} (h : side x.parts = some s) :
    x.signBit = true ↔ s = .negative := by
  have hnan : x.isNaN = false :=
    Bool.eq_false_iff.2 fun hx => ne_notANumber_of_side h (UnpackedFloat.isNaN_iff.1 hx)
  rw [signBit, hnan, if_neg Bool.false_ne_true, top_bit_iff, ← ofBitVec_negative_iff]
  rw [show x.value.toBits.toBitVec = x.value.toModel.toBits.toBitVec from rfl, ofBitVec_unpackSign h]

/-! ## Copied signs -/

theorem parts_neg (x : Double) : x.neg.parts = kept x.parts.neg := rfl

theorem copySign_of_lt_zero {y z : Double} (hy : y < 0.0) (hz : z < 0.0) :
    (Scalar.copySign y z).parts = y.parts := by
  rw [lt_zero_iff] at hy hz
  have hcopy : Scalar.copySign y z = y.abs.neg := if_pos ((signBit_iff hz).2 rfl)
  have habs : y.abs.parts = y.parts.abs := parts_abs y
  have hneg : y.parts.abs.neg = y.parts := by
    rcases h : y.parts with ⟨_ | _⟩ | _ | _ | ⟨_ | _, _, _, _⟩ <;> rw [h] at hy <;> cases hy <;> rfl
  rw [hcopy, parts_neg, habs, hneg, kept_parts]

theorem copySign_of_zero_lt {y z : Double} (hy : 0.0 < y) (hz : 0.0 < z) :
    (Scalar.copySign y z).parts = y.parts := by
  rw [zero_lt_iff] at hy hz
  have hbit : ¬z.signBit = true := by simp [signBit_iff hz]
  have hcopy : Scalar.copySign y z = y.abs := if_neg hbit
  have habs : y.abs.parts = y.parts.abs := parts_abs y
  rw [hcopy, habs]
  rcases h : y.parts with ⟨_ | _⟩ | _ | _ | ⟨_ | _, _, _, _⟩ <;> rw [h] at hy <;> cases hy <;> rfl

theorem beq_of_parts_eq {x y : Double} (hy : y.parts ≠ .notANumber) (h : x.parts = y.parts) :
    (x == y) = true :=
  beq_iff.2 ⟨h ▸ hy, hy, congrArg rank h⟩

instance : LawfulSigns Double where
  copySign_of_neg hy hz :=
    beq_of_parts_eq (ne_notANumber_of_side (lt_zero_iff.1 hy)) (copySign_of_lt_zero hy hz)
  copySign_of_pos hy hz :=
    beq_of_parts_eq (ne_notANumber_of_side (zero_lt_iff.1 hy)) (copySign_of_zero_lt hy hz)

end RootSearch.Double
