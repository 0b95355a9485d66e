import Mathlib
import RootSearch.Double
import RootSearch.Proofs.Order
/-!
# The order of doubles

A double is compared by its sign, its exponent and its mantissa, in this order. Read as a place in a
lexicographic order of integers, that gives the laws of the order, with both zeros in one place.
-/

namespace RootSearch.Double

open Float.Model (UnpackedFloat Format)
open Float.Model.UnpackedFloat (Sign packComponents unpackExponent unpackMantissa packedNaN)

/-! ## Places in a linear order -/

def weight : Sign → ℤ
  | .negative => -1
  | .positive => 1

/-- The place of a number. What is not a number has none that matters. -/
def rank : UnpackedFloat → ℤ ×ₗ ℤ ×ₗ ℤ
  | .infinity s => toLex (2 * weight s, toLex (0, 0))
  | .finite s m e _ => toLex (weight s, toLex (weight s * e, weight s * m))
  | .zero _ | .notANumber => toLex (0, toLex (0, 0))

theorem compare_neg (a b : ℤ) : compare (-a) (-b) = (compare a b).swap := by
  rw [← Std.OrientedCmp.eq_swap]
  simp only [compare, compareOfLessAndEq, neg_lt_neg_iff, neg_inj, eq_comm]

theorem compare_natCast (m n : ℕ) : compare (m : ℤ) n = compare m n := by
  simp only [compare, compareOfLessAndEq, Nat.cast_lt, Nat.cast_inj]

theorem compare_eq_compare_rank {a b : UnpackedFloat} (ha : a ≠ .notANumber) (hb : b ≠ .notANumber) :
    a.compare b = some (compare (rank a) (rank b)) := by
  rcases a with ⟨_ | _⟩ | _ | ⟨_ | _⟩ | ⟨_ | _, _, _, _⟩ <;>
    rcases b with ⟨_ | _⟩ | _ | ⟨_ | _⟩ | ⟨_ | _, _, _, _⟩ <;>
    first
    | contradiction
    | rfl
    | simp [UnpackedFloat.compare, rank, weight, Prod.Lex.compare_def, compareLex, compareOn,
        compare_neg, compare_natCast, Ordering.swap_then]

theorem compare_eq_none {a b : UnpackedFloat} (h : a = .notANumber ∨ b = .notANumber) :
    a.compare b = none := by
  rcases h with rfl | rfl
  · rfl
  · rcases a with ⟨_ | _⟩ | _ | _ | ⟨_ | _, _, _, _⟩ <;> rfl

/-- A relation read off a comparison holds of numbers whose places compare so. -/
theorem any_compare_iff (p : Ordering → Bool) (a b : UnpackedFloat) :
    (a.compare b).any p = true ↔
      a ≠ .notANumber ∧ b ≠ .notANumber ∧ p (compare (rank a) (rank b)) = true := by
  by_cases h : a = .notANumber ∨ b = .notANumber
  · rw [compare_eq_none h]
    rcases h with rfl | rfl <;> simp
  · obtain ⟨ha, hb⟩ := not_or.1 h
    rw [compare_eq_compare_rank ha hb]
    simp [ha, hb]

/-! ## The place of a double -/

/-- The parts of a double. -/
def parts (x : Double) : UnpackedFloat := x.value.toModel.unpack

theorem le_iff {x y : Double} : x ≤ y ↔
    x.parts ≠ .notANumber ∧ y.parts ≠ .notANumber ∧ rank x.parts ≤ rank y.parts := by
  have h : x ≤ y ↔ (x.parts.compare y.parts).any (·.isLE) = true := by
    show x.value.le y.value = true ↔ _
    exact decide_eq_true_iff
  rw [h, any_compare_iff, ← Ordering.ne_gt_iff_isLE, ← ne_eq, compare_le_iff_le]

theorem lt_iff {x y : Double} : x < y ↔
    x.parts ≠ .notANumber ∧ y.parts ≠ .notANumber ∧ rank x.parts < rank y.parts := by
  have h : x < y ↔ (x.parts.compare y.parts).any (· == .lt) = true := by
    show x.value.lt y.value = true ↔ _
    rw [Float.lt, decide_eq_true_iff]
    show (x.parts.compare y.parts == some .lt) = true ↔ _
    cases x.parts.compare y.parts <;> simp
  rw [h, any_compare_iff, beq_iff_eq, compare_lt_iff_lt]

theorem beq_iff {x y : Double} : (x == y) = true ↔
    x.parts ≠ .notANumber ∧ y.parts ≠ .notANumber ∧ rank x.parts = rank y.parts := by
  have h : (x == y) = (x.parts.compare y.parts).any (· == .eq) := by
    show (x.parts.compare y.parts == some .eq) = _
    cases x.parts.compare y.parts <;> simp
  rw [h, any_compare_iff, beq_iff_eq, compare_eq_iff_eq]

theorem le_self_iff {x : Double} : x ≤ x ↔ x.parts ≠ .notANumber := by
  simp [le_iff]

/-! ## Magnitudes -/

/-- The bits of a double without its sign are those of its magnitude. -/
theorem unpack_unsigned (b : BitVec Format.binary64.numBits) :
    UnpackedFloat.unpack Format.binary64
        (packComponents Format.binary64 .positive (unpackExponent b) (unpackMantissa b)) =
      (UnpackedFloat.unpack Format.binary64 b).abs := by
  simp only [UnpackedFloat.unpack, UnpackedFloat.unpackExponent_packComponents,
    UnpackedFloat.unpackMantissa_packComponents, UnpackedFloat.unpackSign_packComponents,
    Sign.ofBitVec_toBitVec]
  split
  · split <;> rfl
  · split
    · split <;> rfl
    · rfl

theorem valid_unsigned {b : BitVec Format.binary64.numBits} (h : Format.binary64.Valid b) :
    Format.binary64.Valid
      (packComponents Format.binary64 .positive (unpackExponent b) (unpackMantissa b)) := by
  refine ⟨fun he hm => ?_⟩
  rw [UnpackedFloat.unpackExponent_packComponents] at he
  rw [UnpackedFloat.unpackMantissa_packComponents] at hm
  rw [h.eq_packedNaN he hm]
  simp [packedNaN]

theorem parts_abs (x : Double) : (Scalar.abs x).parts = x.parts.abs := by
  have hparts : x.parts.abs = _ := (unpack_unsigned x.value.toModel.toBits.toBitVec).symm
  show UnpackedFloat.unpack Format.binary64 (UnpackedFloat.pack Format.binary64 x.parts.abs) = _
  rw [hparts, UnpackedFloat.pack_unpack_of_valid (valid_unsigned x.value.toModel.valid)]

theorem abs_ne_notANumber {u : UnpackedFloat} (h : u ≠ .notANumber) : u.abs ≠ .notANumber := by
  cases u <;> simp_all [UnpackedFloat.abs]

theorem rank_le_rank_abs (u : UnpackedFloat) : rank u ≤ rank u.abs := by
  rcases u with ⟨_ | _⟩ | _ | _ | ⟨_ | _, _, _, _⟩ <;>
    simp [UnpackedFloat.abs, rank, weight, Prod.Lex.toLex_le_toLex]

theorem rank_zero_le_rank_abs (u : UnpackedFloat) (s : Sign) : rank (.zero s) ≤ rank u.abs := by
  rcases u with ⟨_ | _⟩ | _ | _ | ⟨_ | _, _, _, _⟩ <;>
    simp [UnpackedFloat.abs, rank, weight, Prod.Lex.toLex_le_toLex]

theorem rank_abs_le {u : UnpackedFloat} {s : Sign} (h : rank (.zero s) ≤ rank u) :
    rank u.abs ≤ rank u := by
  rcases u with ⟨_ | _⟩ | _ | _ | ⟨_ | _, _, _, _⟩ <;>
    simp_all [UnpackedFloat.abs, rank, weight, Prod.Lex.toLex_le_toLex]

theorem eq_zero_of_rank_eq {u : UnpackedFloat} {s : Sign} (hu : u ≠ .notANumber)
    (h : rank u = rank (.zero s)) : ∃ t, u = .zero t := by
  rcases u with ⟨_ | _⟩ | _ | t | ⟨_ | _, _, _, _⟩ <;> simp_all [rank, weight]

theorem parts_zero : (0.0 : Double).parts = .zero .positive := by
  rfl

instance : LawfulScalar Double where
  le_trans := by
    intro a b c hab hbc
    obtain ⟨ha, hb, hab⟩ := le_iff.1 hab
    obtain ⟨_, hc, hbc⟩ := le_iff.1 hbc
    exact le_iff.2 ⟨ha, hc, hab.trans hbc⟩
  le_refl_of_le := by
    intro a b h
    obtain ⟨ha, hb, _⟩ := le_iff.1 h
    exact ⟨le_self_iff.2 ha, le_self_iff.2 hb⟩
  le_total := by
    intro a b ha hb
    rw [le_self_iff] at ha hb
    rcases le_total (rank a.parts) (rank b.parts) with h | h
    · exact .inl (le_iff.2 ⟨ha, hb, h⟩)
    · exact .inr (le_iff.2 ⟨hb, ha, h⟩)
  lt_iff := by
    intro a b
    rw [lt_iff, le_iff, le_iff, lt_iff_le_not_ge]
    tauto
  beq_iff := by
    intro a b
    rw [beq_iff, le_iff, le_iff, le_antisymm_iff]
    tauto
  le_abs := by
    intro a ha
    rw [le_self_iff] at ha
    rw [le_iff, parts_abs]
    exact ⟨ha, abs_ne_notANumber ha, rank_le_rank_abs _⟩
  zero_le_abs := by
    intro a ha
    rw [le_self_iff] at ha
    rw [le_iff, parts_abs, parts_zero]
    exact ⟨nofun, abs_ne_notANumber ha, rank_zero_le_rank_abs _ _⟩
  abs_le_zero := by
    intro a h
    obtain ⟨ha, _, h⟩ := beq_iff.1 h
    rw [parts_zero] at h
    obtain ⟨t, ht⟩ := eq_zero_of_rank_eq ha h
    rw [le_iff, parts_abs, parts_zero, ht]
    exact ⟨nofun, nofun, le_refl _⟩
  epsilon_pos := by
    decide +kernel

/-- A number that is not below zero is its own magnitude. -/
theorem abs_le_self {x : Double} (h : 0.0 ≤ x) : Scalar.abs x ≤ x := by
  obtain ⟨-, hx, hle⟩ := le_iff.1 h
  rw [parts_zero] at hle
  rw [le_iff, parts_abs]
  exact ⟨abs_ne_notANumber hx, hx, rank_abs_le hle⟩

end RootSearch.Double
