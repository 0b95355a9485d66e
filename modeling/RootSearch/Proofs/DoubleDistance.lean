import RootSearch.Proofs.DoubleHalf
/-!
# The distance of two doubles

The differences of two doubles, taken either way, are the same but for their signs: rounding and
packing treat both signs alike.
-/

namespace RootSearch.Double

open Float.Model (UnpackedFloat Format)
open Float.Model.UnpackedFloat (Sign packComponents)

/-! ## Magnitudes of what is kept -/

theorem abs_unpack_components (s : Sign) (e : BitVec Format.binary64.exponentBits)
    (m : BitVec Format.binary64.mantissaBitsWithoutImplicit) :
    (UnpackedFloat.unpack Format.binary64 (packComponents Format.binary64 s e m)).abs =
      UnpackedFloat.unpack Format.binary64 (packComponents Format.binary64 .positive e m) := by
  rw [← unpack_unsigned, UnpackedFloat.unpackExponent_packComponents,
    UnpackedFloat.unpackMantissa_packComponents]

/-- What is kept of a magnitude is the magnitude of what is kept. -/
theorem kept_abs (u : UnpackedFloat) : kept u.abs = (kept u).abs := by
  rcases u with s | _ | s | ⟨s, m, e, hm⟩
  · exact (abs_unpack_components s _ _).symm
  · rfl
  · exact (abs_unpack_components s _ _).symm
  · simp only [kept, UnpackedFloat.abs, UnpackedFloat.pack]
    split
    · exact (abs_unpack_components s _ _).symm
    · split
      · exact (abs_unpack_components s _ _).symm
      · exact (abs_unpack_components s _ _).symm

/-! ## Magnitudes of differences -/

theorem abs_round (s t : Sign) (m : ℕ) (e : ℤ) :
    (UnpackedFloat.round Format.binary64 s m e).abs = (UnpackedFloat.round Format.binary64 t m e).abs := by
  simp only [UnpackedFloat.round, UnpackedFloat.roundWithAccuracy]
  split
  · rfl
  · rfl

theorem abs_normalize_neg (n e : ℤ) (s : Sign) :
    (UnpackedFloat.normalize Format.binary64 (-n) e s).abs =
      (UnpackedFloat.normalize Format.binary64 n e s).abs := by
  rcases lt_trichotomy n 0 with hn | rfl | hn
  · have hneg : compare (-n) 0 = .gt := compare_gt_iff_gt.2 (by omega)
    simp only [UnpackedFloat.normalize, hneg, compare_lt_iff_lt.2 hn]
    exact abs_round _ _ _ _
  · rfl
  · have hneg : compare (-n) 0 = .lt := compare_lt_iff_lt.2 (by omega)
    simp only [UnpackedFloat.normalize, hneg, compare_gt_iff_gt.2 hn, neg_neg]
    exact abs_round _ _ _ _

theorem abs_sub_comm (u v : UnpackedFloat) :
    (UnpackedFloat.sub Format.binary64 u v).abs = (UnpackedFloat.sub Format.binary64 v u).abs := by
  -- only two numbers off zero are subtracted by their mantissas
  rcases u with ⟨_ | _⟩ | _ | ⟨_ | _⟩ | ⟨s, m, e, hm⟩ <;>
    rcases v with ⟨_ | _⟩ | _ | ⟨_ | _⟩ | ⟨t, n, e', hn⟩ <;> try rfl
  simp only [UnpackedFloat.sub, min_comm e e']
  rw [← abs_normalize_neg, neg_sub]

theorem parts_distance_comm (x y : Double) : (Scalar.abs (x - y)).parts = (Scalar.abs (y - x)).parts := by
  rw [parts_abs, parts_abs, parts_sub, parts_sub, ← kept_abs, ← kept_abs, abs_sub_comm]

theorem distance_le_comm {x y z : Double} : Scalar.abs (x - y) ≤ z ↔ Scalar.abs (y - x) ≤ z := by
  rw [le_iff, le_iff, parts_distance_comm]

end RootSearch.Double
