import RootSearch.Proofs.Reals
import RootSearch.Refiner
/-!
# The sign change is kept

Two values that are not zero have the same sign or opposite signs. Whichever end of a bracket moves
to a point whose value is not zero, the signs at its ends stay opposite. Brent's method moves more
than one point at a time, but its estimate and its contrapoint always straddle zero.
-/

namespace RootSearch

/-- Values on strictly opposite sides of zero. -/
def Opposite {α : Type} [Scalar α] (y z : α) : Prop := y < 0.0 ∧ 0.0 < z ∨ 0.0 < y ∧ z < 0.0

/-- A bracket whose values have strictly opposite signs. -/
def Bracket.Straddles {α : Type} [Scalar α] (b : Bracket α) : Prop := Opposite b.fMin b.fMax

theorem Opposite.symm {α : Type} [Scalar α] {y z : α} (h : Opposite y z) : Opposite z y := by
  rcases h with ⟨hy, hz⟩ | ⟨hy, hz⟩
  · exact .inr ⟨hz, hy⟩
  · exact .inl ⟨hz, hy⟩

/-! ## Signs of numbers -/

/-- On one side of zero. -/
def Signed {α : Type} [Scalar α] (y : α) : Prop := y < 0.0 ∨ 0.0 < y

/-- What the proofs take of copied signs: a number that has the sign already stays. Two zeros may have
signs, so this is about numbers on one side of zero. -/
class LawfulSigns (α : Type) [Scalar α] : Prop extends LawfulScalar α where
  copySign_of_neg : ∀ {y z : α}, y < 0.0 → z < 0.0 → (Scalar.copySign y z == y) = true
  copySign_of_pos : ∀ {y z : α}, 0.0 < y → 0.0 < z → (Scalar.copySign y z == y) = true

section Signs

variable {α : Type} [Scalar α] [LawfulScalar α] {y z : α}

theorem Scalar.not_neg_of_pos (h : 0.0 < y) : ¬y < 0.0 :=
  fun hneg => (Scalar.lt_iff.1 h).2 (Scalar.le_of_lt hneg)

/-- Of two numbers off zero, one is negative and the other is not, or they share their sign. -/
theorem Signed.opposite_iff (hy : Signed y) (hz : Signed z) : Opposite y z ↔ ¬(y < 0.0 ↔ z < 0.0) := by
  unfold Opposite
  rcases hy with hy | hy <;> rcases hz with hz | hz
  · simp [hy, hz, mt Scalar.not_neg_of_pos (not_not.2 hy), mt Scalar.not_neg_of_pos (not_not.2 hz)]
  · simp [hy, hz, Scalar.not_neg_of_pos hz]
  · simp [hy, hz, Scalar.not_neg_of_pos hy]
  · simp [Scalar.not_neg_of_pos hy, Scalar.not_neg_of_pos hz]

omit [LawfulScalar α] in
theorem Opposite.signed (h : Opposite y z) : Signed y ∧ Signed z := by
  rcases h with ⟨hy, hz⟩ | ⟨hy, hz⟩
  · exact ⟨.inl hy, .inr hz⟩
  · exact ⟨.inr hy, .inl hz⟩

theorem signed_of_number (hy : Scalar.isNaN y = false) (hzero : ¬(y == 0.0) = true) : Signed y := by
  have hy := Scalar.isNaN_eq_false_iff.1 hy
  have h0 : (0.0 : α) ≤ 0.0 := (Scalar.le_refl_of_le (Scalar.le_of_lt Scalar.epsilon_pos)).1
  by_contra hsigned
  obtain ⟨hneg, hpos⟩ := not_or.1 hsigned
  exact hzero (Scalar.beq_iff.2 ⟨Scalar.not_lt h0 hy hpos, Scalar.not_lt hy h0 hneg⟩)

/-- A number that misses an accuracy is off zero. -/
theorem signed_of_missed {accuracy : α} (haccuracy : 0.0 ≤ accuracy) (hy : Scalar.isNaN y = false)
    (hmiss : ¬Scalar.abs y ≤ accuracy) : Signed y := by
  refine signed_of_number hy fun hzero => hmiss ?_
  exact Scalar.le_trans (Scalar.abs_le_zero hzero) haccuracy

theorem Opposite.irrefl (y : α) : ¬Opposite y y := by
  rintro (⟨hneg, hpos⟩ | ⟨hpos, hneg⟩)
  · exact Scalar.not_neg_of_pos hpos hneg
  · exact Scalar.not_neg_of_pos hpos hneg

omit [LawfulScalar α] in
/-- A value off zero is opposite to one of two opposite values. -/
theorem Opposite.or_of_signed {w : α} (h : Opposite y z) (hw : Signed w) :
    Opposite w y ∨ Opposite w z := by
  rcases h with ⟨hy, hz⟩ | ⟨hy, hz⟩ <;> rcases hw with hw | hw
  · exact .inr (.inl ⟨hw, hz⟩)
  · exact .inl (.inr ⟨hw, hy⟩)
  · exact .inl (.inl ⟨hw, hy⟩)
  · exact .inr (.inr ⟨hw, hz⟩)

theorem Brent.sameSign_iff_of_signed (hy : Signed y) (hz : Signed z) :
    sameSign y z = true ↔ ¬Opposite y z := by
  rw [hy.opposite_iff hz, not_not]
  unfold sameSign
  rcases hy with hy | hy <;> rcases hz with hz | hz
  · simp [hy, hz]
  · simp [hy, hz, Scalar.not_neg_of_pos hz, mt Scalar.not_neg_of_pos (not_not.2 hy)]
  · simp [hy, hz, Scalar.not_neg_of_pos hy, mt Scalar.not_neg_of_pos (not_not.2 hz)]
  · simp [hy, hz, Scalar.not_neg_of_pos hy, Scalar.not_neg_of_pos hz]

/-- Once arranged, the contrapoint is not the better point. -/
theorem Brent.arrange_ordered (b : Bracket α) (i : Iterate α) :
    ¬Scalar.abs (arrange b i).1.fMax < Scalar.abs (arrange b i).2.fx := by
  show ¬Scalar.abs (swap (reset b i).1 (reset b i).2).1.fMax <
    Scalar.abs (swap (reset b i).1 (reset b i).2).2.fx
  unfold swap
  split
  · next h => exact fun h' => (Scalar.lt_iff.1 h').2 (Scalar.le_of_lt h)
  · next h => exact h

theorem Bracket.Straddles.shrink_of_signed {b : Bracket α} {x fx : α} (hb : b.Straddles)
    (hfx : Signed fx) : (b.shrink x fx).Straddles := by
  obtain ⟨hmin, hmax⟩ := Opposite.signed hb
  have hsigns := (hmin.opposite_iff hmax).1 hb
  unfold Bracket.shrink
  split
  · next h =>
    have hsame := decide_eq_decide.1 h
    exact (hfx.opposite_iff hmax).2 (by rw [hsame]; exact hsigns)
  · next h =>
    rw [decide_eq_decide] at h
    exact (hmin.opposite_iff hfx).2 fun h' => h h'.symm

end Signs

/-- Where the midpoint does not take over the sign of the new value, they have opposite signs. -/
theorem Ridder.narrow_straddles_of_signed {α : Type} [Scalar α] [LawfulSigns α] {b : Bracket α}
    {mid fMid x fx : α} (hb : b.Straddles) (hmid : Signed fMid) (hfx : Signed fx) :
    (narrow b mid fMid x fx).Straddles := by
  unfold narrow
  split
  · next h =>
    refine (hmid.opposite_iff hfx).2 fun hsame => ?_
    have hcopy : (Scalar.copySign fMid fx == fMid) = true := by
      rcases hmid with hmid | hmid
      · exact LawfulSigns.copySign_of_neg hmid (hsame.1 hmid)
      · have hneg := Scalar.not_neg_of_pos hmid
        exact LawfulSigns.copySign_of_pos hmid (hfx.resolve_left (mt hsame.2 hneg))
    simp [hcopy] at h
  · exact hb.shrink_of_signed hfx

/-! ## Signs of reals -/

theorem opposite_iff_mul_neg {y z : ℝ} : Opposite y z ↔ y * z < 0 := by
  unfold Opposite
  norm_num
  rw [mul_neg_iff]
  tauto

theorem signed_of_ne_zero {y : ℝ} (hy : y ≠ 0) : Signed y := by
  unfold Signed
  rw [Scalar.real_zero]
  exact lt_or_gt_of_ne hy

/-- Of two values that are not zero, one is negative and the other is not, or they share their sign. -/
theorem opposite_iff {y z : ℝ} (hy : y ≠ 0) (hz : z ≠ 0) : Opposite y z ↔ ¬(y < 0 ↔ z < 0) := by
  rw [(signed_of_ne_zero hy).opposite_iff (signed_of_ne_zero hz), Scalar.real_zero]

theorem Opposite.ne_zero {y z : ℝ} (h : Opposite y z) : y ≠ 0 ∧ z ≠ 0 :=
  mul_ne_zero_iff.1 (opposite_iff_mul_neg.1 h).ne

/-- What is opposite to one of two opposite values has the sign of the way to the other. -/
theorem Opposite.mul_sub_pos {y z w : ℝ} (hzw : Opposite z w) (hyw : Opposite y w) : 0 < y * (z - w) := by
  unfold Opposite at hzw hyw
  rw [Scalar.real_zero] at hzw hyw
  rcases hyw with ⟨hy, hw⟩ | ⟨hy, hw⟩
  · have hz : z < 0 := hzw.elim And.left fun h => absurd hw h.2.not_gt
    exact mul_pos_of_neg_of_neg hy (by linarith)
  · have hz : 0 < z := hzw.elim (fun h => absurd hw h.2.not_gt) And.left
    exact mul_pos hy (by linarith)

/-- A value that is not zero is opposite to one of two opposite values. -/
theorem Opposite.or {y z w : ℝ} (h : Opposite y z) (hw : w ≠ 0) : Opposite w y ∨ Opposite w z :=
  h.or_of_signed (signed_of_ne_zero hw)

/-! ## Brackets that shrink -/

/-- Where no end is a root, values whose product is not positive have opposite signs. -/
theorem Bracket.straddles_of_crossed {b : Bracket ℝ} (hle : b.fMin * b.fMax ≤ 0.0)
    (hmin : ¬(b.fMin == 0.0) = true) (hmax : ¬(b.fMax == 0.0) = true) : b.Straddles := by
  norm_num at hle hmin hmax
  exact opposite_iff_mul_neg.2 (lt_of_le_of_ne hle (mul_ne_zero hmin hmax))

theorem Bracket.Straddles.shrink {b : Bracket ℝ} {x fx : ℝ} (hb : b.Straddles) (hfx : fx ≠ 0) :
    (b.shrink x fx).Straddles :=
  hb.shrink_of_signed (signed_of_ne_zero hfx)

instance : LawfulSigns ℝ where
  copySign_of_neg := by
    intro y z hy hz
    rw [Scalar.real_zero] at hy hz
    rw [Scalar.real_beq, Scalar.real_copySign, if_pos hz, abs_of_neg hy, neg_neg, decide_eq_true_iff]
  copySign_of_pos := by
    intro y z hy hz
    rw [Scalar.real_zero] at hy hz
    rw [Scalar.real_beq, Scalar.real_copySign, if_neg hz.not_gt, abs_of_pos hy, decide_eq_true_iff]

theorem Ridder.narrow_straddles {b : Bracket ℝ} {mid fMid x fx : ℝ} (hb : b.Straddles)
    (hmid : fMid ≠ 0) (hfx : fx ≠ 0) : (narrow b mid fMid x fx).Straddles :=
  narrow_straddles_of_signed hb (signed_of_ne_zero hmid) (signed_of_ne_zero hfx)

/-! ## Brent's method -/

namespace Brent

/-- The estimate and its contrapoint have values of opposite signs. -/
def Straddles (b : Bracket ℝ) (i : Iterate ℝ) : Prop := Opposite i.fx b.fMax

/-- Before the points are arranged, the previous estimate may be the better contrapoint. -/
structure Arrangeable (b : Bracket ℝ) (i : Iterate ℝ) : Prop where
  estimate : i.fx ≠ 0
  contrapoint : b.fMax ≠ 0
  opposite : Opposite i.fx b.fMax ∨ Opposite i.fx b.fMin

theorem pickContrapoint_straddles {b : Bracket ℝ} {fx : ℝ} (hb : b.Straddles) (hfx : fx ≠ 0) :
    Opposite fx (pickContrapoint b fx).fMax := by
  unfold pickContrapoint
  split
  · next h =>
    norm_num at h
    exact opposite_iff_mul_neg.2 h
  · next h =>
    norm_num at h
    refine (hb.or hfx).resolve_left fun hmin => ?_
    exact absurd (opposite_iff_mul_neg.1 hmin) (not_lt.2 h)

theorem sameSign_iff {y z : ℝ} (hy : y ≠ 0) (hz : z ≠ 0) :
    sameSign y z = true ↔ ¬Opposite y z :=
  sameSign_iff_of_signed (signed_of_ne_zero hy) (signed_of_ne_zero hz)

variable {b : Bracket ℝ} {i : Iterate ℝ}

theorem reset_straddles (h : Arrangeable b i) : Straddles (reset b i).1 (reset b i).2 := by
  unfold reset
  split
  · next hsame =>
    -- the contrapoint is on the side of the estimate, so the previous estimate is not
    exact h.opposite.resolve_left ((sameSign_iff h.estimate h.contrapoint).1 hsame)
  · next hsame =>
    rw [sameSign_iff h.estimate h.contrapoint, not_not] at hsame
    exact hsame

theorem swap_straddles (h : Straddles b i) : Straddles (swap b i).1 (swap b i).2 := by
  unfold swap
  split
  · exact Opposite.symm h
  · exact h

theorem arrange_straddles (h : Arrangeable b i) : Straddles (arrange b i).1 (arrange b i).2 :=
  swap_straddles (reset_straddles h)

end Brent

end RootSearch
