import Mathlib
import RootSearch.Proofs.Searching
import RootSearch.Proofs.SignChange
/-!
# Multiples of an objective

When an objective is multiplied by a number that is not zero, so are all values that a method keeps,
and it still goes to the same points: each is found from a quotient of values, and each test compares
magnitudes or the signs of two values. A negative factor turns all signs around, so what is ordered
by sign trades places.
-/

namespace RootSearch

variable {c y z : ℝ}

namespace Scalar

theorem quotient_times (hc : c ≠ 0) (y z : ℝ) : quotient (c * y) (c * z) = quotient y z := by
  unfold quotient
  simp [real_zero, hc, mul_div_mul_left]

theorem abs_times_le (hc : c ≠ 0) {bound : ℝ} : abs (c * y) ≤ |c| * bound ↔ abs y ≤ bound := by
  rw [real_abs, real_abs, abs_mul]
  exact mul_le_mul_iff_right₀ (abs_pos.2 hc)

theorem abs_times_lt (hc : c ≠ 0) {bound : ℝ} : abs (c * y) < |c| * bound ↔ abs y < bound := by
  rw [real_abs, real_abs, abs_mul]
  exact mul_lt_mul_iff_right₀ (abs_pos.2 hc)

theorem abs_times_lt_abs (hc : c ≠ 0) : abs (c * y) < abs (c * z) ↔ abs y < abs z := by
  rw [real_abs (c * z), abs_mul]
  exact abs_times_lt hc

theorem beq_times (hc : c ≠ 0) : (c * y == c * z) = (y == z) := by
  simp [hc]

theorem beq_zero_times (hc : c ≠ 0) : (c * y == 0.0) = (y == 0.0) := by
  simp [real_zero, hc]

end Scalar

/-! ## Signs -/

theorem times_neg_of_pos (hc : 0 < c) : c * y < 0 ↔ y < 0 :=
  lt_iff_lt_of_le_iff_le (mul_nonneg_iff_of_pos_left hc)

theorem times_nonpos_of_pos (hc : 0 < c) : c * y ≤ 0 ↔ y ≤ 0 :=
  not_lt.symm.trans ((not_congr (mul_pos_iff_of_pos_left hc)).trans not_lt)

theorem times_neg_of_neg (hc : c < 0) : c * y < 0 ↔ 0 < y := by
  simp [mul_neg_iff, hc, hc.not_gt]

/-- Two values that share their sign still do. -/
theorem times_neg_iff (hc : c ≠ 0) (hy : y ≠ 0) (hz : z ≠ 0) :
    (c * y < 0 ↔ c * z < 0) ↔ (y < 0 ↔ z < 0) := by
  rcases lt_or_gt_of_ne hc with hc | hc
  · rw [times_neg_of_neg hc, times_neg_of_neg hc, ← hy.symm.le_iff_lt, ← hz.symm.le_iff_lt, ← not_lt,
      ← not_lt, not_iff_not]
  · rw [times_neg_of_pos hc, times_neg_of_pos hc]

theorem mul_times (y z : ℝ) : c * y * (c * z) = c ^ 2 * (y * z) := by
  ring

theorem mul_times_neg (hc : c ≠ 0) : c * y * (c * z) < 0.0 ↔ y * z < 0.0 := by
  rw [mul_times, Scalar.real_zero]
  exact times_neg_of_pos (by positivity)

theorem mul_times_nonpos (hc : c ≠ 0) : c * y * (c * z) ≤ 0.0 ↔ y * z ≤ 0.0 := by
  rw [mul_times, Scalar.real_zero]
  exact times_nonpos_of_pos (by positivity)

/-! ## Objectives and brackets -/

def Slope.times (c : ℝ) (slope : Slope ℝ) : Slope ℝ := fun x => (slope x).map (c * ·)

/-- The objective and its derivative, multiplied by `c`. -/
def Objective.times (c : ℝ) (f : Objective ℝ) : Objective ℝ where
  value x := (f.value x).map (c * ·)
  slope := f.slope.map (Slope.times c)

/-- The refiner for the objective multiplied by `c`. -/
def Refiner.times (c : ℝ) (r : Refiner ℝ) : Refiner ℝ :=
  { r with slope := r.slope.map (Slope.times c) }

theorem Objective.slopeFor_times (c : ℝ) (f : Objective ℝ) (method : Method)
    (supplied : Option (Slope ℝ)) :
    (f.times c).slopeFor method (supplied.map (Slope.times c)) =
      (f.slopeFor method supplied).map (Slope.times c) := by
  unfold slopeFor
  cases supplied with
  | some slope => rfl
  | none => cases h : f.slope <;> simp [times, h] <;> rfl

namespace Bracket

variable {b : Bracket ℝ} {x fx : ℝ}

/-- The bracket of the objective multiplied by `c`. -/
def times (c : ℝ) (b : Bracket ℝ) : Bracket ℝ := { b with fMin := c * b.fMin, fMax := c * b.fMax }

theorem shrink_times (hc : c ≠ 0) (hmin : b.fMin ≠ 0) (hfx : fx ≠ 0) :
    (b.times c).shrink x (c * fx) = (b.shrink x fx).times c := by
  have hsigns : decide (c * fx < 0.0) = decide ((b.times c).fMin < 0.0) ↔
      decide (fx < 0.0) = decide (b.fMin < 0.0) := by
    rw [decide_eq_decide, decide_eq_decide, Scalar.real_zero]
    exact times_neg_iff hc hfx hmin
  unfold shrink
  simp only [hsigns]
  split <;> rfl

theorem closer_times (hc : c ≠ 0) (p q : ℝ × ℝ) :
    closer (p.1, c * p.2) (q.1, c * q.2) = ((closer p q).1, c * (closer p q).2) := by
  unfold closer
  simp only [Scalar.abs_times_lt_abs hc]
  split <;> rfl

theorem best_times (hc : c ≠ 0) (b : Bracket ℝ) (x fx : ℝ) :
    (b.times c).best (x, c * fx) = ((b.best (x, fx)).1, c * (b.best (x, fx)).2) := by
  unfold best
  rw [← closer_times hc, ← closer_times hc]
  rfl

end Bracket

variable {b : Bracket ℝ} {x fx mid fMid : ℝ}

/-! ## False position and secant -/

theorem FalsePosition.chord_times (hc : c ≠ 0) (b : Bracket ℝ) : chord (b.times c) = chord b := by
  have hrun : (b.xMax - b.xMin) * (c * b.fMin) = c * ((b.xMax - b.xMin) * b.fMin) := by ring
  have hrise : c * b.fMin - c * b.fMax = c * (b.fMin - b.fMax) := by ring
  simp only [chord, Bracket.times, hrun, hrise, Scalar.quotient_times hc]

namespace Secant

def Points.times (c : ℝ) (p : Points ℝ) : Points ℝ := { p with fx := c * p.fx, fLast := c * p.fLast }

theorem ofBracket_times (hc : c ≠ 0) (b : Bracket ℝ) :
    Points.ofBracket (b.times c) = (Points.ofBracket b).times c := by
  unfold Points.ofBracket
  simp only [Bracket.times, Scalar.abs_times_lt_abs hc]
  split <;> rfl

theorem secantStep_times (hc : c ≠ 0) (p : Points ℝ) : secantStep (p.times c) = secantStep p := by
  have hrun : (p.xLast - p.x) * (c * p.fx) = c * ((p.xLast - p.x) * p.fx) := by ring
  have hrise : c * p.fx - c * p.fLast = c * (p.fx - p.fLast) := by ring
  simp only [secantStep, Points.times, hrun, hrise, Scalar.quotient_times hc]

end Secant

/-! ## Ridders' method -/

namespace Ridder

theorem scale_times (hc : c ≠ 0) (b : Bracket ℝ) (fMid : ℝ) :
    scale (b.times c) (c * fMid) = (scale b fMid).map (|c| * ·) := by
  have hsquare : c * fMid * (c * fMid) - c * b.fMin * (c * b.fMax) =
      c ^ 2 * (fMid * fMid - b.fMin * b.fMax) := by ring
  have hsqrt (y : ℝ) : √(c ^ 2 * y) = |c| * √y := by
    rw [Real.sqrt_mul (sq_nonneg c), Real.sqrt_sq_eq_abs]
  have hneg (y : ℝ) : c ^ 2 * y < 0 ↔ y < 0 := times_neg_of_pos (by positivity)
  simp only [scale, Scalar.root, Bracket.times, hsquare, Scalar.real_zero, hneg]
  split
  · rfl
  · exact congrArg Except.ok (hsqrt _)

/-- The direction of the fit. -/
def direction {α : Type} [Scalar α] (b : Bracket α) : α := if b.fMax ≤ b.fMin then 1.0 else -1.0

theorem fitted_eq {α : Type} [Scalar α] (b : Bracket α) (mid fMid s : α) :
    fitted b mid fMid s = (Scalar.quotient ((mid - b.xMin) * direction b * fMid) s).map (mid + ·) := by
  simp only [fitted, direction]
  cases Scalar.quotient _ s <;> rfl

/-- Under a negative factor the direction turns around together with the values. -/
theorem direction_times (hc : c ≠ 0) (hb : b.Straddles) :
    direction (b.times c) * c = |c| * direction b := by
  have hne : b.fMin ≠ b.fMax := by
    intro h
    have hprod := opposite_iff_mul_neg.1 hb
    rw [h] at hprod
    exact absurd hprod (not_lt.2 (mul_self_nonneg _))
  have hup : (1.0 : ℝ) = 1 := by norm_num
  have horder : c * b.fMax ≤ c * b.fMin ↔ if 0 < c then b.fMax ≤ b.fMin else ¬b.fMax ≤ b.fMin := by
    split
    · next hpos => exact mul_le_mul_iff_right₀ hpos
    · next hneg =>
      have hneg : c < 0 := lt_of_le_of_ne (not_lt.1 hneg) hc
      rw [mul_le_mul_left_of_neg hneg, not_le, hne.le_iff_lt]
  simp only [direction, Bracket.times, hup]
  by_cases hpos : 0 < c
  · simp only [horder, hpos, if_true, abs_of_pos hpos, mul_comm]
  · have hneg : c < 0 := lt_of_le_of_ne (not_lt.1 hpos) hc
    by_cases hle : b.fMax ≤ b.fMin
    · simp [horder, hpos, hle, abs_of_neg hneg]
    · simp [horder, hpos, hle, abs_of_neg hneg]

theorem fitted_times (hc : c ≠ 0) (hb : b.Straddles) (mid fMid s : ℝ) :
    fitted (b.times c) mid (c * fMid) (|c| * s) = fitted b mid fMid s := by
  have hrun : (mid - b.xMin) * direction (b.times c) * (c * fMid) =
      |c| * ((mid - b.xMin) * direction b * fMid) := by
    calc (mid - b.xMin) * direction (b.times c) * (c * fMid)
        = (mid - b.xMin) * (direction (b.times c) * c) * fMid := by ring
      _ = |c| * ((mid - b.xMin) * direction b * fMid) := by rw [direction_times hc hb]; ring
  rw [fitted_eq, fitted_eq]
  show (Scalar.quotient ((mid - b.xMin) * direction (b.times c) * (c * fMid)) (|c| * s)).map _ = _
  rw [hrun, Scalar.quotient_times (abs_ne_zero.2 hc)]

theorem copySign_beq_iff (hmid : fMid ≠ 0) :
    (Scalar.copySign fMid fx == fMid) = decide (fx < 0 ↔ fMid < 0) := by
  rw [Scalar.real_beq, Scalar.real_copySign, decide_eq_decide]
  rcases lt_or_gt_of_ne hmid with hmid | hmid <;> by_cases hfx : fx < 0
  · simp [hfx, hmid, abs_of_neg]
  · simp [hfx, hmid, abs_of_neg, neg_eq_self, hmid.ne]
  · simp [hfx, hmid.not_gt, abs_of_pos hmid, neg_eq_self, hmid.ne']
  · simp [hfx, hmid.not_gt, abs_of_pos hmid]

theorem narrow_times (hc : c ≠ 0) (hmin : b.fMin ≠ 0) (hmid : fMid ≠ 0) (hfx : fx ≠ 0) :
    narrow (b.times c) mid (c * fMid) x (c * fx) = (narrow b mid fMid x fx).times c := by
  simp only [narrow, copySign_beq_iff hmid, copySign_beq_iff (mul_ne_zero hc hmid),
    times_neg_iff hc hfx hmid, Bracket.shrink_times hc hmin hfx]
  split <;> rfl

end Ridder

/-! ## Newton's method -/

def Newton.Point.times (c : ℝ) (p : Point ℝ) : Point ℝ := { p with fx := c * p.fx, slope := c * p.slope }

namespace SafeNewton

/-- The second iterate is of the objective multiplied by `c`. A negative factor exchanges its two ends,
and what goes from one to the other goes back instead. -/
structure Mirrors (c : ℝ) (i i' : Iterate ℝ) : Prop where
  ends : 0 < c ∧ i'.xLow = i.xLow ∧ i'.xHigh = i.xHigh ∨ c < 0 ∧ i'.xLow = i.xHigh ∧ i'.xHigh = i.xLow
  step : |i'.step| = |i.step|
  lastStep : |i'.lastStep| = |i.lastStep|
  point : i'.point = i.point.times c

variable {i i' : Iterate ℝ}

theorem orient_mirrors (hc : c ≠ 0) (hmin : b.fMin ≠ 0) (step lastStep : ℝ) (p : Newton.Point ℝ) :
    Mirrors c ⟨(orient b).1, (orient b).2, step, lastStep, p⟩
      ⟨(orient (b.times c)).1, (orient (b.times c)).2, step, lastStep, p.times c⟩ := by
  refine ⟨?_, rfl, rfl, rfl⟩
  unfold orient
  simp only [Bracket.times, Scalar.real_zero]
  rcases lt_or_gt_of_ne hc with hneg | hpos
  · refine .inr ⟨hneg, ?_⟩
    rcases lt_or_gt_of_ne hmin with hmin | hmin
    · simp [times_neg_of_neg hneg, hmin, hmin.not_gt]
    · simp [times_neg_of_neg hneg, hmin, hmin.not_gt]
  · refine .inl ⟨hpos, ?_⟩
    simp [times_neg_of_pos hpos]

theorem leadsOut_eq (hc : c ≠ 0) (h : Mirrors c i i') : leadsOut i' = leadsOut i := by
  have hproduct : ((i'.point.x - i'.xHigh) * i'.point.slope - i'.point.fx) *
        ((i'.point.x - i'.xLow) * i'.point.slope - i'.point.fx) =
      c ^ 2 * (((i.point.x - i.xHigh) * i.point.slope - i.point.fx) *
        ((i.point.x - i.xLow) * i.point.slope - i.point.fx)) := by
    rcases h.ends with ⟨-, hlow, hhigh⟩ | ⟨-, hlow, hhigh⟩
    · rw [hlow, hhigh, h.point, Newton.Point.times]
      ring
    · rw [hlow, hhigh, h.point, Newton.Point.times]
      ring
  unfold leadsOut
  rw [decide_eq_decide, hproduct, Scalar.real_zero]
  exact mul_pos_iff_of_pos_left (by positivity)

theorem isSlow_eq (hc : c ≠ 0) (h : Mirrors c i i') : isSlow i' = isSlow i := by
  have hstep : |i'.lastStep * i'.point.slope| = |c| * |i.lastStep * i.point.slope| := by
    rw [h.point, Newton.Point.times, abs_mul, h.lastStep, abs_mul, abs_mul]
    ring
  have hvalue : |2.0 * i'.point.fx| = |c| * |2.0 * i.point.fx| := by
    rw [h.point, Newton.Point.times, ← abs_mul, mul_left_comm]
  unfold isSlow
  rw [decide_eq_decide, Scalar.real_abs, Scalar.real_abs, Scalar.real_abs, Scalar.real_abs, hstep, hvalue]
  exact mul_lt_mul_iff_right₀ (abs_pos.2 hc)

/-- The step may turn around but leads to the same point. -/
theorem advance_mirrors (hc : c ≠ 0) (h : Mirrors c i i') :
    ∃ turn : ℝ, |turn| = 1 ∧ advance i' = (advance i).map fun p => (turn * p.1, p.2) := by
  unfold advance
  rw [leadsOut_eq hc h, isSlow_eq hc h]
  split
  · rcases h.ends with ⟨-, hlow, hhigh⟩ | ⟨-, hlow, hhigh⟩
    · refine ⟨1, abs_one, ?_⟩
      rw [hlow, hhigh]
      simp [Except.map]
    · -- half the way from the one end or half the way back from the other
      refine ⟨-1, by simp, ?_⟩
      rw [hlow, hhigh]
      refine congrArg Except.ok (Prod.ext ?_ ?_)
      · show 0.5 * (i.xLow - i.xHigh) = -1 * (0.5 * (i.xHigh - i.xLow))
        ring
      · show i.xHigh + 0.5 * (i.xLow - i.xHigh) = i.xLow + 0.5 * (i.xHigh - i.xLow)
        ring
  · refine ⟨1, abs_one, ?_⟩
    simp only [h.point, Newton.Point.times, Scalar.quotient_times hc]
    cases Scalar.quotient i.point.fx i.point.slope with
    | error fault => rfl
    | ok dx => simp [Except.map, bind, Except.bind, pure, Except.pure]

theorem next_mirrors (h : Mirrors c i i') {dx dx' : ℝ} (hdx : |dx'| = |dx|)
    {p : Newton.Point ℝ} (hfx : p.fx ≠ 0) : Mirrors c (i.next dx p) (i'.next dx' (p.times c)) := by
  unfold Iterate.next
  simp only [Newton.Point.times, Scalar.real_zero]
  rcases h.ends with ⟨hpos, hlow, hhigh⟩ | ⟨hneg, hlow, hhigh⟩
  · rcases lt_or_gt_of_ne hfx with hfx | hfx
    · rw [if_pos hfx, if_pos ((times_neg_of_pos hpos).2 hfx)]
      exact ⟨.inl ⟨hpos, rfl, hhigh⟩, hdx, h.step, rfl⟩
    · rw [if_neg hfx.not_gt, if_neg (mt (times_neg_of_pos hpos).1 hfx.not_gt)]
      exact ⟨.inl ⟨hpos, hlow, rfl⟩, hdx, h.step, rfl⟩
  · -- the value turns its sign, so the point becomes the other end, which is its place in the exchange
    rcases lt_or_gt_of_ne hfx with hfx | hfx
    · rw [if_pos hfx, if_neg (mt (times_neg_of_neg hneg).1 hfx.not_gt)]
      exact ⟨.inr ⟨hneg, hlow, rfl⟩, hdx, h.step, rfl⟩
    · rw [if_neg hfx.not_gt, if_pos ((times_neg_of_neg hneg).2 hfx)]
      exact ⟨.inr ⟨hneg, rfl, hhigh⟩, hdx, h.step, rfl⟩

end SafeNewton

/-! ## Brent's method -/

namespace Brent

variable {i : Iterate ℝ}

def Iterate.times (c : ℝ) (i : Iterate ℝ) : Iterate ℝ := { i with fx := c * i.fx }

theorem pickContrapoint_times (hc : c ≠ 0) (b : Bracket ℝ) (fx : ℝ) :
    pickContrapoint (b.times c) (c * fx) = (pickContrapoint b fx).times c := by
  unfold pickContrapoint
  simp only [Bracket.times, mul_times_neg hc]
  split <;> rfl

theorem sameSign_times (hc : c ≠ 0) (y z : ℝ) : sameSign (c * y) (c * z) = sameSign y z := by
  have hproduct (y z : ℝ) : sameSign y z = decide (0 < y * z) := by
    rw [Bool.eq_iff_iff]
    simp [sameSign, Scalar.real_zero, mul_pos_iff]
  have hc2 : 0 < c ^ 2 := by positivity
  rw [hproduct, hproduct, mul_times, decide_eq_decide]
  exact mul_pos_iff_of_pos_left hc2

theorem reset_times (hc : c ≠ 0) (b : Bracket ℝ) (i : Iterate ℝ) :
    reset (b.times c) (i.times c) = ((reset b i).1.times c, (reset b i).2.times c) := by
  unfold reset
  simp only [Iterate.times, Bracket.times, sameSign_times hc]
  split <;> rfl

theorem swap_times (hc : c ≠ 0) (b : Bracket ℝ) (i : Iterate ℝ) :
    swap (b.times c) (i.times c) = ((swap b i).1.times c, (swap b i).2.times c) := by
  unfold swap
  simp only [Iterate.times, Bracket.times, Scalar.abs_times_lt_abs hc]
  split <;> rfl

theorem arrange_times (hc : c ≠ 0) (b : Bracket ℝ) (i : Iterate ℝ) :
    arrange (b.times c) (i.times c) = ((arrange b i).1.times c, (arrange b i).2.times c) := by
  unfold arrange
  rw [reset_times hc]
  exact swap_times hc _ _

theorem interpolate_times (hc : c ≠ 0) (b : Bracket ℝ) (i : Iterate ℝ) (half : ℝ) :
    interpolate (b.times c) (i.times c) half = interpolate b i half := by
  simp only [interpolate, Iterate.times, Bracket.times, Scalar.quotient_times hc]

theorem chooseStep_times (hc : c ≠ 0) (b : Bracket ℝ) (i : Iterate ℝ) (half tol : ℝ) :
    chooseStep (b.times c) (i.times c) half tol = chooseStep b i half tol := by
  unfold chooseStep
  rw [interpolate_times hc]
  simp only [Iterate.times, Bracket.times, Scalar.abs_times_lt_abs hc]
  split <;> rfl

end Brent

/-! ## Searches -/

namespace Search

theorem side_times (hc : c ≠ 0) (b : Bracket ℝ) (tieLow : Bool) :
    side (b.times c) tieLow = side b tieLow := by
  simp only [side, Bracket.times, Scalar.abs_times_lt_abs hc]

end Search

end RootSearch
