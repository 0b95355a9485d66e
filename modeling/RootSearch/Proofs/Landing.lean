import RootSearch.Proofs.SignChange
/-!
# Where a step lands

Each method has its own formula for the next point. Over the reals every one of them lands between
the ends of the bracket: for some by the formula, given a sign change between the ends, and for the
others because a test turns back what would lead out.
-/

namespace RootSearch

/-! ## Points between two others -/

theorem mem_uIcc_of_mul_nonneg {a b x : ℝ} (h : 0 ≤ (a - x) * (x - b)) : x ∈ Set.uIcc a b := by
  rw [Set.mem_uIcc]
  rcases mul_nonneg_iff.1 h with ⟨ha, hb⟩ | ⟨ha, hb⟩
  · exact .inr ⟨by linarith, by linarith⟩
  · exact .inl ⟨by linarith, by linarith⟩

theorem add_mul_mem_uIcc (a b : ℝ) {t : ℝ} (h0 : 0 ≤ t) (h1 : t ≤ 1) :
    a + (b - a) * t ∈ Set.uIcc a b := by
  refine mem_uIcc_of_mul_nonneg ?_
  have h : (a - (a + (b - a) * t)) * (a + (b - a) * t - b) = (b - a) ^ 2 * (t * (1 - t)) := by ring
  rw [h]
  exact mul_nonneg (sq_nonneg _) (mul_nonneg h0 (by linarith))

theorem Bracket.midpoint_mem (b : Bracket ℝ) : b.midpoint ∈ Set.uIcc b.xMin b.xMax := by
  have h : b.midpoint = b.xMin + (b.xMax - b.xMin) * (1 / 2) := by
    unfold Bracket.midpoint
    ring
  rw [h]
  exact add_mul_mem_uIcc _ _ (by norm_num) (by norm_num)

theorem bind_eq_ok {ε β γ : Type} {m : Except ε β} {k : β → Except ε γ} {c : γ} :
    m >>= k = .ok c ↔ ∃ b, m = .ok b ∧ k b = .ok c := by
  rcases m with _ | b
  · exact ⟨nofun, fun ⟨_, h, _⟩ => nomatch h⟩
  · exact ⟨fun h => ⟨b, rfl, h⟩, fun ⟨_, rfl, h⟩ => h⟩

theorem Scalar.quotient_eq_ok {x y z : ℝ} (h : Scalar.quotient x y = .ok z) : y ≠ 0 ∧ z = x / y := by
  unfold Scalar.quotient at h
  split at h
  · cases h
  · next hy =>
    cases h
    refine ⟨?_, rfl⟩
    rintro rfl
    norm_num at hy

/-! ## False position -/

/-- The chord between values of opposite signs crosses zero between its ends. -/
theorem FalsePosition.chord_mem {b : Bracket ℝ} {x : ℝ} (hb : b.Straddles) (h : chord b = .ok x) :
    x ∈ Set.uIcc b.xMin b.xMax := by
  obtain ⟨dx, hq, hx⟩ := bind_eq_ok.1 h
  obtain ⟨hne, rfl⟩ := Scalar.quotient_eq_ok hq
  cases hx
  rw [mul_div_assoc]
  have hprod : b.fMin * b.fMax < 0 := opposite_iff_mul_neg.1 hb
  -- the share of the way to the other end and what is left of it, over a square
  have hsq : 0 < (b.fMin - b.fMax) ^ 2 := by positivity
  have hlow : b.fMin / (b.fMin - b.fMax) = (b.fMin ^ 2 - b.fMin * b.fMax) / (b.fMin - b.fMax) ^ 2 := by
    field_simp
  have hhigh : 1 - b.fMin / (b.fMin - b.fMax) =
      (b.fMax ^ 2 - b.fMin * b.fMax) / (b.fMin - b.fMax) ^ 2 := by
    field_simp
    ring
  refine add_mul_mem_uIcc _ _ ?_ (sub_nonneg.1 ?_)
  · rw [hlow]
    exact div_nonneg (by nlinarith) hsq.le
  · rw [hhigh]
    exact div_nonneg (by nlinarith) hsq.le

/-! ## Secant -/

/-- A secant step that leads out of the bracket gives way to the midpoint. -/
theorem Secant.insideStep_mem (b : Bracket ℝ) (x dx : ℝ) :
    x + insideStep b x dx ∈ Set.uIcc b.xMin b.xMax := by
  unfold insideStep
  split
  · have h : x + (b.midpoint - x) = b.midpoint := by ring
    rw [h]
    exact b.midpoint_mem
  · next h =>
    refine mem_uIcc_of_mul_nonneg ?_
    norm_num at h
    linarith

/-! ## Ridders' method -/

theorem Ridder.scale_eq_ok {b : Bracket ℝ} {fMid s : ℝ} (h : scale b fMid = .ok s) :
    s = √(fMid * fMid - b.fMin * b.fMax) := by
  unfold scale Scalar.root at h
  split at h
  · cases h
  · cases h
    rfl

theorem Ridder.fitted_eq_ok {b : Bracket ℝ} {mid fMid s x : ℝ} (h : fitted b mid fMid s = .ok x) :
    ∃ direction : ℝ, |direction| = 1 ∧ 0 ≤ direction * (b.fMin - b.fMax) ∧
      x = mid + (mid - b.xMin) * direction * fMid / s := by
  obtain ⟨direction, hdirection⟩ : ∃ d : ℝ, d = if b.fMax ≤ b.fMin then 1.0 else -1.0 := ⟨_, rfl⟩
  refine ⟨direction, ?_, ?_, ?_⟩
  · rw [hdirection]
    split <;> norm_num
  · rw [hdirection]
    split <;> norm_num <;> linarith
  · obtain ⟨dx, hq, hx⟩ := bind_eq_ok.1 h
    obtain ⟨-, rfl⟩ := Scalar.quotient_eq_ok hq
    cases hx
    rw [hdirection]

/-- The fit moves the midpoint by no more than half the bracket, and not towards the end that shares its
sign. -/
theorem Ridder.fitted_share {b : Bracket ℝ} {fMid s x : ℝ} (hb : b.Straddles)
    (hs : scale b fMid = .ok s) (h : fitted b b.midpoint fMid s = .ok x) :
    ∃ t : ℝ, |t| ≤ 1 ∧ 0 ≤ t * (fMid * (b.fMin - b.fMax)) ∧
      x = b.midpoint + (b.xMax - b.midpoint) * t := by
  have hprod : b.fMin * b.fMax < 0 := opposite_iff_mul_neg.1 hb
  have hle : |fMid| ≤ s := by
    rw [scale_eq_ok hs]
    exact Real.abs_le_sqrt (by nlinarith)
  have hs : 0 ≤ s := (abs_nonneg fMid).trans hle
  obtain ⟨direction, hdir, hsign, hx⟩ := fitted_eq_ok h
  have hmid : b.midpoint - b.xMin = b.xMax - b.midpoint := by
    unfold Bracket.midpoint
    ring
  refine ⟨direction * fMid / s, ?_, ?_, ?_⟩
  · rw [abs_div, abs_mul, hdir, one_mul, abs_of_nonneg hs]
    exact div_le_one_of_le₀ hle hs
  · have hshare : direction * fMid / s * (fMid * (b.fMin - b.fMax)) =
        fMid ^ 2 * (direction * (b.fMin - b.fMax)) / s := by ring
    rw [hshare]
    positivity
  · rw [hx, hmid]
    ring

theorem Ridder.fitted_mem {b : Bracket ℝ} {fMid s x : ℝ} (hb : b.Straddles)
    (hs : scale b fMid = .ok s) (h : fitted b b.midpoint fMid s = .ok x) :
    x ∈ Set.uIcc b.xMin b.xMax := by
  obtain ⟨t, ht, -, hx⟩ := fitted_share hb hs h
  obtain ⟨hlow, hhigh⟩ := abs_le.1 ht
  have hx' : x = b.xMin + (b.xMax - b.xMin) * (1 / 2 + t / 2) := by
    rw [hx]
    unfold Bracket.midpoint
    ring
  rw [hx']
  exact add_mul_mem_uIcc _ _ (by linarith) (by linarith)

/-! ## Newton's methods -/

theorem Newton.inside_mem {b : Bracket ℝ} {x : ℝ} (h : ¬isOutside b x = true) :
    x ∈ Set.uIcc b.xMin b.xMax := by
  refine mem_uIcc_of_mul_nonneg ?_
  simp only [isOutside, decide_eq_true_eq] at h
  norm_num at h
  linarith

/-- A Newton step between the ends, or else the point halfway between them. -/
theorem SafeNewton.advance_mem {i : Iterate ℝ} {dx x : ℝ} (h : advance i = .ok (dx, x)) :
    x ∈ Set.uIcc i.xLow i.xHigh := by
  unfold advance at h
  split at h
  · cases h
    -- the step of a bisection begins at the low end, not at the estimate
    have hhalf : i.xLow + 0.5 * (i.xHigh - i.xLow) = i.xLow + (i.xHigh - i.xLow) * (1 / 2) := by ring
    rw [hhalf]
    exact add_mul_mem_uIcc _ _ (by norm_num) (by norm_num)
  · next hout =>
    obtain ⟨d, hq, hx⟩ := bind_eq_ok.1 h
    obtain ⟨hne, hd⟩ := Scalar.quotient_eq_ok hq
    cases hx
    have hfx : i.point.fx = dx * i.point.slope := by
      rw [hd]
      field_simp
    -- the test is the product of the distances to the two ends, scaled by the squared slope
    have hprod : i.point.slope ^ 2 *
        ((i.xLow - (i.point.x - dx)) * (i.point.x - dx - i.xHigh)) ≥ 0 := by
      simp only [leadsOut, Bool.or_eq_true, decide_eq_true_eq, not_or] at hout
      have h := not_lt.1 hout.1
      norm_num at h
      rw [hfx] at h
      linarith
    exact mem_uIcc_of_mul_nonneg (nonneg_of_mul_nonneg_right hprod (by positivity))

/-! ## Brent's method -/

namespace Brent

variable {b : Bracket ℝ} {i : Iterate ℝ} {half tol step lastStep : ℝ}

theorem isTrusted_lt {p q : ℝ} (h : isTrusted p q half tol lastStep = true) :
    2 * p < 3 * half * q - |tol * q| := by
  have hlt := (of_decide_eq_true h).trans_le (Scalar.minOf_le_left _ _)
  norm_num at hlt
  rw [abs_mul]
  exact hlt

theorem isTrusted_lt_lastStep {p q : ℝ} (h : isTrusted p q half tol lastStep = true) :
    2 * p < |lastStep * q| := by
  have hlt := (of_decide_eq_true h).trans_le (Scalar.minOf_le_right _ _)
  norm_num at hlt
  rw [abs_mul]
  exact hlt

/-- A step is halfway to the contrapoint, and taken for the last two, or an interpolated one that is
trusted. -/
theorem chooseStep_cases (h : chooseStep b i half tol = .ok (step, lastStep)) :
    (step = half ∧ lastStep = half) ∨
      (tol ≤ |i.lastStep| ∧ lastStep = i.step ∧
        ∃ p q : ℝ, q ≠ 0 ∧ 0 ≤ p ∧ isTrusted p q half tol i.lastStep = true ∧ step = p / q) := by
  unfold chooseStep at h
  split at h
  · next hinterpolates =>
    obtain ⟨⟨p, q⟩, -, h⟩ := bind_eq_ok.1 h
    obtain ⟨q', hq'⟩ : ∃ q' : ℝ, q' = if 0.0 < p then -q else q := ⟨_, rfl⟩
    simp only [← hq'] at h
    split at h
    · next htrust =>
      obtain ⟨d, hq, hx⟩ := bind_eq_ok.1 h
      obtain ⟨hne, rfl⟩ := Scalar.quotient_eq_ok hq
      cases hx
      exact .inr ⟨hinterpolates.1, rfl, _, _, hne, abs_nonneg p, htrust, rfl⟩
    · cases h
      exact .inl ⟨rfl, rfl⟩
  · cases h
    exact .inl ⟨rfl, rfl⟩

/-- A trusted step goes towards the contrapoint and not as far. -/
theorem trusted_ratio {p q : ℝ} (hq : q ≠ 0) (hp : 0 ≤ p) (h : 2 * p < 3 * half * q - |tol * q|) :
    ∃ t, 0 ≤ t ∧ t < 1 ∧ p / q = 2 * half * t := by
  have habs := abs_nonneg (tol * q)
  have hpos : 0 < half * q := by linarith
  have hne : half ≠ 0 := by
    rintro rfl
    simp at hpos
  refine ⟨p / (2 * (half * q)), by positivity, ?_, by field_simp⟩
  rw [div_lt_one (by positivity)]
  linarith

/-- The shortest step that is taken does not reach the contrapoint either. -/
theorem copySign_ratio (htol : 0 < tol) (h : tol < |half|) :
    ∃ t, 0 < t ∧ t < 1 ∧ Scalar.copySign tol half = 2 * half * t := by
  have hne : half ≠ 0 := by
    rintro rfl
    simp at h
    linarith
  refine ⟨tol / (2 * |half|), by positivity, ?_, ?_⟩
  · rw [div_lt_one (by positivity)]
    linarith [abs_nonneg half]
  · rw [Scalar.real_copySign, abs_of_pos htol]
    split
    · next hneg =>
      rw [abs_of_neg hneg]
      field_simp
    · next hpos =>
      rw [abs_of_nonneg (not_lt.1 hpos)]
      field_simp

/-- The step that is taken leads some of the way to the contrapoint, but not all of it. -/
theorem step_ratio (htol : 0 < tol) (hlong : tol < |half|)
    (h : chooseStep b i half tol = .ok (step, lastStep)) :
    ∃ t, 0 < t ∧ t < 1 ∧ atLeast step half tol = 2 * half * t := by
  unfold atLeast
  split
  · next hstep =>
    rcases chooseStep_cases h with ⟨rfl, -⟩ | ⟨-, -, p, q, hq, hp, htrust, rfl⟩
    · exact ⟨1 / 2, by norm_num, by norm_num, by ring⟩
    · obtain ⟨t, h0, h1, ht⟩ := trusted_ratio hq hp (isTrusted_lt htrust)
      refine ⟨t, lt_of_le_of_ne h0 fun hzero => ?_, h1, ht⟩
      rw [Scalar.real_abs, ht, ← hzero, mul_zero, abs_zero] at hstep
      exact absurd hstep htol.not_gt
  · exact copySign_ratio htol hlong

theorem step_mem (htol : 0 < tol) (hhalf : half = 0.5 * (b.xMax - i.x)) (hlong : tol < |half|)
    (h : chooseStep b i half tol = .ok (step, lastStep)) :
    i.x + atLeast step half tol ∈ Set.uIcc i.x b.xMax := by
  obtain ⟨t, h0, h1, ht⟩ := step_ratio htol hlong h
  have hstep : i.x + 2 * half * t = i.x + (b.xMax - i.x) * t := by
    rw [hhalf]
    ring
  rw [ht, hstep]
  exact add_mul_mem_uIcc _ _ h0.le h1.le

end Brent

end RootSearch
