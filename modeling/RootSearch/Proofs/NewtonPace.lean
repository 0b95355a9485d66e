import RootSearch.Proofs.Faultless
import RootSearch.Proofs.Pace
/-!
# The pace of safeguarded Newton steps

However wrong the derivative is, a step is taken only if it is no longer than half the step before the
last. Otherwise the bracket is halved, and the steps may start anew. So the derivative may slow a
refinement down, but only so far.
-/

namespace RootSearch.SafeNewton

open Solve

variable {f : Objective ℝ} {slope : Slope ℝ} {accuracy width : ℝ} {s : Session ℝ} {i : Iterate ℝ}
variable {start : Int}

/-! ## Steps -/

/-- A step halves the bracket, or is no longer than half the step before the last. -/
theorem advance_cases {dx x : ℝ} (h : advance i = .ok (dx, x)) :
    (dx = (i.xHigh - i.xLow) / 2 ∧ x = i.xLow + dx) ∨ |dx| ≤ |i.lastStep| / 2 := by
  unfold advance at h
  split at h
  · cases h
    left
    constructor
    · ring
    · rfl
  · next hguards =>
    right
    obtain ⟨d, hq, hx⟩ := bind_eq_ok.1 h
    obtain ⟨hne, hd⟩ := Scalar.quotient_eq_ok hq
    cases hx
    have hfast : |2.0 * i.point.fx| ≤ |i.lastStep * i.point.slope| := by
      simp only [isSlow, Bool.or_eq_true, decide_eq_true_eq, not_or] at hguards
      exact not_lt.1 hguards.2
    norm_num [abs_mul] at hfast
    rw [hd, abs_div, div_le_iff₀ (abs_pos.2 hne)]
    linarith

/-- The end that moves goes to the new point. -/
theorem next_gap (dx : ℝ) (p : Newton.Point ℝ) :
    (i.next dx p).xHigh - (i.next dx p).xLow = i.xHigh - p.x ∨
      (i.next dx p).xHigh - (i.next dx p).xLow = p.x - i.xLow := by
  unfold Iterate.next
  dsimp only
  split
  · exact .inl rfl
  · exact .inr rfl

theorem next_dwindles {steps : ℕ} {dx : ℝ} {p : Newton.Point ℝ} (h : Dwindles width steps i.step dx) :
    Dwindles width steps (i.next dx p).lastStep (i.next dx p).step := by
  unfold Iterate.next
  dsimp only
  split
  · exact h
  · exact h

/-! ## Passes -/

/-- What a head of the loop has after so many halvings, and so many steps since the last of them. -/
structure Paced (width : ℝ) (start : Int) (bisections steps : ℕ) (i : Iterate ℝ) (s : Session ℝ) :
    Prop where
  course : Course (halvings width) start s bisections steps
  gap : |i.xHigh - i.xLow| ≤ width / 2 ^ bisections
  dwindles : Dwindles width steps i.lastStep i.step

/-- A head that some number of halvings and steps leads to. -/
def OnPace (width : ℝ) (start : Int) (i : Iterate ℝ) (s : Session ℝ) : Prop :=
  ∃ bisections steps, Paced width start bisections steps i s

theorem pass_keepsPace (h : OnPace width start i s) :
    (pass f slope accuracy i).Ensures s (KeepsPace (OnPace width start)) fun _ _ => True := by
  obtain ⟨bisections, steps, h⟩ := h
  rw [ensures_pass]
  apply holds_of_values
  intro (dx, x) hadvance
  refine visitsWithSlope_keepsPace fun p hpx => ⟨fun _ => collapsed_isSettled, fun hlong => ?_⟩
  have hlong : Scalar.resolution x < |dx| := not_le.1 hlong
  rcases advance_cases hadvance with ⟨hdx, hx⟩ | hshort
  · -- a halving: both parts are as long as the step
    have hhalf : |dx| ≤ width / 2 ^ (bisections + 1) := by
      refine halved h.gap ?_
      rw [hdx, abs_div, abs_two]
    have hfew := lt_halvings hhalf hlong
    refine ⟨bisections + 1, 0, h.course.bisected hfew rfl, ?_, ?_⟩
    · have hlow : p.x - i.xLow = dx := by rw [hpx, hx]; ring
      have hhigh : i.xHigh - p.x = dx := by rw [hpx, hx, hdx]; ring
      rcases next_gap dx p with hgap | hgap
      · rwa [hgap, hhigh]
      · rwa [hgap, hlow]
    · exact next_dwindles (.begin h.dwindles.step_le (le_width hhalf))
  · have hdwindles := h.dwindles.next hshort
    have hfew : steps ≤ 2 * halvings width + 1 := by
      have hlt := lt_halvings hdwindles.step hlong
      omega
    refine ⟨bisections, steps + 1, h.course.stepped hfew rfl, ?_, next_dwindles hdwindles⟩
    have hmem : p.x ∈ Set.uIcc i.xLow i.xHigh := hpx ▸ advance_mem hadvance
    rcases next_gap dx p with hgap | hgap
    · rw [hgap]
      exact (Set.abs_sub_right_of_mem_uIcc hmem).trans h.gap
    · rw [hgap]
      exact (Set.abs_sub_left_of_mem_uIcc hmem).trans h.gap

/-! ## Refinements -/

/-- A refinement begins on pace: nothing is halved, and the whole width stands for both last steps. -/
theorem begins_on_pace (b : Bracket ℝ) (p : Newton.Point ℝ) (hcharged : s.evaluations = start + 1) :
    OnPace b.width start ⟨(orient b).1, (orient b).2, b.width, b.width, p⟩ s := by
  have hwidth : |b.width| ≤ b.width := (abs_of_nonneg (abs_nonneg _)).le
  refine ⟨0, 0, .begin (one_le_halvings _) hcharged, ?_, .begin hwidth hwidth⟩
  rw [pow_zero, div_one]
  unfold orient
  split
  · exact le_rfl
  · exact (abs_sub_comm _ _).le

theorem refine_keepsPace (supplied : Option (Slope ℝ)) {limit : ℕ}
    (hlimit : s.evaluations + 2 * (halvings s.bracket.width + 1) ^ 2 ≤ limit) :
    (refine f supplied limit accuracy).Ensures s (fun r _ => r.IsSettled) fun _ _ => True := by
  rw [ensures_refine]
  apply holds_of_values
  intro slope _
  apply holds_of_values
  intro fx _
  apply holds_of_values
  intro dfx _
  refine ⟨fun _ => .inl rfl, fun _ => ?_⟩
  refine ensures_whileBudget_of_budget (pass_advances f slope accuracy) ?_ ?_
    (begins_on_pace s.bracket _ rfl)
  · intro i t h
    obtain ⟨bisections, steps, h⟩ := h
    exact h.course.hasBudget hlimit
  · intro i t h
    exact pass_keepsPace h

theorem refine_succeeds {supplied : Option (Slope ℝ)} {limit : ℕ} (hf : f.IsTotal)
    (hslope : (⟨.safeNewton, supplied⟩ : Refiner ℝ).HasSlope f) (haccuracy : 0 ≤ accuracy) :
    (refine f supplied limit accuracy).Succeeds s := by
  refine (⟨.safeNewton, supplied⟩ : Refiner ℝ).refine_succeeds_of_passes nofun hf hslope ?_
  intro l hl state t ht
  obtain ⟨slope, p, hopened, rfl⟩ := hl
  obtain ⟨slope', hslope', htotal⟩ := hslope rfl
  cases hopened.slopes.symm.trans hslope'
  have hfirst := ne_zero_of_missed haccuracy hopened.missed
  exact pass_succeeds hf htotal (head_ne_zero haccuracy hfirst ht)

/-- Over the reals, safeguarded Newton steps find a root or collapse, and do not spend their budget if
that allows for twice the square of the number of halvings and one more. The objective and the
derivative need have values only: the derivative may be any function, and it does not matter which signs
the ends have. -/
theorem steps_settle_within_budget (f : Objective ℝ) (supplied : Option (Slope ℝ)) (accuracy : ℝ)
    (s : Session ℝ) (limit : ℕ) (hf : ∀ x, ∃ fx, f.value x = .ok fx)
    (hslope : ∃ slope, f.slopeFor .safeNewton supplied = .ok slope ∧ ∀ x, ∃ dfx, slope x = .ok dfx)
    (haccuracy : 0 ≤ accuracy)
    (hlimit : s.evaluations + 2 * (halvings s.bracket.width + 1) ^ 2 ≤ limit) :
    ∃ result, ((refine f supplied limit accuracy).exec s).1 = .ok result ∧
      (result.status = .converged ∨ result.status = .accuracyNotReached) :=
  settles_of_succeeds (refine_succeeds hf (fun _ => hslope) haccuracy) (refine_keepsPace supplied hlimit)

/-- With a derivative that is zero everywhere, between ends at zero and four. -/
theorem settles_on_flat_slope :
    let s : Session ℝ := { root := 3, bracket := ⟨0, 4, -1, 3⟩, evaluations := 2 }
    ∃ result, ((refine (.ofTotal fun x => x - 1) (some fun _ => .ok 0) 10000 1e-9).exec s).1 = .ok result ∧
      (result.status = .converged ∨ result.status = .accuracyNotReached) := by
  intro s
  have hwidth : s.bracket.width = 4 := by norm_num [s, Bracket.width]
  have hfew : halvings 4 ≤ 55 :=
    halvings_le (by norm_num) (by norm_num) (by norm_num [Scalar.real_epsilon])
  refine steps_settle_within_budget _ _ _ s _ (fun x => ⟨x - 1, rfl⟩) ⟨_, rfl, fun _ => ⟨0, rfl⟩⟩
    (by norm_num) ?_
  rw [hwidth]
  exact Course.budget_of_le hfew (by norm_num [s])

end RootSearch.SafeNewton
