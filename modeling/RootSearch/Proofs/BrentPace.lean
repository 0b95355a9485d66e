import RootSearch.Proofs.Landing
import RootSearch.Proofs.Pace
/-!
# The pace of Brent's method

An interpolated step is trusted only if it is no longer than half the step before the last, and that
must not be below the resolution. Otherwise the way to the contrapoint is halved. A new contrapoint makes
the steps start from the last of them, and that keeps the pace: either this step was one that is counted,
or it was the shortest that is taken, and then the way to the new contrapoint is too short to go on.
-/

namespace RootSearch.Brent

open Solve

variable {f : Objective ℝ} {accuracy width : ℝ} {s t : Session ℝ} {b : Bracket ℝ} {i : Iterate ℝ}
variable {start : Int} {bisections steps : ℕ} {step lastStep half tol : ℝ}

/-! ## Steps -/

/-- A trusted step is no longer than half the step before the last. -/
theorem isTrusted_short {p q : ℝ} (hq : q ≠ 0) (hp : 0 ≤ p)
    (h : isTrusted p q half tol lastStep = true) : |p / q| ≤ |lastStep| / 2 := by
  have hlt := isTrusted_lt_lastStep h
  rw [abs_mul] at hlt
  rw [abs_div, abs_of_nonneg hp, div_le_iff₀ (abs_pos.2 hq)]
  linarith

theorem atLeast_of_lt (h : tol < |step|) : atLeast step half tol = step :=
  if_pos h

theorem abs_atLeast_of_le (htol : 0 ≤ tol) (h : |step| ≤ tol) : |atLeast step half tol| = tol := by
  have hmin : atLeast step half tol = Scalar.copySign tol half := if_neg (not_lt.2 h)
  rw [hmin, Scalar.real_copySign]
  split
  · rw [abs_neg, abs_abs, abs_of_nonneg htol]
  · rw [abs_abs, abs_of_nonneg htol]

/-! ## Arranged points -/

/-- The way to the contrapoint is too short to go on. -/
def Closes (b : Bracket ℝ) (i : Iterate ℝ) : Prop :=
  |0.5 * (b.xMax - i.x)| ≤ Scalar.resolution i.x

/-- The way to the contrapoint after so many halvings, and the last steps after so many since. -/
structure Paced (width : ℝ) (bisections steps : ℕ) (b : Bracket ℝ) (i : Iterate ℝ) : Prop where
  gap : |b.xMax - i.x| ≤ width / 2 ^ bisections
  dwindles : Dwindles width steps i.lastStep i.step

theorem swap_paced (h : Paced width bisections steps b i) :
    Paced width bisections steps (swap b i).1 (swap b i).2 := by
  unfold swap
  split
  · refine ⟨?_, h.dwindles⟩
    rw [abs_sub_comm]
    exact h.gap
  · exact h

/-- Points within the resolution of one of them are too close, whichever is the estimate. -/
theorem swap_closes (h : |b.xMax - i.x| ≤ Scalar.resolution b.xMax) :
    Closes (swap b i).1 (swap b i).2 := by
  have hhalf : |0.5 * (b.xMax - i.x)| ≤ Scalar.resolution b.xMax / 2 := by
    rw [abs_mul, abs_of_nonneg (by norm_num)]
    linarith
  unfold Closes swap
  split
  · rw [← abs_neg]
    have hneg : -(0.5 * (i.x - b.xMax)) = 0.5 * (b.xMax - i.x) := by ring
    rw [hneg]
    exact hhalf.trans (half_le_self (Scalar.resolution_pos _).le)
  · exact hhalf.trans (Scalar.half_resolution_le h)

/-- Arranging keeps the contrapoint, or takes the previous estimate for it and the way from there for the
last two steps. Either way it may swap the two. -/
theorem arrange_induction {Q : Bracket ℝ × Iterate ℝ → Prop} (hkept : Q (swap b i))
    (hreset : Q (swap ⟨b.xMin, b.xMin, b.fMin, b.fMin⟩ ⟨i.x, i.fx, i.x - b.xMin, i.x - b.xMin⟩)) :
    Q (arrange b i) := by
  show Q (swap (reset b i).1 (reset b i).2)
  unfold reset
  split
  · exact hreset
  · exact hkept

theorem arrange_paced (h : Paced width bisections steps b i)
    (hgap : |i.x - b.xMin| ≤ width / 2 ^ bisections)
    (hdwindles : Dwindles width steps (i.x - b.xMin) (i.x - b.xMin)) :
    Paced width bisections steps (arrange b i).1 (arrange b i).2 := by
  refine arrange_induction (Q := fun p => Paced width bisections steps p.1 p.2) (swap_paced h)
    (swap_paced ⟨?_, hdwindles⟩)
  rw [abs_sub_comm]
  exact hgap

/-- Arranged points that are too close to go on, or on pace. -/
def Ready (width : ℝ) (bisections steps : ℕ) (points : Bracket ℝ × Iterate ℝ) : Prop :=
  Closes points.1 points.2 ∨ Paced width bisections steps points.1 points.2

/-! ## Passes -/

/-- The bracket once a step is taken: the estimate becomes the previous one. -/
abbrev stepped (b : Bracket ℝ) (i : Iterate ℝ) : Bracket ℝ := { b with xMin := i.x, fMin := i.fx }

/-- A halving of the way to the contrapoint. -/
theorem ready_of_bisection {x fx : ℝ} (hx : x = i.x + half) (hhalf : half = 0.5 * (b.xMax - i.x))
    (hshort : |half| ≤ width / 2 ^ (bisections + 1)) :
    Ready width (bisections + 1) 0 (arrange (stepped b i) ⟨x, fx, half, half⟩) := by
  have hle := le_width hshort
  have hgap : b.xMax - x = half := by
    rw [hx, hhalf]
    ring
  have hback : x - i.x = half := by
    rw [hx]
    ring
  refine .inr (arrange_paced ⟨?_, .begin hle hle⟩ ?_ ?_)
  · rwa [hgap]
  · rwa [hback]
  · rw [hback]
    exact .begin hle hle

/-- An interpolated step, or the shortest one that is taken. -/
theorem ready_of_interpolation {x fx : ℝ} (h : Paced width bisections steps b i)
    (hx : x = i.x + atLeast step half (Scalar.resolution i.x)) (hmem : x ∈ Set.uIcc i.x b.xMax)
    (hdwindles : Dwindles width (steps + 1) i.step step) :
    Ready width bisections (steps + 1) (arrange (stepped b i) ⟨x, fx, step, i.step⟩) := by
  have hgap : |b.xMax - x| ≤ width / 2 ^ bisections :=
    (Set.abs_sub_right_of_mem_uIcc hmem).trans h.gap
  have hback : x - i.x = atLeast step half (Scalar.resolution i.x) := by
    rw [hx]
    ring
  by_cases hlong : Scalar.resolution i.x < |step|
  · rw [atLeast_of_lt hlong] at hback
    refine .inr (arrange_paced ⟨hgap, hdwindles⟩ ?_ ?_)
    · exact (Set.abs_sub_left_of_mem_uIcc hmem).trans h.gap
    · rw [hback]
      exact hdwindles.repeated
  · -- the way back is as long as the resolution, so a contrapoint there leaves no way to go
    have hshort : |x - i.x| = Scalar.resolution i.x := by
      rw [hback]
      exact abs_atLeast_of_le (Scalar.resolution_pos i.x).le (not_lt.1 hlong)
    refine arrange_induction (Q := Ready width bisections (steps + 1))
      (.inr (swap_paced ⟨hgap, hdwindles⟩)) (.inl (swap_closes ?_))
    rw [abs_sub_comm]
    exact hshort.le

/-- A head of the loop that some number of halvings and steps leads to. -/
def OnPace (width : ℝ) (start : Int) (i : Iterate ℝ) (s : Session ℝ) : Prop :=
  ∃ bisections steps, Course (halvings width) start s bisections steps ∧
    Ready width bisections steps (arrange s.bracket i)

theorem pass_keepsPace (h : OnPace width start i s) :
    (pass f accuracy i).Ensures s (KeepsPace (OnPace width start)) fun _ _ => True := by
  obtain ⟨bisections, steps, hcourse, hready⟩ := h
  rw [ensures_pass]
  rcases e : arrange s.bracket i with ⟨b, i⟩
  rw [e] at hready
  refine ⟨fun _ => .inl rfl, fun _ => ⟨fun _ => collapsed_isSettled, fun hopen => ?_⟩⟩
  have hpaced : Paced width bisections steps b i := hready.resolve_left hopen
  have hlong : Scalar.resolution i.x < |0.5 * (b.xMax - i.x)| := not_le.1 hopen
  apply holds_of_values
  intro (step, lastStep) hchoose
  apply visits_keepsPace
  intro fx
  rcases chooseStep_cases hchoose with ⟨rfl, rfl⟩ | ⟨htol, rfl, p, q, hq, hp, htrust, rfl⟩
  · have hhalf : |0.5 * (b.xMax - i.x)| ≤ width / 2 ^ (bisections + 1) := by
      refine halved hpaced.gap ?_
      rw [abs_mul, abs_of_nonneg (by norm_num)]
      linarith
    have hfew := lt_halvings hhalf hlong
    refine ⟨bisections + 1, 0, hcourse.bisected hfew rfl, ready_of_bisection ?_ rfl hhalf⟩
    rw [atLeast_of_lt hlong]
  · have hfew := hpaced.dwindles.few htol
    have hdwindles := hpaced.dwindles.next (isTrusted_short hq hp htrust)
    have hmem := step_mem (Scalar.resolution_pos i.x) rfl hlong hchoose
    refine ⟨bisections, steps + 1, hcourse.stepped hfew rfl, ?_⟩
    exact ready_of_interpolation hpaced rfl hmem hdwindles

/-! ## Refinements -/

theorem begins_on_pace {x fx : ℝ} (hx : x ∈ Set.uIcc b.xMin b.xMax)
    (hbracket : s.bracket = pickContrapoint b fx) (hcharged : s.evaluations = start + 1) :
    OnPace b.width start ⟨x, fx, x - s.bracket.xMax, x - s.bracket.xMax⟩ s := by
  -- both ends are the contrapoint at first
  have hmin : s.bracket.xMin = s.bracket.xMax := by
    rw [hbracket]
    unfold pickContrapoint
    split
    · rfl
    · rfl
  have hle : |x - s.bracket.xMax| ≤ b.width := by
    rw [hbracket]
    unfold pickContrapoint
    split
    · exact Set.abs_sub_left_of_mem_uIcc hx
    · rw [abs_sub_comm]
      exact Set.abs_sub_right_of_mem_uIcc hx
  have hgap : |x - s.bracket.xMax| ≤ b.width / 2 ^ 0 := by simpa using hle
  refine ⟨0, 0, .begin (one_le_halvings _) hcharged, .inr (arrange_paced ⟨?_, .begin hle hle⟩ ?_ ?_)⟩
  · rw [abs_sub_comm]
    exact hgap
  · rw [hmin]
    exact hgap
  · rw [hmin]
    exact .begin hle hle

theorem refine_keepsPace {limit : ℕ} (hroot : s.root ∈ Set.uIcc s.bracket.xMin s.bracket.xMax)
    (hlimit : s.evaluations + 2 * (halvings s.bracket.width + 1) ^ 2 ≤ limit) :
    (refine f limit accuracy).Ensures s (fun r _ => r.IsSettled) fun _ _ => True := by
  rw [ensures_refine]
  apply holds_of_values
  intro fx _
  refine ⟨fun _ => .inl rfl, fun _ => ?_⟩
  refine ensures_whileBudget_of_budget (pass_advances f accuracy) ?_ ?_ (begins_on_pace hroot rfl rfl)
  · intro i t h
    obtain ⟨bisections, steps, hcourse, -⟩ := h
    exact hcourse.hasBudget hlimit
  · intro i t h
    exact pass_keepsPace h

theorem refine_succeeds {limit : ℕ} (hf : f.IsTotal) (haccuracy : 0 ≤ accuracy) :
    (refine f limit accuracy).Succeeds s := by
  have haccuracy' : (0.0 : ℝ) ≤ accuracy := by
    rw [Scalar.real_zero]
    exact haccuracy
  have hslope : (⟨.brent, none⟩ : Refiner ℝ).HasSlope f := nofun
  refine (⟨.brent, none⟩ : Refiner ℝ).refine_succeeds_of_passes nofun hf hslope ?_
  intro l hl state t _
  exact hl.pass_succeeds_of_guarded rfl hf hslope haccuracy' state t

/-- Over the reals, Brent's method begun within its bracket finds a root or collapses, and does not spend
its budget if that allows for twice the square of the number of halvings and one more. The objective needs
values only, and it does not matter which signs the ends have. -/
theorem interpolations_settle_within_budget (f : Objective ℝ) (accuracy : ℝ) (s : Session ℝ) (limit : ℕ)
    (hf : ∀ x, ∃ fx, f.value x = .ok fx) (haccuracy : 0 ≤ accuracy)
    (hroot : s.root ∈ Set.uIcc s.bracket.xMin s.bracket.xMax)
    (hlimit : s.evaluations + 2 * (halvings s.bracket.width + 1) ^ 2 ≤ limit) :
    ∃ result, ((refine f limit accuracy).exec s).1 = .ok result ∧
      (result.status = .converged ∨ result.status = .accuracyNotReached) :=
  settles_of_succeeds (refine_succeeds hf haccuracy) (refine_keepsPace hroot hlimit)

/-- A jump at one, between ends at zero and four. -/
theorem interpolations_settle_at_jump :
    let s : Session ℝ := { root := 3, bracket := ⟨0, 4, -1, 2⟩, evaluations := 2 }
    let f : Objective ℝ := .ofTotal fun x => if x < 1 then -1 else 2
    ∃ result, ((refine f 10000 1e-9).exec s).1 = .ok result ∧
      (result.status = .converged ∨ result.status = .accuracyNotReached) := by
  intro s f
  have hwidth : s.bracket.width = 4 := by norm_num [s, Bracket.width]
  have hfew : halvings 4 ≤ 55 :=
    halvings_le (by norm_num) (by norm_num) (by norm_num [Scalar.real_epsilon])
  have hroot : s.root ∈ Set.uIcc s.bracket.xMin s.bracket.xMax := by
    rw [Set.uIcc_of_le (by norm_num [s])]
    norm_num [s]
  refine interpolations_settle_within_budget f _ s _ (fun x => ⟨_, rfl⟩) (by norm_num) hroot ?_
  rw [hwidth]
  exact Course.budget_of_le hfew (by norm_num [s])

end RootSearch.Brent
