import Mathlib
import RootSearch.Proofs.Twins
/-!
# Solves of a multiple

A solve of a multiple of an objective, to the same multiple of the accuracy, is a twin of the solve of
the objective. In a supplied bracket the factor may be negative. From a guess it may not, since the
search takes its first step by the sign of the objective there.
-/

namespace RootSearch

open Solve

variable {g : Gap} {s s' : Session ℝ} {f : Objective ℝ} {settings : Settings ℝ} {accuracy : ℝ}
variable {method : String}

/-! ## Searches -/

namespace Search

/-- Two searches of twins: with twin answers, or with brackets that straddle zero. -/
abbrev SearchTwins (g : Gap) (m : Solve ℝ (Outcome ℝ)) (s : Session ℝ) (m' : Solve ℝ (Outcome ℝ))
    (s' : Session ℝ) : Prop :=
  Tracks (Session.Twins g) (fun o t o' => o.Pairs (Result.Twins g) t.bracket.Straddles o')
    (Outcome.Stops never) m s m' s'

theorem sampleMin_twins (hs : s.Twins g s') (f : Objective ℝ) (x : ℝ) :
    Tracks (Session.Twins g) (fun _ _ _ => True) never (sampleMin f x) s
      (sampleMin (f.times g.factor) x) s' := by
  refine (sample_twins hs f x).seq ?_
  rintro fx t _ t' ht ⟨rfl, -⟩
  have hbracket : { t'.bracket with xMin := x, fMin := g.factor * fx } =
      Bracket.times g.factor { t.bracket with xMin := x, fMin := fx } := by
    rw [ht.bracket, Bracket.times, Bracket.times]
  exact .value ⟨ht.root, hbracket, ht.evaluations, ht.samples⟩ trivial

theorem sampleMax_twins (hs : s.Twins g s') (f : Objective ℝ) (x : ℝ) :
    Tracks (Session.Twins g) (fun _ _ _ => True) never (sampleMax f x) s
      (sampleMax (f.times g.factor) x) s' := by
  refine (sample_twins hs f x).seq ?_
  rintro fx t _ t' ht ⟨rfl, -⟩
  have hbracket : { t'.bracket with xMax := x, fMax := g.factor * fx } =
      Bracket.times g.factor { t.bracket with xMax := x, fMax := fx } := by
    rw [ht.bracket, Bracket.times, Bracket.times]
  exact .value ⟨ht.root, hbracket, ht.evaluations, ht.samples⟩ trivial

theorem supplied_twins (hfactor : g.factor ≠ 0) (hs : s.Twins g s') (guess xMin xMax : ℝ) :
    SearchTwins g (supplied f settings accuracy guess xMin xMax method) s
      (supplied (f.times g.factor) settings (|g.factor| * accuracy) guess xMin xMax method) s' := by
  unfold supplied
  refine .setRoot (.modify ?_)
  have ht : (s.located guess).narrowed { s.bracket with xMin, xMax } |>.Twins g
      ((s'.located guess).narrowed { s'.bracket with xMin, xMax }) := by
    refine ⟨rfl, ?_, hs.evaluations, hs.samples⟩
    show { s'.bracket with xMin, xMax } = Bracket.times g.factor { s.bracket with xMin, xMax }
    rw [hs.bracket, Bracket.times, Bracket.times]
  cases defect? settings guess xMin xMax with
  | some defect => exact .value ht (ht.fail _ _ _ method none)
  | none =>
    refine (sampleMin_twins ht f xMin).seq fun _ t _ t' ht _ => ?_
    refine .bracket ?_
    rw [ht.bracket]
    refine .ite (Scalar.abs_times_lt hfactor) (fun _ => .value ht (ht.converged xMin method)) fun _ => ?_
    refine (sampleMax_twins ht f xMax).seq fun _ u _ u' hu _ => ?_
    refine .bracket ?_
    rw [hu.bracket]
    refine .ite (Scalar.abs_times_lt hfactor) (fun _ => .value hu (hu.converged xMax method)) fun _ => ?_
    refine .ite (mul_times_neg hfactor) (fun hneg => .value hu ?_) fun _ => .log ?_
    · rw [Scalar.real_zero] at hneg
      exact opposite_iff_mul_neg.2 hneg
    · exact .value (hu.logged _ _) ((hu.logged _ _).fail _ _ _ method none)

theorem openAround_twins (hpos : 0 < g.factor) (hs : s.Twins g s') (guess fx step : ℝ) :
    Tracks (Session.Twins g) (fun _ _ _ => True) never (openAround f settings guess fx step) s
      (openAround (f.times g.factor) settings guess (g.factor * fx) step) s' := by
  have hsign : 0.0 < g.factor * fx ↔ 0.0 < fx := by
    rw [Scalar.real_zero]
    exact mul_pos_iff_of_pos_left hpos
  refine .ite hsign (fun _ => ?_) fun _ => ?_
  · refine (sample_twins hs f _).seq ?_
    rintro fLow t _ t' ht ⟨rfl, -⟩
    exact .value (ht.narrowed ⟨_, guess, fLow, fx⟩) trivial
  · refine (sample_twins hs f _).seq ?_
    rintro fHigh t _ t' ht ⟨rfl, -⟩
    exact .value (ht.narrowed ⟨guess, _, fx, fHigh⟩) trivial

theorem expand_twins (hs : s.Twins g s') (side : Side) :
    Tracks (Session.Twins g) (fun _ _ _ => True) never (expand f settings side) s
      (expand (f.times g.factor) settings side) s' := by
  have hlog (t t' : Session ℝ) (ht : t.Twins g t') :
      Tracks (Session.Twins g) (fun _ _ _ => True) never (do log (.expanded side (← bracket))) t
        (do log (.expanded side (← bracket))) t' :=
    .bracket (.value (ht.logged _ _) trivial)
  refine .bracket ?_
  rw [hs.bracket]
  cases side with
  | low => exact (sampleMin_twins hs f _).seq fun _ t _ t' ht _ => hlog t t' ht
  | high => exact (sampleMax_twins hs f _).seq fun _ t _ t' ht _ => hlog t t' ht
  | tieHigh => exact (sampleMax_twins hs f _).seq fun _ t _ t' ht _ => hlog t t' ht
  | tieLow =>
    refine (sampleMin_twins hs f _).seq fun _ t _ t' ht _ => ?_
    exact .modify (hlog _ _ (ht.charged 1))

theorem pass_twins (hfactor : g.factor ≠ 0) (hs : s.Twins g s') (tieLow : Bool) :
    Tracks (Session.Twins g)
      (fun p t p' => p.Pairs (· = ·) (Outcome.Pairs (Result.Twins g) t.bracket.Straddles) p')
      (Pass.Stops (Outcome.Stops never)) (pass f settings method tieLow) s
      (pass (f.times g.factor) settings method tieLow) s' := by
  unfold pass
  refine .bracket ?_
  rw [hs.bracket, side_times hfactor]
  refine .ite (mul_times_nonpos hfactor) (fun hle => ?_) fun _ => ?_
  · refine .ite (by rw [Bracket.times, Scalar.beq_zero_times hfactor]) (fun _ => ?_) fun hmin => ?_
    · exact .value hs (hs.converged _ method)
    refine .ite (by rw [Bracket.times, Scalar.beq_zero_times hfactor]) (fun _ => ?_) fun hmax => ?_
    · exact .value hs (hs.converged _ method)
    · refine .setRoot (.get (.log (.value ((hs.located _).logged _ _) ?_)))
      exact Bracket.straddles_of_crossed hle hmin hmax
  · refine (expand_twins hs _).seq fun _ t _ t' ht _ => ?_
    exact .value ht rfl

theorem aroundGuess_twins (hpos : 0 < g.factor) (hahead : g.ahead = 0) (hs : s.Twins g s')
    (guess step : ℝ) :
    SearchTwins g (aroundGuess f settings accuracy guess step method) s
      (aroundGuess (f.times g.factor) settings (|g.factor| * accuracy) guess step method) s' := by
  have hfactor := hpos.ne'
  have hlimit : (settings.maxEvaluations : Int) = settings.maxEvaluations + g.ahead := by omega
  refine .setRoot ((sample_twins (hs.located guess) f guess).seq ?_)
  rintro fx t _ t' ht ⟨rfl, -⟩
  have hguess := ht.narrowed ⟨guess, guess, fx, fx⟩
  refine .ite (Scalar.abs_times_le hfactor) (fun _ => .setBracket ?_) fun _ => ?_
  · exact .value hguess (hguess.converged guess method)
  refine (openAround_twins hpos ht guess fx step).seq fun _ t _ t' ht _ => ?_
  refine tracks_whileBudget (S := fun tieLow _ tieLow' => tieLow = tieLow') ?_ ?_ ?_
    (pass_advances f settings method) (pass_advances _ settings method) (giveUp_concludes _ method) ht rfl
  · -- past its first step the search compares magnitudes and products only
    rintro tieLow t _ t' ht rfl
    exact pass_twins hfactor ht tieLow
  · intro t t' ht hb
    exact (ht.hasBudget hlimit).2 hb
  · intro tieLow t tieLow' t' ht _ hb
    unfold Tracks
    rw [exec_whileBudget_spent (mt (ht.hasBudget hlimit).1 hb)]
    exact .value (ht.logged _ _) ((ht.logged _ _).fail _ _ _ method none)

end Search

/-! ## Solves -/

namespace Scalar

theorem effectiveAccuracy_eq {accuracy : ℝ} (h : epsilon ≤ accuracy) :
    effectiveAccuracy accuracy = accuracy := by
  have hpos : 0 < accuracy := lt_of_lt_of_le real_epsilon_pos h
  unfold effectiveAccuracy maxOf
  rw [real_abs, abs_of_pos hpos]
  exact if_neg (not_lt_of_ge h)

end Scalar

theorem Entry.solve_twins {r : Refiner ℝ} (hr : r.method ≠ .brentq) {entry : Entry ℝ}
    (hahead : g.ahead = 0) (hfactor : g.factor ≠ 0)
    (hsign : ∀ guess step, entry = .fromGuess guess step → 0 < g.factor)
    (haccuracy : Scalar.epsilon ≤ accuracy) (haccuracy' : Scalar.epsilon ≤ |g.factor| * accuracy)
    (hs : s.Twins g s') : RefineTwins g (entry.solve r f settings accuracy) s
      (entry.solve (r.times g.factor) (f.times g.factor) settings (|g.factor| * accuracy)) s' := by
  have hr' : (r.times g.factor).method ≠ .brentq := hr
  refine solve_tracks (H := fun t => t.bracket.Straddles) ?_ ?_ (Refiner.refine_concludes hr' _ _ _).grows
  · cases entry with
    | fromGuess guess step => exact Search.aroundGuess_twins (hsign guess step rfl) hahead hs guess step
    | inBracket guess xMin xMax => exact Search.supplied_twins hfactor hs guess xMin xMax
  · intro t t' ht hb
    have hpos := Scalar.real_epsilon_pos.le.trans haccuracy
    rw [Scalar.effectiveAccuracy_eq haccuracy, Scalar.effectiveAccuracy_eq haccuracy']
    exact Refiner.refine_twins hfactor hpos ht (by omega) hr hb

/-- Over the reals, a solve of `c` times an objective with `c` times its derivative, to `|c|` times the
accuracy, calls it at the same points. It ends in the same fault or with the same status, root and
evaluations, and with the bracket whose values are `c` times those of the other one. -/
theorem multiple_solves_alike (r : Refiner ℝ) (f : Objective ℝ) (settings : Settings ℝ)
    (accuracy c : ℝ) (entry : Entry ℝ) (hr : r.method ≠ .brentq) (hc : c ≠ 0)
    (hsign : ∀ guess step, entry = .fromGuess guess step → 0 < c)
    (haccuracy : Scalar.epsilon ≤ accuracy) (haccuracy' : Scalar.epsilon ≤ |c| * accuracy) :
    let first := (entry.solve r f settings accuracy).exec .start
    let second := (entry.solve (r.times c) (f.times c) settings (|c| * accuracy)).exec .start
    second.2.samples = first.2.samples ∧
    (∀ result, first.1 = .ok result → ∃ result', second.1 = .ok result' ∧
      result'.status = result.status ∧ result'.root = result.root ∧
      result'.evaluations = result.evaluations ∧
      result'.bracket = result.bracket.map (Bracket.times c)) ∧
    (∀ fault, first.1 = .error fault → second.1 = .error fault) := by
  let g : Gap := { factor := c }
  have hstart : Session.start.Twins g Session.start := by
    refine ⟨rfl, ?_, (Int.add_zero _).symm, [], rfl, rfl⟩
    simp [g, Session.start, Bracket.times, Scalar.real_zero]
  have h : RefineTwins g (entry.solve r f settings accuracy) .start
      (entry.solve (r.times c) (f.times c) settings (|c| * accuracy)) .start :=
    Entry.solve_twins hr rfl hc hsign haccuracy haccuracy' hstart
  obtain ⟨htwins, hresults, hfaults⟩ := h.ends
  refine ⟨?_, fun result hresult => ?_, hfaults⟩
  · obtain ⟨points, hpoints, hpoints'⟩ := htwins.samples
    exact Array.toList_inj.1 (hpoints'.trans hpoints.symm)
  · obtain ⟨result', hresult', hr⟩ := hresults result hresult
    have hevaluations : result'.evaluations = result.evaluations := by simpa [g] using hr.evaluations
    exact ⟨result', hresult', hr.status, hr.root, hevaluations, hr.bracket⟩

/-- The safeguarded method for the square root of two, and for the objective turned upside down. -/
theorem negative_multiple_solves_alike :
    let r : Refiner ℝ := ⟨.safeNewton, none⟩
    let f : Objective ℝ := .ofTotal (fun x => x ^ 2 - 2) (some fun x => 2 * x)
    let entry : Entry ℝ := .inBracket (3 / 2) 0 2
    let first := (entry.solve r f {} (1 / 10)).exec .start
    let second := (entry.solve (r.times (-3)) (f.times (-3)) {} (|-3| * (1 / 10))).exec .start
    second.2.samples = first.2.samples ∧
    (∀ result, first.1 = .ok result → ∃ result', second.1 = .ok result' ∧
      result'.status = result.status ∧ result'.root = result.root ∧
      result'.evaluations = result.evaluations ∧
      result'.bracket = result.bracket.map (Bracket.times (-3))) ∧
    (∀ fault, first.1 = .error fault → second.1 = .error fault) := by
  have heps : (Scalar.epsilon : ℝ) ≤ 1 / 10 := by
    rw [Scalar.real_epsilon]
    norm_num
  have heps' : (Scalar.epsilon : ℝ) ≤ |-3| * (1 / 10) := by
    rw [Scalar.real_epsilon]
    norm_num
  intro r f entry
  exact multiple_solves_alike r f {} (1 / 10) (-3) entry (by decide) (by norm_num) (by simp) heps heps'

end RootSearch
