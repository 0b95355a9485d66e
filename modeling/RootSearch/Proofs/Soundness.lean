import RootSearch.Proofs.BrentqGenuine
import RootSearch.Proofs.Searching
/-!
# A converged result is a root

Whichever way a solve is entered and whichever method refines, the root of a converged result is a
point where the objective was called during the solve, and its value there meets the accuracy.
-/

namespace RootSearch

open Solve

/-! ## The searches -/

namespace Search

variable {α : Type} [Scalar α] {f : Objective α} {settings : Settings α} {accuracy : α}
variable {s : Session α} {method : String}

/-- A search answers with a sound result or hands over a genuine bracket. -/
def Outcome.Sound (f : Objective α) (accuracy : α) (t : Session α) : Outcome α → Prop
  | .answered result => result.Sound f t.samples (Scalar.effectiveAccuracy accuracy)
  | .bracketed => t.Genuine f

abbrev SearchesSoundly (f : Objective α) (accuracy : α) (m : Solve α (Outcome α)) (s : Session α) :
    Prop :=
  m.Ensures s (fun outcome t => outcome.Sound f accuracy t) fun _ _ => True

theorem answered_converged {x fx : α} (hx : Sampled f s.samples x fx)
    (h : Scalar.abs fx ≤ Scalar.effectiveAccuracy accuracy) :
    (Outcome.answered (s.converged x method)).Sound f accuracy s :=
  fun _ => ⟨x, fx, rfl, hx, h⟩

theorem answered_fail {status : Status} (hstatus : status ≠ .converged) (reason : Reason α)
    (root : Option α) : (Outcome.answered (s.fail status reason method root)).Sound f accuracy s :=
  fun h => absurd h hstatus

omit [Scalar α] in
theorem expanded_genuine {x fx : α} (hs : s.Genuine f) (side : Side) (hfx : f.value x = .ok fx) :
    (s.expanded side x fx).Genuine f := by
  have hx : Sampled f (s.samples.push x) x fx := Sampled.latest s.samples hfx
  exact Search.grown_all (Bracket.Genuine.push hs x) hx side

theorem pass_sound [LawfulScalar α] (haccuracy : accuracy ≤ accuracy) (hs : s.Genuine f)
    (tieLow : Bool) : (pass f settings method tieLow).Ensures s
      (fun p t => p.Keeps (fun _ => t.Genuine f) fun outcome => outcome.Sound f accuracy t)
      fun _ _ => True := by
  rw [ensures_pass]
  refine ⟨fun _ => ⟨fun h => ?_, fun _ => ⟨fun h => ?_, fun _ => hs⟩⟩, fun _ => ?_⟩
  · exact answered_converged hs.min (Scalar.abs_le_effectiveAccuracy_of_zero haccuracy h)
  · exact answered_converged hs.max (Scalar.abs_le_effectiveAccuracy_of_zero haccuracy h)
  · exact ⟨fun fx hfx => expanded_genuine hs _ hfx, fun _ _ => trivial⟩

theorem aroundGuess_sound [LawfulScalar α] (haccuracy : accuracy ≤ accuracy) (guess step : α) :
    SearchesSoundly f accuracy (aroundGuess f settings accuracy guess step method) s := by
  rw [SearchesSoundly, ensures_aroundGuess]
  refine ⟨fun fx hfx => ?_, fun _ _ => trivial⟩
  have hguess : Sampled f (s.visited guess).samples guess fx := Sampled.latest s.samples hfx
  refine ⟨fun hle => answered_converged hguess (Scalar.le_effectiveAccuracy hle), fun _ => ?_⟩
  refine ⟨fun fx' hfx' => ?_, fun _ _ => trivial⟩
  refine ensures_whileBudget (I := fun _ t => t.Genuine f)
    (fun tieLow t ht _ => pass_sound haccuracy ht tieLow) (fun _ t ht => ?_) ?_
  · rw [ensures_giveUp]
    exact answered_fail (by decide) _ _
  · exact opened_all (hguess.push _) (Sampled.latest _ hfx')

theorem supplied_sound [LawfulScalar α] (guess xMin xMax : α) :
    SearchesSoundly f accuracy (supplied f settings accuracy guess xMin xMax method) s := by
  rw [SearchesSoundly, ensures_supplied]
  refine ⟨fun status reason h => answered_fail ?_ _ _, fun _ => ?_⟩
  · rcases defect_cases h with rfl | rfl | rfl <;> decide
  -- an end is tried against the accuracy that was asked for, not against the effective one
  have hmeets {fx : α} (h : Scalar.abs fx < accuracy) :
      Scalar.abs fx ≤ Scalar.effectiveAccuracy accuracy :=
    Scalar.le_effectiveAccuracy (Scalar.le_of_lt h)
  refine ⟨fun fMin hfMin => ⟨fun h => ?_, fun _ => ?_⟩, fun _ _ => trivial⟩
  · exact answered_converged (Sampled.latest _ hfMin) (hmeets h)
  refine ⟨fun fMax hfMax => ⟨fun h => ?_, fun _ => ⟨fun _ => ?_, fun _ => ?_⟩⟩, fun _ _ => trivial⟩
  · exact answered_converged (Sampled.latest _ hfMax) (hmeets h)
  · exact ⟨(Sampled.latest _ hfMin).push xMax, Sampled.latest _ hfMax⟩
  · exact answered_fail (by decide) _ _

/-- A method goes on soundly from a sound search. -/
theorem Outcome.Sound.refineBy [LawfulScalar α] {strategy : Brentq.Strategy α} {r : Refiner α}
    {limit : Nat} (hstrategy : r.method = .brentq → strategy.EndsWhereItAsked)
    (haccuracy : accuracy ≤ accuracy) {outcome : Outcome α} (h : outcome.Sound f accuracy s) :
    (outcome.refineBy strategy r f limit accuracy).Ensures s
      (fun result t => result.Sound f t.samples (Scalar.effectiveAccuracy accuracy))
      fun _ _ => True := by
  cases outcome with
  | answered result => exact h
  | bracketed =>
    have heps := Scalar.epsilon_le_effectiveAccuracy haccuracy
    exact (r.refineBy_genuine hstrategy heps limit h).mono (fun _ _ hr => hr.sound) fun _ _ h => h

end Search

/-! ## The solves -/

theorem Entry.solveBy_sound {α : Type} [Scalar α] [LawfulScalar α] {strategy : Brentq.Strategy α}
    {f : Objective α} {settings : Settings α} {accuracy : α} {s : Session α} (r : Refiner α)
    (hstrategy : r.method = .brentq → strategy.EndsWhereItAsked) (haccuracy : accuracy ≤ accuracy)
    (entry : Entry α) :
    (entry.solveBy strategy r f settings accuracy).Ensures s
      (fun result t => result.Sound f t.samples (Scalar.effectiveAccuracy accuracy))
      fun _ _ => True := by
  have hsearch : Search.SearchesSoundly f accuracy (entry.search f settings accuracy r.name) s := by
    cases entry with
    | fromGuess guess step => exact Search.aroundGuess_sound haccuracy guess step
    | inBracket guess xMin xMax => exact Search.supplied_sound guess xMin xMax
  rw [ensures_solveBy]
  exact hsearch.mono (fun _ _ h => h.refineBy hstrategy haccuracy) fun _ _ h => h

/-- The root of a converged solve in doubles is a point where the objective was called during the
solve, and its magnitude there is at most the accuracy or the spacing of doubles at one. A search by
tolerance may follow any strategy that ends where it asked. -/
theorem converged_root_meets_accuracy (strategy : Brentq.Strategy Double) (r : Refiner Double)
    (f : Objective Double) (settings : Settings Double) (accuracy : Double) (entry : Entry Double)
    (result : Result Double) (hstrategy : r.method = .brentq → strategy.EndsWhereItAsked)
    (haccuracy : Scalar.isNaN accuracy = false)
    (hsolve : ((entry.solveBy strategy r f settings accuracy).exec .start).1 = .ok result)
    (hconverged : result.status = .converged) :
    ∃ x fx, result.root = some x ∧
      x ∈ ((entry.solveBy strategy r f settings accuracy).exec .start).2.samples ∧
      f.value x = .ok fx ∧
      Scalar.abs fx ≤ Scalar.maxOf (Scalar.abs accuracy) Scalar.epsilon := by
  have hsound : (entry.solveBy strategy r f settings accuracy).Ensures .start
      (fun result t => result.Sound f t.samples (Scalar.effectiveAccuracy accuracy))
      fun _ _ => True :=
    Entry.solveBy_sound r hstrategy (Scalar.isNaN_eq_false_iff.1 haccuracy) entry
  obtain ⟨x, fx, hroot, hx, hle⟩ := hsound.answer hsolve hconverged
  exact ⟨x, fx, hroot, hx.mem, hx.value, hle⟩

/-- Brent's method by tolerance on a line: it finds the root exactly. -/
theorem converged_root_of_line :
    (Brentq.strategy : Brentq.Strategy Double).EndsWhereItAsked ∧
    let f : Objective Double := .ofTotal fun x => x - 1.0
    let solve :=
      ((Entry.inBracket 2.5 0.0 4.0).solveBy Brentq.strategy ⟨.brentq, none⟩ f {} 1e-9).exec .start
    ∃ x fx, some (1.0 : Double) = some x ∧ x ∈ solve.2.samples ∧
      f.value x = .ok fx ∧ Scalar.abs fx ≤ Scalar.maxOf (Scalar.abs 1e-9) Scalar.epsilon :=
  ⟨Brentq.strategy_endsWhereItAsked,
    converged_root_meets_accuracy Brentq.strategy ⟨.brentq, none⟩ (.ofTotal fun x => x - 1.0) {} 1e-9
      (.inBracket 2.5 0.0 4.0)
      { status := .converged, root := some 1.0, evaluations := 5, method := "brentq",
        bracket := some ⟨0.0, 4.0, -1.0, 3.0⟩ }
      (fun _ => Brentq.strategy_endsWhereItAsked) (by decide +kernel) (by decide +kernel) rfl⟩

end RootSearch
