import Mathlib
import RootSearch.Proofs.Accounting
import RootSearch.Proofs.Progress
/-!
# Overrunning the budget

The ends of a supplied bracket cost two calls. From there every method but Ridders' calls the objective
once between two looks at its budget, so it overruns the budget by one call at most. Ridders' method
calls it twice: it comes to every look with an even number of calls, and runs past an even budget by two.
-/

namespace RootSearch

open Solve

/-- How far the calls in a supplied bracket can exceed the budget. -/
def Method.overrun (method : Method) (limit : Nat) : Nat :=
  if method = .ridder ∧ limit % 2 = 0 then 2 else 1

theorem Method.callsPerPass_of_ne_ridder {method : Method} (h : method ≠ .ridder) (limit : Nat) :
    method.callsPerPass = 1 ∧ method.overrun limit = 1 := by
  refine ⟨?_, if_neg fun hridder => h hridder.1⟩
  cases method <;> first | rfl | exact absurd rfl h

variable {α : Type} [Scalar α] {f : Objective α} {accuracy : α} {limit : Nat} {s t : Session α}

/-- A result that was reached before the budget was spent, with no more than `n` evaluations. -/
structure Result.ReachedBy {α : Type} (n : Int) (r : Result α) : Prop where
  evaluations : r.evaluations ≤ n
  unspent : r.status ≠ .maxEvaluationsExceeded

/-- A result of a refinement that ends within what its method can exceed the budget by. If Ridders' method
spends its budget, it exceeds it by as much. -/
structure Result.Overruns {α : Type} (method : Method) (limit : Nat) (r : Result α) : Prop where
  most : r.evaluations ≤ limit + method.overrun limit
  spent : method = .ridder → r.status = .maxEvaluationsExceeded →
    r.evaluations = limit + method.overrun limit

omit [Scalar α] in
theorem Result.ReachedBy.overruns {n : Int} {method : Method} {r : Result α} (h : r.ReachedBy n)
    (hn : n ≤ limit + method.overrun limit) : r.Overruns method limit :=
  ⟨Int.le_trans h.evaluations hn, fun _ hstatus => absurd hstatus h.unspent⟩

omit [Scalar α] in
theorem converged_reachedBy {n : Int} (h : t.evaluations ≤ n) (x : α) (method : String) :
    (t.converged x method).ReachedBy n :=
  ⟨h, by simp [Session.converged]⟩

theorem collapsed_reachedBy {n : Int} (h : t.evaluations ≤ n) (x fx : α) (method : String) :
    (t.collapsed x fx method accuracy).ReachedBy n := by
  simp only [Session.collapsed]
  split
  · exact converged_reachedBy h _ method
  · exact ⟨h, by simp [Session.fail]⟩

theorem settles_calls {σ : Type} {n : Int} {isSmall : Prop} {x fx : α} {method : String} {state : σ}
    (h : t.evaluations = n) :
    Settles isSmall x fx method accuracy state t fun p u =>
      p.Keeps (fun _ => u.evaluations = n) (·.ReachedBy n) :=
  ⟨fun _ => collapsed_reachedBy (Int.le_of_eq h) x fx method, fun _ => h⟩

/-! ## Ridders' method -/

namespace Ridder

/-- A pass that is to be repeated has called the objective twice. -/
theorem pass_calls (u : Unit) :
    (pass f accuracy u).Ensures s
      (fun p t => p.Keeps (fun _ => t.evaluations = s.evaluations + 2) (·.ReachedBy (s.evaluations + 2)))
      fun _ _ => True := by
  rw [ensures_pass]
  have hmid : (s.visited s.bracket.midpoint).evaluations ≤ s.evaluations + 2 := by
    show s.evaluations + 1 ≤ s.evaluations + 2
    omega
  apply holds_of_values
  intro fMid _
  refine ⟨fun _ => converged_reachedBy hmid _ name, fun _ => ?_⟩
  apply holds_of_values
  intro scale _
  refine ⟨fun _ => collapsed_reachedBy hmid _ _ name, fun _ => ?_⟩
  apply holds_of_values
  intro x _
  have hboth : ((s.visited s.bracket.midpoint).visited x).evaluations = s.evaluations + 2 := by
    show s.evaluations + 1 + 1 = s.evaluations + 2
    omega
  apply holds_of_values
  intro fx _
  exact ⟨fun _ => converged_reachedBy (Int.le_of_eq hboth) _ name, fun _ => settles_calls hboth⟩

/-- After an even number of calls the method comes to every look at its budget with an even number. -/
theorem refine_overruns (heven : s.evaluations % 2 = 0) (hs : s.evaluations ≤ limit) :
    (refine f limit accuracy).Ensures s (fun r _ => r.Overruns .ridder limit) fun _ _ => True := by
  have hoverrun : Method.ridder.overrun limit = if limit % 2 = 0 then 2 else 1 := by
    simp [Method.overrun]
  have hmost : s.evaluations ≤ limit + Method.ridder.overrun limit := by omega
  refine ensures_whileBudget_of_advances
    (I := fun _ t => t.evaluations % 2 = 0 ∧ t.evaluations ≤ limit + Method.ridder.overrun limit)
    (pass_advances f accuracy) (fun u t ht hb => ?_) (fun _ t ht hb => ?_) ⟨heven, hmost⟩
  · obtain ⟨heven, hmost⟩ := ht
    have hleft : t.evaluations ≤ limit := by simpa [Session.hasBudget] using hb
    -- an odd budget is not met with an even number, so another two calls exceed it by one
    have htwo : t.evaluations + 2 ≤ limit + Method.ridder.overrun limit := by
      rw [hoverrun]
      split <;> omega
    refine (pass_calls u).mono (fun p v hp => ?_) fun _ _ h => h
    cases p with
    | again u =>
      have hcharged : v.evaluations = t.evaluations + 2 := hp
      exact ⟨by omega, by omega⟩
    | stop r => exact hp.overruns htwo
  · obtain ⟨heven, hmost⟩ := ht
    have hspent : ¬t.evaluations ≤ limit := by simpa [Session.hasBudget] using hb
    rw [ensures_exhausted]
    refine ⟨hmost, fun _ _ => Int.le_antisymm hmost ?_⟩
    show (limit : Int) + Method.ridder.overrun limit ≤ t.evaluations
    rw [hoverrun]
    split <;> omega

end Ridder

/-! ## Supplied brackets -/

/-- A search in a supplied bracket hands it over after two calls. -/
theorem Search.supplied_calls {settings : Settings α} {guess xMin xMax : α} {method : String} :
    (supplied f settings accuracy guess xMin xMax method).Ensures .start
      (fun outcome t => (∀ result, outcome = .answered result → result.ReachedBy 2) ∧
        (outcome = .bracketed → t.evaluations = 2))
      fun _ _ => True := by
  rw [ensures_supplied]
  refine ⟨fun status reason hdefect => ⟨?_, by simp⟩, fun _ => ?_⟩
  · rintro result ⟨⟩
    refine ⟨Int.zero_le_ofNat 2, ?_⟩
    rcases defect_cases hdefect with rfl | rfl | rfl <;> exact fun hstatus => nomatch hstatus
  apply holds_of_values
  intro fMin _
  refine ⟨fun _ => ⟨?_, by simp⟩, fun _ => ?_⟩
  · rintro result ⟨⟩
    exact converged_reachedBy (show (1 : Int) ≤ 2 by decide) _ method
  apply holds_of_values
  intro fMax _
  refine ⟨fun _ => ⟨?_, by simp⟩, fun _ => ⟨fun _ => ⟨by simp, fun _ => rfl⟩, fun _ => ⟨?_, by simp⟩⟩⟩
  · rintro result ⟨⟩
    exact converged_reachedBy (show (2 : Int) ≤ 2 by decide) _ method
  · rintro result ⟨⟩
    exact ⟨show (2 : Int) ≤ 2 by decide, fun hstatus => nomatch hstatus⟩

/-- A refinement after two calls overruns its budget by two calls if it is by Ridders' method and the
budget is even, and otherwise by one. -/
theorem Refiner.refineBy_overruns {strategy : Brentq.Strategy α} (hstrategy : strategy.IsThrifty)
    (r : Refiner α) (hbudget : 2 ≤ limit) (hs : s.evaluations = 2) :
    (r.refineBy strategy f limit accuracy).Ensures s (fun result _ => result.Overruns r.method limit)
      fun _ _ => True := by
  by_cases hr : r.method = .ridder
  · have hrefine : r.refineBy strategy f limit accuracy = Ridder.refine f limit accuracy := by
      unfold refineBy
      rw [hr]
    rw [hrefine, hr]
    exact Ridder.refine_overruns (by omega) (by omega)
  · obtain ⟨hcalls, hoverrun⟩ := Method.callsPerPass_of_ne_ridder hr limit
    have hrefine : RefinesOn (limit + 1) (r.refineBy strategy f limit accuracy) s :=
      r.refineBy_refinesOn (fun _ => hstrategy) (by omega) (by omega)
    refine hrefine.mono (fun result t h => ⟨?_, fun h => absurd h hr⟩) fun _ _ _ => trivial
    rw [h.2, hoverrun]
    exact h.1.bound

/-- A result in a supplied bracket has overrun its budget by one evaluation at most, unless Ridders'
method had an even budget: that one it overruns by two, and always does if it spends it. -/
theorem supplied_bracket_overruns_by_one (strategy : Brentq.Strategy α)
    (hstrategy : strategy.IsThrifty) (r : Refiner α) (f : Objective α) (settings : Settings α)
    (hbudget : 2 ≤ settings.maxEvaluations) (accuracy guess xMin xMax : α) (result : Result α)
    (hresult : (((Entry.inBracket guess xMin xMax).solveBy strategy r f settings accuracy).exec
      .start).1 = .ok result) :
    result.evaluations ≤ settings.maxEvaluations + r.method.overrun settings.maxEvaluations ∧
    (r.method = .ridder → result.status = .maxEvaluationsExceeded →
      result.evaluations = settings.maxEvaluations + r.method.overrun settings.maxEvaluations) := by
  have hsolve : ((Entry.inBracket guess xMin xMax).solveBy strategy r f settings accuracy).Ensures .start
      (fun result _ => result.Overruns r.method settings.maxEvaluations) fun _ _ => True := by
    rw [Entry.ensures_solveBy]
    refine Search.supplied_calls.mono
      (fun outcome t h => outcome.ensures_refineBy.2 ⟨fun result e => ?_, fun e => ?_⟩) fun _ _ h => h
    · exact (h.1 result e).overruns (by omega)
    · exact r.refineBy_overruns hstrategy hbudget (h.2 e)
  obtain ⟨hmost, hspent⟩ := hsolve.answer hresult
  exact ⟨hmost, hspent⟩

/-- Ridders' method on the cube root of two spends an odd budget of three on a fourth evaluation. -/
theorem supplied_bracket_overruns_odd_budget :
    let f : Objective Double := .ofTotal fun x => x * x * x - 2.0
    let b : Bracket Double := ⟨2.0, 1.0513167019494862, 6.0, -0.8380145448516279⟩
    let result : Result Double :=
      { status := .maxEvaluationsExceeded, evaluations := 4, method := "ridder",
        reason := .refinementSpent "ridder" 3 b 1.0513167019494862, bracket := some b }
    (Brentq.strategy : Brentq.Strategy Double).IsThrifty ∧
    2 ≤ ({ maxEvaluations := 3 } : Settings Double).maxEvaluations ∧
    (((Entry.inBracket 1.5 0.0 4.0).solveBy Brentq.strategy ⟨.ridder, none⟩ f { maxEvaluations := 3 }
      1e-15).exec .start).1 = .ok result ∧
    result.evaluations = (3 + Method.ridder.overrun 3 : Int) := by
  intro f b result
  have hresult : (((Entry.inBracket 1.5 0.0 4.0).solveBy Brentq.strategy ⟨.ridder, none⟩ f
      { maxEvaluations := 3 } 1e-15).exec .start).1 = .ok result := by decide +kernel
  exact ⟨Brentq.strategy_isThrifty, by decide, hresult, (supplied_bracket_overruns_by_one
    Brentq.strategy Brentq.strategy_isThrifty ⟨.ridder, none⟩ f { maxEvaluations := 3 } (by decide) 1e-15
    1.5 0.0 4.0 result hresult).2 rfl rfl⟩

/-- With a budget of two it makes the same four evaluations, and is not within one of its budget. -/
theorem supplied_bracket_overruns_by_two :
    let f : Objective Double := .ofTotal fun x => x * x * x - 2.0
    ∃ result, ((solveInBracket ⟨.ridder, none⟩ f { maxEvaluations := 2 } 1e-15 1.5 0.0 4.0).exec
      .start).1 = .ok result ∧ ¬result.evaluations ≤ 2 + 1 := by
  intro f
  let b : Bracket Double := ⟨2.0, 1.0513167019494862, 6.0, -0.8380145448516279⟩
  refine ⟨{ status := .maxEvaluationsExceeded, evaluations := 4, method := "ridder",
            reason := .refinementSpent "ridder" 2 b 1.0513167019494862, bracket := some b }, ?_, by decide⟩
  decide +kernel

end RootSearch
