import RootSearch.Proofs.Accounting
import RootSearch.Proofs.Endings
import RootSearch.Proofs.Progress
import RootSearch.Proofs.SampledRoots
import RootSearch.Proofs.SignsKept
/-!
# What a search has seen when it gives up

A search looks for a sign change at the head of its loop, within its budget only. So it has looked at
every bracket that it grew and found none. At the bracket that it reports it has not looked: the sample
that completed it spent the budget, and the values there may well have opposite signs.
-/

namespace RootSearch

open Solve

/-! ## Values without a sign change -/

namespace Double

open Float.Model (UnpackedFloat Format)
open Float.Model.UnpackedFloat (Sign)

/-- The values are on one side of zero, or one is zero and the other infinite, whose product is not a
number. -/
def Uncrossed (y z : Double) : Prop :=
  Brent.sameSign y z = true ∨
    ¬(y.isFinite = true ∧ z.isFinite = true) ∧ ((y == 0.0) = true ∨ (z == 0.0) = true)

theorem mul_infinite {u v : UnpackedFloat} {s t : Sign} (hu : side u = some s) (hv : side v = some t)
    (h : ¬(u.isFinite = true ∧ v.isFinite = true)) :
    UnpackedFloat.mul Format.binary64 u v = .infinity (s * t) := by
  rcases u with _ | _ | _ | ⟨_, m, e, hm⟩ <;> cases hu <;>
    rcases v with _ | _ | _ | ⟨_, n, e', hn⟩ <;> cases hv
  all_goals first
    | rfl
    | exact absurd ⟨rfl, rfl⟩ h

/-- Opposite values of any size have a product that tells so. -/
theorem mul_le_zero_of_opposite {y z : Double} (h : Opposite y z) : y * z ≤ 0.0 := by
  by_cases hfinite : y.isFinite = true ∧ z.isFinite = true
  · exact (mul_le_zero_iff hfinite.1 hfinite.2).2 (.inl h)
  · -- with an infinite factor nothing is rounded, and the product has the sign of both
    refine Scalar.le_of_lt (lt_zero_iff.2 ?_)
    have hparts : ¬(y.parts.isFinite = true ∧ z.parts.isFinite = true) := hfinite
    rw [parts_mul]
    rcases opposite_iff_side.1 h with ⟨hy, hz⟩ | ⟨hy, hz⟩
    · rw [mul_infinite hy hz hparts, side_kept_infinity]
      rfl
    · rw [mul_infinite hy hz hparts, side_kept_infinity]
      rfl

/-- Numbers whose product does not tell a sign change have none. -/
theorem uncrossed_of_product {y z : Double} (hy : Scalar.isNaN y = false) (hz : Scalar.isNaN z = false)
    (h : ¬y * z ≤ 0.0) : Uncrossed y z := by
  by_cases hzero : (y == 0.0) = true ∨ (z == 0.0) = true
  · refine .inr ⟨fun hfinite => h ?_, hzero⟩
    exact mul_le_zero_of_zero hfinite.1 hfinite.2 hzero
  · obtain ⟨hy0, hz0⟩ := not_or.1 hzero
    refine .inl ((Brent.sameSign_iff_of_signed (signed_of_number hy hy0) (signed_of_number hz hz0)).2 ?_)
    exact mt mul_le_zero_of_opposite h

end Double

/-! ## The search -/

namespace Search

variable {f : Objective Double} {settings : Settings Double} {accuracy guess step : Double}
variable {method : String} {first : Bracket Double} {t : Session Double}

/-- At the head of the search: the brackets that were grown from showed no sign change, and the latest is
the current one, with numbers at its ends. -/
structure Examined (first : Bracket Double) (t : Session Double) : Prop where
  numbers : t.bracket.All fun _ fx => Scalar.isNaN fx = false
  current : (t.expansions.map Prod.snd).getLastD first = t.bracket
  seen : ∀ b ∈ grownBrackets first t.expansions, Double.Uncrossed b.fMin b.fMax

/-- A search that gives up has spent its budget, and reports a bracket that it did not look at. -/
structure GaveUp (limit : Nat) (first : Bracket Double) (t : Session Double) (result : Result Double) :
    Prop where
  spent : limit < result.evaluations
  last : result.bracket = some ((t.expansions.map Prod.snd).getLastD first)
  seen : ∀ b ∈ grownBrackets first t.expansions, Double.Uncrossed b.fMin b.fMax

/-- If the search answers with its own failure, it gave up. -/
abbrev Outcome.Honest (limit : Nat) (first : Bracket Double) (t : Session Double)
    (outcome : Outcome Double) : Prop :=
  ∀ result, outcome = .answered result → result.status = .bracketingFailed → GaveUp limit first t result

theorem honest_converged {limit : Nat} (root : Double) :
    (Outcome.answered (t.converged root method)).Honest limit first t := by
  rintro _ ⟨⟩ hstatus
  cases hstatus

theorem honest_bracketed {limit : Nat} : (Outcome.bracketed : Outcome Double).Honest limit first t := by
  intro result e
  cases e

theorem pass_examined (hf : f.GivesNumbers) (h : Examined first t) (limit : Nat) (tieLow : Bool) :
    (pass f settings method tieLow).Ensures t
      (fun p u => p.Keeps (fun _ => Examined first u) (·.Honest limit first u)) fun _ _ => True := by
  rw [ensures_pass]
  refine ⟨fun _ => ⟨fun _ => honest_converged _,
      fun _ => ⟨fun _ => honest_converged _, fun _ => honest_bracketed⟩⟩,
    fun hproduct => ?_⟩
  apply holds_of_values
  intro fx hfx
  refine ⟨grown_all h.numbers (hf _ fx hfx) _, ?_, fun b hb => ?_⟩
  · simp [Session.expansions_expanded]
  · -- only the bracket that has just been examined joins those that were grown from
    rw [Session.expansions_expanded, grownBrackets_append, h.current] at hb
    rcases List.mem_append.1 hb with hb | hb
    · exact h.seen b hb
    · rw [List.mem_singleton.1 hb]
      exact Double.uncrossed_of_product h.numbers.min h.numbers.max hproduct

theorem aroundGuess_honest (hf : f.GivesNumbers) :
    (aroundGuess f settings accuracy guess step method).Ensures .start
      (fun outcome t => outcome.Honest settings.maxEvaluations
        ((Entry.fromGuess guess step).first f settings) t) fun _ _ => True := by
  rw [ensures_aroundGuess]
  apply holds_of_values
  intro fx hfx
  refine ⟨fun _ => honest_converged guess, fun _ => ?_⟩
  apply holds_of_values
  intro fx' hfx'
  rw [Entry.first_eq_opened hfx hfx']
  refine ensures_whileBudget_of_advances (pass_advances f settings method)
    (fun tieLow u hu _ => pass_examined hf hu settings.maxEvaluations tieLow) (fun _ u hu hspent => ?_)
    (I := fun _ u => Examined (opened guess fx (beside settings guess fx step) fx') u) ?_
  · -- the budget ends the loop before the last bracket comes to its head
    rw [ensures_giveUp]
    have hlog : (u.logged (.searchFailed (.searchSpent settings.maxEvaluations u.bracket))).expansions =
        u.expansions := Session.expansions_logged_of_none rfl
    rw [Session.hasBudget, decide_eq_true_eq, Int.not_le] at hspent
    intro reason w result e _
    cases e
    refine ⟨hspent, ?_, ?_⟩
    · rw [hlog, hu.current]
      rfl
    · rw [hlog]
      exact hu.seen
  · refine ⟨opened_all (hf _ fx hfx) (hf _ fx' hfx'), rfl, ?_⟩
    simp [grownBrackets, Session.expansions, Session.narrowed, Session.sampled, Session.visited,
      Session.start]

end Search

/-- If every value of the objective is a number, a solve by whatever method that reports that it found no
bracket has spent its budget. None of the brackets that it grew from showed a sign change. What it reports
is the last bracket, completed by the sample that spent the budget, and that one was not looked at. -/
theorem failed_search_saw_no_crossing (strategy : Brentq.Strategy Double) (r : Refiner Double)
    (f : Objective Double) (settings : Settings Double) (accuracy guess step : Double)
    (result : Result Double) (hf : f.GivesNumbers)
    (hresult : (((Entry.fromGuess guess step).solveBy strategy r f settings accuracy).exec .start).1 =
      .ok result)
    (hstatus : result.status = .bracketingFailed) :
    let t := (((Entry.fromGuess guess step).solveBy strategy r f settings accuracy).exec .start).2
    let first := (Entry.fromGuess guess step).first f settings
    settings.maxEvaluations < result.evaluations ∧
      result.bracket = some ((t.expansions.map Prod.snd).getLastD first) ∧
      ∀ b ∈ grownBrackets first t.expansions, Double.Uncrossed b.fMin b.fMax := by
  have hsearch : ((Entry.fromGuess guess step).search f settings accuracy r.name).Ensures .start
      (fun outcome t => ∀ result, outcome = .answered result → result.status = .bracketingFailed →
        Search.GaveUp settings.maxEvaluations ((Entry.fromGuess guess step).first f settings) t result)
      fun _ _ => True := Search.aroundGuess_honest hf
  have hends := ((Entry.fromGuess guess step).solveBy_of_search strategy r hsearch).answer hresult
  have hgave := hends (by rw [Result.IsRefined, hstatus]; decide) hstatus
  exact ⟨hgave.spent, hgave.last, hgave.seen⟩

/-- A budget of two, spent by the sample that finds the other side. -/
theorem failed_search_saw_no_crossing_of_two :
    let f : Objective Double :=
      .ofTotal fun x => if x < 2.0 then if x < 0.5 then -4.0 else -3.0 else 5.0
    let entry : Entry Double := .fromGuess 0.0 1.0
    let b : Bracket Double := ⟨0.0, 2.6, -4.0, 5.0⟩
    let result : Result Double :=
      { status := .bracketingFailed, evaluations := 3, method := "ridder", reason := .searchSpent 2 b,
        bracket := some b }
    let outcome :=
      (entry.solveBy Brentq.strategy ⟨.ridder, none⟩ f { maxEvaluations := 2 } 1e-9).exec .start
    let grown := grownBrackets (entry.first f { maxEvaluations := 2 }) outcome.2.expansions
    f.GivesNumbers ∧ outcome.1 = .ok result ∧ result.status = .bracketingFailed ∧
      grown = [⟨0.0, 1.0, -4.0, -3.0⟩] ∧ ∀ b ∈ grown, Double.Uncrossed b.fMin b.fMax := by
  intro f entry b result
  have hf : f.GivesNumbers := by
    rintro x fx ⟨⟩
    dsimp only
    split
    · split <;> decide +kernel
    · decide +kernel
  have hresult : ((entry.solveBy Brentq.strategy ⟨.ridder, none⟩ f { maxEvaluations := 2 } 1e-9).exec
      .start).1 = .ok result := by decide +kernel
  have hgrown : grownBrackets (entry.first f { maxEvaluations := 2 })
      ((entry.solveBy Brentq.strategy ⟨.ridder, none⟩ f { maxEvaluations := 2 } 1e-9).exec
        .start).2.expansions = [⟨0.0, 1.0, -4.0, -3.0⟩] := by decide +kernel
  obtain ⟨-, -, hseen⟩ := failed_search_saw_no_crossing Brentq.strategy ⟨.ridder, none⟩ f
    { maxEvaluations := 2 } 1e-9 0.0 1.0 result hf hresult rfl
  exact ⟨hf, hresult, rfl, hgrown, hseen⟩

/-- A failure whose bracket shows a sign change: both ends of the first bracket were sampled, on either
side of zero, but the second sample spent the budget. -/
theorem failed_search_reports_crossing :
    let f : Objective Double := .ofTotal fun x => if x < 2.0 then -3.0 else 5.0
    let b : Bracket Double := ⟨0.0, 3.0, -3.0, 5.0⟩
    f.GivesNumbers ∧
    ((solveFromGuess ⟨.bisection, none⟩ f { maxEvaluations := 1 } 1e-9 0.0 3.0).exec .start).1 =
      .ok { status := .bracketingFailed, evaluations := 2, method := "bisection",
            reason := .searchSpent 1 b, bracket := some b } ∧
    b.fMin < 0.0 ∧ 0.0 < b.fMax := by
  intro f b
  have hf : f.GivesNumbers := by
    rintro x fx ⟨⟩
    dsimp only
    split <;> decide +kernel
  exact ⟨hf, by decide +kernel, by decide +kernel, by decide +kernel⟩

end RootSearch
