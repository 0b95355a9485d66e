import RootSearch.Proofs.Soundness
import RootSearch.Proofs.Strategy
/-!
# The reported bracket was sampled

A point and its value move together, so the values that a result reports with its bracket are those of
the objective at the ends, both sampled in this solve. Only a supplied bracket can be reported before
both of its ends were sampled. Nothing is asked of the numbers here, and the search by tolerance may
follow any strategy.
-/

namespace RootSearch

open Solve

variable {α : Type} {f : Objective α} {s : Session α}

/-- The reported bracket holds the values at its ends, where the objective was called. -/
def Result.EndsSampled (f : Objective α) (samples : Array α) (r : Result α) : Prop :=
  ∃ b, r.bracket = some b ∧ b.Genuine f samples

/-! ## Refinements -/

variable [Scalar α] {accuracy : α}

/-- A computation ends with a result whose reported bracket was sampled, or in a fault. -/
abbrev ReportsEnds (f : Objective α) (m : Solve α (Result α)) (s : Session α) : Prop :=
  m.Ensures s (fun result t => result.EndsSampled f t.samples) fun _ _ => True

theorem RefinesGenuine.reportsEnds {m : Solve α (Result α)} (h : RefinesGenuine f accuracy m s) :
    ReportsEnds f m s :=
  h.mono (fun _ _ hresult => hresult.ends) fun _ _ h => h

theorem Brentq.refineBy_reportsEnds (strategy : Strategy α) (limit : Nat) (hs : s.Genuine f) :
    ReportsEnds f (refineBy strategy f limit accuracy) s := by
  rw [ReportsEnds, ensures_refineBy]
  refine ⟨fun _ => (polish_genuine limit hs).reportsEnds, fun _ => ?_⟩
  refine (run_genuine _ hs (by simp)).mono (fun found t h => ?_) fun _ _ h => h
  have hb : (replay t.bracket found.samples.reverse).Genuine f t.samples :=
    replay_all h.1 fun p hp => h.2 p (List.mem_reverse.1 hp)
  let u := (t.narrowed (replay t.bracket found.samples.reverse)).located found.root
  have hu (event : Event α) : (u.logged event).Genuine f := hb
  constructor
  · intro _
    exact ⟨u.bracket, rfl, hb⟩
  · intro _
    exact (polish_genuine limit (hu _)).reportsEnds

theorem Refiner.refineBy_reportsEnds (strategy : Brentq.Strategy α) (r : Refiner α) (limit : Nat)
    (hs : s.Genuine f) : ReportsEnds f (r.refineBy strategy f limit accuracy) s := by
  by_cases hr : r.method = .brentq
  · unfold refineBy
    rw [hr]
    exact Brentq.refineBy_reportsEnds strategy limit hs
  · rw [refineBy_native hr]
    exact (native_genuine hr limit hs).reportsEnds

/-! ## Searches -/

namespace Search

variable {settings : Settings α} {method : String}

/-- A search answers with a sampled bracket or hands one over. -/
def Outcome.EndsSampled (f : Objective α) (t : Session α) : Outcome α → Prop
  | .answered result => result.EndsSampled f t.samples
  | .bracketed => t.Genuine f

theorem pass_endsSampled (hs : s.Genuine f) (tieLow : Bool) :
    (pass f settings method tieLow).Ensures s
      (fun p t => p.Keeps (fun _ => t.Genuine f) fun outcome => outcome.EndsSampled f t)
      fun _ _ => True := by
  rw [ensures_pass]
  constructor
  · intro _
    exact ⟨fun _ => ⟨s.bracket, rfl, hs⟩, fun _ => ⟨fun _ => ⟨s.bracket, rfl, hs⟩, fun _ => hs⟩⟩
  · intro _
    apply holds_of_values
    intro fx hfx
    exact expanded_genuine hs _ hfx

theorem aroundGuess_endsSampled (guess step : α) :
    (aroundGuess f settings accuracy guess step method).Ensures s
      (fun outcome t => outcome.EndsSampled f t) fun _ _ => True := by
  rw [ensures_aroundGuess]
  apply holds_of_values
  intro fx hfx
  have hguess : Sampled f (s.visited guess).samples guess fx := Sampled.latest s.samples hfx
  refine ⟨fun _ => ⟨⟨guess, guess, fx, fx⟩, rfl, hguess, hguess⟩, fun _ => ?_⟩
  apply holds_of_values
  intro fx' hfx'
  apply ensures_whileBudget (I := fun _ t => t.Genuine f)
  · intro tieLow t ht _
    exact pass_endsSampled ht tieLow
  · intro _ t ht
    rw [ensures_giveUp]
    exact ⟨t.bracket, rfl, ht⟩
  · exact opened_all (hguess.push _) (Sampled.latest _ hfx')

/-- A supplied bracket is sampled, unless the search ends with its first sample or before. -/
theorem supplied_endsSampled (guess xMin xMax : α) :
    (supplied f settings accuracy guess xMin xMax method).Ensures s
      (fun outcome t => outcome.EndsSampled f t ∨
        ∃ result, outcome = .answered result ∧ result.evaluations ≤ s.evaluations + 1)
      fun _ _ => True := by
  rw [ensures_supplied]
  refine ⟨fun status reason _ => .inr ⟨_, rfl, ?_⟩, fun _ => ?_⟩
  · exact Int.le_add_one (Int.le_refl s.evaluations)
  apply holds_of_values
  intro fMin hfMin
  refine ⟨fun _ => .inr ⟨_, rfl, Int.le_refl _⟩, fun _ => ?_⟩
  apply holds_of_values
  intro fMax hfMax
  have hb : Bracket.Genuine f ((s.samples.push xMin).push xMax) ⟨xMin, xMax, fMin, fMax⟩ :=
    ⟨(Sampled.latest _ hfMin).push xMax, Sampled.latest _ hfMax⟩
  exact ⟨fun _ => .inl ⟨_, rfl, hb⟩, fun _ => ⟨fun _ => .inl hb, fun _ => .inl ⟨_, rfl, hb⟩⟩⟩

end Search

/-! ## Solves -/

/-- The ends of the bracket have been sampled when a search is over, unless it has given up a supplied
bracket with the first sample or before. -/
theorem Entry.search_endsSampled {settings : Settings α} (entry : Entry α) :
    (entry.search f settings accuracy method).Ensures .start
      (fun outcome t => outcome.EndsSampled f t ∨
        (∃ guess xMin xMax, entry = .inBracket guess xMin xMax) ∧
          ∃ result, outcome = .answered result ∧ result.evaluations ≤ 1)
      fun _ _ => True := by
  cases entry with
  | fromGuess guess step =>
    exact (Search.aroundGuess_endsSampled guess step).mono (fun _ _ h => .inl h) fun _ _ h => h
  | inBracket guess xMin xMax =>
    refine (Search.supplied_endsSampled guess xMin xMax).mono (fun outcome t h => ?_) fun _ _ h => h
    exact h.imp_right fun hresult => ⟨⟨guess, xMin, xMax, rfl⟩, hresult⟩

/-- A bracket that a search hands over has been sampled. -/
theorem Entry.search_genuine {settings : Settings α} (entry : Entry α) :
    (entry.search f settings accuracy method).Ensures .start
      (fun outcome t => outcome = .bracketed → t.Genuine f) fun _ _ => True := by
  refine entry.search_endsSampled.mono (fun outcome t h => ?_) fun _ _ h => h
  rintro rfl
  exact h.resolve_right fun ⟨_, _, e, _⟩ => nomatch e

/-- A result of a solve was read off a sampled bracket, or a supplied bracket was given up with the
first sample or before. -/
theorem Entry.solveBy_reportsEnds (strategy : Brentq.Strategy α) (r : Refiner α)
    (settings : Settings α) (entry : Entry α) :
    (entry.solveBy strategy r f settings accuracy).Ensures .start
      (fun result t => result.EndsSampled f t.samples ∨
        (∃ guess xMin xMax, entry = .inBracket guess xMin xMax) ∧ result.evaluations ≤ 1)
      fun _ _ => True := by
  rw [ensures_solveBy]
  refine (entry.search_endsSampled.and entry.search_genuine).mono (fun outcome t h => ?_)
    fun _ _ h => h.1
  obtain ⟨hends, hgenuine⟩ := h
  rw [outcome.ensures_refineBy]
  constructor
  · rintro result rfl
    rcases hends with hends | ⟨hentry, result', e, hle⟩
    · exact .inl hends
    · cases e
      exact .inr ⟨hentry, hle⟩
  · intro hbracketed
    exact (r.refineBy_reportsEnds strategy settings.maxEvaluations (hgenuine hbracketed)).mono
      (fun _ _ h => .inl h) fun _ _ h => h

/-- Every result of a solve from a guess, and every result of a solve in a supplied bracket after two
evaluations or more, reports with its bracket the values of the objective at the two ends, and the
objective was called at both during the solve. -/
theorem reported_values_are_sampled (strategy : Brentq.Strategy α) (r : Refiner α) (f : Objective α)
    (settings : Settings α) (accuracy : α) (entry : Entry α) (result : Result α)
    (hresult : ((entry.solveBy strategy r f settings accuracy).exec .start).1 = .ok result)
    (hsupplied : ∀ guess xMin xMax, entry = .inBracket guess xMin xMax → 2 ≤ result.evaluations) :
    let samples := ((entry.solveBy strategy r f settings accuracy).exec .start).2.samples
    ∃ b, result.bracket = some b ∧ f.value b.xMin = .ok b.fMin ∧ f.value b.xMax = .ok b.fMax ∧
      b.xMin ∈ samples ∧ b.xMax ∈ samples := by
  have hends := (entry.solveBy_reportsEnds strategy r settings).answer hresult
  rcases hends with ⟨b, hb, hgenuine⟩ | ⟨⟨guess, xMin, xMax, e⟩, hfew⟩
  · exact ⟨b, hb, hgenuine.min.value, hgenuine.max.value, hgenuine.min.mem, hgenuine.max.mem⟩
  · have hmany := hsupplied guess xMin xMax e
    omega

/-- Bisection towards values that are not numbers, until its budget is spent. -/
theorem reported_values_are_sampled_beside_nan :
    let f : Objective Double :=
      .ofTotal fun x => if x < 1.0 then -1.0 else if x < 3.0 then 0.0 / 0.0 else 2.0
    let outcome := ((Entry.inBracket 2.5 0.0 4.0).solveBy Brentq.strategy ⟨.bisection, none⟩ f
      { maxEvaluations := 3 } 1e-9).exec .start
    ∃ b, some (⟨0.0, 1.0, -1.0, 0.0 / 0.0⟩ : Bracket Double) = some b ∧
      f.value b.xMin = .ok b.fMin ∧ f.value b.xMax = .ok b.fMax ∧
      b.xMin ∈ outcome.2.samples ∧ b.xMax ∈ outcome.2.samples :=
  let b : Bracket Double := ⟨0.0, 1.0, -1.0, 0.0 / 0.0⟩
  reported_values_are_sampled Brentq.strategy ⟨.bisection, none⟩ _ { maxEvaluations := 3 } 1e-9
    (.inBracket 2.5 0.0 4.0)
    { status := .maxEvaluationsExceeded, evaluations := 4, method := "bisection",
      reason := .refinementSpent "bisection" 3 b 1.0, bracket := some b }
    (by decide +kernel) (fun _ _ _ _ => by decide)

end RootSearch
