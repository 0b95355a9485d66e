import RootSearch.Proofs.Heads
import RootSearch.Proofs.Searching
/-!
# How searches and refinements end

A refinement converges, or it collapses, diverges or spends its budget. The other failures belong to
the searches before it, and these have no failures but their own.
-/

namespace RootSearch

open Solve

/-- The statuses that refinements end with. -/
def Status.IsRefined (status : Status) : Prop :=
  status = .converged ∨ status = .accuracyNotReached ∨ status = .maxEvaluationsExceeded ∨
    status = .diverged

instance (status : Status) : Decidable status.IsRefined := inferInstanceAs (Decidable (_ ∨ _))

variable {α σ : Type} [Scalar α] {f : Objective α} {accuracy x fx : α} {method : String}
variable {s : Session α}

/-- A result of a refinement. -/
abbrev Result.IsRefined (r : Result α) : Prop := r.status.IsRefined

theorem collapsed_isRefined : (s.collapsed x fx method accuracy).IsRefined := by
  simp only [Session.collapsed]
  split
  · exact .inl rfl
  · exact .inr (.inl rfl)

/-! ## Passes -/

/-- If the pass stops, it does so with a result of a refinement. -/
abbrev StopsRefined (p : Pass σ (Result α)) (_ : Session α) : Prop :=
  p.Keeps (fun _ => True) Result.IsRefined

theorem visits_stopsRefined {next : α → Prop} (h : ∀ fx, next fx) :
    Visits f accuracy method x s (StopsRefined (σ := σ)) (fun _ _ => True) next := by
  apply holds_of_values
  intro fx _
  exact ⟨fun _ => .inl rfl, fun _ => h fx⟩

theorem visitsWithSlope_stopsRefined {slope : Slope α} {next : Newton.Point α → Prop}
    (h : ∀ p, next p) :
    VisitsWithSlope f slope accuracy method x s (StopsRefined (σ := σ)) (fun _ _ => True) next := by
  apply holds_of_values
  intro fx _
  apply holds_of_values
  intro dfx _
  exact ⟨fun _ => .inl rfl, fun _ => h ⟨x, fx, dfx⟩⟩

theorem settles_stopsRefined {isSmall : Prop} {state : σ} :
    Settles isSmall x fx method accuracy state s StopsRefined :=
  ⟨fun _ => collapsed_isRefined, fun _ => trivial⟩

omit [Scalar α] in
theorem diverged_isRefined {reason : Reason α} {root : Option α} :
    (s.fail .diverged reason method root).IsRefined :=
  .inr (.inr (.inr rfl))

/-- Whichever loop a refinement enters, its passes stop with results of a refinement. -/
theorem Refiner.Enters.stopsRefined {r : Refiner α} {l : Loop α} (hl : r.Enters f accuracy s l)
    (state : l.State) (t : Session α) :
    (l.pass state).Ensures t StopsRefined fun _ _ => True := by
  obtain ⟨method, supplied⟩ := r
  cases method with
  | bisection =>
    cases hl
    rw [Bisection.ensures_pass]
    exact visits_stopsRefined fun fMid => settles_stopsRefined
  | falsePosition =>
    cases hl
    rw [FalsePosition.ensures_pass]
    apply holds_of_values
    intro x _
    exact visits_stopsRefined fun fx => settles_stopsRefined
  | secant =>
    cases hl
    rw [Secant.ensures_pass]
    refine ⟨fun _ => diverged_isRefined, fun _ => ?_⟩
    apply holds_of_values
    intro d _
    exact visits_stopsRefined fun fx => settles_stopsRefined
  | ridder =>
    cases hl
    rw [Ridder.ensures_pass]
    apply visits_stopsRefined
    intro fMid
    apply holds_of_values
    intro scale _
    refine ⟨fun _ => collapsed_isRefined, fun _ => ?_⟩
    apply holds_of_values
    intro x _
    exact visits_stopsRefined fun fx => settles_stopsRefined
  | newton =>
    obtain ⟨slope, p, -, rfl⟩ := hl
    rw [Newton.ensures_pass]
    refine ⟨fun _ => diverged_isRefined, fun _ => ?_⟩
    apply holds_of_values
    intro dx _
    refine ⟨fun _ => diverged_isRefined, fun _ => ?_⟩
    exact visitsWithSlope_stopsRefined fun q => settles_stopsRefined
  | safeNewton =>
    obtain ⟨slope, p, -, rfl⟩ := hl
    rw [SafeNewton.ensures_pass]
    apply holds_of_values
    intro (dx, x) _
    exact visitsWithSlope_stopsRefined fun p => settles_stopsRefined
  | brent =>
    obtain ⟨fx, -, -, rfl⟩ := hl
    rw [Brent.ensures_pass]
    rcases Brent.arrange t.bracket state with ⟨b, i⟩
    refine ⟨fun _ => .inl rfl, fun _ => ⟨fun _ => collapsed_isRefined, fun _ => ?_⟩⟩
    apply holds_of_values
    intro (step, lastStep) _
    exact visits_stopsRefined fun fx => trivial
  | brentq => cases hl

/-! ## Refinements -/

/-- A computation ends with a result of a refinement, or in a fault. -/
abbrev EndsRefined (m : Solve α (Result α)) (s : Session α) : Prop :=
  m.Ensures s (fun result _ => result.IsRefined) fun _ _ => True

theorem Refiner.native_endsRefined {r : Refiner α} (hr : r.method ≠ .brentq) (limit : Nat) :
    EndsRefined (r.refine f limit accuracy) s := by
  refine ensures_refine hr (fun _ _ _ => .inl rfl) (fun _ _ => trivial) (fun _ _ _ => trivial)
    (fun _ _ _ _ _ => trivial) fun l hl => ?_
  apply Loop.ensures_run
  · intro state t _ _
    exact hl.stopsRefined state t
  · intro _ _ _
    exact .inr (.inr (.inl rfl))

theorem Brentq.polish_endsRefined (limit : Nat) : EndsRefined (polish f limit accuracy) s := by
  simp only [EndsRefined, polish, ensures_bind, ensures_pure]
  exact (⟨.brent, none⟩ : Refiner α).native_endsRefined (by simp) limit

theorem Refiner.refine_endsRefined (r : Refiner α) (limit : Nat) :
    EndsRefined (r.refine f limit accuracy) s := by
  by_cases hr : r.method = .brentq
  · unfold Refiner.refine Refiner.refineBy
    rw [hr]
    show (Brentq.refineBy Brentq.strategy f limit accuracy).Ensures s _ _
    rw [Brentq.ensures_refineBy]
    refine ⟨fun _ => Brentq.polish_endsRefined limit, fun _ => ?_⟩
    refine (ensures_trivial _).mono (fun found t _ => ?_) fun _ _ h => h
    exact ⟨fun _ => .inl rfl, fun _ => Brentq.polish_endsRefined limit⟩
  · exact native_endsRefined hr limit

/-! ## Searches -/

/-- If the search answers, then with a root or with a failure that is no refinement's. -/
def Search.Outcome.IsOwn (outcome : Search.Outcome α) : Prop :=
  ∀ result, outcome = .answered result → result.status = .converged ∨ ¬result.IsRefined

namespace Search

variable {settings : Settings α} {accuracy guess : α}

omit [Scalar α] in
theorem isOwn_converged (root : α) : (Outcome.answered (s.converged root method)).IsOwn := by
  rintro _ ⟨⟩
  exact .inl rfl

omit [Scalar α] in
theorem isOwn_fail {status : Status} (h : ¬status.IsRefined) (reason : Reason α) :
    (Outcome.answered (s.fail status reason method)).IsOwn := by
  rintro _ ⟨⟩
  exact .inr h

omit [Scalar α] in
theorem Outcome.IsOwn.ne_of_answered {outcome : Outcome α} {result : Result α} {status : Status}
    (h : outcome.IsOwn) (e : outcome = .answered result) (hrefined : status.IsRefined)
    (hfailed : status ≠ .converged) : result.status ≠ status := by
  rintro rfl
  exact (h result e).elim hfailed fun hnot => hnot hrefined

omit [Scalar α] in
theorem isOwn_bracketed : (.bracketed : Outcome α).IsOwn := nofun

theorem aroundGuess_isOwn (step : α) :
    (aroundGuess f settings accuracy guess step method).Ensures s (fun outcome _ => outcome.IsOwn)
      fun _ _ => True := by
  rw [ensures_aroundGuess]
  apply holds_of_values
  intro fx _
  refine ⟨fun _ => isOwn_converged guess, fun _ => ?_⟩
  apply holds_of_values
  intro fx' _
  apply ensures_whileBudget (I := fun _ _ => True)
  · intro tieLow t _ _
    rw [ensures_pass]
    refine ⟨fun _ => ⟨fun _ => isOwn_converged _, fun _ => ⟨fun _ => isOwn_converged _,
      fun _ => isOwn_bracketed⟩⟩, fun _ => ?_⟩
    exact holds_of_values fun fx _ => trivial
  · intro _ t _
    rw [ensures_giveUp]
    exact isOwn_fail (by decide) _
  · trivial

theorem supplied_isOwn (xMin xMax : α) :
    (supplied f settings accuracy guess xMin xMax method).Ensures s (fun outcome _ => outcome.IsOwn)
      fun _ _ => True := by
  rw [ensures_supplied]
  refine ⟨fun status reason h => isOwn_fail ?_ reason, fun _ => ?_⟩
  · rcases defect_cases h with rfl | rfl | rfl <;> decide
  apply holds_of_values
  intro fMin _
  refine ⟨fun _ => isOwn_converged xMin, fun _ => ?_⟩
  apply holds_of_values
  intro fMax _
  refine ⟨fun _ => isOwn_converged xMax, fun _ => ⟨fun _ => isOwn_bracketed, fun _ => ?_⟩⟩
  exact isOwn_fail (by decide) _

end Search

theorem Entry.search_isOwn {settings : Settings α} (entry : Entry α) :
    (entry.search f settings accuracy method).Ensures s (fun outcome _ => outcome.IsOwn)
      fun _ _ => True := by
  cases entry with
  | fromGuess guess step => exact Search.aroundGuess_isOwn step
  | inBracket guess xMin xMax => exact Search.supplied_isOwn xMin xMax

end RootSearch
