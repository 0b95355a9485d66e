import RootSearch.Double
import RootSearch.Proofs.TwoRuns
/-!
# A larger budget changes no finished answer

The budget is seen by the loops only, and only to end them. So a solve with a larger budget repeats
the calls of the one with the smaller budget, and if that one ended for any other reason it repeats
its end as well, whether that is a result or a fault.
-/

namespace RootSearch

open Solve

variable {α : Type} {m m' : Nat}

/-- A solve that ended for want of budget, in its search or in its refinement. -/
def Status.isSpent (status : Status) : Prop :=
  status = .bracketingFailed ∨ status = .maxEvaluationsExceeded

/-- The settings with another budget. -/
def Settings.withBudget (settings : Settings α) (maxEvaluations : Nat) : Settings α :=
  { settings with maxEvaluations }

/-! ## Loops -/

/-- The first of two runs from one session stops for want of budget, or they do the same. -/
abbrev Extends {β : Type} (Q : β → Session α → Prop) (first second : Solve α β) (s : Session α) :
    Prop :=
  Tracks Same (fun b _ b' => b = b') Q first s second s

/-- With more budget a loop repeats its passes and its answer, unless it was spent. -/
theorem whileBudget_extends {σ β : Type} {pass : σ → Solve α (Pass σ β)} {spent spent' : Solve α β}
    {J Q : β → Session α → Prop} (hle : m ≤ m') (hadvances : ∀ state, (pass state).Advances J)
    (hconcludes : spent'.Concludes J)
    (hspent : ∀ s, ∃ b t, spent.exec s = (.ok b, t) ∧ Q b t ∧ t.Precedes s) (state : σ)
    (s : Session α) : Extends Q (whileBudget m pass spent state) (whileBudget m' pass spent' state) s := by
  refine tracks_whileBudget (S := fun state _ state' => state = state') ?_ ?_ ?_ hadvances hadvances
    hconcludes rfl rfl
  · rintro state s _ _ rfl rfl
    exact .refl (fun p _ => Pass.Pairs.refl (fun _ => rfl) (fun _ => rfl) p) (pass state) s
  · rintro s _ rfl hb
    simp only [Session.hasBudget, decide_eq_true_eq] at hb ⊢
    omega
  · rintro state s _ _ rfl rfl _
    obtain ⟨b, t, hexec, hq, hprecedes⟩ := hspent s
    -- the first loop ends here, where the second may still have budget
    have hrest : s.Precedes ((whileBudget m' pass spent' state).exec s).2 :=
      (concludes_whileBudget hadvances hconcludes state).grows s
    unfold Tracks
    rw [hexec]
    exact .sooner hq (hprecedes.trans hrest)

/-! ## The methods -/

section Methods

variable [Scalar α] {f : Objective α} {accuracy : α}

/-- A refinement was spent. -/
def Result.Spent (r : Result α) (_ : Session α) : Prop := r.status.isSpent

omit [Scalar α] in
/-- What any loop of a method does with more budget. -/
theorem refinement_extends {σ : Type} {pass : σ → Solve α (Pass σ (Result α))} {name : String}
    (hle : m ≤ m') (hadvances : ∀ state, (pass state).Advances Result.Reports) (state : σ)
    (s : Session α) : Extends Result.Spent (whileBudget m pass (exhausted m name) state)
      (whileBudget m' pass (exhausted m' name) state) s :=
  whileBudget_extends hle hadvances (exhausted_concludes m' name)
    (fun s => ⟨s.exhausted m name, s, rfl, .inr rfl, .refl s⟩) state s

omit [Scalar α] in
theorem ite_extends {β : Type} {Q : β → Session α → Prop} {p : Prop} [Decidable p]
    {answer first second : Solve α β} {s : Session α} (h : Extends Q first second s) :
    Extends Q (if p then answer else first) (if p then answer else second) s :=
  .ite Iff.rfl (fun _ => .refl (fun _ _ => rfl) answer s) fun _ => h

theorem Refiner.refine_extends {r : Refiner α} (hr : r.method ≠ .brentq) (hle : m ≤ m')
    (s : Session α) : Extends Result.Spent (r.refine f m accuracy) (r.refine f m' accuracy) s := by
  unfold Refiner.refine Refiner.refineBy
  cases h : r.method with
  | bisection => exact refinement_extends hle (Bisection.pass_advances f accuracy) () s
  | brent =>
    refine .after fun t t' => .after fun fx u => ite_extends (.after fun t v => .after fun _ w => ?_)
    exact refinement_extends hle (Brent.pass_advances f accuracy) _ w
  | brentq => exact absurd h hr
  | falsePosition => exact refinement_extends hle (FalsePosition.pass_advances f accuracy) _ s
  | newton =>
    refine .after fun slope t => .after fun u t => .after fun p t => ite_extends ?_
    exact refinement_extends hle (Newton.pass_advances f slope accuracy) p t
  | safeNewton =>
    refine .after fun slope t => .after fun b t => .after fun u t => .after fun p t => ite_extends ?_
    exact refinement_extends hle (SafeNewton.pass_advances f slope accuracy) _ t
  | ridder => exact refinement_extends hle (Ridder.pass_advances f accuracy) () s
  | secant => exact .after fun b t => refinement_extends hle (Secant.pass_advances f accuracy) _ t

end Methods

/-! ## The searches -/

namespace Search

variable [Scalar α] {f : Objective α} {settings : Settings α} {accuracy : α} {method : String}

/-- A pass of a search does not see the budget. -/
theorem pass_withBudget (m : Nat) : pass f (settings.withBudget m) method = pass f settings method :=
  rfl

theorem openAround_withBudget (m : Nat) (guess fx step : α) :
    openAround f (settings.withBudget m) guess fx step = openAround f settings guess fx step :=
  rfl

theorem defect_withBudget (m : Nat) (guess xMin xMax : α) :
    defect? (settings.withBudget m) guess xMin xMax = defect? settings guess xMin xMax :=
  rfl

theorem aroundGuess_extends (hle : m ≤ m') (guess step : α) (s : Session α) :
    Extends (Outcome.Stops Result.Spent) (aroundGuess f (settings.withBudget m) accuracy guess step method)
      (aroundGuess f (settings.withBudget m') accuracy guess step method) s := by
  unfold aroundGuess
  refine .after fun _ t => .after fun fx t => ite_extends ?_
  simp only [openAround_withBudget, pass_withBudget]
  refine .after fun _ t => whileBudget_extends hle (pass_advances f settings method)
    (giveUp_concludes m' method) (fun s => ?_) true t
  let reason := Reason.searchSpent m s.bracket
  let t := s.logged (.searchFailed reason)
  have hprecedes : t.Precedes s := ⟨List.prefix_refl _, Int.le_refl _⟩
  exact ⟨.answered (t.fail .bracketingFailed reason method), t, rfl, .inl rfl, hprecedes⟩

theorem supplied_withBudget (m : Nat) (guess xMin xMax : α) :
    supplied f (settings.withBudget m) accuracy guess xMin xMax method =
      supplied f settings accuracy guess xMin xMax method := by
  unfold supplied
  rw [defect_withBudget]

end Search

/-! ## The solves -/

section Solves

variable [Scalar α] {f : Objective α} {settings : Settings α} {accuracy : α}

theorem Entry.search_extends (hle : m ≤ m') (method : String) (entry : Entry α) (s : Session α) :
    Extends (Search.Outcome.Stops Result.Spent) (entry.search f (settings.withBudget m) accuracy method)
      (entry.search f (settings.withBudget m') accuracy method) s := by
  cases entry with
  | fromGuess guess step => exact Search.aroundGuess_extends hle guess step s
  | inBracket guess xMin xMax =>
    simp only [Entry.search, Search.supplied_withBudget]
    exact .refl (fun _ _ => rfl) _ s

theorem Entry.solve_extends {r : Refiner α} (hr : r.method ≠ .brentq) (hle : m ≤ m')
    (f : Objective α) (settings : Settings α) (accuracy : α) (entry : Entry α) (s : Session α) :
    Extends Result.Spent (entry.solve r f (settings.withBudget m) accuracy)
      (entry.solve r f (settings.withBudget m') accuracy) s := by
  refine solve_tracks (H := fun _ => True) ?_ ?_ (r.refine_concludes hr f m' _).grows
  · refine (entry.search_extends hle r.name s).mono ?_
    rintro outcome t _ rfl
    exact Search.Outcome.Pairs.refl (fun _ => rfl) trivial outcome
  · rintro t _ rfl -
    exact r.refine_extends hr hle t

/-- With a larger budget a solve repeats the calls that it makes with a smaller one. Unless that one
ended for want of budget, it repeats its end as well: the result, its reason and bracket included, or
the fault. -/
theorem larger_budget_repeats_end (r : Refiner α) (f : Objective α) (settings : Settings α)
    (accuracy : α) (entry : Entry α) (m m' : Nat) (hr : r.method ≠ .brentq) (hle : m ≤ m') :
    let first := (entry.solve r f { settings with maxEvaluations := m } accuracy).exec .start
    let second := (entry.solve r f { settings with maxEvaluations := m' } accuracy).exec .start
    first.2.samples.toList <+: second.2.samples.toList ∧
    ((∀ result, first.1 = .ok result →
        result.status ≠ .bracketingFailed ∧ result.status ≠ .maxEvaluationsExceeded) →
      second.1 = first.1) := by
  have h := entry.solve_extends hr hle f settings accuracy .start
  intro first second
  have h : Tracked Same (fun b _ b' => b = b') Result.Spent first second := h
  generalize first = o at h ⊢
  generalize second = o' at h ⊢
  cases h with
  | value hs hr =>
    cases hs
    cases hr
    exact ⟨List.prefix_refl _, fun _ => rfl⟩
  | fault hs =>
    cases hs
    exact ⟨List.prefix_refl _, fun _ => rfl⟩
  | @sooner result t _ hspent hrest =>
    refine ⟨hrest.samples, fun h => ?_⟩
    obtain ⟨hfailed, hexceeded⟩ := h result rfl
    rcases hspent with hspent | hspent
    · exact absurd hspent hfailed
    · exact absurd hspent hexceeded

/-- The square root of two by bisection: a budget of fifty finds what a budget of twenty found. -/
theorem larger_budget_repeats_square_root :
    let settings : Settings Double := {}
    let f : Objective Double := .ofTotal fun x => x * x - 2.0
    let entry : Entry Double := .inBracket 1.5 0.0 2.0
    let r : Refiner Double := ⟨.bisection, none⟩
    let first := (entry.solve r f { settings with maxEvaluations := 20 } 0.01).exec .start
    let second := (entry.solve r f { settings with maxEvaluations := 50 } 0.01).exec .start
    first.1.toOption.map (fun result => (result.status, result.evaluations)) = some (.converged, 10) ∧
    first.2.samples.toList <+: second.2.samples.toList ∧ second.1 = first.1 := by
  intro settings f entry r
  have hfirst : ((entry.solve r f { settings with maxEvaluations := 20 } 0.01).exec .start).1.toOption.map
      (fun result => (result.status, result.evaluations)) = some (.converged, 10) := by
    decide +kernel
  have hr : r.method ≠ .brentq := by decide
  clear_value settings f entry r
  obtain ⟨hcalls, hsame⟩ := larger_budget_repeats_end r f settings 0.01 entry 20 50 hr (by decide)
  refine ⟨hfirst, hcalls, hsame fun result hresult => ?_⟩
  rw [hresult] at hfirst
  have hstatus : result.status = .converged ∧ result.evaluations = 10 := by
    simpa [Except.toOption] using hfirst
  simp [hstatus.1]

end Solves

end RootSearch
