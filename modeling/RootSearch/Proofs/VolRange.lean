import Mathlib
import RootSearch.Black.ImpliedVol
import RootSearch.Proofs.Bounds
import RootSearch.Proofs.DoubleOrder
import RootSearch.Proofs.Progress
/-!
# The range of searched volatilities

An engine for implied volatilities searches between its least and its greatest volatility. Its search
clamps every point that it moves to. It does not clamp the guess, which is sampled first and becomes an
end of the first bracket. So volatilities outside the range are priced if and only if the guess is
outside, and then between the guess and the range.
-/

namespace RootSearch

open Solve

/-! ## Clamped points -/

theorem Settings.clamp_between {α : Type} [Scalar α] [LawfulScalar α] {s : Settings α} {low hi : α}
    (hlow : s.lowBound = some low) (hhi : s.hiBound = some hi) (hle : low ≤ hi) (x : α) :
    Scalar.isNaN (s.clamp x) = true ∨ low ≤ s.clamp x ∧ s.clamp x ≤ hi := by
  obtain ⟨hlowNumber, hhiNumber⟩ := Scalar.le_refl_of_le hle
  rcases s.clamp_cases x with ⟨hbelow, habove, e⟩ | ⟨-, hmem⟩ | ⟨-, hmem⟩
  · rw [e]
    cases hx : Scalar.isNaN x with
    | true => exact .inl rfl
    | false =>
      have hxNumber := Scalar.isNaN_eq_false_iff.1 hx
      exact .inr ⟨Scalar.not_lt hxNumber hlowNumber (hbelow low hlow),
        Scalar.not_lt hhiNumber hxNumber (habove hi hhi)⟩
  · rw [← Option.mem_unique hlow hmem]
    exact .inr ⟨hlowNumber, hle⟩
  · rw [← Option.mem_unique hhi hmem]
    exact .inr ⟨hle, hhiNumber⟩

/-! ## What a search samples -/

/-- The guess was sampled first, and `Q` holds of every sample after it. -/
def Session.Begins {α : Type} (guess : α) (Q : α → Prop) (t : Session α) : Prop :=
  ∃ later, t.samples.toList = guess :: later ∧ ∀ x ∈ later, Q x

section Samples

variable {α : Type} {guess : α} {Q : α → Prop} {t u : Session α}

theorem Session.Begins.push (h : t.Begins guess Q) {x : α} (hx : Q x)
    (hu : u.samples = t.samples.push x) : u.Begins guess Q := by
  obtain ⟨later, hsamples, hlater⟩ := h
  refine ⟨later ++ [x], by simp [hu, hsamples], fun y hy => ?_⟩
  rcases List.mem_append.1 hy with hy | hy
  · exact hlater y hy
  · rwa [List.mem_singleton.1 hy]

variable [Scalar α] {f : Objective α} {settings : Settings α} {accuracy step : α} {method : String}

/-- A search from a guess samples the guess and then clamped points only. -/
theorem Search.aroundGuess_begins (hclamp : ∀ x, Q (settings.clamp x)) :
    (aroundGuess f settings accuracy guess step method).Ensures .start
      (fun _ t => t.Begins guess Q) fun _ t => t.Begins guess Q := by
  rw [ensures_aroundGuess]
  have hguess : ((Session.start : Session α).visited guess).Begins guess Q := ⟨[], rfl, by simp⟩
  refine ⟨fun fx _ => ⟨fun _ => hguess, fun _ => ?_⟩, fun _ _ => hguess⟩
  have hx : Q (beside settings guess fx step) := hclamp _
  refine ⟨fun fx' _ => ?_, fun _ _ => hguess.push hx rfl⟩
  apply ensures_whileBudget (I := fun _ t => t.Begins guess Q)
  · intro tieLow t ht _
    rw [ensures_pass]
    have hreach : Q (reach settings t.bracket (side t.bracket tieLow)) := reach_of_clamp hclamp _ _
    exact ⟨fun _ => ⟨fun _ => ht, fun _ => ⟨fun _ => ht, fun _ => ht⟩⟩,
      fun _ => ⟨fun _ _ => ht.push hreach rfl, fun _ _ => ht.push hreach rfl⟩⟩
  · intro _ t ht
    rw [ensures_giveUp]
    exact ht
  · exact hguess.push hx rfl

/-- A solve goes on from the samples of its search. -/
theorem solveFromGuess_samples_guess {r : Refiner α} (hr : r.method ≠ .brentq) :
    guess ∈ ((solveFromGuess r f settings accuracy guess step).exec .start).2.samples := by
  have hbegins : (Search.aroundGuess f settings accuracy guess step r.name).Ensures .start
      (fun _ t => t.Begins guess fun _ => True) fun _ t => t.Begins guess fun _ => True :=
    Search.aroundGuess_begins fun _ => trivial
  have hmem (t : Session α) (h : t.Begins guess fun _ => True) : guess ∈ t.samples := by
    obtain ⟨later, hsamples, -⟩ := h
    simp [← Array.mem_toList_iff, hsamples]
  have hsolve : ((Entry.fromGuess guess step).solve r f settings accuracy).Ensures .start
      (fun _ t => guess ∈ t.samples) fun _ t => guess ∈ t.samples := by
    rw [Entry.ensures_solve]
    refine hbegins.mono (fun outcome t h => ?_) fun _ t h => hmem t h
    have ht := hmem t h
    cases outcome with
    | answered result => exact ht
    | bracketed =>
      -- a refinement only adds to the samples
      have hkept (u : Session α) (hu : t.Precedes u) : guess ∈ u.samples :=
        Array.mem_toList_iff.1 (hu.samples.subset (Array.mem_toList_iff.2 ht))
      exact (r.refine_concludes hr f _ _ t).mono (fun _ u hu => hkept u hu.1) fun _ u hu => hkept u hu
  exact hsolve.final

end Samples

/-! ## The engine -/

namespace ImpliedVol

/-- The engine with the settings that it has by default. -/
def standard {α : Type} [AnalyticScalar α] (pricer : Pricer α) (accuracy : α) : ImpliedVol α :=
  { pricer, accuracy }

/-- With a known method, a run is a solve from the guess and the step of the query. -/
theorem run_eq {α : Type} [AnalyticScalar α] (e : ImpliedVol α) (target : α) (c : Context α)
    {q : Query α} {m : Method} (hm : Method.ofName? q.method = some m) :
    e.run target c q = solveFromGuess ⟨m, none⟩ (objective e.pricer c target) e.settings e.accuracy
      q.guess q.step := by
  have hsolver : e.solver q.method = .ok { refiner := ⟨m, none⟩, settings := e.settings } := by
    simp [solver, Solver.ofName, Refiner.ofName, hm]
  rw [run, hsolver]
  rfl

end ImpliedVol

/-- The range of the engine, and whatever lies between it and the guess. -/
def volRange (guess : ℝ) : Set ℝ := Set.Icc (min 0 guess) (max 5 guess)

theorem volRange_of_mem {guess : ℝ} (h : guess ∈ Set.Icc 0 5) : volRange guess = Set.Icc 0 5 := by
  rw [volRange, min_eq_left h.1, max_eq_left h.2]

theorem ImpliedVol.clamp_mem (pricer : Pricer ℝ) (accuracy x : ℝ) :
    (standard pricer accuracy).settings.clamp x ∈ Set.Icc (0 : ℝ) 5 := by
  have hle : (floor : ℝ) ≤ cap := by
    norm_num [floor, cap]
  have h := Settings.clamp_between (s := (standard pricer accuracy).settings) rfl rfl hle x
  norm_num [floor, cap, Scalar.isNaN] at h
  exact h

/-- By every native method and for every option, pricer, target, accuracy, guess and step, the search of
an engine with its default settings prices the guess first, whatever it is, and after it only volatilities
in the range (or what is not a number). Over the reals its refinement keeps to the same interval: nothing
outside the range is priced or named as a root but what lies between it and the guess. So all that is
priced is in the range if and only if the guess is. -/
theorem vol_search_range (m : Method) :
    (∀ (pricer : Pricer Double) (accuracy target : Double) (c : Context Double)
        (q : ImpliedVol.Query Double),
      let e := ImpliedVol.standard pricer accuracy
      let search := (Entry.fromGuess q.guess q.step).search (ImpliedVol.objective e.pricer c target)
        e.settings e.accuracy m.name
      ((search.exec .start).2.Begins q.guess fun sigma =>
        Scalar.isNaN sigma = true ∨ 0.0 ≤ sigma ∧ sigma ≤ 5.0)) ∧
    ∀ (pricer : Pricer ℝ) (accuracy target : ℝ) (c : Context ℝ) (q : ImpliedVol.Query ℝ),
      Method.ofName? q.method = some m → m ≠ .brentq →
      let outcome := ((ImpliedVol.standard pricer accuracy).run target c q).exec .start
      q.guess ∈ outcome.2.samples ∧
      (∀ sigma ∈ outcome.2.samples, sigma ∈ volRange q.guess) ∧
      ((∀ sigma ∈ outcome.2.samples, sigma ∈ Set.Icc 0 5) ↔ q.guess ∈ Set.Icc 0 5) ∧
      ∀ result, outcome.1 = .ok result → result.status = .converged →
        ∃ sigma ∈ volRange q.guess, result.root = some sigma := by
  constructor
  · intro pricer accuracy target c q e search
    let Q (sigma : Double) : Prop := Scalar.isNaN sigma = true ∨ 0.0 ≤ sigma ∧ sigma ≤ 5.0
    have hclamp (x : Double) : Q (e.settings.clamp x) :=
      Settings.clamp_between (s := e.settings) rfl rfl (by decide +kernel) x
    have hbegins : search.Ensures .start (fun _ t => t.Begins q.guess Q) fun _ t => t.Begins q.guess Q :=
      Search.aroundGuess_begins hclamp
    exact hbegins.final
  · intro pricer accuracy target c q hm hnative outcome
    have hrun : outcome = (solveFromGuess ⟨m, none⟩ (ImpliedVol.objective pricer c target)
        (ImpliedVol.standard pricer accuracy).settings accuracy q.guess q.step).exec .start :=
      congrArg (exec · .start) (ImpliedVol.run_eq _ target c hm)
    have hguess : q.guess ∈ volRange q.guess := ⟨min_le_right _ _, le_max_right _ _⟩
    have hclamp (x : ℝ) : (ImpliedVol.standard pricer accuracy).settings.clamp x ∈ volRange q.guess :=
      Set.Icc_subset_Icc (min_le_left _ _) (le_max_left _ _) (ImpliedVol.clamp_mem pricer accuracy x)
    -- the interval holds the guess and all clamped points, so search and refinement stay in it
    have hstart : (Session.start : Session ℝ).SampledIn (volRange q.guess) := by
      simp [Session.SampledIn, Session.start]
    have hsearch : Search.SearchesWithin (volRange q.guess)
        ((Entry.fromGuess q.guess q.step).search (ImpliedVol.objective pricer c target)
          (ImpliedVol.standard pricer accuracy).settings accuracy m.name) .start :=
      Search.aroundGuess_within Set.ordConnected_Icc hclamp hstart hguess q.step
    obtain ⟨hsamples, hroot⟩ :=
      (Entry.solve_within (r := ⟨m, none⟩) Set.ordConnected_Icc hnative hsearch).exec
    have hfirst : q.guess ∈ outcome.2.samples := by
      rw [hrun]
      exact solveFromGuess_samples_guess hnative
    have hwithin : ∀ sigma ∈ outcome.2.samples, sigma ∈ volRange q.guess := by
      rw [hrun]
      exact hsamples
    refine ⟨hfirst, hwithin, ⟨fun h => h _ hfirst, fun h => ?_⟩, fun result hresult hconverged => ?_⟩
    · rwa [volRange_of_mem h] at hwithin
    · rw [hrun] at hresult
      exact hroot result hresult (.inl hconverged)

/-- From a guess above the range. -/
theorem vol_search_range_above :
    Method.ofName? "brent" = some .brent ∧ Method.brent ≠ .brentq ∧
    ∀ c : Context ℝ,
      let outcome := ((ImpliedVol.standard {} 1e-10).run 1 c { guess := 7 }).exec .start
      7 ∈ outcome.2.samples ∧ ∀ sigma ∈ outcome.2.samples, sigma ∈ Set.Icc (0 : ℝ) 7 := by
  have hname : Method.ofName? "brent" = some .brent := by decide +kernel
  refine ⟨hname, by decide, fun c => ?_⟩
  have hrange : volRange 7 = Set.Icc 0 7 := by norm_num [volRange]
  obtain ⟨hguess, hwithin, -⟩ :=
    (vol_search_range .brent).2 {} 1e-10 1 c { guess := 7 } hname (by decide)
  exact ⟨hguess, hrange ▸ hwithin⟩

/-- An option at its expiry and at the money, which is worth nothing at any volatility. -/
noncomputable def ImpliedVol.expired : Context ℝ where
  forward := .one 1
  strike := .one 1
  expiry := .one 0
  sigma := .one 0.2
  rate := .one 0
  quantity := .one 1

/-- Below the threshold of total volatility the price is the discounted intrinsic value. -/
theorem ImpliedVol.objective_expired (sigma : ℝ) : (objective {} expired 0).value sigma = .ok 0 := by
  have hbelow : sigma * Scalar.sqrt (0 : ℝ) < 1e-12 := by
    show sigma * √0 < 1e-12
    norm_num
  have hintrinsic : Scalar.maxNaN ((1.0 : ℝ) * (1 - 1)) 0.0 = 0 := by
    norm_num [Scalar.maxNaN, Scalar.isNaN, Scalar.maxOf]
  obtain ⟨above, hvalue⟩ : ∃ above : ℝ, (objective {} expired 0).value sigma =
      .ok ((if sigma * Scalar.sqrt (0 : ℝ) < 1e-12 then
        Real.exp (-0 * 0) * Scalar.maxNaN ((1.0 : ℝ) * (1 - 1)) 0.0 else above) - 0) := ⟨_, rfl⟩
  rw [hvalue, if_pos hbelow, hintrinsic, mul_zero, sub_zero]

/-- A search that begins above the range ends there too: its guess, which no bound holds back, is priced
and returned as the root. -/
theorem vol_search_leaves_range :
    let outcome := ((ImpliedVol.standard {} 1e-10).run 0 ImpliedVol.expired { guess := 7 }).exec .start
    (∃ result, outcome.1 = .ok result ∧ result.status = .converged ∧ result.root = some 7) ∧
    7 ∈ outcome.2.samples ∧ (7 : ℝ) ∉ Set.Icc 0 5 := by
  have hname : Method.ofName? "brent" = some .brent := by decide +kernel
  intro outcome
  have hrun : outcome = (solveFromGuess ⟨.brent, none⟩ (ImpliedVol.objective {} ImpliedVol.expired 0)
      (ImpliedVol.standard {} 1e-10).settings 1e-10 7 0.05).exec .start :=
    congrArg (exec · .start) (ImpliedVol.run_eq _ _ _ hname)
  have hconverges : (solveFromGuess ⟨.brent, none⟩ (ImpliedVol.objective {} ImpliedVol.expired 0)
      (ImpliedVol.standard {} 1e-10).settings 1e-10 (7 : ℝ) 0.05).Ensures .start
      (fun result _ => result.status = .converged ∧ result.root = some 7) fun _ _ => False := by
    rw [solveFromGuess, Entry.ensures_solve, Entry.search, Search.ensures_aroundGuess]
    -- the guess is the only sample: its value is zero
    refine ⟨fun fx hfx => ⟨fun _ => ⟨rfl, rfl⟩, fun hmiss => ?_⟩, fun fault hfault => ?_⟩
    · rw [ImpliedVol.objective_expired] at hfx
      cases hfx
      norm_num at hmiss
    · rw [ImpliedVol.objective_expired] at hfault
      cases hfault
  refine ⟨?_, ?_, by norm_num⟩
  · obtain ⟨result, t, hexec, hresult⟩ := hconverges.returns
    rw [hrun, hexec]
    exact ⟨result, rfl, hresult⟩
  · rw [hrun]
    exact solveFromGuess_samples_guess (by decide)

end RootSearch
