import Mathlib
import RootSearch.CashFlow.Yield
import RootSearch.Proofs.Bounds
import RootSearch.Proofs.Locality
/-!
# Rates at which flows can be discounted

A discount factor divides by a base, or takes a power of it, and needs it to be positive. The search for
an internal rate of return enforces a bound just above the rates where that fails. From a guess that
respects the bound it looks at the flows and at their derivative at rates above it only.
-/

namespace RootSearch

open Solve

/-! ## The latest time -/

theorem le_foldl_maxNaN (xs : List ℝ) (first : ℝ) :
    first ≤ xs.foldl Scalar.maxNaN first ∧ ∀ x ∈ xs, x ≤ xs.foldl Scalar.maxNaN first := by
  induction xs generalizing first with
  | nil => exact ⟨le_refl first, nofun⟩
  | cons x xs ih =>
    obtain ⟨hlatest, hrest⟩ := ih (Scalar.maxNaN first x)
    rw [List.foldl_cons]
    rw [Scalar.real_maxNaN] at hlatest hrest ⊢
    refine ⟨(le_max_left first x).trans hlatest, fun y hy => ?_⟩
    rcases List.mem_cons.1 hy with rfl | hy
    · exact (le_max_right first y).trans hlatest
    · exact hrest y hy

/-- Over the reals every frequency is a number of periods. -/
theorem Convention.periods_eq (c : Convention) :
    ∃ n : ℝ, c.periods = .ok n ∧ (c.compounding = .compounded → n = c.frequency) := by
  unfold periods
  cases c.compounding with
  | simple => exact ⟨1.0, rfl, nofun⟩
  | compounded => exact ⟨c.frequency, rfl, fun _ => rfl⟩
  | continuous => exact ⟨1.0, rfl, nofun⟩

namespace Investment

variable {i : Investment ℝ} {rate low : ℝ} {flow : Flow ℝ}

theorem one_le_horizon (i : Investment ℝ) : 1 ≤ i.horizon := by
  rw [← Scalar.real_one]
  exact (le_foldl_maxNaN (i.flows.map Flow.time) 1.0).1

theorem time_le_horizon (h : flow ∈ i.flows) : flow.time ≤ i.horizon :=
  (le_foldl_maxNaN (i.flows.map Flow.time) 1.0).2 flow.time (List.mem_map_of_mem h)

/-! ## Discount bases -/

/-- The rates that make every discount base positive. -/
def InDomain (i : Investment ℝ) (rate : ℝ) : Prop :=
  match i.convention.compounding with
  | .simple => ∀ flow ∈ i.flows, 0 < 1 + rate * flow.time
  | .compounded => 0 < 1 + rate / i.convention.frequency
  | .continuous => True

/-- What the flows of an investment and its convention are to be: nothing is paid in the past, and a year
has periods. -/
structure Proper (i : Investment ℝ) : Prop where
  live : ∀ flow ∈ i.flows, 0 ≤ flow.time
  frequency : 1 ≤ i.convention.frequency

theorem proper_of_make {amounts times : List ℝ} {price : ℝ} {convention : Convention}
    (h : make amounts times price convention = .ok i) (hfrequency : 1 ≤ convention.frequency) :
    i.Proper := by
  obtain ⟨flows, hlive, hi⟩ := bind_eq_ok.1 h
  cases hi
  refine ⟨fun flow hflow => ?_, hfrequency⟩
  unfold Flow.live at hlive
  split at hlive
  · cases hlive
    have hpaid := (List.mem_filter.1 hflow).2
    norm_num at hpaid
    exact hpaid
  · cases hlive

/-- Above the bound every base is positive: over the longest time by the margin of the bound, over a
shorter one by more. -/
theorem inDomain_of_low_le (hi : i.Proper) (h : ∀ low, i.lowBound = .ok (some low) → low ≤ rate) :
    i.InDomain rate := by
  unfold InDomain
  unfold lowBound at h
  cases hcompounding : i.convention.compounding with
  | simple =>
    rw [hcompounding] at h
    have hlow := h _ rfl
    intro flow hflow
    have hpos : 0 < i.horizon := one_pos.trans_le i.one_le_horizon
    have hlatest : 0 < 1 + rate * i.horizon := by
      have hmul := mul_le_mul_of_nonneg_right hlow hpos.le
      rw [add_mul, div_mul_cancel₀ _ hpos.ne'] at hmul
      norm_num at hmul
      linarith
    have htime := hi.live flow hflow
    rcases le_or_gt 0 rate with hrate | hrate
    · positivity
    · have hless := mul_le_mul_of_nonpos_left (time_le_horizon hflow) hrate.le
      linarith
  | compounded =>
    obtain ⟨n, hperiods, hn⟩ := i.convention.periods_eq
    have hlow : -n + 1e-8 ≤ rate := by
      refine h _ ?_
      rw [hcompounding, hperiods]
      rfl
    norm_num at hlow
    have hpos : (0 : ℝ) < i.convention.frequency := by exact_mod_cast hi.frequency
    rw [hn hcompounding] at hlow
    have hbase : 1 + rate / i.convention.frequency =
        (i.convention.frequency + rate) / i.convention.frequency := by
      field_simp
    rw [hbase]
    exact div_pos (by linarith) hpos
  | continuous => trivial

/-- In the domain every flow has a discount factor, and it is positive. -/
theorem factors_pos (hi : i.Proper) (h : i.InDomain rate) :
    ∃ factors, i.convention.factors rate (i.flows.map Flow.time) = .ok factors ∧
      ∀ d ∈ factors, 0 < d := by
  obtain ⟨n, hperiods, hn⟩ := i.convention.periods_eq
  refine ⟨(i.flows.map Flow.time).map (i.convention.compounding.factor n rate), ?_, fun d hd => ?_⟩
  · unfold Convention.factors
    rw [if_neg fun hrefused => absurd hrefused.2 (not_lt.2 hi.frequency), hperiods]
    rfl
  · rw [List.map_map] at hd
    obtain ⟨flow, hflow, rfl⟩ := List.mem_map.1 hd
    unfold InDomain at h
    show 0 < i.convention.compounding.factor n rate flow.time
    cases hcompounding : i.convention.compounding with
    | simple =>
      rw [hcompounding] at h
      have hbase := h flow hflow
      unfold Compounding.factor
      norm_num
      exact hbase
    | compounded =>
      rw [hcompounding] at h
      rw [hn hcompounding]
      unfold Compounding.factor
      norm_num
      exact Real.rpow_pos_of_pos h _
    | continuous => exact Real.exp_pos _

/-! ## The search -/

/-- The search for a rate, on an objective in the place of the investment's own. -/
def rateOn {α : Type} [AnalyticScalar α] (i : Investment α) (f : Objective α) (q : Query α) :
    Solve α (Option α) := do
  let solver ← Solve.attempt (i.solver q)
  Solve.log (.solvingYield i.flows.length q.method q.guess)
  Solve.attempt (← solver.run f q.tolerance q.guess q.step).unwrap

theorem rateOn_objective {α : Type} [AnalyticScalar α] (i : Investment α) (q : Query α) :
    i.rateOn i.objective q = i.rate q := by
  simp [rateOn, rate, run]

/-- What the solver of a search is like. -/
theorem solver_eq_ok {q : Query ℝ} {solver : Solver ℝ} (h : i.solver q = .ok solver) :
    Method.ofName? q.method = some solver.refiner.method ∧
      i.lowBound = .ok solver.settings.lowBound ∧ solver.settings.Valid := by
  unfold Investment.solver at h
  split at h
  · cases h
  · obtain ⟨low, hlow, h⟩ := bind_eq_ok.1 h
    obtain ⟨refiner, hrefiner, h⟩ := bind_eq_ok.1 h
    obtain ⟨settings, hsettings, h⟩ := bind_eq_ok.1 h
    cases h
    obtain ⟨rfl, hvalid⟩ := Settings.make_eq_ok_iff.1 hsettings
    refine ⟨?_, hlow, hvalid⟩
    unfold Refiner.ofName at hrefiner
    split at hrefiner
    · next hmethod => cases hrefiner; exact hmethod
    · cases hrefiner

variable {f : Objective ℝ} {q : Query ℝ} {s : Session ℝ}

/-- A configured solver samples points that respect its bounds as far as the guess does. -/
theorem solver_run_within {solver : Solver ℝ} (hmethod : solver.refiner.method ≠ .brentq)
    (hvalid : solver.settings.Valid) {tolerance guess : ℝ} (step : ℝ)
    (hs : s.SampledIn (solver.settings.allowed guess)) :
    RefinesWithin (solver.settings.allowed guess) (solver.run f tolerance guess step) s := by
  have hsearch : Search.SearchesWithin (solver.settings.allowed guess)
      ((Entry.fromGuess guess step).search f solver.settings tolerance solver.refiner.name) s :=
    Search.aroundGuess_within Settings.allowed_ordConnected (Settings.clamp_mem_allowed hvalid) hs
      Settings.guess_mem_allowed step
  exact Entry.solve_within Settings.allowed_ordConnected hmethod hsearch

/-- From a guess that respects the bound every sampled rate is in the domain, whatever the objective. -/
theorem rateOn_sampled (hi : i.Proper) (hguess : ∀ low, i.lowBound = .ok (some low) → low ≤ q.guess)
    (hmethod : Method.ofName? q.method ≠ some .brentq) :
    ∀ rate ∈ ((i.rateOn f q).exec .start).2.samples, i.InDomain rate := by
  have hfresh {t : Session ℝ} (S : Set ℝ) (ht : t.samples = #[]) : t.SampledIn S := by
    simp [Session.SampledIn, ht]
  have hrun : (i.rateOn f q).Ensures .start (fun _ t => ∀ rate ∈ t.samples, i.InDomain rate)
      fun _ t => ∀ rate ∈ t.samples, i.InDomain rate := by
    simp only [rateOn, ensures_bind, ensures_attempt, ensures_log]
    refine ⟨fun solver hsolver => ?_, fun _ _ => hfresh {rate | i.InDomain rate} rfl⟩
    obtain ⟨hname, hlow, hvalid⟩ := solver_eq_ok hsolver
    have hnative : solver.refiner.method ≠ .brentq := fun e => hmethod (e ▸ hname)
    have hallowed (t : Session ℝ) (ht : t.SampledIn (solver.settings.allowed q.guess)) :
        ∀ rate ∈ t.samples, i.InDomain rate := by
      refine fun rate hrate => inDomain_of_low_le hi fun low e => ?_
      have henforced : solver.settings.lowBound = some low := Except.ok.inj (hlow.symm.trans e)
      exact (ht rate hrate).1 low henforced (hguess low e)
    refine (solver_run_within hnative hvalid q.step (hfresh _ rfl)).mono ?_ fun _ => hallowed
    intro result t ht
    exact ⟨fun _ _ => hallowed t ht.1, fun _ _ => hallowed t ht.1⟩
  exact hrun.final

/-- The search depends on the objective only where it samples that. -/
theorem rateOn_follows {A : ℝ → Prop} {g : Objective ℝ} (h : f.AgreesOn A g)
    (hmethod : Method.ofName? q.method ≠ some .brentq) :
    Follows A (i.rateOn f q) (i.rateOn g q) s := by
  refine (Follows.refl (grows_attempt _)).bind fun solver t e => .after (grows_log _) fun _ t => ?_
  have hsolver : i.solver q = .ok solver := by
    rw [exec_attempt] at e
    exact congrArg Prod.fst e
  have hnative : solver.refiner.method ≠ .brentq := fun e => hmethod (e ▸ (solver_eq_ok hsolver).1)
  have hsolve : Follows A (solver.run f q.tolerance q.guess q.step)
      (solver.run g q.tolerance q.guess q.step) t :=
    Entry.solve_follows hnative h solver.settings (.fromGuess q.guess q.step)
  exact hsolve.bind fun result u _ => .refl (grows_attempt _)

/-- Over the reals the search for an internal rate of return, by any method but the one by tolerance and
from a guess not below its bound, calls the objective only at rates where every discount base is
positive, so that each flow has a factor and the factor is positive. It calls the derivative there only,
too: put any other objective in the place of the investment's own that agrees with it at such rates, in
its values and its derivative, whatever it is or does elsewhere, and the search is the same, its calls
and its end. -/
theorem rate_stays_in_domain (amounts times : List ℝ) (price : ℝ) (convention : Convention)
    (i : Investment ℝ) (q : Query ℝ) (hmake : make amounts times price convention = .ok i)
    (hfrequency : 1 ≤ convention.frequency)
    (hguess : ∀ low, i.lowBound = .ok (some low) → low ≤ q.guess)
    (hmethod : Method.ofName? q.method ≠ some .brentq) :
    let outcome := (i.rate q).exec .start
    (∀ rate ∈ outcome.2.samples, i.InDomain rate ∧
      ∃ factors, i.convention.factors rate (i.flows.map Flow.time) = .ok factors ∧ ∀ d ∈ factors, 0 < d) ∧
    ∀ g : Objective ℝ, i.objective.AgreesOn i.InDomain g → (i.rateOn g q).exec .start = outcome := by
  have hi := proper_of_make hmake hfrequency
  rw [← rateOn_objective]
  have hsampled := rateOn_sampled (f := i.objective) hi hguess hmethod
  refine ⟨fun rate hrate => ⟨hsampled rate hrate, factors_pos hi (hsampled rate hrate)⟩, fun g hg => ?_⟩
  exact (rateOn_follows hg hmethod).same hsampled

/-- Two payments at simple rates by Newton's method. -/
theorem rate_of_two_payments_stays_in_domain :
    let i : Investment ℝ := ⟨[⟨50, 1⟩, ⟨60, 2⟩], 100, ⟨.simple, 1⟩⟩
    let q : Investment.Query ℝ := { method := "newton" }
    let outcome := (i.rate q).exec .start
    (∀ rate ∈ outcome.2.samples, i.InDomain rate ∧
      ∃ factors, i.convention.factors rate (i.flows.map Flow.time) = .ok factors ∧ ∀ d ∈ factors, 0 < d) ∧
    ∀ g : Objective ℝ, i.objective.AgreesOn i.InDomain g → (i.rateOn g q).exec .start = outcome := by
  intro i q
  have hmake : make [50, 60] [1, 2] 100 ⟨.simple, 1⟩ = .ok i := by
    simp [make, Flow.live, i]
    norm_num
  refine rate_stays_in_domain [50, 60] [1, 2] 100 ⟨.simple, 1⟩ i q hmake (by decide) (fun low hlow => ?_) ?_
  · cases hlow
    have hnonpos : -1.0 / i.horizon ≤ 0 :=
      div_nonpos_of_nonpos_of_nonneg (by norm_num) (zero_le_one.trans i.one_le_horizon)
    show -1.0 / i.horizon + 1e-8 ≤ 0.05
    norm_num at hnonpos ⊢
    linarith
  · decide +kernel

end Investment

end RootSearch
