import Mathlib
import RootSearch.Double
import RootSearch.Proofs.Heads
import RootSearch.Proofs.Searching
/-!
# No acceptable sample is passed over

A refinement may leave its loop by many ways other than convergence: it collapses, diverges, or spends
its budget. It takes none of them past a sample that meets the accuracy, since every sample is tested
before anything else is done with it. So whatever was sampled by a solve that failed has missed.
-/

namespace RootSearch

open Solve

variable {α σ : Type} [Scalar α] {f : Objective α} {accuracy x : α}

/-- The value of the objective at `x` does not meet the accuracy. -/
def Objective.Misses (f : Objective α) (accuracy x : α) : Prop :=
  ∃ fx, f.value x = .ok fx ∧ ¬Scalar.abs fx ≤ accuracy

/-- The value of the objective at `x` is not strictly within the accuracy, which is how the ends of a
supplied bracket are tested. -/
def Objective.MissesStrictly (f : Objective α) (accuracy x : α) : Prop :=
  ∃ fx, f.value x = .ok fx ∧ ¬Scalar.abs fx < accuracy

/-- All samples that came after those `before` miss the accuracy. -/
def MissedSince (f : Objective α) (accuracy : α) (before samples : Array α) : Prop :=
  ∃ points, samples.toList = before.toList ++ points ∧ ∀ x ∈ points, f.Misses accuracy x

namespace MissedSince

variable {before samples : Array α}

theorem refl (f : Objective α) (accuracy : α) (before : Array α) :
    MissedSince f accuracy before before :=
  ⟨[], by simp, by simp⟩

theorem push (h : MissedSince f accuracy before samples) (hx : f.Misses accuracy x) :
    MissedSince f accuracy before (samples.push x) := by
  obtain ⟨points, hsamples, hpoints⟩ := h
  refine ⟨points ++ [x], by simp [hsamples], fun y hy => ?_⟩
  rcases List.mem_append.1 hy with hy | hy
  · exact hpoints y hy
  · rw [List.mem_singleton.1 hy]
    exact hx

end MissedSince

/-! ## Passes -/

/-- A pass goes on only if all its samples missed, and so it is if it stops without convergence. -/
abbrev KeepsMissing (f : Objective α) (accuracy : α) (before : Array α) (p : Pass σ (Result α))
    (t : Session α) : Prop :=
  p.Keeps (fun _ => MissedSince f accuracy before t.samples)
    fun result => result.status ≠ .converged → MissedSince f accuracy before t.samples

section Passes

variable {before : Array α} {s : Session α} {method : String}

theorem visits_misses {next : α → Prop} (hs : MissedSince f accuracy before s.samples)
    (h : ∀ fx, MissedSince f accuracy before (s.visited x).samples → next fx) :
    Visits f accuracy method x s (KeepsMissing (σ := σ) f accuracy before) (fun _ _ => True) next := by
  apply holds_of_values
  intro fx hfx
  exact ⟨fun _ hfailed => absurd rfl hfailed, fun hmiss => h fx (hs.push ⟨fx, hfx, hmiss⟩)⟩

theorem visitsWithSlope_misses {slope : Slope α} {next : Newton.Point α → Prop}
    (hs : MissedSince f accuracy before s.samples)
    (h : ∀ p, MissedSince f accuracy before (s.visited x).samples → next p) :
    VisitsWithSlope f slope accuracy method x s (KeepsMissing (σ := σ) f accuracy before)
      (fun _ _ => True) next := by
  apply holds_of_values
  intro fx hfx
  apply holds_of_values
  intro dfx _
  exact ⟨fun _ hfailed => absurd rfl hfailed,
    fun hmiss => h ⟨x, fx, dfx⟩ (hs.push ⟨fx, hfx, hmiss⟩)⟩

theorem settles_misses {isSmall : Prop} {fx : α} {state : σ}
    (hs : MissedSince f accuracy before s.samples) :
    Settles isSmall x fx method accuracy state s (KeepsMissing f accuracy before) :=
  ⟨fun _ _ => hs, fun _ => hs⟩

/-- What one pass of any method samples has missed by the time that it is repeated or fails. -/
theorem Refiner.Enters.keepsMissing {r : Refiner α} {l : Loop α} {u : Session α}
    (hl : r.Enters f accuracy u l) (state : l.State)
    (hs : MissedSince f accuracy before s.samples) :
    (l.pass state).Ensures s (KeepsMissing f accuracy before) fun _ _ => True := by
  obtain ⟨method, supplied⟩ := r
  cases method with
  | bisection =>
    cases hl
    rw [Bisection.ensures_pass]
    exact visits_misses hs fun fMid ht => settles_misses ht
  | falsePosition =>
    cases hl
    rw [FalsePosition.ensures_pass]
    apply holds_of_values
    intro x _
    exact visits_misses hs fun fx ht => settles_misses ht
  | secant =>
    cases hl
    rw [Secant.ensures_pass]
    refine ⟨fun _ _ => hs, fun _ => ?_⟩
    apply holds_of_values
    intro d _
    exact visits_misses hs fun fx ht => settles_misses ht
  | ridder =>
    cases hl
    rw [Ridder.ensures_pass]
    refine visits_misses hs fun fMid ht => ?_
    apply holds_of_values
    intro scale _
    refine ⟨fun _ _ => ht, fun _ => ?_⟩
    apply holds_of_values
    intro x _
    exact visits_misses ht fun fx hu => settles_misses hu
  | newton =>
    obtain ⟨slope, p, -, rfl⟩ := hl
    rw [Newton.ensures_pass]
    refine ⟨fun _ _ => hs, fun _ => ?_⟩
    apply holds_of_values
    intro dx _
    refine ⟨fun _ _ => hs, fun _ => ?_⟩
    exact visitsWithSlope_misses hs fun q ht => settles_misses ht
  | safeNewton =>
    obtain ⟨slope, p, -, rfl⟩ := hl
    rw [SafeNewton.ensures_pass]
    apply holds_of_values
    intro (dx, x) _
    exact visitsWithSlope_misses hs fun p ht => settles_misses ht
  | brent =>
    obtain ⟨fx, -, -, rfl⟩ := hl
    rw [Brent.ensures_pass]
    rcases Brent.arrange s.bracket state with ⟨b, i⟩
    refine ⟨fun _ hfailed => absurd rfl hfailed, fun _ => ⟨fun _ _ => hs, fun _ => ?_⟩⟩
    apply holds_of_values
    intro (step, lastStep) _
    exact visits_misses hs fun fx ht => ht
  | brentq => cases hl

end Passes

/-! ## Refinements -/

section Refinements

variable {r : Refiner α} {l : Loop α} {s : Session α}

theorem sampled_misses {fx : α} (hfx : f.value x = .ok fx) (hmiss : ¬Scalar.abs fx ≤ accuracy) :
    MissedSince f accuracy s.samples (s.sampled x).samples :=
  (MissedSince.refl f accuracy s.samples).push ⟨fx, hfx, hmiss⟩

/-- A method that samples its estimate before its loop enters the loop only if that misses. -/
theorem Refiner.Enters.missed (hl : r.Enters f accuracy s l) :
    MissedSince f accuracy s.samples l.session.samples := by
  obtain ⟨method, supplied⟩ := r
  cases method with
  | bisection | falsePosition | secant | ridder =>
    cases hl
    exact .refl f accuracy s.samples
  | newton | safeNewton =>
    obtain ⟨slope, p, hopened, rfl⟩ := hl
    exact sampled_misses hopened.value hopened.missed
  | brent =>
    obtain ⟨fx, hfx, hmiss, rfl⟩ := hl
    exact sampled_misses hfx hmiss
  | brentq => cases hl

/-- Every sample of a refinement that ends without convergence misses the accuracy. -/
theorem Refiner.refine_misses (hr : r.method ≠ .brentq) (limit : Nat) :
    (r.refine f limit accuracy).Ensures s
      (fun result t => result.status ≠ .converged → MissedSince f accuracy s.samples t.samples)
      fun _ _ => True := by
  refine ensures_refine hr (fun _ _ _ hfailed => absurd rfl hfailed) (fun _ _ => trivial)
    (fun _ _ _ => trivial) (fun _ _ _ _ _ => trivial) fun l hl => ?_
  apply ensures_whileBudget (I := fun _ t => MissedSince f accuracy s.samples t.samples)
  · intro state t ht _
    exact hl.keepsMissing state ht
  · intro _ t ht
    rw [ensures_exhausted]
    exact fun _ => ht
  · exact hl.missed

end Refinements

/-! ## Solves -/

section Solves

variable {r : Refiner α} {settings : Settings α} {guess step xMin xMax : α}

/-- A solve in a supplied bracket that fails has sampled nothing, or both ends and then only points
that miss. -/
theorem solveInBracket_misses (hr : r.method ≠ .brentq) :
    (solveInBracket r f settings accuracy guess xMin xMax).Ensures .start
      (fun result t => result.status ≠ .converged → t.samples = #[] ∨
        f.MissesStrictly accuracy xMin ∧ f.MissesStrictly accuracy xMax ∧
          MissedSince f (Scalar.effectiveAccuracy accuracy) #[xMin, xMax] t.samples)
      fun _ _ => True := by
  show ((Entry.inBracket guess xMin xMax).solve r f settings accuracy).Ensures .start _ _
  rw [Entry.ensures_solve]
  show (Search.supplied f settings accuracy guess xMin xMax r.name).Ensures .start _ _
  rw [Search.ensures_supplied]
  refine ⟨fun _ _ _ _ => .inl rfl, fun _ => ?_⟩
  apply holds_of_values
  intro fMin hmin
  refine ⟨fun _ hfailed => absurd rfl hfailed, fun hmissMin => ?_⟩
  apply holds_of_values
  intro fMax hmax
  refine ⟨fun _ hfailed => absurd rfl hfailed, fun hmissMax => ⟨fun _ => ?_, fun _ _ => ?_⟩⟩
  · refine (r.refine_misses hr settings.maxEvaluations).mono (fun _ _ h hfailed => ?_) fun _ _ h => h
    exact .inr ⟨⟨fMin, hmin, hmissMin⟩, ⟨fMax, hmax, hmissMax⟩, h hfailed⟩
  · exact .inr ⟨⟨fMin, hmin, hmissMin⟩, ⟨fMax, hmax, hmissMax⟩, .refl f _ _⟩

/-- A solve from a guess that fails after its search has found a bracket has sampled only points that
miss since then. -/
theorem solveFromGuess_misses (hr : r.method ≠ .brentq) {found : Session α}
    (hfound : (Search.aroundGuess f settings accuracy guess step r.name).exec .start =
      (.ok .bracketed, found)) :
    (solveFromGuess r f settings accuracy guess step).Ensures .start
      (fun result t => result.status ≠ .converged →
        MissedSince f (Scalar.effectiveAccuracy accuracy) found.samples t.samples)
      fun _ _ => True := by
  show ((Entry.fromGuess guess step).solve r f settings accuracy).Ensures .start _ _
  rw [Entry.ensures_solve_found (.fromGuess guess step) hfound]
  exact r.refine_misses hr settings.maxEvaluations

end Solves

/-- Let a native method fail. In a supplied bracket it has sampled nothing, or both ends, neither of them
strictly within the accuracy, and after them no point that meets the accuracy or the spacing of doubles
at one. From a guess, it has sampled no such point since the search found a bracket. -/
theorem failed_solve_samples_miss (r : Refiner Double) (f : Objective Double) (settings : Settings Double)
    (accuracy : Double) (hr : r.method ≠ .brentq) :
    (∀ guess xMin xMax result,
      let solve := (solveInBracket r f settings accuracy guess xMin xMax).exec .start
      solve.1 = .ok result → result.status ≠ .converged →
        solve.2.samples = #[] ∨ f.MissesStrictly accuracy xMin ∧ f.MissesStrictly accuracy xMax ∧
          ∃ points, solve.2.samples.toList = [xMin, xMax] ++ points ∧
            ∀ x ∈ points, f.Misses (Scalar.maxOf (Scalar.abs accuracy) Scalar.epsilon) x) ∧
    ∀ guess step result,
      let search := (Search.aroundGuess f settings accuracy guess step r.name).exec .start
      let solve := (solveFromGuess r f settings accuracy guess step).exec .start
      search.1 = .ok .bracketed → solve.1 = .ok result → result.status ≠ .converged →
        ∃ points, solve.2.samples.toList = search.2.samples.toList ++ points ∧
          ∀ x ∈ points, f.Misses (Scalar.maxOf (Scalar.abs accuracy) Scalar.epsilon) x := by
  constructor
  · intro guess xMin xMax result solve hresult hfailed
    exact (solveInBracket_misses hr).answer hresult hfailed
  · intro guess step result search solve hfound hresult hfailed
    exact (solveFromGuess_misses hr (Prod.ext hfound rfl)).answer hresult hfailed

/-- A jump over zero, which bisection cannot resolve within five evaluations. -/
theorem failed_solve_samples_miss_at_jump :
    let f : Objective Double := .ofTotal fun x => if x < 1.0 then -1.0 else 2.0
    let r : Refiner Double := ⟨.bisection, none⟩
    let settings : Settings Double := { maxEvaluations := 5 }
    let supplied := (solveInBracket r f settings 1e-9 2.5 0.0 4.0).exec .start
    let search := (Search.aroundGuess f settings 1e-9 1.5 1.0 r.name).exec .start
    let grown := (solveFromGuess r f settings 1e-9 1.5 1.0).exec .start
    (supplied.2.samples = #[] ∨ f.MissesStrictly 1e-9 0.0 ∧ f.MissesStrictly 1e-9 4.0 ∧
      ∃ points, supplied.2.samples.toList = [0.0, 4.0] ++ points ∧
        ∀ x ∈ points, f.Misses (Scalar.maxOf (Scalar.abs 1e-9) Scalar.epsilon) x) ∧
    ∃ points, grown.2.samples.toList = search.2.samples.toList ++ points ∧
      ∀ x ∈ points, f.Misses (Scalar.maxOf (Scalar.abs 1e-9) Scalar.epsilon) x :=
  let spent (b : Bracket Double) : Result Double :=
    { status := .maxEvaluationsExceeded, evaluations := 6, method := "bisection",
      reason := .refinementSpent "bisection" 5 b b.xMin, bracket := some b }
  have h := failed_solve_samples_miss ⟨.bisection, none⟩
    (.ofTotal fun x => if x < 1.0 then -1.0 else 2.0) { maxEvaluations := 5 } 1e-9 (by decide)
  ⟨h.1 2.5 0.0 4.0 (spent ⟨0.75, 1.0, -1.0, 2.0⟩) (by decide +kernel) nofun,
    h.2 1.5 1.0 (spent ⟨0.9375, 1.0, -1.0, 2.0⟩) (by decide +kernel) (by decide +kernel) nofun⟩

end RootSearch
