import RootSearch.Proofs.Faultless
import RootSearch.Proofs.Strategy
import RootSearch.Solver
/-!
# Faults that are left

Over the reals, with an objective and a derivative that have values everywhere, a solve by a native method
has no fault. The search by tolerance has four of its own. A solve ends in no other.
-/

namespace RootSearch

open Solve

/-- Settings without an upper bound are refused for their budget only. -/
theorem Settings.fault_of_make {budget : Int} {low : Option ℝ} {fault : Fault ℝ}
    (h : make budget low none = .error fault) : fault = .budget budget := by
  unfold make at h
  split at h
  · cases h
    rfl
  · cases low <;> cases h

/-- The faults with which the search by tolerance itself ends. -/
def Brentq.OwnFault : Fault ℝ → Prop
  | .toleranceTooSmall _ | .tooManySteps _ | .undefinedAt _ | .sameSigns => True
  | _ => False

section Faults

variable {f : Objective ℝ} {accuracy : ℝ} {s : Session ℝ}

/-- An inquiry put to an objective ends in no other fault. -/
abbrev Brentq.FaultsAlone (f : Objective ℝ) (inquiry : Inquiry ℝ) : Prop :=
  ∀ (samples : List (ℝ × ℝ)) (s : Session ℝ),
    (inquiry.run f samples).Ensures s (fun _ _ => True) fun fault _ => OwnFault fault

theorem Brentq.askNumber_faults {x : ℝ} {next : ℝ → Inquiry ℝ} (hf : f.IsTotal)
    (h : ∀ fx, FaultsAlone f (next fx)) : FaultsAlone f (askNumber x next) := by
  intro samples s
  rw [ensures_askNumber]
  exact holds_of_total (hf x) fun fx _ => ⟨fun _ => trivial, fun _ => h fx _ _⟩

theorem Brentq.inquiryFrom_faults (hf : f.IsTotal) (steps : Nat) (state : Search ℝ) :
    FaultsAlone f (inquiryFrom accuracy steps state) := by
  induction steps generalizing state with
  | zero => exact fun _ _ => trivial
  | succ steps ih =>
    intro samples s
    simp only [inquiryFrom, ensures_choice]
    exact ⟨fun _ => trivial, fun _ => askNumber_faults hf (fun fx => ih _) samples s⟩

theorem Brentq.strategy_faults (hf : f.IsTotal) (a b : ℝ) (steps : Nat) :
    FaultsAlone f (strategy a b accuracy steps) := by
  intro samples s
  simp only [strategy, ensures_choice, ensures_refuse]
  refine ⟨fun _ => trivial, fun _ => ⟨fun _ => trivial, fun _ => ?_⟩⟩
  refine askNumber_faults hf (fun fa => askNumber_faults hf fun fb samples s => ?_) samples s
  simp only [ensures_choice, ensures_refuse]
  refine ⟨fun _ => trivial, fun _ => ⟨fun _ => trivial, fun _ => ⟨fun _ => trivial, fun _ => ?_⟩⟩⟩
  exact inquiryFrom_faults hf steps _ samples s

/-- Brent's method guards its divisors, so a refinement that ends with it does not fail there. -/
theorem Brentq.polish_succeeds (hf : f.IsTotal) (haccuracy : 0 ≤ accuracy) (limit : Nat) :
    (polish f limit accuracy).Succeeds s := by
  have hbrent : (Brent.refine f limit accuracy).Succeeds s := by
    refine Refiner.refine_succeeds_of_passes (r := ⟨.brent, none⟩) nofun hf nofun fun l hl state t _ => ?_
    exact hl.pass_succeeds_of_guarded rfl hf nofun (by rwa [Scalar.real_zero]) state t
  rw [succeeds_iff] at hbrent ⊢
  simp only [polish, ensures_bind, ensures_pure]
  exact hbrent

theorem Brentq.refineBy_faults (hf : f.IsTotal) (haccuracy : 0 ≤ accuracy) (limit : Nat) :
    (refineBy strategy f limit accuracy).Ensures s (fun _ _ => True) fun fault _ => OwnFault fault := by
  have hpolish {t : Session ℝ} :
      (polish f limit accuracy).Ensures t (fun _ _ => True) fun fault _ => OwnFault fault :=
    (succeeds_iff.1 (polish_succeeds hf haccuracy limit)).mono (fun _ _ h => h) fun _ _ h => h.elim
  rw [ensures_refineBy]
  refine ⟨fun _ => hpolish, fun _ => (strategy_faults hf _ _ _ [] s).mono (fun found t _ => ?_) ?_⟩
  · exact ⟨fun _ => trivial, fun _ => hpolish⟩
  · exact fun _ _ h => h

/-- A search from a guess ends in a fault of the search by tolerance, if in any. -/
theorem Solver.run_faults {solver : Solver ℝ} (hf : f.IsTotal) (hslope : solver.refiner.HasSlope f)
    (guess step : ℝ) :
    (solver.run f accuracy guess step).Ensures s (fun _ _ => True)
      fun fault _ => Brentq.OwnFault fault := by
  have hwithin : Search.SearchesWithin Set.univ
      (Search.aroundGuess f solver.settings accuracy guess step solver.refiner.name) s :=
    Search.aroundGuess_within Set.ordConnected_univ (fun _ => trivial) (fun _ _ => trivial) trivial step
  have hsearch :
      (Search.aroundGuess f solver.settings accuracy guess step solver.refiner.name).Succeeds s :=
    Search.aroundGuess_succeeds hf guess step
  rw [run, solveFromGuess, Entry.ensures_solve]
  refine (hwithin.and (succeeds_iff.1 hsearch)).mono (fun outcome t h => ?_) fun _ _ h => h.2.elim
  have haccuracy := effectiveAccuracy_nonneg accuracy
  cases outcome with
  | answered result => trivial
  | bracketed =>
    have hstraddles : t.bracket.Straddles := h.1.2.2.2
    by_cases hr : solver.refiner.method = .brentq
    · show (solver.refiner.refine f _ _).Ensures t _ _
      unfold Refiner.refine Refiner.refineBy
      rw [hr]
      exact Brentq.refineBy_faults hf haccuracy _
    · have hnative : (solver.refiner.refine f solver.settings.maxEvaluations _).Succeeds t :=
        solver.refiner.refine_succeeds hr hf hslope haccuracy hstraddles
      exact (succeeds_iff.1 hnative).mono (fun _ _ h => h) fun _ _ h => h.elim

end Faults

end RootSearch
