import RootSearch.Proofs.Divisors
import RootSearch.Proofs.Heads
import RootSearch.Proofs.Searching
/-!
# Computations that succeed

A solve succeeds if it ends with a result, whether or not that names a root. Searches only call the
objective. A refinement succeeds if its passes do, and those of bisection, of the secant and Newton
methods and of Brent's method do wherever the objective and its derivative have values: what they divide
by is not zero, because they have tested it.
-/

namespace RootSearch

open Solve

/-! ## Totality -/

namespace Solve

variable {α β : Type} {s : Session α}

/-- The computation ends with a value, not in a fault. -/
def Succeeds (m : Solve α β) (s : Session α) : Prop := ∃ b t, m.exec s = (.ok b, t)

theorem succeeds_iff {m : Solve α β} :
    m.Succeeds s ↔ m.Ensures s (fun _ _ => True) fun _ _ => False := by
  unfold Succeeds Ensures
  rcases m.exec s with ⟨_ | _, _⟩ <;> simp

/-- Nothing is asked of what the pass leaves. -/
theorem Pass.keeps_trivial {σ : Type} (p : Pass σ β) : p.Keeps (fun _ => True) fun _ => True := by
  cases p with
  | again => trivial
  | stop => trivial

theorem holds_of_total {r : Except (Fault α) β} {P : β → Prop} {E : Fault α → Prop}
    (hr : ∃ b, r = .ok b) (h : ∀ b, r = .ok b → P b) : Holds r P E := by
  constructor
  · exact h
  · intro fault hfault
    obtain ⟨b, hb⟩ := hr
    rw [hb] at hfault
    cases hfault

end Solve

/-- The objective has a value everywhere. -/
def Objective.IsTotal {α : Type} (f : Objective α) : Prop := ∀ x, ∃ fx, f.value x = .ok fx

/-- The method uses no derivative, or it has one with a value everywhere. -/
def Refiner.HasSlope {α : Type} (r : Refiner α) (f : Objective α) : Prop :=
  r.method.usesSlope → ∃ slope, f.slopeFor r.method r.slope = .ok slope ∧ ∀ x, ∃ dfx, slope x = .ok dfx

/-- Whether the method makes sure that it does not divide by zero, whatever numbers it meets. -/
def Method.guardsDivisors : Method → Bool
  | bisection | brent | newton | secant => true
  | brentq | falsePosition | safeNewton | ridder => false

variable {α σ : Type} [Scalar α] {f : Objective α} {accuracy x : α} {method : String} {s : Session α}

/-! ## Passes -/

theorem visits_succeeds {next : α → Prop} (hf : f.IsTotal) (h : ∀ fx, next fx) :
    Visits f accuracy method x s (fun (_ : Pass σ (Result α)) _ => True) (fun _ _ => False) next := by
  apply holds_of_total (hf x)
  intro fx _
  exact ⟨fun _ => trivial, fun _ => h fx⟩

theorem visitsWithSlope_succeeds {slope : Slope α} {next : Newton.Point α → Prop} (hf : f.IsTotal)
    (hslope : ∀ x, ∃ dfx, slope x = .ok dfx) (h : ∀ p, next p) :
    VisitsWithSlope f slope accuracy method x s (fun (_ : Pass σ (Result α)) _ => True)
      (fun _ _ => False) next := by
  apply holds_of_total (hf x)
  intro fx _
  apply holds_of_total (hslope x)
  intro dfx _
  exact ⟨fun _ => trivial, fun _ => h ⟨x, fx, dfx⟩⟩

theorem settles_succeeds {isSmall : Prop} {fx : α} {state : σ} :
    Settles isSmall x fx method accuracy state s fun _ _ => True :=
  ⟨fun _ => trivial, fun _ => trivial⟩

theorem Bisection.pass_succeeds (hf : f.IsTotal) (u : Unit) : (pass f accuracy u).Succeeds s := by
  rw [succeeds_iff, ensures_pass]
  exact visits_succeeds hf fun fMid => settles_succeeds

theorem Newton.pass_succeeds {slope : Slope α} (hf : f.IsTotal)
    (hslope : ∀ x, ∃ dfx, slope x = .ok dfx) (p : Point α) :
    (pass f slope accuracy p).Succeeds s := by
  rw [succeeds_iff, ensures_pass]
  constructor
  · intro _
    trivial
  · intro hsteep
    apply holds_of_total (Scalar.quotient_total _ hsteep)
    intro dx _
    exact ⟨fun _ => trivial, fun _ => visitsWithSlope_succeeds hf hslope fun q => settles_succeeds⟩

theorem Secant.pass_succeeds [LawfulArithmetic α] (hf : f.IsTotal) (p : Points α) :
    (pass f accuracy p).Succeeds s := by
  rw [succeeds_iff, ensures_pass]
  constructor
  · intro _
    trivial
  · intro hsteep
    apply holds_of_total (secantStep_total hsteep)
    intro d _
    exact visits_succeeds hf fun fx => settles_succeeds

theorem Brent.pass_succeeds [LawfulArithmetic α] (hf : f.IsTotal) (haccuracy : 0.0 ≤ accuracy)
    (i : Iterate α) : (pass f accuracy i).Succeeds s := by
  rw [succeeds_iff, ensures_pass]
  have hordered := arrange_ordered s.bracket i
  rcases e : arrange s.bracket i with ⟨b, i⟩
  rw [e] at hordered
  refine ⟨fun _ => trivial, fun hmiss => ⟨fun _ => trivial, fun _ => ?_⟩⟩
  apply holds_of_total (chooseStep_total haccuracy hmiss hordered)
  intro (step, lastStep) _
  exact visits_succeeds hf fun fx => trivial

/-! ## Refinements -/

section Refinements

variable {r : Refiner α} {l : Loop α} {limit : Nat}

theorem Refiner.Enters.pass_succeeds_of_guarded [LawfulArithmetic α] (hl : r.Enters f accuracy s l)
    (hr : r.method.guardsDivisors = true) (hf : f.IsTotal) (hslope : r.HasSlope f)
    (haccuracy : 0.0 ≤ accuracy) (state : l.State) (t : Session α) : (l.pass state).Succeeds t := by
  obtain ⟨method, supplied⟩ := r
  cases method with
  | bisection => cases hl; exact Bisection.pass_succeeds hf state
  | secant => cases hl; exact Secant.pass_succeeds hf state
  | newton =>
    obtain ⟨slope, p, hopened, rfl⟩ := hl
    obtain ⟨slope', hslope', htotal⟩ := hslope rfl
    cases hopened.slopes.symm.trans hslope'
    exact Newton.pass_succeeds hf htotal state
  | brent =>
    obtain ⟨fx, -, -, rfl⟩ := hl
    exact Brent.pass_succeeds hf haccuracy state
  | falsePosition => cases hr
  | ridder => cases hr
  | safeNewton => cases hr
  | brentq => cases hr

/-- A refinement succeeds if all passes do that may begin. -/
theorem Refiner.refine_succeeds_of_passes (hr : r.method ≠ .brentq) (hf : f.IsTotal)
    (hslope : r.HasSlope f)
    (hpass : ∀ l, r.Enters f accuracy s l → ∀ state t, l.Head limit state t → (l.pass state).Succeeds t) :
    (r.refine f limit accuracy).Succeeds s := by
  rw [succeeds_iff]
  refine ensures_refine hr (fun _ _ _ => trivial) ?_ ?_ ?_ fun l hl => ?_
  · intro fault hfault
    obtain ⟨fx, hfx⟩ := hf s.root
    cases hfx.symm.trans hfault
  · intro huses fault hfault
    obtain ⟨slope, hslope, -⟩ := hslope huses
    cases hslope.symm.trans hfault
  · intro huses slope fault hslope' hfault
    obtain ⟨slope', hslope, htotal⟩ := hslope huses
    cases hslope.symm.trans hslope'
    obtain ⟨dfx, hdfx⟩ := htotal s.root
    cases hdfx.symm.trans hfault
  · apply Loop.ensures_run
    · intro state t ht _
      exact (succeeds_iff.1 (hpass l hl state t ht)).mono (fun p _ _ => p.keeps_trivial) fun _ _ h => h
    · intro _ _ _
      trivial

end Refinements

/-! ## Searches -/

namespace Search

variable {settings : Settings α}

theorem pass_succeeds (hf : f.IsTotal) (tieLow : Bool) :
    (pass f settings method tieLow).Succeeds s := by
  rw [succeeds_iff, ensures_pass]
  refine ⟨fun _ => ⟨fun _ => trivial, fun _ => ⟨fun _ => trivial, fun _ => trivial⟩⟩, fun _ => ?_⟩
  exact holds_of_total (hf _) fun _ _ => trivial

theorem aroundGuess_succeeds (hf : f.IsTotal) (guess step : α) :
    (aroundGuess f settings accuracy guess step method).Succeeds s := by
  rw [succeeds_iff, ensures_aroundGuess]
  apply holds_of_total (hf guess)
  intro fx _
  refine ⟨fun _ => trivial, fun _ => ?_⟩
  apply holds_of_total (hf _)
  intro fx' _
  apply ensures_whileBudget (I := fun _ _ => True)
  · intro tieLow t _ _
    exact (succeeds_iff.1 (pass_succeeds hf tieLow)).mono (fun p _ _ => p.keeps_trivial) fun _ _ h => h
  · intro _ t _
    rw [ensures_giveUp]
    trivial
  · trivial

theorem supplied_succeeds (hf : f.IsTotal) (guess xMin xMax : α) :
    (supplied f settings accuracy guess xMin xMax method).Succeeds s := by
  rw [succeeds_iff, ensures_supplied]
  refine ⟨fun _ _ _ => trivial, fun _ => ?_⟩
  apply holds_of_total (hf xMin)
  intro fMin _
  refine ⟨fun _ => trivial, fun _ => ?_⟩
  apply holds_of_total (hf xMax)
  intro fMax _
  refine ⟨fun _ => trivial, fun _ => ?_⟩
  exact ⟨fun _ => trivial, fun _ => trivial⟩

end Search

/-! ## Solves -/

namespace Entry

variable {r : Refiner α} {settings : Settings α}

theorem search_succeeds (hf : f.IsTotal) (method : String) (entry : Entry α) :
    (entry.search f settings accuracy method).Succeeds s := by
  cases entry with
  | fromGuess guess step => exact Search.aroundGuess_succeeds hf guess step
  | inBracket guess xMin xMax => exact Search.supplied_succeeds hf guess xMin xMax

/-- A solve succeeds if its method refines whatever bracket its search hands over. -/
theorem solve_succeeds_of_refine (hf : f.IsTotal) (entry : Entry α)
    (hrefine : ∀ t, (entry.search f settings accuracy r.name).exec s = (.ok .bracketed, t) →
      (r.refine f settings.maxEvaluations (Scalar.effectiveAccuracy accuracy)).Succeeds t) :
    (entry.solve r f settings accuracy).Succeeds s := by
  have hsucceeds : (entry.search f settings accuracy r.name).Succeeds s := entry.search_succeeds hf r.name
  obtain ⟨outcome, t, hsearch⟩ := hsucceeds
  rw [succeeds_iff, ensures_solve]
  simp only [Ensures, hsearch]
  cases outcome with
  | answered result => trivial
  | bracketed => exact succeeds_iff.1 (hrefine t hsearch)

/-- A method that guards its divisors brings every solve to an end. -/
theorem solve_succeeds_of_guarded [LawfulArithmetic α] (hr : r.method.guardsDivisors = true)
    (hf : f.IsTotal) (hslope : r.HasSlope f) (haccuracy : Scalar.isNaN accuracy = false)
    (entry : Entry α) : (entry.solve r f settings accuracy).Succeeds s := by
  have hnative : r.method ≠ .brentq := by
    intro h
    rw [h] at hr
    cases hr
  have hself := Scalar.isNaN_eq_false_iff.1 haccuracy
  have hpos : (0.0 : α) ≤ Scalar.effectiveAccuracy accuracy :=
    Scalar.le_trans (Scalar.le_of_lt Scalar.epsilon_pos) (Scalar.epsilon_le_effectiveAccuracy hself)
  refine entry.solve_succeeds_of_refine hf fun t _ => ?_
  exact r.refine_succeeds_of_passes hnative hf hslope fun l hl state u _ =>
    hl.pass_succeeds_of_guarded hr hf hslope hpos state u

end Entry

end RootSearch
