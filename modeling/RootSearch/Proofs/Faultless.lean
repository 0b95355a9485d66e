import Mathlib
import RootSearch.Proofs.Bounds
import RootSearch.Proofs.SignsKept
import RootSearch.Proofs.Succeeding
/-!
# No fault of the solver's own

Over the reals a division by zero and the root of a negative number are faults. Where the objective
and its derivative have values everywhere, no other fault is left, and these two do not occur either.
Methods that do not guard their divisors are saved from them by the sign change between the two ends, or
by the test that turns a step into a bisection.
-/

namespace RootSearch

open Solve

/-! ## Divisors and square roots -/

theorem Scalar.quotient_total_of_ne {y : ℝ} (x : ℝ) (hy : y ≠ 0) : ∃ z, Scalar.quotient x y = .ok z :=
  quotient_total x (mt real_beq_zero.1 hy)

theorem Scalar.root_total {x : ℝ} (hx : 0 ≤ x) : ∃ z, Scalar.root x = .ok z := by
  refine ⟨√x, if_neg ?_⟩
  norm_num
  exact hx

theorem FalsePosition.chord_total {b : Bracket ℝ} (hb : b.Straddles) : ∃ x, chord b = .ok x := by
  refine bind_total (Scalar.quotient_total_of_ne _ (sub_ne_zero.2 fun heq => ?_)) fun dx => ⟨_, rfl⟩
  -- equal values would not have opposite signs
  have hprod := opposite_iff_mul_neg.1 hb
  rw [heq] at hprod
  exact absurd hprod (not_lt.2 (mul_self_nonneg b.fMax))

theorem Ridder.scale_total {b : Bracket ℝ} (hb : b.Straddles) (fMid : ℝ) :
    ∃ s, scale b fMid = .ok s := by
  have hprod := opposite_iff_mul_neg.1 hb
  exact Scalar.root_total (by nlinarith)

theorem Ridder.fitted_total (b : Bracket ℝ) (mid fMid : ℝ) {s : ℝ} (hs : ¬(s == 0.0) = true) :
    ∃ x, fitted b mid fMid s = .ok x :=
  bind_total (Scalar.quotient_total _ hs) fun _ => ⟨_, rfl⟩

/-- On a flat slope the Newton step counts as one that leads out. -/
theorem SafeNewton.leadsOut_of_flat {i : Iterate ℝ} (hslope : i.point.slope = 0)
    (hfx : i.point.fx ≠ 0) : leadsOut i = true := by
  have hsq : 0 < i.point.fx * i.point.fx := mul_self_pos.2 hfx
  simp only [leadsOut, hslope, decide_eq_true_eq]
  norm_num
  exact hfx

theorem SafeNewton.advance_total {i : Iterate ℝ} (hfx : i.point.fx ≠ 0) :
    ∃ step, advance i = .ok step := by
  unfold advance
  split
  · exact ⟨_, rfl⟩
  · next hnewton =>
    refine bind_total (Scalar.quotient_total_of_ne _ fun hslope => hnewton ?_) fun dx => ⟨_, rfl⟩
    rw [leadsOut_of_flat hslope hfx, Bool.true_or]

/-! ## Passes -/

section Passes

variable {f : Objective ℝ} {accuracy : ℝ} {s : Session ℝ}

theorem FalsePosition.pass_succeeds (hf : f.IsTotal) (hs : s.bracket.Straddles)
    (previous : Option ℝ) : (pass f accuracy previous).Succeeds s := by
  rw [succeeds_iff, ensures_pass]
  apply holds_of_total (chord_total hs)
  intro x _
  exact visits_succeeds hf fun fx => settles_succeeds

theorem Ridder.pass_succeeds (hf : f.IsTotal) (hs : s.bracket.Straddles) (u : Unit) :
    (pass f accuracy u).Succeeds s := by
  rw [succeeds_iff, ensures_pass]
  apply visits_succeeds hf
  intro fMid
  apply holds_of_total (scale_total hs fMid)
  intro scale _
  constructor
  · intro _
    trivial
  · intro hscale
    apply holds_of_total (fitted_total _ _ _ hscale)
    intro x _
    exact visits_succeeds hf fun fx => settles_succeeds

theorem SafeNewton.pass_succeeds {slope : Slope ℝ} (hf : f.IsTotal)
    (hslope : ∀ x, ∃ dfx, slope x = .ok dfx) {i : Iterate ℝ} (hfx : i.point.fx ≠ 0) :
    (pass f slope accuracy i).Succeeds s := by
  rw [succeeds_iff, ensures_pass]
  apply holds_of_total (advance_total hfx)
  intro (dx, x) _
  exact visitsWithSlope_succeeds hf hslope fun p => settles_succeeds

end Passes

/-! ## Heads of the loops -/

section Heads

variable {f : Objective ℝ} {accuracy : ℝ} {s t : Session ℝ} {r : Refiner ℝ} {l : Loop ℝ} {limit : Nat}

/-- Every real is a number. -/
theorem Objective.givesNumbers (f : Objective ℝ) : f.GivesNumbers := by
  intro x fx _
  rw [Scalar.isNaN_eq_false_iff]

/-- A safeguarded Newton pass goes on only from a value that is not zero. -/
theorem SafeNewton.pass_keeps_ne_zero {slope : Slope ℝ} (haccuracy : 0 ≤ accuracy) (i : Iterate ℝ) :
    (pass f slope accuracy i).Ensures s
      (fun p _ => p.Keeps (fun i => i.point.fx ≠ 0) fun _ => True) fun _ _ => True := by
  have hnext (dx : ℝ) (p : Newton.Point ℝ) : (i.next dx p).point = p := by
    unfold Iterate.next
    split <;> rfl
  have hvisits {x : ℝ} {next : Newton.Point ℝ → Prop} (h : ∀ p, ¬|p.fx| ≤ accuracy → next p) :
      VisitsWithSlope f slope accuracy name x s
        (fun (p : Pass (Iterate ℝ) _) _ => p.Keeps (fun i => i.point.fx ≠ 0) fun _ => True)
        (fun _ _ => True) next :=
    ⟨fun fx _ => ⟨fun dfx _ => ⟨fun _ => trivial, h ⟨x, fx, dfx⟩⟩, fun _ _ => trivial⟩, fun _ _ => trivial⟩
  rw [ensures_pass]
  refine ⟨fun (dx, x) _ => hvisits fun p hmiss => ⟨fun _ => trivial, fun _ => ?_⟩, fun _ _ => trivial⟩
  show (i.next dx p).point.fx ≠ 0
  rw [hnext]
  exact ne_zero_of_missed haccuracy hmiss

theorem SafeNewton.head_ne_zero {slope : Slope ℝ} {first : Iterate ℝ} (haccuracy : 0 ≤ accuracy)
    (hfirst : first.point.fx ≠ 0) {i : Iterate ℝ}
    (hi : (⟨Iterate ℝ, pass f slope accuracy, first, s⟩ : Loop ℝ).Head limit i t) :
    i.point.fx ≠ 0 :=
  hi.keeps (I := fun (i : Iterate ℝ) _ => i.point.fx ≠ 0) (P := fun _ _ => True)
    (E := fun _ _ => True) (fun i _ _ _ => pass_keeps_ne_zero haccuracy i) hfirst

/-- Wherever a pass of a refinement may begin, it succeeds. -/
theorem Refiner.Enters.pass_succeeds (hl : r.Enters f accuracy s l) (hf : f.IsTotal)
    (hslope : r.HasSlope f) (haccuracy : 0 ≤ accuracy) (hs : s.bracket.Straddles)
    {state : l.State} (ht : l.Head limit state t) : (l.pass state).Succeeds t := by
  have haccuracy' : (0.0 : ℝ) ≤ accuracy := by
    rw [Scalar.real_zero]
    exact haccuracy
  by_cases hguarded : r.method.guardsDivisors = true
  · exact hl.pass_succeeds_of_guarded hguarded hf hslope haccuracy' state t
  have hstraddles (hbrent : r.method ≠ .brent) : t.bracket.Straddles :=
    head_straddles hl hbrent f.givesNumbers haccuracy' hs ht
  obtain ⟨method, supplied⟩ := r
  cases method with
  | falsePosition => cases hl; exact FalsePosition.pass_succeeds hf (hstraddles nofun) state
  | ridder => cases hl; exact Ridder.pass_succeeds hf (hstraddles nofun) state
  | safeNewton =>
    obtain ⟨slope, p, hopened, rfl⟩ := hl
    obtain ⟨slope', hslope', htotal⟩ := hslope rfl
    cases hopened.slopes.symm.trans hslope'
    have hfirst := ne_zero_of_missed haccuracy hopened.missed
    exact SafeNewton.pass_succeeds hf htotal (SafeNewton.head_ne_zero haccuracy hfirst ht)
  | brentq => cases hl
  | _ => exact absurd rfl hguarded

theorem Refiner.refine_succeeds (hr : r.method ≠ .brentq) (hf : f.IsTotal) (hslope : r.HasSlope f)
    (haccuracy : 0 ≤ accuracy) (hs : s.bracket.Straddles) : (r.refine f limit accuracy).Succeeds s :=
  r.refine_succeeds_of_passes hr hf hslope fun _ hl _ _ ht => hl.pass_succeeds hf hslope haccuracy hs ht

end Heads

/-! ## The solves -/

section Solves

variable {f : Objective ℝ} {settings : Settings ℝ} {accuracy : ℝ} {r : Refiner ℝ}

/-- What a search hands over straddles zero. -/
theorem Entry.search_straddles {method : String} {entry : Entry ℝ} {t : Session ℝ}
    (h : (entry.search f settings accuracy method).exec .start = (.ok .bracketed, t)) :
    t.bracket.Straddles := by
  have hstart (S : Set ℝ) : (Session.start : Session ℝ).SampledIn S := by
    simp [Session.SampledIn, Session.start]
  cases entry with
  | fromGuess guess step =>
    have hwithin : Search.SearchesWithin Set.univ
        ((fromGuess guess step).search f settings accuracy method) .start :=
      Search.aroundGuess_within Set.ordConnected_univ (fun _ => trivial) (hstart _) trivial step
    exact (hwithin.value h).2.2.2
  | inBracket guess xMin xMax =>
    have hwithin : Search.SearchesWithin (Set.Icc xMin xMax)
        ((inBracket guess xMin xMax).search f settings accuracy method) .start :=
      Search.supplied_within (hstart _)
    exact (hwithin.value h).2.2.2

theorem Entry.solve_succeeds (hr : r.method ≠ .brentq) (hf : f.IsTotal) (hslope : r.HasSlope f)
    (entry : Entry ℝ) : (entry.solve r f settings accuracy).Succeeds .start := by
  refine entry.solve_succeeds_of_refine hf fun t hsearch => ?_
  have hs := search_straddles hsearch
  exact r.refine_succeeds hr hf hslope (effectiveAccuracy_nonneg accuracy) hs

end Solves

/-- Over the reals, with an objective and, for a method that uses one, a derivative that have values
everywhere, a solve by any method but the one by tolerance returns a result. Wherever a pass of its
refinement may begin, the pass succeeds: no divisor is zero and no root is taken of a negative number. -/
theorem native_solve_returns (r : Refiner ℝ) (f : Objective ℝ) (settings : Settings ℝ) (accuracy : ℝ)
    (entry : Entry ℝ) (hr : r.method ≠ .brentq) (hf : ∀ x, ∃ fx, f.value x = .ok fx)
    (hslope : r.method.usesSlope →
      ∃ slope, f.slopeFor r.method r.slope = .ok slope ∧ ∀ x, ∃ dfx, slope x = .ok dfx) :
    (∃ result, ((entry.solve r f settings accuracy).exec .start).1 = .ok result) ∧
    ∀ t, (entry.search f settings accuracy r.name).exec .start = (.ok .bracketed, t) →
      ∀ l, r.Enters f (Scalar.effectiveAccuracy accuracy) t l →
        ∀ state u, l.Head settings.maxEvaluations state u →
          ∃ p v, (l.pass state).exec u = (.ok p, v) := by
  constructor
  · obtain ⟨result, t, hexec⟩ := Entry.solve_succeeds hr hf hslope entry
    exact ⟨result, congrArg Prod.fst hexec⟩
  · intro t hsearch l hl state u hu
    have hs := Entry.search_straddles hsearch
    exact hl.pass_succeeds hf hslope (effectiveAccuracy_nonneg accuracy) hs hu

/-- Safeguarded Newton steps with a derivative that is zero everywhere. -/
theorem native_solve_returns_flat_slope :
    let r : Refiner ℝ := ⟨.safeNewton, some fun _ => .ok 0⟩
    let f : Objective ℝ := .ofTotal fun x => x - 1
    let entry : Entry ℝ := .inBracket 3 0 4
    (∃ result, ((entry.solve r f {} 0).exec .start).1 = .ok result) ∧
    ∀ t, (entry.search f {} 0 r.name).exec .start = (.ok .bracketed, t) →
      ∀ l, r.Enters f (Scalar.effectiveAccuracy 0) t l →
        ∀ state u, l.Head 100 state u → ∃ p v, (l.pass state).exec u = (.ok p, v) :=
  native_solve_returns _ _ {} _ _ (by decide) (fun x => ⟨x - 1, rfl⟩)
    fun _ => ⟨fun _ => .ok 0, rfl, fun _ => ⟨0, rfl⟩⟩

end RootSearch
