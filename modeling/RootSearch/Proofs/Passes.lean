import RootSearch.Proofs.Ensures
import RootSearch.Refiner
/-!
# What each method does

Every pass calls the objective at a point, stops there if the accuracy is met, and otherwise narrows
the bracket and stops if that or the step is too small. The passes differ in how they find the point,
what they narrow and what they take as small. For each method there is one lemma that says so and,
where it does more than repeat its pass, one that says how it begins. No claim about a method needs
more than these.
-/

namespace RootSearch

/-- The session after a call at the new estimate `x`. -/
def Session.visited {α : Type} (s : Session α) (x : α) : Session α :=
  { s.sampled x with root := x }

namespace Session

variable {α : Type} (s : Session α)

/-- The session with another bracket. -/
def narrowed (b : Bracket α) : Session α := { s with bracket := b }

/-- The session with another estimate. -/
def located (x : α) : Session α := { s with root := x }

/-- The session with another event in its log. -/
def logged (event : Event α) : Session α := { s with events := s.events.push event }

@[simp] theorem logged_events (event : Event α) :
    (s.logged event).events = s.events.push event := rfl

end Session

namespace Solve

variable {α σ : Type} [Scalar α]

/-- A pass calls the objective at its new estimate `x` and stops if the accuracy is met there. -/
def Visits (f : Objective α) (accuracy : α) (method : String) (x : α) (s : Session α)
    (P : Pass σ (Result α) → Session α → Prop) (E : Fault α → Session α → Prop)
    (next : α → Prop) : Prop :=
  Holds (f.value x)
    (fun fx => (Scalar.abs fx ≤ accuracy → P (.stop ((s.visited x).converged x method)) (s.visited x)) ∧
      (¬Scalar.abs fx ≤ accuracy → next fx))
    (E · (s.sampled x))

/-- A pass calls the objective and its derivative at its new estimate `x` and stops if the accuracy
is met there. -/
def VisitsWithSlope (f : Objective α) (slope : Slope α) (accuracy : α) (method : String) (x : α)
    (s : Session α) (P : Pass σ (Result α) → Session α → Prop) (E : Fault α → Session α → Prop)
    (next : Newton.Point α → Prop) : Prop :=
  Holds (f.value x)
    (fun fx => Holds (slope x)
      (fun dfx =>
        (Scalar.abs fx ≤ accuracy → P (.stop ((s.visited x).converged x method)) (s.visited x)) ∧
        (¬Scalar.abs fx ≤ accuracy → next ⟨x, fx, dfx⟩))
      (E · (s.visited x)))
    (E · (s.visited x))

/-- A pass stops if the bracket or the step is too small, and goes on from `state` otherwise. -/
def Settles (isSmall : Prop) (x fx : α) (method : String) (accuracy : α) (state : σ) (s : Session α)
    (P : Pass σ (Result α) → Session α → Prop) : Prop :=
  (isSmall → P (.stop (s.collapsed x fx method accuracy)) (s.located (s.bracket.best (x, fx)).1)) ∧
  (¬isSmall → P (.again state) s)

/-- A method begins with a derivative, calls the objective and it at the estimate and stops if the
accuracy is met there. -/
def Opens (f : Objective α) (slopes : Except (Fault α) (Slope α)) (accuracy : α) (method : String)
    (s : Session α) (P : Result α → Session α → Prop) (E : Fault α → Session α → Prop)
    (next : Slope α → Newton.Point α → Prop) : Prop :=
  let t := s.sampled s.root
  Holds slopes
    (fun slope => Holds (f.value s.root)
      (fun fx => Holds (slope s.root)
        (fun dfx => (Scalar.abs fx ≤ accuracy → P (t.converged s.root method) t) ∧
          (¬Scalar.abs fx ≤ accuracy → next slope ⟨s.root, fx, dfx⟩))
        (E · t))
      (E · t))
    (E · s)

end Solve

open Solve

variable {α : Type} [Scalar α] {s : Session α} {E : Fault α → Session α → Prop}

/-! ## Passes -/

theorem Bisection.ensures_pass {P : Pass Unit (Result α) → Session α → Prop} (f : Objective α)
    (accuracy : α) (u : Unit) :
    (pass f accuracy u).Ensures s P E ↔
      let mid := s.bracket.midpoint
      Visits f accuracy name mid s P E fun fMid =>
        let b := s.bracket.shrink mid fMid
        Settles (b.width ≤ Scalar.resolution mid) mid fMid name accuracy ()
          ((s.visited mid).narrowed b) P := by
  simp [pass, Visits, Settles, Session.visited, Session.narrowed, Session.located]

theorem FalsePosition.ensures_pass {P : Pass (Option α) (Result α) → Session α → Prop}
    (f : Objective α) (accuracy : α) (previous : Option α) :
    (pass f accuracy previous).Ensures s P E ↔
      Holds (chord s.bracket)
        (fun x => Visits f accuracy name x s P E fun fx =>
          Settles (hasStalled previous x) x fx name accuracy (some x)
            ((s.visited x).narrowed (s.bracket.shrink x fx)) P)
        (E · s) := by
  simp [pass, Visits, Settles, Session.visited, Session.narrowed, Session.located]

theorem Secant.ensures_pass {P : Pass (Points α) (Result α) → Session α → Prop}
    (f : Objective α) (accuracy : α) (p : Points α) :
    (pass f accuracy p).Ensures s P E ↔
      (p.fx == p.fLast →
        P (.stop (s.fail .diverged (.flatSecant name p.xLast p.x p.fx) name (some p.x))) s) ∧
      (¬p.fx == p.fLast → Holds (secantStep p)
        (fun d =>
          let dx := insideStep s.bracket p.x d
          Visits f accuracy name (p.x + dx) s P E fun fx =>
            Settles (Scalar.abs dx ≤ Scalar.resolution (p.x + dx)) (p.x + dx) fx name accuracy
              ⟨p.x + dx, fx, p.x, p.fx⟩
              ((s.visited (p.x + dx)).narrowed (s.bracket.shrink (p.x + dx) fx)) P)
        (E · s)) := by
  simp [pass, Visits, Settles, Session.visited, Session.narrowed, Session.located]

theorem Ridder.ensures_pass {P : Pass Unit (Result α) → Session α → Prop} (f : Objective α)
    (accuracy : α) (u : Unit) :
    (pass f accuracy u).Ensures s P E ↔
      let mid := s.bracket.midpoint
      let t := s.visited mid
      Visits f accuracy name mid s P E fun fMid => Holds (scale s.bracket fMid)
        (fun scale =>
          (scale == 0.0 → P (.stop (t.collapsed mid fMid name accuracy))
            (t.located (s.bracket.best (mid, fMid)).1)) ∧
          (¬scale == 0.0 → Holds (fitted s.bracket mid fMid scale)
            (fun x => Visits f accuracy name x t P E fun fx =>
              let b := narrow s.bracket mid fMid x fx
              Settles (b.width ≤ Scalar.resolution x) x fx name accuracy ()
                ((t.visited x).narrowed b) P)
            (E · t)))
        (E · t) := by
  simp [pass, Visits, Settles, Session.visited, Session.narrowed, Session.located]

theorem Newton.ensures_pass {P : Pass (Point α) (Result α) → Session α → Prop}
    (f : Objective α) (slope : Slope α) (accuracy : α) (p : Point α) :
    (pass f slope accuracy p).Ensures s P E ↔
      (p.slope == 0.0 →
        P (.stop (s.fail .diverged (.zeroSlope name p.x p.fx) name (some p.x))) s) ∧
      (¬p.slope == 0.0 → Holds (Scalar.quotient p.fx p.slope)
        (fun dx =>
          let x := p.x - dx
          (isOutside s.bracket x →
            P (.stop ((s.located x).fail .diverged (.leftRange name x s.bracket) name (some x)))
              (s.located x)) ∧
          (¬isOutside s.bracket x → VisitsWithSlope f slope accuracy name x s P E fun q =>
            Settles (Scalar.abs dx ≤ Scalar.resolution x) x q.fx name accuracy q (s.visited x) P))
        (E · s)) := by
  simp [pass, point, VisitsWithSlope, Settles, Session.visited, Session.sampled, Session.located]

theorem SafeNewton.ensures_pass {P : Pass (Iterate α) (Result α) → Session α → Prop}
    (f : Objective α) (slope : Slope α) (accuracy : α) (i : Iterate α) :
    (pass f slope accuracy i).Ensures s P E ↔
      Holds (advance i)
        (fun (dx, x) => VisitsWithSlope f slope accuracy name x s P E fun p =>
          Settles (Scalar.abs dx ≤ Scalar.resolution x) x p.fx name accuracy (i.next dx p)
            ((s.visited x).narrowed (s.bracket.shrink x p.fx)) P)
        (E · s) := by
  simp [pass, Newton.point, VisitsWithSlope, Settles, Session.visited, Session.sampled,
    Session.narrowed, Session.located]

theorem Brent.ensures_pass {P : Pass (Iterate α) (Result α) → Session α → Prop} (f : Objective α)
    (accuracy : α) (i : Iterate α) :
    (pass f accuracy i).Ensures s P E ↔
      let (b, i) := arrange s.bracket i
      let t := (s.narrowed b).located i.x
      let tol := Scalar.resolution i.x
      let half := 0.5 * (b.xMax - i.x)
      (Scalar.abs i.fx ≤ accuracy → P (.stop (t.converged i.x name)) t) ∧
      (¬Scalar.abs i.fx ≤ accuracy →
        (Scalar.abs half ≤ tol → P (.stop (t.collapsed i.x i.fx name accuracy))
          (t.located (b.best (i.x, i.fx)).1)) ∧
        (¬Scalar.abs half ≤ tol → Holds (chooseStep b i half tol)
          (fun (step, lastStep) =>
            let x := i.x + atLeast step half tol
            let u := t.narrowed { b with xMin := i.x, fMin := i.fx }
            Visits f accuracy name x u P E fun fx =>
              P (.again ⟨x, fx, step, lastStep⟩) (u.visited x))
          (E · t))) := by
  simp [pass, Visits, Session.visited, Session.narrowed, Session.located]

/-! ## Beginnings -/

section Beginnings

variable {f : Objective α} {limit : Nat} {accuracy : α} {P : Result α → Session α → Prop}

theorem Secant.ensures_refine :
    (refine f limit accuracy).Ensures s P E ↔
      (whileBudget limit (pass f accuracy) (exhausted limit name) (Points.ofBracket s.bracket)).Ensures
        s P E := by
  simp [refine]

theorem Newton.ensures_refine (supplied : Option (Slope α)) :
    (refine f supplied limit accuracy).Ensures s P E ↔
      Opens f (f.slopeFor .newton supplied) accuracy name s P E fun slope p =>
        (whileBudget limit (pass f slope accuracy) (exhausted limit name) p).Ensures
          (s.sampled s.root) P E := by
  simp [refine, point, Opens]

theorem SafeNewton.ensures_refine (supplied : Option (Slope α)) :
    (refine f supplied limit accuracy).Ensures s P E ↔
      Opens f (f.slopeFor .safeNewton supplied) accuracy name s P E fun slope p =>
        let (xLow, xHigh) := orient s.bracket
        let width := s.bracket.width
        (whileBudget limit (pass f slope accuracy) (exhausted limit name)
          ⟨xLow, xHigh, width, width, p⟩).Ensures (s.sampled s.root) P E := by
  simp [refine, Newton.point, Opens]

theorem Brent.ensures_refine :
    (refine f limit accuracy).Ensures s P E ↔
      let t := s.sampled s.root
      Holds (f.value s.root)
        (fun fx =>
          let b := pickContrapoint s.bracket fx
          let d := s.root - b.xMax
          (Scalar.abs fx ≤ accuracy → P (t.converged s.root name) t) ∧
          (¬Scalar.abs fx ≤ accuracy →
            (whileBudget limit (pass f accuracy) (exhausted limit name) ⟨s.root, fx, d, d⟩).Ensures
              (t.narrowed b) P E))
        (E · t) := by
  simp [refine, Session.narrowed]

theorem Brentq.ensures_refineBy {strategy : Strategy α} :
    (refineBy strategy f limit accuracy).Ensures s P E ↔
      let steps : Int := limit - s.evaluations - 2
      let (a, b) := ordered s.bracket
      (steps < 1 → (polish f limit accuracy).Ensures s P E) ∧
      (¬steps < 1 → ((strategy a b accuracy steps.toNat).run f []).Ensures s
        (fun found t =>
          let b := replay t.bracket found.samples.reverse
          let u := (t.narrowed b).located found.root
          (found.meets accuracy → P (u.converged found.root name) u) ∧
          (¬found.meets accuracy →
            (polish f limit accuracy).Ensures (u.logged (.polishing found.root b)) P E))
        E) := by
  simp [refineBy, Session.narrowed, Session.located, Session.logged]

end Beginnings

end RootSearch
