import RootSearch.Proofs.Passes
/-!
# The heads of a loop

A refinement enters a loop, unless it ends before. The head of the loop is where a pass may begin, so
its sessions and states are all that a pass can meet: what every pass keeps holds at every head, and
what the passes at the heads do the refinement does.
-/

namespace RootSearch

open Solve

/-- A loop as it is entered: its pass, the first state and the session then. -/
structure Loop (α : Type) where
  State : Type
  pass : State → Solve α (Pass State (Result α))
  first : State
  session : Session α

namespace Loop

variable {α : Type} {l : Loop α} {limit : Nat}

/-- The loop comes to its head with a state in a session. -/
inductive Head (l : Loop α) (limit : Nat) : l.State → Session α → Prop
  | first : Head l limit l.first l.session
  | again {state state' : l.State} {s t : Session α} : Head l limit state s → s.hasBudget limit →
      (l.pass state).exec s = (.ok (.again state'), t) → Head l limit state' t

/-- The loop under a budget. -/
def run (l : Loop α) (limit : Nat) (method : String) : Solve α (Result α) :=
  whileBudget limit l.pass (exhausted limit method) l.first

/-- What every pass within the budget keeps holds at every head. -/
theorem Head.keeps {I : l.State → Session α → Prop} {P : Result α → Session α → Prop}
    {E : Fault α → Session α → Prop}
    (hpass : ∀ state s, I state s → s.hasBudget limit →
      (l.pass state).Ensures s (fun p t => p.Keeps (I · t) (P · t)) E)
    (hfirst : I l.first l.session) {state : l.State} {s : Session α} (h : l.Head limit state s) :
    I state s := by
  induction h with
  | first => exact hfirst
  | again _ hb hagain ih => exact (hpass _ _ ih hb).value hagain

/-- A loop ends as its passes do at its heads, or at a head with its budget spent. -/
theorem ensures_run {method : String} {P : Result α → Session α → Prop}
    {E : Fault α → Session α → Prop}
    (hpass : ∀ state s, l.Head limit state s → s.hasBudget limit →
      (l.pass state).Ensures s (fun p t => p.Keeps (fun _ => True) (P · t)) E)
    (hspent : ∀ state s, l.Head limit state s → P (s.exhausted limit method) s) :
    (l.run limit method).Ensures l.session P E := by
  refine ensures_whileBudget (I := l.Head limit) (fun state s h hb => ?_) (fun state s h => ?_) .first
  · have hpass := hpass state s h hb
    unfold Ensures at hpass ⊢
    rcases hexec : (l.pass state).exec s with ⟨fault | ⟨state' | result⟩, t⟩ <;> rw [hexec] at hpass
    · exact hpass
    · exact h.again hb hexec
    · exact hpass
  · rw [ensures_exhausted]
    exact hspent state s h

end Loop

/-! ## How a method enters its loop -/

variable {α : Type} [Scalar α]

/-- A method has its derivative and has called the objective and it at the estimate, but has not met
the accuracy there. -/
structure Opened (f : Objective α) (slopes : Except (Fault α) (Slope α)) (accuracy : α)
    (s : Session α) (slope : Slope α) (p : Newton.Point α) : Prop where
  slopes : slopes = .ok slope
  x : p.x = s.root
  value : f.value s.root = .ok p.fx
  slope : slope s.root = .ok p.slope
  missed : ¬Scalar.abs p.fx ≤ accuracy

namespace Refiner

/-- The loop that a refinement begun in `s` enters. The method by tolerance has no passes of its own. -/
def Enters (r : Refiner α) (f : Objective α) (accuracy : α) (s : Session α) (l : Loop α) : Prop :=
  match r.method with
  | .bisection => l = ⟨Unit, Bisection.pass f accuracy, (), s⟩
  | .falsePosition => l = ⟨Option α, FalsePosition.pass f accuracy, Scalar.infinity?, s⟩
  | .secant => l = ⟨Secant.Points α, Secant.pass f accuracy, .ofBracket s.bracket, s⟩
  | .ridder => l = ⟨Unit, Ridder.pass f accuracy, (), s⟩
  | .newton => ∃ slope p, Opened f (f.slopeFor .newton r.slope) accuracy s slope p ∧
      l = ⟨Newton.Point α, Newton.pass f slope accuracy, p, s.sampled s.root⟩
  | .safeNewton => ∃ slope p, Opened f (f.slopeFor .safeNewton r.slope) accuracy s slope p ∧
      l = ⟨SafeNewton.Iterate α, SafeNewton.pass f slope accuracy,
        ⟨(SafeNewton.orient s.bracket).1, (SafeNewton.orient s.bracket).2, s.bracket.width,
          s.bracket.width, p⟩, s.sampled s.root⟩
  | .brent => ∃ fx, f.value s.root = .ok fx ∧ ¬Scalar.abs fx ≤ accuracy ∧
      let b := Brent.pickContrapoint s.bracket fx
      l = ⟨Brent.Iterate α, Brent.pass f accuracy, ⟨s.root, fx, s.root - b.xMax, s.root - b.xMax⟩,
        (s.sampled s.root).narrowed b⟩
  | .brentq => False

/-- A refinement begun in `s` comes to the head of its loop with a state in a session. -/
def ComesTo {σ : Type} (r : Refiner α) (f : Objective α) (limit : Nat) (accuracy : α) (s : Session α)
    (state : σ) (t : Session α) : Prop :=
  ∃ (pass : σ → Solve α (Pass σ (Result α))) (first : σ) (u : Session α),
    r.Enters f accuracy s ⟨σ, pass, first, u⟩ ∧ (⟨σ, pass, first, u⟩ : Loop α).Head limit state t

/-- A refinement ends where it begins, with the accuracy met or in a fault, or else as its loop does. -/
theorem ensures_refine {r : Refiner α} (hr : r.method ≠ .brentq) {f : Objective α} {limit : Nat}
    {accuracy : α} {s : Session α} {P : Result α → Session α → Prop} {E : Fault α → Session α → Prop}
    (hconverged : ∀ fx, f.value s.root = .ok fx → Scalar.abs fx ≤ accuracy →
      P ((s.sampled s.root).converged s.root r.name) (s.sampled s.root))
    (hvalue : ∀ fault, f.value s.root = .error fault → E fault (s.sampled s.root))
    (hslopes : r.method.usesSlope → ∀ fault, f.slopeFor r.method r.slope = .error fault → E fault s)
    (hslope : r.method.usesSlope → ∀ slope fault, f.slopeFor r.method r.slope = .ok slope →
      slope s.root = .error fault → E fault (s.sampled s.root))
    (hloop : ∀ l, r.Enters f accuracy s l → (l.run limit r.name).Ensures l.session P E) :
    (r.refine f limit accuracy).Ensures s P E := by
  obtain ⟨method, supplied⟩ := r
  -- the methods with a derivative open alike
  have hopens (huses : method.usesSlope) (next : Slope α → Newton.Point α → Prop)
      (hnext : ∀ slope p, Opened f (f.slopeFor method supplied) accuracy s slope p → next slope p) :
      Opens f (f.slopeFor method supplied) accuracy method.name s P E next := by
    refine ⟨fun slope hs => ⟨fun fx hfx => ⟨fun dfx hdfx => ⟨?_, fun hmiss => ?_⟩, ?_⟩, hvalue⟩, ?_⟩
    · exact hconverged fx hfx
    · exact hnext slope ⟨s.root, fx, dfx⟩ ⟨hs, rfl, hfx, hdfx, hmiss⟩
    · exact fun fault => hslope huses slope fault hs
    · exact hslopes huses
  cases method with
  | bisection => exact hloop _ rfl
  | falsePosition => exact hloop _ rfl
  | ridder => exact hloop _ rfl
  | brentq => exact absurd rfl hr
  | secant =>
    show (Secant.refine f limit accuracy).Ensures s P E
    rw [Secant.ensures_refine]
    exact hloop _ rfl
  | newton =>
    show (Newton.refine f supplied limit accuracy).Ensures s P E
    rw [Newton.ensures_refine]
    exact hopens rfl _ fun slope p h => hloop _ ⟨slope, p, h, rfl⟩
  | safeNewton =>
    show (SafeNewton.refine f supplied limit accuracy).Ensures s P E
    rw [SafeNewton.ensures_refine]
    exact hopens rfl _ fun slope p h => hloop _ ⟨slope, p, h, rfl⟩
  | brent =>
    show (Brent.refine f limit accuracy).Ensures s P E
    rw [Brent.ensures_refine]
    refine ⟨fun fx hfx => ⟨hconverged fx hfx, fun hmiss => ?_⟩, hvalue⟩
    exact hloop _ ⟨fx, hfx, hmiss, rfl⟩

end Refiner

end RootSearch
