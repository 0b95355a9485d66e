import RootSearch.Proofs.ReportedEnds
import RootSearch.Proofs.Statuses
/-!
# The endings of a refinement

A refinement has four ways to end: with a root, with its budget spent, by a step that leads nowhere, or
because there is nothing left to narrow. Brent's method may do so in the name of another. Each ending
builds its result in one way, so what all results have in common is seen from the endings alone.
-/

namespace RootSearch

open Solve

/-- The status that a reason explains. A text explains none. -/
def Reason.status? {α : Type} : Reason α → Option Status
  | .none => some .converged
  | .text _ => Option.none
  | .invalidRange _ _ => some .invalidRange
  | .belowLowBound _ _ | .aboveHiBound _ _ => some .boundViolation
  | .guessAtMost _ _ | .guessAtLeast _ _ => some .guessOutOfRange
  | .notBracketed _ => some .rootNotBracketed
  | .searchSpent _ _ => some .bracketingFailed
  | .refinementSpent _ _ _ _ => some .maxEvaluationsExceeded
  | .collapsed _ _ _ _ _ => some .accuracyNotReached
  | .flatSecant _ _ _ _ | .zeroSlope _ _ _ | .leftRange _ _ _ => some .diverged

/-- The objective is `fx` at `x`. -/
abbrev Objective.Gives {α : Type} (f : Objective α) (x fx : α) : Prop := f.value x = .ok fx

variable {α σ : Type} [Scalar α] {P : α → α → Prop} {f : Objective α} {accuracy x fx : α}
variable {s : Session α} {r : Result α} {label : String}

/-- A result, under a name, of one of the ways in which a refinement ends. What collapses compares
points with their values, and `P` holds of all of them. -/
inductive Ending (P : α → α → Prop) (accuracy : α) : String → Result α → Prop
  | converged (s : Session α) (x : α) (name : String) : Ending P accuracy name (s.converged x name)
  | exhausted (s : Session α) (limit : Nat) (name : String) :
      Ending P accuracy name (s.exhausted limit name)
  | diverged (s : Session α) {reason : Reason α} (h : reason.status? = some .diverged) (x : α)
      (name : String) : Ending P accuracy name (s.fail .diverged reason name (some x))
  | collapsed {s : Session α} (hb : s.bracket.All P) {x fx : α} (hx : P x fx) (name : String) :
      Ending P accuracy name (s.collapsed x fx name accuracy)
  | renamed {other : String} {r : Result α} (h : Ending P accuracy other r) (name : String) :
      Ending P accuracy name { r with method := name }

theorem Ending.isRefined {P : α → α → Prop} (h : Ending P accuracy label r) : r.IsRefined := by
  induction h with
  | converged s x name => exact .inl rfl
  | exhausted s limit name => exact .inr (.inr (.inl rfl))
  | diverged s hreason x name => exact diverged_isRefined
  | collapsed hb hx name => exact collapsed_isRefined
  | renamed h name ih => exact ih

theorem Ending.status_ne {P : α → α → Prop} {status : Status} (h : Ending P accuracy label r)
    (hstatus : ¬status.IsRefined) : r.status ≠ status := by
  rintro rfl
  exact hstatus h.isRefined

/-! ## Passes -/

/-- A pass goes on with points of which `P` holds, or stops with an ending. -/
abbrev KeepsEnding (P : α → α → Prop) (accuracy : α) (label : String) (I : σ → Prop)
    (p : Pass σ (Result α)) (t : Session α) : Prop :=
  p.Keeps (fun state => t.bracket.All P ∧ I state) (Ending P accuracy label)

section Passes

variable {I : σ → Prop}

theorem visits_ending {next : α → Prop} (h : ∀ fx, f.Gives x fx → next fx) :
    Visits f accuracy label x s (KeepsEnding P accuracy label I) (fun _ _ => True) next := by
  apply holds_of_values
  intro fx hfx
  exact ⟨fun _ => .converged _ x label, fun _ => h fx hfx⟩

theorem visitsWithSlope_ending {slope : Slope α} {next : Newton.Point α → Prop}
    (h : ∀ p : Newton.Point α, f.Gives x p.fx → next p) :
    VisitsWithSlope f slope accuracy label x s (KeepsEnding P accuracy label I) (fun _ _ => True)
      next := by
  apply holds_of_values
  intro fx hfx
  apply holds_of_values
  intro dfx _
  exact ⟨fun _ => .converged _ x label, fun _ => h ⟨x, fx, dfx⟩ hfx⟩

theorem settles_ending {isSmall : Prop} {state : σ} (hb : s.bracket.All P) (hx : P x fx)
    (hI : I state) :
    Settles isSmall x fx label accuracy state s (KeepsEnding P accuracy label I) :=
  ⟨fun _ => .collapsed hb hx label, fun _ => ⟨hb, hI⟩⟩

end Passes

/-! ## Refinements -/

/-- A computation ends by an ending, or in a fault. -/
abbrev Ends (P : α → α → Prop) (accuracy : α) (label : String) (m : Solve α (Result α))
    (s : Session α) : Prop :=
  m.Ensures s (fun result _ => Ending P accuracy label result) fun _ _ => True

theorem whileBudget_ends {I : σ → Prop} {pass : σ → Solve α (Pass σ (Result α))} {limit : Nat}
    {state : σ}
    (hpass : ∀ state s, s.bracket.All P → I state →
      (pass state).Ensures s (KeepsEnding P accuracy label I) fun _ _ => True)
    (hb : s.bracket.All P) (hI : I state) :
    Ends P accuracy label (whileBudget limit pass (exhausted limit label) state) s := by
  refine ensures_whileBudget (I := fun state s => s.bracket.All P ∧ I state)
    (fun state s h _ => hpass state s h.1 h.2) (fun _ s _ => ?_) ⟨hb, hI⟩
  rw [ensures_exhausted]
  exact .exhausted s limit label

theorem opens_ends {slopes : Except (Fault α) (Slope α)} {next : Slope α → Newton.Point α → Prop}
    (h : ∀ slope p, next slope p) :
    Opens f slopes accuracy label s (fun result _ => Ending P accuracy label result) (fun _ _ => True)
      next := by
  apply holds_of_values
  intro slope _
  apply holds_of_values
  intro fx _
  apply holds_of_values
  intro dfx _
  exact ⟨fun _ => .converged _ s.root label, fun _ => h slope ⟨s.root, fx, dfx⟩⟩

theorem Brent.refine_ends (limit : Nat) (hb : s.bracket.All f.Gives) :
    Ends f.Gives accuracy name (refine f limit accuracy) s := by
  rw [Ends, ensures_refine]
  apply holds_of_values
  intro fx hfx
  refine ⟨fun _ => .converged _ s.root name, fun _ => ?_⟩
  refine whileBudget_ends (I := fun i : Iterate α => f.Gives i.x i.fx) (fun i t ht hi => ?_)
    (pickContrapoint_all hb fx) hfx
  rw [ensures_pass]
  obtain ⟨hb, hi⟩ := arrange_all ht hi
  rcases e : arrange t.bracket i with ⟨b, i⟩
  rw [e] at hb hi
  refine ⟨fun _ => .converged _ i.x name, fun _ => ⟨fun _ => ?_, fun _ => ?_⟩⟩
  · exact .collapsed (s := (t.narrowed b).located i.x) hb hi name
  · apply holds_of_values
    intro (step, lastStep) _
    have hkept : ({ b with xMin := i.x, fMin := i.fx } : Bracket α).All f.Gives := ⟨hi, hb.max⟩
    exact visits_ending fun fx hfx => ⟨hkept, hfx⟩

/-- Every refinement by a method with passes of its own ends by an ending under its name. -/
theorem Refiner.native_ends {r : Refiner α} (hr : r.method ≠ .brentq) (limit : Nat)
    (hb : s.bracket.All f.Gives) : Ends f.Gives accuracy r.name (r.refine f limit accuracy) s := by
  obtain ⟨method, supplied⟩ := r
  cases method with
  | bisection =>
    refine whileBudget_ends (I := fun _ => True) (fun u t ht _ => ?_) hb trivial
    rw [Bisection.ensures_pass]
    exact visits_ending fun fx hx => settles_ending (ht.shrink hx) hx trivial
  | falsePosition =>
    refine whileBudget_ends (I := fun _ => True) (fun previous t ht _ => ?_) hb trivial
    rw [FalsePosition.ensures_pass]
    apply holds_of_values
    intro x _
    exact visits_ending fun fx hx => settles_ending (ht.shrink hx) hx trivial
  | secant =>
    show Ends f.Gives accuracy Secant.name (Secant.refine f limit accuracy) s
    rw [Ends, Secant.ensures_refine]
    refine whileBudget_ends (I := fun _ => True) (fun p t ht _ => ?_) hb trivial
    rw [Secant.ensures_pass]
    refine ⟨fun _ => .diverged t rfl p.x _, fun _ => ?_⟩
    apply holds_of_values
    intro d _
    exact visits_ending fun fx hx => settles_ending (ht.shrink hx) hx trivial
  | ridder =>
    refine whileBudget_ends (I := fun _ => True) (fun u t ht _ => ?_) hb trivial
    rw [Ridder.ensures_pass]
    apply visits_ending
    intro fMid hmid
    apply holds_of_values
    intro scale _
    refine ⟨fun _ => .collapsed (s := t.visited _) ht hmid _, fun _ => ?_⟩
    apply holds_of_values
    intro x _
    exact visits_ending fun fx hx => settles_ending (Ridder.narrow_all ht hmid hx) hx trivial
  | newton =>
    show Ends f.Gives accuracy Newton.name (Newton.refine f supplied limit accuracy) s
    rw [Ends, Newton.ensures_refine]
    refine opens_ends fun slope p => ?_
    refine whileBudget_ends (I := fun _ => True) (fun p t ht _ => ?_) (s := s.sampled s.root) hb trivial
    rw [Newton.ensures_pass]
    refine ⟨fun _ => .diverged t rfl p.x _, fun _ => ?_⟩
    apply holds_of_values
    intro dx _
    refine ⟨fun _ => .diverged (t.located _) rfl _ _, fun _ => ?_⟩
    exact visitsWithSlope_ending fun q hx => settles_ending ht hx trivial
  | safeNewton =>
    show Ends f.Gives accuracy SafeNewton.name (SafeNewton.refine f supplied limit accuracy) s
    rw [Ends, SafeNewton.ensures_refine]
    refine opens_ends fun slope p => ?_
    refine whileBudget_ends (I := fun _ => True) (fun i t ht _ => ?_) (s := s.sampled s.root) hb trivial
    rw [SafeNewton.ensures_pass]
    apply holds_of_values
    intro (dx, x) _
    exact visitsWithSlope_ending fun q hx => settles_ending (ht.shrink hx) hx trivial
  | brent => exact Brent.refine_ends limit hb
  | brentq => exact absurd rfl hr

/-! ### The search by tolerance -/

theorem Brentq.polish_ends (limit : Nat) (hb : s.bracket.All f.Gives) :
    Ends f.Gives accuracy name (polish f limit accuracy) s := by
  simp only [Ends, polish, ensures_bind, ensures_pure]
  exact (Brent.refine_ends limit hb).mono (fun _ _ h => h.renamed name) fun _ _ h => h

theorem Brentq.refineBy_ends (strategy : Strategy α) (limit : Nat) (hs : s.Genuine f) :
    Ends f.Gives accuracy name (refineBy strategy f limit accuracy) s := by
  rw [Ends, ensures_refineBy]
  refine ⟨fun _ => polish_ends limit (hs.imp fun _ _ h => h.value), fun _ => ?_⟩
  refine (run_genuine _ hs (by simp)).mono (fun found t h => ?_) fun _ _ h => h
  refine ⟨fun _ => .converged _ found.root name, fun _ => polish_ends limit ?_⟩
  -- the finish starts from the samples of the search, whatever its strategy asked for
  have hb : t.bracket.All f.Gives := h.1.imp fun _ _ h => h.value
  exact replay_all hb fun p hp => (h.2 p (List.mem_reverse.1 hp)).value

/-- Every refinement ends by an ending under the name of its method. -/
theorem Refiner.refineBy_ends (strategy : Brentq.Strategy α) (r : Refiner α) (limit : Nat)
    (hs : s.Genuine f) : Ends f.Gives accuracy r.name (r.refineBy strategy f limit accuracy) s := by
  by_cases hr : r.method = .brentq
  · have hname : r.name = Brentq.name := congrArg Method.name hr
    rw [hname]
    unfold refineBy
    rw [hr]
    exact Brentq.refineBy_ends strategy limit hs
  · rw [refineBy_native hr]
    exact native_ends hr limit (hs.imp fun _ _ h => h.value)

/-! ## Solves -/

/-- A result that is no refinement's is an answer of the search. -/
theorem Entry.solveBy_of_search {settings : Settings α} {Q : Result α → Session α → Prop}
    (strategy : Brentq.Strategy α) (r : Refiner α) (entry : Entry α)
    (hsearch : (entry.search f settings accuracy r.name).Ensures .start
      (fun outcome t => ∀ result, outcome = .answered result → Q result t) fun _ _ => True) :
    (entry.solveBy strategy r f settings accuracy).Ensures .start
      (fun result t => ¬result.IsRefined → Q result t) fun _ _ => True := by
  rw [ensures_solveBy]
  refine (hsearch.and entry.search_genuine).mono (fun outcome t h => ?_) fun _ _ _ => trivial
  refine outcome.ensures_refineBy.2 ⟨fun result e _ => h.1 result e, fun e => ?_⟩
  exact (r.refineBy_ends strategy settings.maxEvaluations (h.2 e)).mono
    (fun _ _ hends hnot => absurd hends.isRefined hnot) fun _ _ h => h

end RootSearch
