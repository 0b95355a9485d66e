import RootSearch.Proofs.Strategy
/-!
# Calls and charges while refining

A refinement charges every call of the objective once, so what a search has charged beyond its calls
stays as it is. A pass begins within the budget, so a method overruns it by no more than the calls of
one pass, and the search by tolerance by none if its strategy keeps to the calls that it is allowed.
-/

namespace RootSearch

open Solve

/-- What an event tells of an expansion: the side, and the bracket that it led to. -/
def Event.expansion? {α : Type} : Event α → Option (Side × Bracket α)
  | .expanded side bracket => some (side, bracket)
  | _ => none

/-- The expansions in a log. -/
def Session.expansions {α : Type} (s : Session α) : List (Side × Bracket α) :=
  s.events.toList.filterMap Event.expansion?

theorem Session.expansions_logged {α : Type} (s : Session α) (event : Event α) :
    (s.logged event).expansions = s.expansions ++ event.expansion?.toList := by
  simp only [Session.expansions, Session.logged_events, Array.toList_push, List.filterMap_append]
  cases h : event.expansion? <;> simp [h]

theorem Session.expansions_logged_of_none {α : Type} {s : Session α} {event : Event α}
    (h : event.expansion? = none) : (s.logged event).expansions = s.expansions := by
  rw [expansions_logged, h]
  exact List.append_nil _

/-- From `s` to `t` every call was charged once and no bracket was expanded, and no more than `most`
was charged in all. -/
structure Session.Spends {α : Type} (most : Int) (s t : Session α) : Prop where
  surplus : t.evaluations - t.samples.size = s.evaluations - s.samples.size
  expansions : t.expansions = s.expansions
  bound : t.evaluations ≤ most

namespace Session.Spends

variable {α : Type} {n m : Int} {s t u : Session α}

theorem refl (h : s.evaluations ≤ n) : s.Spends n s := ⟨rfl, rfl, h⟩

theorem mono (h : s.Spends n t) (hle : n ≤ m) : s.Spends m t :=
  ⟨h.surplus, h.expansions, Int.le_trans h.bound hle⟩

theorem trans (h : s.Spends n t) (h' : t.Spends m u) : s.Spends m u :=
  ⟨h'.surplus.trans h.surplus, h'.expansions.trans h.expansions, h'.bound⟩

theorem sampled (h : s.Spends n t) (x : α) : s.Spends (n + 1) (t.sampled x) := by
  refine ⟨?_, h.expansions, Int.add_le_add_right h.bound 1⟩
  have := h.surplus
  simp only [Session.sampled_evaluations, Session.sampled_samples, Array.size_push]
  omega

theorem visited (h : s.Spends n t) (x : α) : s.Spends (n + 1) (t.visited x) :=
  ⟨(h.sampled x).surplus, h.expansions, (h.sampled x).bound⟩

theorem narrowed (h : s.Spends n t) (b : Bracket α) : s.Spends n (t.narrowed b) :=
  ⟨h.surplus, h.expansions, h.bound⟩

theorem located (h : s.Spends n t) (x : α) : s.Spends n (t.located x) :=
  ⟨h.surplus, h.expansions, h.bound⟩

theorem logged (h : s.Spends n t) {event : Event α} (he : event.expansion? = none) :
    s.Spends n (t.logged event) := by
  refine ⟨h.surplus, ?_, h.bound⟩
  rw [Session.expansions_logged_of_none he, h.expansions]

end Session.Spends

/-! ## What a pass spends -/

/-- A pass from `s` charges up to `most` in all, and a result reports what was charged. -/
abbrev Charges {α σ : Type} (most : Int) (s : Session α) (p : Pass σ (Result α)) (t : Session α) :
    Prop :=
  s.Spends most t ∧ p.Keeps (fun _ => True) fun r => r.evaluations = t.evaluations

/-- A method charges up to `most` in all, and its result reports what was charged. -/
abbrev RefinesOn {α : Type} (most : Int) (m : Solve α (Result α)) (s : Session α) : Prop :=
  m.Ensures s (fun r t => s.Spends most t ∧ r.evaluations = t.evaluations) fun _ t => s.Spends most t

/-- What was spent before a method is added to what it spends. -/
theorem RefinesOn.after {α : Type} {n most : Int} {m : Solve α (Result α)} {s t : Session α}
    (h : RefinesOn most m t) (hs : s.Spends n t) :
    m.Ensures t (fun r u => s.Spends most u ∧ r.evaluations = u.evaluations)
      fun _ u => s.Spends most u :=
  h.mono (fun _ _ hu => ⟨hs.trans hu.1, hu.2⟩) fun _ _ hu => hs.trans hu

section Passes

variable {α σ : Type} [Scalar α] {f : Objective α} {accuracy x fx : α} {method : String}
variable {n m : Int} {s t : Session α}

@[simp] theorem collapsed_evaluations :
    (s.collapsed x fx method accuracy).evaluations = s.evaluations := by
  simp only [Session.collapsed]
  split <;> rfl

theorem visits_charges {next : α → Prop} (h : s.Spends n t) (hm : n + 1 ≤ m)
    (hnext : ∀ fx, next fx) :
    Visits f accuracy method x t (Charges m s : Pass σ (Result α) → Session α → Prop)
      (fun _ u => s.Spends m u) next :=
  ⟨fun fx _ => ⟨fun _ => ⟨(h.visited x).mono hm, rfl⟩, fun _ => hnext fx⟩,
    fun _ _ => (h.sampled x).mono hm⟩

theorem visitsWithSlope_charges {slope : Slope α} {next : Newton.Point α → Prop} (h : s.Spends n t)
    (hm : n + 1 ≤ m) (hnext : ∀ p, next p) :
    VisitsWithSlope f slope accuracy method x t
      (Charges m s : Pass σ (Result α) → Session α → Prop) (fun _ u => s.Spends m u) next := by
  have hvisited := (h.visited x).mono hm
  exact ⟨fun fx _ => ⟨fun dfx _ => ⟨fun _ => ⟨hvisited, rfl⟩, fun _ => hnext ⟨x, fx, dfx⟩⟩,
    fun _ _ => hvisited⟩, fun _ _ => hvisited⟩

theorem settles_charges {isSmall : Prop} {state : σ} (h : s.Spends n t) :
    Settles isSmall x fx method accuracy state t (Charges n s) :=
  ⟨fun _ => ⟨h.located _, collapsed_evaluations⟩, fun _ => ⟨h, trivial⟩⟩

omit [Scalar α] in
/-- A loop whose passes end with no more than `most` charged does so too. -/
theorem whileBudget_refinesOn {limit : Nat} {pass : σ → Solve α (Pass σ (Result α))} {state : σ}
    (hpass : ∀ state (t : Session α), t.evaluations ≤ limit →
      (pass state).Ensures t (Charges m t) fun _ u => t.Spends m u)
    (hs : s.evaluations ≤ m) :
    RefinesOn m (whileBudget limit pass (exhausted limit method) state) s := by
  refine ensures_whileBudget (I := fun _ t => s.Spends m t) (fun state t h hb => ?_)
    (fun _ t h => ?_) (.refl hs)
  · have hle : t.evaluations ≤ limit := by simpa [Session.hasBudget] using hb
    refine (hpass state t hle).mono (fun p u hp => ?_) fun _ u hu => h.trans hu
    cases p with
    | again state => exact h.trans hp.1
    | stop r => exact ⟨h.trans hp.1, hp.2⟩
  · rw [ensures_exhausted]
    exact ⟨h, rfl⟩

end Passes

/-! ## The methods -/

/-- How often a pass calls the objective at most. -/
def Method.callsPerPass : Method → Nat
  | .ridder => 2
  | _ => 1

theorem Method.callsPerPass_le (method : Method) : method.callsPerPass ≤ 2 := by
  cases method <;> decide

section Methods

variable {α : Type} [Scalar α] {f : Objective α} {accuracy : α} {limit : Nat} {most : Int}
variable {s : Session α}

theorem Bisection.refine_refinesOn (hmost : limit + 1 ≤ most) (hs : s.evaluations ≤ most) :
    RefinesOn most (refine f limit accuracy) s := by
  refine whileBudget_refinesOn (fun u t ht => ?_) hs
  rw [ensures_pass]
  have hbegin : t.Spends limit t := .refl ht
  exact visits_charges hbegin hmost fun fMid =>
    settles_charges (((hbegin.visited _).mono hmost).narrowed _)

theorem FalsePosition.refine_refinesOn (hmost : limit + 1 ≤ most) (hs : s.evaluations ≤ most) :
    RefinesOn most (refine f limit accuracy) s := by
  refine whileBudget_refinesOn (fun previous t ht => ?_) hs
  rw [ensures_pass]
  have hbegin : t.Spends limit t := .refl ht
  refine ⟨fun x _ => ?_, fun _ _ => hbegin.mono (by omega)⟩
  exact visits_charges hbegin hmost fun fx =>
    settles_charges (((hbegin.visited x).mono hmost).narrowed _)

theorem Secant.refine_refinesOn (hmost : limit + 1 ≤ most) (hs : s.evaluations ≤ most) :
    RefinesOn most (refine f limit accuracy) s := by
  rw [RefinesOn, ensures_refine]
  refine whileBudget_refinesOn (fun p t ht => ?_) hs
  rw [ensures_pass]
  have hbegin : t.Spends limit t := .refl ht
  have hidle : t.Spends most t := hbegin.mono (by omega)
  refine ⟨fun _ => ⟨hidle, rfl⟩, fun _ => ⟨fun d _ => ?_, fun _ _ => hidle⟩⟩
  exact visits_charges hbegin hmost fun fx =>
    settles_charges (((hbegin.visited _).mono hmost).narrowed _)

/-- The only method whose passes call the objective twice. -/
theorem Ridder.refine_refinesOn (hmost : limit + 2 ≤ most) (hs : s.evaluations ≤ most) :
    RefinesOn most (refine f limit accuracy) s := by
  refine whileBudget_refinesOn (fun u t ht => ?_) hs
  rw [ensures_pass]
  have hbegin : t.Spends limit t := .refl ht
  have hmid := hbegin.visited t.bracket.midpoint
  have hidle : t.Spends most (t.visited t.bracket.midpoint) := hmid.mono (by omega)
  refine visits_charges hbegin (by omega) fun fMid => ⟨fun scale _ => ?_, fun _ _ => hidle⟩
  refine ⟨fun _ => ⟨hidle.located _, collapsed_evaluations⟩, fun _ => ⟨fun x _ => ?_, fun _ _ => hidle⟩⟩
  exact visits_charges hmid (by omega) fun fx =>
    settles_charges (((hmid.visited x).mono (by omega)).narrowed _)

theorem opens_charges {slopes : Except (Fault α) (Slope α)} {method : String}
    {next : Slope α → Newton.Point α → Prop} (hs : s.evaluations + 1 ≤ most)
    (h : ∀ slope p, next slope p) :
    Opens f slopes accuracy method s
      (fun r t => s.Spends most t ∧ r.evaluations = t.evaluations)
      (fun _ t => s.Spends most t) next := by
  have hbegin : s.Spends s.evaluations s := .refl (Int.le_refl _)
  have hidle : s.Spends most s := hbegin.mono (by omega)
  have ht : s.Spends most (s.sampled s.root) := (hbegin.sampled _).mono hs
  refine ⟨fun slope _ => ⟨fun fx _ => ⟨fun dfx _ => ?_, fun _ _ => ht⟩, fun _ _ => ht⟩,
    fun _ _ => hidle⟩
  exact ⟨fun _ => ⟨ht, rfl⟩, fun _ => h slope ⟨s.root, fx, dfx⟩⟩

theorem Newton.refine_refinesOn (supplied : Option (Slope α)) (hmost : limit + 1 ≤ most)
    (hs : s.evaluations + 1 ≤ most) : RefinesOn most (refine f supplied limit accuracy) s := by
  have hp : s.Spends most (s.sampled s.root) :=
    ((Session.Spends.refl (Int.le_refl s.evaluations)).sampled _).mono hs
  rw [RefinesOn, ensures_refine]
  refine opens_charges hs fun slope p => RefinesOn.after ?_ hp
  refine whileBudget_refinesOn (fun p t ht => ?_) hp.bound
  rw [ensures_pass]
  have hbegin : t.Spends limit t := .refl ht
  have hidle : t.Spends most t := hbegin.mono (by omega)
  refine ⟨fun _ => ⟨hidle, rfl⟩, fun _ => ⟨fun dx _ => ?_, fun _ _ => hidle⟩⟩
  refine ⟨fun _ => ⟨hidle.located _, rfl⟩, fun _ => ?_⟩
  exact visitsWithSlope_charges hbegin hmost fun q => settles_charges ((hbegin.visited _).mono hmost)

theorem SafeNewton.refine_refinesOn (supplied : Option (Slope α)) (hmost : limit + 1 ≤ most)
    (hs : s.evaluations + 1 ≤ most) : RefinesOn most (refine f supplied limit accuracy) s := by
  have hp : s.Spends most (s.sampled s.root) :=
    ((Session.Spends.refl (Int.le_refl s.evaluations)).sampled _).mono hs
  rw [RefinesOn, ensures_refine]
  refine opens_charges hs fun slope p => RefinesOn.after ?_ hp
  refine whileBudget_refinesOn (fun i t ht => ?_) hp.bound
  rw [ensures_pass]
  have hbegin : t.Spends limit t := .refl ht
  refine ⟨fun (dx, x) _ => ?_, fun _ _ => hbegin.mono (by omega)⟩
  exact visitsWithSlope_charges hbegin hmost fun q =>
    settles_charges (((hbegin.visited _).mono hmost).narrowed _)

theorem Brent.refine_refinesOn (hmost : limit + 1 ≤ most) (hs : s.evaluations + 1 ≤ most) :
    RefinesOn most (refine f limit accuracy) s := by
  rw [RefinesOn, ensures_refine]
  have hp : s.Spends most (s.sampled s.root) :=
    ((Session.Spends.refl (Int.le_refl s.evaluations)).sampled _).mono hs
  refine ⟨fun fx _ => ⟨fun _ => ⟨hp, rfl⟩, fun _ => ?_⟩, fun _ _ => hp⟩
  refine RefinesOn.after ?_ (hp.narrowed (pickContrapoint (s.sampled s.root).bracket fx))
  refine whileBudget_refinesOn (fun i t ht => ?_) hp.bound
  rw [ensures_pass]
  rcases arrange t.bracket i with ⟨b, i⟩
  have hbegin : t.Spends limit ((t.narrowed b).located i.x) :=
    ((Session.Spends.refl ht).narrowed b).located i.x
  have hidle : t.Spends most ((t.narrowed b).located i.x) := hbegin.mono (by omega)
  refine ⟨fun _ => ⟨hidle, rfl⟩, fun _ => ⟨fun _ => ⟨hidle.located _, collapsed_evaluations⟩, fun _ => ?_⟩⟩
  refine ⟨fun (step, lastStep) _ => ?_, fun _ _ => hidle⟩
  -- the estimate becomes the previous one before the next is sampled
  have hkept := hbegin.narrowed { b with xMin := i.x, fMin := i.fx }
  exact visits_charges hkept hmost fun fx => ⟨(hkept.visited _).mono hmost, trivial⟩

end Methods

/-! ## Brent's method by tolerance -/

namespace Brentq

/-- The inquiry asks for no more than a number of values, whatever the answers are. -/
inductive Inquiry.AsksAtMost {α : Type} : Nat → Inquiry α → Prop
  | finish (n : Nat) (root : α) (isConverged : Bool) : AsksAtMost n (.finish root isConverged)
  | refuse (n : Nat) (fault : Fault α) : AsksAtMost n (.refuse fault)
  | ask {n : Nat} (x : α) {next : α → Inquiry α} (h : ∀ fx, AsksAtMost n (next fx)) :
      AsksAtMost (n + 1) (.ask x next)

/-- The strategy asks for the values at the two ends and one value a step at most. -/
def Strategy.IsThrifty {α : Type} (strategy : Strategy α) : Prop :=
  ∀ a b tolerance steps, (strategy a b tolerance steps).AsksAtMost (2 + steps)

/-- An inquiry is charged for what it asks. -/
theorem Inquiry.AsksAtMost.run_spends {α : Type} {f : Objective α} {s t : Session α} {m : Int}
    {n : Nat} {inquiry : Inquiry α} (h : inquiry.AsksAtMost n) (samples : List (α × α))
    (ht : s.Spends m t) :
    (inquiry.run f samples).Ensures t (fun _ u => s.Spends (m + n) u)
      fun _ u => s.Spends (m + n) u := by
  induction h generalizing samples t m with
  | finish n root isConverged => exact ht.mono (by omega)
  | refuse n fault => exact ht.mono (by omega)
  | @ask n x next h ih =>
    simp only [Inquiry.run, ensures_bind, ensures_sample]
    have hx := ht.sampled x
    refine ⟨fun fx _ => ?_, fun _ _ => hx.mono (by omega)⟩
    exact (ih fx _ hx).mono (fun _ u hu => hu.mono (by omega)) fun _ u hu => hu.mono (by omega)

variable {α : Type} [Scalar α] {f : Objective α} {accuracy : α} {limit : Nat} {most : Int}
variable {s t : Session α}

theorem askNumber_asksAtMost {n : Nat} {x : α} {next : α → Inquiry α}
    (h : ∀ fx, (next fx).AsksAtMost n) : (askNumber x next).AsksAtMost (n + 1) := by
  refine .ask x fun fx => ?_
  split
  · exact .refuse n _
  · exact h fx

/-- From a search state at most as many values are asked as steps are allowed. -/
theorem inquiryFrom_asksAtMost (tolerance : α) (steps : Nat) (i : Search α) :
    (inquiryFrom tolerance steps i).AsksAtMost steps := by
  induction steps generalizing i with
  | zero => exact .finish 0 _ _
  | succ steps ih =>
    simp only [inquiryFrom]
    split
    · exact .finish _ _ _
    · exact askNumber_asksAtMost fun fx => ih _

theorem strategy_isThrifty : (strategy : Strategy α).IsThrifty := by
  intro a b tolerance steps
  rw [Nat.add_comm]
  unfold strategy
  -- the refusals are decided before the first value is asked for
  split
  · exact .refuse _ _
  split
  · exact .refuse _ _
  refine askNumber_asksAtMost fun fa => askNumber_asksAtMost fun fb => ?_
  split
  · exact .finish _ _ _
  split
  · exact .finish _ _ _
  split
  · exact .refuse _ _
  · exact inquiryFrom_asksAtMost tolerance steps _

theorem polish_refinesOn (hmost : limit + 1 ≤ most) (hs : s.evaluations + 1 ≤ most) :
    RefinesOn most (polish f limit accuracy) s := by
  simp only [polish, ensures_bind, ensures_pure]
  exact Brent.refine_refinesOn hmost hs

/-- The search leaves what is left of the budget, and only the polish can overrun it. -/
theorem refineBy_refinesOn {strategy : Strategy α} (hstrategy : strategy.IsThrifty)
    (hmost : limit + 1 ≤ most) (hs : s.evaluations + 1 ≤ most) :
    RefinesOn most (refineBy strategy f limit accuracy) s := by
  rw [RefinesOn, ensures_refineBy]
  refine ⟨fun _ => polish_refinesOn hmost hs, fun hsteps => ?_⟩
  -- the two ends and the steps use up what is left exactly
  have hleft : s.evaluations + (2 + (limit - s.evaluations - 2).toNat : Nat) = (limit : Int) := by omega
  have hsearch := (hstrategy (ordered s.bracket).1 (ordered s.bracket).2 accuracy
    (limit - s.evaluations - 2).toNat).run_spends (f := f) [] (.refl (Int.le_refl s.evaluations))
  rw [hleft] at hsearch
  refine hsearch.mono (fun r t ht => ?_) fun _ t ht => ht.mono (by omega)
  have hused := (ht.narrowed (replay t.bracket r.samples.reverse)).located r.root
  refine ⟨fun _ => ⟨hused.mono (by omega), rfl⟩, fun _ => ?_⟩
  have hlogged := hused.logged
    (rfl : (Event.polishing r.root (replay t.bracket r.samples.reverse)).expansion? = none)
  exact RefinesOn.after (polish_refinesOn hmost (by have := hlogged.bound; omega)) hlogged

end Brentq

/-- Every method overruns its budget by no more than the calls of a pass. -/
theorem Refiner.refineBy_refinesOn {α : Type} [Scalar α] {f : Objective α} {accuracy : α}
    {limit : Nat} {most : Int} {s : Session α} {strategy : Brentq.Strategy α} (r : Refiner α)
    (hstrategy : r.method = .brentq → strategy.IsThrifty)
    (hmost : limit + r.method.callsPerPass ≤ most) (hs : s.evaluations + 1 ≤ most) :
    RefinesOn most (r.refineBy strategy f limit accuracy) s := by
  have hs' : s.evaluations ≤ most := by omega
  obtain ⟨method, slope⟩ := r
  cases method with
  | bisection => exact Bisection.refine_refinesOn hmost hs'
  | brent => exact Brent.refine_refinesOn hmost hs
  | brentq => exact Brentq.refineBy_refinesOn (hstrategy rfl) hmost hs
  | falsePosition => exact FalsePosition.refine_refinesOn hmost hs'
  | newton => exact Newton.refine_refinesOn slope hmost hs
  | safeNewton => exact SafeNewton.refine_refinesOn slope hmost hs
  | ridder => exact Ridder.refine_refinesOn hmost hs'
  | secant => exact Secant.refine_refinesOn hmost hs'

end RootSearch
