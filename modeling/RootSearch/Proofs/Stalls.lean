import Mathlib
import RootSearch.Proofs.DoubleDistance
import RootSearch.Proofs.ReportedEnds
import RootSearch.Proofs.SignsKept
import RootSearch.Proofs.Statuses
/-!
# What a small step says of the bracket

False position, the secant method and the safeguarded Newton method give up when their last step is too
small to matter. The step leads to an end of the bracket. If it comes from the other end, the bracket has
collapsed. But it may come from a point on the same side of zero, and then the bracket is as wide as the
last sample on the other side has left it.
-/

namespace RootSearch

open Solve

variable {α σ : Type} [Scalar α]

/-! ## Ends -/

namespace Bracket

variable {b : Bracket α} {x y fx fy : α}

/-- One of the ends is `x`, with the value `fx`. -/
def HasEnd (b : Bracket α) (x fx : α) : Prop := b.xMin = x ∧ b.fMin = fx ∨ b.xMax = x ∧ b.fMax = fx

/-- The ends are `x` and `y`. -/
def Joins (b : Bracket α) (x y : α) : Prop := b.xMin = x ∧ b.xMax = y ∨ b.xMin = y ∧ b.xMax = x

/-- The ends are `p` and `q`, each with its value. -/
def Spans (b : Bracket α) (p q : α × α) : Prop := b = ⟨p.1, q.1, p.2, q.2⟩ ∨ b = ⟨q.1, p.1, q.2, p.2⟩

omit [Scalar α] in
theorem Joins.symm (h : b.Joins x y) : b.Joins y x := Or.symm h

omit [Scalar α] in
theorem Spans.symm {p q : α × α} (h : b.Spans p q) : b.Spans q p := Or.symm h

omit [Scalar α] in
theorem Spans.joins {p q : α × α} (h : b.Spans p q) : b.Joins p.1 q.1 := by
  rcases h with rfl | rfl
  · exact .inl ⟨rfl, rfl⟩
  · exact .inr ⟨rfl, rfl⟩

omit [Scalar α] in
theorem HasEnd.spans (h : b.HasEnd x fx) : ∃ p, b.Spans p (x, fx) := by
  rcases h with ⟨rfl, rfl⟩ | ⟨rfl, rfl⟩
  · exact ⟨(b.xMax, b.fMax), .inr rfl⟩
  · exact ⟨(b.xMin, b.fMin), .inl rfl⟩

theorem Spans.straddles_iff {p q : α × α} (h : b.Spans p q) : b.Straddles ↔ Opposite p.2 q.2 := by
  rcases h with rfl | rfl
  · exact Iff.rfl
  · exact ⟨Opposite.symm, Opposite.symm⟩

omit [Scalar α] in
theorem All.hasEnd {P : α → α → Prop} (h : b.All P) (hx : b.HasEnd x fx) : P x fx := by
  rcases hx with ⟨rfl, rfl⟩ | ⟨rfl, rfl⟩
  · exact h.min
  · exact h.max

theorem shrink_hasEnd (b : Bracket α) (x fx : α) : (b.shrink x fx).HasEnd x fx := by
  unfold shrink
  split
  · exact .inl ⟨rfl, rfl⟩
  · exact .inr ⟨rfl, rfl⟩

/-- A sample on the other side of zero from an end leaves that end and becomes the other. -/
theorem Spans.shrink [LawfulScalar α] {p q : α × α} (h : b.Spans p q) (hpq : Opposite p.2 q.2)
    (hx : Opposite fx q.2) : (b.shrink x fx).Spans (x, fx) q := by
  have hp := (hpq.signed.1.opposite_iff hpq.signed.2).1 hpq
  have hq := (hx.signed.1.opposite_iff hx.signed.2).1 hx
  unfold Bracket.shrink
  rcases h with rfl | rfl
  · have hsame : fx < 0.0 ↔ p.2 < 0.0 := by tauto
    rw [if_pos (decide_eq_decide.2 hsame)]
    exact .inl rfl
  · rw [if_neg (mt decide_eq_decide.1 hq)]
    exact .inr rfl

theorem Straddles.shrink_joins [LawfulScalar α] (hb : b.Straddles) (hy : b.HasEnd y fy)
    (h : Opposite fx fy) : (b.shrink x fx).Joins x y := by
  obtain ⟨p, hspans⟩ := hy.spans
  exact (hspans.shrink (hspans.straddles_iff.1 hb) h).joins

/-- If the better of two points misses, so do both. -/
theorem closer_misses [LawfulScalar α] {accuracy : α} {p q : α × α}
    (hp : Scalar.abs p.2 ≤ Scalar.abs p.2) (hq : Scalar.abs q.2 ≤ Scalar.abs q.2)
    (h : ¬Scalar.abs (closer p q).2 ≤ accuracy) :
    ¬Scalar.abs p.2 ≤ accuracy ∧ ¬Scalar.abs q.2 ≤ accuracy := by
  unfold closer at h
  split at h
  · next hlt => exact ⟨mt (Scalar.le_trans (Scalar.le_of_lt hlt)) h, h⟩
  · next hle => exact ⟨h, mt (Scalar.le_trans (Scalar.not_lt hq hp hle)) h⟩

theorem best_misses [LawfulScalar α] {accuracy : α} {p : α × α}
    (hb : b.All fun _ fx => Scalar.isNaN fx = false) (hp : Scalar.isNaN p.2 = false)
    (h : ¬Scalar.abs (b.best p).2 ≤ accuracy) : b.All fun _ fx => ¬Scalar.abs fx ≤ accuracy := by
  have hpoint := Scalar.abs_le_abs_of_number hp
  have hmin := Scalar.abs_le_abs_of_number hb.min
  have hfirst : Scalar.abs (closer p (b.xMin, b.fMin)).2 ≤ Scalar.abs (closer p (b.xMin, b.fMin)).2 :=
    closer_all (P := fun _ y => Scalar.abs y ≤ Scalar.abs y) hpoint hmin
  obtain ⟨h, hmax⟩ := closer_misses hfirst (Scalar.abs_le_abs_of_number hb.max) h
  exact ⟨(closer_misses hpoint hmin h).2, hmax⟩

end Bracket

/-! ## Steps -/

/-- How a method comes from `y` to `x` with the step `dx` that it holds against the resolution: false
position reads the step off the two points and the others take it. The safeguarded Newton method may
also go halfway from one end to the other, and then either end is a point that it comes from. -/
def Method.Steps (method : Method) (y dx x : α) : Prop :=
  match method with
  | .falsePosition => dx = x - y
  | .secant => x = y + dx
  | .safeNewton => x = y - dx ∨ x = y + dx ∨ ∃ z, dx = 0.5 * (y - z) ∧ x = z + dx
  | _ => False

/-- Where a method takes its first step from, if not from an end: false position from infinity, and the
safeguarded Newton method from the estimate that it is given. -/
def Method.BeginsAt (method : Method) (root y : α) : Prop :=
  match method with
  | .falsePosition => Scalar.infinity? = some y
  | .safeNewton => y = root
  | _ => False

/-- The objective was called at `y` before, and its values at `x` and `y` are not on opposite sides of
zero. -/
def Objective.SameSide (f : Objective α) (earlier : Array α) (x y : α) : Prop :=
  ∃ fx fy, f.value x = .ok fx ∧ Sampled f earlier y fy ∧ ¬Opposite fx fy

/-- The bracket straddles zero and misses the accuracy at both ends. A step too small to matter led from
`y` to an end `x` of it. The two points are its ends, unless `y` is an earlier sample on the same side of
zero or where the method began. -/
structure Bracket.Stalled (f : Objective α) (accuracy : α) (method : Method) (root : α)
    (earlier : Array α) (b : Bracket α) (x y dx : α) : Prop where
  straddles : b.Straddles
  misses : b.All fun x fx => f.value x = .ok fx ∧ ¬Scalar.abs fx ≤ accuracy
  isEnd : ∃ fx, b.HasEnd x fx
  step : method.Steps y dx x
  small : Scalar.abs dx ≤ Scalar.resolution x
  origin : b.Joins x y ∨ f.SameSide earlier x y ∨ method.BeginsAt root y

/-- A failure to reach the accuracy reports a bracket that stalled with the last sample, provided the
samples show their signs. -/
abbrev FailsStalled (f : Objective α) (accuracy : α) (method : Method) (root : α) (r : Result α)
    (t : Session α) : Prop :=
  r.status = .accuracyNotReached → Signing f accuracy t.samples →
    ∃ b earlier x y dx, r.bracket = some b ∧ t.samples = earlier.push x ∧
      b.Stalled f accuracy method root earlier x y dx

/-! ## Passes -/

/-- The bracket is sampled, and it straddles zero provided the samples show their signs. -/
structure Session.Sided (f : Objective α) (accuracy : α) (s : Session α) : Prop where
  genuine : s.Genuine f
  straddles : Signing f accuracy s.samples → s.bracket.Straddles

/-- The next step begins at an end of the bracket, or where the method began. -/
def Bracket.Departs (method : Method) (root : α) (b : Bracket α) (y : α) : Prop :=
  (∃ fy, b.HasEnd y fy) ∨ method.BeginsAt root y

/-- A pass goes on with a bracket that straddles zero, or fails with a stalled one. -/
abbrev KeepsSided (f : Objective α) (accuracy : α) (method : Method) (root : α)
    (I : σ → Bracket α → Prop) (p : Pass σ (Result α)) (t : Session α) : Prop :=
  p.Keeps (fun state => t.Sided f accuracy ∧ I state t.bracket) (FailsStalled f accuracy method root · t)

section Passes

variable {f : Objective α} {accuracy x fx root : α} {method : Method} {I : σ → Bracket α → Prop}
variable {s : Session α} {name : String}

theorem visits_sided {next : α → Prop}
    (h : ∀ fx, f.value x = .ok fx → ¬Scalar.abs fx ≤ accuracy → next fx) :
    Visits f accuracy name x s (KeepsSided f accuracy method root I) (fun _ _ => True) next := by
  apply holds_of_values
  intro fx hfx
  exact ⟨fun _ => nofun, h fx hfx⟩

theorem visitsWithSlope_sided {slope : Slope α} {next : Newton.Point α → Prop}
    (h : ∀ p : Newton.Point α, p.x = x → f.value x = .ok p.fx → ¬Scalar.abs p.fx ≤ accuracy → next p) :
    VisitsWithSlope f slope accuracy name x s (KeepsSided f accuracy method root I) (fun _ _ => True)
      next := by
  apply holds_of_values
  intro fx hfx
  apply holds_of_values
  intro dfx _
  exact ⟨fun _ => nofun, h ⟨x, fx, dfx⟩ rfl hfx⟩

variable [LawfulScalar α]

theorem Session.Sided.shrink (hs : s.Sided f accuracy) (hfx : f.value x = .ok fx)
    (hmiss : ¬Scalar.abs fx ≤ accuracy) :
    ((s.visited x).narrowed (s.bracket.shrink x fx)).Sided f accuracy where
  genuine := (Bracket.Genuine.push hs.genuine x).shrink (Sampled.latest _ hfx)
  straddles hsigning :=
    (hs.straddles hsigning.of_push).shrink_of_signed (hsigning.signed (Sampled.latest _ hfx) hmiss)

/-- A pass that narrows the bracket to its sample and stops with a small step has stalled. -/
theorem settles_sided {isSmall : Prop} {state : σ} (hs : s.Sided f accuracy) (hfx : f.value x = .ok fx)
    (hmiss : ¬Scalar.abs fx ≤ accuracy)
    (hstep : isSmall → ∃ y dx, method.Steps y dx x ∧ Scalar.abs dx ≤ Scalar.resolution x ∧
      ((s.bracket.shrink x fx).Joins x y ∨ s.bracket.Departs method root y))
    (hnext : I state (s.bracket.shrink x fx)) :
    Settles isSmall x fx name accuracy state ((s.visited x).narrowed (s.bracket.shrink x fx))
      (KeepsSided f accuracy method root I) := by
  have ht := hs.shrink hfx hmiss
  refine ⟨fun hsmall hstatus hsigning => ?_, fun _ => ⟨ht, hnext⟩⟩
  obtain ⟨y, dx, hsteps, hdx, hy⟩ := hstep hsmall
  have hnumber : Scalar.isNaN fx = false := hsigning.number (Sampled.latest s.samples hfx)
  have horigin : (s.bracket.shrink x fx).Joins x y ∨ f.SameSide s.samples x y ∨
      method.BeginsAt root y := by
    rcases hy with hjoins | ⟨fy, hy⟩ | hbegins
    · exact .inl hjoins
    · -- beyond zero from `y` the sample leaves `y` as the other end
      by_cases hopposite : Opposite fx fy
      · exact .inl ((hs.straddles hsigning.of_push).shrink_joins hy hopposite)
      · exact .inr (.inl ⟨fx, fy, hfx, hs.genuine.hasEnd hy, hopposite⟩)
    · exact .inr (.inr hbegins)
  simp only [Session.collapsed] at hstatus ⊢
  split at hstatus
  · cases hstatus
  · next hbest =>
    rw [if_neg hbest]
    have hmisses := Bracket.best_misses (ht.genuine.imp fun _ _ h => hsigning.number h) hnumber hbest
    exact ⟨s.bracket.shrink x fx, s.samples, x, y, dx, rfl, rfl, {
      straddles := ht.straddles hsigning
      misses := ⟨⟨ht.genuine.min.value, hmisses.min⟩, ⟨ht.genuine.max.value, hmisses.max⟩⟩
      isEnd := ⟨fx, s.bracket.shrink_hasEnd x fx⟩
      step := hsteps
      small := hdx
      origin := horigin }⟩

end Passes

/-! ## The methods -/

theorem Secant.ofBracket_hasEnd (b : Bracket α) :
    b.HasEnd (Points.ofBracket b).x (Points.ofBracket b).fx := by
  unfold Points.ofBracket
  split
  · exact .inl ⟨rfl, rfl⟩
  · exact .inr ⟨rfl, rfl⟩

namespace SafeNewton

variable {root dx x fx : α} {b : Bracket α} {i : Iterate α}

/-- The ends are in the order of their signs, and the estimate is one of them or where the method began. -/
def TracksEnds (root : α) (i : Iterate α) (b : Bracket α) : Prop :=
  (i.xLow, i.xHigh) = orient b ∧ b.Departs .safeNewton root i.point.x

theorem orient_joins (b : Bracket α) : b.Joins (orient b).1 (orient b).2 := by
  unfold orient
  split
  · exact .inl ⟨rfl, rfl⟩
  · exact .inr ⟨rfl, rfl⟩

theorem orient_shrink (b : Bracket α) (x fx : α) :
    orient (b.shrink x fx) = if fx < 0.0 then (x, (orient b).2) else ((orient b).1, x) := by
  by_cases hfx : fx < 0.0 <;> by_cases hmin : b.fMin < 0.0 <;> simp [orient, Bracket.shrink, hfx, hmin]

theorem next_tracksEnds {p : Newton.Point α} (dx : α) (hi : (i.xLow, i.xHigh) = orient b) :
    TracksEnds root (i.next dx p) (b.shrink p.x p.fx) := by
  have hp : (b.shrink p.x p.fx).Departs .safeNewton root p.x := .inl ⟨p.fx, b.shrink_hasEnd p.x p.fx⟩
  unfold Iterate.next TracksEnds
  rw [orient_shrink, ← hi]
  split
  · exact ⟨rfl, hp⟩
  · exact ⟨rfl, hp⟩

/-- A Newton step comes from the estimate, and a half step from the end that stays. -/
theorem advance_steps (hi : TracksEnds root i b) (h : advance i = .ok (dx, x)) (fx : α) :
    ∃ y, Method.safeNewton.Steps y dx x ∧
      ((b.shrink x fx).Joins x y ∨ b.Departs .safeNewton root y) := by
  unfold advance at h
  split at h
  · cases h
    have hjoins := orient_joins (b.shrink (i.xLow + 0.5 * (i.xHigh - i.xLow)) fx)
    rw [orient_shrink, ← hi.1] at hjoins
    split at hjoins
    · exact ⟨i.xHigh, .inr (.inr ⟨i.xLow, rfl, rfl⟩), .inl hjoins⟩
    · exact ⟨i.xLow, .inr (.inl rfl), .inl hjoins.symm⟩
  · rcases hq : Scalar.quotient i.point.fx i.point.slope with fault | q <;> rw [hq] at h
    · cases h
    · cases h
      exact ⟨i.point.x, .inl rfl, .inr hi.2⟩

end SafeNewton

section Methods

variable [LawfulScalar α] {f : Objective α} {accuracy root : α} {s : Session α}

/-- The state of a pass is an end, or where the method began. -/
theorem FalsePosition.pass_sided {previous : Option α} (hs : s.Sided f accuracy)
    (hprevious : ∀ y ∈ previous, s.bracket.Departs .falsePosition root y) :
    (pass f accuracy previous).Ensures s
      (KeepsSided f accuracy .falsePosition root fun previous b =>
        ∀ y ∈ previous, b.Departs .falsePosition root y)
      fun _ _ => True := by
  rw [ensures_pass]
  apply holds_of_values
  intro x _
  apply visits_sided
  intro fx hfx hmiss
  apply settles_sided hs hfx hmiss
  · intro hstalled
    obtain ⟨y, hy, hsmall⟩ := (Option.any_eq_true _ _).1 hstalled
    exact ⟨y, x - y, rfl, of_decide_eq_true hsmall, .inr (hprevious y hy)⟩
  · rintro y ⟨⟩
    exact .inl ⟨fx, s.bracket.shrink_hasEnd x fx⟩

theorem Secant.pass_sided {p : Points α} (hs : s.Sided f accuracy) (hp : s.bracket.HasEnd p.x p.fx) :
    (pass f accuracy p).Ensures s
      (KeepsSided f accuracy .secant root fun p b => b.HasEnd p.x p.fx) fun _ _ => True := by
  rw [ensures_pass]
  refine ⟨fun _ => nofun, fun _ => ?_⟩
  apply holds_of_values
  intro d _
  apply visits_sided
  intro fx hfx hmiss
  apply settles_sided hs hfx hmiss
  · exact fun hsmall => ⟨p.x, _, rfl, hsmall, .inr (.inl ⟨p.fx, hp⟩)⟩
  · exact s.bracket.shrink_hasEnd _ fx

theorem SafeNewton.pass_sided {slope : Slope α} {i : Iterate α} (hs : s.Sided f accuracy)
    (hi : TracksEnds root i s.bracket) :
    (pass f slope accuracy i).Ensures s (KeepsSided f accuracy .safeNewton root (TracksEnds root))
      fun _ _ => True := by
  rw [ensures_pass]
  apply holds_of_values
  intro (dx, x) hadvance
  apply visitsWithSlope_sided
  rintro p rfl hfx hmiss
  apply settles_sided hs hfx hmiss
  · intro hsmall
    obtain ⟨y, hsteps, hy⟩ := advance_steps hi hadvance p.fx
    exact ⟨y, dx, hsteps, hsmall, hy⟩
  · exact next_tracksEnds dx hi.1

end Methods

/-! ## Refinements -/

section Refinements

variable {f : Objective α} {accuracy root : α} {method : Method} {s : Session α}

theorem Loop.run_stalled {l : Loop α} {I : l.State → Bracket α → Prop} {limit : Nat} {name : String}
    (hpass : ∀ state t, t.Sided f accuracy → I state t.bracket →
      (l.pass state).Ensures t (KeepsSided f accuracy method root I) fun _ _ => True)
    (hl : l.session.Sided f accuracy) (hfirst : I l.first l.session.bracket) :
    (l.run limit name).Ensures l.session (FailsStalled f accuracy method root) fun _ _ => True := by
  apply ensures_whileBudget (I := fun state t => t.Sided f accuracy ∧ I state t.bracket)
  · intro state t ht _
    exact hpass state t ht.1 ht.2
  · intro _ t _
    rw [ensures_exhausted]
    exact nofun
  · exact ⟨hl, hfirst⟩

theorem Refiner.refine_stalled [LawfulScalar α] {r : Refiner α}
    (hr : r.method = .falsePosition ∨ r.method = .secant ∨ r.method = .safeNewton)
    (hs : s.Genuine f) (hb : s.bracket.Straddles) (limit : Nat) :
    (r.refine f limit accuracy).Ensures s (FailsStalled f accuracy r.method s.root)
      fun _ _ => True := by
  have hbrentq : r.method ≠ .brentq := by
    rcases hr with hr | hr | hr <;> rw [hr] <;> nofun
  refine ensures_refine hbrentq (fun _ _ _ => nofun) (fun _ _ => trivial) (fun _ _ _ => trivial)
    (fun _ _ _ _ _ => trivial) fun l hl => ?_
  have hsided : s.Sided f accuracy := ⟨hs, fun _ => hb⟩
  obtain ⟨method, supplied⟩ := r
  rcases hr with rfl | rfl | rfl
  · cases hl
    exact Loop.run_stalled (fun _ _ ht hp => FalsePosition.pass_sided ht hp) hsided fun _ hy => .inr hy
  · cases hl
    exact Loop.run_stalled (fun _ _ ht hp => Secant.pass_sided ht hp) hsided
      (Secant.ofBracket_hasEnd s.bracket)
  · obtain ⟨slope, p, hopened, rfl⟩ := hl
    refine Loop.run_stalled (fun _ _ ht hi => SafeNewton.pass_sided ht hi) ⟨?_, fun _ => hb⟩ ⟨rfl, ?_⟩
    · exact Bracket.Genuine.push hs s.root
    · exact .inr hopened.x

end Refinements

/-! ## Solves -/

theorem Entry.solve_stalled [LawfulScalar α] {r : Refiner α} {f : Objective α} {settings : Settings α}
    {accuracy : α} (hr : r.method = .falsePosition ∨ r.method = .secant ∨ r.method = .safeNewton)
    (entry : Entry α) :
    let found := ((entry.search f settings accuracy r.name).exec .start).2
    found.bracket.Straddles → (entry.solve r f settings accuracy).Ensures .start
      (FailsStalled f (Scalar.effectiveAccuracy accuracy) r.method found.root) fun _ _ => True := by
  intro found hb
  rcases hsearch : (entry.search f settings accuracy r.name).exec .start with ⟨fault | outcome, t⟩
  · rw [ensures_solve]
    unfold Ensures
    rw [hsearch]
    trivial
  · have hfound : found = t := congrArg Prod.snd hsearch
    rw [hfound] at hb ⊢
    rw [entry.ensures_solve_found hsearch]
    cases outcome with
    | answered result =>
      have hown := entry.search_isOwn.value hsearch
      exact fun hstatus => absurd hstatus (hown.ne_of_answered rfl (by decide) (by decide))
    | bracketed =>
      have hgenuine := entry.search_genuine.value hsearch rfl
      exact r.refine_stalled hr hgenuine hb settings.maxEvaluations

/-! ## Widths -/

namespace Bracket

/-- In exact arithmetic a stalled bracket has collapsed if the step joins its ends. -/
theorem Stalled.width_le {f : Objective ℝ} {accuracy root x y dx : ℝ} {method : Method}
    {earlier : Array ℝ} {b : Bracket ℝ} (h : b.Stalled f accuracy method root earlier x y dx)
    (hjoins : b.Joins x y) : b.width ≤ Scalar.resolution x := by
  have hstep : |x - y| = |dx| := by
    have hsteps := h.step
    unfold Method.Steps at hsteps
    split at hsteps
    · rw [hsteps]
    · rw [hsteps, add_sub_cancel_left]
    · rcases hsteps with rfl | rfl | ⟨z, hdx, rfl⟩
      · rw [sub_sub_cancel_left, abs_neg]
      · rw [add_sub_cancel_left]
      · have hback : z + dx - y = -dx := by
          rw [hdx]
          ring
        rw [hback, abs_neg]
    · exact hsteps.elim
  have hwidth : b.width = |x - y| := by
    rcases hjoins with ⟨rfl, rfl⟩ | ⟨rfl, rfl⟩
    · exact abs_sub_comm b.xMax b.xMin
    · rfl
  rw [hwidth, hstep]
  exact h.small

/-- The ends are as far apart, whichever is taken first. -/
theorem Joins.width_le {b : Bracket Double} {x y z : Double} (h : b.Joins x y)
    (hxy : Scalar.abs (x - y) ≤ z) : b.width ≤ z := by
  rcases h with ⟨rfl, rfl⟩ | ⟨rfl, rfl⟩
  · exact Double.distance_le_comm.1 hxy
  · exact hxy

end Bracket

/-- Let false position, the secant method or the safeguarded Newton method fail to reach the accuracy
after a search that has found values of strictly opposite signs. Let the sampled values be numbers, and
let none of them be zero if the accuracy is not a number. Then the values of the reported bracket have
strictly opposite signs and miss the accuracy, and a step too small to matter led to one of its ends, the
last sample. The step came from the other end, unless it came from an earlier sample on the same side of
zero or from where the method began. If it did, the bracket of false position is no wider than its end is
resolved. -/
theorem collapse_reports_small_step (r : Refiner Double) (f : Objective Double)
    (settings : Settings Double) (accuracy : Double) (entry : Entry Double) (result : Result Double)
    (hr : r.method = .falsePosition ∨ r.method = .secant ∨ r.method = .safeNewton) :
    let search := (entry.search f settings accuracy r.name).exec .start
    let solve := (entry.solve r f settings accuracy).exec .start
    search.2.bracket.Straddles → solve.1 = .ok result → result.status = .accuracyNotReached →
    (∀ x fx, Sampled f solve.2.samples x fx → Scalar.isNaN fx = false) →
    (Scalar.isNaN accuracy = true → ∀ x fx, Sampled f solve.2.samples x fx → ¬(fx == 0.0) = true) →
    ∃ b earlier x y dx, result.bracket = some b ∧ solve.2.samples = earlier.push x ∧
      b.Stalled f (Scalar.effectiveAccuracy accuracy) r.method search.2.root earlier x y dx ∧
      (r.method = .falsePosition → b.Joins x y → b.width ≤ Scalar.resolution x) := by
  intro search solve hb hresult hstatus hnumbers hzeros
  have hsigning : Signing f (Scalar.effectiveAccuracy accuracy) solve.2.samples :=
    .of_numbers hnumbers hzeros
  obtain ⟨b, earlier, x, y, dx, hbracket, hsamples, hstalled⟩ :=
    (entry.solve_stalled hr hb).answer hresult hstatus hsigning
  refine ⟨b, earlier, x, y, dx, hbracket, hsamples, hstalled, fun hmethod hjoins => hjoins.width_le ?_⟩
  have hstep := hstalled.step
  rw [hmethod] at hstep
  exact hstep ▸ hstalled.small

/-- A jump over zero to a large value, next to which false position hardly moves. -/
theorem collapse_reports_small_step_at_jump :
    let f : Objective Double := .ofTotal fun x => if x < 0.5 then -1.0 else 1e20
    let r : Refiner Double := ⟨.falsePosition, none⟩
    let entry : Entry Double := .inBracket 0.25 0.0 1.0
    let wide : Bracket Double := ⟨2e-20, 1.0, -1.0, 1e20⟩
    let search := (entry.search f {} 1e-9 r.name).exec .start
    let solve := (entry.solve r f {} 1e-9).exec .start
    ∃ b earlier x y dx, some wide = some b ∧ solve.2.samples = earlier.push x ∧
      b.Stalled f (Scalar.effectiveAccuracy 1e-9) r.method search.2.root earlier x y dx ∧
      (r.method = .falsePosition → b.Joins x y → b.width ≤ Scalar.resolution x) :=
  let wide : Bracket Double := ⟨2e-20, 1.0, -1.0, 1e20⟩
  have hnumber (x : Double) : Scalar.isNaN (if x < 0.5 then -1.0 else 1e20 : Double) = false := by
    split <;> decide +kernel
  have h := collapse_reports_small_step ⟨.falsePosition, none⟩
    (.ofTotal fun x => if x < 0.5 then -1.0 else 1e20) {} 1e-9 (.inBracket 0.25 0.0 1.0)
    { status := .accuracyNotReached, root := some 2e-20, evaluations := 4, method := "false_position",
      reason := .collapsed "false_position" (Scalar.effectiveAccuracy 1e-9) wide 2e-20 (-1.0),
      bracket := some wide } (.inl rfl)
  h (.inl ⟨by decide +kernel, by decide +kernel⟩) (by decide +kernel) rfl
    (fun x _ hx => Except.ok.inj hx.value ▸ hnumber x) fun haccuracy => absurd haccuracy (by decide +kernel)

/-- All three report a bracket nearly as wide as the one they were given. -/
theorem collapse_reports_wide_bracket :
    let f : Objective Double := .ofTotal fun x => if x < 0.5 then -1.0 else 1e20
    let report (method : Method) (slope : Option (Slope Double)) :=
      ((solveInBracket ⟨method, slope⟩ f {} 1e-9 0.25 0.0 1.0).exec .start).1.toOption.map
        fun result => (result.status, result.bracket)
    let wide (x : Double) : Bracket Double := ⟨x, 1.0, -1.0, 1e20⟩
    report .falsePosition none = some (.accuracyNotReached, some (wide 2e-20)) ∧
    report .secant none = some (.accuracyNotReached, some (wide 1e-20)) ∧
    report .safeNewton (some fun _ => .ok 1e20) = some (.accuracyNotReached, some (wide 0.25)) ∧
    ∀ x ∈ [2e-20, 1e-20, 0.25], ¬(wide x).width ≤ Scalar.resolution x ∧
      ¬(wide x).width ≤ Scalar.resolution 1.0 := by
  refine ⟨by decide +kernel, by decide +kernel, by decide +kernel, ?_⟩
  decide +kernel

end RootSearch
