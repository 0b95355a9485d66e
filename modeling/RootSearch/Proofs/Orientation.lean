import RootSearch.Proofs.Stalls
/-!
# The two bookkeepings of safeguarded Newton steps

The method keeps its ends in the order of their signs, beside the session's bracket. A new value moves
one of them by its own sign, and an end of the bracket by comparing that sign with the one of the first
end. The two never drift apart: whether the first end lies below zero does not change, so each end of
the method stays the same end of the bracket. What is not a number counts as not below zero in both.
-/

namespace RootSearch

open Solve

variable {α : Type} [Scalar α]

/-- Shrinking keeps the side of zero that the first end is on. -/
theorem Bracket.shrink_fMin_neg_iff (b : Bracket α) (x fx : α) :
    (b.shrink x fx).fMin < 0.0 ↔ b.fMin < 0.0 := by
  unfold shrink
  split
  · next hsame => exact decide_eq_decide.1 hsame
  · exact Iff.rfl

theorem collapsed_bracket (s : Session α) (x fx : α) (method : String) (accuracy : α) :
    (s.collapsed x fx method accuracy).bracket = some s.bracket := by
  simp only [Session.collapsed]
  split
  · rfl
  · rfl

namespace SafeNewton

/-- The loop of a refinement that has its derivative and has sampled the estimate. -/
def loop (f : Objective α) (slope : Slope α) (accuracy : α) (s : Session α) (p : Newton.Point α) : Loop α :=
  ⟨Iterate α, pass f slope accuracy,
    ⟨(orient s.bracket).1, (orient s.bracket).2, s.bracket.width, s.bracket.width, p⟩, s.sampled s.root⟩

theorem enters_iff {f : Objective α} {supplied : Option (Slope α)} {accuracy : α} {s : Session α}
    {l : Loop α} : (⟨.safeNewton, supplied⟩ : Refiner α).Enters f accuracy s l ↔
      ∃ slope p, Opened f (f.slopeFor .safeNewton supplied) accuracy s slope p ∧
        l = loop f slope accuracy s p := Iff.rfl

/-- What a pass begun with an iterate and a bracket may stop with: these, or both with an end moved to its
sample. -/
inductive StopsWith (f : Objective α) (i : Iterate α) (b : Bracket α) : Iterate α → Bracket α → Prop
  | begun : StopsWith f i b i b
  | moved {dx : α} {p : Newton.Point α} : advance i = .ok (dx, p.x) → f.value p.x = .ok p.fx →
      StopsWith f i b (i.next dx p) (b.shrink p.x p.fx)

/-- The ends of the method are those of the bracket, ordered by sign, and the first end of the bracket is
on the side of zero where it was in the bracket `began`. -/
structure Agrees (began : Bracket α) (i : Iterate α) (b : Bracket α) : Prop where
  ends : (i.xLow, i.xHigh) = orient b
  side : b.fMin < 0.0 ↔ began.fMin < 0.0

/-! ## What a sample moves -/

section Samples

variable {began b c : Bracket α} {i j : Iterate α} {f : Objective α}

theorem Agrees.begins (b : Bracket α) (step lastStep : α) (p : Newton.Point α) :
    Agrees b ⟨(orient b).1, (orient b).2, step, lastStep, p⟩ b := ⟨rfl, Iff.rfl⟩

/-- A sample moves the same end in both. -/
theorem Agrees.next (h : Agrees began i b) (dx : α) (p : Newton.Point α) :
    Agrees began (i.next dx p) (b.shrink p.x p.fx) := by
  have htracks : TracksEnds p.x (i.next dx p) (b.shrink p.x p.fx) := next_tracksEnds dx h.ends
  exact ⟨htracks.1, (b.shrink_fMin_neg_iff p.x p.fx).trans h.side⟩

theorem Agrees.stops (h : Agrees began i b) (hstops : StopsWith f i b j c) : Agrees began j c := by
  cases hstops with
  | begun => exact h
  | @moved dx p _ _ => exact h.next dx p

/-- A bisection goes halfway from one end of the bracket to the other. -/
theorem Agrees.bisects (h : Agrees began i b) (hbisects : (leadsOut i || isSlow i) = true) :
    let half := 0.5 * ((orient b).2 - (orient b).1)
    advance i = .ok (half, (orient b).1 + half) := by
  rw [← h.ends]
  exact if_pos hbisects

end Samples

/-! ## Runs -/

section Runs

variable {f : Objective α} {slope : Slope α} {accuracy : α} {s t : Session α} {i : Iterate α}

theorem pass_agrees {began : Bracket α} (h : Agrees began i s.bracket) :
    (pass f slope accuracy i).Ensures s
      (fun p t => p.Keeps (fun i => Agrees began i t.bracket)
        fun r => ∃ j c, r.bracket = some c ∧ StopsWith f i s.bracket j c)
      fun _ _ => True := by
  rw [ensures_pass]
  apply holds_of_values
  intro (dx, x) hadvance
  apply holds_of_values
  intro fx hfx
  apply holds_of_values
  intro dfx _
  refine ⟨fun _ => ⟨i, s.bracket, rfl, .begun⟩, fun _ => ⟨fun _ => ?_, fun _ => ?_⟩⟩
  · exact ⟨_, _, collapsed_bracket _ x fx name accuracy, .moved (p := ⟨x, fx, dfx⟩) hadvance hfx⟩
  · exact h.next dx ⟨x, fx, dfx⟩

theorem head_agrees {p : Newton.Point α} {limit : Nat} {i : (loop f slope accuracy s p).State}
    (h : (loop f slope accuracy s p).Head limit i t) : Agrees s.bracket i t.bracket := by
  induction h with
  | first => exact .begins ..
  | again _ _ hagain ih => exact (pass_agrees ih).value hagain

theorem agrees_of_comesTo {supplied : Option (Slope α)} {limit : Nat}
    (h : (⟨.safeNewton, supplied⟩ : Refiner α).ComesTo f limit accuracy s i t) :
    Agrees s.bracket i t.bracket := by
  obtain ⟨pass, first, u, henters, hhead⟩ := h
  obtain ⟨slope, p, -, hloop⟩ := enters_iff.1 henters
  cases hloop
  exact head_agrees hhead

/-- A refinement that answers does so before its loop, or in a pass or at the end of its budget. -/
theorem refine_stops (supplied : Option (Slope α)) (limit : Nat) :
    (refine f supplied limit accuracy).Ensures s
      (fun r _ => (∃ fx, f.value s.root = .ok fx ∧ Scalar.abs fx ≤ accuracy ∧ r.bracket = some s.bracket) ∨
        ∃ i t j c, (⟨.safeNewton, supplied⟩ : Refiner α).ComesTo f limit accuracy s i t ∧
          r.bracket = some c ∧ StopsWith f i t.bracket j c)
      fun _ _ => True := by
  refine (⟨.safeNewton, supplied⟩ : Refiner α).ensures_refine nofun
    (fun fx hfx hmet => .inl ⟨fx, hfx, hmet, rfl⟩) (fun _ _ => trivial) (fun _ _ _ => trivial)
    (fun _ _ _ _ _ => trivial) fun l hl => ?_
  obtain ⟨slope, p, -, rfl⟩ := enters_iff.1 hl
  apply Loop.ensures_run
  · intro i t hhead _
    have hcomes : (⟨.safeNewton, supplied⟩ : Refiner α).ComesTo f limit accuracy s i t :=
      ⟨_, _, _, hl, hhead⟩
    refine (pass_agrees (agrees_of_comesTo hcomes)).mono (fun step u hstep => ?_) fun _ _ h => h
    cases step with
    | again => trivial
    | stop r =>
      obtain ⟨j, c, hbracket, hstops⟩ := hstep
      exact .inr ⟨i, t, j, c, hcomes, hbracket, hstops⟩
  · intro i t hhead
    exact .inr ⟨i, t, i, t.bracket, ⟨_, _, _, hl, hhead⟩, rfl, .begun⟩

end Runs

/-- Over any scalars, so over doubles with what is not a number, for any objective and any derivative:
whenever a pass may begin, the ends of the method are those of the bracket, the first of them first
exactly if its value is below zero, and whether it is has not changed since the refinement began. So a
bisection halves the way between the ends of the bracket. A result reports the bracket of the pass that
stops, or that one with an end moved to the last sample, and the ends that the method stops with are
those of the reported bracket too; only an estimate that meets the accuracy at once is reported without
a pass, with the bracket as it was. -/
theorem ends_follow_bracket (f : Objective α) (supplied : Option (Slope α)) (limit : Nat) (accuracy : α)
    (s : Session α) :
    (∀ i t, (⟨.safeNewton, supplied⟩ : Refiner α).ComesTo f limit accuracy s i t →
      (i.xLow, i.xHigh) = (if t.bracket.fMin < 0.0 then (t.bracket.xMin, t.bracket.xMax)
        else (t.bracket.xMax, t.bracket.xMin)) ∧
      (t.bracket.fMin < 0.0 ↔ s.bracket.fMin < 0.0) ∧
      ((leadsOut i || isSlow i) = true →
        let half := 0.5 * ((orient t.bracket).2 - (orient t.bracket).1)
        advance i = .ok (half, (orient t.bracket).1 + half))) ∧
    ∀ result, ((refine f supplied limit accuracy).exec s).1 = .ok result →
      (∃ fx, f.value s.root = .ok fx ∧ Scalar.abs fx ≤ accuracy ∧ result.bracket = some s.bracket) ∨
      ∃ i t j b, (⟨.safeNewton, supplied⟩ : Refiner α).ComesTo f limit accuracy s i t ∧
        StopsWith f i t.bracket j b ∧ result.bracket = some b ∧
        (j.xLow, j.xHigh) = (if b.fMin < 0.0 then (b.xMin, b.xMax) else (b.xMax, b.xMin)) ∧
        (b.fMin < 0.0 ↔ s.bracket.fMin < 0.0) := by
  constructor
  · intro i t h
    have hagrees := agrees_of_comesTo h
    exact ⟨hagrees.ends, hagrees.side, hagrees.bisects⟩
  · intro result hresult
    rcases (refine_stops supplied limit).answer hresult with hfirst | ⟨i, t, j, b, hcomes, hbracket, hstops⟩
    · exact .inl hfirst
    · have hagrees := (agrees_of_comesTo hcomes).stops hstops
      exact .inr ⟨i, t, j, b, hcomes, hstops, hbracket, hagrees.ends, hagrees.side⟩

/-- Two halvings with the first end above zero, the second of them at a value that is not a number. -/
theorem ends_follow_bracket_beside_nan :
    let f : Objective Double :=
      .ofTotal fun x => if x < 1.0 then 2.0 else if x < 2.0 then 0.0 / 0.0 else -3.0
    let slope : Option (Slope Double) := some fun _ => .ok 1.0
    let s : Session Double := { root := 2.5, bracket := ⟨0.0, 4.0, 2.0, -3.0⟩ }
    let b : Bracket Double := ⟨1.0, 2.0, 0.0 / 0.0, -3.0⟩
    (∃ result, ((refine f slope 2 1e-9).exec s).1 = .ok result ∧ result.bracket = some b) ∧
    ∃ i t j, (⟨.safeNewton, slope⟩ : Refiner Double).ComesTo f 2 1e-9 s i t ∧
      StopsWith f i t.bracket j b ∧ (j.xLow, j.xHigh) = (2.0, 1.0) := by
  intro f slope s b
  let result : Result Double :=
    { status := .maxEvaluationsExceeded, evaluations := 3, method := "newton_safe",
      reason := .refinementSpent "newton_safe" 2 b 1.0, bracket := some b }
  have hresult : ((refine f slope 2 1e-9).exec s).1 = .ok result := by decide +kernel
  refine ⟨⟨result, hresult, rfl⟩, ?_⟩
  obtain ⟨-, hreported⟩ := ends_follow_bracket f slope 2 1e-9 s
  rcases hreported result hresult with ⟨-, -, -, hfirst⟩ | ⟨i, t, j, c, hcomes, hstops, hc, hends, -⟩
  · exact absurd hfirst (by decide +kernel)
  · cases hc
    exact ⟨i, t, j, hcomes, hstops, hends.trans (by decide +kernel)⟩

end SafeNewton

end RootSearch
