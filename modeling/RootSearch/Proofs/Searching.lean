import RootSearch.Proofs.Ends
import RootSearch.Proofs.Passes
import RootSearch.Search
/-!
# What a search does

A search grows its bracket one end at a time and logs every expansion. As for the methods, there is
one lemma for each of its steps, and claims about searches rest on these.
-/

namespace RootSearch

open Solve

/-- Whether the low end moves. -/
def Side.isLow : Side → Bool
  | .low | .tieLow => true
  | .high | .tieHigh => false

namespace Search

variable {α : Type} [Scalar α]

/-- Where the end that moves goes. -/
def reach (settings : Settings α) (b : Bracket α) (side : Side) : α :=
  if side.isLow then lower settings b else higher settings b

omit [Scalar α] in
/-- The bracket with an end moved to `x`. -/
def grown (b : Bracket α) (side : Side) (x fx : α) : Bracket α :=
  if side.isLow then { b with xMin := x, fMin := fx } else { b with xMax := x, fMax := fx }

/-- What an expansion is charged for. -/
def price : Side → Int
  | .tieLow => 2
  | .low | .high | .tieHigh => 1

/-- The point beside the guess. -/
def beside (settings : Settings α) (guess fx step : α) : α :=
  settings.clamp (if 0.0 < fx then guess - step else guess + step)

/-- The bracket between the guess and the point beside it. -/
def opened (guess fx x fx' : α) : Bracket α :=
  if 0.0 < fx then ⟨x, guess, fx', fx⟩ else ⟨guess, x, fx, fx'⟩

variable {P : α → α → Prop} {b : Bracket α} {guess fx x fx' : α}

/-- Every expansion leads to a clamped point. -/
theorem reach_of_clamp {settings : Settings α} {Q : α → Prop} (h : ∀ x, Q (settings.clamp x))
    (b : Bracket α) (side : Side) : Q (reach settings b side) := by
  unfold reach
  split
  · exact h _
  · exact h _

omit [Scalar α] in
theorem grown_all (h : b.All P) (hx : P x fx) (side : Side) : (grown b side x fx).All P := by
  unfold grown
  split
  · exact ⟨hx, h.max⟩
  · exact ⟨h.min, hx⟩

theorem opened_all (hguess : P guess fx) (hx : P x fx') : (opened guess fx x fx').All P := by
  unfold opened
  split
  · exact ⟨hx, hguess⟩
  · exact ⟨hguess, hx⟩

end Search

namespace Session

variable {α : Type}

/-- The session after an expansion to `x`. -/
def expanded (s : Session α) (side : Side) (x fx : α) : Session α :=
  let bracket := Search.grown s.bracket side x fx
  { s with bracket, evaluations := s.evaluations + Search.price side, samples := s.samples.push x,
           events := s.events.push (.expanded side bracket) }

/-- The session that a search hands over. -/
def handed [Scalar α] (s : Session α) : Session α :=
  (s.located s.bracket.midpoint).logged (.bracketed s.evaluations s.bracket)

variable (s : Session α) (side : Side) (x fx : α)

@[simp] theorem expanded_bracket :
    (s.expanded side x fx).bracket = Search.grown s.bracket side x fx := rfl

@[simp] theorem expanded_evaluations :
    (s.expanded side x fx).evaluations = s.evaluations + Search.price side := rfl

@[simp] theorem expanded_samples : (s.expanded side x fx).samples = s.samples.push x := rfl

@[simp] theorem expanded_events : (s.expanded side x fx).events =
    s.events.push (.expanded side (Search.grown s.bracket side x fx)) := rfl

end Session

namespace Search

variable {α : Type} [Scalar α] {f : Objective α} {settings : Settings α} {method : String}
variable {s : Session α} {E : Fault α → Session α → Prop}

theorem ensures_expand {P : Unit → Session α → Prop} (side : Side) :
    (expand f settings side).Ensures s P E ↔
      let x := reach settings s.bracket side
      Holds (f.value x) (fun fx => P () (s.expanded side x fx)) (E · (s.sampled x)) := by
  cases side <;>
    simp [expand, sampleMin, sampleMax, reach, Side.isLow, Session.expanded, Session.sampled, grown,
      price, Int.add_assoc]

theorem ensures_pass {P : Pass Bool (Outcome α) → Session α → Prop} (tieLow : Bool) :
    (pass f settings method tieLow).Ensures s P E ↔
      let b := s.bracket
      let side := side b tieLow
      let x := reach settings b side
      (b.fMin * b.fMax ≤ 0.0 →
        (b.fMin == 0.0 → P (.stop (.answered (s.converged b.xMin method))) s) ∧
        (¬b.fMin == 0.0 →
          (b.fMax == 0.0 → P (.stop (.answered (s.converged b.xMax method))) s) ∧
          (¬b.fMax == 0.0 → P (.stop .bracketed) s.handed))) ∧
      (¬b.fMin * b.fMax ≤ 0.0 → Holds (f.value x)
        (fun fx => P (.again (nextTieLow tieLow side)) (s.expanded side x fx))
        (E · (s.sampled x))) := by
  simp [pass, ensures_expand, Session.handed, Session.located, Session.logged]

theorem ensures_aroundGuess {P : Outcome α → Session α → Prop} {accuracy guess step : α} :
    (aroundGuess f settings accuracy guess step method).Ensures s P E ↔
      let t := s.visited guess
      Holds (f.value guess)
        (fun fx =>
          let b : Bracket α := ⟨guess, guess, fx, fx⟩
          let x := beside settings guess fx step
          (Scalar.abs fx ≤ accuracy →
            P (.answered ((t.narrowed b).converged guess method)) (t.narrowed b)) ∧
          (¬Scalar.abs fx ≤ accuracy → Holds (f.value x)
            (fun fx' => (whileBudget settings.maxEvaluations (pass f settings method)
              (giveUp settings.maxEvaluations method) true).Ensures
                ((t.sampled x).narrowed (opened guess fx x fx')) P E)
            (E · (t.sampled x))))
        (E · t) := by
  simp only [aroundGuess, openAround, beside, opened, ensures_bind, ensures_setRoot, ensures_sample,
    ensures_ite, ensures_setBracket, ensures_converged, ensures_pure]
  refine and_congr (forall₂_congr fun fx _ => and_congr Iff.rfl (forall_congr' fun _ => ?_)) Iff.rfl
  by_cases h : 0.0 < fx <;> simp [h] <;> rfl

omit [Scalar α] in
theorem ensures_giveUp {P : Outcome α → Session α → Prop} {limit : Nat} :
    (giveUp limit method).Ensures s P E ↔
      let reason := .searchSpent limit s.bracket
      let t := s.logged (.searchFailed reason)
      P (.answered (t.fail .bracketingFailed reason method)) t := by
  simp [giveUp, Session.logged]

theorem ensures_supplied {P : Outcome α → Session α → Prop} {accuracy guess xMin xMax : α} :
    (supplied f settings accuracy guess xMin xMax method).Ensures s P E ↔
      let t := (s.located guess).narrowed { s.bracket with xMin, xMax }
      (∀ status reason, defect? settings guess xMin xMax = some (status, reason) →
        P (.answered (t.fail status reason method)) t) ∧
      (defect? settings guess xMin xMax = none → Holds (f.value xMin)
        (fun fMin =>
          let u := (t.sampled xMin).narrowed { t.bracket with fMin }
          (Scalar.abs fMin < accuracy → P (.answered (u.converged xMin method)) u) ∧
          (¬Scalar.abs fMin < accuracy → Holds (f.value xMax)
            (fun fMax =>
              let b : Bracket α := ⟨xMin, xMax, fMin, fMax⟩
              let v := (u.sampled xMax).narrowed b
              let w := v.logged (.notBracketed (.notBracketed b))
              (Scalar.abs fMax < accuracy → P (.answered (v.converged xMax method)) v) ∧
              (¬Scalar.abs fMax < accuracy →
                (fMin * fMax < 0.0 → P .bracketed v) ∧
                (¬fMin * fMax < 0.0 →
                  P (.answered (w.fail .rootNotBracketed (.notBracketed b) method)) w)))
            (E · (u.sampled xMax))))
        (E · (t.sampled xMin))) := by
  rcases h : defect? settings guess xMin xMax with _ | ⟨status, reason⟩
  · simp [supplied, h, sampleMin, sampleMax, Session.narrowed, Session.located, Session.logged]
  · simp [supplied, h, Session.narrowed, Session.located]

/-! ### Refused ranges -/

variable {guess xMin xMax : α}

theorem defect_cases {status : Status} {reason : Reason α}
    (h : defect? settings guess xMin xMax = some (status, reason)) :
    status = .invalidRange ∨ status = .boundViolation ∨ status = .guessOutOfRange := by
  unfold defect? at h
  split at h
  · cases h; simp
  · split at h
    · cases h; simp
    · cases h; simp
    · split at h
      · cases h; simp
      · split at h <;> cases h
        simp

theorem defect_none (h : defect? settings guess xMin xMax = none) : xMin < guess ∧ guess < xMax := by
  unfold defect? at h
  split at h
  · cases h
  · split at h
    · cases h
    · cases h
    · split at h
      · cases h
      · next hlow =>
        split at h
        · cases h
        · next hhigh => exact ⟨Decidable.not_not.1 hlow, Decidable.not_not.1 hhigh⟩

end Search

/-! ## Entries -/

/-- An answer ends the solve, and a bracket is refined. -/
theorem Search.Outcome.ensures_refineBy {α : Type} [Scalar α] {strategy : Brentq.Strategy α}
    {r : Refiner α} {f : Objective α} {limit : Nat} {accuracy : α} {s : Session α}
    {P : Result α → Session α → Prop} {E : Fault α → Session α → Prop} (outcome : Search.Outcome α) :
    (outcome.refineBy strategy r f limit accuracy).Ensures s P E ↔
      (∀ result, outcome = .answered result → P result s) ∧
      (outcome = .bracketed →
        (r.refineBy strategy f limit (Scalar.effectiveAccuracy accuracy)).Ensures s P E) := by
  cases outcome with
  | answered result => simp [refineBy]
  | bracketed => simp [refineBy]

namespace Entry

variable {α : Type} [Scalar α] {strategy : Brentq.Strategy α} {r : Refiner α} {f : Objective α}
variable {settings : Settings α} {accuracy : α} {s : Session α} {P : Result α → Session α → Prop}
variable {E : Fault α → Session α → Prop}

/-- Every solve is a search and then a refinement. -/
theorem ensures_solveBy (entry : Entry α) :
    (entry.solveBy strategy r f settings accuracy).Ensures s P E ↔
      (entry.search f settings accuracy r.name).Ensures s
        (fun outcome t =>
          (outcome.refineBy strategy r f settings.maxEvaluations accuracy).Ensures t P E) E := by
  simp [solveBy]

theorem ensures_solve (entry : Entry α) :
    (entry.solve r f settings accuracy).Ensures s P E ↔
      (entry.search f settings accuracy r.name).Ensures s
        (fun outcome t =>
          (outcome.refineBy Brentq.strategy r f settings.maxEvaluations accuracy).Ensures t P E) E :=
  entry.ensures_solveBy

/-- After its search a solve ends as the refinement of what was found does. -/
theorem ensures_solve_found {found : Session α} {outcome : Search.Outcome α} (entry : Entry α)
    (hfound : (entry.search f settings accuracy r.name).exec s = (.ok outcome, found)) :
    (entry.solve r f settings accuracy).Ensures s P E ↔
      (outcome.refineBy Brentq.strategy r f settings.maxEvaluations accuracy).Ensures found P E := by
  rw [ensures_solve]
  unfold Ensures
  rw [hfound]

end Entry

end RootSearch
