import RootSearch.Proofs.DoubleOrder
import RootSearch.Proofs.Endings
import RootSearch.Report
/-!
# Well-formed results

A solve is refused, gives up its search, finds a root on the way, or ends as its refinement does. Each
theorem about all results is a case analysis over these, so none of them looks at the methods again:
which checks refuse a supplied bracket, which statuses name a root, when there is a message, and what a
jump of the objective shows.
-/

namespace RootSearch

open Solve

variable {α : Type} [Scalar α] {f : Objective α} {settings : Settings α} {accuracy : α}
variable {guess xMin xMax : α} {label : String} {r : Result α} {s t : Session α} {entry : Entry α}

/-! ## What results have in common -/

/-- The statuses whose results name a root. -/
def Status.NamesRoot (status : Status) : Prop :=
  status = .converged ∨ status = .diverged ∨ status = .accuracyNotReached

/-- The statuses of a supplied bracket that was refused. -/
def Status.Refuses (status : Status) : Prop :=
  status = .invalidRange ∨ status = .boundViolation ∨ status = .guessOutOfRange

instance (status : Status) : Decidable status.NamesRoot := inferInstanceAs (Decidable (_ ∨ _))

instance (status : Status) : Decidable status.Refuses := inferInstanceAs (Decidable (_ ∨ _))

/-- A result that explains its status, has a root if its status names one, and has a bracket. -/
structure Result.WellFormed {α : Type} (label : String) (r : Result α) : Prop where
  explained : r.reason.status? = some r.status
  root : r.root.isSome ↔ r.status.NamesRoot
  bracket : r.bracket.isSome
  method : r.method = label

/-- The reported point is the best of the points with their values that were compared, and misses the
accuracy. -/
structure Jump (P : α → α → Prop) (accuracy x fx : α) (b : Bracket α) : Prop where
  value : P x fx
  ends : b.All P
  missed : ¬Scalar.abs fx ≤ accuracy
  low : ¬Scalar.abs b.fMin < Scalar.abs fx
  high : ¬Scalar.abs b.fMax < Scalar.abs fx

omit [Scalar α] in
theorem converged_wellFormed (s : Session α) (x : α) (label : String) :
    (s.converged x label).WellFormed label :=
  ⟨rfl, ⟨fun _ => .inl rfl, fun _ => rfl⟩, rfl, rfl⟩

omit [Scalar α] in
theorem fail_wellFormed {status : Status} {reason : Reason α} {root : Option α}
    (hreason : reason.status? = some status) (hroot : root.isSome ↔ status.NamesRoot) :
    (s.fail status reason label root).WellFormed label :=
  ⟨hreason, hroot, rfl, rfl⟩

theorem Ending.wellFormed {P : α → α → Prop} (h : Ending P accuracy label r) : r.WellFormed label := by
  induction h with
  | converged s x name => exact converged_wellFormed s x name
  | exhausted s limit name => exact fail_wellFormed rfl (by simp [Status.NamesRoot])
  | diverged s hreason x name => exact fail_wellFormed hreason (by simp [Status.NamesRoot])
  | @collapsed s hb x fx hx name =>
    simp only [Session.collapsed]
    split
    · exact converged_wellFormed s _ name
    · exact fail_wellFormed rfl (by simp [Status.NamesRoot])
  | renamed h name ih => exact ⟨ih.explained, ih.root, ih.bracket, rfl⟩

/-! ### Jumps -/

section Jumps

variable [LawfulScalar α]

theorem not_lt_closer_right (p q : α × α) :
    ¬Scalar.abs q.2 < Scalar.abs (Bracket.closer p q).2 := by
  unfold Bracket.closer
  split
  · exact fun h => (Scalar.lt_iff.1 h).2 (Scalar.le_of_lt h)
  · next h => exact h

/-- A third point that is closer than the closer of two is closer than either. -/
theorem not_lt_closer_of_not_lt {y : α} {p q : α × α} (h : ¬Scalar.abs y < Scalar.abs p.2) :
    ¬Scalar.abs y < Scalar.abs (Bracket.closer p q).2 := by
  unfold Bracket.closer
  split
  · next hq => exact fun hy => h (Scalar.lt_of_lt_of_le hy (Scalar.le_of_lt hq))
  · exact h

theorem Ending.jump {P : α → α → Prop} (h : Ending P accuracy label r)
    (hstatus : r.status = .accuracyNotReached) :
    ∃ x fx b, r.root = some x ∧ r.bracket = some b ∧ Jump P accuracy x fx b := by
  induction h with
  | converged s x name => cases hstatus
  | exhausted s limit name => cases hstatus
  | diverged s hreason x name => cases hstatus
  | @collapsed s hb x fx hx name =>
    have hbest : P (s.bracket.best (x, fx)).1 (s.bracket.best (x, fx)).2 := hb.best hx
    simp only [Session.collapsed] at hstatus ⊢
    split at hstatus
    · cases hstatus
    · next hmiss =>
      rw [if_neg hmiss]
      -- the estimate is compared with the lower end first, and the closer of them with the upper one
      refine ⟨_, _, s.bracket, rfl, rfl, hbest, hb, hmiss, ?_, ?_⟩
      · exact not_lt_closer_of_not_lt (not_lt_closer_right (x, fx) (s.bracket.xMin, s.bracket.fMin))
      · exact not_lt_closer_right _ (s.bracket.xMax, s.bracket.fMax)
  | renamed h name ih => exact ih hstatus

end Jumps

/-! ## The ways out of a solve -/

/-- What a search has checked by the time that it samples. -/
def Entry.Checked (settings : Settings α) : Entry α → Prop
  | fromGuess _ _ => True
  | inBracket guess xMin xMax => Search.defect? settings guess xMin xMax = none

/-- The ways in which a solve ends, with the session that it leaves. -/
inductive Finish (f : Objective α) (settings : Settings α) (accuracy : α) (label : String) :
    Entry α → Session α → Result α → Prop
  | refused {guess xMin xMax : α} {status : Status} {reason : Reason α} {t : Session α}
      (h : Search.defect? settings guess xMin xMax = some (status, reason)) (hnone : t.samples = #[]) :
      Finish f settings accuracy label (.inBracket guess xMin xMax) t (t.fail status reason label)
  | notBracketed {guess xMin xMax : α} {t : Session α} (b : Bracket α)
      (h : Search.defect? settings guess xMin xMax = none) (hsamples : t.samples = #[xMin, xMax])
      (hcharged : t.evaluations = 2) :
      Finish f settings accuracy label (.inBracket guess xMin xMax) t
        (t.fail .rootNotBracketed (.notBracketed b) label)
  | givenUp {guess step : α} {t : Session α} (b : Bracket α) :
      Finish f settings accuracy label (.fromGuess guess step) t
        (t.fail .bracketingFailed (.searchSpent settings.maxEvaluations b) label)
  | rooted {entry : Entry α} {t : Session α} {x : α} (h : entry.Checked settings)
      (hx : x ∈ t.samples) : Finish f settings accuracy label entry t (t.converged x label)
  | refined {entry : Entry α} {t : Session α} {r : Result α} (h : entry.Checked settings)
      (hsome : t.samples ≠ #[]) (hr : Ending f.Gives (Scalar.effectiveAccuracy accuracy) label r) :
      Finish f settings accuracy label entry t r

namespace Search

/-- A search answers with a finish, or hands over a genuine bracket of a checked entry. -/
def Outcome.Finishes (f : Objective α) (settings : Settings α) (accuracy : α) (label : String)
    (entry : Entry α) (t : Session α) : Outcome α → Prop
  | .answered result => Finish f settings accuracy label entry t result
  | .bracketed => entry.Checked settings ∧ t.Genuine f

theorem aroundGuess_finishes (step : α) :
    (aroundGuess f settings accuracy guess step label).Ensures s
      (fun outcome t => outcome.Finishes f settings accuracy label (.fromGuess guess step) t)
      fun _ _ => True := by
  rw [ensures_aroundGuess]
  apply holds_of_values
  intro fx hfx
  have hchecked : (Entry.fromGuess guess step).Checked settings := trivial
  have hguess : Sampled f (s.visited guess).samples guess fx := Sampled.latest s.samples hfx
  refine ⟨fun _ => .rooted hchecked hguess.mem, fun _ => ?_⟩
  apply holds_of_values
  intro fx' hfx'
  apply ensures_whileBudget (I := fun _ t => t.Genuine f)
  · intro tieLow t ht _
    rw [ensures_pass]
    refine ⟨fun _ => ⟨fun _ => .rooted hchecked ht.min.mem, fun _ =>
      ⟨fun _ => .rooted hchecked ht.max.mem, fun _ => ⟨hchecked, ht⟩⟩⟩, fun _ => ?_⟩
    apply holds_of_values
    intro fx hfx
    exact expanded_genuine ht _ hfx
  · intro _ t _
    rw [ensures_giveUp]
    exact .givenUp t.bracket
  · exact opened_all (hguess.push _) (Sampled.latest _ hfx')

theorem supplied_finishes :
    (supplied f settings accuracy guess xMin xMax label).Ensures .start
      (fun outcome t => outcome.Finishes f settings accuracy label (.inBracket guess xMin xMax) t)
      fun _ _ => True := by
  rw [ensures_supplied]
  refine ⟨fun status reason h => .refused h rfl, fun hnone => ?_⟩
  have hchecked : (Entry.inBracket guess xMin xMax).Checked settings := hnone
  apply holds_of_values
  intro fMin hfMin
  have hmin : Sampled f #[xMin] xMin fMin := Sampled.latest #[] hfMin
  refine ⟨fun _ => .rooted hchecked hmin.mem, fun _ => ?_⟩
  apply holds_of_values
  intro fMax hfMax
  have hmax : Sampled f #[xMin, xMax] xMax fMax := Sampled.latest #[xMin] hfMax
  refine ⟨fun _ => .rooted hchecked hmax.mem, fun _ => ⟨fun _ => ⟨hchecked, ?_⟩, fun _ => ?_⟩⟩
  · exact ⟨hmin.push xMax, hmax⟩
  · exact .notBracketed _ hnone rfl rfl

end Search

theorem Entry.search_finishes (entry : Entry α) :
    (entry.search f settings accuracy label).Ensures .start
      (fun outcome t => outcome.Finishes f settings accuracy label entry t) fun _ _ => True := by
  cases entry with
  | fromGuess guess step => exact Search.aroundGuess_finishes step
  | inBracket guess xMin xMax => exact Search.supplied_finishes

/-- Every solve that returns ends in one of the five ways. -/
theorem Entry.solveBy_finishes (strategy : Brentq.Strategy α) (r : Refiner α) (entry : Entry α) :
    (entry.solveBy strategy r f settings accuracy).Ensures .start
      (fun result t => Finish f settings accuracy r.name entry t result) fun _ _ => True := by
  rw [ensures_solveBy]
  refine entry.search_finishes.mono (fun outcome t h => ?_) fun _ _ h => h
  rw [outcome.ensures_refineBy]
  constructor
  · rintro result rfl
    exact h
  · -- an ending of the refinement, in a session where an end of the reported bracket was sampled
    rintro rfl
    obtain ⟨hchecked, ht⟩ := h
    refine ((r.refineBy_ends strategy settings.maxEvaluations ht).and
      (r.refineBy_reportsEnds strategy settings.maxEvaluations ht)).mono (fun result u hu => ?_)
      fun _ _ h => h.1
    obtain ⟨hending, b, -, hb⟩ := hu
    exact .refined hchecked (Array.ne_empty_of_mem hb.min.mem) hending

/-! ## Statuses -/

namespace Search

/-- A refusal explains its status. -/
theorem defect_explained {status : Status} {reason : Reason α}
    (h : defect? settings guess xMin xMax = some (status, reason)) : reason.status? = some status := by
  unfold defect? at h
  grind [Reason.status?]

theorem refused_ne {status other : Status} {reason : Reason α}
    (h : defect? settings guess xMin xMax = some (status, reason)) (hother : ¬other.Refuses) :
    status ≠ other := by
  rintro rfl
  exact hother (defect_cases h)

/-- The checks of a supplied bracket in their order: of the range, of the enforced bounds, of the guess. -/
theorem defect_status (settings : Settings α) (guess xMin xMax : α) :
    (defect? settings guess xMin xMax).map Prod.fst =
      if ¬xMin < xMax then some .invalidRange
      else if settings.belowLow xMin ∨ settings.aboveHi xMax then some .boundViolation
      else if ¬(xMin < guess ∧ guess < xMax) then some .guessOutOfRange
      else none := by
  unfold defect? Settings.belowLow Settings.aboveHi
  rcases settings.lowBound with _ | low <;> rcases settings.hiBound with _ | hi <;>
    simp only [Option.filter, Option.any] <;> grind

end Search

/-- A supplied bracket is sampled unless it is refused, and the status of a refusal names the first check
that fails. -/
structure Validated (settings : Settings α) (guess xMin xMax : α) (samples : Array α)
    (status : Status) : Prop where
  unsampled : samples = #[] ↔ status.Refuses
  range : status = .invalidRange ↔ ¬xMin < xMax
  bounds : status = .boundViolation ↔
    xMin < xMax ∧ (settings.belowLow xMin ∨ settings.aboveHi xMax)
  guess : status = .guessOutOfRange ↔
    xMin < xMax ∧ ¬(settings.belowLow xMin ∨ settings.aboveHi xMax) ∧ ¬(xMin < guess ∧ guess < xMax)

/-- With the checks in their order, a status that names the failing one tells which it is. -/
theorem validated_of_status {samples : Array α} {status : Status}
    (hsamples : samples = #[] ↔ status.Refuses)
    (hstatus : (Search.defect? settings guess xMin xMax).map Prod.fst =
      if status.Refuses then some status else none) :
    Validated settings guess xMin xMax samples status := by
  rw [Search.defect_status] at hstatus
  refine ⟨hsamples, ?_, ?_, ?_⟩ <;> cases status <;> simp [Status.Refuses] at hstatus ⊢ <;> grind

omit [Scalar α] in
theorem Result.IsRefined.not_refuses (h : r.IsRefined) : ¬r.status.Refuses := by
  rcases h with h | h | h | h <;> rw [h] <;> decide

namespace Finish

theorem wellFormed (h : Finish f settings accuracy label entry t r) : r.WellFormed label := by
  cases h with
  | refused hdefect hnone =>
    refine fail_wellFormed (Search.defect_explained hdefect) ?_
    rcases Search.defect_cases hdefect with rfl | rfl | rfl <;> simp [Status.NamesRoot]
  | notBracketed b hnone hsamples hcharged => exact fail_wellFormed rfl (by simp [Status.NamesRoot])
  | givenUp b => exact fail_wellFormed rfl (by simp [Status.NamesRoot])
  | rooted hchecked hx => exact converged_wellFormed t _ label
  | refined hchecked hsome hr => exact hr.wellFormed

theorem validated (h : Finish f settings accuracy label (.inBracket guess xMin xMax) t r) :
    Validated settings guess xMin xMax t.samples r.status := by
  -- of the ways out of a solve that was let in, none has the status of a refusal
  have hadmitted {samples : Array α} {status : Status}
      (hchecked : Search.defect? settings guess xMin xMax = none) (hsome : samples ≠ #[])
      (hstatus : ¬status.Refuses) : Validated settings guess xMin xMax samples status := by
    refine validated_of_status (iff_of_false hsome hstatus) ?_
    rw [hchecked, if_neg hstatus, Option.map_none]
  cases h with
  | @refused _ _ _ status reason _ hdefect hnone =>
    have hstatus : status.Refuses := Search.defect_cases hdefect
    refine validated_of_status (iff_of_true hnone hstatus) ?_
    rw [hdefect, Session.fail, if_pos hstatus, Option.map_some]
  | notBracketed b hnone hsamples hcharged =>
    exact hadmitted hnone (by simp [hsamples]) (show ¬Status.rootNotBracketed.Refuses by decide)
  | rooted hchecked hx =>
    exact hadmitted hchecked (Array.ne_empty_of_mem hx) (show ¬Status.converged.Refuses by decide)
  | refined hchecked hsome hr => exact hadmitted hchecked hsome hr.isRefined.not_refuses

theorem bracketingFailed (h : Finish f settings accuracy label entry t r)
    (hstatus : r.status = .bracketingFailed) : ∃ guess step, entry = .fromGuess guess step := by
  cases h with
  | refused hdefect hnone => exact absurd hstatus (Search.refused_ne hdefect (by decide))
  | notBracketed b hnone hsamples hcharged => cases hstatus
  | givenUp b => exact ⟨_, _, rfl⟩
  | rooted hchecked hx => cases hstatus
  | refined hchecked hsome hr => exact absurd hstatus (hr.status_ne (by decide))

theorem rootNotBracketed (h : Finish f settings accuracy label entry t r)
    (hstatus : r.status = .rootNotBracketed) :
    r.evaluations = 2 ∧
      ∃ guess xMin xMax, entry = .inBracket guess xMin xMax ∧ t.samples = #[xMin, xMax] := by
  cases h with
  | refused hdefect hnone => exact absurd hstatus (Search.refused_ne hdefect (by decide))
  | notBracketed b hnone hsamples hcharged => exact ⟨hcharged, _, _, _, rfl, hsamples⟩
  | givenUp b => cases hstatus
  | rooted hchecked hx => cases hstatus
  | refined hchecked hsome hr => exact absurd hstatus (hr.status_ne (by decide))

theorem jump [LawfulScalar α] (h : Finish f settings accuracy label entry t r)
    (hstatus : r.status = .accuracyNotReached) :
    ∃ x fx b, r.root = some x ∧ r.bracket = some b ∧
      Jump f.Gives (Scalar.effectiveAccuracy accuracy) x fx b := by
  cases h with
  | refused hdefect hnone => exact absurd hstatus (Search.refused_ne hdefect (by decide))
  | notBracketed b hnone hsamples hcharged => cases hstatus
  | givenUp b => cases hstatus
  | rooted hchecked hx => cases hstatus
  | refined hchecked hsome hr => exact hr.jump hstatus

end Finish

/-! ## Messages -/

theorem append_ne_empty {s t : String} (h : s ≠ "" ∨ t ≠ "") : s ++ t ≠ "" := by
  rw [ne_eq, String.append_eq_empty_iff, not_and_or]
  exact h

/-- A reason that explains a failure has a message. -/
theorem Reason.message_ne_empty {reason : Reason Double} {status : Status}
    (h : reason.status? = some status) (hfailed : status ≠ .converged) : reason.message ≠ "" := by
  cases reason with
  | none => exact absurd (Option.some.inj h).symm hfailed
  | text message => cases h
  | notBracketed b => exact append_ne_empty (.inl (by decide))
  | collapsed | zeroSlope | leftRange =>
    exact append_ne_empty (.inl (append_ne_empty (.inr (by decide))))
  | _ => exact append_ne_empty (.inr (by decide))

theorem Result.WellFormed.message {label : String} {r : Result Double} (h : r.WellFormed label) :
    r.reason.message = "" ↔ r.status = .converged := by
  refine ⟨fun hempty => ?_, fun hconverged => ?_⟩
  · by_contra hfailed
    exact Reason.message_ne_empty h.explained hfailed hempty
  · have hexplained := h.explained
    rw [hconverged] at hexplained
    cases hreason : r.reason <;> rw [hreason] at hexplained <;> first | rfl | cases hexplained

/-! ## Every result -/

section Numbers

variable [LawfulScalar α] {P : α → α → Prop} {x fx : α} {b : Bracket α}

/-- Where the value is a number, it is larger than the accuracy. -/
theorem Jump.lt (h : Jump P (Scalar.effectiveAccuracy accuracy) x fx b)
    (haccuracy : Scalar.isNaN accuracy = false) (hfx : Scalar.isNaN fx = false) :
    Scalar.effectiveAccuracy accuracy < Scalar.abs fx := by
  have heffective : Scalar.effectiveAccuracy accuracy ≤ Scalar.effectiveAccuracy accuracy :=
    (Scalar.le_refl_of_le (Scalar.abs_le_effectiveAccuracy (Scalar.isNaN_eq_false_iff.1 haccuracy))).2
  have hle := (Scalar.le_total heffective (Scalar.abs_le_abs_of_number hfx)).resolve_right h.missed
  exact Scalar.lt_iff.2 ⟨hle, h.missed⟩

theorem Jump.le_low (h : Jump P accuracy x fx b) (hfx : Scalar.isNaN fx = false)
    (hlow : Scalar.isNaN b.fMin = false) : Scalar.abs fx ≤ Scalar.abs b.fMin :=
  Scalar.not_lt (Scalar.abs_le_abs_of_number hlow) (Scalar.abs_le_abs_of_number hfx) h.low

theorem Jump.le_high (h : Jump P accuracy x fx b) (hfx : Scalar.isNaN fx = false)
    (hhigh : Scalar.isNaN b.fMax = false) : Scalar.abs fx ≤ Scalar.abs b.fMax :=
  Scalar.not_lt (Scalar.abs_le_abs_of_number hhigh) (Scalar.abs_le_abs_of_number hfx) h.high

end Numbers

/-- Every solve that returns, by whatever method and strategy, returns a well-formed result. A supplied
bracket is sampled unless one of three checks fails, and then the status names the first that does. A
search gives up only from a guess, and a supplied bracket is found without a sign change only after both
of its ends were sampled. A root is named by three statuses, there is a message unless the solve
converged, and a jump names the best of the points that it reports. -/
theorem results_are_well_formed (strategy : Brentq.Strategy Double) (r : Refiner Double)
    (f : Objective Double) (settings : Settings Double) (accuracy : Double) (entry : Entry Double)
    (result : Result Double)
    (hresult : ((entry.solveBy strategy r f settings accuracy).exec .start).1 = .ok result) :
    let samples := ((entry.solveBy strategy r f settings accuracy).exec .start).2.samples
    let effective := Scalar.effectiveAccuracy accuracy
    (∀ guess xMin xMax, entry = .inBracket guess xMin xMax →
      Validated settings guess xMin xMax samples result.status) ∧
    (result.status = .bracketingFailed → ∃ guess step, entry = .fromGuess guess step) ∧
    (result.status = .rootNotBracketed → result.evaluations = 2 ∧
      ∃ guess xMin xMax, entry = .inBracket guess xMin xMax ∧ samples = #[xMin, xMax]) ∧
    (result.root.isSome ↔ result.status = .converged ∨ result.status = .diverged ∨
      result.status = .accuracyNotReached) ∧
    (result.reason.message = "" ↔ result.status = .converged) ∧
    result.bracket.isSome ∧ result.method = r.name ∧
    (result.status = .accuracyNotReached →
      ∃ x fx b, result.root = some x ∧ result.bracket = some b ∧ f.value x = .ok fx ∧
        f.value b.xMin = .ok b.fMin ∧ f.value b.xMax = .ok b.fMax ∧
        (Scalar.isNaN accuracy = false → Scalar.isNaN fx = false → effective < Scalar.abs fx) ∧
        (Scalar.isNaN fx = false → Scalar.isNaN b.fMin = false → Scalar.abs fx ≤ Scalar.abs b.fMin) ∧
        (Scalar.isNaN fx = false → Scalar.isNaN b.fMax = false → Scalar.abs fx ≤ Scalar.abs b.fMax)) := by
  intro samples effective
  have h : Finish f settings accuracy r.name entry _ result :=
    (entry.solveBy_finishes strategy r).answer hresult
  have hwell := h.wellFormed
  refine ⟨?_, h.bracketingFailed, h.rootNotBracketed, hwell.root, hwell.message, hwell.bracket,
    hwell.method, fun hstatus => ?_⟩
  · rintro guess xMin xMax rfl
    exact h.validated
  · obtain ⟨x, fx, b, hroot, hb, hjump⟩ := h.jump hstatus
    exact ⟨x, fx, b, hroot, hb, hjump.value, hjump.ends.min, hjump.ends.max, hjump.lt, hjump.le_low,
      hjump.le_high⟩

/-- A jump between neighbouring doubles, found by tolerance and finished by Brent's method. -/
theorem results_are_well_formed_at_jump :
    let f : Objective Double := .ofTotal fun x => if x ≤ 1.0 then -1.0 else 2.0
    let entry : Entry Double := .inBracket 1.0000000000000002 1.0 1.0000000000000004
    let b : Bracket Double := ⟨1.0000000000000002, 1.0000000000000002, 2.0, 2.0⟩
    let result : Result Double :=
      { status := .accuracyNotReached, root := some 1.0, evaluations := 3, method := "brentq",
        reason := .collapsed "brent" 1e-9 b 1.0 (-1.0), bracket := some b }
    let outcome :=
      (entry.solveBy Brentq.strategy ⟨.brentq, none⟩ f { maxEvaluations := 4 } 1e-9).exec .start
    outcome.1 = .ok result ∧
    Validated { maxEvaluations := 4 } 1.0000000000000002 1.0 1.0000000000000004 outcome.2.samples
      result.status ∧
    ∃ x fx b, result.root = some x ∧ result.bracket = some b ∧ f.value x = .ok fx ∧
      (Scalar.isNaN fx = false → Scalar.isNaN b.fMin = false → Scalar.abs fx ≤ Scalar.abs b.fMin) := by
  intro f entry b result
  have hresult : ((entry.solveBy Brentq.strategy ⟨.brentq, none⟩ f { maxEvaluations := 4 } 1e-9).exec
      .start).1 = .ok result := by decide +kernel
  obtain ⟨hsupplied, -, -, -, -, -, -, hjump⟩ := results_are_well_formed Brentq.strategy
    ⟨.brentq, none⟩ f { maxEvaluations := 4 } 1e-9 entry result hresult
  have hvalidated := hsupplied 1.0000000000000002 1.0 1.0000000000000004 rfl
  obtain ⟨x, fx, b, hroot, hb, hvalue, -, -, -, hlow, -⟩ := hjump rfl
  exact ⟨hresult, hvalidated, x, fx, b, hroot, hb, hvalue, hlow⟩

end RootSearch
