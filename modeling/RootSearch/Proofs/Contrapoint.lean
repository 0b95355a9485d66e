import RootSearch.Proofs.DoubleProducts
import RootSearch.Proofs.Progress
import RootSearch.Proofs.ReportedEnds
import RootSearch.Proofs.SignsKept
import RootSearch.Proofs.Statuses
/-!
# What Brent's method reports when it fails

Brent's method straddles the root with its estimate and its contrapoint. The other end of its bracket is
the previous estimate or once more the contrapoint, so the bracket of a failure need not straddle
anything: both its ends may be one point. Then the estimate that the failure names is on the other side.
-/

namespace RootSearch

open Solve

variable {α : Type} [Scalar α]

/-- Both ends are one point. -/
structure Bracket.IsPoint (b : Bracket α) : Prop where
  x : b.xMin = b.xMax
  fx : b.fMin = b.fMax

/-- The estimate that a failure names. -/
def Result.estimate? (r : Result α) : Option α :=
  match r.reason with
  | .refinementSpent _ _ _ root => some root
  | _ => r.root

/-- Ends that hold values of opposite signs are two points. -/
theorem Bracket.Straddles.ends_ne [LawfulScalar α] {f : Objective α} {b : Bracket α} (hb : b.Straddles)
    (hvalues : b.All fun x fx => f.value x = .ok fx) : b.xMin ≠ b.xMax := by
  intro e
  have hmin := hvalues.min
  rw [e] at hmin
  have hsame : b.fMin = b.fMax := Except.ok.inj (hmin.symm.trans hvalues.max)
  unfold Bracket.Straddles at hb
  rw [hsame] at hb
  exact Opposite.irrefl _ hb

/-! ## The contrapoint -/

/-- The estimate and the contrapoint straddle zero, and so do the ends unless both are the contrapoint. -/
structure Brent.Faces (b : Bracket α) (fx : α) : Prop where
  opposite : Opposite fx b.fMax
  ends : b.Straddles ∨ b.IsPoint

namespace Brent

variable [LawfulScalar α] {b : Bracket α} {fx : α} {i : Iterate α}

omit [LawfulScalar α] in
theorem pickContrapoint_isPoint (b : Bracket α) (fx : α) : (pickContrapoint b fx).IsPoint := by
  unfold pickContrapoint
  split
  · exact ⟨rfl, rfl⟩
  · exact ⟨rfl, rfl⟩

omit [LawfulScalar α] in
theorem pickContrapoint_faces (hb : b.Straddles) (hfx : Signed fx)
    (hproduct : fx * b.fMin < 0.0 ↔ Opposite fx b.fMin) : Faces (pickContrapoint b fx) fx := by
  refine ⟨?_, .inr (pickContrapoint_isPoint b fx)⟩
  unfold pickContrapoint
  split
  · next h => exact hproduct.1 h
  · next h => exact (Opposite.or_of_signed hb hfx).resolve_left (mt hproduct.2 h)

theorem reset_faces (h : b.Straddles ∨ Faces b i.fx) (hi : Signed i.fx) :
    Faces (reset b i).1 (reset b i).2.fx := by
  have hmax : Signed b.fMax := h.elim (fun h => h.signed.2) fun h => h.opposite.signed.2
  unfold reset
  split
  · next hsame =>
    -- the contrapoint lies beside the estimate, so the previous estimate does not
    have hbeside := (sameSign_iff_of_signed hi hmax).1 hsame
    have hb : b.Straddles := h.resolve_right fun h => hbeside h.opposite
    exact ⟨(Opposite.or_of_signed hb hi).resolve_right hbeside, .inr ⟨rfl, rfl⟩⟩
  · next hsame =>
    rw [sameSign_iff_of_signed hi hmax, not_not] at hsame
    exact ⟨hsame, h.elim .inl fun h => h.ends⟩

omit [LawfulScalar α] in
theorem swap_faces (h : Faces b i.fx) : Faces (swap b i).1 (swap b i).2.fx := by
  unfold swap
  split
  · exact ⟨h.opposite.symm, .inr ⟨rfl, rfl⟩⟩
  · exact h

theorem arrange_faces (h : b.Straddles ∨ Faces b i.fx) (hi : Signed i.fx) :
    Faces (arrange b i).1 (arrange b i).2.fx :=
  swap_faces (reset_faces h hi)

omit [LawfulScalar α] in
theorem best_of_isPoint (h : b.IsPoint) {x : α} (hbest : ¬Scalar.abs b.fMax < Scalar.abs fx) :
    b.best (x, fx) = (x, fx) := by
  simp [Bracket.best, Bracket.closer, h.fx, hbest]

end Brent

/-! ## What failures report -/

/-- What is asked of the sampled values: they show their signs, and the product of two of them tells
whether they have opposite signs. -/
structure Telling (f : Objective α) (accuracy : α) (samples : Array α) : Prop
    extends Signing f accuracy samples where
  product : ∀ {x fx y fy}, Sampled f samples x fx → Sampled f samples y fy →
    (fx * fy < 0.0 ↔ Opposite fx fy)

theorem Telling.of_push {f : Objective α} {accuracy x : α} {samples : Array α}
    (h : Telling f accuracy (samples.push x)) : Telling f accuracy samples :=
  ⟨h.toSigning.of_push, fun hy hz => h.product (hy.push x) (hz.push x)⟩

/-- The reported bracket straddles zero, or it is one point and the estimate that the failure names lies
on the other side of zero. With the budget spent, such a point is reported only by a loop that was
entered after `first` evaluations and no longer within its budget. -/
def Result.Frames (f : Objective α) (limit : Nat) (first : Int) (r : Result α) : Prop :=
  ∃ b, r.bracket = some b ∧ b.All (fun x fx => f.value x = .ok fx) ∧
    (b.Straddles ∨ b.IsPoint ∧
      (∃ x fx, r.estimate? = some x ∧ f.value x = .ok fx ∧ Opposite fx b.fMax) ∧
      (r.status = .maxEvaluationsExceeded → limit < first))

/-- A failure reports a bracket as `Frames` says, provided the sampled values tell signs. -/
abbrev FailsFramed (f : Objective α) (accuracy : α) (limit : Nat) (first : Int) (r : Result α)
    (t : Session α) : Prop :=
  r.status ≠ .converged → Telling f accuracy t.samples → r.Frames f limit first

namespace Brent

variable [LawfulScalar α] {f : Objective α} {accuracy : α} {limit : Nat} {first : Int}
variable {s : Session α} {i : Iterate α}

/-- What holds whenever a pass may begin. Only at the first time may both ends be the contrapoint. -/
structure AtHead (f : Objective α) (accuracy : α) (first : Int) (i : Iterate α) (t : Session α) :
    Prop where
  genuine : t.Genuine f
  estimate : Sampled f t.samples i.x i.fx
  missed : ¬Scalar.abs i.fx ≤ accuracy
  root : t.root = i.x
  faces : Telling f accuracy t.samples →
    t.bracket.Straddles ∨ Faces t.bracket i.fx ∧ t.evaluations = first

omit [LawfulScalar α] in
theorem collapsed_frames (h : Faces s.bracket i.fx)
    (hb : s.bracket.All fun x fx => f.value x = .ok fx) (hi : f.value i.x = .ok i.fx)
    (hbest : ¬Scalar.abs s.bracket.fMax < Scalar.abs i.fx)
    (hfailed : (s.collapsed i.x i.fx name accuracy).status ≠ .converged) :
    (s.collapsed i.x i.fx name accuracy).Frames f limit first := by
  rcases h.ends with hstraddles | hpoint
  · simp only [Session.collapsed] at hfailed ⊢
    split at hfailed
    · exact absurd rfl hfailed
    · next hmiss =>
      rw [if_neg hmiss]
      exact ⟨s.bracket, rfl, hb, .inl hstraddles⟩
  · -- of three points that are two, the estimate is the best
    simp only [Session.collapsed, best_of_isPoint hpoint hbest] at hfailed ⊢
    split at hfailed
    · exact absurd rfl hfailed
    · next hmiss =>
      rw [if_neg hmiss]
      refine ⟨s.bracket, rfl, hb, .inr ⟨hpoint, ⟨i.x, i.fx, rfl, hi, h.opposite⟩, fun hspent => ?_⟩⟩
      cases hspent

theorem pass_frames (h : AtHead f accuracy first i s) :
    (pass f accuracy i).Ensures s
      (fun p t => p.Keeps (fun i => AtHead f accuracy first i t) (FailsFramed f accuracy limit first · t))
      fun _ _ => True := by
  have hfaces (htell : Telling f accuracy s.samples) :
      Faces (arrange s.bracket i).1 (arrange s.bracket i).2.fx :=
    arrange_faces ((h.faces htell).imp_right And.left) (htell.signed h.estimate h.missed)
  have hordered := arrange_ordered s.bracket i
  obtain ⟨hb, hi⟩ := arrange_all h.genuine h.estimate
  rw [ensures_pass]
  generalize arrange s.bracket i = arranged at hfaces hordered hb hi ⊢
  obtain ⟨b, j⟩ := arranged
  refine ⟨fun _ hfailed => absurd rfl hfailed, fun _ => ⟨fun _ hfailed htell => ?_, fun _ => ?_⟩⟩
  · have hvalues := hb.imp fun _ _ hx => hx.value
    exact collapsed_frames (s := (s.narrowed b).located j.x) (hfaces htell) hvalues hi.value hordered
      hfailed
  · apply holds_of_values
    intro (step, lastStep) _
    apply holds_of_values
    intro fx hfx
    refine ⟨fun _ hfailed => absurd rfl hfailed, fun hmiss => ?_⟩
    -- the estimate becomes the other end, and it has the sign that the contrapoint has not
    exact {
      genuine := ⟨hi.push _, hb.max.push _⟩
      estimate := Sampled.latest _ hfx
      missed := hmiss
      root := rfl
      faces := fun htell => .inl (hfaces htell.of_push).opposite }

theorem refine_frames (hs : s.Genuine f)
    (hstraddles : Telling f accuracy s.samples → s.bracket.Straddles) (limit : Nat) :
    (refine f limit accuracy).Ensures s
      (FailsFramed f accuracy limit (s.evaluations + 1)) fun _ _ => True := by
  rw [ensures_refine]
  apply holds_of_values
  intro fx hfx
  refine ⟨fun _ hfailed => absurd rfl hfailed, fun hmiss => ?_⟩
  apply ensures_whileBudget_of_advances (I := AtHead f accuracy (s.evaluations + 1))
    (pass_advances f accuracy)
  · intro i t ht _
    exact pass_frames ht
  · intro i t ht hspent
    rw [ensures_exhausted]
    intro _ htell
    refine ⟨t.bracket, rfl, ht.genuine.imp fun _ _ hx => hx.value, ?_⟩
    rcases ht.faces htell with hb | ⟨hfaces, hfirst⟩
    · exact .inl hb
    · have hover : ¬t.evaluations ≤ limit := by simpa [Session.hasBudget] using hspent
      have hestimate : (t.exhausted limit name).estimate? = some i.x := congrArg some ht.root
      refine hfaces.ends.imp_right fun hpoint => ⟨hpoint, ⟨i.x, i.fx, hestimate, ?_⟩, fun _ => by omega⟩
      exact ⟨ht.estimate.value, hfaces.opposite⟩
  · have hx : Sampled f (s.samples.push s.root) s.root fx := Sampled.latest s.samples hfx
    have hb := Bracket.Genuine.push hs s.root
    exact {
      genuine := pickContrapoint_all hb fx
      estimate := hx
      missed := hmiss
      root := rfl
      faces := fun htell => .inr ⟨pickContrapoint_faces (hstraddles htell.of_push)
        (htell.signed hx hmiss) (htell.product hx hb.min), rfl⟩ }

end Brent

/-! ### The method by tolerance -/

namespace Brentq

variable [LawfulScalar α] {f : Objective α} {accuracy : α} {s : Session α} {b : Bracket α}

/-- Numbers off zero narrow a bracket without loss of its sign change. -/
theorem replay_straddles {found : List (α × α)} (hb : b.Straddles)
    (h : ∀ p ∈ found, Scalar.isNaN p.2 = false) : (replay b found).Straddles := by
  unfold replay
  refine List.foldlRecOn found _ hb fun b hb p hp => ?_
  split
  · exact hb
  · next hzero => exact hb.shrink_of_signed (signed_of_number (h p hp) hzero)

omit [Scalar α] [LawfulScalar α] in
/-- A search by tolerance leaves the bracket alone. -/
theorem run_bracket (inquiry : Inquiry α) (samples : List (α × α)) :
    (inquiry.run f samples).Ensures s (fun _ t => t.bracket = s.bracket) fun _ _ => True := by
  induction inquiry generalizing samples s with
  | finish root isConverged => rfl
  | refuse fault => trivial
  | ask x next ih =>
    simp only [Inquiry.run, ensures_bind, ensures_sample]
    apply holds_of_values
    intro fx _
    exact ih fx ((x, fx) :: samples)

theorem polish_frames (hs : s.Genuine f)
    (hstraddles : Telling f accuracy s.samples → s.bracket.Straddles) (limit : Nat) :
    (polish f limit accuracy).Ensures s
      (FailsFramed f accuracy limit (s.evaluations + 1)) fun _ _ => True := by
  simp only [polish, ensures_bind, ensures_pure]
  exact Brent.refine_frames hs hstraddles limit

theorem refineBy_frames (strategy : Strategy α) (hs : s.Genuine f) (hstraddles : s.bracket.Straddles)
    (limit : Nat) :
    (refineBy strategy f limit accuracy).Ensures s
      (fun result t => ∃ first, FailsFramed f accuracy limit first result t) fun _ _ => True := by
  rw [ensures_refineBy]
  refine ⟨fun _ => ?_, fun _ => ?_⟩
  · exact (polish_frames hs (fun _ => hstraddles) limit).mono (fun _ _ h => ⟨_, h⟩) fun _ _ h => h
  · refine ((run_genuine _ hs (by simp)).and (run_bracket _ [])).mono
      (fun found t h => ⟨fun _ => ⟨0, fun hfailed => absurd rfl hfailed⟩, fun _ => ?_⟩) fun _ _ h => h.1
    obtain ⟨⟨ht, hfound⟩, hbracket⟩ := h
    have hsampled (p : α × α) (hp : p ∈ found.samples.reverse) : Sampled f t.samples p.1 p.2 :=
      hfound p (List.mem_reverse.1 hp)
    let u := (t.narrowed (replay t.bracket found.samples.reverse)).located found.root
    have hu : u.Genuine f := replay_all ht hsampled
    have hustraddles (htell : Telling f accuracy t.samples) : u.bracket.Straddles := by
      refine replay_straddles ?_ fun p hp => htell.number (hsampled p hp)
      rw [hbracket]
      exact hstraddles
    exact (polish_frames (s := u.logged _) hu hustraddles limit).mono (fun _ _ h => ⟨_, h⟩) fun _ _ h => h

end Brentq

theorem Refiner.refineBy_frames [LawfulScalar α] {r : Refiner α}
    (hr : r.method = .brent ∨ r.method = .brentq) {f : Objective α} (strategy : Brentq.Strategy α)
    {accuracy : α} {s : Session α} (hs : s.Genuine f) (hstraddles : s.bracket.Straddles) (limit : Nat) :
    (r.refineBy strategy f limit accuracy).Ensures s
      (fun result t => ∃ first, FailsFramed f accuracy limit first result t ∧
        (r.method = .brent → first = s.evaluations + 1)) fun _ _ => True := by
  unfold refineBy
  rcases hr with hr | hr <;> rw [hr]
  · exact (Brent.refine_frames hs (fun _ => hstraddles) limit).mono (fun _ _ h => ⟨_, h, fun _ => rfl⟩)
      fun _ _ h => h
  · exact (Brentq.refineBy_frames strategy hs hstraddles limit).mono
      (fun _ _ ⟨first, h⟩ => ⟨first, h, nofun⟩) fun _ _ h => h

/-! ## Solves -/

/-- A supplied bracket is handed over after two evaluations, with a product of its values below zero. -/
theorem Search.supplied_hands_product {f : Objective α} {settings : Settings α}
    {accuracy guess xMin xMax : α} {method : String} :
    (supplied f settings accuracy guess xMin xMax method).Ensures .start
      (fun outcome t => outcome = .bracketed →
        t.Genuine f ∧ t.bracket.fMin * t.bracket.fMax < 0.0 ∧ t.evaluations = 2)
      fun _ _ => True := by
  rw [ensures_supplied]
  refine ⟨fun _ _ _ => nofun, fun _ => ?_⟩
  apply holds_of_values
  intro fMin hmin
  refine ⟨fun _ => nofun, fun _ => ?_⟩
  apply holds_of_values
  intro fMax hmax
  refine ⟨fun _ => nofun, fun _ => ⟨fun hproduct _ => ⟨⟨?_, ?_⟩, hproduct, rfl⟩, fun _ => nofun⟩⟩
  · exact (Sampled.latest _ hmin).push xMax
  · exact Sampled.latest _ hmax

/-- A supplied bracket, once sampled, is refined after two evaluations. -/
theorem Entry.inBracket_frames {strategy : Brentq.Strategy Double} {r : Refiner Double}
    {f : Objective Double} {settings : Settings Double} {accuracy guess xMin xMax : Double}
    (hr : r.method = .brent ∨ r.method = .brentq) :
    ((Entry.inBracket guess xMin xMax).solveBy strategy r f settings accuracy).Ensures .start
      (fun result t =>
        result.status = .maxEvaluationsExceeded ∨ result.status = .accuracyNotReached →
        ∃ first, FailsFramed f (Scalar.effectiveAccuracy accuracy) settings.maxEvaluations first result t ∧
          (r.method = .brent → first = 3))
      fun _ _ => True := by
  rw [Entry.ensures_solveBy]
  refine (Search.supplied_hands_product.and (Search.supplied_isOwn xMin xMax)).mono
    (fun outcome t h => outcome.ensures_refineBy.2 ⟨fun answer e => ?_, fun e => ?_⟩) fun _ _ h => h.1
  · rintro (hspent | hcollapsed)
    · exact absurd hspent (h.2.ne_of_answered e (by decide) (by decide))
    · exact absurd hcollapsed (h.2.ne_of_answered e (by decide) (by decide))
  · obtain ⟨hgenuine, hproduct, hcharged⟩ := h.1 e
    refine (r.refineBy_frames hr strategy hgenuine (Double.opposite_of_mul_lt_zero hproduct)
      settings.maxEvaluations).mono (fun result u h _ => ?_) fun _ _ h => h
    obtain ⟨first, hfailed, hfirst⟩ := h
    refine ⟨first, hfailed, fun hbrent => ?_⟩
    rw [hfirst hbrent, hcharged]
    rfl

/-- Let Brent's method, or the one by tolerance, fail in a supplied bracket. Let the sampled values be
numbers whose products tell their opposite signs, and let none of them be zero if the accuracy is not a
number. Then the ends of the reported bracket have values of strictly opposite signs exactly if they are
two points. If they are one, the estimate that the failure names is on the other side of zero. Brent's
method does not report one when it has spent a budget of three evaluations or more. -/
theorem brent_failure_reports (strategy : Brentq.Strategy Double) (r : Refiner Double)
    (f : Objective Double) (settings : Settings Double) (accuracy guess xMin xMax : Double)
    (result : Result Double) (hr : r.method = .brent ∨ r.method = .brentq) :
    let solve := ((Entry.inBracket guess xMin xMax).solveBy strategy r f settings accuracy).exec .start
    solve.1 = .ok result →
    (result.status = .maxEvaluationsExceeded ∨ result.status = .accuracyNotReached) →
    (∀ x fx, Sampled f solve.2.samples x fx → Scalar.isNaN fx = false) →
    (∀ x y fx fy, Sampled f solve.2.samples x fx → Sampled f solve.2.samples y fy → Opposite fx fy →
      fx * fy < 0.0) →
    (Scalar.isNaN accuracy = true → ∀ x fx, Sampled f solve.2.samples x fx → ¬(fx == 0.0) = true) →
    ∃ b, result.bracket = some b ∧ (b.Straddles ↔ b.xMin ≠ b.xMax) ∧
      (b.xMin = b.xMax → ∃ x fx, result.estimate? = some x ∧ f.value x = .ok fx ∧ Opposite fx b.fMax) ∧
      (r.method = .brent → result.status = .maxEvaluationsExceeded → 3 ≤ settings.maxEvaluations →
        b.Straddles) := by
  intro solve hresult hstatus hnumbers hproducts hzeros
  obtain ⟨first, hfailed, hfirst⟩ := (Entry.inBracket_frames hr).answer hresult hstatus
  have hne : result.status ≠ .converged := by
    rcases hstatus with h | h <;> rw [h] <;> nofun
  have htell : Telling f (Scalar.effectiveAccuracy accuracy) solve.2.samples :=
    ⟨.of_numbers hnumbers hzeros,
      fun hx hy => ⟨Double.opposite_of_mul_lt_zero, hproducts _ _ _ _ hx hy⟩⟩
  obtain ⟨b, hb, hvalues, hends⟩ := hfailed hne htell
  refine ⟨b, hb, ⟨fun h => h.ends_ne hvalues, fun hne => ?_⟩, fun e => ?_,
    fun hbrent hspent hlimit => ?_⟩
  · exact hends.resolve_right fun h => hne h.1.x
  · exact (hends.resolve_left fun h => h.ends_ne hvalues e).2.1
  · refine hends.resolve_right fun h => ?_
    have hfew := h.2.2 hspent
    rw [hfirst hbrent] at hfew
    omega

/-- A jump over zero, with a budget that the ends and the guess spend. -/
theorem brent_failure_reports_spent :
    let f : Objective Double := .ofTotal fun x => if x < 2.0 then -3.0 else 5.0
    let point : Bracket Double := ⟨3.0, 3.0, 5.0, 5.0⟩
    let result : Result Double :=
      { status := .maxEvaluationsExceeded, evaluations := 3, method := "brent",
        reason := .refinementSpent "brent" 2 point 1.0, bracket := some point }
    (((Entry.inBracket 1.0 0.0 3.0).solveBy Brentq.strategy ⟨.brent, none⟩ f { maxEvaluations := 2 }
      1e-9).exec .start).1 = .ok result ∧
    ∃ b, some point = some b ∧ (b.Straddles ↔ b.xMin ≠ b.xMax) ∧
      (b.xMin = b.xMax → ∃ x fx, result.estimate? = some x ∧ f.value x = .ok fx ∧ Opposite fx b.fMax) ∧
      (Method.brent = .brent → result.status = .maxEvaluationsExceeded → 3 ≤ 2 → b.Straddles) := by
  intro f point result
  have hvalue (x fx : Double) (h : f.value x = .ok fx) : fx = -3.0 ∨ fx = 5.0 := by
    cases h
    show (if x < 2.0 then -3.0 else 5.0 : Double) = -3.0 ∨ (if x < 2.0 then -3.0 else 5.0 : Double) = 5.0
    split
    · exact .inl rfl
    · exact .inr rfl
  have hresult : (((Entry.inBracket 1.0 0.0 3.0).solveBy Brentq.strategy ⟨.brent, none⟩ f
      { maxEvaluations := 2 } 1e-9).exec .start).1 = .ok result := by decide +kernel
  refine ⟨hresult, brent_failure_reports Brentq.strategy ⟨.brent, none⟩ f { maxEvaluations := 2 } 1e-9 1.0
    0.0 3.0 result (.inl rfl) hresult (.inl rfl) ?_ ?_ fun haccuracy => ?_⟩
  · intro x fx hx
    rcases hvalue x fx hx.value with rfl | rfl <;> decide +kernel
  · intro x y fx fy hx hy
    unfold Opposite
    rcases hvalue x fx hx.value with rfl | rfl <;> rcases hvalue y fy hy.value with rfl | rfl <;>
      decide +kernel
  · exact absurd haccuracy (by decide +kernel)

/-- Both methods report one point as their bracket: when the ends and the guess have spent the budget,
when the search by tolerance has, and when the bracket has collapsed about a jump. -/
theorem brent_failure_reports_point :
    let f : Objective Double := .ofTotal fun x => if x < 2.0 then -3.0 else 5.0
    let report (method : Method) (limit : Nat) (guess xMin xMax : Double) :=
      ((solveInBracket ⟨method, none⟩ f { maxEvaluations := limit } 1e-9 guess xMin xMax).exec
        .start).1.toOption.map fun result => (result.status, result.bracket)
    (∀ x fx, f.value x = .ok fx → Scalar.isNaN fx = false) ∧
    report .brent 2 1.0 0.0 3.0 = some (.maxEvaluationsExceeded, some ⟨3.0, 3.0, 5.0, 5.0⟩) ∧
    report .brentq 5 1.0 0.0 3.0 = some (.maxEvaluationsExceeded, some ⟨3.0, 3.0, 5.0, 5.0⟩) ∧
    report .brent 100 2.0 1.9999999999999998 2.0000000000000004 =
      some (.accuracyNotReached, some ⟨2.0, 2.0, 5.0, 5.0⟩) ∧
    ¬(⟨3.0, 3.0, 5.0, 5.0⟩ : Bracket Double).Straddles ∧
    ¬(⟨2.0, 2.0, 5.0, 5.0⟩ : Bracket Double).Straddles := by
  refine ⟨fun x fx hfx => ?_, by decide +kernel, by decide +kernel, by decide +kernel,
    Opposite.irrefl 5.0, Opposite.irrefl 5.0⟩
  cases hfx
  show Scalar.isNaN (if x < 2.0 then -3.0 else 5.0 : Double) = false
  split <;> decide +kernel

end RootSearch
