import RootSearch.Proofs.DoubleOrder
import RootSearch.Proofs.TwoRuns
/-!
# A looser accuracy stops sooner

The accuracy decides only whether a point is accepted: it moves no point and takes no branch that
goes on. So of two solves that differ in their accuracy, the one with the looser accuracy makes the
calls of the other one until it accepts a point that the other one does not.

A collapsed bracket ends both solves at once. Then its best point may be a root for the looser
accuracy alone.
-/

namespace RootSearch

open Solve

variable {α : Type}

/-- A solve ends converged if the stricter one does, and costs the same. -/
structure Result.Looser (r : Result α) (_ : Session α) (r' : Result α) : Prop where
  converged : r'.status = .converged → r.status = .converged
  evaluations : r.evaluations = r'.evaluations

/-- A solve ended converged, with the charges of its session. -/
structure Result.Met (r : Result α) (t : Session α) : Prop where
  converged : r.status = .converged
  reports : r.Reports t

theorem Result.Looser.refl (r : Result α) (t : Session α) : r.Looser t r := ⟨id, rfl⟩

/-- Two passes from one session, the first with the looser accuracy. -/
abbrev PassLoosens {σ : Type} (m m' : Solve α (Pass σ (Result α))) (s : Session α) : Prop :=
  Tracks Same (fun p t p' => p.Pairs (· = ·) (Result.Looser · t ·) p') (Pass.Stops Result.Met) m s m' s

/-- Two computations of a result from one session, the first with the looser accuracy. -/
abbrev Loosens (m m' : Solve α (Result α)) (s : Session α) : Prop :=
  Tracks Same Result.Looser Result.Met m s m' s

/-- What does not see the accuracy. -/
theorem passLoosens_refl {σ : Type} (m : Solve α (Pass σ (Result α))) (s : Session α) :
    PassLoosens m m s :=
  .refl (fun p t => Pass.Pairs.refl (fun _ => rfl) (Result.Looser.refl · t) p) m s

variable [Scalar α] [LawfulScalar α] {f : Objective α} {loose tight x fx : α} {method : String}
variable {s : Session α}

/-! ## Steps of a pass -/

section Steps

variable {σ : Type}

/-- A pass that stops at a point if its value meets the accuracy. -/
theorem accept_loosens (hle : tight ≤ loose) {m m' : Solve α (Pass σ (Result α))} (hgrows : m'.Grows)
    (h : PassLoosens m m' s) :
    PassLoosens (if Scalar.abs fx ≤ loose then Pass.stop <$> converged x method else m)
      (if Scalar.abs fx ≤ tight then Pass.stop <$> converged x method else m') s := by
  have hself : (s.converged x method).Looser s (s.converged x method) := .refl _ s
  have hmet : (s.converged x method).Met s := ⟨rfl, rfl⟩
  exact .ite_sooner (fun hmeets => Scalar.le_trans hmeets hle) (b := .stop (s.converged x method)) rfl
    hself hmet (.refl s) hgrows h

theorem visit_loosens (hle : tight ≤ loose) {next next' : α → Solve α (Pass σ (Result α))}
    (hgrows : ∀ fx, (next' fx).Grows) (h : ∀ fx t, PassLoosens (next fx) (next' fx) t) :
    PassLoosens (visit f loose method x next) (visit f tight method x next') s := by
  exact .after fun fx t => .after fun _ t => accept_loosens hle (hgrows fx) (h fx t)

theorem visitWithSlope_loosens (hle : tight ≤ loose) {slope : Slope α}
    {next next' : Newton.Point α → Solve α (Pass σ (Result α))} (hgrows : ∀ p, (next' p).Grows)
    (h : ∀ p t, PassLoosens (next p) (next' p) t) :
    PassLoosens (visitWithSlope f slope loose method x next)
      (visitWithSlope f slope tight method x next') s := by
  exact .after fun _ t => .after fun p t => accept_loosens hle (hgrows p) (h p t)

theorem collapsed_looser (hle : tight ≤ loose) (t : Session α) :
    (s.collapsed x fx method loose).Looser t (s.collapsed x fx method tight) := by
  simp only [Session.collapsed]
  split
  · next hloose => split <;> exact ⟨fun _ => rfl, rfl⟩
  · next hloose =>
    rw [if_neg fun htight => hloose (Scalar.le_trans htight hle)]
    exact ⟨id, rfl⟩

theorem stop_collapsed_loosens (hle : tight ≤ loose) :
    PassLoosens (Pass.stop <$> collapsed x fx method loose : Solve α (Pass σ (Result α)))
      (Pass.stop <$> collapsed x fx method tight) s := by
  refine .value rfl ?_
  exact collapsed_looser hle _

theorem settle_loosens (hle : tight ≤ loose) {isSmall : Prop} [Decidable isSmall] {b : Bracket α}
    {state : σ} : PassLoosens (settle isSmall b x fx method loose state)
      (settle isSmall b x fx method tight state) s := by
  refine .after fun _ t => .ite Iff.rfl (fun _ => ?_) fun _ => passLoosens_refl _ t
  exact stop_collapsed_loosens hle

end Steps

/-! ## Passes -/

theorem Bisection.pass_loosens (hle : tight ≤ loose) (u : Unit) :
    PassLoosens (pass f loose u) (pass f tight u) s := by
  unfold PassLoosens Tracks
  rw [exec_pass, exec_pass]
  exact visit_loosens hle (fun _ => grows_settle) fun fMid t => settle_loosens hle

theorem FalsePosition.pass_loosens (hle : tight ≤ loose) (previous : Option α) :
    PassLoosens (pass f loose previous) (pass f tight previous) s := by
  unfold PassLoosens Tracks
  rw [exec_pass, exec_pass]
  exact Tracks.after fun x t => visit_loosens hle (fun _ => grows_settle) fun fx t => settle_loosens hle

theorem Secant.pass_loosens (hle : tight ≤ loose) (p : Points α) :
    PassLoosens (pass f loose p) (pass f tight p) s := by
  unfold PassLoosens Tracks
  rw [exec_pass, exec_pass]
  refine Tracks.ite Iff.rfl (fun _ => passLoosens_refl _ s) fun _ => .after fun d t => ?_
  exact visit_loosens hle (fun _ => grows_settle) fun fx t => settle_loosens hle

theorem Ridder.pass_loosens (hle : tight ≤ loose) (u : Unit) :
    PassLoosens (pass f loose u) (pass f tight u) s := by
  unfold PassLoosens Tracks
  rw [exec_pass, exec_pass]
  refine visit_loosens hle (fun fMid => ?_) fun fMid t => .after fun scale t => ?_
  · refine (grows_attempt _).bind fun scale => grows_ite _ ((grows_collapsed _ _ _ _).map _) ?_
    exact (grows_attempt _).bind fun x => grows_visit fun fx => grows_settle
  · refine .ite Iff.rfl (fun _ => stop_collapsed_loosens hle) fun _ => .after fun x t => ?_
    exact visit_loosens hle (fun _ => grows_settle) fun fx t => settle_loosens hle

theorem Newton.pass_loosens (hle : tight ≤ loose) {slope : Slope α} (p : Point α) :
    PassLoosens (pass f slope loose p) (pass f slope tight p) s := by
  unfold PassLoosens Tracks
  rw [exec_pass, exec_pass]
  refine Tracks.ite Iff.rfl (fun _ => passLoosens_refl _ s) fun _ => .after fun dx t => ?_
  refine .ite Iff.rfl (fun _ => passLoosens_refl _ t) fun _ => ?_
  exact visitWithSlope_loosens hle (fun _ => grows_settle) fun q t => settle_loosens hle

theorem SafeNewton.pass_loosens (hle : tight ≤ loose) {slope : Slope α} (i : Iterate α) :
    PassLoosens (pass f slope loose i) (pass f slope tight i) s := by
  unfold PassLoosens Tracks
  rw [exec_pass, exec_pass]
  refine Tracks.after fun (dx, x) t => ?_
  exact visitWithSlope_loosens hle (fun _ => grows_settle) fun p t => settle_loosens hle

theorem Brent.pass_loosens (hle : tight ≤ loose) (i : Iterate α) :
    PassLoosens (pass f loose i) (pass f tight i) s := by
  unfold PassLoosens Tracks
  rw [exec_pass, exec_pass]
  rcases arrange s.bracket i with ⟨b, i⟩
  refine Tracks.after fun _ t => .after fun _ t => ?_
  refine accept_loosens hle ?_ ?_
  · refine grows_ite _ ((grows_collapsed _ _ _ _).map _) ((grows_attempt _).bind fun (step, lastStep) => ?_)
    exact (grows_setBracket _).bind fun _ => grows_visit fun fx => grows_pure _
  · refine .ite Iff.rfl (fun _ => stop_collapsed_loosens hle) fun _ => ?_
    refine .after fun (step, lastStep) t => .after fun _ t => ?_
    exact visit_loosens hle (fun _ => grows_pure _) fun fx t => passLoosens_refl _ t

/-! ## Refinements -/

section Refinements

variable {limit : Nat}

omit [Scalar α] [LawfulScalar α] in
theorem loosens_whileBudget {σ : Type} {pass : α → σ → Solve α (Pass σ (Result α))}
    (hadvances : ∀ accuracy state, (pass accuracy state).Advances Result.Reports)
    (hpass : ∀ state s, PassLoosens (pass loose state) (pass tight state) s) (state : σ)
    (s : Session α) : Loosens (whileBudget limit (pass loose) (exhausted limit method) state)
      (whileBudget limit (pass tight) (exhausted limit method) state) s := by
  refine tracks_whileBudget (S := fun state _ state' => state = state') ?_ ?_ ?_ (hadvances loose)
    (hadvances tight) (exhausted_concludes limit method) rfl rfl
  · rintro state s _ _ rfl rfl
    exact hpass state s
  · rintro s _ rfl hb
    exact hb
  · rintro state s _ _ rfl rfl hb
    unfold Tracks
    rw [exec_whileBudget_spent hb]
    exact .value rfl (.refl _ s)

/-- A refinement that begins with a call at the estimate. -/
theorem opens_loosens (hle : tight ≤ loose) {m m' : Solve α (Result α)} (hgrows : m'.Grows)
    (h : Loosens m m' s) : Loosens (if Scalar.abs fx ≤ loose then converged x method else m)
      (if Scalar.abs fx ≤ tight then converged x method else m') s :=
  .ite_sooner (fun h => Scalar.le_trans h hle) rfl (.refl _ s) ⟨rfl, rfl⟩ (.refl s) hgrows h

theorem Refiner.refine_loosens {r : Refiner α} (hr : r.method ≠ .brentq) (hle : tight ≤ loose)
    (s : Session α) : Loosens (r.refine f limit loose) (r.refine f limit tight) s := by
  unfold Refiner.refine Refiner.refineBy
  cases h : r.method with
  | bisection =>
    exact loosens_whileBudget (Bisection.pass_advances f) (fun u s => Bisection.pass_loosens hle u) () s
  | brent =>
    have hadvances := Brent.pass_advances f
    refine .after fun t t' => .after fun fx u =>
      opens_loosens hle ?_ (.after fun b u => .after fun _ u => ?_)
    · refine grows_bracket.bind fun b => (grows_setBracket _).bind fun _ => ?_
      exact (concludes_whileBudget (hadvances tight) (exhausted_concludes _ _) _).grows
    · exact loosens_whileBudget hadvances (fun i s => Brent.pass_loosens hle i) _ u
  | brentq => exact absurd h hr
  | falsePosition =>
    exact loosens_whileBudget (FalsePosition.pass_advances f)
      (fun previous s => FalsePosition.pass_loosens hle previous) _ s
  | newton =>
    refine .after fun slope t => .after fun u t => .after fun p t => ?_
    have hadvances := Newton.pass_advances f slope
    refine opens_loosens hle ?_ ?_
    · exact (concludes_whileBudget (hadvances tight) (exhausted_concludes _ _) p).grows
    · exact loosens_whileBudget hadvances (fun p s => Newton.pass_loosens hle p) p t
  | safeNewton =>
    refine .after fun slope t => .after fun b t => .after fun u t => .after fun p t => ?_
    have hadvances := SafeNewton.pass_advances f slope
    refine opens_loosens hle ?_ ?_
    · exact (concludes_whileBudget (hadvances tight) (exhausted_concludes _ _) _).grows
    · exact loosens_whileBudget hadvances (fun i s => SafeNewton.pass_loosens hle i) _ t
  | ridder =>
    exact loosens_whileBudget (Ridder.pass_advances f) (fun u s => Ridder.pass_loosens hle u) () s
  | secant =>
    refine .after fun b t => ?_
    exact loosens_whileBudget (Secant.pass_advances f) (fun p s => Secant.pass_loosens hle p) _ t

end Refinements

/-! ## Searches -/

namespace Search

variable {settings : Settings α}

/-- Two searches from one session, the first with the looser accuracy. -/
abbrev Loosens (m m' : Solve α (Outcome α)) (s : Session α) : Prop :=
  Tracks Same (fun o t o' => o.Pairs (Result.Looser · t ·) True o') (Outcome.Stops Result.Met) m s m' s

omit [Scalar α] [LawfulScalar α] in
theorem loosens_refl (m : Solve α (Outcome α)) (s : Session α) : Loosens m m s :=
  .refl (fun outcome t => Outcome.Pairs.refl (Result.Looser.refl · t) trivial outcome) m s

theorem aroundGuess_loosens (hle : tight ≤ loose) (guess step : α) :
    Loosens (aroundGuess f settings loose guess step method)
      (aroundGuess f settings tight guess step method) s := by
  refine .after fun _ t => .after fun fx t => ?_
  let u := t.narrowed ⟨guess, guess, fx, fx⟩
  have hself : (u.converged guess method).Looser u (u.converged guess method) := .refl _ u
  have hmet : (u.converged guess method).Met u := ⟨rfl, rfl⟩
  have hgrows : (do
      openAround f settings guess fx step
      whileBudget settings.maxEvaluations (pass f settings method)
        (giveUp settings.maxEvaluations method) true : Solve α (Outcome α)).Grows := by
    refine Grows.bind (grows_ite _ ?_ ?_) fun _ => ?_
    · exact (grows_sample f _).bind fun _ => grows_setBracket _
    · exact (grows_sample f _).bind fun _ => grows_setBracket _
    · exact (concludes_whileBudget (pass_advances f settings method) (giveUp_concludes _ _) true).grows
  exact .ite_sooner (fun h => Scalar.le_trans h hle) (b := .answered (u.converged guess method)) rfl hself
    hmet ⟨List.prefix_refl _, Int.le_refl _⟩ hgrows (loosens_refl _ t)

/-- An end of a supplied bracket is a root if its value is below the accuracy. -/
theorem supplied_end_loosens (hle : tight ≤ loose) {m m' : Solve α (Outcome α)} (hgrows : m'.Grows)
    (h : Loosens m m' s) :
    Loosens (if Scalar.abs fx < loose then Outcome.answered <$> converged x method else m)
      (if Scalar.abs fx < tight then Outcome.answered <$> converged x method else m') s := by
  have hself : (s.converged x method).Looser s (s.converged x method) := .refl _ s
  have hmet : (s.converged x method).Met s := ⟨rfl, rfl⟩
  exact .ite_sooner (fun h => Scalar.lt_of_lt_of_le h hle) (b := .answered (s.converged x method)) rfl hself
    hmet (.refl s) hgrows h

theorem supplied_loosens (hle : tight ≤ loose) (guess xMin xMax : α) :
    Loosens (supplied f settings loose guess xMin xMax method)
      (supplied f settings tight guess xMin xMax method) s := by
  unfold supplied
  refine .after fun _ t => .after fun _ t => ?_
  cases defect? settings guess xMin xMax with
  | some defect => exact loosens_refl _ t
  | none =>
    have hsigns (b : Bracket α) : (if b.fMin * b.fMax < 0.0 then pure .bracketed else do
        log (.notBracketed (.notBracketed b))
        return .answered (← fail .rootNotBracketed (.notBracketed b) method) :
          Solve α (Outcome α)).Grows := by
      refine grows_ite _ (grows_pure _) ((grows_log _).bind fun _ => ?_)
      exact (grows_fail _ _ _ _).bind fun _ => grows_pure _
    refine .after fun _ t => .after fun b t => supplied_end_loosens hle ?_ (.after fun _ t => ?_)
    · refine Grows.bind ((grows_sample f xMax).bind fun fMax => grows_setMax xMax fMax) fun _ => ?_
      refine grows_bracket.bind fun b => grows_ite _ ?_ (hsigns b)
      exact (grows_converged xMax method).bind fun _ => grows_pure _
    · exact .after fun b t => supplied_end_loosens hle (hsigns b) (loosens_refl _ t)

end Search

/-! ## Solves -/

theorem Entry.solve_loosens {r : Refiner α} {settings : Settings α} (hr : r.method ≠ .brentq)
    (hle : tight ≤ loose) (heff : Scalar.effectiveAccuracy tight ≤ Scalar.effectiveAccuracy loose)
    (entry : Entry α) (s : Session α) :
    Loosens (entry.solve r f settings loose) (entry.solve r f settings tight) s := by
  have hgrows := (r.refine_concludes hr f settings.maxEvaluations (Scalar.effectiveAccuracy tight)).grows
  refine solve_tracks (H := fun _ => True) ?_ ?_ hgrows
  · cases entry with
    | fromGuess guess step => exact Search.aroundGuess_loosens hle guess step
    | inBracket guess xMin xMax => exact Search.supplied_loosens hle guess xMin xMax
  · rintro t _ rfl -
    exact r.refine_loosens hr heff t

/-- With a looser accuracy a solve in doubles makes the first of the calls that it makes with a
tighter one. If it converges with the tighter one it converges with the looser one, at no more
evaluations. -/
theorem looser_accuracy_converges_sooner (r : Refiner Double) (f : Objective Double)
    (settings : Settings Double) (entry : Entry Double) (loose tight : Double)
    (hr : r.method ≠ .brentq) (htight : 0.0 ≤ tight) (hle : tight ≤ loose) :
    let first := (entry.solve r f settings loose).exec .start
    let second := (entry.solve r f settings tight).exec .start
    first.2.samples.toList <+: second.2.samples.toList ∧
    (∀ result, second.1 = .ok result → result.status = .converged →
      ∃ result', first.1 = .ok result' ∧ result'.status = .converged ∧
        result'.evaluations ≤ result.evaluations) := by
  have habs : Scalar.abs tight ≤ Scalar.abs loose :=
    Scalar.le_trans (Double.abs_le_self htight)
      (Scalar.le_trans hle (Scalar.le_abs (Scalar.le_refl_of_le hle).2))
  have heff := Scalar.effectiveAccuracy_mono (Scalar.le_refl_of_le hle).2 habs
  have h : Loosens (entry.solve r f settings loose) (entry.solve r f settings tight) .start :=
    entry.solve_loosens hr hle heff .start
  have hconcludes : (entry.solve r f settings tight).Concludes Result.Reports :=
    entry.solve_concludes hr f settings
  intro first second
  have h : Tracked Same Result.Looser Result.Met first second := h
  have hreports (result u) (e : second = (.ok result, u)) : result.Reports u :=
    ((hconcludes .start).value e).2
  generalize first = o at h ⊢
  generalize second = o' at h hreports ⊢
  cases h with
  | value hs hlooser =>
    cases hs
    refine ⟨List.prefix_refl _, ?_⟩
    rintro result ⟨⟩ hconverged
    exact ⟨_, rfl, hlooser.converged hconverged, Int.le_of_eq hlooser.evaluations⟩
  | fault hs =>
    cases hs
    refine ⟨List.prefix_refl _, ?_⟩
    rintro result ⟨⟩
  | @sooner result' t _ hmet hrest =>
    refine ⟨hrest.samples, ?_⟩
    obtain ⟨answer, u⟩ := o'
    rintro result ⟨⟩ -
    refine ⟨result', rfl, hmet.converged, ?_⟩
    calc result'.evaluations = t.evaluations := hmet.reports
      _ ≤ u.evaluations := hrest.evaluations
      _ = result.evaluations := (hreports result u rfl).symm

/-- The square root of two by Brent's method, to two decimals and to six. -/
theorem looser_accuracy_converges_sooner_square_root :
    let settings : Settings Double := {}
    let f : Objective Double := .ofTotal fun x => x * x - 2.0
    let entry : Entry Double := .fromGuess 1.0 0.5
    let r : Refiner Double := ⟨.brent, none⟩
    let first := (entry.solve r f settings 1e-2).exec .start
    let second := (entry.solve r f settings 1e-6).exec .start
    first.2.samples.toList <+: second.2.samples.toList ∧
    second.1.toOption.map (fun result => (result.status, result.evaluations)) = some (.converged, 6) ∧
    ∃ result', first.1 = .ok result' ∧ result'.status = .converged ∧ result'.evaluations ≤ 6 := by
  intro settings f entry r
  have hsecond : ((entry.solve r f settings 1e-6).exec .start).1.toOption.map
      (fun result => (result.status, result.evaluations)) = some (.converged, 6) := by
    decide +kernel
  have hr : r.method ≠ .brentq := by decide
  clear_value settings f entry r
  obtain ⟨hcalls, hconverges⟩ := looser_accuracy_converges_sooner r f settings entry 1e-2 1e-6 hr
    (by decide +kernel) (by decide +kernel)
  refine ⟨hcalls, hsecond, ?_⟩
  rcases hexec : ((entry.solve r f settings 1e-6).exec .start).1 with fault | result
  · rw [hexec] at hsecond
    cases hsecond
  · rw [hexec] at hsecond
    obtain ⟨hstatus, hevaluations⟩ : result.status = .converged ∧ result.evaluations = 6 := by
      simpa [Except.toOption] using hsecond
    obtain ⟨result', hfirst, hconverged, hle⟩ := hconverges result hexec hstatus
    exact ⟨result', hfirst, hconverged, hevaluations ▸ hle⟩

end RootSearch
