import RootSearch.Proofs.Containment
import RootSearch.Proofs.Multiples
import RootSearch.Proofs.TwoRuns
/-!
# Twin runs

Two refinements are twins if they are of multiples of one objective and have the same bracket and
estimate. What they have been charged may differ, and so may what they sampled before. Twins go to
the same points, as long as both have the same budget left: no method sees its evaluations except
through that.
-/

namespace RootSearch

open Solve

/-- What sets twin runs apart: the second is of the objective multiplied by `factor` and has been
charged `ahead` more, and the two made calls `before` they became twins. -/
structure Gap where
  factor : ℝ
  ahead : Int := 0
  before : List ℝ := []
  before' : List ℝ := []

structure Session.Twins (g : Gap) (s s' : Session ℝ) : Prop where
  root : s'.root = s.root
  bracket : s'.bracket = s.bracket.times g.factor
  evaluations : s'.evaluations = s.evaluations + g.ahead
  samples : ∃ l, s.samples.toList = g.before ++ l ∧ s'.samples.toList = g.before' ++ l

/-- The results of twins. Their reasons differ, since these give values. -/
structure Result.Twins (g : Gap) (r r' : Result ℝ) : Prop where
  status : r'.status = r.status
  root : r'.root = r.root
  evaluations : r'.evaluations = r.evaluations + g.ahead
  bracket : r'.bracket = r.bracket.map (Bracket.times g.factor)

variable {g : Gap} {s s' : Session ℝ}

namespace Session.Twins

theorem sampled (h : s.Twins g s') (x : ℝ) : (s.sampled x).Twins g (s'.sampled x) := by
  obtain ⟨l, hl, hl'⟩ := h.samples
  refine ⟨h.root, h.bracket, ?_, l ++ [x], ?_, ?_⟩
  · simp only [Session.sampled_evaluations, h.evaluations]
    omega
  · simp [hl]
  · simp [hl']

theorem narrowed (h : s.Twins g s') (b : Bracket ℝ) :
    (s.narrowed b).Twins g (s'.narrowed (b.times g.factor)) :=
  ⟨h.root, rfl, h.evaluations, h.samples⟩

theorem located (h : s.Twins g s') (x : ℝ) : (s.located x).Twins g (s'.located x) :=
  ⟨rfl, h.bracket, h.evaluations, h.samples⟩

theorem charged (h : s.Twins g s') (n : Int) :
    { s with evaluations := s.evaluations + n }.Twins g { s' with evaluations := s'.evaluations + n } := by
  refine ⟨h.root, h.bracket, ?_, h.samples⟩
  have hevaluations := h.evaluations
  show s'.evaluations + n = s.evaluations + n + g.ahead
  omega

theorem logged (h : s.Twins g s') (event event' : Event ℝ) :
    (s.logged event).Twins g (s'.logged event') :=
  ⟨h.root, h.bracket, h.evaluations, h.samples⟩

theorem fail (h : s.Twins g s') (status : Status) (reason reason' : Reason ℝ) (method : String)
    (root : Option ℝ) :
    (s.fail status reason method root).Twins g (s'.fail status reason' method root) :=
  ⟨rfl, rfl, h.evaluations, congrArg some h.bracket⟩

theorem converged (h : s.Twins g s') (x : ℝ) (method : String) :
    (s.converged x method).Twins g (s'.converged x method) :=
  ⟨rfl, rfl, h.evaluations, congrArg some h.bracket⟩

theorem collapsed (hfactor : g.factor ≠ 0) (h : s.Twins g s') (x fx : ℝ) (method : String)
    (accuracy : ℝ) : (s.collapsed x fx method accuracy).Twins g
      (s'.collapsed x (g.factor * fx) method (|g.factor| * accuracy)) := by
  simp only [Session.collapsed, h.bracket, Bracket.best_times hfactor, Scalar.abs_times_le hfactor]
  split
  · exact h.converged _ method
  · exact h.fail _ _ _ method _

/-- Twins with the same budget left run out of it together. -/
theorem hasBudget (h : s.Twins g s') {limit limit' : Nat} (hlimit : (limit' : Int) = limit + g.ahead) :
    s'.hasBudget limit' ↔ s.hasBudget limit := by
  have hevaluations := h.evaluations
  simp only [Session.hasBudget, decide_eq_true_eq]
  omega

end Session.Twins

/-! ## Steps -/

/-- Two passes of twins. -/
abbrev PassTwins {σ σ' : Type} (g : Gap) (S : σ → Session ℝ → σ' → Prop)
    (m : Solve ℝ (Pass σ (Result ℝ))) (s : Session ℝ) (m' : Solve ℝ (Pass σ' (Result ℝ)))
    (s' : Session ℝ) : Prop :=
  Tracks (Session.Twins g) (fun p t p' => p.Pairs (S · t ·) (Result.Twins g) p') (Pass.Stops never)
    m s m' s'

/-- Two refinements of twins. -/
abbrev RefineTwins (g : Gap) (m : Solve ℝ (Result ℝ)) (s : Session ℝ) (m' : Solve ℝ (Result ℝ))
    (s' : Session ℝ) : Prop :=
  Tracks (Session.Twins g) (fun r _ r' => r.Twins g r') never m s m' s'

/-- Twins end in one fault, or with twin results. -/
theorem RefineTwins.ends {m m' : Solve ℝ (Result ℝ)} (h : RefineTwins g m s m' s') :
    (m.exec s).2.Twins g (m'.exec s').2 ∧
    (∀ result, (m.exec s).1 = .ok result →
      ∃ result', (m'.exec s').1 = .ok result' ∧ result.Twins g result') ∧
    (∀ fault, (m.exec s).1 = .error fault → (m'.exec s').1 = .error fault) := by
  unfold RefineTwins Tracks at h
  generalize m.exec s = outcome at h ⊢
  generalize m'.exec s' = outcome' at h ⊢
  cases h with
  | value ht hr =>
    refine ⟨ht, ?_, ?_⟩
    · rintro result ⟨⟩
      exact ⟨_, rfl, hr⟩
    · rintro fault ⟨⟩
  | fault ht =>
    refine ⟨ht, ?_, ?_⟩
    · rintro result ⟨⟩
    · rintro fault ⟨⟩
      rfl
  | sooner hearly => exact hearly.elim

variable {f : Objective ℝ} {accuracy x : ℝ} {method : String}

theorem sample_twins (hs : s.Twins g s') (f : Objective ℝ) (x : ℝ) :
    Tracks (Session.Twins g) (fun fx t fx' => fx' = g.factor * fx ∧ t.bracket = s.bracket) never
      (sample f x) s (sample (f.times g.factor) x) s' := by
  have ht : (s.sampled x).Twins g (s'.sampled x) := hs.sampled x
  unfold Tracks
  rw [exec_sample, exec_sample]
  show Tracked _ _ _ (f.value x, _) ((f.value x).map (g.factor * ·), _)
  cases f.value x with
  | error fault => exact .fault ht
  | ok fx => exact .value ht ⟨rfl, rfl⟩

theorem point_twins (hs : s.Twins g s') (f : Objective ℝ) (slope : Slope ℝ) (x : ℝ) :
    Tracks (Session.Twins g) (fun p t p' => p' = p.times g.factor ∧ t.bracket = s.bracket) never
      (Newton.point f slope x) s (Newton.point (f.times g.factor) (slope.times g.factor) x) s' := by
  refine (sample_twins hs f x).seq ?_
  rintro fx t _ t' ht ⟨rfl, hbracket⟩
  refine .attempt (g := (g.factor * ·)) ht rfl fun dfx _ => ?_
  exact .value ht ⟨rfl, hbracket⟩

section Steps

variable {σ σ' : Type} {S : σ → Session ℝ → σ' → Prop}

theorem visit_twins (hfactor : g.factor ≠ 0) (haccuracy : 0 ≤ accuracy) (hs : s.Twins g s')
    {next : ℝ → Solve ℝ (Pass σ (Result ℝ))} {next' : ℝ → Solve ℝ (Pass σ' (Result ℝ))}
    (h : ∀ fx t t', fx ≠ 0 → t.Twins g t' → PassTwins g S (next fx) t (next' (g.factor * fx)) t') :
    PassTwins g S (visit f accuracy method x next) s
      (visit (f.times g.factor) (|g.factor| * accuracy) method x next') s' := by
  refine (sample_twins hs f x).seq ?_
  rintro fx t _ t' ht ⟨rfl, -⟩
  have hx : (t.located x).Twins g (t'.located x) := ht.located x
  refine .setRoot (.ite (Scalar.abs_times_le hfactor) (fun _ => ?_) fun hmiss => ?_)
  · exact .value hx (hx.converged x method)
  · exact h fx _ _ (ne_zero_of_missed haccuracy hmiss) hx

theorem visitWithSlope_twins (hfactor : g.factor ≠ 0) (haccuracy : 0 ≤ accuracy) (hs : s.Twins g s')
    {slope : Slope ℝ} {next : Newton.Point ℝ → Solve ℝ (Pass σ (Result ℝ))}
    {next' : Newton.Point ℝ → Solve ℝ (Pass σ' (Result ℝ))}
    (h : ∀ p t t', p.fx ≠ 0 → t.Twins g t' → PassTwins g S (next p) t (next' (p.times g.factor)) t') :
    PassTwins g S (visitWithSlope f slope accuracy method x next) s
      (visitWithSlope (f.times g.factor) (slope.times g.factor) (|g.factor| * accuracy) method x next')
      s' := by
  refine .setRoot ((point_twins (hs.located x) f slope x).seq ?_)
  rintro p t _ t' ht ⟨rfl, -⟩
  refine .ite (Scalar.abs_times_le hfactor) (fun _ => .value ht (ht.converged x method)) fun hmiss => ?_
  exact h p t t' (ne_zero_of_missed haccuracy hmiss) ht

theorem collapsed_twins (hfactor : g.factor ≠ 0) (hs : s.Twins g s') (x fx : ℝ) :
    PassTwins g S (Pass.stop <$> collapsed x fx method accuracy) s
      (Pass.stop <$> collapsed x (g.factor * fx) method (|g.factor| * accuracy)) s' := by
  have hbest : ((s'.bracket).best (x, g.factor * fx)).1 = (s.bracket.best (x, fx)).1 := by
    rw [hs.bracket, Bracket.best_times hfactor]
  refine .value ?_ (hs.collapsed hfactor x fx method accuracy)
  rw [hbest]
  exact hs.located _

theorem settle_twins (hfactor : g.factor ≠ 0) (hs : s.Twins g s') {isSmall isSmall' : Prop}
    [Decidable isSmall] [Decidable isSmall'] (hsmall : isSmall' ↔ isSmall) {b : Bracket ℝ} {fx : ℝ}
    {state : σ} {state' : σ'} (hstate : S state (s.narrowed b) state') :
    PassTwins g S (settle isSmall b x fx method accuracy state) s
      (settle isSmall' (b.times g.factor) x (g.factor * fx) method (|g.factor| * accuracy) state') s' := by
  have ht : (s.narrowed b).Twins g (s'.narrowed (b.times g.factor)) := hs.narrowed b
  refine .setBracket (.ite hsmall (fun _ => ?_) fun _ => .value ht hstate)
  exact collapsed_twins hfactor ht x fx

end Steps

/-! ## Passes -/

/-- The bracket of a method that keeps the sign change. -/
abbrev Straddling {σ σ' : Type} (_ : σ) (t : Session ℝ) (_ : σ') : Prop := t.bracket.Straddles

section Passes

variable (hfactor : g.factor ≠ 0) (haccuracy : 0 ≤ accuracy) (hs : s.Twins g s')

include hfactor haccuracy hs

theorem Bisection.pass_twins (hb : s.bracket.Straddles) (u : Unit) :
    PassTwins g Straddling (pass f accuracy u) s
      (pass (f.times g.factor) (|g.factor| * accuracy) u) s' := by
  unfold PassTwins Tracks
  rw [exec_pass, exec_pass, hs.bracket]
  refine visit_twins hfactor haccuracy hs fun fMid t t' hne ht => ?_
  -- the accuracy was missed, so no value here is zero and signs alone choose the half that is kept
  dsimp only
  rw [Bracket.shrink_times hfactor hb.ne_zero.1 hne]
  refine settle_twins hfactor ht Iff.rfl ?_
  exact hb.shrink hne

theorem FalsePosition.pass_twins (hb : s.bracket.Straddles) (previous : Option ℝ) :
    PassTwins g (fun previous t previous' => previous' = previous ∧ t.bracket.Straddles)
      (pass f accuracy previous) s (pass (f.times g.factor) (|g.factor| * accuracy) previous) s' := by
  unfold PassTwins Tracks
  rw [exec_pass, exec_pass, hs.bracket, chord_times hfactor]
  refine Tracks.attempt_same hs fun x _ => ?_
  refine visit_twins hfactor haccuracy hs fun fx t t' hne ht => ?_
  rw [Bracket.shrink_times hfactor hb.ne_zero.1 hne]
  exact settle_twins hfactor ht Iff.rfl ⟨rfl, hb.shrink hne⟩

theorem Secant.pass_twins (hb : s.bracket.Straddles) (p : Points ℝ) :
    PassTwins g (fun p t p' => p' = p.times g.factor ∧ t.bracket.Straddles) (pass f accuracy p) s
      (pass (f.times g.factor) (|g.factor| * accuracy) (p.times g.factor)) s' := by
  unfold PassTwins Tracks
  rw [exec_pass, exec_pass, hs.bracket, secantStep_times hfactor]
  have hflat : ((p.times g.factor).fx == (p.times g.factor).fLast) = (p.fx == p.fLast) :=
    Scalar.beq_times hfactor
  refine Tracks.ite (by rw [hflat]) (fun _ => .value hs (hs.fail _ _ _ _ _)) fun _ => ?_
  refine .attempt_same hs fun d _ => ?_
  refine visit_twins hfactor haccuracy hs fun fx t t' hne ht => ?_
  rw [Bracket.shrink_times hfactor hb.ne_zero.1 hne]
  exact settle_twins hfactor ht Iff.rfl ⟨rfl, hb.shrink hne⟩

theorem Ridder.pass_twins (hb : s.bracket.Straddles) (u : Unit) :
    PassTwins g Straddling (pass f accuracy u) s
      (pass (f.times g.factor) (|g.factor| * accuracy) u) s' := by
  unfold PassTwins Tracks
  rw [exec_pass, exec_pass, hs.bracket]
  refine visit_twins hfactor haccuracy hs fun fMid t t' hmid ht => ?_
  refine .attempt (g := (|g.factor| * ·)) ht (scale_times hfactor s.bracket fMid) fun scale _ => ?_
  refine .ite (by rw [Scalar.beq_zero_times (abs_ne_zero.2 hfactor)]) (fun _ => ?_) fun _ => ?_
  · exact collapsed_twins hfactor ht s.bracket.midpoint fMid
  · rw [fitted_times hfactor hb]
    refine .attempt_same ht fun x _ => ?_
    refine visit_twins hfactor haccuracy ht fun fx u u' hne hu => ?_
    rw [narrow_times hfactor hb.ne_zero.1 hmid hne]
    refine settle_twins hfactor hu Iff.rfl ?_
    exact narrow_straddles hb hmid hne

theorem Newton.pass_twins {slope : Slope ℝ} (p : Point ℝ) :
    PassTwins g (fun p _ p' => p' = p.times g.factor) (pass f slope accuracy p) s
      (pass (f.times g.factor) (slope.times g.factor) (|g.factor| * accuracy) (p.times g.factor)) s' := by
  unfold PassTwins Tracks
  rw [exec_pass, exec_pass, hs.bracket]
  have hflat : ((p.times g.factor).slope == 0.0) = (p.slope == 0.0) := Scalar.beq_zero_times hfactor
  refine Tracks.ite (by rw [hflat]) (fun _ => .value hs (hs.fail _ _ _ _ _)) fun _ => ?_
  have hstep : Scalar.quotient (p.times g.factor).fx (p.times g.factor).slope =
      Scalar.quotient p.fx p.slope := Scalar.quotient_times hfactor _ _
  rw [hstep]
  refine .attempt_same hs fun dx _ => ?_
  refine .ite Iff.rfl (fun _ => ?_) fun _ => ?_
  · exact .value (hs.located _) ((hs.located _).fail _ _ _ _ _)
  · refine visitWithSlope_twins hfactor haccuracy hs fun q t t' _ ht => ?_
    exact settle_twins hfactor ht Iff.rfl rfl

theorem SafeNewton.pass_twins (hb : s.bracket.Straddles) {slope : Slope ℝ} {i i' : Iterate ℝ}
    (hi : Mirrors g.factor i i') :
    PassTwins g (fun i t i' => Mirrors g.factor i i' ∧ t.bracket.Straddles) (pass f slope accuracy i) s
      (pass (f.times g.factor) (slope.times g.factor) (|g.factor| * accuracy) i') s' := by
  unfold PassTwins Tracks
  rw [exec_pass, exec_pass, hs.bracket]
  obtain ⟨turn, hturn, hadvance⟩ := advance_mirrors hfactor hi
  refine Tracks.attempt hs hadvance fun (dx, x) _ => ?_
  refine visitWithSlope_twins hfactor haccuracy hs fun p t t' hne ht => ?_
  have habs : |turn * dx| = |dx| := by rw [abs_mul, hturn, one_mul]
  rw [show (p.times g.factor).fx = g.factor * p.fx from rfl, Bracket.shrink_times hfactor hb.ne_zero.1 hne]
  refine settle_twins hfactor ht ?_ ⟨next_mirrors hi habs hne, hb.shrink hne⟩
  rw [Scalar.real_abs, habs]
  exact Iff.rfl

theorem Brent.pass_twins (i : Iterate ℝ) :
    PassTwins g (fun i _ i' => i' = i.times g.factor) (pass f accuracy i) s
      (pass (f.times g.factor) (|g.factor| * accuracy) (i.times g.factor)) s' := by
  unfold PassTwins Tracks
  rw [exec_pass, exec_pass, hs.bracket, arrange_times hfactor]
  rcases arrange s.bracket i with ⟨b, i⟩
  have ht := (hs.narrowed b).located i.x
  refine Tracks.setBracket (.setRoot ?_)
  refine .ite (Scalar.abs_times_le hfactor) (fun _ => .value ht (ht.converged i.x name)) fun _ => ?_
  refine .ite Iff.rfl (fun _ => collapsed_twins hfactor ht i.x i.fx) fun _ => ?_
  rw [chooseStep_times hfactor]
  refine .attempt_same ht fun (step, lastStep) _ => ?_
  have hu := ht.narrowed { b with xMin := i.x, fMin := i.fx }
  exact .setBracket (visit_twins hfactor haccuracy hu fun fx t t' _ ht => .value ht rfl)

end Passes

/-! ## Refinements -/

section Refinements

variable {limit limit' : Nat}

/-- Loops of twins with the same budget left. -/
theorem twins_whileBudget {σ σ' : Type} {S : σ → Session ℝ → σ' → Prop}
    {pass : σ → Solve ℝ (Pass σ (Result ℝ))} {pass' : σ' → Solve ℝ (Pass σ' (Result ℝ))}
    (hlimit : (limit' : Int) = limit + g.ahead)
    (hadvances : ∀ state, (pass state).Advances Result.Reports)
    (hadvances' : ∀ state, (pass' state).Advances Result.Reports)
    (hpass : ∀ state s state' s', s.Twins g s' → S state s state' →
      PassTwins g S (pass state) s (pass' state') s')
    {state : σ} {state' : σ'} (hs : s.Twins g s') (hstate : S state s state') :
    RefineTwins g (whileBudget limit pass (exhausted limit method) state) s
      (whileBudget limit' pass' (exhausted limit' method) state') s' := by
  refine tracks_whileBudget hpass ?_ ?_ hadvances hadvances' (exhausted_concludes limit' method) hs hstate
  · intro s s' hs hb
    exact (hs.hasBudget hlimit).2 hb
  · intro state s state' s' hs _ hb
    unfold Tracks
    rw [exec_whileBudget_spent (mt (hs.hasBudget hlimit).1 hb)]
    exact .value hs (hs.fail _ _ _ method none)

variable (hfactor : g.factor ≠ 0) (haccuracy : 0 ≤ accuracy) (hs : s.Twins g s')
variable (hlimit : (limit' : Int) = limit + g.ahead)

include hfactor haccuracy hs hlimit

theorem Brent.refine_twins : RefineTwins g (refine f limit accuracy) s
    (refine (f.times g.factor) limit' (|g.factor| * accuracy)) s' := by
  refine .get ?_
  rw [hs.root]
  refine (sample_twins hs f s.root).seq ?_
  rintro fx t _ t' ht ⟨rfl, hbracket⟩
  refine .ite (Scalar.abs_times_le hfactor) (fun _ => .value ht (ht.converged _ name)) fun _ => ?_
  refine .bracket ?_
  rw [ht.bracket, pickContrapoint_times hfactor]
  have hu := ht.narrowed (pickContrapoint t.bracket fx)
  refine .setBracket (twins_whileBudget hlimit (pass_advances f accuracy) (pass_advances _ _)
    (S := fun i _ i' => i' = i.times g.factor) ?_ hu rfl)
  rintro i t _ t' ht rfl
  exact pass_twins hfactor haccuracy ht i

theorem Newton.refine_twins (supplied : Option (Slope ℝ)) :
    RefineTwins g (refine f supplied limit accuracy) s
      (refine (f.times g.factor) (supplied.map (Slope.times g.factor)) limit' (|g.factor| * accuracy))
      s' := by
  refine .attempt hs (f.slopeFor_times g.factor .newton supplied) fun slope _ => ?_
  refine .get ?_
  rw [hs.root]
  refine (point_twins hs f slope s.root).seq ?_
  rintro p t _ t' ht ⟨rfl, -⟩
  refine .ite (Scalar.abs_times_le hfactor) (fun _ => .value ht (ht.converged _ name)) fun _ => ?_
  refine twins_whileBudget hlimit (pass_advances f slope accuracy) (pass_advances _ _ _)
    (S := fun p _ p' => p' = p.times g.factor) ?_ ht rfl
  rintro p t _ t' ht rfl
  exact pass_twins hfactor haccuracy ht p

theorem SafeNewton.refine_twins (hb : s.bracket.Straddles) (supplied : Option (Slope ℝ)) :
    RefineTwins g (refine f supplied limit accuracy) s
      (refine (f.times g.factor) (supplied.map (Slope.times g.factor)) limit' (|g.factor| * accuracy))
      s' := by
  refine .attempt hs (f.slopeFor_times g.factor .safeNewton supplied) fun slope _ => ?_
  refine .bracket (.get ?_)
  rw [hs.root]
  refine (point_twins hs f slope s.root).seq ?_
  rintro p t _ t' ht ⟨rfl, hbracket⟩
  refine .ite (Scalar.abs_times_le hfactor) (fun _ => .value ht (ht.converged _ name)) fun _ => ?_
  rw [hs.bracket]
  have hmirrors := orient_mirrors hfactor hb.ne_zero.1 s.bracket.width s.bracket.width p
  refine twins_whileBudget hlimit (pass_advances f slope accuracy) (pass_advances _ _ _)
    (S := fun i t i' => Mirrors g.factor i i' ∧ t.bracket.Straddles) ?_ ht ⟨hmirrors, hbracket ▸ hb⟩
  rintro i t i' t' ht ⟨hi, hb⟩
  exact pass_twins hfactor haccuracy ht hb hi

/-- Twins that are refined by one method end as twins. -/
theorem Refiner.refine_twins {r : Refiner ℝ} (hr : r.method ≠ .brentq) (hb : s.bracket.Straddles) :
    RefineTwins g (r.refine f limit accuracy) s
      ((r.times g.factor).refine (f.times g.factor) limit' (|g.factor| * accuracy)) s' := by
  unfold Refiner.refine Refiner.refineBy
  simp only [Refiner.times]
  cases h : r.method with
  | bisection =>
    refine twins_whileBudget hlimit (Bisection.pass_advances f accuracy) (Bisection.pass_advances _ _) ?_ hs
      (S := Straddling) hb
    intro u t u' t' ht hb
    exact Bisection.pass_twins hfactor haccuracy ht hb u
  | brent => exact Brent.refine_twins hfactor haccuracy hs hlimit
  | brentq => exact absurd h hr
  | falsePosition =>
    refine twins_whileBudget hlimit (FalsePosition.pass_advances f accuracy)
      (FalsePosition.pass_advances _ _) (S := fun p t p' => p' = p ∧ t.bracket.Straddles) ?_ hs ⟨rfl, hb⟩
    rintro _ t previous t' ht ⟨rfl, hb⟩
    exact FalsePosition.pass_twins hfactor haccuracy ht hb previous
  | newton => exact Newton.refine_twins hfactor haccuracy hs hlimit r.slope
  | safeNewton => exact SafeNewton.refine_twins hfactor haccuracy hs hlimit hb r.slope
  | ridder =>
    refine twins_whileBudget hlimit (Ridder.pass_advances f accuracy) (Ridder.pass_advances _ _) ?_ hs
      (S := Straddling) hb
    intro u t u' t' ht hb
    exact Ridder.pass_twins hfactor haccuracy ht hb u
  | secant =>
    refine .bracket ?_
    rw [hs.bracket, Secant.ofBracket_times hfactor]
    refine twins_whileBudget hlimit (Secant.pass_advances f accuracy) (Secant.pass_advances _ _)
      (S := fun p t p' => p' = p.times g.factor ∧ t.bracket.Straddles) ?_ hs ⟨rfl, hb⟩
    rintro p t _ t' ht ⟨rfl, hb⟩
    exact Secant.pass_twins hfactor haccuracy ht hb p

end Refinements

end RootSearch
