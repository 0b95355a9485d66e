import RootSearch.Proofs.TwoRuns
/-!
# Only samples matter

A solve knows its objective by the calls that it makes, and its derivative by calls at the same points.
So another objective that agrees with the first wherever that was sampled is solved alike: the same calls,
the same log and the same end. What the two are elsewhere, and whether they have values there, does not
show.
-/

namespace RootSearch

open Solve

/-- Where `A` holds the second objective has the values and the derivatives of the first. -/
structure Objective.AgreesOn {α : Type} (A : α → Prop) (f g : Objective α) : Prop where
  value : ∀ x, A x → g.value x = f.value x
  slope : Option.Rel (fun slope slope' => ∀ x, A x → slope' x = slope x) f.slope g.slope

namespace Solve

variable {α β γ σ : Type} {A : α → Prop} {s : Session α}

/-- Begun in `s` the first computation goes forward, and the second does what it does if `A` holds of all
that it has sampled in the end. -/
structure Follows (A : α → Prop) (m m' : Solve α β) (s : Session α) : Prop where
  precedes : s.Precedes (m.exec s).2
  same : (∀ x ∈ (m.exec s).2.samples, A x) → m'.exec s = m.exec s

/-! ## Rules -/

theorem Follows.refl {m : Solve α β} (hm : m.Grows) : Follows A m m s := ⟨hm s, fun _ => rfl⟩

theorem Follows.congr {m m' n n' : Solve α β} (h : Follows A n n' s) (hm : m.exec s = n.exec s)
    (hm' : m'.exec s = n'.exec s) : Follows A m m' s := by
  refine ⟨?_, fun hA => ?_⟩
  · rw [hm]
    exact h.precedes
  · rw [hm] at hA ⊢
    rw [hm']
    exact h.same hA

/-- The samples of the first part are among those of the whole. -/
theorem Follows.bind {m m' : Solve α γ} {k k' : γ → Solve α β} (hm : Follows A m m' s)
    (hk : ∀ c t, m.exec s = (.ok c, t) → Follows A (k c) (k' c) t) :
    Follows A (m >>= k) (m' >>= k') s := by
  have hprecedes := hm.precedes
  have hsame := hm.same
  rcases e : m.exec s with ⟨fault | c, t⟩ <;> rw [e] at hprecedes hsame
  · have hexec : (m >>= k).exec s = (.error fault, t) := by rw [exec_bind, e]
    refine ⟨?_, fun hA => ?_⟩ <;> rw [hexec] at *
    · exact hprecedes
    · rw [exec_bind, hsame hA]
  · have hexec : (m >>= k).exec s = (k c).exec t := by rw [exec_bind, e]
    have hk := hk c t e
    refine ⟨?_, fun hA => ?_⟩ <;> rw [hexec] at *
    · exact hprecedes.trans hk.precedes
    · have ht : ∀ x ∈ t.samples, A x := fun x hx =>
        hA x (Array.mem_toList_iff.1 (hk.precedes.samples.subset (Array.mem_toList_iff.2 hx)))
      rw [exec_bind, hsame ht]
      exact hk.same hA

/-- Two computations that begin alike. -/
theorem Follows.after {m : Solve α γ} {k k' : γ → Solve α β} (hm : m.Grows)
    (hk : ∀ c t, Follows A (k c) (k' c) t) : Follows A (m >>= k) (m >>= k') s :=
  (Follows.refl hm).bind fun c t _ => hk c t

theorem Follows.ite {p : Prop} [Decidable p] {m m' n n' : Solve α β} (h : Follows A m m' s)
    (h' : Follows A n n' s) : Follows A (if p then m else n) (if p then m' else n') s := by
  split
  · exact h
  · exact h'

/-- Two loops do alike if their passes do. -/
theorem Follows.whileBudget {limit : Nat} {pass pass' : σ → Solve α (Pass σ β)} {spent : Solve α β}
    {J J' : β → Session α → Prop} (hpass : ∀ state s, Follows A (pass state) (pass' state) s)
    (hadvances : ∀ state, (pass state).Advances J) (hadvances' : ∀ state, (pass' state).Advances J')
    (hspent : spent.Grows) (state : σ) :
    Follows A (whileBudget limit pass spent state) (whileBudget limit pass' spent state) s := by
  -- by induction on what is left of the budget, which every pass that is repeated lowers
  induction hleft : (limit + 1 - s.evaluations).toNat using Nat.strongRecOn generalizing state s with
  | _ left ih =>
    by_cases hb : s.hasBudget limit
    · have hle : s.evaluations ≤ limit := by simpa [Session.hasBudget] using hb
      refine Follows.congr ?_ (exec_whileBudget hadvances hb state) (exec_whileBudget hadvances' hb state)
      refine (hpass state s).bind fun p t e => ?_
      cases p with
      | again state' =>
        have hcharged : s.evaluations < t.evaluations := ((hadvances state s).value e).2
        exact ih _ (by omega) state' rfl
      | stop answer => exact .refl (grows_pure answer)
    · exact Follows.congr (.refl hspent) (exec_whileBudget_spent hb state) (exec_whileBudget_spent hb state)

/-! ## Calls -/

section Calls

variable {f g : Objective α}

theorem Follows.sample (h : f.AgreesOn A g) (x : α) :
    Follows A (Solve.sample f x) (Solve.sample g x) s := by
  refine ⟨grows_sample f x s, fun hA => ?_⟩
  rw [exec_sample] at hA
  rw [exec_sample, exec_sample, h.value x (hA x (by simp))]

theorem exec_point (f : Objective α) (slope : Slope α) (x : α) :
    (Newton.point f slope x).exec s =
      (do return ⟨x, ← f.value x, ← slope x⟩, s.sampled x) := by
  unfold Newton.point
  simp only [exec_bind, exec_sample, exec_attempt]
  rcases f.value x with _ | fx
  · rfl
  · rcases slope x with _ | dfx <;> rfl

/-- The derivative is called where the objective was. -/
theorem Follows.point {slope slope' : Slope α} (h : f.AgreesOn A g)
    (hslope : ∀ x, A x → slope' x = slope x) (x : α) :
    Follows A (Newton.point f slope x) (Newton.point g slope' x) s := by
  refine ⟨?_, fun hA => ?_⟩ <;> rw [exec_point] at *
  · exact (Session.Precedes.refl s).sampled x
  · have hx : A x := hA x (by simp)
    rw [exec_point, h.value x hx, hslope x hx]

/-- Objectives that agree have derivatives that agree, or none. -/
theorem Follows.slopeFor {method : Method} {supplied : Option (Slope α)} {k k' : Slope α → Solve α β}
    (h : f.AgreesOn A g)
    (hk : ∀ slope slope' t, (∀ x, A x → slope' x = slope x) → Follows A (k slope) (k' slope') t) :
    Follows A (attempt (f.slopeFor method supplied) >>= k) (attempt (g.slopeFor method supplied) >>= k')
      s := by
  have hrel := h.slope
  unfold Objective.slopeFor
  cases supplied with
  | some slope => exact hk slope slope s fun _ _ => rfl
  | none =>
    generalize f.slope = own at hrel ⊢
    generalize g.slope = own' at hrel ⊢
    cases hrel with
    | none => exact .refl fun s => .refl s
    | some hslope => exact hk _ _ s hslope

end Calls

end Solve

/-! ## Passes -/

section Passes

variable {α σ : Type} [Scalar α] {A : α → Prop} {f g : Objective α} {accuracy x : α} {method : String}
variable {s : Session α}

theorem visit_follows (h : f.AgreesOn A g) {next next' : α → Solve α (Pass σ (Result α))}
    (hnext : ∀ fx t, Follows A (next fx) (next' fx) t) :
    Follows A (visit f accuracy method x next) (visit g accuracy method x next') s := by
  refine (Follows.sample h x).bind fun fx t _ => .after (grows_setRoot x) fun _ t => .ite (.refl ?_) ?_
  · exact (grows_converged x method).bind fun _ => grows_pure _
  · exact hnext fx t

theorem visitWithSlope_follows {slope slope' : Slope α} (h : f.AgreesOn A g)
    (hslope : ∀ x, A x → slope' x = slope x) {next : Newton.Point α → Solve α (Pass σ (Result α))}
    (hnext : ∀ p, (next p).Grows) :
    Follows A (visitWithSlope f slope accuracy method x next)
      (visitWithSlope g slope' accuracy method x next) s := by
  refine .after (grows_setRoot x) fun _ t => (Follows.point h hslope x).bind fun p t _ => .refl ?_
  exact grows_ite _ ((grows_converged x method).bind fun _ => grows_pure _) (hnext p)

variable (accuracy)

theorem Bisection.pass_follows (h : f.AgreesOn A g) (u : Unit) :
    Follows A (pass f accuracy u) (pass g accuracy u) s :=
  .congr (visit_follows h fun _ _ => .refl grows_settle) (exec_pass f accuracy s u)
    (exec_pass g accuracy s u)

theorem FalsePosition.pass_follows (h : f.AgreesOn A g) (previous : Option α) :
    Follows A (pass f accuracy previous) (pass g accuracy previous) s := by
  refine Follows.congr ?_ (exec_pass f accuracy s previous) (exec_pass g accuracy s previous)
  exact .after (grows_attempt _) fun x t => visit_follows h fun _ _ => .refl grows_settle

theorem Secant.pass_follows (h : f.AgreesOn A g) (p : Points α) :
    Follows A (pass f accuracy p) (pass g accuracy p) s := by
  refine Follows.congr ?_ (exec_pass f accuracy s p) (exec_pass g accuracy s p)
  refine .ite (.refl ((grows_fail _ _ _ _).map _)) (.after (grows_attempt _) fun d t => ?_)
  exact visit_follows h fun _ _ => .refl grows_settle

theorem Ridder.pass_follows (h : f.AgreesOn A g) (u : Unit) :
    Follows A (pass f accuracy u) (pass g accuracy u) s := by
  refine Follows.congr ?_ (exec_pass f accuracy s u) (exec_pass g accuracy s u)
  refine visit_follows h fun fMid t => .after (grows_attempt _) fun scale t => ?_
  refine .ite (.refl ((grows_collapsed _ _ _ _).map _)) (.after (grows_attempt _) fun x t => ?_)
  exact visit_follows h fun _ _ => .refl grows_settle

theorem Newton.pass_follows {slope slope' : Slope α} (h : f.AgreesOn A g)
    (hslope : ∀ x, A x → slope' x = slope x) (p : Point α) :
    Follows A (pass f slope accuracy p) (pass g slope' accuracy p) s := by
  refine Follows.congr ?_ (exec_pass f slope accuracy s p) (exec_pass g slope' accuracy s p)
  refine .ite (.refl ((grows_fail _ _ _ _).map _)) (.after (grows_attempt _) fun dx t => .ite (.refl ?_) ?_)
  · exact (grows_setRoot _).bind fun _ => (grows_fail _ _ _ _).map _
  · exact visitWithSlope_follows h hslope fun _ => grows_settle

theorem SafeNewton.pass_follows {slope slope' : Slope α} (h : f.AgreesOn A g)
    (hslope : ∀ x, A x → slope' x = slope x) (i : Iterate α) :
    Follows A (pass f slope accuracy i) (pass g slope' accuracy i) s := by
  refine Follows.congr ?_ (exec_pass f slope accuracy s i) (exec_pass g slope' accuracy s i)
  exact .after (grows_attempt _) fun (dx, x) t => visitWithSlope_follows h hslope fun _ => grows_settle

theorem Brent.pass_follows (h : f.AgreesOn A g) (i : Iterate α) :
    Follows A (pass f accuracy i) (pass g accuracy i) s := by
  refine Follows.congr ?_ (exec_pass f accuracy s i) (exec_pass g accuracy s i)
  rcases arrange s.bracket i with ⟨b, i⟩
  refine .after (grows_setBracket _) fun _ t => .after (grows_setRoot _) fun _ t => ?_
  refine .ite (.refl ((grows_converged _ _).map _)) (.ite (.refl ((grows_collapsed _ _ _ _).map _)) ?_)
  refine .after (grows_attempt _) fun (step, lastStep) t => .after (grows_setBracket _) fun _ t => ?_
  exact visit_follows h fun _ _ => .refl (grows_pure _)

end Passes

/-! ## Solves -/

section Solves

variable {α : Type} [Scalar α] {A : α → Prop} {f g : Objective α} {accuracy : α} {s : Session α}

theorem Refiner.refine_follows {r : Refiner α} (hr : r.method ≠ .brentq) (h : f.AgreesOn A g)
    (limit : Nat) : Follows A (r.refine f limit accuracy) (r.refine g limit accuracy) s := by
  have hexhausted (method : String) : (exhausted limit method : Solve α (Result α)).Grows :=
    (exhausted_concludes limit method).grows
  unfold Refiner.refine Refiner.refineBy
  cases hmethod : r.method with
  | brentq => exact absurd hmethod hr
  | bisection =>
    exact .whileBudget (fun u s => Bisection.pass_follows accuracy h u) (Bisection.pass_advances f accuracy)
      (Bisection.pass_advances g accuracy) (hexhausted _) ()
  | falsePosition =>
    exact .whileBudget (fun previous s => FalsePosition.pass_follows accuracy h previous)
      (FalsePosition.pass_advances f accuracy) (FalsePosition.pass_advances g accuracy) (hexhausted _) _
  | ridder =>
    exact .whileBudget (fun u s => Ridder.pass_follows accuracy h u) (Ridder.pass_advances f accuracy)
      (Ridder.pass_advances g accuracy) (hexhausted _) ()
  | secant =>
    exact .after grows_bracket fun b t =>
      .whileBudget (fun p s => Secant.pass_follows accuracy h p) (Secant.pass_advances f accuracy)
        (Secant.pass_advances g accuracy) (hexhausted _) _
  | newton =>
    refine .slopeFor h fun slope slope' t hslope => .after grows_get fun u t => ?_
    refine (Follows.point h hslope u.root).bind fun p t _ => .ite (.refl (grows_converged _ _)) ?_
    exact .whileBudget (fun p s => Newton.pass_follows accuracy h hslope p)
      (Newton.pass_advances f slope accuracy) (Newton.pass_advances g slope' accuracy) (hexhausted _) p
  | safeNewton =>
    refine .slopeFor h fun slope slope' t hslope => .after grows_bracket fun b t => ?_
    refine .after grows_get fun u t => (Follows.point h hslope u.root).bind fun p t _ => ?_
    refine .ite (.refl (grows_converged _ _)) ?_
    exact .whileBudget (fun i s => SafeNewton.pass_follows accuracy h hslope i)
      (SafeNewton.pass_advances f slope accuracy) (SafeNewton.pass_advances g slope' accuracy)
      (hexhausted _) _
  | brent =>
    refine .after grows_get fun u t => (Follows.sample h u.root).bind fun fx t _ => ?_
    refine .ite (.refl (grows_converged _ _)) (.after grows_bracket fun b t => ?_)
    refine .after (grows_setBracket _) fun _ t => ?_
    exact .whileBudget (fun i s => Brent.pass_follows accuracy h i) (Brent.pass_advances f accuracy)
      (Brent.pass_advances g accuracy) (hexhausted _) _

namespace Search

variable {settings : Settings α} {method : String}

omit [Scalar α] in
theorem sampleMin_follows (h : f.AgreesOn A g) (x : α) : Follows A (sampleMin f x) (sampleMin g x) s :=
  (Follows.sample h x).bind fun fx _ _ => .refl (grows_setMin x fx)

omit [Scalar α] in
theorem sampleMax_follows (h : f.AgreesOn A g) (x : α) : Follows A (sampleMax f x) (sampleMax g x) s :=
  (Follows.sample h x).bind fun fx _ _ => .refl (grows_setMax x fx)

theorem expand_follows (h : f.AgreesOn A g) (side : Side) :
    Follows A (expand f settings side) (expand g settings side) s := by
  have hlog (t : Session α) : Follows A (do log (.expanded side (← bracket)))
      (do log (.expanded side (← bracket))) t :=
    .refl (grows_bracket.bind fun b => grows_log _)
  have hcharge : (charge 1 : Solve α Unit).Grows := fun t =>
    ⟨List.prefix_refl _, Int.le_add_one (Int.le_refl t.evaluations)⟩
  refine .after grows_bracket fun b t => ?_
  cases side with
  | low => exact (sampleMin_follows h _).bind fun _ u _ => hlog u
  | high => exact (sampleMax_follows h _).bind fun _ u _ => hlog u
  | tieHigh => exact (sampleMax_follows h _).bind fun _ u _ => hlog u
  | tieLow => exact (sampleMin_follows h _).bind fun _ u _ => .after hcharge fun _ u => hlog u

theorem pass_follows (h : f.AgreesOn A g) (tieLow : Bool) :
    Follows A (pass f settings method tieLow) (pass g settings method tieLow) s := by
  have hanswers (x : α) : (do return .stop (.answered (← converged x method)) :
      Solve α (Pass Bool (Outcome α))).Grows := (grows_converged x method).bind fun _ => grows_pure _
  refine .after grows_bracket fun b t => .ite (.ite (.refl (hanswers _)) (.ite (.refl (hanswers _)) ?_)) ?_
  · exact .refl ((grows_setRoot _).bind fun _ => grows_get.bind fun u =>
      (grows_log _).bind fun _ => grows_pure _)
  · exact (expand_follows h _).bind fun _ u _ => .refl (grows_pure _)

theorem aroundGuess_follows (h : f.AgreesOn A g) (guess step : α) :
    Follows A (aroundGuess f settings accuracy guess step method)
      (aroundGuess g settings accuracy guess step method) s := by
  refine .after (grows_setRoot guess) fun _ t => (Follows.sample h guess).bind fun fx t _ => .ite ?_ ?_
  · exact .refl ((grows_setBracket _).bind fun _ => (grows_converged _ _).bind fun _ => grows_pure _)
  · refine Follows.bind (.ite ?_ ?_) fun _ u _ => ?_
    · exact (Follows.sample h _).bind fun fx' u _ => .refl (grows_setBracket _)
    · exact (Follows.sample h _).bind fun fx' u _ => .refl (grows_setBracket _)
    · exact .whileBudget (fun tieLow s => pass_follows h tieLow) (pass_advances f settings method)
        (pass_advances g settings method) (giveUp_concludes _ method).grows true

theorem supplied_follows (h : f.AgreesOn A g) (guess xMin xMax : α) :
    Follows A (supplied f settings accuracy guess xMin xMax method)
      (supplied g settings accuracy guess xMin xMax method) s := by
  have hanswers (x : α) :
      (do return .answered (← converged x method) : Solve α (Outcome α)).Grows :=
    (grows_converged x method).bind fun _ => grows_pure _
  have hfails (status : Status) (reason : Reason α) :
      (do return .answered (← fail status reason method) : Solve α (Outcome α)).Grows :=
    (grows_fail status reason method none).bind fun _ => grows_pure _
  unfold supplied
  refine .after (grows_setRoot guess) fun _ t => .after (fun _ => ⟨List.prefix_refl _, Int.le_refl _⟩) ?_
  intro _ t
  cases defect? settings guess xMin xMax with
  | some defect => exact .refl (hfails defect.1 defect.2)
  | none =>
    refine (sampleMin_follows h xMin).bind fun _ t _ => .after grows_bracket fun b t => ?_
    refine .ite (.refl (hanswers xMin)) ((sampleMax_follows h xMax).bind fun _ t _ => ?_)
    refine .after grows_bracket fun b t => .ite (.refl (hanswers xMax)) (.refl ?_)
    exact grows_ite _ (grows_pure _) ((grows_log _).bind fun _ => hfails _ _)

end Search

/-- A solve depends on its objective only where it samples that. -/
theorem Entry.solve_follows {r : Refiner α} (hr : r.method ≠ .brentq) (h : f.AgreesOn A g)
    (settings : Settings α) (entry : Entry α) :
    Follows A (entry.solve r f settings accuracy) (entry.solve r g settings accuracy) s := by
  have hsearch : Follows A (entry.search f settings accuracy r.name)
      (entry.search g settings accuracy r.name) s := by
    cases entry with
    | fromGuess guess step => exact Search.aroundGuess_follows h guess step
    | inBracket guess xMin xMax => exact Search.supplied_follows h guess xMin xMax
  unfold solve solveBy
  refine hsearch.bind fun outcome t _ => ?_
  cases outcome with
  | answered result => exact .refl (grows_pure result)
  | bracketed => exact r.refine_follows hr h _

end Solves

end RootSearch
