import RootSearch.Proofs.Passes
import RootSearch.Proofs.Searching
/-!
# Runs go forward

A computation adds samples and charges and takes none back. A pass that asks to be repeated has been
charged for a call, so every loop ends with its budget, and the fuel that a loop is given does not
show in what it does.
-/

namespace RootSearch

open Solve

/-- `t` has the samples of `s` in front of its own, and was charged no less. -/
structure Session.Precedes {α : Type} (s t : Session α) : Prop where
  samples : s.samples.toList <+: t.samples.toList
  evaluations : s.evaluations ≤ t.evaluations

namespace Session.Precedes

variable {α : Type} {s t u : Session α}

theorem refl (s : Session α) : s.Precedes s := ⟨List.prefix_refl _, Int.le_refl _⟩

theorem trans (h : s.Precedes t) (h' : t.Precedes u) : s.Precedes u :=
  ⟨h.samples.trans h'.samples, Int.le_trans h.evaluations h'.evaluations⟩

theorem sampled (h : s.Precedes t) (x : α) : s.Precedes (t.sampled x) := by
  refine h.trans ⟨?_, ?_⟩
  · simp
  · simp only [Session.sampled_evaluations]
    omega

theorem visited (h : s.Precedes t) (x : α) : s.Precedes (t.visited x) :=
  ⟨(h.sampled x).samples, (h.sampled x).evaluations⟩

theorem narrowed (h : s.Precedes t) (b : Bracket α) : s.Precedes (t.narrowed b) :=
  ⟨h.samples, h.evaluations⟩

theorem located (h : s.Precedes t) (x : α) : s.Precedes (t.located x) := ⟨h.samples, h.evaluations⟩

theorem logged (h : s.Precedes t) (event : Event α) : s.Precedes (t.logged event) :=
  ⟨h.samples, h.evaluations⟩

/-- A call is charged for. -/
theorem lt_visited (h : s.Precedes t) (x : α) : s.evaluations < (t.visited x).evaluations :=
  Int.lt_add_one_of_le h.evaluations

end Session.Precedes

namespace Solve

variable {α β γ σ : Type}

/-! ## Computations that go forward -/

/-- The computation takes no sample and no charge back. -/
def Grows (m : Solve α β) : Prop := ∀ s : Session α, s.Precedes (m.exec s).2

/-- The computation goes forward and ends with a value as `J` says, or in a fault. -/
def Concludes (J : β → Session α → Prop) (m : Solve α β) : Prop :=
  ∀ s, m.Ensures s (fun b t => s.Precedes t ∧ J b t) fun _ t => s.Precedes t

/-- A pass goes forward: it has charged something if it is to be repeated, and stops as `J` says. -/
def Advances (J : β → Session α → Prop) (m : Solve α (Pass σ β)) : Prop :=
  ∀ s, m.Ensures s
    (fun p t => s.Precedes t ∧ p.Keeps (fun _ => s.evaluations < t.evaluations) (J · t))
    fun _ t => s.Precedes t

theorem Concludes.grows {J : β → Session α → Prop} {m : Solve α β} (h : m.Concludes J) : m.Grows := by
  intro s
  exact ((h s).mono (fun _ _ h => h.1) fun _ _ h => h).final

theorem Advances.grows {J : β → Session α → Prop} {m : Solve α (Pass σ β)} (h : m.Advances J) :
    m.Grows := by
  intro s
  exact ((h s).mono (fun _ _ h => h.1) fun _ _ h => h).final

theorem Grows.bind {m : Solve α β} {k : β → Solve α γ} (hm : m.Grows) (hk : ∀ b, (k b).Grows) :
    (m >>= k).Grows := by
  intro s
  have h := hm s
  rw [exec_bind]
  rcases e : m.exec s with ⟨fault | b, t⟩ <;> rw [e] at h
  · exact h
  · exact h.trans (hk b t)

theorem Grows.map {m : Solve α β} (hm : m.Grows) (g : β → γ) : (g <$> m).Grows := by
  intro s
  rw [exec_map]
  exact hm s

section Rules

variable (f : Objective α) (x : α)

theorem grows_pure (b : β) : (pure b : Solve α β).Grows := fun s => .refl s

theorem grows_attempt (r : Except (Fault α) β) : (attempt r : Solve α β).Grows := by
  intro s
  rw [exec_attempt]
  exact .refl s

theorem grows_get : (get : Solve α (Session α)).Grows := fun s => .refl s

theorem grows_bracket : (bracket : Solve α (Bracket α)).Grows := fun s => .refl s

theorem grows_setBracket (b : Bracket α) : (setBracket b).Grows :=
  fun _ => ⟨List.prefix_refl _, Int.le_refl _⟩

theorem grows_setMin (fx : α) : (setMin x fx).Grows := fun _ => ⟨List.prefix_refl _, Int.le_refl _⟩

theorem grows_setMax (fx : α) : (setMax x fx).Grows := fun _ => ⟨List.prefix_refl _, Int.le_refl _⟩

theorem grows_log (event : Event α) : (log event).Grows := fun _ => ⟨List.prefix_refl _, Int.le_refl _⟩

theorem grows_setRoot : (setRoot x).Grows :=
  fun _ => ⟨List.prefix_refl _, Int.le_refl _⟩

theorem grows_converged (method : String) : (converged x method).Grows := fun s => .refl s

theorem grows_fail (status : Status) (reason : Reason α) (method : String) (root : Option α) :
    (fail status reason method root).Grows := fun s => .refl s

theorem grows_collapsed [Scalar α] (fx : α) (method : String) (accuracy : α) :
    (collapsed x fx method accuracy).Grows := fun _ => ⟨List.prefix_refl _, Int.le_refl _⟩

theorem grows_sample : (sample f x).Grows := by
  intro s
  rw [exec_sample]
  exact (Session.Precedes.refl s).sampled x

theorem grows_ite (p : Prop) [Decidable p] {m n : Solve α β} (hm : m.Grows) (hn : n.Grows) :
    (if p then m else n).Grows := by
  split
  · exact hm
  · exact hn

end Rules

/-! ## Loops -/

section Loops

variable {limit : Nat} {pass : σ → Solve α (Pass σ β)} {spent : Solve α β}
variable {J : β → Session α → Prop}

/-- Without budget a loop ends at once, whatever its fuel. -/
theorem exec_passes_spent {s : Session α} (h : ¬s.hasBudget limit) (fuel : Nat) (state : σ) :
    (passes limit pass spent fuel state).exec s = spent.exec s := by
  cases fuel with
  | zero => rfl
  | succ fuel => simp [passes, exec_bind, h]

theorem exec_whileBudget_spent {s : Session α} (h : ¬s.hasBudget limit) (state : σ) :
    (whileBudget limit pass spent state).exec s = spent.exec s := by
  simpa [whileBudget, exec_bind] using exec_passes_spent h _ state

/-- What follows a pass: the rest of the loop, or its answer. -/
def proceed (rest : σ → Solve α β) : Pass σ β → Solve α β
  | .again state => rest state
  | .stop answer => pure answer

/-- One pass of a loop that has budget and fuel. -/
theorem exec_passes_succ {s : Session α} (h : s.hasBudget limit) (fuel : Nat) (state : σ) :
    (passes limit pass spent (fuel + 1) state).exec s =
      (pass state >>= proceed (passes limit pass spent fuel)).exec s := by
  simp only [passes, exec_bind, exec_get, h, if_true]
  rcases (pass state).exec s with ⟨_ | _ | _, _⟩ <;> rfl

/-- Fuel beyond what is left of the budget is of no account. -/
theorem exec_passes_fuel (hpass : ∀ state, (pass state).Advances J) (fuel fuel' : Nat) (state : σ)
    (s : Session α) (h : (limit + 1 - s.evaluations).toNat ≤ fuel)
    (h' : (limit + 1 - s.evaluations).toNat ≤ fuel') :
    (passes limit pass spent fuel state).exec s = (passes limit pass spent fuel' state).exec s := by
  induction fuel generalizing fuel' state s with
  | zero =>
    have hb : ¬s.hasBudget limit := by
      simp only [Session.hasBudget, decide_eq_true_eq]
      omega
    rw [exec_passes_spent hb, exec_passes_spent hb]
  | succ fuel ih =>
    by_cases hb : s.hasBudget limit
    · have hle : s.evaluations ≤ limit := by simpa [Session.hasBudget] using hb
      obtain ⟨fuel', rfl⟩ : ∃ n, fuel' = n + 1 := Nat.exists_eq_succ_of_ne_zero (by omega)
      rw [exec_passes_succ hb, exec_passes_succ hb, exec_bind, exec_bind]
      have hadvance := hpass state s
      rcases hp : (pass state).exec s with ⟨fault | ⟨state | answer⟩, t⟩
      · rfl
      · -- one pass costs each fuel a unit and the budget no less
        have hcharged : s.evaluations < t.evaluations := (hadvance.value hp).2
        exact ih fuel' state t (by omega) (by omega)
      · rfl
    · rw [exec_passes_spent hb, exec_passes_spent hb]

/-- A loop with budget makes one pass, and then does the rest. -/
theorem exec_whileBudget (hpass : ∀ state, (pass state).Advances J) {s : Session α}
    (h : s.hasBudget limit) (state : σ) :
    (whileBudget limit pass spent state).exec s =
      (pass state >>= proceed (whileBudget limit pass spent)).exec s := by
  have hle : s.evaluations ≤ limit := by simpa [Session.hasBudget] using h
  obtain ⟨fuel, hfuel⟩ : ∃ fuel, (limit + 1 - s.evaluations).toNat = fuel + 1 :=
    Nat.exists_eq_succ_of_ne_zero (by omega)
  have hunfold (state : σ) (t : Session α) : (whileBudget limit pass spent state).exec t =
      (passes limit pass spent (limit + 1 - t.evaluations).toNat state).exec t := by
    simp [whileBudget, exec_bind]
  rw [hunfold, hfuel, exec_passes_succ h, exec_bind, exec_bind]
  have hadvance := hpass state s
  rcases hp : (pass state).exec s with ⟨fault | ⟨state | answer⟩, t⟩
  · rfl
  · have hcharged : s.evaluations < t.evaluations := (hadvance.value hp).2
    show (passes limit pass spent fuel state).exec t = (whileBudget limit pass spent state).exec t
    rw [hunfold]
    exact exec_passes_fuel hpass _ _ state t (by omega) (Nat.le_refl _)
  · rfl

theorem ensures_whileBudget_iff (hpass : ∀ state, (pass state).Advances J) {s : Session α}
    (h : s.hasBudget limit) {state : σ} {P : β → Session α → Prop} {E : Fault α → Session α → Prop} :
    (whileBudget limit pass spent state).Ensures s P E ↔
      (pass state).Ensures s (fun p t => (proceed (whileBudget limit pass spent) p).Ensures t P E) E := by
  rw [← ensures_bind]
  unfold Ensures
  rw [exec_whileBudget hpass h]

/-- What the passes keep the loop keeps, and it gives up only once the budget is spent. -/
theorem ensures_whileBudget_of_advances {I : σ → Session α → Prop} {P : β → Session α → Prop}
    {E : Fault α → Session α → Prop} (hadvances : ∀ state, (pass state).Advances J)
    (hpass : ∀ state s, I state s → s.hasBudget limit →
      (pass state).Ensures s (fun p t => p.Keeps (I · t) (P · t)) E)
    (hspent : ∀ state s, I state s → ¬s.hasBudget limit → spent.Ensures s P E) {state : σ}
    {s : Session α} (h : I state s) : (whileBudget limit pass spent state).Ensures s P E := by
  induction hleft : (limit + 1 - s.evaluations).toNat using Nat.strongRecOn
    generalizing state s with
  | _ left ih =>
    by_cases hb : s.hasBudget limit
    · have hle : s.evaluations ≤ limit := by simpa [Session.hasBudget] using hb
      rw [ensures_whileBudget_iff hadvances hb]
      refine ((hpass state s h hb).and (hadvances state s)).mono (fun p t hp => ?_) fun _ _ he => he.1
      obtain ⟨hkeeps, -, hcharged⟩ := hp
      cases p with
      | again state' =>
        have hcharged : s.evaluations < t.evaluations := hcharged
        exact ih _ (by omega) hkeeps rfl
      | stop answer => exact hkeeps
    · have hend := hspent state s h hb
      unfold Ensures at hend ⊢
      rw [exec_whileBudget_spent hb]
      exact hend

theorem concludes_whileBudget (hpass : ∀ state, (pass state).Advances J) (hspent : spent.Concludes J)
    (state : σ) : (whileBudget limit pass spent state).Concludes J := by
  intro s
  refine ensures_whileBudget (I := fun _ t => s.Precedes t) (fun state t ht _ => ?_) (fun _ t ht => ?_)
    (.refl s)
  · refine (hpass state t).mono (fun p u hu => ?_) fun _ u hu => ht.trans hu
    cases p with
    | again state => exact ht.trans hu.1
    | stop answer => exact ⟨ht.trans hu.1, hu.2⟩
  · exact (hspent t).mono (fun _ u hu => ⟨ht.trans hu.1, hu.2⟩) fun _ u hu => ht.trans hu

end Loops

end Solve

/-! ## The methods -/

/-- The result was read off the session. -/
def Result.Reports {α : Type} (r : Result α) (t : Session α) : Prop := r.evaluations = t.evaluations

section Methods

variable {α σ : Type} [Scalar α] {f : Objective α} {accuracy x fx : α} {method : String}
variable {s t : Session α} {limit : Nat}

/-- What a pass from `s` leaves if it goes forward. -/
abbrev Forward {α σ : Type} (s : Session α) (p : Pass σ (Result α)) (t : Session α) : Prop :=
  s.Precedes t ∧ p.Keeps (fun _ => s.evaluations < t.evaluations) (·.Reports t)

theorem collapsed_reports : (t.collapsed x fx method accuracy).Reports t := by
  simp only [Result.Reports, Session.collapsed]
  split <;> rfl

theorem visits_forward {next : α → Prop} (h : s.Precedes t) (hnext : ∀ fx, next fx) :
    Visits f accuracy method x t (Forward s : Pass σ (Result α) → Session α → Prop)
      (fun _ u => s.Precedes u) next :=
  ⟨fun fx _ => ⟨fun _ => ⟨h.visited x, rfl⟩, fun _ => hnext fx⟩, fun _ _ => h.sampled x⟩

theorem visitsWithSlope_forward {slope : Slope α} {next : Newton.Point α → Prop} (h : s.Precedes t)
    (hnext : ∀ p, next p) :
    VisitsWithSlope f slope accuracy method x t (Forward s : Pass σ (Result α) → Session α → Prop)
      (fun _ u => s.Precedes u) next :=
  ⟨fun fx _ => ⟨fun dfx _ => ⟨fun _ => ⟨h.visited x, rfl⟩, fun _ => hnext ⟨x, fx, dfx⟩⟩,
    fun _ _ => h.visited x⟩, fun _ _ => h.visited x⟩

theorem settles_forward {isSmall : Prop} {state : σ} (h : s.Precedes t)
    (hcharged : s.evaluations < t.evaluations) :
    Settles isSmall x fx method accuracy state t (Forward s) :=
  ⟨fun _ => ⟨h.located _, collapsed_reports⟩, fun _ => ⟨h, hcharged⟩⟩

omit [Scalar α] in
theorem exhausted_concludes (limit : Nat) (method : String) :
    (exhausted limit method : Solve α (Result α)).Concludes Result.Reports :=
  fun s => ⟨.refl s, rfl⟩

theorem Bisection.pass_advances (f : Objective α) (accuracy : α) (u : Unit) :
    (pass f accuracy u).Advances Result.Reports := by
  intro s
  rw [ensures_pass]
  have hs := Session.Precedes.refl s
  exact visits_forward hs fun fMid =>
    settles_forward ((hs.visited _).narrowed _) (hs.lt_visited s.bracket.midpoint)

theorem FalsePosition.pass_advances (f : Objective α) (accuracy : α) (previous : Option α) :
    (pass f accuracy previous).Advances Result.Reports := by
  intro s
  rw [ensures_pass]
  have hs := Session.Precedes.refl s
  refine ⟨fun x _ => ?_, fun _ _ => hs⟩
  exact visits_forward hs fun fx => settles_forward ((hs.visited x).narrowed _) (hs.lt_visited x)

theorem Secant.pass_advances (f : Objective α) (accuracy : α) (p : Points α) :
    (pass f accuracy p).Advances Result.Reports := by
  intro s
  rw [ensures_pass]
  have hs := Session.Precedes.refl s
  refine ⟨fun _ => ⟨hs, rfl⟩, fun _ => ⟨fun d _ => ?_, fun _ _ => hs⟩⟩
  exact visits_forward hs fun fx =>
    settles_forward ((hs.visited _).narrowed _) (hs.lt_visited (p.x + insideStep s.bracket p.x d))

theorem Ridder.pass_advances (f : Objective α) (accuracy : α) (u : Unit) :
    (pass f accuracy u).Advances Result.Reports := by
  intro s
  rw [ensures_pass]
  have hs := Session.Precedes.refl s
  have hmid := hs.visited s.bracket.midpoint
  refine visits_forward hs fun fMid => ⟨fun scale _ => ⟨fun _ => ?_, fun _ => ?_⟩, fun _ _ => hmid⟩
  · exact ⟨hmid.located _, collapsed_reports⟩
  · refine ⟨fun x _ => ?_, fun _ _ => hmid⟩
    exact visits_forward hmid fun fx => settles_forward ((hmid.visited x).narrowed _) (hmid.lt_visited x)

theorem Newton.pass_advances (f : Objective α) (slope : Slope α) (accuracy : α) (p : Point α) :
    (pass f slope accuracy p).Advances Result.Reports := by
  intro s
  rw [ensures_pass]
  have hs := Session.Precedes.refl s
  refine ⟨fun _ => ⟨hs, rfl⟩, fun _ => ⟨fun dx _ => ⟨fun _ => ?_, fun _ => ?_⟩, fun _ _ => hs⟩⟩
  · exact ⟨hs.located _, rfl⟩
  · exact visitsWithSlope_forward hs fun q => settles_forward (hs.visited _) (hs.lt_visited _)

theorem SafeNewton.pass_advances (f : Objective α) (slope : Slope α) (accuracy : α) (i : Iterate α) :
    (pass f slope accuracy i).Advances Result.Reports := by
  intro s
  rw [ensures_pass]
  have hs := Session.Precedes.refl s
  refine ⟨fun (dx, x) _ => ?_, fun _ _ => hs⟩
  exact visitsWithSlope_forward hs fun p =>
    settles_forward ((hs.visited x).narrowed _) (hs.lt_visited x)

theorem Brent.pass_advances (f : Objective α) (accuracy : α) (i : Iterate α) :
    (pass f accuracy i).Advances Result.Reports := by
  intro s
  rw [ensures_pass]
  rcases arrange s.bracket i with ⟨b, i⟩
  have ht := ((Session.Precedes.refl s).narrowed b).located i.x
  refine ⟨fun _ => ⟨ht, rfl⟩, fun _ => ⟨fun _ => ⟨ht.located _, collapsed_reports⟩, fun _ => ?_⟩⟩
  refine ⟨fun (step, lastStep) _ => ?_, fun _ _ => ht⟩
  have hkept := ht.narrowed { b with xMin := i.x, fMin := i.fx }
  exact visits_forward hkept fun fx => ⟨hkept.visited _, hkept.lt_visited _⟩

/-! ### Whole refinements -/

theorem opens_concludes {slopes : Except (Fault α) (Slope α)}
    {next : Slope α → Newton.Point α → Solve α (Result α)}
    (h : ∀ slope p, (next slope p).Concludes Result.Reports) :
    Opens f slopes accuracy method s (fun r t => s.Precedes t ∧ r.Reports t) (fun _ t => s.Precedes t)
      fun slope p => (next slope p).Ensures (s.sampled s.root)
        (fun r t => s.Precedes t ∧ r.Reports t) fun _ t => s.Precedes t := by
  have hs := Session.Precedes.refl s
  have hx := hs.sampled s.root
  refine ⟨fun slope _ => ⟨fun fx _ => ⟨fun dfx _ => ⟨fun _ => ⟨hx, rfl⟩, fun _ => ?_⟩, fun _ _ => hx⟩,
    fun _ _ => hx⟩, fun _ _ => hs⟩
  exact (h slope ⟨s.root, fx, dfx⟩ _).mono (fun _ _ hu => ⟨hx.trans hu.1, hu.2⟩) fun _ _ hu => hx.trans hu

theorem Brent.refine_concludes (f : Objective α) (limit : Nat) (accuracy : α) :
    (refine f limit accuracy).Concludes Result.Reports := by
  intro s
  rw [ensures_refine]
  have hx := (Session.Precedes.refl s).sampled s.root
  refine ⟨fun fx _ => ⟨fun _ => ⟨hx, rfl⟩, fun _ => ?_⟩, fun _ _ => hx⟩
  have hkept := hx.narrowed (pickContrapoint s.bracket fx)
  exact (concludes_whileBudget (pass_advances f accuracy) (exhausted_concludes limit name) _ _).mono
    (fun _ _ hu => ⟨hkept.trans hu.1, hu.2⟩) fun _ _ hu => hkept.trans hu

/-- A refinement by any method but the one by tolerance goes forward. -/
theorem Refiner.refine_concludes {r : Refiner α} (hr : r.method ≠ .brentq) (f : Objective α)
    (limit : Nat) (accuracy : α) : (r.refine f limit accuracy).Concludes Result.Reports := by
  unfold Refiner.refine Refiner.refineBy
  cases h : r.method with
  | bisection =>
    exact concludes_whileBudget (Bisection.pass_advances f accuracy) (exhausted_concludes _ _) _
  | brent => exact Brent.refine_concludes f limit accuracy
  | brentq => exact absurd h hr
  | falsePosition =>
    exact concludes_whileBudget (FalsePosition.pass_advances f accuracy) (exhausted_concludes _ _) _
  | newton =>
    intro s
    rw [Newton.ensures_refine]
    exact opens_concludes fun slope p =>
      concludes_whileBudget (Newton.pass_advances f slope accuracy) (exhausted_concludes _ _) p
  | safeNewton =>
    intro s
    rw [SafeNewton.ensures_refine]
    exact opens_concludes fun slope p =>
      concludes_whileBudget (SafeNewton.pass_advances f slope accuracy) (exhausted_concludes _ _) _
  | ridder => exact concludes_whileBudget (Ridder.pass_advances f accuracy) (exhausted_concludes _ _) _
  | secant =>
    intro s
    rw [Secant.ensures_refine]
    exact concludes_whileBudget (Secant.pass_advances f accuracy) (exhausted_concludes _ _) _ s

end Methods

/-! ## The searches -/

namespace Search

variable {α : Type} [Scalar α] {f : Objective α} {settings : Settings α} {accuracy : α}
variable {method : String}

/-- An answer of the search itself was read off the session. -/
def Outcome.Reports {α : Type} : Outcome α → Session α → Prop
  | .answered result, t => result.Reports t
  | .bracketed, _ => True

theorem price_pos (side : Side) : 0 < price side := by
  cases side <;> decide

theorem pass_advances (f : Objective α) (settings : Settings α) (method : String) (tieLow : Bool) :
    (pass f settings method tieLow).Advances Outcome.Reports := by
  intro s
  rw [ensures_pass]
  have hs := Session.Precedes.refl s
  have hprice := price_pos (side s.bracket tieLow)
  have hx := hs.sampled (reach settings s.bracket (side s.bracket tieLow))
  refine ⟨fun _ => ⟨fun _ => ⟨hs, rfl⟩, fun _ => ⟨fun _ => ⟨hs, rfl⟩, fun _ => ?_⟩⟩,
    fun _ => ⟨fun fx _ => ?_, fun _ _ => hx⟩⟩
  · exact ⟨(hs.located _).logged _, trivial⟩
  · have hcharged : s.evaluations < s.evaluations + price (side s.bracket tieLow) := by omega
    exact ⟨⟨hx.samples, Int.le_of_lt hcharged⟩, hcharged⟩

omit [Scalar α] in
theorem giveUp_concludes (limit : Nat) (method : String) :
    (giveUp limit method : Solve α (Outcome α)).Concludes Outcome.Reports := by
  intro s
  rw [ensures_giveUp]
  exact ⟨(Session.Precedes.refl s).logged _, rfl⟩

theorem aroundGuess_concludes (guess step : α) :
    (aroundGuess f settings accuracy guess step method).Concludes Outcome.Reports := by
  intro s
  rw [ensures_aroundGuess]
  have hguess := (Session.Precedes.refl s).visited guess
  refine ⟨fun fx _ => ⟨fun _ => ⟨hguess.narrowed _, rfl⟩, fun _ => ?_⟩, fun _ _ => hguess⟩
  have hx := hguess.sampled (beside settings guess fx step)
  refine ⟨fun fx' _ => ?_, fun _ _ => hx⟩
  have hopened := hx.narrowed (opened guess fx (beside settings guess fx step) fx')
  exact (concludes_whileBudget (pass_advances f settings method)
    (giveUp_concludes settings.maxEvaluations method) true _).mono
    (fun _ _ hu => ⟨hopened.trans hu.1, hu.2⟩) fun _ _ hu => hopened.trans hu

theorem supplied_concludes (guess xMin xMax : α) :
    (supplied f settings accuracy guess xMin xMax method).Concludes Outcome.Reports := by
  intro s
  rw [ensures_supplied]
  have ht := ((Session.Precedes.refl s).located guess).narrowed { s.bracket with xMin, xMax }
  have hlow := ht.sampled xMin
  refine ⟨fun _ _ _ => ⟨ht, rfl⟩, fun _ => ⟨fun fMin _ => ?_, fun _ _ => hlow⟩⟩
  have hu := hlow.narrowed { s.bracket with xMin, xMax, fMin }
  have hhigh := hu.sampled xMax
  refine ⟨fun _ => ⟨hu, rfl⟩, fun _ => ⟨fun fMax _ => ?_, fun _ _ => hhigh⟩⟩
  have hv := hhigh.narrowed ⟨xMin, xMax, fMin, fMax⟩
  exact ⟨fun _ => ⟨hv, rfl⟩, fun _ => ⟨fun _ => ⟨hv, trivial⟩, fun _ => ⟨hv.logged _, rfl⟩⟩⟩

end Search

/-! ## Solves -/

namespace Entry

variable {α : Type} [Scalar α] {r : Refiner α} {accuracy : α}

theorem search_concludes (f : Objective α) (settings : Settings α) (method : String) (entry : Entry α) :
    (entry.search f settings accuracy method).Concludes Search.Outcome.Reports := by
  cases entry with
  | fromGuess guess step => exact Search.aroundGuess_concludes guess step
  | inBracket guess xMin xMax => exact Search.supplied_concludes guess xMin xMax

/-- A result has the charges of the session that its solve left. -/
theorem solve_concludes (hr : r.method ≠ .brentq) (f : Objective α) (settings : Settings α)
    (entry : Entry α) : (entry.solve r f settings accuracy).Concludes Result.Reports := by
  intro s
  rw [ensures_solve]
  refine (entry.search_concludes f settings r.name s).mono (fun outcome t h => ?_) fun _ _ h => h
  cases outcome with
  | answered result => exact h
  | bracketed =>
    exact (r.refine_concludes hr f _ _ t).mono (fun _ _ hu => ⟨h.1.trans hu.1, hu.2⟩) fun _ _ hu =>
      h.1.trans hu

end Entry

end RootSearch
