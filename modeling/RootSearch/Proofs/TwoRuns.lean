import RootSearch.Proofs.Progress
/-!
# Two runs side by side

Two computations are compared by what they end with. They end alike, or the first one stops sooner
while the second goes on from there. What it is to end alike, and why a run may stop sooner, differs
from claim to claim; how a comparison goes through binds, branches and loops does not.

A comparison follows both programs, so here every pass is written as a program over two steps that
the methods share: `visit` and `settle`.
-/

namespace RootSearch

namespace Solve

variable {α β β' γ γ' σ σ' : Type}

/-- How two outcomes compare: the sessions as `T` says and the values as `R` says, or in one fault.
Or the first has stopped sooner, as `Q` says, and the second has gone on from there. -/
inductive Tracked (T : Session α → Session α → Prop) (R : β → Session α → β' → Prop)
    (Q : β → Session α → Prop) :
    Except (Fault α) β × Session α → Except (Fault α) β' × Session α → Prop
  | value {b : β} {b' : β'} {t t' : Session α} (sessions : T t t') (values : R b t b') :
    Tracked T R Q (.ok b, t) (.ok b', t')
  | fault {fault : Fault α} {t t' : Session α} (sessions : T t t') :
    Tracked T R Q (.error fault, t) (.error fault, t')
  | sooner {b : β} {t : Session α} {outcome : Except (Fault α) β' × Session α} (early : Q b t)
    (rest : t.Precedes outcome.2) : Tracked T R Q (.ok b, t) outcome

/-- The second computation, begun in `s'`, does what the first does from `s`. -/
def Tracks (T : Session α → Session α → Prop) (R : β → Session α → β' → Prop)
    (Q : β → Session α → Prop) (m : Solve α β) (s : Session α) (m' : Solve α β') (s' : Session α) :
    Prop :=
  Tracked T R Q (m.exec s) (m'.exec s')

/-- No run stops sooner. -/
def never (_ : β) (_ : Session α) : Prop := False

/-- Two passes decide alike: to go on from related states, or to stop with related answers. -/
def Pass.Pairs (S : σ → σ' → Prop) (R : β → β' → Prop) : Pass σ β → Pass σ' β' → Prop
  | .again state, .again state' => S state state'
  | .stop answer, .stop answer' => R answer answer'
  | .again _, .stop _ | .stop _, .again _ => False

theorem Pass.Pairs.refl {S : σ → σ → Prop} {R : β → β → Prop} (hS : ∀ state, S state state)
    (hR : ∀ answer, R answer answer) (p : Pass σ β) : p.Pairs S R p := by
  cases p with
  | again state => exact hS state
  | stop answer => exact hR answer

/-- A pass stops, as `Q` says. -/
def Pass.Stops (Q : β → Session α → Prop) (p : Pass σ β) (t : Session α) : Prop :=
  p.Keeps (fun _ => False) (Q · t)

section Rules

variable {T : Session α → Session α → Prop} {R : β → Session α → β' → Prop}
variable {Q : β → Session α → Prop} {s s' : Session α}

theorem Tracks.pure {b : β} {b' : β'} (hs : T s s') (h : R b s b') :
    Tracks T R Q (pure b) s (pure b') s' :=
  .value hs h

/-- What is compared first may have stopped sooner; then nothing may follow that matters. -/
theorem Tracks.bind {R₀ : γ → Session α → γ' → Prop} {Q₀ : γ → Session α → Prop} {m : Solve α γ}
    {m' : Solve α γ'} {k : γ → Solve α β} {k' : γ' → Solve α β'} (h : Tracks T R₀ Q₀ m s m' s')
    (hk : ∀ c t c' t', T t t' → R₀ c t c' → Tracks T R Q (k c) t (k' c') t')
    (hq : ∀ c t, Q₀ c t → (∃ b, (k c).exec t = (.ok b, t) ∧ Q b t) ∧ ∀ c', (k' c').Grows) :
    Tracks T R Q (m >>= k) s (m' >>= k') s' := by
  unfold Tracks at h ⊢
  rw [exec_bind, exec_bind]
  generalize m.exec s = outcome at h ⊢
  generalize m'.exec s' = outcome' at h ⊢
  cases h with
  | value hs hr => exact hk _ _ _ _ hs hr
  | fault hs => exact .fault hs
  | @sooner c t _ hearly hrest =>
    obtain ⟨⟨b, hb, hbq⟩, hgrows⟩ := hq c t hearly
    simp only [hb]
    refine .sooner hbq (hrest.trans ?_)
    rcases outcome' with ⟨e' | c', t'⟩
    · exact .refl t'
    · exact hgrows c' t'

/-- No run stops sooner in what is compared first. -/
theorem Tracks.seq {R₀ : γ → Session α → γ' → Prop} {m : Solve α γ} {m' : Solve α γ'}
    {k : γ → Solve α β} {k' : γ' → Solve α β'} (h : Tracks T R₀ never m s m' s')
    (hk : ∀ c t c' t', T t t' → R₀ c t c' → Tracks T R Q (k c) t (k' c') t') :
    Tracks T R Q (m >>= k) s (m' >>= k') s' :=
  h.bind hk fun _ _ hnever => hnever.elim

/-! ### What is read and written -/

theorem Tracks.get {k k' : Session α → Solve α β} {R : β → Session α → β → Prop}
    (h : Tracks T R Q (k s) s (k' s') s') : Tracks T R Q (get >>= k) s (get >>= k') s' :=
  h

theorem Tracks.bracket {k : Bracket α → Solve α β} {k' : Bracket α → Solve α β'}
    (h : Tracks T R Q (k s.bracket) s (k' s'.bracket) s') :
    Tracks T R Q (Solve.bracket >>= k) s (Solve.bracket >>= k') s' :=
  h

theorem Tracks.setBracket {b b' : Bracket α} {k : Unit → Solve α β} {k' : Unit → Solve α β'}
    (h : Tracks T R Q (k ()) (s.narrowed b) (k' ()) (s'.narrowed b')) :
    Tracks T R Q (Solve.setBracket b >>= k) s (Solve.setBracket b' >>= k') s' :=
  h

theorem Tracks.setRoot {x x' : α} {k : Unit → Solve α β} {k' : Unit → Solve α β'}
    (h : Tracks T R Q (k ()) (s.located x) (k' ()) (s'.located x')) :
    Tracks T R Q (Solve.setRoot x >>= k) s (Solve.setRoot x' >>= k') s' :=
  h

theorem Tracks.modify {u u' : Session α → Session α} {k : Unit → Solve α β} {k' : Unit → Solve α β'}
    (h : Tracks T R Q (k ()) (u s) (k' ()) (u' s')) :
    Tracks T R Q (modify u >>= k) s (modify u' >>= k') s' :=
  h

theorem Tracks.log {event event' : Event α} {k : Unit → Solve α β} {k' : Unit → Solve α β'}
    (h : Tracks T R Q (k ()) (s.logged event) (k' ()) (s'.logged event')) :
    Tracks T R Q (Solve.log event >>= k) s (Solve.log event' >>= k') s' :=
  h

theorem Tracks.ite {p p' : Prop} [Decidable p] [Decidable p'] {m n : Solve α β} {m' n' : Solve α β'}
    (hp : p' ↔ p) (h : p → Tracks T R Q m s m' s') (h' : ¬p → Tracks T R Q n s n' s') :
    Tracks T R Q (if p then m else n) s (if p' then m' else n') s' := by
  by_cases hc : p
  · rw [if_pos hc, if_pos (hp.2 hc)]
    exact h hc
  · rw [if_neg hc, if_neg (mt hp.1 hc)]
    exact h' hc

/-- A checked operation faults in both runs, or in none. -/
theorem Tracks.attempt {r : Except (Fault α) γ} {r' : Except (Fault α) γ'} {g : γ → γ'}
    {k : γ → Solve α β} {k' : γ' → Solve α β'} (hs : T s s') (hr : r' = r.map g)
    (h : ∀ c, r = .ok c → Tracks T R Q (k c) s (k' (g c)) s') :
    Tracks T R Q (attempt r >>= k) s (attempt r' >>= k') s' := by
  subst hr
  unfold Tracks
  rw [exec_bind, exec_bind, exec_attempt, exec_attempt]
  cases r with
  | error e => exact .fault hs
  | ok c => exact h c rfl

theorem Tracks.attempt_same {r : Except (Fault α) γ} {k : γ → Solve α β} {k' : γ → Solve α β'}
    (hs : T s s') (h : ∀ c, r = .ok c → Tracks T R Q (k c) s (k' c) s') :
    Tracks T R Q (Solve.attempt r >>= k) s (Solve.attempt r >>= k') s' :=
  .attempt (g := id) hs (congrFun Except.map_id r).symm h

/-- What the first run ensures by itself may be used. -/
theorem Tracks.and_ensures {P : β → Session α → Prop} {E : Fault α → Session α → Prop}
    {m : Solve α β} {m' : Solve α β'} (h : Tracks T R Q m s m' s') (he : m.Ensures s P E) :
    Tracks T (fun b t b' => R b t b' ∧ P b t) Q m s m' s' := by
  unfold Tracks at h ⊢
  unfold Ensures at he
  generalize m.exec s = outcome at h he ⊢
  generalize m'.exec s' = outcome' at h ⊢
  cases h with
  | value hs hr => exact .value hs ⟨hr, he⟩
  | fault hs => exact .fault hs
  | sooner hearly hrest => exact .sooner hearly hrest

theorem Tracks.mono {R' : β → Session α → β' → Prop} {m : Solve α β} {m' : Solve α β'}
    (h : Tracks T R Q m s m' s') (hR : ∀ b t b', R b t b' → R' b t b') :
    Tracks T R' Q m s m' s' := by
  unfold Tracks at h ⊢
  generalize m.exec s = outcome at h ⊢
  generalize m'.exec s' = outcome' at h ⊢
  cases h with
  | value hs hr => exact .value hs (hR _ _ _ hr)
  | fault hs => exact .fault hs
  | sooner hearly hrest => exact .sooner hearly hrest

/-! ### Runs from one session -/

/-- The two runs are in one session. -/
def Same (t t' : Session α) : Prop := t = t'

/-- A run does what it does. -/
theorem Tracks.refl {R : β → Session α → β → Prop} (hR : ∀ b t, R b t b) (m : Solve α β)
    (s : Session α) : Tracks Same R Q m s m s := by
  unfold Tracks
  rcases m.exec s with ⟨fault | b, t⟩
  · exact .fault rfl
  · exact .value rfl (hR b t)

/-- What both runs begin with drops out. -/
theorem Tracks.after {m : Solve α γ} {k : γ → Solve α β} {k' : γ → Solve α β'}
    (h : ∀ c t, Tracks Same R Q (k c) t (k' c) t) : Tracks Same R Q (m >>= k) s (m >>= k') s := by
  have hsame : Tracks Same (fun c _ c' => c = c') never m s m s := .refl (fun _ _ => rfl) m s
  refine hsame.seq ?_
  rintro c t _ _ rfl rfl
  exact h c t

/-- The first run may stop with an answer where the second goes on. -/
theorem Tracks.ite_sooner {R : β → Session α → β → Prop} {p p' : Prop} [Decidable p] [Decidable p']
    {answer m m' : Solve α β} {b : β} {t : Session α} (hp : p' → p)
    (hanswer : answer.exec s = (.ok b, t)) (hself : R b t b) (hearly : Q b t) (hrest : t.Precedes s)
    (hgrows : m'.Grows) (h : Tracks Same R Q m s m' s) :
    Tracks Same R Q (if p then answer else m) s (if p' then answer else m') s := by
  by_cases hc : p
  · rw [if_pos hc]
    unfold Tracks
    rw [hanswer]
    split
    · rw [hanswer]
      exact .value rfl hself
    · exact .sooner hearly (hrest.trans (hgrows s))
  · rw [if_neg hc, if_neg (mt hp hc)]
    exact h

/-! ### Loops -/

section Loops

variable {limit limit' : Nat} {pass : σ → Solve α (Pass σ β)} {pass' : σ' → Solve α (Pass σ' β')}
variable {spent : Solve α β} {spent' : Solve α β'} {S : σ → Session α → σ' → Prop}
variable {J : β → Session α → Prop} {J' : β' → Session α → Prop}

/-- Two loops compare as their passes do, if the second has no less budget. -/
theorem tracks_whileBudget
    (hpass : ∀ state s state' s', T s s' → S state s state' →
      Tracks T (fun p t p' => p.Pairs (S · t ·) (R · t ·) p') (Pass.Stops Q) (pass state) s
        (pass' state') s')
    (hbudget : ∀ s s', T s s' → s.hasBudget limit → s'.hasBudget limit')
    (hspent : ∀ state s state' s', T s s' → S state s state' → ¬s.hasBudget limit →
      Tracks T R Q spent s (whileBudget limit' pass' spent' state') s')
    (hadvances : ∀ state, (pass state).Advances J) (hadvances' : ∀ state, (pass' state).Advances J')
    (hconcludes' : spent'.Concludes J') {state : σ} {state' : σ'} (hs : T s s')
    (hstate : S state s state') :
    Tracks T R Q (whileBudget limit pass spent state) s (whileBudget limit' pass' spent' state') s' := by
  have hidle {state : σ} {state' : σ'} {s s' : Session α} (hs : T s s') (hstate : S state s state')
      (hb : ¬s.hasBudget limit) : Tracks T R Q (whileBudget limit pass spent state) s
        (whileBudget limit' pass' spent' state') s' := by
    unfold Tracks
    rw [exec_whileBudget_spent hb]
    exact hspent state s state' s' hs hstate hb
  obtain ⟨n, hn⟩ : ∃ n, (limit + 1 - s.evaluations).toNat ≤ n := ⟨_, Nat.le_refl _⟩
  -- by induction on what is left of the budget, which every pass that is repeated lowers
  induction n generalizing s s' state state' with
  | zero =>
    refine hidle hs hstate ?_
    simp only [Session.hasBudget, decide_eq_true_eq]
    omega
  | succ n ih =>
    by_cases hb : s.hasBudget limit
    · have hle : s.evaluations ≤ limit := by simpa [Session.hasBudget] using hb
      have hfirst := (hpass state s state' s' hs hstate).and_ensures (hadvances state s)
      unfold Tracks
      rw [exec_whileBudget hadvances hb, exec_whileBudget hadvances' (hbudget s s' hs hb)]
      refine Tracks.bind hfirst (fun p t p' t' ht hp => ?_) fun p t hp => ?_
      · obtain ⟨hpairs, -, hkept⟩ := hp
        cases p with
        | again state =>
          cases p' with
          | again state' =>
            have hcharged : s.evaluations < t.evaluations := hkept
            exact ih ht hpairs (by omega)
          | stop answer' => exact hpairs.elim
        | stop answer =>
          cases p' with
          | again state' => exact hpairs.elim
          | stop answer' => exact .pure ht hpairs
      · -- the first loop is over; whatever the second's pass ends with, it goes forward from there
        refine ⟨?_, fun p' => ?_⟩
        · cases p with
          | again state => exact hp.elim
          | stop answer => exact ⟨answer, rfl, hp⟩
        · cases p' with
          | again state' => exact (concludes_whileBudget hadvances' hconcludes' state').grows
          | stop answer' => exact grows_pure answer'
    · exact hidle hs hstate hb

end Loops

end Rules

end Solve

/-! ## Passes as programs -/

namespace Solve

variable {α σ : Type} [Scalar α]

/-- Calls the objective at `x`, makes that the estimate, and stops if the accuracy is met there. -/
def visit (f : Objective α) (accuracy : α) (method : String) (x : α)
    (next : α → Solve α (Pass σ (Result α))) : Solve α (Pass σ (Result α)) := do
  let fx ← sample f x
  setRoot x
  if Scalar.abs fx ≤ accuracy then
    return .stop (← converged x method)
  else
    next fx

/-- The same, with a call of the derivative after that of the objective. -/
def visitWithSlope (f : Objective α) (slope : Slope α) (accuracy : α) (method : String) (x : α)
    (next : Newton.Point α → Solve α (Pass σ (Result α))) : Solve α (Pass σ (Result α)) := do
  setRoot x
  let p ← Newton.point f slope x
  if Scalar.abs p.fx ≤ accuracy then
    return .stop (← converged x method)
  else
    next p

/-- Takes a bracket, stops if it or the step is too small, and goes on from `state` otherwise. -/
def settle (isSmall : Prop) [Decidable isSmall] (b : Bracket α) (x fx : α) (method : String)
    (accuracy : α) (state : σ) : Solve α (Pass σ (Result α)) := do
  setBracket b
  if isSmall then
    return .stop (← collapsed x fx method accuracy)
  else
    return .again state

end Solve

namespace Solve

variable {α σ : Type} [Scalar α] {f : Objective α} {slope : Slope α} {accuracy x fx : α}
variable {method : String} {s : Session α} {P : Pass σ (Result α) → Session α → Prop}
variable {E : Fault α → Session α → Prop}

theorem ensures_visit {next : α → Solve α (Pass σ (Result α))} :
    (visit f accuracy method x next).Ensures s P E ↔
      Visits f accuracy method x s P E fun fx => (next fx).Ensures (s.visited x) P E := by
  simp [visit, Visits, Session.visited]

theorem ensures_visitWithSlope {next : Newton.Point α → Solve α (Pass σ (Result α))} :
    (visitWithSlope f slope accuracy method x next).Ensures s P E ↔
      VisitsWithSlope f slope accuracy method x s P E fun p => (next p).Ensures (s.visited x) P E := by
  simp [visitWithSlope, Newton.point, VisitsWithSlope, Session.visited, Session.sampled]

theorem ensures_settle {isSmall : Prop} [Decidable isSmall] {b : Bracket α} {state : σ} :
    (settle isSmall b x fx method accuracy state).Ensures s P E ↔
      Settles isSmall x fx method accuracy state (s.narrowed b) P := by
  simp [settle, Settles, Session.narrowed, Session.located]

theorem grows_visit {next : α → Solve α (Pass σ (Result α))} (h : ∀ fx, (next fx).Grows) :
    (visit f accuracy method x next).Grows :=
  (grows_sample f x).bind fun fx => (grows_setRoot x).bind fun _ =>
    grows_ite _ ((grows_converged x method).bind fun _ => grows_pure _) (h fx)

theorem grows_settle {isSmall : Prop} [Decidable isSmall] {b : Bracket α} {state : σ} :
    (settle isSmall b x fx method accuracy state).Grows :=
  (grows_setBracket b).bind fun _ =>
    grows_ite _ ((grows_collapsed x fx method accuracy).bind fun _ => grows_pure _) (grows_pure _)

omit [Scalar α] in
/-- A computation that ensures whatever another one does has the same outcome. -/
theorem exec_eq_of_ensures {β : Type} {m m' : Solve α β}
    (h : ∀ P E, m.Ensures s P E → m'.Ensures s P E) : m.exec s = m'.exec s := by
  have hm : m.Ensures s (fun b t => m.exec s = (.ok b, t)) fun fault t => m.exec s = (.error fault, t) := by
    unfold Ensures
    rcases m.exec s with ⟨fault | b, t⟩ <;> rfl
  have hm' := h _ _ hm
  rcases e : m'.exec s with ⟨fault | b, t⟩
  · exact hm'.fault e
  · exact hm'.value e

end Solve

section Programs

open Solve

variable {α : Type} [Scalar α] (f : Objective α) (slope : Slope α) (accuracy : α) (s : Session α)

theorem Bisection.exec_pass (u : Unit) : (pass f accuracy u).exec s =
    (visit f accuracy name s.bracket.midpoint fun fMid =>
      let mid := s.bracket.midpoint
      let b := s.bracket.shrink mid fMid
      settle (b.width ≤ Scalar.resolution mid) b mid fMid name accuracy ()).exec s := by
  refine exec_eq_of_ensures fun P E h => ?_
  rw [ensures_pass] at h
  simpa only [ensures_visit, ensures_settle] using h

theorem FalsePosition.exec_pass (previous : Option α) : (pass f accuracy previous).exec s =
    (do let x ← attempt (chord s.bracket)
        visit f accuracy name x fun fx =>
          settle (hasStalled previous x) (s.bracket.shrink x fx) x fx name accuracy (some x)).exec s := by
  refine exec_eq_of_ensures fun P E h => ?_
  rw [ensures_pass] at h
  simpa only [ensures_bind, ensures_attempt, ensures_visit, ensures_settle] using h

theorem Secant.exec_pass (p : Points α) : (pass f accuracy p).exec s =
    (if p.fx == p.fLast then
      Pass.stop <$> fail .diverged (.flatSecant name p.xLast p.x p.fx) name (some p.x)
    else do
      let d ← attempt (secantStep p)
      let dx := insideStep s.bracket p.x d
      let x := p.x + dx
      visit f accuracy name x fun fx =>
        settle (Scalar.abs dx ≤ Scalar.resolution x) (s.bracket.shrink x fx) x fx name accuracy
          ⟨x, fx, p.x, p.fx⟩).exec s := by
  refine exec_eq_of_ensures fun P E h => ?_
  rw [ensures_pass] at h
  simpa only [ensures_ite, ensures_map, ensures_fail, ensures_bind, ensures_attempt, ensures_visit,
    ensures_settle] using h

theorem Ridder.exec_pass (u : Unit) : (pass f accuracy u).exec s =
    (visit f accuracy name s.bracket.midpoint fun fMid => do
      let mid := s.bracket.midpoint
      let scale ← attempt (scale s.bracket fMid)
      if scale == 0.0 then
        Pass.stop <$> collapsed mid fMid name accuracy
      else do
        let x ← attempt (fitted s.bracket mid fMid scale)
        visit f accuracy name x fun fx =>
          let b := narrow s.bracket mid fMid x fx
          settle (b.width ≤ Scalar.resolution x) b x fx name accuracy ()).exec s := by
  refine exec_eq_of_ensures fun P E h => ?_
  rw [ensures_pass] at h
  simp only [ensures_ite, ensures_map, ensures_collapsed, ensures_bind, ensures_attempt, ensures_visit,
    ensures_settle]
  exact h

theorem Newton.exec_pass (p : Point α) : (pass f slope accuracy p).exec s =
    (if p.slope == 0.0 then
      Pass.stop <$> fail .diverged (.zeroSlope name p.x p.fx) name (some p.x)
    else do
      let dx ← attempt (Scalar.quotient p.fx p.slope)
      let x := p.x - dx
      if isOutside s.bracket x then do
        setRoot x
        Pass.stop <$> fail .diverged (.leftRange name x s.bracket) name (some x)
      else
        visitWithSlope f slope accuracy name x fun q =>
          settle (Scalar.abs dx ≤ Scalar.resolution x) s.bracket x q.fx name accuracy q).exec s := by
  refine exec_eq_of_ensures fun P E h => ?_
  rw [ensures_pass] at h
  simp only [ensures_ite, ensures_map, ensures_fail, ensures_setRoot, ensures_bind, ensures_attempt,
    ensures_visitWithSlope, ensures_settle]
  exact h

theorem SafeNewton.exec_pass (i : Iterate α) : (pass f slope accuracy i).exec s =
    (do let (dx, x) ← attempt (advance i)
        visitWithSlope f slope accuracy name x fun p =>
          settle (Scalar.abs dx ≤ Scalar.resolution x) (s.bracket.shrink x p.fx) x p.fx name accuracy
            (i.next dx p)).exec s := by
  refine exec_eq_of_ensures fun P E h => ?_
  rw [ensures_pass] at h
  simp only [ensures_bind, ensures_attempt, ensures_visitWithSlope, ensures_settle]
  exact h

theorem Brent.exec_pass (i : Iterate α) : (pass f accuracy i).exec s =
    (do let (b, i) := arrange s.bracket i
        let tol := Scalar.resolution i.x
        let half := 0.5 * (b.xMax - i.x)
        setBracket b
        setRoot i.x
        if Scalar.abs i.fx ≤ accuracy then
          Pass.stop <$> converged i.x name
        else if Scalar.abs half ≤ tol then
          Pass.stop <$> collapsed i.x i.fx name accuracy
        else do
          let (step, lastStep) ← attempt (chooseStep b i half tol)
          setBracket { b with xMin := i.x, fMin := i.fx }
          let x := i.x + atLeast step half tol
          visit f accuracy name x fun fx => return .again (Iterate.mk x fx step lastStep)).exec s := by
  refine exec_eq_of_ensures fun P E h => ?_
  rw [ensures_pass] at h
  simp only [ensures_ite, ensures_map, ensures_converged, ensures_collapsed, ensures_setRoot,
    ensures_setBracket, ensures_pure, ensures_bind, ensures_attempt, ensures_visit]
  exact h

end Programs

/-! ## Solves -/

namespace Search.Outcome

variable {α : Type}

/-- Two searches end alike: with related answers, or with brackets to refine as `H` says. -/
def Pairs (R : Result α → Result α → Prop) (H : Prop) : Outcome α → Outcome α → Prop
  | .answered result, .answered result' => R result result'
  | .bracketed, .bracketed => H
  | .answered _, .bracketed | .bracketed, .answered _ => False

/-- A search ends with an answer, as `Q` says. -/
def Stops (Q : Result α → Session α → Prop) : Outcome α → Session α → Prop
  | .answered result, t => Q result t
  | .bracketed, _ => False

theorem Pairs.refl {R : Result α → Result α → Prop} {H : Prop} (hR : ∀ result, R result result) (hH : H)
    (outcome : Outcome α) : outcome.Pairs R H outcome := by
  cases outcome with
  | answered result => exact hR result
  | bracketed => exact hH

end Search.Outcome

namespace Entry

open Solve

variable {α : Type} [Scalar α] {r r' : Refiner α} {f f' : Objective α} {settings settings' : Settings α}
variable {accuracy accuracy' : α} {entry entry' : Entry α} {s s' : Session α}

/-- Two solves compare as their searches and their refinements do. -/
theorem solve_tracks {T : Session α → Session α → Prop} {R : Result α → Session α → Result α → Prop}
    {Q : Result α → Session α → Prop} {H : Session α → Prop}
    (hsearch : Tracks T (fun o t o' => o.Pairs (R · t ·) (H t) o') (Search.Outcome.Stops Q)
      (entry.search f settings accuracy r.name) s (entry'.search f' settings' accuracy' r'.name) s')
    (hrefine : ∀ t t', T t t' → H t → Tracks T R Q
      (r.refine f settings.maxEvaluations (Scalar.effectiveAccuracy accuracy)) t
      (r'.refine f' settings'.maxEvaluations (Scalar.effectiveAccuracy accuracy')) t')
    (hgrows : (r'.refine f' settings'.maxEvaluations (Scalar.effectiveAccuracy accuracy')).Grows) :
    Tracks T R Q (entry.solve r f settings accuracy) s (entry'.solve r' f' settings' accuracy') s' := by
  unfold solve solveBy
  refine hsearch.bind (fun outcome t outcome' t' ht hpairs => ?_) fun outcome t hstops => ?_
  · cases outcome with
    | answered result =>
      cases outcome' with
      | answered result' => exact .pure ht hpairs
      | bracketed => exact hpairs.elim
    | bracketed =>
      cases outcome' with
      | answered result' => exact hpairs.elim
      | bracketed => exact hrefine t t' ht hpairs
  · cases outcome with
    | answered result =>
      refine ⟨⟨result, rfl, hstops⟩, fun outcome' => ?_⟩
      cases outcome' with
      | answered result' => exact grows_pure result'
      | bracketed => exact hgrows
    | bracketed => exact hstops.elim

end Entry

end RootSearch
