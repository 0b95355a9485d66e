import RootSearch.Solve
/-!
# What computations ensure

A computation ends with a value or in a fault, and with a session either way. `Ensures` states what
holds of both endings. It goes through binds and branches by rewriting, so a claim about a
computation becomes one about the values it meets on the way. A loop needs an invariant.
-/

namespace RootSearch

/-- The session after a call of the objective. -/
def Session.sampled {α : Type} (s : Session α) (x : α) : Session α :=
  { s with evaluations := s.evaluations + 1, samples := s.samples.push x }

namespace Session

variable {α : Type} (s : Session α) (x : α)

@[simp] theorem sampled_bracket : (s.sampled x).bracket = s.bracket := rfl

@[simp] theorem sampled_evaluations : (s.sampled x).evaluations = s.evaluations + 1 := rfl

@[simp] theorem sampled_samples : (s.sampled x).samples = s.samples.push x := rfl

end Session

namespace Solve

variable {α β γ σ : Type}

/-- Begun in `s`, the computation ends with a value as `P` says or in a fault as `E` says. -/
def Ensures (m : Solve α β) (s : Session α) (P : β → Session α → Prop)
    (E : Fault α → Session α → Prop) : Prop :=
  match m.exec s with
  | (.ok b, t) => P b t
  | (.error fault, t) => E fault t

/-- What holds of the value of a checked operation. -/
def Holds (r : Except (Fault α) β) (P : β → Prop) (E : Fault α → Prop) : Prop :=
  (∀ b, r = .ok b → P b) ∧ ∀ fault, r = .error fault → E fault

/-- Nothing is asked of faults. -/
theorem holds_of_values {r : Except (Fault α) β} {P : β → Prop} (h : ∀ b, r = .ok b → P b) :
    Holds r P fun _ => True :=
  ⟨h, fun _ _ => trivial⟩

theorem holds_ok {b : β} {P : β → Prop} {E : Fault α → Prop} :
    Holds (.ok b : Except (Fault α) β) P E ↔ P b := by
  simp [Holds]

theorem holds_error {fault : Fault α} {P : β → Prop} {E : Fault α → Prop} :
    Holds (.error fault : Except (Fault α) β) P E ↔ E fault := by
  simp [Holds]

/-- What a pass leaves: `I` for the next pass, or the answer `P`. -/
def Pass.Keeps (I : σ → Prop) (P : β → Prop) : Pass σ β → Prop
  | .again state => I state
  | .stop answer => P answer

@[simp] theorem keeps_again (I : σ → Prop) (P : β → Prop) (state : σ) :
    (Pass.again state : Pass σ β).Keeps I P ↔ I state := Iff.rfl

@[simp] theorem keeps_stop (I : σ → Prop) (P : β → Prop) (answer : β) :
    (Pass.stop answer : Pass σ β).Keeps I P ↔ P answer := Iff.rfl

section Rules

variable {s : Session α} {P : β → Session α → Prop} {Q : γ → Session α → Prop}
variable {E : Fault α → Session α → Prop}

theorem Ensures.value {m : Solve α β} (h : m.Ensures s P E) {b : β} {t : Session α}
    (hm : m.exec s = (.ok b, t)) : P b t := by
  simpa only [Ensures, hm] using h

theorem Ensures.fault {m : Solve α β} (h : m.Ensures s P E) {fault : Fault α} {t : Session α}
    (hm : m.exec s = (.error fault, t)) : E fault t := by
  simpa only [Ensures, hm] using h

theorem Ensures.answer {m : Solve α β} (h : m.Ensures s P E) {b : β} (hm : (m.exec s).1 = .ok b) :
    P b (m.exec s).2 :=
  h.value (Prod.ext hm rfl)

/-- What holds of the session however a computation ends holds of the session that it leaves. -/
theorem Ensures.final {m : Solve α β} {I : Session α → Prop}
    (h : m.Ensures s (fun _ t => I t) fun _ t => I t) : I (m.exec s).2 := by
  rcases hm : m.exec s with ⟨fault | b, t⟩
  · exact h.fault hm
  · exact h.value hm

/-- A computation that cannot end in a fault returns. -/
theorem Ensures.returns {m : Solve α β} (h : m.Ensures s P fun _ _ => False) :
    ∃ b t, m.exec s = (.ok b, t) ∧ P b t := by
  rcases hm : m.exec s with ⟨fault | b, t⟩
  · exact (h.fault hm).elim
  · exact ⟨b, t, rfl, h.value hm⟩

theorem Ensures.mono {m : Solve α β} {P' : β → Session α → Prop} {E' : Fault α → Session α → Prop}
    (h : m.Ensures s P E) (hP : ∀ b t, P b t → P' b t) (hE : ∀ fault t, E fault t → E' fault t) :
    m.Ensures s P' E' := by
  unfold Ensures at h ⊢
  split
  · next b t hm => rw [hm] at h; exact hP b t h
  · next fault t hm => rw [hm] at h; exact hE fault t h

theorem Ensures.and {m : Solve α β} {P' : β → Session α → Prop} {E' : Fault α → Session α → Prop}
    (h : m.Ensures s P E) (h' : m.Ensures s P' E') :
    m.Ensures s (fun b t => P b t ∧ P' b t) fun fault t => E fault t ∧ E' fault t := by
  unfold Ensures at h h' ⊢
  split <;> simp_all

@[simp] theorem ensures_pure (b : β) : (pure b : Solve α β).Ensures s P E ↔ P b s := Iff.rfl

@[simp] theorem ensures_throw (fault : Fault α) :
    (throw fault : Solve α β).Ensures s P E ↔ E fault s := Iff.rfl

@[simp] theorem ensures_bind (m : Solve α β) (k : β → Solve α γ) :
    (m >>= k).Ensures s Q E ↔ m.Ensures s (fun b t => (k b).Ensures t Q E) E := by
  unfold Ensures
  rw [exec_bind]
  rcases m.exec s with ⟨_ | _, _⟩ <;> rfl

@[simp] theorem ensures_map (g : β → γ) (m : Solve α β) :
    (g <$> m).Ensures s Q E ↔ m.Ensures s (fun b t => Q (g b) t) E := by
  unfold Ensures
  rw [exec_map]
  rcases m.exec s with ⟨_ | _, _⟩ <;> rfl

@[simp] theorem ensures_ite (p : Prop) [Decidable p] (m n : Solve α β) :
    (if p then m else n).Ensures s P E ↔ (p → m.Ensures s P E) ∧ (¬p → n.Ensures s P E) := by
  by_cases h : p <;> simp [h]

@[simp] theorem ensures_get (Q : Session α → Session α → Prop) :
    (get : Solve α (Session α)).Ensures s Q E ↔ Q s s := Iff.rfl

@[simp] theorem ensures_modify (Q : Unit → Session α → Prop) (g : Session α → Session α) :
    (modify g : Solve α Unit).Ensures s Q E ↔ Q () (g s) := Iff.rfl

@[simp] theorem ensures_attempt (r : Except (Fault α) β) :
    (attempt r).Ensures s P E ↔ Holds r (P · s) (E · s) := by
  cases r <;> simp [Ensures, Holds]

@[simp] theorem ensures_bracket (Q : Bracket α → Session α → Prop) :
    bracket.Ensures s Q E ↔ Q s.bracket s := Iff.rfl

@[simp] theorem ensures_log (Q : Unit → Session α → Prop) (event : Event α) :
    (log event).Ensures s Q E ↔ Q () { s with events := s.events.push event } := Iff.rfl

@[simp] theorem ensures_setBracket (Q : Unit → Session α → Prop) (b : Bracket α) :
    (setBracket b).Ensures s Q E ↔ Q () { s with bracket := b } := Iff.rfl

@[simp] theorem ensures_setRoot (Q : Unit → Session α → Prop) (x : α) :
    (setRoot x).Ensures s Q E ↔ Q () { s with root := x } := Iff.rfl

@[simp] theorem ensures_setMin (Q : Unit → Session α → Prop) (x fx : α) :
    (setMin x fx).Ensures s Q E ↔
      Q () { s with bracket := { s.bracket with xMin := x, fMin := fx } } := Iff.rfl

@[simp] theorem ensures_setMax (Q : Unit → Session α → Prop) (x fx : α) :
    (setMax x fx).Ensures s Q E ↔
      Q () { s with bracket := { s.bracket with xMax := x, fMax := fx } } := Iff.rfl

@[simp] theorem ensures_charge (Q : Unit → Session α → Prop) (n : Int) :
    (charge n).Ensures s Q E ↔ Q () { s with evaluations := s.evaluations + n } := Iff.rfl

@[simp] theorem ensures_sample (Q : α → Session α → Prop) (f : Objective α) (x : α) :
    (sample f x).Ensures s Q E ↔ Holds (f.value x) (Q · (s.sampled x)) (E · (s.sampled x)) := by
  unfold Ensures
  rw [exec_sample]
  cases f.value x <;> simp [Holds, Session.sampled]

@[simp] theorem ensures_shrink [Scalar α] (Q : Unit → Session α → Prop) (x fx : α) :
    (shrink x fx).Ensures s Q E ↔ Q () { s with bracket := s.bracket.shrink x fx } := Iff.rfl

@[simp] theorem ensures_converged (Q : Result α → Session α → Prop) (x : α) (method : String) :
    (converged x method).Ensures s Q E ↔ Q (s.converged x method) s := Iff.rfl

@[simp] theorem ensures_fail (Q : Result α → Session α → Prop) (status : Status)
    (reason : Reason α) (method : String) (root : Option α) :
    (fail status reason method root).Ensures s Q E ↔ Q (s.fail status reason method root) s := Iff.rfl

@[simp] theorem ensures_exhausted (Q : Result α → Session α → Prop) (limit : Nat)
    (method : String) :
    (exhausted limit method).Ensures s Q E ↔ Q (s.exhausted limit method) s := Iff.rfl

@[simp] theorem ensures_collapsed [Scalar α] (Q : Result α → Session α → Prop) (x fx : α)
    (method : String) (accuracy : α) :
    (collapsed x fx method accuracy).Ensures s Q E ↔
      Q (s.collapsed x fx method accuracy) { s with root := (s.bracket.best (x, fx)).1 } := Iff.rfl

theorem ensures_trivial (m : Solve α β) : m.Ensures s (fun _ _ => True) fun _ _ => True := by
  unfold Ensures
  split
  · trivial
  · trivial

end Rules

/-! ## Loops -/

section Loops

variable {limit : Nat} {pass : σ → Solve α (Pass σ β)} {spent : Solve α β}
variable {I : σ → Session α → Prop} {P : β → Session α → Prop} {E : Fault α → Session α → Prop}

theorem ensures_passes
    (hpass : ∀ state s, I state s → s.hasBudget limit →
      (pass state).Ensures s (fun p t => p.Keeps (I · t) (P · t)) E)
    (hspent : ∀ state s, I state s → spent.Ensures s P E) (fuel : Nat) (state : σ)
    (s : Session α) (h : I state s) : (passes limit pass spent fuel state).Ensures s P E := by
  induction fuel generalizing state s with
  | zero => exact hspent state s h
  | succ fuel ih =>
    simp only [passes, ensures_bind, ensures_get, ensures_ite]
    refine ⟨fun hb => ?_, fun _ => hspent state s h⟩
    refine (hpass state s h hb).mono (fun p t hp => ?_) fun _ _ he => he
    cases p with
    | again state => exact ih state t hp
    | stop answer => exact hp

/-- What every pass within the budget keeps, the whole loop keeps. -/
theorem ensures_whileBudget
    (hpass : ∀ state s, I state s → s.hasBudget limit →
      (pass state).Ensures s (fun p t => p.Keeps (I · t) (P · t)) E)
    (hspent : ∀ state s, I state s → spent.Ensures s P E) {state : σ} {s : Session α}
    (h : I state s) : (whileBudget limit pass spent state).Ensures s P E := by
  simp only [whileBudget, ensures_bind, ensures_get]
  exact ensures_passes hpass hspent _ state s h

end Loops

end Solve

end RootSearch
