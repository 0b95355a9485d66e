import RootSearch.Session
/-!
# Computations on sessions

A `Solve` computation samples objectives and keeps the books in a session. It may end in a fault, and
keeps the session then too.

The budget is no part of a session. Only the loop that repeats a pass sees it, so no pass can behave
differently under a larger budget.
-/

namespace RootSearch

/-- A computation on a session that may end in a fault. -/
abbrev Solve (α : Type) := ExceptT (Fault α) (StateM (Session α))

namespace Solve

variable {α β γ σ : Type}

/-- The outcome of a computation and the session it leaves. -/
def exec (m : Solve α β) (s : Session α) : Except (Fault α) β × Session α :=
  StateT.run (ExceptT.run m) s

/-- Goes on with a value, or ends in the fault. -/
def attempt (r : Except (Fault α) β) : Solve α β := liftExcept r

/-- What a computation ends in, as a value. -/
def observe (m : Solve α β) : Solve α (Except (Fault α) β) := ExceptT.lift m.run

def log (event : Event α) : Solve α Unit :=
  modify fun s => { s with events := s.events.push event }

def bracket : Solve α (Bracket α) := return (← get).bracket

def setBracket (b : Bracket α) : Solve α Unit := modify fun s => { s with bracket := b }

def setRoot (x : α) : Solve α Unit := modify fun s => { s with root := x }

/-- Makes `x` an end of the bracket, where the objective is `fx`. -/
def setMin (x fx : α) : Solve α Unit :=
  modify fun s => { s with bracket := { s.bracket with xMin := x, fMin := fx } }

def setMax (x fx : α) : Solve α Unit :=
  modify fun s => { s with bracket := { s.bracket with xMax := x, fMax := fx } }

/-- Adds to the evaluations without calling the objective. -/
def charge (n : Int) : Solve α Unit :=
  modify fun s => { s with evaluations := s.evaluations + n }

/-- Calls the objective. The call is charged and recorded even if it fails. -/
def sample (f : Objective α) (x : α) : Solve α α := do
  modify fun s => { s with evaluations := s.evaluations + 1, samples := s.samples.push x }
  attempt (f.value x)

/-- Shrinks the bracket to a sampled point. -/
def shrink [Scalar α] (x fx : α) : Solve α Unit :=
  modify fun s => { s with bracket := s.bracket.shrink x fx }

/-! ## Results of the session -/

def converged (x : α) (method : String) : Solve α (Result α) := return (← get).converged x method

def fail (status : Status) (reason : Reason α) (method : String) (root : Option α := none) :
    Solve α (Result α) :=
  return (← get).fail status reason method root

def exhausted (limit : Nat) (method : String) : Solve α (Result α) :=
  return (← get).exhausted limit method

/-- The result of a collapsed bracket; its best point becomes the estimate. -/
def collapsed [Scalar α] (x fx : α) (method : String) (accuracy : α) : Solve α (Result α) := do
  setRoot ((← bracket).best (x, fx)).1
  return (← get).collapsed x fx method accuracy

/-! ## Repeating a pass -/

/-- What a pass decides: to go on from a state, or to stop with an answer. -/
inductive Pass (σ β : Type) where
  | again (state : σ)
  | stop (answer : β)

/-- At most `fuel` passes, each begun within the budget. -/
def passes (limit : Nat) (pass : σ → Solve α (Pass σ β)) (spent : Solve α β) :
    Nat → σ → Solve α β
  | 0, _ => spent
  | fuel + 1, state => do
    if (← get).hasBudget limit then
      match ← pass state with
      | .again state => passes limit pass spent fuel state
      | .stop answer => return answer
    else spent

/-- Repeats a pass until it stops or the budget is spent. Every pass calls the objective, so no
more passes than evaluations are left can begin. -/
def whileBudget (limit : Nat) (pass : σ → Solve α (Pass σ β)) (spent : Solve α β) (state : σ) :
    Solve α β := do
  passes limit pass spent (limit + 1 - (← get).evaluations).toNat state

/-! ## What computations leave -/

section Exec

variable (s : Session α)

@[simp] theorem exec_pure (b : β) : (pure b : Solve α β).exec s = (.ok b, s) := rfl

@[simp] theorem exec_throw (fault : Fault α) :
    (throw fault : Solve α β).exec s = (.error fault, s) := rfl

@[simp] theorem exec_get : (get : Solve α (Session α)).exec s = (.ok s, s) := rfl

@[simp] theorem exec_modify (g : Session α → Session α) :
    (modify g : Solve α Unit).exec s = (.ok (), g s) := rfl

theorem exec_bind (m : Solve α β) (k : β → Solve α γ) :
    (m >>= k).exec s = match m.exec s with
      | (.ok b, s) => (k b).exec s
      | (.error fault, s) => (.error fault, s) := by
  rcases h : m.exec s with ⟨r, t⟩
  simp only [exec] at h ⊢
  simp only [ExceptT.run_bind, StateT.run_bind, h]
  cases r <;> rfl

@[simp] theorem exec_map (g : β → γ) (m : Solve α β) :
    (g <$> m).exec s = ((m.exec s).1.map g, (m.exec s).2) := by
  rcases h : m.exec s with ⟨r, t⟩
  simp only [exec] at h ⊢
  simp only [ExceptT.run_map, StateT.run_map, h]
  cases r <;> rfl

@[simp] theorem exec_ite (p : Prop) [Decidable p] (m n : Solve α β) :
    (if p then m else n).exec s = if p then m.exec s else n.exec s := by
  split <;> rfl

@[simp] theorem exec_attempt (r : Except (Fault α) β) : (attempt r).exec s = (r, s) := by
  cases r <;> rfl

@[simp] theorem exec_observe (m : Solve α β) :
    (observe m).exec s = (.ok (m.exec s).1, (m.exec s).2) := rfl

@[simp] theorem exec_bracket : bracket.exec s = (.ok s.bracket, s) := rfl

@[simp] theorem exec_log (event : Event α) :
    (log event).exec s = (.ok (), { s with events := s.events.push event }) := rfl

@[simp] theorem exec_setBracket (b : Bracket α) :
    (setBracket b).exec s = (.ok (), { s with bracket := b }) := rfl

@[simp] theorem exec_setRoot (x : α) : (setRoot x).exec s = (.ok (), { s with root := x }) := rfl

@[simp] theorem exec_sample (f : Objective α) (x : α) : (sample f x).exec s = (f.value x,
    { s with evaluations := s.evaluations + 1, samples := s.samples.push x }) := by
  simp [sample, exec_bind]

@[simp] theorem exec_converged (x : α) (method : String) :
    (converged x method).exec s = (.ok (s.converged x method), s) := rfl

@[simp] theorem exec_fail (status : Status) (reason : Reason α) (method : String)
    (root : Option α) : (fail status reason method root).exec s =
    (.ok (s.fail status reason method root), s) := rfl

@[simp] theorem exec_collapsed [Scalar α] (x fx : α) (method : String) (accuracy : α) :
    (collapsed x fx method accuracy).exec s = (.ok (s.collapsed x fx method accuracy),
      { s with root := (s.bracket.best (x, fx)).1 }) := rfl

end Exec

end Solve

end RootSearch
