import RootSearch.Double
import RootSearch.Proofs.Bounds
import RootSearch.Solver
/-!
# The configuration of a solver

A solver holds a refiner and settings and nothing else. Every operation asks for settings, a solve for
those that are there, and the solver takes them if they are valid and stays as it is otherwise. So it is
at all times the solver that its name and its present settings would make anew.
-/

namespace RootSearch.Solver

variable {α : Type} [Scalar α]

/-- The settings that an operation asks for. -/
def Operation.request (s : Settings α) : Operation α → Settings α
  | .setMaxEvaluations n => { s with maxEvaluations := n.toNat }
  | .setLowBound low => { s with lowBound := low }
  | .setHiBound hi => { s with hiBound := hi }
  | .clearBounds => { s with lowBound := none, hiBound := none }
  | .run .. | .runBracketed .. | .solve .. | .solveBracketed .. => s

/-- Whether an operation solves, and does not reconfigure. -/
def Operation.solves : Operation α → Bool
  | .setMaxEvaluations _ | .setLowBound _ | .setHiBound _ | .clearBounds => false
  | .run .. | .runBracketed .. | .solve .. | .solveBracketed .. => true

/-- The solver after some operations. -/
def after (s : Solver α) (ops : List (Operation α)) : Solver α :=
  ops.foldl (fun s op => (s.perform op).2) s

/-! ## One operation -/

variable {s : Solver α}

/-- What comes of a reconfiguration that asks for settings. -/
structure Reconfigured (s : Solver α) (asked : Settings α)
    (answer : (Except (Fault α) (Answer α) × Session α) × Solver α) : Prop where
  accepted : asked.Valid → answer = ((.ok .configured, .start), { s with settings := asked })
  refused : ¬asked.Valid → ∃ fault, answer = ((.error fault, .start), s)

theorem settle_reconfigured (n : Int) (low hi : Option α) :
    Reconfigured s ⟨n.toNat, low, hi⟩ (perform.settle (s.reconfigure
      ((Settings.make n low hi).map fun settings => { s with settings }))) := by
  cases hmake : Settings.make n low hi with
  | ok settings =>
    obtain ⟨rfl, hvalid⟩ := Settings.make_eq_ok_iff.1 hmake
    exact ⟨fun _ => rfl, fun hnot => absurd hvalid hnot⟩
  | error fault =>
    refine ⟨fun hvalid => ?_, fun _ => ⟨fault, rfl⟩⟩
    rw [Settings.make_eq_ok_iff.2 ⟨rfl, hvalid⟩] at hmake
    cases hmake

theorem perform_reconfigured {op : Operation α} (hop : op.solves = false) :
    Reconfigured s (op.request s.settings) (s.perform op) := by
  cases op with
  | setMaxEvaluations n => exact settle_reconfigured n s.settings.lowBound s.settings.hiBound
  | setLowBound low => exact settle_reconfigured s.settings.maxEvaluations low s.settings.hiBound
  | setHiBound hi => exact settle_reconfigured s.settings.maxEvaluations s.settings.lowBound hi
  | clearBounds => exact settle_reconfigured s.settings.maxEvaluations none none
  | run | runBracketed | solve | solveBracketed => cases hop

theorem perform_solves {op : Operation α} (hop : op.solves = true) :
    (s.perform op).2 = s ∧ op.request s.settings = s.settings := by
  cases op with
  | setMaxEvaluations | setLowBound | setHiBound | clearBounds => cases hop
  | run | runBracketed | solve | solveBracketed => exact ⟨rfl, rfl⟩

/-- An operation leaves a solver as it is, or with the valid settings that it asks for. -/
theorem perform_cases (s : Solver α) (op : Operation α) :
    (s.perform op).2 = s ∨
      (op.request s.settings).Valid ∧ (s.perform op).2 = { s with settings := op.request s.settings } := by
  cases hop : op.solves with
  | true => exact .inl (perform_solves hop).1
  | false =>
    have h := perform_reconfigured (s := s) hop
    by_cases hvalid : (op.request s.settings).Valid
    · exact .inr ⟨hvalid, by rw [h.accepted hvalid]⟩
    · obtain ⟨fault, hrefused⟩ := h.refused hvalid
      exact .inl (by rw [hrefused])

/-- An operation keeps the refiner and the validity of the settings. -/
theorem perform_keeps (hs : s.settings.Valid) (op : Operation α) :
    (s.perform op).2.refiner = s.refiner ∧ (s.perform op).2.settings.Valid := by
  rcases s.perform_cases op with h | ⟨hvalid, h⟩
  · rw [h]
    exact ⟨rfl, hs⟩
  · rw [h]
    exact ⟨rfl, hvalid⟩

/-- Nothing comes of an operation that ends in a fault. -/
theorem perform_of_fault {op : Operation α} {fault : Fault α} (h : (s.perform op).1.1 = .error fault) :
    (s.perform op).2 = s := by
  cases hop : op.solves with
  | true => exact (perform_solves hop).1
  | false =>
    by_cases hvalid : (op.request s.settings).Valid
    · rw [(perform_reconfigured hop).accepted hvalid] at h
      cases h
    · obtain ⟨_, hrefused⟩ := (perform_reconfigured (s := s) hop).refused hvalid
      rw [hrefused]

/-! ## Any operations -/

/-- After any operations the refiner is the first one, and the settings are valid. -/
theorem after_keeps (hs : s.settings.Valid) (ops : List (Operation α)) :
    (s.after ops).refiner = s.refiner ∧ (s.after ops).settings.Valid := by
  induction ops generalizing s with
  | nil => exact ⟨rfl, hs⟩
  | cons op ops ih =>
    obtain ⟨hrefiner, hvalid⟩ := perform_keeps hs op
    obtain ⟨hrefiner', hvalid'⟩ := ih hvalid
    exact ⟨hrefiner'.trans hrefiner, hvalid'⟩

omit [Scalar α] in
/-- A solver made by name is the one that the name makes with its settings. -/
theorem ofName_eq_ok_iff {name : String} {settings : Settings α} {slope : Option (Slope α)} :
    ofName name settings slope = .ok s ↔
      Refiner.ofName name slope = .ok s.refiner ∧ s.settings = settings := by
  obtain ⟨refiner, settings'⟩ := s
  unfold ofName
  cases Refiner.ofName name slope with
  | error fault => exact ⟨fun h => (nomatch h), fun h => nomatch h.1⟩
  | ok refiner' =>
    constructor
    · rintro ⟨⟩
      exact ⟨rfl, rfl⟩
    · rintro ⟨⟨⟩, rfl⟩
      rfl

/-- Whatever was asked of a solver and however that went, its settings are valid, and an operation that
ends in a fault leaves it exactly as it was. A reconfiguration is accepted if the settings that it asks
for are valid, and then these are the settings. A solve leaves the solver as it is, and its outcome and
its session are those of a solver that is made anew by the same name with the present settings. -/
theorem configuration_stays_valid (name : String) (slope : Option (Slope α)) (n : Int)
    (low hi : Option α) (settings : Settings α) (made : Solver α)
    (hsettings : Settings.make n low hi = .ok settings)
    (hmade : ofName name settings slope = .ok made) (ops : List (Operation α)) (op : Operation α) :
    let s := made.after ops
    let outcome := (s.perform op).1.1
    let next := (s.perform op).2
    s.settings.Valid ∧ next.settings.Valid ∧
    (∀ fault, outcome = .error fault → next = s) ∧
    (op.solves = false →
      ((op.request s.settings).Valid →
        outcome = .ok .configured ∧ next = { s with settings := op.request s.settings }) ∧
      (¬(op.request s.settings).Valid → (∃ fault, outcome = .error fault) ∧ next = s)) ∧
    (op.solves = true → next = s ∧
      ∃ fresh, ofName name s.settings slope = .ok fresh ∧ (fresh.perform op).1 = (s.perform op).1) := by
  intro s outcome next
  obtain ⟨hrefiner, hsettled⟩ := ofName_eq_ok_iff.1 hmade
  have hmadeValid : made.settings.Valid := by
    rw [hsettled]
    exact Settings.valid_of_make hsettings
  obtain ⟨hkept, hvalid⟩ := after_keeps hmadeValid ops
  refine ⟨hvalid, (perform_keeps hvalid op).2, fun fault h => perform_of_fault h, fun hop => ?_,
    fun hop => ⟨(perform_solves hop).1, s, ?_, rfl⟩⟩
  · have h := perform_reconfigured (s := s) hop
    refine ⟨fun hvalid => ?_, fun hvalid => ?_⟩
    · simp only [outcome, next, h.accepted hvalid, and_self]
    · obtain ⟨fault, hrefused⟩ := h.refused hvalid
      simp only [outcome, next, hrefused, and_true]
      exact ⟨fault, rfl⟩
  · have hsame : s.refiner = made.refiner := hkept
    rw [ofName_eq_ok_iff, hsame]
    exact ⟨hrefiner, rfl⟩

/-- Between a bound that was enforced and a budget that was refused, a bound that crosses the first is
refused. -/
theorem crossing_bound_leaves_configuration :
    let made : Solver Double := ⟨⟨.brent, none⟩, {}⟩
    let ops : List (Operation Double) :=
      [.setHiBound (some 1.0), .setMaxEvaluations 0, .solve (.ofTotal fun x => x - 0.5) 1e-9 0.0 0.25]
    let s := made.after ops
    Settings.make 100 none none = .ok made.settings ∧ ofName "Brent" made.settings = .ok made ∧
    s.settings = ⟨100, none, some 1.0⟩ ∧
    (∃ fault, (s.perform (.setLowBound (some 2.0))).1.1 = .error fault) ∧
    (s.perform (.setLowBound (some 2.0))).2 = s := by
  intro made ops s
  have hsettings : Settings.make 100 none none = .ok made.settings := rfl
  have hmade : ofName "Brent" made.settings = .ok made := rfl
  obtain ⟨-, -, -, hrefused, -⟩ := configuration_stays_valid "Brent" none 100 none none made.settings made
    hsettings hmade ops (.setLowBound (some 2.0))
  have hcrossed : ¬(Operation.request s.settings (.setLowBound (some 2.0))).Valid :=
    fun h => h.ordered 2.0 rfl 1.0 rfl (by decide +kernel)
  obtain ⟨hfault, hsame⟩ := (hrefused rfl).2 hcrossed
  exact ⟨hsettings, hmade, rfl, hfault, hsame⟩

end RootSearch.Solver
