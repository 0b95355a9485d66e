import RootSearch.Proofs.DoubleSigns
import RootSearch.Proofs.Genuine
import RootSearch.Proofs.Heads
/-!
# A refinement keeps its sign change

A point becomes an end of the bracket only after its value has missed the accuracy, so the value is
off zero and takes the side that it shares. This holds as long as the objective gives numbers only:
what is not a number misses every accuracy and lies on no side. Brent's methods are left out, since
they also keep points in the bracket that do not straddle zero.
-/

namespace RootSearch

open Solve

variable {α σ : Type} [Scalar α]

/-- Whatever the objective gives is a number. -/
def Objective.GivesNumbers (f : Objective α) : Prop :=
  ∀ x fx, f.value x = .ok fx → Scalar.isNaN fx = false

/-- The sampled values are numbers, and those that miss the accuracy lie on a side of zero. -/
structure Signing (f : Objective α) (accuracy : α) (samples : Array α) : Prop where
  number : ∀ {x fx}, Sampled f samples x fx → Scalar.isNaN fx = false
  signed : ∀ {x fx}, Sampled f samples x fx → ¬Scalar.abs fx ≤ accuracy → Signed fx

namespace Signing

variable {f : Objective α} {accuracy x : α} {samples : Array α}

theorem of_push (h : Signing f accuracy (samples.push x)) : Signing f accuracy samples :=
  ⟨fun hy => h.number (hy.push x), fun hy => h.signed (hy.push x)⟩

/-- Numbers that miss the accuracy lie on a side of zero, unless there is no accuracy to tell a zero. -/
theorem of_numbers [LawfulScalar α]
    (hnumbers : ∀ x fx, Sampled f samples x fx → Scalar.isNaN fx = false)
    (hzeros : Scalar.isNaN accuracy = true → ∀ x fx, Sampled f samples x fx → ¬(fx == 0.0) = true) :
    Signing f (Scalar.effectiveAccuracy accuracy) samples := by
  refine ⟨fun hx => hnumbers _ _ hx, fun {x fx} hx hmiss => ?_⟩
  by_cases haccuracy : Scalar.isNaN accuracy = true
  · exact signed_of_number (hnumbers x fx hx) (hzeros haccuracy x fx hx)
  · have hself := Scalar.isNaN_eq_false_iff.1 (Bool.eq_false_iff.2 haccuracy)
    have hpos := Scalar.le_trans (Scalar.le_of_lt Scalar.epsilon_pos)
      (Scalar.epsilon_le_effectiveAccuracy hself)
    exact signed_of_missed hpos (hnumbers x fx hx) hmiss

end Signing

/-- The reported bracket holds a sign change. -/
def Result.Straddles (r : Result α) : Prop := ∃ b, r.bracket = some b ∧ b.Straddles

theorem collapsed_straddles {s : Session α} (hs : s.bracket.Straddles) (x fx : α) (method : String)
    (accuracy : α) : (s.collapsed x fx method accuracy).Straddles := by
  simp only [Session.collapsed]
  split
  · exact ⟨s.bracket, rfl, hs⟩
  · exact ⟨s.bracket, rfl, hs⟩

/-! ## What a pass keeps -/

/-- A pass goes on with a sign change, or stops with a result that reports one. -/
abbrev KeepsSigns (p : Pass σ (Result α)) (t : Session α) : Prop :=
  p.Keeps (fun _ => t.bracket.Straddles) Result.Straddles

section Passes

variable [LawfulScalar α] {f : Objective α} {accuracy x fx : α} {method : String} {s : Session α}

theorem visits_keepsSigns {next : α → Prop} (hf : f.GivesNumbers) (haccuracy : 0.0 ≤ accuracy)
    (hs : s.bracket.Straddles) (h : ∀ fx, Signed fx → next fx) :
    Visits f accuracy method x s (KeepsSigns (σ := σ)) (fun _ _ => True) next := by
  apply holds_of_values
  intro fx hfx
  constructor
  · intro _
    exact ⟨s.bracket, rfl, hs⟩
  · intro hmiss
    exact h fx (signed_of_missed haccuracy (hf x fx hfx) hmiss)

theorem visitsWithSlope_keepsSigns {slope : Slope α} {next : Newton.Point α → Prop}
    (hf : f.GivesNumbers) (haccuracy : 0.0 ≤ accuracy) (hs : s.bracket.Straddles)
    (h : ∀ p : Newton.Point α, Signed p.fx → next p) :
    VisitsWithSlope f slope accuracy method x s (KeepsSigns (σ := σ)) (fun _ _ => True) next := by
  apply holds_of_values
  intro fx hfx
  apply holds_of_values
  intro dfx _
  constructor
  · intro _
    exact ⟨s.bracket, rfl, hs⟩
  · intro hmiss
    exact h ⟨x, fx, dfx⟩ (signed_of_missed haccuracy (hf x fx hfx) hmiss)

omit [LawfulScalar α] in
theorem settles_keepsSigns {isSmall : Prop} {state : σ} (hs : s.bracket.Straddles) :
    Settles isSmall x fx method accuracy state s KeepsSigns := by
  constructor
  · intro _
    exact collapsed_straddles hs x fx method accuracy
  · intro _
    exact hs

end Passes

/-! ## The methods -/

section Methods

variable [LawfulSigns α] {f : Objective α} {accuracy : α} {s : Session α}

theorem Bisection.pass_keepsSigns (hf : f.GivesNumbers) (haccuracy : 0.0 ≤ accuracy)
    (hs : s.bracket.Straddles) (u : Unit) :
    (pass f accuracy u).Ensures s KeepsSigns fun _ _ => True := by
  rw [ensures_pass]
  apply visits_keepsSigns hf haccuracy hs
  intro fMid hmid
  exact settles_keepsSigns (hs.shrink_of_signed hmid)

theorem FalsePosition.pass_keepsSigns (hf : f.GivesNumbers) (haccuracy : 0.0 ≤ accuracy)
    (hs : s.bracket.Straddles) (previous : Option α) :
    (pass f accuracy previous).Ensures s KeepsSigns fun _ _ => True := by
  rw [ensures_pass]
  apply holds_of_values
  intro x _
  apply visits_keepsSigns hf haccuracy hs
  intro fx hfx
  exact settles_keepsSigns (hs.shrink_of_signed hfx)

theorem Secant.pass_keepsSigns (hf : f.GivesNumbers) (haccuracy : 0.0 ≤ accuracy)
    (hs : s.bracket.Straddles) (p : Points α) :
    (pass f accuracy p).Ensures s KeepsSigns fun _ _ => True := by
  rw [ensures_pass]
  constructor
  · intro _
    exact ⟨s.bracket, rfl, hs⟩
  · intro _
    apply holds_of_values
    intro d _
    apply visits_keepsSigns hf haccuracy hs
    intro fx hfx
    exact settles_keepsSigns (hs.shrink_of_signed hfx)

theorem Ridder.pass_keepsSigns (hf : f.GivesNumbers) (haccuracy : 0.0 ≤ accuracy)
    (hs : s.bracket.Straddles) (u : Unit) :
    (pass f accuracy u).Ensures s KeepsSigns fun _ _ => True := by
  rw [ensures_pass]
  apply visits_keepsSigns hf haccuracy hs
  intro fMid hmid
  have ht : (s.visited s.bracket.midpoint).bracket.Straddles := hs
  apply holds_of_values
  intro scale _
  constructor
  · intro _
    exact collapsed_straddles ht _ fMid name accuracy
  · intro _
    apply holds_of_values
    intro x _
    apply visits_keepsSigns hf haccuracy ht
    intro fx hfx
    exact settles_keepsSigns (narrow_straddles_of_signed hs hmid hfx)

omit [LawfulSigns α] in
theorem Newton.pass_keepsSigns [LawfulScalar α] (hf : f.GivesNumbers) (haccuracy : 0.0 ≤ accuracy)
    (hs : s.bracket.Straddles) (slope : Slope α) (p : Point α) :
    (pass f slope accuracy p).Ensures s KeepsSigns fun _ _ => True := by
  rw [ensures_pass]
  refine ⟨fun _ => ⟨s.bracket, rfl, hs⟩, fun _ => ?_⟩
  apply holds_of_values
  intro dx _
  constructor
  · intro _
    exact ⟨s.bracket, rfl, hs⟩
  · intro _
    apply visitsWithSlope_keepsSigns hf haccuracy hs
    intro q _
    exact settles_keepsSigns (s := s.visited _) hs

theorem SafeNewton.pass_keepsSigns (hf : f.GivesNumbers) (haccuracy : 0.0 ≤ accuracy)
    (hs : s.bracket.Straddles) (slope : Slope α) (i : Iterate α) :
    (pass f slope accuracy i).Ensures s KeepsSigns fun _ _ => True := by
  rw [ensures_pass]
  apply holds_of_values
  intro (dx, x) _
  apply visitsWithSlope_keepsSigns hf haccuracy hs
  intro p hp
  exact settles_keepsSigns (hs.shrink_of_signed hp)

end Methods

/-! ## Refinements -/

section Refinements

variable [LawfulSigns α] {r : Refiner α} {f : Objective α} {accuracy : α} {s : Session α}
variable {l : Loop α}

/-- Every pass of the loop that a refinement enters keeps a sign change. -/
theorem Refiner.Enters.pass_keepsSigns (hl : r.Enters f accuracy s l) (hbrent : r.method ≠ .brent)
    (hf : f.GivesNumbers) (haccuracy : 0.0 ≤ accuracy) (state : l.State) {t : Session α}
    (ht : t.bracket.Straddles) : (l.pass state).Ensures t KeepsSigns fun _ _ => True := by
  obtain ⟨method, supplied⟩ := r
  cases method with
  | bisection => cases hl; exact Bisection.pass_keepsSigns hf haccuracy ht state
  | falsePosition => cases hl; exact FalsePosition.pass_keepsSigns hf haccuracy ht state
  | secant => cases hl; exact Secant.pass_keepsSigns hf haccuracy ht state
  | ridder => cases hl; exact Ridder.pass_keepsSigns hf haccuracy ht state
  | newton =>
    obtain ⟨slope, p, -, rfl⟩ := hl
    exact Newton.pass_keepsSigns hf haccuracy ht slope state
  | safeNewton =>
    obtain ⟨slope, p, -, rfl⟩ := hl
    exact SafeNewton.pass_keepsSigns hf haccuracy ht slope state
  | brent => exact absurd rfl hbrent
  | brentq => cases hl

omit [LawfulSigns α] in
/-- A method that is not Brent's enters its loop with the bracket that it is given. -/
theorem Refiner.Enters.bracket_eq (hl : r.Enters f accuracy s l) (hbrent : r.method ≠ .brent) :
    l.session.bracket = s.bracket := by
  obtain ⟨method, supplied⟩ := r
  cases method with
  | bisection | falsePosition | secant | ridder => cases hl; rfl
  | newton | safeNewton => obtain ⟨slope, p, -, rfl⟩ := hl; rfl
  | brent => exact absurd rfl hbrent
  | brentq => cases hl

theorem Refiner.head_straddles (hl : r.Enters f accuracy s l) (hbrent : r.method ≠ .brent)
    (hf : f.GivesNumbers) (haccuracy : 0.0 ≤ accuracy) (hs : s.bracket.Straddles) {limit : Nat}
    {state : l.State} {t : Session α} (ht : l.Head limit state t) : t.bracket.Straddles := by
  apply ht.keeps (I := fun _ t => t.bracket.Straddles) (P := fun result _ => result.Straddles)
    (E := fun _ _ => True)
  · intro state t ht _
    exact hl.pass_keepsSigns hbrent hf haccuracy state ht
  · rw [hl.bracket_eq hbrent]
    exact hs

theorem Refiner.refine_straddles (hbrent : r.method ≠ .brent) (hbrentq : r.method ≠ .brentq)
    (hf : f.GivesNumbers) (haccuracy : 0.0 ≤ accuracy) (hs : s.bracket.Straddles) (limit : Nat) :
    (r.refine f limit accuracy).Ensures s (fun result _ => result.Straddles) fun _ _ => True := by
  refine ensures_refine hbrentq (fun _ _ _ => ⟨s.bracket, rfl, hs⟩) (fun _ _ => trivial)
    (fun _ _ _ => trivial) (fun _ _ _ _ _ => trivial) fun l hl => ?_
  apply Loop.ensures_run
  · intro state t ht _
    have hstraddles := head_straddles hl hbrent hf haccuracy hs ht
    refine (hl.pass_keepsSigns hbrent hf haccuracy state hstraddles).mono (fun p u hp => ?_) fun _ _ h => h
    cases p with
    | again => trivial
    | stop result => exact hp
  · intro state t ht
    exact ⟨t.bracket, rfl, head_straddles hl hbrent hf haccuracy hs ht⟩

end Refinements

/-- Begun in doubles on a bracket whose values have strictly opposite signs, each method but Brent's
two has such a bracket whenever a pass may begin, and reports one with every result. -/
theorem sign_change_is_kept (r : Refiner Double) (f : Objective Double) (limit : Nat)
    (accuracy : Double) (s : Session Double) (hbrent : r.method ≠ .brent)
    (hbrentq : r.method ≠ .brentq) (haccuracy : 0.0 ≤ accuracy)
    (hf : ∀ x fx, f.value x = .ok fx → Scalar.isNaN fx = false) (hs : s.bracket.Straddles) :
    (∀ l, r.Enters f accuracy s l → ∀ state t, l.Head limit state t → t.bracket.Straddles) ∧
    ∀ result, ((r.refine f limit accuracy).exec s).1 = .ok result →
      ∃ b, result.bracket = some b ∧ b.Straddles := by
  constructor
  · intro l hl state t ht
    exact Refiner.head_straddles hl hbrent hf haccuracy hs ht
  · intro result hresult
    exact (Refiner.refine_straddles hbrent hbrentq hf haccuracy hs limit).answer hresult

/-- Ridders' method on a function that jumps over zero. -/
theorem sign_change_is_kept_at_jump :
    let r : Refiner Double := ⟨.ridder, none⟩
    let f : Objective Double := .ofTotal fun x => if x < 1.0 then -1.0 else 2.0
    let s : Session Double := { root := 2.5, bracket := ⟨0.0, 4.0, -1.0, 2.0⟩ }
    (∀ l, r.Enters f 0.0 s l → ∀ state t, l.Head 20 state t → t.bracket.Straddles) ∧
    ∀ result, ((r.refine f 20 0.0).exec s).1 = .ok result →
      ∃ b, result.bracket = some b ∧ b.Straddles := by
  apply sign_change_is_kept
  · decide
  · decide
  · decide +kernel
  · intro x fx hfx
    cases hfx
    show Scalar.isNaN (if x < 1.0 then -1.0 else 2.0 : Double) = false
    split <;> decide +kernel
  · exact .inl ⟨by decide +kernel, by decide +kernel⟩

end RootSearch
