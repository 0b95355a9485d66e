import Mathlib
import RootSearch.Proofs.DoubleDifference
import RootSearch.Proofs.SampledRoots
import RootSearch.Proofs.Succeeding
/-!
# Zero ends

A search from a guess takes an end where the objective is zero for a root, whatever the accuracy. In a
supplied bracket such an end is tested against the accuracy that was asked for, and strictly. No value
is below an accuracy that is not positive, and a zero makes no sign change, so the bracket is refused.
-/

namespace RootSearch

open Solve

/-- A magnitude is below positive numbers only. -/
theorem Scalar.pos_of_abs_lt {α : Type} [Scalar α] [LawfulArithmetic α] {y accuracy : α}
    (h : Scalar.abs y < accuracy) : 0.0 < accuracy :=
  have hself := (le_refl_of_le (le_of_lt h)).1
  lt_of_le_of_lt (zero_le_abs (number_of_abs hself)) h

theorem Scalar.abs_lt_of_zero {α : Type} [Scalar α] [LawfulScalar α] {y accuracy : α}
    (hy : (y == 0.0) = true) (h : 0.0 < accuracy) : Scalar.abs y < accuracy :=
  lt_of_le_of_lt (abs_le_zero hy) h

/-- A zero is on no side of zero. -/
theorem Opposite.ne_beq_zero {α : Type} [Scalar α] [LawfulScalar α] {y z : α} (h : Opposite y z) :
    ¬(y == 0.0) = true ∧ ¬(z == 0.0) = true := by
  have hne {x : α} (hx : Signed x) : ¬(x == 0.0) = true := by
    intro hzero
    obtain ⟨hle, hge⟩ := Scalar.beq_iff.1 hzero
    rcases hx with hx | hx
    · exact (Scalar.lt_iff.1 hx).2 hge
    · exact (Scalar.lt_iff.1 hx).2 hle
  exact ⟨hne h.signed.1, hne h.signed.2⟩

/-- One of the two values is zero. -/
def Bracket.HasZero {α : Type} [Scalar α] (b : Bracket α) : Prop :=
  (b.fMin == 0.0) = true ∨ (b.fMax == 0.0) = true

section Solves

variable {r : Refiner Double} {f : Objective Double} {settings : Settings Double}
variable {accuracy guess step xMin xMax fMin fMax : Double} {method : String}

/-! ## In a supplied bracket -/

/-- The first end that meets a positive accuracy is the root, and any other accuracy refuses the
bracket. -/
def Result.TakesEnd (accuracy : Double) (b : Bracket Double) (result : Result Double) : Prop :=
  (0.0 < accuracy → result.status = .converged ∧
    result.root = some (if Scalar.abs b.fMin < accuracy then b.xMin else b.xMax)) ∧
  (¬0.0 < accuracy → result.status = .rootNotBracketed)

theorem solveInBracket_takesEnd (haccepted : Search.defect? settings guess xMin xMax = none)
    (hmin : f.value xMin = .ok fMin) (hmax : f.value xMax = .ok fMax)
    (hzero : (⟨xMin, xMax, fMin, fMax⟩ : Bracket Double).HasZero) :
    (solveInBracket r f settings accuracy guess xMin xMax).Ensures .start
      (fun result _ => result.TakesEnd accuracy ⟨xMin, xMax, fMin, fMax⟩) fun _ _ => False := by
  show ((Entry.inBracket guess xMin xMax).solve r f settings accuracy).Ensures .start _ _
  rw [Entry.ensures_solve]
  show (Search.supplied f settings accuracy guess xMin xMax r.name).Ensures .start _ _
  rw [Search.ensures_supplied]
  refine ⟨fun status reason h => ?_, fun _ => ?_⟩
  · rw [haccepted] at h
    cases h
  apply holds_of_total ⟨fMin, hmin⟩
  intro fMin' hmin'
  cases hmin.symm.trans hmin'
  refine ⟨fun hmet => ⟨fun _ => ⟨rfl, ?_⟩, fun hnot => ?_⟩, fun hmissMin => ?_⟩
  · exact congrArg some (if_pos hmet).symm
  · exact absurd (Scalar.pos_of_abs_lt hmet) hnot
  apply holds_of_total ⟨fMax, hmax⟩
  intro fMax' hmax'
  cases hmax.symm.trans hmax'
  refine ⟨fun hmet => ⟨fun _ => ⟨rfl, ?_⟩, fun hnot => ?_⟩,
    fun hmissMax => ⟨fun hproduct => ?_, fun _ => ?_⟩⟩
  · exact congrArg some (if_neg hmissMin).symm
  · exact absurd (Scalar.pos_of_abs_lt hmet) hnot
  · obtain ⟨hmin0, hmax0⟩ := (Double.opposite_of_mul_lt_zero hproduct).ne_beq_zero
    exact (hzero.elim hmin0 hmax0).elim
  · refine ⟨fun hpos => ?_, fun _ => rfl⟩
    rcases hzero with hzero | hzero
    · exact absurd (Scalar.abs_lt_of_zero hzero hpos) hmissMin
    · exact absurd (Scalar.abs_lt_of_zero hzero hpos) hmissMax

/-! ## From a guess -/

/-- A search that ends within its budget on a zero beside a finite value has converged. -/
def Search.Outcome.StopsAtZero (limit : Nat) (t : Session Double) (outcome : Search.Outcome Double) :
    Prop :=
  t.bracket.All (fun _ fx => fx.isFinite = true) → t.bracket.HasZero → t.evaluations ≤ limit →
    ∃ result, outcome = .answered result ∧ result.status = .converged

theorem Search.aroundGuess_stopsAtZero :
    (aroundGuess f settings accuracy guess step method).Ensures .start
      (fun outcome t => outcome.StopsAtZero settings.maxEvaluations t) fun _ _ => True := by
  rw [ensures_aroundGuess]
  apply holds_of_values
  intro fx _
  refine ⟨fun _ _ _ _ => ⟨_, rfl, rfl⟩, fun _ => ?_⟩
  apply holds_of_values
  intro fx' _
  apply ensures_whileBudget_of_advances (I := fun _ _ => True) (pass_advances f settings method)
  · intro tieLow t _ _
    rw [ensures_pass]
    refine ⟨fun _ => ⟨fun _ _ _ _ => ⟨_, rfl, rfl⟩,
        fun hmin => ⟨fun _ _ _ _ => ⟨_, rfl, rfl⟩, fun hmax => ?_⟩⟩,
      fun _ => holds_of_values fun _ _ => trivial⟩
    rintro - (hzero | hzero) -
    · exact absurd hzero hmin
    · exact absurd hzero hmax
  · intro _ t _ hspent
    rw [ensures_giveUp]
    have hover : ¬t.evaluations ≤ settings.maxEvaluations := by simpa [Session.hasBudget] using hspent
    exact fun _ _ hbudget => absurd hbudget hover
  · trivial

end Solves

/-- Let the objective be zero at an end of a supplied bracket that is in order. If the accuracy is
positive, the first end within it is the root. For any other accuracy the bracket is refused, as if
there were no root. A search from a guess that comes to a zero beside a finite value within its budget
converges, whatever the accuracy. -/
theorem zero_end_is_root_of_positive_accuracy (r : Refiner Double) (f : Objective Double)
    (settings : Settings Double) (accuracy : Double) :
    (∀ guess xMin xMax fMin fMax, Search.defect? settings guess xMin xMax = none →
      f.value xMin = .ok fMin → f.value xMax = .ok fMax → (fMin == 0.0 || fMax == 0.0) = true →
      ∃ result, ((solveInBracket r f settings accuracy guess xMin xMax).exec .start).1 = .ok result ∧
        (0.0 < accuracy → result.status = .converged ∧
          result.root = some (if Scalar.abs fMin < accuracy then xMin else xMax)) ∧
        (¬0.0 < accuracy → result.status = .rootNotBracketed)) ∧
    ∀ guess step outcome t,
      (Search.aroundGuess f settings accuracy guess step r.name).exec .start = (.ok outcome, t) →
      t.bracket.fMin.isFinite = true → t.bracket.fMax.isFinite = true →
      (t.bracket.fMin == 0.0 || t.bracket.fMax == 0.0) = true → t.evaluations ≤ settings.maxEvaluations →
      ∃ result, ((solveFromGuess r f settings accuracy guess step).exec .start).1 = .ok result ∧
        result.status = .converged := by
  constructor
  · intro guess xMin xMax fMin fMax haccepted hmin hmax hzero
    rw [Bool.or_eq_true] at hzero
    obtain ⟨result, t, hexec, htakes⟩ :=
      (solveInBracket_takesEnd (r := r) haccepted hmin hmax hzero).returns
    exact ⟨result, congrArg Prod.fst hexec, htakes⟩
  · intro guess step outcome t hsearch hfMin hfMax hzero hbudget
    rw [Bool.or_eq_true] at hzero
    obtain ⟨result, rfl, hstatus⟩ :=
      Search.aroundGuess_stopsAtZero.value hsearch ⟨hfMin, hfMax⟩ hzero hbudget
    exact ⟨result, congrArg Prod.fst (exec_solveFromGuess_answered hsearch), hstatus⟩

/-- A line that is zero at the low end. -/
theorem zero_end_is_root_on_line :
    let r : Refiner Double := ⟨.brent, none⟩
    let f : Objective Double := .ofTotal fun x => x - 1.0
    (∃ result, ((solveInBracket r f {} 1e-9 1.5 1.0 2.0).exec .start).1 = .ok result ∧
      result.status = .converged ∧ result.root = some 1.0) ∧
    ∃ result, ((solveFromGuess r f {} (-1e-9) 2.0 1.0).exec .start).1 = .ok result ∧
      result.status = .converged := by
  intro r f
  constructor
  · obtain ⟨result, hresult, hpositive, -⟩ :=
      (zero_end_is_root_of_positive_accuracy r f {} 1e-9).1 1.5 1.0 2.0 0.0 1.0 (by decide +kernel)
        (by decide +kernel) (by decide +kernel) (by decide +kernel)
    obtain ⟨hstatus, hroot⟩ := hpositive (by decide +kernel)
    refine ⟨result, hresult, hstatus, hroot.trans ?_⟩
    decide +kernel
  · let search := (Search.aroundGuess f {} (-1e-9) 2.0 1.0 r.name).exec .start
    have hanswered : search.1.toOption.isSome = true := by decide +kernel
    obtain ⟨outcome, houtcome⟩ : ∃ outcome, search.1 = .ok outcome := by
      cases h : search.1 with
      | error fault => rw [h] at hanswered; cases hanswered
      | ok outcome => exact ⟨outcome, rfl⟩
    exact (zero_end_is_root_of_positive_accuracy r f {} (-1e-9)).2 2.0 1.0 outcome search.2
      (Prod.ext houtcome rfl) (by decide +kernel) (by decide +kernel) (by decide +kernel)
      (by decide +kernel)

/-- With an accuracy that is not positive the same line is refused, at either end, although a search
from a guess finds the root. -/
theorem zero_end_is_refused :
    let f : Objective Double := .ofTotal fun x => x - 1.0
    let inBracket (accuracy guess xMin xMax : Double) :=
      ((solveInBracket ⟨.brent, none⟩ f {} accuracy guess xMin xMax).exec .start).1.toOption.map (·.status)
    Search.defect? {} (1.5 : Double) 1.0 2.0 = none ∧ f.value 1.0 = .ok 0.0 ∧
    inBracket 0.0 1.5 1.0 2.0 = some .rootNotBracketed ∧
    inBracket (-1e-9) 1.5 1.0 2.0 = some .rootNotBracketed ∧
    inBracket 0.0 0.5 0.0 1.0 = some .rootNotBracketed ∧
    ((solveFromGuess ⟨.brent, none⟩ f {} 0.0 2.0 1.0).exec .start).1.toOption.map (·.root) =
      some (some 1.0) := by
  decide +kernel

end RootSearch
