import RootSearch.Proofs.DoubleProducts
import RootSearch.Proofs.Searching
import RootSearch.Proofs.Statuses
/-!
# What a product tells of a sign change

Both ways into a solve decide by the product of the values at the two ends. In doubles a product of
tiny values is zero. A search from a guess takes that for a sign change, and a supplied bracket is
refused for it. Of all other values the product tells exactly whether they have opposite signs.
-/

namespace RootSearch

open Solve

/-! ## From a guess -/

namespace Search

variable {α : Type} [Scalar α] {P : α → α → Prop} {f : Objective α} {settings : Settings α}
variable {accuracy : α} {s : Session α} {method : String}

/-- The product of the values tells a sign change, and neither end is a root. -/
structure Crossed (b : Bracket α) : Prop where
  product : b.fMin * b.fMax ≤ 0.0
  min : ¬(b.fMin == 0.0) = true
  max : ¬(b.fMax == 0.0) = true

/-- Whatever is true of the points with their values is true of the ends that are handed over. -/
def Outcome.Hands (P : α → α → Prop) (t : Session α) (outcome : Outcome α) : Prop :=
  outcome = .bracketed → t.bracket.All P ∧ Crossed t.bracket

theorem pass_hands (hf : ∀ x fx, f.value x = .ok fx → P x fx) (hs : s.bracket.All P)
    (tieLow : Bool) : (pass f settings method tieLow).Ensures s
      (fun p t => p.Keeps (fun _ => t.bracket.All P) fun outcome => outcome.Hands P t)
      fun _ _ => True := by
  rw [ensures_pass]
  constructor
  · intro hproduct
    exact ⟨fun _ => nofun, fun hmin => ⟨fun _ => nofun, fun hmax _ => ⟨hs, hproduct, hmin, hmax⟩⟩⟩
  · intro _
    apply holds_of_values
    intro fx hfx
    exact grown_all hs (hf _ fx hfx) _

theorem aroundGuess_hands_crossed (hf : ∀ x fx, f.value x = .ok fx → P x fx) (guess step : α) :
    (aroundGuess f settings accuracy guess step method).Ensures s
      (fun outcome t => outcome.Hands P t) fun _ _ => True := by
  rw [ensures_aroundGuess]
  apply holds_of_values
  intro fx hfx
  refine ⟨fun _ => nofun, fun _ => ?_⟩
  apply holds_of_values
  intro fx' hfx'
  apply ensures_whileBudget (I := fun _ t => t.bracket.All P)
  · intro tieLow t ht _
    exact pass_hands hf ht tieLow
  · intro _ t _
    rw [ensures_giveUp]
    exact nofun
  · exact opened_all (hf guess fx hfx) (hf _ fx' hfx')

end Search

/-! ## In a supplied bracket -/

section Supplied

variable {f : Objective Double} {settings : Settings Double} {accuracy guess xMin xMax : Double}
variable {r : Refiner Double}

/-- Both ends of a supplied bracket were sampled and missed the accuracy, and their values have no sign
change that the product can tell. -/
structure Search.Refused (f : Objective Double) (settings : Settings Double)
    (accuracy guess xMin xMax fMin fMax : Double) : Prop where
  accepted : Search.defect? settings guess xMin xMax = none
  valueMin : f.value xMin = .ok fMin
  valueMax : f.value xMax = .ok fMax
  missedMin : ¬Scalar.abs fMin < accuracy
  missedMax : ¬Scalar.abs fMax < accuracy
  signs : ¬Opposite fMin fMax ∨ Double.Underflows fMin fMax

theorem Status.IsRefined.ne_rootNotBracketed {status : Status} (h : status.IsRefined) :
    status ≠ .rootNotBracketed := by
  rintro rfl
  exact absurd h (by decide)

theorem solveInBracket_refuses (hf : ∀ x fx, f.value x = .ok fx → fx.isFinite = true) :
    (solveInBracket r f settings accuracy guess xMin xMax).Ensures .start
      (fun result _ => result.status = .rootNotBracketed ↔
        ∃ fMin fMax, Search.Refused f settings accuracy guess xMin xMax fMin fMax)
      fun _ _ => True := by
  show ((Entry.inBracket guess xMin xMax).solve r f settings accuracy).Ensures .start _ _
  rw [Entry.ensures_solve]
  show (Search.supplied f settings accuracy guess xMin xMax r.name).Ensures .start _ _
  rw [Search.ensures_supplied]
  refine ⟨fun status reason h => ?_, fun haccepted => ?_⟩
  · -- a defect is reported as such, and then no end was sampled
    refine iff_of_false (fun e : status = _ => ?_) fun ⟨_, _, hrefused⟩ => ?_
    · rcases Search.defect_cases h with rfl | rfl | rfl <;> cases e
    · rw [hrefused.accepted] at h
      cases h
  refine ⟨fun fMin hmin => ⟨fun hmet => ?_, fun hmissMin => ?_⟩, fun _ _ => trivial⟩
  · refine iff_of_false nofun fun ⟨fMin', _, hrefused⟩ => hrefused.missedMin ?_
    cases hmin.symm.trans hrefused.valueMin
    exact hmet
  refine ⟨fun fMax hmax => ⟨fun hmet => ?_, fun hmissMax => ?_⟩, fun _ _ => trivial⟩
  · refine iff_of_false nofun fun ⟨_, fMax', hrefused⟩ => hrefused.missedMax ?_
    cases hmax.symm.trans hrefused.valueMax
    exact hmet
  have hproduct := Double.mul_lt_zero_iff (hf xMin fMin hmin) (hf xMax fMax hmax)
  refine ⟨fun hneg => ?_, fun hpos => ?_⟩
  · -- the sign change is told, and no refinement refuses a bracket
    obtain ⟨hopposite, hlarge⟩ := hproduct.1 hneg
    refine (r.refine_endsRefined settings.maxEvaluations).mono (fun result _ h => ?_) fun _ _ h => h
    refine iff_of_false h.ne_rootNotBracketed fun ⟨fMin', fMax', hrefused⟩ => ?_
    cases hmin.symm.trans hrefused.valueMin
    cases hmax.symm.trans hrefused.valueMax
    rcases hrefused.signs with hsigns | hsmall
    · exact hsigns hopposite
    · exact hlarge hsmall
  · refine iff_of_true rfl ⟨fMin, fMax, haccepted, hmin, hmax, hmissMin, hmissMax, ?_⟩
    by_cases hopposite : Opposite fMin fMax
    · right
      by_contra hlarge
      exact hpos (hproduct.2 ⟨hopposite, hlarge⟩)
    · exact .inl hopposite

end Supplied

/-! ## Recognition -/

theorem Double.signed_of_isFinite {y : Double} (hy : y.isFinite = true) (hzero : ¬(y == 0.0) = true) :
    Signed y := by
  rcases isFinite_cases hy with ⟨s, h⟩ | ⟨s, m, e, hm, h⟩
  · refine absurd (beq_iff.2 ?_) hzero
    rw [h, parts_zero]
    exact ⟨by simp, by simp, rfl⟩
  · unfold Signed
    rw [lt_zero_iff, zero_lt_iff, h]
    cases s with
    | negative => exact .inl rfl
    | positive => exact .inr rfl

/-- Let an objective return finite doubles only. The values of a bracket that a search from a guess hands
over are not zero, and they have strictly opposite signs or their product underflows. A supplied bracket
is refused as not bracketing a root exactly if it is in order, its ends miss the accuracy, and their
values have no opposite signs or their product underflows. -/
theorem sign_change_recognised_above_underflow (r : Refiner Double) (f : Objective Double)
    (settings : Settings Double) (accuracy : Double)
    (hf : ∀ x fx, f.value x = .ok fx → fx.isFinite = true) :
    (∀ guess step found, (Search.aroundGuess f settings accuracy guess step r.name).exec .start =
        (.ok .bracketed, found) →
      Signed found.bracket.fMin ∧ Signed found.bracket.fMax ∧
        (found.bracket.Straddles ∨ Double.Underflows found.bracket.fMin found.bracket.fMax)) ∧
    ∀ guess xMin xMax result,
      ((solveInBracket r f settings accuracy guess xMin xMax).exec .start).1 = .ok result →
        (result.status = .rootNotBracketed ↔
          ∃ fMin fMax, Search.Refused f settings accuracy guess xMin xMax fMin fMax) := by
  constructor
  · intro guess step found hfound
    have hsearch : (Search.aroundGuess f settings accuracy guess step r.name).Ensures .start
        (fun outcome t => outcome.Hands (fun _ fx => fx.isFinite = true) t) fun _ _ => True :=
      Search.aroundGuess_hands_crossed hf guess step
    obtain ⟨hfinite, hcrossed⟩ := hsearch.value hfound rfl
    refine ⟨Double.signed_of_isFinite hfinite.min hcrossed.min,
      Double.signed_of_isFinite hfinite.max hcrossed.max, ?_⟩
    exact (Double.mul_le_zero_iff hfinite.min hfinite.max).1 hcrossed.product
  · intro guess xMin xMax result hresult
    exact (solveInBracket_refuses hf).answer hresult

/-- A function that jumps over zero. -/
theorem sign_change_recognised_at_jump :
    let r : Refiner Double := ⟨.ridder, none⟩
    let f : Objective Double := .ofTotal fun x => if x < 1.0 then -1.0 else 2.0
    (∀ guess step found, (Search.aroundGuess f {} 1e-9 guess step r.name).exec .start =
        (.ok .bracketed, found) →
      Signed found.bracket.fMin ∧ Signed found.bracket.fMax ∧
        (found.bracket.Straddles ∨ Double.Underflows found.bracket.fMin found.bracket.fMax)) ∧
    ∀ guess xMin xMax result, ((solveInBracket r f {} 1e-9 guess xMin xMax).exec .start).1 = .ok result →
      (result.status = .rootNotBracketed ↔
        ∃ fMin fMax, Search.Refused f {} 1e-9 guess xMin xMax fMin fMax) := by
  refine sign_change_recognised_above_underflow _ _ _ _ fun x fx hfx => ?_
  cases hfx
  show (if x < 1.0 then -1.0 else 2.0 : Double).isFinite = true
  split <;> decide +kernel

/-- With tiny values a constant is handed over as if it changed its sign, and a jump over zero is refused
as if it did not. -/
theorem sign_change_mistaken_on_underflow :
    let search :=
      (Search.aroundGuess (.ofTotal fun _ : Double => 1e-200) {} 0.0 1.0 0.5 "bisection").exec .start
    let f : Objective Double := .ofTotal fun x => if x < 0.0 then -1e-200 else 1e-200
    let solve := (solveInBracket ⟨.bisection, none⟩ f {} 0.0 0.5 (-1.0) 1.0).exec .start
    (search.1.toOption.any (fun outcome => outcome matches .bracketed) = true ∧
      search.2.bracket = ⟨0.5, 1.0, 1e-200, 1e-200⟩ ∧ ¬search.2.bracket.Straddles) ∧
    (∀ x fx, f.value x = .ok fx → fx.isFinite = true) ∧
    f.value (-1.0) = .ok (-1e-200) ∧ f.value 1.0 = .ok 1e-200 ∧ Opposite (-1e-200 : Double) 1e-200 ∧
    solve.1.toOption.map (·.status) = some .rootNotBracketed := by
  intro search f solve
  have hbracket : search.2.bracket = ⟨0.5, 1.0, 1e-200, 1e-200⟩ := by decide +kernel
  refine ⟨⟨by decide +kernel, hbracket, ?_⟩, fun x fx hfx => ?_, by decide +kernel, by decide +kernel, ?_,
    by decide +kernel⟩
  · rw [hbracket]
    unfold Bracket.Straddles Opposite
    decide +kernel
  · cases hfx
    show (if x < 0.0 then -1e-200 else 1e-200 : Double).isFinite = true
    split <;> decide +kernel
  · exact .inl ⟨by decide +kernel, by decide +kernel⟩

end RootSearch
