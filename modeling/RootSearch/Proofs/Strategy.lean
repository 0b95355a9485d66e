import RootSearch.Proofs.Searching
/-!
# What a search by tolerance ensures

A search is put to an objective one question at a time, so a claim about it goes through its inquiry by
rewriting, as a claim about a computation goes through binds. The other methods know no strategy.
-/

namespace RootSearch

open Solve

namespace Brentq

variable {α : Type} {f : Objective α} {samples : List (α × α)} {s : Session α}
variable {P : Found α → Session α → Prop} {E : Fault α → Session α → Prop}

theorem ensures_finish (root : α) (isConverged : Bool) :
    ((Inquiry.finish root isConverged).run f samples).Ensures s P E ↔
      P ⟨root, isConverged, samples⟩ s := Iff.rfl

theorem ensures_refuse (fault : Fault α) :
    ((Inquiry.refuse fault).run f samples).Ensures s P E ↔ E fault s := Iff.rfl

theorem ensures_ask (x : α) (next : α → Inquiry α) :
    ((Inquiry.ask x next).run f samples).Ensures s P E ↔
      Holds (f.value x)
        (fun fx => ((next fx).run f ((x, fx) :: samples)).Ensures (s.sampled x) P E)
        (E · (s.sampled x)) := by
  simp only [Inquiry.run, ensures_bind, ensures_sample]

theorem ensures_choice (p : Prop) [Decidable p] (yes no : Inquiry α) :
    ((if p then yes else no).run f samples).Ensures s P E ↔
      (p → (yes.run f samples).Ensures s P E) ∧ (¬p → (no.run f samples).Ensures s P E) := by
  by_cases h : p <;> simp [h]

theorem ensures_askNumber [Scalar α] (x : α) (next : α → Inquiry α) :
    ((askNumber x next).run f samples).Ensures s P E ↔
      Holds (f.value x)
        (fun fx =>
          (Scalar.isNaN fx = true → E (.undefinedAt x) (s.sampled x)) ∧
          (¬Scalar.isNaN fx = true →
            ((next fx).run f ((x, fx) :: samples)).Ensures (s.sampled x) P E))
        (E · (s.sampled x)) := by
  simp only [askNumber, ensures_ask, ensures_choice, ensures_refuse]

end Brentq

/-- A method without a search by tolerance knows no strategy. -/
theorem Refiner.refineBy_native {α : Type} [Scalar α] {strategy : Brentq.Strategy α} {r : Refiner α}
    (hr : r.method ≠ .brentq) (f : Objective α) (limit : Nat) (accuracy : α) :
    r.refineBy strategy f limit accuracy = r.refine f limit accuracy := by
  unfold refine refineBy
  cases h : r.method with
  | brentq => exact absurd h hr
  | _ => rfl

end RootSearch
