import RootSearch.Proofs.SignCheck
/-!
# Only live flows count

A flow of the past is left out before anything is computed, and so is one whose time is not a number:
with such flows put in anywhere, values, objectives and searches are what they were, for doubles as
well. Over the reals the order of the flows has no part in them either, though the sign check sorts them
and the bound of a search looks for the latest: sums and maxima do not depend on an order, nor does it
matter to the check in which order payments of the same time come.
-/

namespace RootSearch

open Solve

namespace Flow

variable {α : Type} [Scalar α]

/-- Paid before today, or at no time at all. -/
def IsPast (flow : Flow α) : Prop := flow.time < 0.0 ∨ Scalar.isNaN flow.time = true

/-- The second list is the first with flows of the past put in. -/
inductive Padded : List (Flow α) → List (Flow α) → Prop
  | nil : Padded [] []
  | keep (flow : Flow α) {flows padded : List (Flow α)} :
      Padded flows padded → Padded (flow :: flows) (flow :: padded)
  | insert {flow : Flow α} {flows padded : List (Flow α)} :
      flow.IsPast → Padded flows padded → Padded flows (flow :: padded)

theorem IsPast.not_live [LawfulScalar α] {flow : Flow α} (h : flow.IsPast) : ¬0.0 ≤ flow.time := by
  intro hlive
  rcases h with hpast | hnan
  · exact (Scalar.lt_iff.1 hpast).2 hlive
  · have hnumber := Scalar.isNaN_eq_false_iff.2 (Scalar.le_refl_of_le hlive).2
    exact Bool.false_ne_true (hnumber.symm.trans hnan)

theorem Padded.live_eq [LawfulScalar α] {flows padded : List (Flow α)} (h : Padded flows padded) :
    padded.filter (fun flow => 0.0 ≤ flow.time) = flows.filter fun flow => 0.0 ≤ flow.time := by
  induction h with
  | nil => rfl
  | keep flow _ ih => rw [List.filter_cons, List.filter_cons, ih]
  | insert hpast _ ih => rw [List.filter_cons_of_neg (by simpa using hpast.not_live), ih]

theorem live_of_lengths {α : Type} [AnalyticScalar α] {amounts times : List α}
    (h : amounts.length = times.length) :
    live amounts times = .ok ((List.zipWith Flow.mk amounts times).filter fun flow => 0.0 ≤ flow.time) :=
  if_pos h

end Flow

/-! ## Sums over flows -/

section Sums

variable {flows flows' : List (Flow ℝ)}

theorem Flow.total_perm (weight : ℝ → ℝ) (h : flows.Perm flows') :
    total weight flows = total weight flows' :=
  (h.map _).sum_eq

theorem Flow.total_append (weight : ℝ → ℝ) (flows flows' : List (Flow ℝ)) :
    total weight (flows ++ flows') = total weight flows + total weight flows' := by
  simp [total]

/-- Factors that are found from the periods of a year, unless they are refused, are the same for every
list of times. -/
theorem refused_or_mapped (refused : Prop) [Decidable refused] (fault : Fault ℝ)
    (periods : Except (Fault ℝ) ℝ) (factor : ℝ → ℝ → ℝ) :
    ∃ weights : Except (Fault ℝ) (ℝ → ℝ), ∀ times : List ℝ,
      (if refused then .error fault else do return times.map (factor (← periods))) =
        weights.map fun weight => times.map weight := by
  by_cases hrefused : refused
  · exact ⟨.error fault, fun times => if_pos hrefused⟩
  · simp only [if_neg hrefused]
    cases periods with
    | error e => exact ⟨.error e, fun times => rfl⟩
    | ok n => exact ⟨.ok (factor n), fun times => rfl⟩

theorem weigh_eq_total {factors : List ℝ → Except (Fault ℝ) (List ℝ)} {weights : Except (Fault ℝ) (ℝ → ℝ)}
    (h : ∀ times, factors times = weights.map fun weight => times.map weight) (flows : List (Flow ℝ)) :
    (do return weigh flows (← factors (flows.map Flow.time))) =
      weights.map fun weight => Flow.total weight flows := by
  rw [h]
  cases weights with
  | error fault => rfl
  | ok weight =>
    show Except.ok (weigh flows ((flows.map Flow.time).map weight)) = _
    rw [List.map_map]
    exact congrArg Except.ok (weigh_map flows _)

theorem presentValue_eq_total (c : Convention) (rate : ℝ) :
    ∃ weights : Except (Fault ℝ) (ℝ → ℝ), ∀ flows : List (Flow ℝ),
      presentValue c flows rate = weights.map fun weight => Flow.total weight flows := by
  obtain ⟨weights, hweights⟩ := refused_or_mapped (c.compounding = .compounded ∧ c.frequency < 1)
    (.frequency c.frequency) c.periods fun n => c.compounding.factor n rate
  exact ⟨weights, weigh_eq_total hweights⟩

theorem presentValueSlope_eq_total (c : Convention) (rate : ℝ) :
    ∃ weights : Except (Fault ℝ) (ℝ → ℝ), ∀ flows : List (Flow ℝ),
      presentValueSlope c flows rate = weights.map fun weight => Flow.total weight flows := by
  obtain ⟨weights, hweights⟩ := refused_or_mapped (c.compounding = .compounded ∧ c.frequency = 0)
    .divisionByZero c.periods fun n => c.compounding.factorSlope n rate
  exact ⟨weights, weigh_eq_total hweights⟩

theorem presentValue_perm (c : Convention) (rate : ℝ) (h : flows.Perm flows') :
    presentValue c flows rate = presentValue c flows' rate := by
  obtain ⟨weights, hweights⟩ := presentValue_eq_total c rate
  simp only [hweights, Flow.total_perm _ h]

theorem presentValueSlope_perm (c : Convention) (rate : ℝ) (h : flows.Perm flows') :
    presentValueSlope c flows rate = presentValueSlope c flows' rate := by
  obtain ⟨weights, hweights⟩ := presentValueSlope_eq_total c rate
  simp only [hweights, Flow.total_perm _ h]

theorem presentValue_append (c : Convention) (flows flows' : List (Flow ℝ)) (rate : ℝ) :
    presentValue c (flows ++ flows') rate =
      do return (← presentValue c flows rate) + (← presentValue c flows' rate) := by
  obtain ⟨weights, hweights⟩ := presentValue_eq_total c rate
  simp only [hweights]
  cases weights with
  | error fault => rfl
  | ok weight => exact congrArg Except.ok (Flow.total_append weight flows flows')

end Sums

/-! ## Searches -/

namespace Investment

section Searches

variable {α : Type} [AnalyticScalar α]

/-- A search reads the flows through the objective, their number, the sign check and the bound. -/
theorem rate_congr {i j : Investment α} (hobjective : i.objective = j.objective)
    (hcount : i.flows.length = j.flows.length)
    (hsigns : signChanges i.payments = 0 ↔ signChanges j.payments = 0)
    (hbound : i.lowBound = j.lowBound) (q : Query α) : i.rate q = j.rate q := by
  have hsolver : i.solver q = j.solver q := by
    unfold solver
    rw [hbound]
    exact if_congr hsigns rfl rfl
  rw [rate, rate, run, run, hsolver, hcount, hobjective]

end Searches

section Perm

variable {flows flows' : List (Flow ℝ)} {price : ℝ} {c : Convention}

instance : RightCommutative (Scalar.maxNaN : ℝ → ℝ → ℝ) where
  right_comm x y z := by
    simp only [Scalar.real_maxNaN]
    exact max_right_comm x y z

theorem horizon_perm (h : flows.Perm flows') :
    horizon ⟨flows, price, c⟩ = horizon ⟨flows', price, c⟩ :=
  (h.map Flow.time).foldl_eq 1.0

theorem lowBound_perm (h : flows.Perm flows') :
    lowBound ⟨flows, price, c⟩ = lowBound ⟨flows', price, c⟩ := by
  unfold lowBound
  rw [horizon_perm h]

theorem objective_perm (h : flows.Perm flows') :
    objective ⟨flows, price, c⟩ = objective ⟨flows', price, c⟩ := by
  simp only [objective, presentValue_perm c _ h, funext fun rate => presentValueSlope_perm c rate h]

/-- The count of the sign changes may depend on the order of payments at the same time, but not whether
there are any. -/
theorem signChanges_perm (h : flows.Perm flows') :
    signChanges (payments ⟨flows, price, c⟩) = 0 ↔ signChanges (payments ⟨flows', price, c⟩) = 0 := by
  rw [signChanges_eq_zero_iff, signChanges_eq_zero_iff, oneSigned_payments_iff, oneSigned_payments_iff]
  exact oneSigned_congr fun x => ((h.map Flow.amount).cons (-price)).mem_iff

theorem rate_perm (h : flows.Perm flows') (q : Query ℝ) :
    rate ⟨flows, price, c⟩ q = rate ⟨flows', price, c⟩ q :=
  rate_congr (objective_perm h) h.length_eq (signChanges_perm h) (lowBound_perm h) q

end Perm

/-! ## Lists of flows that are valued alike -/

/-- Nothing that is computed of the one list of flows and of the other tells them apart: neither the
value at a rate, nor, for any price, the objective with its derivative and the search for the rate, its
calls and its end. -/
structure ValuedAlike {α : Type} [AnalyticScalar α] (amounts times amounts' times' : List α) : Prop where
  value : ∀ c rate, netPresentValue c amounts times rate = netPresentValue c amounts' times' rate
  search : ∀ price c, ∃ i j, make amounts times price c = .ok i ∧ make amounts' times' price c = .ok j ∧
    i.objective = j.objective ∧ ∀ q, i.rate q = j.rate q

section Alike

variable {α : Type} [AnalyticScalar α] {amounts times amounts' times' : List α}

/-- It is enough to compare the live flows. -/
theorem ValuedAlike.of_live {flows flows' : List (Flow α)} (hlive : Flow.live amounts times = .ok flows)
    (hlive' : Flow.live amounts' times' = .ok flows')
    (hvalue : ∀ c rate, presentValue c flows rate = presentValue c flows' rate)
    (hsearch : ∀ price c, objective ⟨flows, price, c⟩ = objective ⟨flows', price, c⟩ ∧
      ∀ q, rate ⟨flows, price, c⟩ q = rate ⟨flows', price, c⟩ q) :
    ValuedAlike amounts times amounts' times' where
  value c rate := by
    rw [netPresentValue, netPresentValue, hlive, hlive']
    exact hvalue c rate
  search price c := by
    refine ⟨⟨flows, price, c⟩, ⟨flows', price, c⟩, ?_, ?_, hsearch price c⟩
    · rw [make, hlive]
      rfl
    · rw [make, hlive']
      rfl

theorem ValuedAlike.of_padded [LawfulScalar α] (h : amounts.length = times.length)
    (h' : amounts'.length = times'.length)
    (hpadded : Flow.Padded (List.zipWith Flow.mk amounts times) (List.zipWith Flow.mk amounts' times')) :
    ValuedAlike amounts times amounts' times' := by
  -- the live flows are the very same list, so nothing of the scalars is needed but that they compare
  have hlive' := Flow.live_of_lengths h'
  rw [hpadded.live_eq] at hlive'
  exact .of_live (Flow.live_of_lengths h) hlive' (fun _ _ => rfl) fun _ _ => ⟨rfl, fun _ => rfl⟩

theorem ValuedAlike.of_perm {amounts times amounts' times' : List ℝ} (h : amounts.length = times.length)
    (h' : amounts'.length = times'.length)
    (hperm : (List.zipWith Flow.mk amounts times).Perm (List.zipWith Flow.mk amounts' times')) :
    ValuedAlike amounts times amounts' times' := by
  have hlive := hperm.filter fun flow => 0.0 ≤ flow.time
  exact .of_live (Flow.live_of_lengths h) (Flow.live_of_lengths h')
    (fun c rate => presentValue_perm c rate hlive) fun _ _ => ⟨objective_perm hlive, rate_perm hlive⟩

end Alike

theorem netPresentValue_append (c : Convention) {amounts times amounts' times' : List ℝ} (rate : ℝ)
    (h : amounts.length = times.length) (h' : amounts'.length = times'.length) :
    netPresentValue c (amounts ++ amounts') (times ++ times') rate =
      do return (← netPresentValue c amounts times rate) + (← netPresentValue c amounts' times' rate) := by
  have hlengths : (amounts ++ amounts').length = (times ++ times').length := by
    rw [List.length_append, List.length_append, h, h']
  rw [netPresentValue, netPresentValue, netPresentValue, Flow.live_of_lengths h, Flow.live_of_lengths h',
    Flow.live_of_lengths hlengths, List.zipWith_append h, List.filter_append]
  exact presentValue_append c _ _ rate

theorem value_objective {α : Type} [AnalyticScalar α] {amounts times : List α} {price : α} {c : Convention}
    {i : Investment α} (h : make amounts times price c = .ok i) (rate : α) :
    i.objective.value rate = do return (← netPresentValue c amounts times rate) - price := by
  obtain ⟨flows, hlive, hi⟩ := bind_eq_ok.1 h
  cases hi
  rw [netPresentValue, hlive]
  rfl

/-- What comes of a list of flows depends on its live ones alone. For any scalars, so for doubles as
well, a list is valued like itself with flows of the past, or of a time that is not a number, put in
anywhere. Over the reals it is valued like the same flows in any other order, and the value of two lists
after one another is the sum of their values, or the fault of both. The objective of a yield is the
value less the price. -/
theorem live_flows_determine_value_and_yield :
    (∀ (α : Type) [AnalyticScalar α] [LawfulScalar α] (amounts times amounts' times' : List α),
      amounts.length = times.length → amounts'.length = times'.length →
      Flow.Padded (List.zipWith Flow.mk amounts times) (List.zipWith Flow.mk amounts' times') →
      ValuedAlike amounts times amounts' times') ∧
    (∀ amounts times amounts' times' : List ℝ,
      amounts.length = times.length → amounts'.length = times'.length →
      (List.zipWith Flow.mk amounts times).Perm (List.zipWith Flow.mk amounts' times') →
      ValuedAlike amounts times amounts' times') ∧
    (∀ (amounts times amounts' times' : List ℝ) (c : Convention) (rate : ℝ),
      amounts.length = times.length → amounts'.length = times'.length →
      netPresentValue c (amounts ++ amounts') (times ++ times') rate =
        do return (← netPresentValue c amounts times rate) + (← netPresentValue c amounts' times' rate)) ∧
    ∀ (amounts times : List ℝ) (price : ℝ) (c : Convention), amounts.length = times.length →
      ∃ i, make amounts times price c = .ok i ∧
        ∀ rate, i.objective.value rate = do return (← netPresentValue c amounts times rate) - price := by
  refine ⟨fun _ _ _ _ _ _ _ => .of_padded, fun _ _ _ _ => .of_perm,
    fun _ _ _ _ c rate => netPresentValue_append c rate, fun amounts times price c h => ?_⟩
  exact ⟨_, make_of_lengths h, value_objective (make_of_lengths h)⟩

/-- Two payments, among doubles with one of the past and one at no time, and over the reals in the other
order. -/
theorem live_flows_determine_value_and_yield_of_two_payments :
    ValuedAlike ([50.0, 60.0] : List Double) [1.0, 2.0]
      [7.0, 50.0, 8.0, 60.0] [-1.0, 1.0, 0.0 / 0.0, 2.0] ∧
    ValuedAlike ([50, 60] : List ℝ) [1, 2] [60, 50] [2, 1] ∧
    (∀ rate : ℝ, netPresentValue {} [50, 60] [1, 2] rate =
      do return (← netPresentValue {} [50] [1] rate) + (← netPresentValue {} [60] [2] rate)) ∧
    ∃ i : Investment ℝ, make [50, 60] [1, 2] 100 {} = .ok i ∧
      ∀ rate, i.objective.value rate = do return (← netPresentValue {} [50, 60] [1, 2] rate) - 100 := by
  obtain ⟨hpadded, hperm, hsum, hobjective⟩ := live_flows_determine_value_and_yield
  refine ⟨?_, ?_, fun rate => hsum [50] [1] [60] [2] {} rate rfl rfl, hobjective [50, 60] [1, 2] 100 {} rfl⟩
  · have hpast : (⟨7.0, -1.0⟩ : Flow Double).IsPast := .inl (by decide +kernel)
    have hnan : (⟨8.0, 0.0 / 0.0⟩ : Flow Double).IsPast := .inr (by decide +kernel)
    exact hpadded Double _ _ _ _ (by simp) (by simp) (.insert hpast (.keep _ (.insert hnan (.keep _ .nil))))
  · exact hperm _ _ _ _ rfl rfl (.swap _ _ [])

end Investment

end RootSearch
