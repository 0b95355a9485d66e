import RootSearch.Proofs.DiscountDomain
/-!
# Present values over the reals

Over the reals a present value is the sum of the amounts, each times its discount factor, and so is its
derivative with the derivatives of the factors. With a positive frequency neither is ever refused.
-/

namespace RootSearch

open Scalar

/-! ## Sums -/

theorem Lanes.total_add (l m : Lanes ℝ) : (l.add m).total = l.total + m.total := by
  simp only [Lanes.add, Lanes.total]
  ring

theorem Lanes.sum_eq_add_sum (l : Lanes ℝ) (terms : List ℝ) : l.sum terms = l.total + terms.sum := by
  fun_induction Lanes.sum l terms with
  | case1 l a b c d e f g h rest ih =>
    rw [ih, Lanes.total_add]
    simp only [Lanes.total, List.sum_cons]
    ring
  | case2 l rest _ => rw [List.foldl_eq_apply_foldr, List.sum_eq_foldr]

theorem sumPart_eq_sum (terms : List ℝ) : sumPart terms = terms.sum := by
  fun_cases sumPart terms with
  | case1 a b c d e f g h rest =>
    rw [Lanes.sum_eq_add_sum]
    simp only [Lanes.total, List.sum_cons]
    ring
  | case2 first rest => rw [List.foldl_eq_apply_foldr, List.sum_cons, List.sum_eq_foldr]
  | case3 => rw [real_zero, List.sum_nil]

/-- Over the reals the order of the additions does not matter. -/
theorem sumPairwise_eq_sum (terms : List ℝ) : sumPairwise terms = terms.sum := by
  fun_induction sumPairwise terms with
  | case1 terms _ => exact sumPart_eq_sum terms
  | case2 terms _ half cut ihlow ihhigh =>
    rw [ihlow, ihhigh, ← List.sum_append, List.take_append_drop]

/-! ## Present values -/

/-- The sum of the amounts, each with the weight of its time. -/
noncomputable def Flow.total (weight : ℝ → ℝ) (flows : List (Flow ℝ)) : ℝ :=
  (flows.map fun flow => flow.amount * weight flow.time).sum

/-- Weights that depend on the time alone. -/
theorem weigh_map (flows : List (Flow ℝ)) (weight : ℝ → ℝ) :
    weigh flows (flows.map fun flow => weight flow.time) = Flow.total weight flows := by
  unfold weigh Flow.total
  rw [List.zipWith_map_right, List.zipWith_self, sumPairwise_eq_sum]

section

variable {c : Convention} {n : ℝ}

theorem Convention.factors_of_flows (hn : c.periods = .ok n) (hfrequency : 1 ≤ c.frequency) (rate : ℝ)
    (flows : List (Flow ℝ)) : c.factors rate (flows.map Flow.time) =
      .ok (flows.map fun flow => c.compounding.factor n rate flow.time) := by
  have haccepted : ¬(c.compounding = .compounded ∧ c.frequency < 1) :=
    fun h => absurd h.2 (not_lt.2 hfrequency)
  rw [factors, if_neg haccepted, hn]
  exact congrArg Except.ok List.map_map

theorem Convention.factorSlopes_of_flows (hn : c.periods = .ok n) (hfrequency : 1 ≤ c.frequency) (rate : ℝ)
    (flows : List (Flow ℝ)) : c.factorSlopes rate (flows.map Flow.time) =
      .ok (flows.map fun flow => c.compounding.factorSlope n rate flow.time) := by
  have haccepted : ¬(c.compounding = .compounded ∧ c.frequency = 0) := fun h => by omega
  rw [factorSlopes, if_neg haccepted, hn]
  exact congrArg Except.ok List.map_map

theorem presentValue_eq_sum (hn : c.periods = .ok n) (hfrequency : 1 ≤ c.frequency)
    (flows : List (Flow ℝ)) (rate : ℝ) :
    presentValue c flows rate = .ok (Flow.total (c.compounding.factor n rate) flows) := by
  rw [presentValue, Convention.factors_of_flows hn hfrequency, ← weigh_map]
  rfl

theorem presentValueSlope_eq_sum (hn : c.periods = .ok n) (hfrequency : 1 ≤ c.frequency)
    (flows : List (Flow ℝ)) (rate : ℝ) :
    presentValueSlope c flows rate = .ok (Flow.total (c.compounding.factorSlope n rate) flows) := by
  rw [presentValueSlope, Convention.factorSlopes_of_flows hn hfrequency, ← weigh_map]
  rfl

end

namespace Investment

variable {i : Investment ℝ} {n rate : ℝ}

/-- In the domain every flow counts with a positive weight. -/
theorem factor_pos (hi : i.Proper) (h : i.InDomain rate) (hn : i.convention.periods = .ok n) :
    ∀ flow ∈ i.flows, 0 < i.convention.compounding.factor n rate flow.time := by
  intro flow hflow
  obtain ⟨factors, hfactors, hpos⟩ := factors_pos hi h
  rw [Convention.factors_of_flows hn hi.frequency] at hfactors
  cases hfactors
  exact hpos _ (List.mem_map_of_mem hflow)

end Investment

end RootSearch
