import RootSearch.Proofs.SignCheck
/-!
# How the value of flows falls with the rate

A discount factor and its derivative in the rate are written out for every way of compounding. The one is
the derivative of the other wherever the discount base is positive, and there it is minus the time times
something positive. So what is received later than today gets cheaper as rates rise, and flows that are
only received have one yield at most.
-/

namespace RootSearch

namespace Compounding

variable {c : Compounding} {n rate time : ℝ}

/-- The base of the discount factor for one time is positive, with `n` periods a year. -/
def BasePos (c : Compounding) (n rate time : ℝ) : Prop :=
  match c with
  | .simple => 0 < 1 + rate * time
  | .compounded => 0 < 1 + rate / n
  | .continuous => True

theorem hasDerivAt_factor (hn : n ≠ 0) (h : c.BasePos n rate time) :
    HasDerivAt (fun r => c.factor n r time) (c.factorSlope n rate time) rate := by
  cases c with
  | simple =>
    have hbase : HasDerivAt (fun r => 1 + r * time) time rate :=
      (hasDerivAt_mul_const time).const_add 1
    simp only [factor, factorSlope, Scalar.real_one, one_div]
    refine (hbase.inv (ne_of_gt h)).congr_deriv ?_
    rw [sq]
  | compounded =>
    have hbase : HasDerivAt (fun r => 1 + r / n) (1 / n) rate :=
      ((hasDerivAt_id rate).div_const n).const_add 1
    simp only [factor, factorSlope, Scalar.real_one]
    refine (hbase.rpow_const (p := -n * time) (.inl (ne_of_gt h))).congr_deriv ?_
    show 1 / n * (-n * time) * (1 + rate / n) ^ (-n * time - 1) = -time * (1 + rate / n) ^ (-n * time - 1)
    field_simp
  | continuous =>
    have hexponent : HasDerivAt (fun r => -r * time) (-time) rate :=
      ((hasDerivAt_neg rate).mul_const time).congr_deriv (neg_one_mul time)
    exact hexponent.exp.congr_deriv (mul_comm _ _)

/-- The slope of a factor is minus the time, with a positive weight. -/
theorem factorSlope_eq (h : c.BasePos n rate time) :
    ∃ weight, 0 < weight ∧ c.factorSlope n rate time = -time * weight := by
  cases c with
  | simple =>
    refine ⟨((1 + rate * time) * (1 + rate * time))⁻¹, inv_pos.2 (mul_pos h h), ?_⟩
    simp only [factorSlope, Scalar.real_one, div_eq_mul_inv]
  | compounded =>
    refine ⟨(1 + rate / n) ^ (-n * time - 1), Real.rpow_pos_of_pos h _, ?_⟩
    simp only [factorSlope, Scalar.real_one]
    rfl
  | continuous => exact ⟨Real.exp (-rate * time), Real.exp_pos _, rfl⟩

end Compounding

/-! ## Sums of discounted flows -/

section Sums

variable {c : Compounding} {n rate : ℝ} {flows : List (Flow ℝ)}

theorem hasDerivAt_total (hn : n ≠ 0) (h : ∀ flow ∈ flows, c.BasePos n rate flow.time) :
    HasDerivAt (fun r => Flow.total (c.factor n r) flows) (Flow.total (c.factorSlope n rate) flows)
      rate := by
  induction flows with
  | nil => exact hasDerivAt_const rate 0
  | cons flow rest ih =>
    obtain ⟨hfirst, hrest⟩ := List.forall_mem_cons.1 h
    exact ((Compounding.hasDerivAt_factor hn hfirst).const_mul flow.amount).add (ih hrest)

/-- What is only received, some of it later than today, gets cheaper as the rate rises. -/
theorem total_factorSlope_neg (h : ∀ flow ∈ flows, c.BasePos n rate flow.time)
    (hlive : ∀ flow ∈ flows, 0 ≤ flow.time) (hreceived : ∀ flow ∈ flows, 0 ≤ flow.amount)
    (hlater : ∃ flow ∈ flows, 0 < flow.amount ∧ 0 < flow.time) :
    Flow.total (c.factorSlope n rate) flows < 0 := by
  have hterm (flow : Flow ℝ) (hflow : flow ∈ flows) : ∃ weight, 0 < weight ∧
      flow.amount * c.factorSlope n rate flow.time = -(flow.amount * flow.time * weight) := by
    obtain ⟨weight, hpos, hslope⟩ := Compounding.factorSlope_eq (h flow hflow)
    refine ⟨weight, hpos, ?_⟩
    rw [hslope]
    ring
  calc Flow.total (c.factorSlope n rate) flows
      < (flows.map fun _ => (0 : ℝ)).sum := by
        refine List.sum_lt_sum _ _ (fun flow hflow => ?_) ?_
        · obtain ⟨weight, hpos, hslope⟩ := hterm flow hflow
          have hamount := hreceived flow hflow
          have htime := hlive flow hflow
          rw [hslope]
          exact neg_nonpos.2 (by positivity)
        · obtain ⟨flow, hflow, hamount, htime⟩ := hlater
          obtain ⟨weight, hpos, hslope⟩ := hterm flow hflow
          refine ⟨flow, hflow, ?_⟩
          rw [hslope]
          exact neg_neg_of_pos (by positivity)
    _ = 0 := by simp

end Sums

namespace Investment

variable {i : Investment ℝ} {n rate : ℝ}

theorem periods_pos (hi : i.Proper) (hn : i.convention.periods = .ok n) : 0 < n := by
  unfold Convention.periods at hn
  split at hn
  · next e =>
    cases e
    cases hn
    exact Int.cast_pos.2 hi.frequency
  · cases hn
  · cases hn
    norm_num

theorem InDomain.basePos (h : i.InDomain rate) (hn : i.convention.periods = .ok n) :
    ∀ flow ∈ i.flows, i.convention.compounding.BasePos n rate flow.time := by
  intro flow hflow
  obtain ⟨m, hm, hfrequency⟩ := i.convention.periods_eq
  cases hm.symm.trans hn
  unfold InDomain at h
  cases hcompounding : i.convention.compounding with
  | simple =>
    rw [hcompounding] at h
    exact h flow hflow
  | compounded =>
    rw [hcompounding] at h
    rw [hfrequency hcompounding]
    exact h
  | continuous => trivial

/-- With a rate in the domain every higher one is in the domain. -/
theorem inDomain_isUpperSet (hi : i.Proper) : IsUpperSet {rate | i.InDomain rate} := by
  intro low high hle h
  have hpos : (0 : ℝ) < i.convention.frequency := Int.cast_pos.2 hi.frequency
  change i.InDomain low at h
  show i.InDomain high
  unfold InDomain at h ⊢
  cases hcompounding : i.convention.compounding with
  | simple =>
    rw [hcompounding] at h
    intro flow hflow
    have hless := mul_le_mul_of_nonneg_right hle (hi.live flow hflow)
    linarith [h flow hflow]
  | compounded =>
    rw [hcompounding] at h
    have hless := div_le_div_of_nonneg_right hle hpos.le
    linarith
  | continuous => trivial

theorem strictAntiOn_total (hi : i.Proper) (hn : i.convention.periods = .ok n)
    (hreceived : ∀ flow ∈ i.flows, 0 ≤ flow.amount)
    (hlater : ∃ flow ∈ i.flows, 0 < flow.amount ∧ 0 < flow.time) :
    StrictAntiOn (fun rate => Flow.total (i.convention.compounding.factor n rate) i.flows)
      {rate | i.InDomain rate} := by
  have hslope {rate : ℝ} (h : i.InDomain rate) := hasDerivAt_total (periods_pos hi hn).ne' (h.basePos hn)
  -- the domain is an interval, as it has every higher rate, so the sign of the derivative decides
  have hconvex : Convex ℝ {rate | i.InDomain rate} := (inDomain_isUpperSet hi).ordConnected.convex
  refine strictAntiOn_of_deriv_neg hconvex (fun rate h => ?_) fun rate h => ?_
  · exact (hslope h).continuousAt.continuousWithinAt
  · have hrate : i.InDomain rate := interior_subset (s := {rate | i.InDomain rate}) h
    rw [(hslope hrate).deriv]
    exact total_factorSlope_neg (hrate.basePos hn) hi.live hreceived hlater

/-- Over the reals the objective of a yield has its own slope as its derivative, at every rate that
makes all discount bases positive, whatever the amounts, the times and the price, for every way of
compounding and every positive frequency. If nothing is paid out and something is received later than
today, the objective is strictly decreasing at such rates, so one of them at most gives the flows the
value of the price. -/
theorem slope_of_objective_and_yield_unique (amounts times : List ℝ) (price : ℝ) (convention : Convention)
    (hlengths : amounts.length = times.length) (hfrequency : 1 ≤ convention.frequency) :
    ∃ i, make amounts times price convention = .ok i ∧ ∃ value slope : ℝ → ℝ,
      (∀ rate, i.objective.value rate = .ok (value rate)) ∧
      (∃ g, i.objective.slope = some g ∧ ∀ rate, g rate = .ok (slope rate)) ∧
      (∀ rate, i.InDomain rate → HasDerivAt value (slope rate) rate) ∧
      ((∀ flow ∈ i.flows, 0 ≤ flow.amount) → (∃ flow ∈ i.flows, 0 < flow.amount ∧ 0 < flow.time) →
        StrictAntiOn value {rate | i.InDomain rate} ∧
        {rate | i.InDomain rate ∧
          netPresentValue convention amounts times rate = .ok price}.Subsingleton) := by
  obtain ⟨i, hmake⟩ : ∃ i, make amounts times price convention = .ok i := ⟨_, make_of_lengths hlengths⟩
  have hi := proper_of_make hmake hfrequency
  obtain ⟨flows, hlive, hflows⟩ := bind_eq_ok.1 hmake
  cases hflows
  obtain ⟨n, hn, -⟩ := convention.periods_eq
  let worth (rate : ℝ) : ℝ := Flow.total (convention.compounding.factor n rate) flows
  have hworth (rate : ℝ) : presentValue convention flows rate = .ok (worth rate) :=
    presentValue_eq_sum hn hfrequency flows rate
  refine ⟨_, hmake, fun rate => worth rate - price,
    fun rate => Flow.total (convention.compounding.factorSlope n rate) flows, fun rate => ?_,
    ⟨_, rfl, presentValueSlope_eq_sum hn hfrequency flows⟩, fun rate h => ?_,
    fun hreceived hlater => ?_⟩
  · show (presentValue convention flows rate).bind _ = _
    rw [hworth]
    rfl
  · exact (hasDerivAt_total (periods_pos hi hn).ne' (h.basePos hn)).sub_const price
  · have hanti : StrictAntiOn worth {rate | InDomain ⟨flows, price, convention⟩ rate} :=
      strictAntiOn_total hi hn hreceived hlater
    refine ⟨fun x hx y hy hless => sub_lt_sub_right (hanti hx hy hless) price, ?_⟩
    have hnet (rate : ℝ) (h : netPresentValue convention amounts times rate = .ok price) :
        worth rate = price := by
      rw [netPresentValue, hlive] at h
      exact Except.ok.inj ((hworth rate).symm.trans h)
    rintro x ⟨hx, hxprice⟩ y ⟨hy, hyprice⟩
    exact hanti.injOn hx hy ((hnet x hxprice).trans (hnet y hyprice).symm)

/-- Two payments at a rate for half years, behind a payment of the past. -/
theorem slope_of_objective_and_yield_unique_for_two_payments :
    let i : Investment ℝ := ⟨[⟨50, 1⟩, ⟨60, 2⟩], 100, ⟨.compounded, 2⟩⟩
    make [7, 50, 60] [-1, 1, 2] 100 ⟨.compounded, 2⟩ = .ok i ∧ ∃ value slope : ℝ → ℝ,
      (∀ rate, i.objective.value rate = .ok (value rate)) ∧
      (∃ g, i.objective.slope = some g ∧ ∀ rate, g rate = .ok (slope rate)) ∧
      (∀ rate, 0 < 1 + rate / 2 → HasDerivAt value (slope rate) rate) ∧
      StrictAntiOn value {rate | 0 < 1 + rate / 2} ∧
      {rate : ℝ | 0 < 1 + rate / 2 ∧
        netPresentValue ⟨.compounded, 2⟩ [7, 50, 60] [-1, 1, 2] rate = .ok 100}.Subsingleton := by
  intro i
  have hlengths : ([7, 50, 60] : List ℝ).length = ([-1, 1, 2] : List ℝ).length := rfl
  have hmake : make [7, 50, 60] [-1, 1, 2] 100 ⟨.compounded, 2⟩ = .ok i := by
    rw [make_of_lengths hlengths]
    norm_num [livePairs, i]
  obtain ⟨j, hj, value, slope, hvalue, hslope, hderiv, hunique⟩ :=
    slope_of_objective_and_yield_unique [7, 50, 60] [-1, 1, 2] 100 ⟨.compounded, 2⟩ hlengths (by decide)
  cases hmake.symm.trans hj
  obtain ⟨hanti, hsubsingleton⟩ := hunique (by norm_num [i]) ⟨⟨50, 1⟩, by simp [i], by norm_num⟩
  exact ⟨hmake, value, slope, hvalue, hslope, hderiv, hanti, hsubsingleton⟩

end Investment

end RootSearch
