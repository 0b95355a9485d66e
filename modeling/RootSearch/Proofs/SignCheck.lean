import RootSearch.Proofs.PresentValues
import RootSearch.Proofs.SearchFaults
/-!
# The sign check

A search for a rate is refused if the payments, the price as the first of them, never change their sign.
Discount factors are positive, so payments of one sign cannot balance at any rate unless all of them are
zero. Nothing else ends a search in the fault of the check, so whether it does is a matter of the signs
alone, not of the order of the flows.
-/

namespace RootSearch

open Solve

namespace Investment

variable {i : Investment ℝ} {x y : ℝ} {xs ys : List ℝ}

/-! ## Numbers of one sign -/

/-- No two of the numbers have opposite signs. -/
def OneSigned (xs : List ℝ) : Prop := (∀ x ∈ xs, 0 ≤ x) ∨ ∀ x ∈ xs, x ≤ 0

theorem oneSigned_congr (h : ∀ x, x ∈ xs ↔ x ∈ ys) : OneSigned xs ↔ OneSigned ys := by
  simp only [OneSigned, h]

theorem sign_of_pos (h : 0 < x) : sign x = 1 := by
  unfold sign
  rw [Scalar.real_zero, if_pos h]
  norm_num

theorem sign_of_neg (h : x < 0) : sign x = -1 := by
  unfold sign
  rw [Scalar.real_zero, if_neg h.not_gt, if_pos h]
  norm_num

/-- Of numbers that are not zero, two have the same sign if both are positive or neither is. -/
theorem sign_eq_sign_iff (hx : x ≠ 0) (hy : y ≠ 0) : sign x = sign y ↔ (0 < x ↔ 0 < y) := by
  rcases lt_or_gt_of_ne hx with hx | hx <;> rcases lt_or_gt_of_ne hy with hy | hy
  · simp [sign_of_neg hx, sign_of_neg hy, hx.not_gt, hy.not_gt]
  · rw [sign_of_neg hx, sign_of_pos hy]
    norm_num [hx.not_gt, hy]
  · rw [sign_of_pos hx, sign_of_neg hy]
    norm_num [hx, hy.not_gt]
  · simp [sign_of_pos hx, sign_of_pos hy, hx, hy]

/-- Neighbours with equal signs have the sign of the first. -/
theorem changes_eq_zero_iff (x : ℝ) (rest : List ℝ) :
    changes (x :: rest) = 0 ↔ ∀ y ∈ rest, sign x = sign y := by
  induction rest generalizing x with
  | nil => simp [changes]
  | cons y rest ih =>
    have hstep : changes (x :: y :: rest) = (if sign x == sign y then 0 else 1) + changes (y :: rest) := rfl
    rw [hstep, Nat.add_eq_zero_iff, ih, Scalar.real_beq, List.forall_mem_cons]
    by_cases h : sign x = sign y
    · simp [h]
    · simp [h]

/-- Where nothing is zero. -/
theorem changes_eq_zero_iff_oneSigned (hne : ∀ x ∈ xs, x ≠ 0) : changes xs = 0 ↔ OneSigned xs := by
  cases xs with
  | nil => simp [changes, OneSigned]
  | cons x rest =>
    obtain ⟨hx, hrest⟩ := List.forall_mem_cons.1 hne
    have hagree : changes (x :: rest) = 0 ↔ ∀ y ∈ rest, (0 < x ↔ 0 < y) := by
      rw [changes_eq_zero_iff]
      exact forall₂_congr fun y hy => sign_eq_sign_iff hx (hrest y hy)
    rw [hagree]
    constructor
    · intro h
      rcases lt_or_gt_of_ne hx with hneg | hpos
      · refine .inr (List.forall_mem_cons.2 ⟨hneg.le, fun y hy => ?_⟩)
        exact not_lt.1 fun hy0 => hneg.not_gt ((h y hy).2 hy0)
      · exact .inl (List.forall_mem_cons.2 ⟨hpos.le, fun y hy => ((h y hy).1 hpos).le⟩)
    · rintro (h | h) y hy
      · have hpos (z : ℝ) (hz : z ∈ x :: rest) : 0 < z := lt_of_le_of_ne (h z hz) (hne z hz).symm
        exact iff_of_true (hpos x (by simp)) (hpos y (by simp [hy]))
      · exact iff_of_false (h x (by simp)).not_gt (h y (by simp [hy])).not_gt

/-- Zeros have either sign. -/
theorem signChanges_eq_zero_iff : signChanges xs = 0 ↔ OneSigned xs := by
  have hmem (x : ℝ) : x ∈ xs.filter (fun x => !(x == 0.0)) ↔ x ∈ xs ∧ x ≠ 0 := by
    simp [Scalar.real_zero]
  have hzeros {P : ℝ → Prop} (h0 : P 0) :
      (∀ x ∈ xs.filter (fun x => !(x == 0.0)), P x) ↔ ∀ x ∈ xs, P x := by
    refine ⟨fun h x hx => ?_, fun h x hx => h x ((hmem x).1 hx).1⟩
    by_cases hx0 : x = 0
    · rwa [hx0]
    · exact h x ((hmem x).2 ⟨hx, hx0⟩)
  rw [signChanges, changes_eq_zero_iff_oneSigned fun x hx => ((hmem x).1 hx).2]
  exact or_congr (hzeros (le_refl 0)) (hzeros (le_refl 0))

/-! ## Payments that cannot balance -/

/-- Numbers of one sign do not cancel out. -/
theorem OneSigned.eq_zero_of_sum (h : OneSigned xs) (hsum : xs.sum = 0) : ∀ x ∈ xs, x = 0 := by
  intro x hx
  rcases h with h | h
  · exact List.all_zero_of_le_zero_le_of_sum_eq_zero h hsum hx
  · have hopposite : (xs.map (- ·)).sum = 0 := by rw [← List.sum_neg, hsum, neg_zero]
    have hnonneg : ∀ y ∈ xs.map (- ·), 0 ≤ y := List.forall_mem_map.2 fun y hy => neg_nonneg.2 (h y hy)
    exact neg_eq_zero.1
      (List.all_zero_of_le_zero_le_of_sum_eq_zero hnonneg hopposite (List.mem_map_of_mem hx))

theorem OneSigned.weighted {terms : List (ℝ × ℝ)} (h : OneSigned (terms.map Prod.fst))
    (hweight : ∀ p ∈ terms, 0 < p.2) : OneSigned (terms.map fun p => p.1 * p.2) := by
  simp only [OneSigned, List.forall_mem_map] at h ⊢
  exact h.imp (fun h p hp => mul_nonneg (h p hp) (hweight p hp).le)
    fun h p hp => mul_nonpos_of_nonpos_of_nonneg (h p hp) (hweight p hp).le

/-- The payments are the price and the amounts, in some order. -/
theorem oneSigned_payments_iff :
    OneSigned i.payments ↔ OneSigned (-i.price :: i.flows.map Flow.amount) := by
  refine oneSigned_congr fun x => ?_
  simp [payments, List.mem_mergeSort]

/-- With payments of one sign, not all of them zero, no rate in the domain gives the flows the value of
the price. -/
theorem presentValue_ne_price (hi : i.Proper) (h : OneSigned i.payments)
    (hnonzero : ¬(i.price = 0 ∧ ∀ flow ∈ i.flows, flow.amount = 0)) {rate : ℝ} (hrate : i.InDomain rate) :
    ∃ v, presentValue i.convention i.flows rate = .ok v ∧ v ≠ i.price := by
  obtain ⟨n, hn, -⟩ := i.convention.periods_eq
  refine ⟨_, presentValue_eq_sum hn hi.frequency i.flows rate, fun hbalance => hnonzero ?_⟩
  -- the price is a payment that is not discounted
  let terms : List (ℝ × ℝ) := (-i.price, 1) ::
    i.flows.map fun flow => (flow.amount, i.convention.compounding.factor n rate flow.time)
  have hamounts : OneSigned (terms.map Prod.fst) := by
    simpa [terms, Function.comp_def] using oneSigned_payments_iff.1 h
  have hweights : ∀ p ∈ terms, 0 < p.2 := by
    simpa [terms] using factor_pos hi hrate hn
  have hsum : (terms.map fun p => p.1 * p.2).sum = 0 := by
    simp [terms, Function.comp_def, ← hbalance, Flow.total]
  have hzero : ∀ p ∈ terms, p.1 = 0 := by
    intro p hp
    have hterm : p.1 * p.2 = 0 :=
      (hamounts.weighted hweights).eq_zero_of_sum hsum (p.1 * p.2) (List.mem_map_of_mem hp)
    exact (mul_eq_zero.1 hterm).resolve_right (hweights p hp).ne'
  simpa [terms] using hzero

/-! ## What ends a search in the fault of the check -/

theorem objective_isTotal (hfrequency : 1 ≤ i.convention.frequency) : i.objective.IsTotal := by
  intro rate
  obtain ⟨n, hn, -⟩ := i.convention.periods_eq
  refine bind_total ?_ fun v => ⟨v - i.price, rfl⟩
  exact ⟨_, presentValue_eq_sum hn hfrequency i.flows rate⟩

/-- A refiner that was given no derivative uses the one of the objective. -/
theorem hasSlope {r : Refiner ℝ} (hr : r.slope = none) (hfrequency : 1 ≤ i.convention.frequency) :
    r.HasSlope i.objective := by
  intro _
  obtain ⟨n, hn, -⟩ := i.convention.periods_eq
  refine ⟨presentValueSlope i.convention i.flows, by rw [hr]; rfl, fun rate => ?_⟩
  exact ⟨_, presentValueSlope_eq_sum hn hfrequency i.flows rate⟩

theorem lowBound_total (i : Investment ℝ) : ∃ low, i.lowBound = .ok low := by
  obtain ⟨n, hn, -⟩ := i.convention.periods_eq
  unfold lowBound
  split
  · rw [hn]
    exact ⟨_, rfl⟩
  · exact ⟨_, rfl⟩
  · exact ⟨_, rfl⟩

/-- Once the signs change, only the name of the method and the budget can be refused. -/
theorem solver_holds {q : Query ℝ} (h : signChanges i.payments ≠ 0) :
    Holds (i.solver q) (fun solver => solver.refiner.slope = none) fun fault => fault ≠ .noSignChange := by
  obtain ⟨low, hlow⟩ := i.lowBound_total
  rw [solver, if_neg h, hlow]
  simp only [Refiner.ofName, bind, Except.bind]
  cases Method.ofName? q.method with
  | none => exact holds_error.2 nofun
  | some method =>
    cases hsettings : Settings.make q.maxEvaluations low none with
    | ok settings => exact holds_ok.2 (ite_self none)
    | error fault =>
      rw [Settings.fault_of_make hsettings]
      exact holds_error.2 nofun

theorem unwrap_holds (result : Result ℝ) :
    Holds result.unwrap (fun _ => True) fun fault => fault ≠ .noSignChange := by
  unfold Result.unwrap
  split
  · exact holds_ok.2 trivial
  · exact holds_error.2 nofun

/-- Once the signs change, a search ends in another fault, if in any. -/
theorem rate_ensures_other_fault (hfrequency : 1 ≤ i.convention.frequency) {q : Query ℝ}
    (h : signChanges i.payments ≠ 0) :
    (i.rate q).Ensures .start (fun _ _ => True) fun fault _ => fault ≠ .noSignChange := by
  obtain ⟨hsolver, hfault⟩ := solver_holds (q := q) h
  simp only [rate, run, ensures_bind, ensures_attempt, ensures_log]
  refine ⟨fun solver e => ?_, hfault⟩
  have hslope : solver.refiner.HasSlope i.objective := hasSlope (hsolver solver e) hfrequency
  refine (Solver.run_faults (objective_isTotal hfrequency) hslope q.guess q.step).mono
    (fun result _ _ => unwrap_holds result) ?_
  rintro fault t hown rfl
  exact hown

/-- The fault of the check comes from the check. -/
theorem rate_noSignChange_iff (hfrequency : 1 ≤ i.convention.frequency) (q : Query ℝ) :
    ((i.rate q).exec .start).1 = .error .noSignChange ↔ OneSigned i.payments := by
  rw [← signChanges_eq_zero_iff]
  constructor
  · intro hraised
    by_contra h
    exact (rate_ensures_other_fault hfrequency h).fault (Prod.ext hraised rfl) rfl
  · intro h
    have hsolver : i.solver q = .error .noSignChange := if_pos h
    simp [rate, run, exec_bind, hsolver]

/-! ## The check -/

/-- The pairs of an amount and a time that is not in the past. -/
noncomputable def livePairs (amounts times : List ℝ) : List (ℝ × ℝ) :=
  (amounts.zip times).filter fun p => 0 ≤ p.2

/-- The search for a rate ends in the fault of the check. -/
def IsRefused (amounts times : List ℝ) (price : ℝ) (convention : Convention) (q : Query ℝ) : Prop :=
  ∃ i, make amounts times price convention = .ok i ∧ ((i.rate q).exec .start).1 = .error .noSignChange

section Check

variable {amounts times amounts' times' : List ℝ} {price : ℝ} {convention : Convention} {q : Query ℝ}

theorem make_of_lengths (h : amounts.length = times.length) :
    make amounts times price convention =
      .ok ⟨(livePairs amounts times).map fun p => ⟨p.1, p.2⟩, price, convention⟩ := by
  have hlive : Flow.live amounts times = .ok ((livePairs amounts times).map fun p => ⟨p.1, p.2⟩) := by
    rw [Flow.live, if_pos h, ← List.map_uncurry_zip_eq_zipWith, List.filter_map]
    simp only [livePairs, Function.comp_def, Function.uncurry_def, Scalar.real_zero]
  rw [make, hlive]
  rfl

/-- Whether a search is refused can be read off the price and the live amounts. -/
theorem isRefused_iff (hfrequency : 1 ≤ convention.frequency) (h : amounts.length = times.length) :
    IsRefused amounts times price convention q ↔
      OneSigned (-price :: (livePairs amounts times).map Prod.fst) := by
  have hrate (i : Investment ℝ) (hi : make amounts times price convention = .ok i) :
      ((i.rate q).exec .start).1 = .error .noSignChange ↔
        OneSigned (-price :: (livePairs amounts times).map Prod.fst) := by
    rw [make_of_lengths h] at hi
    cases hi
    rw [rate_noSignChange_iff hfrequency, oneSigned_payments_iff, List.map_map]
    rfl
  constructor
  · rintro ⟨i, hi, hraised⟩
    exact (hrate i hi).1 hraised
  · intro hsigns
    exact ⟨_, make_of_lengths h, (hrate _ (make_of_lengths h)).2 hsigns⟩

/-- Over the reals the search for a rate is refused for the signs of the payments exactly if no two of
them, the price paid and the live amounts, have opposite signs. It is refused only if no rate can
balance them: unless the price and every live amount are zero, at each rate that makes all discount
bases positive the flows have a net present value, and it is not the price. The order of the flows has
no part in this, nor have flows of the past: two lists of flows with the same live ones, each as often,
are refused together. -/
theorem sign_check_refuses_only_impossible (amounts times : List ℝ) (price : ℝ) (convention : Convention)
    (q : Query ℝ) (hfrequency : 1 ≤ convention.frequency) :
    (amounts.length = times.length →
      (IsRefused amounts times price convention q ↔
        OneSigned (-price :: (livePairs amounts times).map Prod.fst))) ∧
    (IsRefused amounts times price convention q →
      ∀ i, make amounts times price convention = .ok i →
        ¬(price = 0 ∧ ∀ flow ∈ i.flows, flow.amount = 0) →
        ∀ rate, i.InDomain rate → ∃ v, netPresentValue convention amounts times rate = .ok v ∧ v ≠ price) ∧
    ∀ amounts' times' : List ℝ, amounts.length = times.length → amounts'.length = times'.length →
      (livePairs amounts times).Perm (livePairs amounts' times') →
      (IsRefused amounts times price convention q ↔ IsRefused amounts' times' price convention q) := by
  refine ⟨isRefused_iff hfrequency, ?_, ?_⟩
  · rintro ⟨i, hi, hraised⟩ j hj hnonzero rate hrate
    cases hi.symm.trans hj
    obtain ⟨flows, hlive, hflows⟩ := bind_eq_ok.1 hi
    cases hflows
    have hsigns := (rate_noSignChange_iff hfrequency q).1 hraised
    rw [netPresentValue, hlive]
    exact presentValue_ne_price (proper_of_make hi hfrequency) hsigns hnonzero hrate
  · intro amounts' times' hlengths hlengths' hlive
    rw [isRefused_iff hfrequency hlengths, isRefused_iff hfrequency hlengths']
    exact oneSigned_congr fun x => ((hlive.map Prod.fst).cons (-price)).mem_iff

/-- A price that is paid for two further payments at simple rates, in the order of their times, and in the
other order behind a payment of the past. -/
theorem sign_check_refuses_three_payments :
    IsRefused [-5, -6] [1, 2] 100 ⟨.simple, 1⟩ {} ∧
    (∃ v, netPresentValue ⟨.simple, 1⟩ [-5, -6] [1, 2] 0 = .ok v ∧ v ≠ (100 : ℝ)) ∧
    IsRefused [7, -6, -5] [-1, 2, 1] 100 ⟨.simple, 1⟩ {} := by
  have hlive : livePairs [-5, -6] [1, 2] = [(-5, 1), (-6, 2)] := by
    norm_num [livePairs]
  have hlive' : livePairs [7, -6, -5] [-1, 2, 1] = [(-6, 2), (-5, 1)] := by
    norm_num [livePairs]
  have hlengths : ([-5, -6] : List ℝ).length = ([1, 2] : List ℝ).length := rfl
  have hlengths' : ([7, -6, -5] : List ℝ).length = ([-1, 2, 1] : List ℝ).length := rfl
  obtain ⟨hexact, himpossible, hsame⟩ :=
    sign_check_refuses_only_impossible [-5, -6] [1, 2] 100 ⟨.simple, 1⟩ {} (by decide)
  have hrefused : IsRefused [-5, -6] [1, 2] 100 ⟨.simple, 1⟩ {} := by
    rw [hexact hlengths, hlive]
    right
    norm_num
  have hmake : make [-5, -6] [1, 2] 100 ⟨.simple, 1⟩ =
      .ok (⟨[⟨-5, 1⟩, ⟨-6, 2⟩], 100, ⟨.simple, 1⟩⟩ : Investment ℝ) := by
    rw [make_of_lengths hlengths, hlive]
    rfl
  have hreordered : (livePairs [-5, -6] [1, 2]).Perm (livePairs [7, -6, -5] [-1, 2, 1]) := by
    rw [hlive, hlive']
    exact List.Perm.swap _ _ []
  refine ⟨hrefused, himpossible hrefused _ hmake (by norm_num) 0 ?_, ?_⟩
  · intro flow _
    norm_num
  · exact (hsame _ _ hlengths hlengths' hreordered).1 hrefused

end Check

end Investment

end RootSearch
