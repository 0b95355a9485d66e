import Mathlib
import RootSearch.Proofs.Entrywise
import RootSearch.Proofs.NormalLaw
/-!
# Calls and puts

A call less the put on the same terms is worth the discounted difference of forward and strike, whatever
the volatility is: the intrinsic values differ by that and so do the prices above the threshold, where a
symmetric distribution function makes up for the sign of the put. Both are told apart by the same total
volatility, so the two formulas never meet. Strips of options agree with this entry by entry.
-/

namespace RootSearch

open Strip

/-! ## One option -/

namespace Terms

section Parity

variable (w : Terms ℝ) (p : Pricer ℝ) (sigma vol : ℝ) {N : ℝ → ℝ}

/-- The same option as a call. -/
def call {α : Type} (w : Terms α) : Terms α := { w with isCall := true }

/-- The same option as a put. -/
def put {α : Type} (w : Terms α) : Terms α := { w with isCall := false }

/-- What is paid today for the forward less the strike at expiry. -/
noncomputable def carry (w : Terms ℝ) : ℝ := Real.exp (-w.rate * w.expiry) * (w.forward - w.strike)

theorem intrinsicPrice_call_sub_put :
    letI := AnalyticScalar.withCdf N
    w.call.intrinsicPrice - w.put.intrinsicPrice = w.carry := by
  let _ := AnalyticScalar.withCdf N
  have hcall : w.call.intrinsicPrice = w.discount * max (w.forward - w.strike) 0 := by
    show w.discount * Scalar.maxNaN (1.0 * (w.forward - w.strike)) 0.0 = _
    rw [Scalar.real_maxNaN]
    norm_num
  have hput : w.put.intrinsicPrice = w.discount * max (-(w.forward - w.strike)) 0 := by
    show w.discount * Scalar.maxNaN (-1.0 * (w.forward - w.strike)) 0.0 = _
    rw [Scalar.real_maxNaN]
    norm_num
  rw [hcall, hput, ← mul_sub, max_zero_sub_max_neg_zero_eq_self]
  rfl

theorem smoothPrice_call_sub_put (hN : ∀ x, N (-x) = 1 - N x) :
    letI := AnalyticScalar.withCdf N
    w.call.smoothPrice vol - w.put.smoothPrice vol = w.carry := by
  let _ := AnalyticScalar.withCdf N
  let d := w.d1 vol
  have hcall : w.call.smoothPrice vol =
      w.discount * (w.forward * N d - w.strike * N (d - vol)) := by
    show w.discount * 1.0 * (w.forward * N (1.0 * d) - w.strike * N (1.0 * (d - vol))) = _
    norm_num
  have hput : w.put.smoothPrice vol =
      -w.discount * (w.forward * (1 - N d) - w.strike * (1 - N (d - vol))) := by
    show w.discount * -1.0 * (w.forward * N (-1.0 * d) - w.strike * N (-1.0 * (d - vol))) = _
    rw [← hN, ← hN]
    norm_num
  have hcarry : w.carry = w.discount * (w.forward - w.strike) := rfl
  rw [hcall, hput, hcarry]
  ring

theorem price_call_sub_put (hN : ∀ x, N (-x) = 1 - N x) :
    letI := AnalyticScalar.withCdf N
    w.call.price p sigma - w.put.price p sigma = w.carry := by
  let _ := AnalyticScalar.withCdf N
  have hbelow : w.put.totalVol sigma < p.threshold ↔ w.call.totalVol sigma < p.threshold := Iff.rfl
  unfold price
  by_cases h : w.call.totalVol sigma < p.threshold
  · rw [if_pos h, if_pos (hbelow.2 h)]
    exact w.intrinsicPrice_call_sub_put
  · rw [if_neg h, if_neg (mt hbelow.1 h)]
    exact w.smoothPrice_call_sub_put _ hN

end Parity

end Terms

/-- Put-call parity, for any symmetric function in the place of the normal distribution function. A call
and a put on the same terms have prices at every volatility, below the threshold of the total volatility
and above it, and these differ by the discounted difference of forward and strike. So do the prices of
two strips, option by option, of which one holds the calls and the other the puts, where the forwards or
the volatilities are vectors. -/
theorem put_call_parity (N : ℝ → ℝ) (hN : ∀ x, N (-x) = 1 - N x) (p : Pricer ℝ) :
    letI := AnalyticScalar.withCdf N
    (∀ (w : Terms ℝ) (call put : Context ℝ) (sigma : ℝ), w.call.Of call → w.put.Of put →
      ∃ x y, p.priceWithVol call (.one sigma) = .ok (.one x) ∧
        p.priceWithVol put (.one sigma) = .ok (.one y) ∧
        x - y = Real.exp (-w.rate * w.expiry) * (w.forward - w.strike)) ∧
    ∀ (n : Nat) (w : Fin n → Terms ℝ) (v : Fin n → ℝ) (calls puts : Context ℝ) (sigma : Strip ℝ),
      calls.Assigns (fun i => (w i).call) → puts.Assigns (fun i => (w i).put) → sigma.Assigns v →
      (∀ c ∈ [calls, puts], c.forward.length? = some n ∨ sigma.length? = some n) →
      ∃ x y : Fin n → ℝ,
        p.priceWithVol calls sigma = .ok (.many (List.ofFn x)) ∧
        p.priceWithVol puts sigma = .ok (.many (List.ofFn y)) ∧
        ∀ i, x i - y i = Real.exp (-(w i).rate * (w i).expiry) * ((w i).forward - (w i).strike) := by
  let _ := AnalyticScalar.withCdf N
  refine ⟨fun w call put sigma hcall hput => ?_, fun n w v calls puts sigma hcalls hputs hv hstrips => ?_⟩
  · exact ⟨_, _, hcall.priceWithVol, hput.priceWithVol, w.price_call_sub_put p sigma hN⟩
  · have hstrip (c : Context ℝ) (hc : c ∈ [calls, puts]) : (c.withVol sigma).IsStrip n := hstrips c hc
    exact ⟨_, _, p.priceWithVol_of_isStrip hcalls hv (hstrip calls (by simp)),
      p.priceWithVol_of_isStrip hputs hv (hstrip puts (by simp)),
      fun i => (w i).price_call_sub_put p (v i) hN⟩

/-- Two forwards against one strike, the first without volatility. -/
theorem put_call_parity_of_normal_law :
    (∀ x : ℝ, AnalyticScalar.normalCdf (-x) = 1 - AnalyticScalar.normalCdf x) ∧
    let strip (isCall : Bool) : Context ℝ :=
      { forward := .many [100, 90], strike := .one 95, expiry := .one 2, sigma := .one 0.2,
        rate := .one 0.05, isCall := .one isCall, quantity := .one 1 }
    ∃ x y : Fin 2 → ℝ,
      Pricer.priceWithVol {} (strip true) (.many [0, 0.2]) = .ok (.many (List.ofFn x)) ∧
      Pricer.priceWithVol {} (strip false) (.many [0, 0.2]) = .ok (.many (List.ofFn y)) ∧
      ∀ i, x i - y i = Real.exp (-0.05 * 2) * (![100, 90] i - 95) := by
  refine ⟨normalCdf_neg, ?_⟩
  intro strip
  let w (isCall : Bool) (i : Fin 2) : Terms ℝ := ⟨![100, 90] i, 95, 2, 0.05, isCall⟩
  have hstrip (isCall : Bool) : (strip isCall).Assigns (w isCall) :=
    ⟨.many ![100, 90], .one 95, .one 2, .one 0.05, .one isCall⟩
  obtain ⟨-, hstrips⟩ := put_call_parity AnalyticScalar.normalCdf normalCdf_neg {}
  exact hstrips 2 (w true) ![0, 0.2] (strip true) (strip false) (.many [0, 0.2]) (hstrip true)
    (hstrip false) (.many ![0, 0.2]) fun _ _ => .inr rfl

/-- Not all strips have prices that differ so: one in which the strike alone is a vector has none. -/
theorem put_call_parity_needs_vector :
    let strip (isCall : Bool) : Context ℝ :=
      { forward := .one 100, strike := .many [90, 110], expiry := .one 1, sigma := .one 0.2, rate := .one 0,
        isCall := .one isCall, quantity := .one 1 }
    (∀ isCall, (strip isCall).check = .ok ()) ∧
    ¬∃ x y : Fin 2 → ℝ,
      Pricer.priceWithVol {} (strip true) (.one 0.2) = .ok (.many (List.ofFn x)) ∧
      Pricer.priceWithVol {} (strip false) (.one 0.2) = .ok (.many (List.ofFn y)) ∧
      ∀ i, x i - y i = Real.exp (-0 * 1) * (100 - ![90, 110] i) := by
  intro strip
  constructor
  · intro isCall
    refine Context.check_eq_ok_iff.2 ⟨?_, ?_, ?_, ?_, rfl⟩
    all_goals norm_num [strip, any, toList]
  · rintro ⟨x, y, hcalls, -⟩
    have hrefused : Pricer.priceWithVol {} (strip true) (.one 0.2) = .error .notScalar := rfl
    cases hrefused.symm.trans hcalls

end RootSearch
