import RootSearch.Proofs.DoubleDifference
import RootSearch.Proofs.Soundness
import RootSearch.Proofs.Succeeding
import RootSearch.Proofs.VolRange
/-!
# Searches for the volatility of one option

An option whose terms are numbers, not vectors, has a price and a vega at every volatility. So the
search for its implied volatility only fails as its method does. Where the volatility is not a number
the price is none either, so a volatility that is found is a number.
-/

namespace RootSearch

open Solve

/-- The terms of one option. -/
structure Terms (α : Type) where
  forward : α
  strike : α
  expiry : α
  rate : α
  isCall : Bool

namespace Terms

/-- The context of an option whose volatility is sought. The one it has is a placeholder. -/
def context {α : Type} [AnalyticScalar α] (w : Terms α) (sigma : α) : Context α :=
  { forward := .one w.forward, strike := .one w.strike, expiry := .one w.expiry, sigma := .one sigma,
    rate := .one w.rate, isCall := .one w.isCall, quantity := .one 1.0 }

/-! ## The objective -/

section Objective

variable {α : Type} [AnalyticScalar α] (w : Terms α) (pricer : Pricer α) (sigma price : α)

/-- What a search for the volatility at a price solves. -/
def objective : Objective α := ImpliedVol.objective pricer (w.context sigma) price

theorem objective_isTotal : (w.objective pricer sigma price).IsTotal := fun _ => ⟨_, rfl⟩

theorem objective_hasSlope (m : Method) :
    Refiner.HasSlope ⟨m, none⟩ (w.objective pricer sigma price) :=
  fun _ => ⟨_, rfl, fun _ => ⟨_, rfl⟩⟩

end Objective

/-- A threshold is not above what is not a number, so the smooth formula is used, and it keeps it. -/
theorem objective_undefined (w : Terms Double) (pricer : Pricer Double) (sigma price : Double)
    {x fx : Double} (hx : x.parts = .notANumber)
    (hfx : (w.objective pricer sigma price).value x = .ok fx) : fx.parts = .notANumber := by
  let total : Double := x * Scalar.sqrt w.expiry
  have htotal : total.parts = .notANumber := Double.mul_undefined (.inl hx)
  have hbelow : ¬total < pricer.threshold := Double.not_lt_undefined (.inl htotal)
  obtain ⟨below, moneyness, weight, omega, hvalue⟩ : ∃ below moneyness weight omega : Double,
      (w.objective pricer sigma price).value x =
        let vol := if total < pricer.threshold then 1.0 else total
        let d := (moneyness + 0.5 * (vol * vol)) / vol
        let above := weight * (w.forward * AnalyticScalar.normalCdf (omega * d) -
          w.strike * AnalyticScalar.normalCdf (omega * (d - vol)))
        .ok ((if total < pricer.threshold then below else above) - price) := ⟨_, _, _, _, rfl⟩
  simp only [hvalue, if_neg hbelow] at hfx
  cases hfx
  have hup : (w.forward * AnalyticScalar.normalCdf
      (omega * ((moneyness + 0.5 * (total * total)) / total))).parts = .notANumber :=
    Double.mul_undefined (.inr (Double.normalCdf_undefined
      (Double.mul_undefined (.inr (Double.div_undefined (.inr htotal))))))
  exact Double.sub_undefined (.inl (Double.mul_undefined (.inr (Double.sub_undefined (.inl hup)))))

end Terms

/-! ## Roots are numbers -/

/-- A converged result names a point where the objective is a number. -/
def Result.Defined {α : Type} [Scalar α] (f : Objective α) (r : Result α) : Prop :=
  r.status = .converged → ∃ x fx, r.root = some x ∧ f.value x = .ok fx ∧ fx ≤ fx

section Defined

variable {α : Type} [Scalar α] [LawfulArithmetic α] {f : Objective α} {settings : Settings α}
variable {accuracy : α} {s : Session α} {method : String}

theorem Result.Sound.defined {samples : Array α} {r : Result α} (h : r.Sound f samples accuracy) :
    r.Defined f := by
  intro hconverged
  obtain ⟨x, fx, hroot, hx, hle⟩ := h hconverged
  exact ⟨x, fx, hroot, hx.value, Scalar.number_of_abs (Scalar.le_refl_of_le hle).1⟩

/-- A search answers with a result as `Defined` says or hands over a genuine bracket. -/
def Search.Outcome.Defined (f : Objective α) (t : Session α) : Search.Outcome α → Prop
  | .answered result => result.Defined f
  | .bracketed => t.Genuine f

theorem Search.pass_defined (hs : s.Genuine f) (tieLow : Bool) :
    (pass f settings method tieLow).Ensures s
      (fun p t => p.Keeps (fun _ => t.Genuine f) fun outcome => outcome.Defined f t)
      fun _ _ => True := by
  -- a value that equals zero is a number
  have hzero {x fx : α} (hx : Sampled f s.samples x fx) (h : (fx == 0.0) = true) :
      (s.converged x method).Defined f :=
    fun _ => ⟨x, fx, rfl, hx.value, (Scalar.le_refl_of_le (Scalar.beq_iff.1 h).1).1⟩
  rw [ensures_pass]
  refine ⟨fun _ => ⟨hzero hs.min, fun _ => ⟨hzero hs.max, fun _ => hs⟩⟩, fun _ => ?_⟩
  exact holds_of_values fun fx hfx => expanded_genuine hs _ hfx

theorem Search.aroundGuess_defined (guess step : α) :
    (aroundGuess f settings accuracy guess step method).Ensures s
      (fun outcome t => outcome.Defined f t) fun _ _ => True := by
  rw [ensures_aroundGuess]
  apply holds_of_values
  intro fx hfx
  refine ⟨fun hle _ => ?_, fun _ => ?_⟩
  · exact ⟨guess, fx, rfl, hfx, Scalar.number_of_abs (Scalar.le_refl_of_le hle).1⟩
  apply holds_of_values
  intro fx' hfx'
  apply ensures_whileBudget (I := fun _ t => t.Genuine f)
  · intro tieLow t ht _
    exact pass_defined ht tieLow
  · intro _ t _
    rw [ensures_giveUp]
    exact nofun
  · have hguess : Sampled f (s.visited guess).samples guess fx := Sampled.latest s.samples hfx
    exact opened_all (hguess.push _) (Sampled.latest _ hfx')

theorem solveFromGuess_defined {r : Refiner α} (hr : r.method ≠ .brentq) (guess step : α) :
    (solveFromGuess r f settings accuracy guess step).Ensures s (fun result _ => result.Defined f)
      fun _ _ => True := by
  rw [solveFromGuess, Entry.ensures_solve]
  refine (Search.aroundGuess_defined guess step).mono (fun outcome t h => ?_) fun _ _ h => h
  cases outcome with
  | answered result => exact h
  | bracketed => exact (r.native_genuine hr _ h).mono (fun _ _ hr => hr.sound.defined) fun _ _ h => h

end Defined

/-! ## The search for a volatility -/

namespace Terms

variable (w : Terms Double) (e : ImpliedVol Double) (query : ImpliedVol.Query Double) (sigma price : Double)

/-- The search for the volatility at a price. -/
def search : Solve Double (Result Double) := e.run price (w.context sigma) query

variable {w e query sigma price} {m : Method} {s : Session Double}

theorem search_eq (hm : Method.ofName? query.method = some m) :
    w.search e query sigma price = solveFromGuess ⟨m, none⟩ (w.objective e.pricer sigma price) e.settings
      e.accuracy query.guess query.step :=
  e.run_eq price (w.context sigma) hm

/-- A search by a method that guards its divisors ends with a result. -/
theorem search_succeeds (hm : Method.ofName? query.method = some m) (hguarded : m.guardsDivisors = true)
    (haccuracy : Scalar.isNaN e.accuracy = false) : (w.search e query sigma price).Succeeds s := by
  rw [search_eq hm]
  exact Entry.solve_succeeds_of_guarded (r := ⟨m, none⟩) hguarded
    (w.objective_isTotal e.pricer sigma price) (w.objective_hasSlope e.pricer sigma price m) haccuracy
    (.fromGuess query.guess query.step)

/-- A volatility that a search finds is a number. -/
theorem search_root (hm : Method.ofName? query.method = some m) (hnative : m ≠ .brentq) :
    (w.search e query sigma price).Ensures s
      (fun result _ => result.status = .converged → ∃ x, result.root = some x ∧ x.isNaN = false)
      fun _ _ => True := by
  rw [search_eq hm]
  refine (solveFromGuess_defined hnative _ _).mono (fun result t h hconverged => ?_) fun _ _ h => h
  obtain ⟨x, fx, hroot, hfx, hnumber⟩ := h hconverged
  refine ⟨x, hroot, ?_⟩
  by_contra hnan
  have hx : x.parts = .notANumber := Double.isNaN_iff.1 (by simpa using hnan)
  exact Double.le_self_iff.1 hnumber (w.objective_undefined e.pricer sigma price hx hfx)

end Terms

end RootSearch
