import RootSearch.Proofs.Soundness
import RootSearch.Proofs.Twins
/-!
# The bracket that a search hands over

A refinement knows nothing of the search before it except the bracket, the estimate and what is left of
the budget. So a solve in the bracket that a search from a guess found, started in its middle and with
the same budget left, refines as that solve does.
-/

namespace RootSearch

open Solve

variable {g : Gap} {s s' : Session ℝ} {f : Objective ℝ} {accuracy : ℝ} {limit limit' : Nat}

/-! ## Twins of one objective -/

theorem Bracket.times_one : Bracket.times 1 = id := by
  funext b
  simp [times]

theorem Slope.times_one : Slope.times 1 = id := by
  funext slope x
  simp only [times, one_mul]
  exact congrFun Except.map_id (slope x)

theorem Objective.times_one (f : Objective ℝ) : f.times 1 = f := by
  have hvalue (x : ℝ) : (f.value x).map (fun y => y) = f.value x := congrFun Except.map_id (f.value x)
  simp [times, Slope.times_one, hvalue]

theorem Refiner.times_one (r : Refiner ℝ) : r.times 1 = r := by
  simp [times, Slope.times_one]

namespace Brentq

theorem run_twins (hone : g.factor = 1) (f : Objective ℝ) (inquiry : Inquiry ℝ) (samples : List (ℝ × ℝ))
    (hs : s.Twins g s') :
    Tracks (Session.Twins g) (fun found _ found' => found' = found) never (inquiry.run f samples) s
      (inquiry.run f samples) s' := by
  induction inquiry generalizing samples s s' with
  | finish root isConverged => exact .pure hs rfl
  | refuse fault => exact .fault hs
  | ask x next ih =>
    have hsample := sample_twins hs f x
    rw [hone, Objective.times_one] at hsample
    refine hsample.seq ?_
    rintro _ t fx t' ht ⟨hfx, -⟩
    rw [one_mul] at hfx
    subst hfx
    exact ih fx _ ht

variable (hone : g.factor = 1) (haccuracy : 0 ≤ accuracy) (hlimit : (limit' : Int) = limit + g.ahead)

include hone haccuracy hlimit

theorem polish_twins (hs : s.Twins g s') :
    RefineTwins g (polish f limit accuracy) s (polish f limit' accuracy) s' := by
  have hbrent := Brent.refine_twins (f := f) (by rw [hone]; exact one_ne_zero) haccuracy hs hlimit
  rw [hone, Objective.times_one, abs_one, one_mul] at hbrent
  refine hbrent.seq fun r t r' t' ht hr => ?_
  exact .value ht ⟨hr.status, hr.root, hr.evaluations, hr.bracket⟩

theorem refineBy_twins (strategy : Strategy ℝ) (hs : s.Twins g s') :
    RefineTwins g (refineBy strategy f limit accuracy) s (refineBy strategy f limit' accuracy) s' := by
  have hbracket {t t' : Session ℝ} (ht : t.Twins g t') : t'.bracket = t.bracket := by
    rw [ht.bracket, hone, Bracket.times_one, id]
  have hsteps : (limit' : Int) - s'.evaluations - 2 = limit - s.evaluations - 2 := by
    have hevaluations := hs.evaluations
    omega
  unfold refineBy
  refine .get ?_
  simp only [hsteps]
  refine .ite Iff.rfl (fun _ => polish_twins hone haccuracy hlimit hs) fun _ => .bracket ?_
  rw [hbracket hs]
  rcases ordered s.bracket with ⟨a, b⟩
  refine (run_twins hone f _ [] hs).seq ?_
  rintro _ t found t' ht rfl
  refine .bracket ?_
  rw [hbracket ht]
  have hu : ((t.narrowed (replay t.bracket found.samples.reverse)).located found.root).Twins g
      ((t'.narrowed (replay t.bracket found.samples.reverse)).located found.root) := by
    have h := (ht.narrowed (replay t.bracket found.samples.reverse)).located found.root
    rwa [hone, Bracket.times_one] at h
  refine .setBracket (.setRoot (.ite Iff.rfl ?_ fun _ => ?_))
  · exact fun _ => .value hu (hu.converged found.root name)
  · exact .bracket (.log (polish_twins hone haccuracy hlimit (hu.logged _ _)))

end Brentq

/-- Twins of one objective that are refined by one method end as twins, whatever the strategy. -/
theorem Refiner.refineBy_twins (hone : g.factor = 1) (haccuracy : 0 ≤ accuracy)
    (hlimit : (limit' : Int) = limit + g.ahead) (strategy : Brentq.Strategy ℝ) (r : Refiner ℝ)
    (hb : s.bracket.Straddles) (hs : s.Twins g s') :
    RefineTwins g (r.refineBy strategy f limit accuracy) s (r.refineBy strategy f limit' accuracy) s' := by
  by_cases hr : r.method = .brentq
  · simp only [refineBy, hr]
    exact Brentq.refineBy_twins hone haccuracy hlimit strategy hs
  · have h := refine_twins (f := f) (by rw [hone]; exact one_ne_zero) haccuracy hs hlimit hr hb
    rw [hone, Objective.times_one, times_one, abs_one, one_mul] at h
    rwa [refineBy_native hr, refineBy_native hr]

/-! ## The search from a guess -/

namespace Search

variable {settings : Settings ℝ} {method : String}

/-- What a search from a guess leaves when it hands over. -/
structure Handed (f : Objective ℝ) (limit : Nat) (t : Session ℝ) : Prop where
  root : t.root = t.bracket.midpoint
  straddles : t.bracket.Straddles
  budget : t.hasBudget limit
  genuine : t.Genuine f

theorem aroundGuess_hands {guess step : ℝ} {t : Session ℝ}
    (h : (aroundGuess f settings accuracy guess step method).exec s = (.ok .bracketed, t)) :
    Handed f settings.maxEvaluations t := by
  have hgenuine : t.Genuine f :=
    Ensures.value (aroundGuess_sound (le_refl accuracy) guess step) h
  have hhands : (aroundGuess f settings accuracy guess step method).Ensures s
      (fun outcome t => outcome = .bracketed → t.root = t.bracket.midpoint ∧ t.bracket.Straddles ∧
        t.hasBudget settings.maxEvaluations) fun _ _ => True := by
    rw [ensures_aroundGuess]
    refine ⟨fun fx _ => ⟨fun _ => nofun, fun _ => ⟨fun fx' _ => ?_, fun _ _ => trivial⟩⟩,
      fun _ _ => trivial⟩
    refine ensures_whileBudget (I := fun _ _ => True) (fun tieLow u _ hb => ?_) (fun _ u _ => ?_) trivial
    · rw [ensures_pass]
      refine ⟨fun hle => ⟨fun _ => nofun, fun hmin => ⟨fun _ => nofun, fun hmax => ?_⟩⟩, fun _ => ?_⟩
      · exact fun _ => ⟨rfl, Bracket.straddles_of_crossed hle hmin hmax, hb⟩
      · exact ⟨fun _ _ => trivial, fun _ _ => trivial⟩
    · rw [ensures_giveUp]
      exact nofun
  obtain ⟨hroot, hstraddles, hbudget⟩ := hhands.value h rfl
  exact ⟨hroot, hstraddles, hbudget, hgenuine⟩

/-! ## The same bracket, supplied -/

theorem defect_eq_none {guess xMin xMax : ℝ} (hlow : ∀ low ∈ settings.lowBound, low ≤ xMin)
    (hhi : ∀ hi ∈ settings.hiBound, xMax ≤ hi) (hmin : xMin < guess) (hmax : guess < xMax) :
    defect? settings guess xMin xMax = none := by
  have hlow : settings.lowBound.filter (xMin < ·) = none := by
    rw [Option.filter_eq_none_iff]
    intro low hmem
    simpa using hlow low hmem
  have hhi : settings.hiBound.filter (· < xMax) = none := by
    rw [Option.filter_eq_none_iff]
    intro hi hmem
    simpa using hhi hi hmem
  unfold defect?
  rw [hlow, hhi]
  simp [hmin.trans hmax, hmin, hmax]

/-- The session in which a supplied bracket is handed over. -/
def enclosed (guess : ℝ) (b : Bracket ℝ) : Session ℝ :=
  { root := guess, bracket := b, evaluations := 2, samples := #[b.xMin, b.xMax] }

theorem supplied_hands {guess : ℝ} {b : Bracket ℝ}
    (hdefect : defect? settings guess b.xMin b.xMax = none)
    (hfMin : f.value b.xMin = .ok b.fMin) (hfMax : f.value b.xMax = .ok b.fMax)
    (hmin : accuracy ≤ |b.fMin|) (hmax : accuracy ≤ |b.fMax|) (hb : b.Straddles) :
    (supplied f settings accuracy guess b.xMin b.xMax method).exec .start =
      (.ok .bracketed, enclosed guess b) := by
  have h : (supplied f settings accuracy guess b.xMin b.xMax method).Ensures .start
      (fun outcome t => outcome = .bracketed ∧ t = enclosed guess b) fun _ _ => False := by
    rw [ensures_supplied]
    refine ⟨fun status reason hsome => ?_, fun _ => ⟨fun fMin h => ?_, fun fault h => ?_⟩⟩
    · rw [hdefect] at hsome
      cases hsome
    · cases hfMin.symm.trans h
      refine ⟨fun hlt => absurd hlt (not_lt.2 hmin), fun _ => ⟨fun fMax h => ?_, fun fault h => ?_⟩⟩
      · cases hfMax.symm.trans h
        refine ⟨fun hlt => absurd hlt (not_lt.2 hmax), fun _ => ⟨fun _ => ⟨rfl, rfl⟩, fun hneg => ?_⟩⟩
        rw [Scalar.real_zero] at hneg
        exact absurd (opposite_iff_mul_neg.1 hb) hneg
      · cases hfMax.symm.trans h
    · cases hfMin.symm.trans h
  obtain ⟨outcome, t, hexec, rfl, rfl⟩ := h.returns
  exact hexec

end Search

/-! ## Solves -/

/-- A solve whose search hands over goes on as the refinement. -/
theorem Entry.exec_solveBy {strategy : Brentq.Strategy ℝ} {r : Refiner ℝ} {settings : Settings ℝ}
    {t : Session ℝ} (entry : Entry ℝ)
    (h : (entry.search f settings accuracy r.name).exec s = (.ok .bracketed, t)) :
    (entry.solveBy strategy r f settings accuracy).exec s =
      (r.refineBy strategy f settings.maxEvaluations (Scalar.effectiveAccuracy accuracy)).exec t := by
  unfold solveBy
  rw [exec_bind, h]
  rfl

/-- Over the reals, let a search from a guess hand over a bracket after `k` evaluations, in order,
within the bounds and with values that are not below the accuracy. A solve in that bracket from its
middle, with `k - 2` evaluations less to spend, ends in the same fault or with the same status, root and
bracket for `k - 2` evaluations less. Past the first samples of each, both go to the same points. -/
theorem handed_bracket_refines_alike (strategy : Brentq.Strategy ℝ) (r : Refiner ℝ)
    (f : Objective ℝ) (settings : Settings ℝ) (accuracy guess step : ℝ) (found : Session ℝ)
    (hfound : (Search.aroundGuess f settings accuracy guess step r.name).exec .start =
      (.ok .bracketed, found))
    (horder : found.bracket.xMin < found.bracket.xMax)
    (hlow : ∀ low ∈ settings.lowBound, low ≤ found.bracket.xMin)
    (hhi : ∀ hi ∈ settings.hiBound, found.bracket.xMax ≤ hi)
    (hmin : accuracy ≤ |found.bracket.fMin|) (hmax : accuracy ≤ |found.bracket.fMax|) :
    let a := found.bracket.xMin
    let b := found.bracket.xMax
    let k := found.evaluations
    let budget := (settings.maxEvaluations - k + 2).toNat
    let first := ((Entry.fromGuess guess step).solveBy strategy r f settings accuracy).exec .start
    let second := ((Entry.inBracket ((a + b) / 2) a b).solveBy strategy r f
      { settings with maxEvaluations := budget } accuracy).exec .start
    (budget : Int) = settings.maxEvaluations - k + 2 ∧
    (∃ points, first.2.samples.toList = found.samples.toList ++ points ∧
      second.2.samples.toList = [a, b] ++ points) ∧
    (∀ result, first.1 = .ok result → ∃ result', second.1 = .ok result' ∧
      result'.status = result.status ∧ result'.root = result.root ∧
      result'.bracket = result.bracket ∧ result'.evaluations = result.evaluations - (k - 2)) ∧
    (∀ fault, first.1 = .error fault → second.1 = .error fault) := by
  intro a b k budget first second
  obtain ⟨hroot, hstraddles, hb, hgenuine⟩ := Search.aroundGuess_hands hfound
  have hbudget : (budget : Int) = settings.maxEvaluations - k + 2 := by
    have hle : k ≤ settings.maxEvaluations := by simpa [Session.hasBudget] using hb
    exact Int.toNat_of_nonneg (by omega)
  let middle := (a + b) / 2
  have hsecond : ((Entry.inBracket middle a b).search f { settings with maxEvaluations := budget } accuracy
      r.name).exec .start = (.ok .bracketed, Search.enclosed middle found.bracket) := by
    have hdefect : Search.defect? { settings with maxEvaluations := budget } middle a b = none :=
      Search.defect_eq_none hlow hhi (left_lt_add_div_two.2 horder) (add_div_two_lt_right.2 horder)
    exact Search.supplied_hands hdefect hgenuine.min.value hgenuine.max.value hmin hmax hstraddles
  -- twins of the one objective: what sets them apart is what their searches sampled and cost
  let g : Gap := { factor := 1, ahead := 2 - k, before := found.samples.toList, before' := [a, b] }
  have htwins : found.Twins g (Search.enclosed middle found.bracket) := by
    refine ⟨?_, (congrFun Bracket.times_one _).symm, ?_, [], (List.append_nil _).symm, rfl⟩
    · have hmiddle : found.bracket.midpoint = middle := by
        unfold Bracket.midpoint
        ring
      rw [hroot, hmiddle]
      rfl
    · show 2 = k + (2 - k)
      omega
  have heps : 0 ≤ Scalar.effectiveAccuracy accuracy :=
    Scalar.real_epsilon_pos.le.trans (Scalar.epsilon_le_effectiveAccuracy (le_refl accuracy))
  have hleft : (budget : Int) = settings.maxEvaluations + g.ahead := by
    show (budget : Int) = settings.maxEvaluations + (2 - k)
    omega
  have h : RefineTwins g ((Entry.fromGuess guess step).solveBy strategy r f settings accuracy) .start
      ((Entry.inBracket middle a b).solveBy strategy r f { settings with maxEvaluations := budget }
        accuracy) .start := by
    unfold RefineTwins Tracks
    rw [Entry.exec_solveBy (.fromGuess guess step) hfound,
      Entry.exec_solveBy (.inBracket middle a b) hsecond]
    exact r.refineBy_twins (f := f) rfl heps hleft strategy hstraddles htwins
  obtain ⟨hends, hresults, hfaults⟩ := h.ends
  refine ⟨hbudget, hends.samples, fun result hresult => ?_, hfaults⟩
  obtain ⟨result', hresult', hr⟩ := hresults result hresult
  have hbracket := hr.bracket
  have hevaluations : result'.evaluations = result.evaluations + (2 - k) := hr.evaluations
  rw [show g.factor = 1 from rfl, Bracket.times_one, Option.map_id] at hbracket
  exact ⟨result', hresult', hr.status, hr.root, hbracket, by omega⟩

/-- A search on a line, which grows its bracket once: three evaluations, so one less in the bracket. -/
theorem handed_bracket_of_line :
    let f : Objective ℝ := .ofTotal fun x => x - 1
    let r : Refiner ℝ := ⟨.brentq, none⟩
    ∃ found, (Search.aroundGuess f {} (1 / 10) 0 (1 / 2) r.name).exec .start = (.ok .bracketed, found) ∧
      found.bracket = ⟨0, 13 / 10, -1, 3 / 10⟩ ∧ found.evaluations = 3 ∧
      let first := ((Entry.fromGuess 0 (1 / 2)).solveBy Brentq.strategy r f {} (1 / 10)).exec .start
      let second := ((Entry.inBracket ((0 + 13 / 10) / 2) 0 (13 / 10)).solveBy Brentq.strategy r f
        { maxEvaluations := 99 } (1 / 10)).exec .start
      (∃ points, first.2.samples.toList = found.samples.toList ++ points ∧
        second.2.samples.toList = [0, 13 / 10] ++ points) ∧
      (∀ result, first.1 = .ok result → ∃ result', second.1 = .ok result' ∧
        result'.status = result.status ∧ result'.root = result.root ∧
        result'.bracket = result.bracket ∧ result'.evaluations = result.evaluations - (3 - 2)) ∧
      (∀ fault, first.1 = .error fault → second.1 = .error fault) := by
  intro f r
  have hvalue (x : ℝ) : f.value x = .ok (x - 1) := rfl
  have hsearch : (Search.aroundGuess f {} (1 / 10) 0 (1 / 2) r.name).Ensures .start
      (fun outcome t => outcome = .bracketed ∧ t.bracket = ⟨0, 13 / 10, -1, 3 / 10⟩ ∧ t.evaluations = 3)
      fun _ _ => False := by
    rw [Search.ensures_aroundGuess]
    simp only [Holds, hvalue, Except.ok.injEq, reduceCtorEq, forall_eq', false_imp_iff, implies_true,
      and_true]
    refine ⟨by norm_num, fun _ => ?_⟩
    -- the first pass grows the bracket to the right, the second hands it over
    rw [ensures_whileBudget_iff (Search.pass_advances _ _ _) (by decide), Search.ensures_pass]
    norm_num [Session.narrowed, Search.beside, Search.opened, Settings.clamp, Holds, hvalue, Search.side,
      Search.reach, Side.isLow, Search.higher, Search.growth, proceed, Search.nextTieLow]
    rw [ensures_whileBudget_iff (Search.pass_advances _ _ _) (by decide), Search.ensures_pass]
    norm_num [Search.grown, Side.isLow, proceed, Session.handed]
    exact ⟨⟨rfl, rfl⟩, by simp⟩
  rcases hexec : (Search.aroundGuess f {} (1 / 10) 0 (1 / 2) r.name).exec .start with
    ⟨fault | outcome, found⟩
  · exact (hsearch.fault hexec).elim
  obtain ⟨rfl, hbracket, hevaluations⟩ := hsearch.value hexec
  have h := handed_bracket_refines_alike Brentq.strategy r f {} (1 / 10) 0 (1 / 2) found hexec
    (by rw [hbracket]; norm_num) (by simp) (by simp) (by rw [hbracket]; norm_num)
    (by rw [hbracket]; norm_num)
  simp only [hbracket, hevaluations] at h
  exact ⟨found, rfl, hbracket, hevaluations, h.2⟩

end RootSearch
