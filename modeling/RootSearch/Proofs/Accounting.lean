import RootSearch.Double
import RootSearch.Proofs.Charges
/-!
# What a solve is charged for

Every call of the objective is charged once, and half the expansions that break a tie are charged
once more: ties go low and high in turn, whatever comes between them, and a low one is charged twice.
So the number of ties tells what is charged beyond the calls, and the budget bounds the calls.
-/

namespace RootSearch

open Solve

variable {α : Type} [Scalar α]

/-- Whether neither end has the smaller value. -/
def Bracket.isTied (b : Bracket α) : Bool :=
  !decide (Scalar.abs b.fMin < Scalar.abs b.fMax) && !decide (Scalar.abs b.fMax < Scalar.abs b.fMin)

namespace Search

/-- A side is picked to break a tie only if there is one. -/
theorem side_isTie (b : Bracket α) (tieLow : Bool) : (side b tieLow).isTie = b.isTied := by
  unfold side Bracket.isTied
  by_cases hlow : Scalar.abs b.fMin < Scalar.abs b.fMax
  · simp [hlow, Side.isTie]
  · by_cases hhigh : Scalar.abs b.fMax < Scalar.abs b.fMin
    · simp [hlow, hhigh, Side.isTie]
    · cases tieLow <;> simp [hlow, hhigh, Side.isTie]

end Search

/-- The bracket that a search begins with. Where a value is missing, nothing is grown from it. -/
def Entry.first (f : Objective α) (settings : Settings α) : Entry α → Bracket α
  | fromGuess guess step =>
    match f.value guess with
    | .error _ => ⟨guess, guess, 0.0, 0.0⟩
    | .ok fx =>
      let x := Search.beside settings guess fx step
      match f.value x with
      | .error _ => ⟨guess, guess, fx, fx⟩
      | .ok fx' => Search.opened guess fx x fx'
  | inBracket _ xMin xMax => ⟨xMin, xMax, 0.0, 0.0⟩

theorem Entry.first_eq_opened {f : Objective α} {settings : Settings α} {guess step fx fx' : α}
    (hfx : f.value guess = .ok fx)
    (hfx' : f.value (Search.beside settings guess fx step) = .ok fx') :
    (fromGuess guess step).first f settings =
      Search.opened guess fx (Search.beside settings guess fx step) fx' := by
  simp [first, hfx, hfx']

/-! ## Counting ties -/

omit [Scalar α] in
/-- The brackets that were grown, from the first one on. -/
def grownBrackets (first : Bracket α) (expansions : List (Side × Bracket α)) : List (Bracket α) :=
  (first :: expansions.map Prod.snd).dropLast

/-- How many tied brackets were grown. -/
def ties (first : Bracket α) (expansions : List (Side × Bracket α)) : Nat :=
  (grownBrackets first expansions).countP Bracket.isTied

/-- The sides that broke ties, in their order. -/
def tieSides {α : Type} (expansions : List (Side × Bracket α)) : List Side :=
  (expansions.map Prod.fst).filter Side.isTie

/-- Low and high in turn. -/
def alternating (n : Nat) : List Side :=
  (List.range n).map fun i => if i % 2 = 0 then .tieLow else .tieHigh

theorem alternating_succ (n : Nat) :
    alternating (n + 1) = alternating n ++ [if n % 2 = 0 then .tieLow else .tieHigh] := by
  simp [alternating, List.range_succ]

section Counting

variable {first b : Bracket α} {expansions : List (Side × Bracket α)} {side : Side}

omit [Scalar α] in
theorem grownBrackets_append (first b : Bracket α) (expansions : List (Side × Bracket α)) (side : Side) :
    grownBrackets first (expansions ++ [(side, b)]) =
      grownBrackets first expansions ++ [(expansions.map Prod.snd).getLastD first] := by
  have hne : first :: expansions.map Prod.snd ≠ [] := List.cons_ne_nil _ _
  unfold grownBrackets
  rw [List.map_append, List.map_singleton, ← List.cons_append, List.dropLast_concat,
    ← List.getLast_eq_getLastD hne, List.dropLast_concat_getLast hne]

theorem ties_append : ties first (expansions ++ [(side, b)]) =
    ties first expansions + if ((expansions.map Prod.snd).getLastD first).isTied then 1 else 0 := by
  unfold ties
  rw [grownBrackets_append, List.countP_append, List.countP_singleton]

omit [Scalar α] in
theorem tieSides_append : tieSides (expansions ++ [(side, b)]) =
    tieSides expansions ++ if side.isTie then [side] else [] := by
  cases h : side.isTie <;> simp [tieSides, List.filter_append, h]

end Counting

/-! ## The invariant -/

/-- What is charged beyond the calls is one for every other tie, and ties alternate. -/
structure Session.Balanced (first : Bracket α) (s : Session α) : Prop where
  charged : s.evaluations = (s.samples.size + (ties first s.expansions + 1) / 2 : Nat)
  sides : tieSides s.expansions = alternating (ties first s.expansions)

/-- While a search grows its bracket, the next tie goes low if an even number went before. -/
structure Search.Tallied (first : Bracket α) (tieLow : Bool) (s : Session α) : Prop where
  balanced : s.Balanced first
  current : (s.expansions.map Prod.snd).getLastD first = s.bracket
  turn : tieLow = decide (ties first s.expansions % 2 = 0)

section Invariant

variable {first b : Bracket α} {s t : Session α} {x fx : α} {n : Int} {tieLow : Bool}

theorem Session.Balanced.spends (h : s.Balanced first) (hs : s.Spends n t) : t.Balanced first := by
  have hcharged := h.charged
  have hsurplus := hs.surplus
  refine ⟨?_, ?_⟩
  · rw [hs.expansions]
    omega
  · rw [hs.expansions]
    exact h.sides

omit [Scalar α] in
theorem Session.expansions_expanded (s : Session α) (side : Side) (x fx : α) :
    (s.expanded side x fx).expansions = s.expansions ++ [(side, Search.grown s.bracket side x fx)] := by
  simp [Session.expansions, Event.expansion?]

namespace Search

theorem side_of_tied (h : b.isTied = true) (tieLow : Bool) :
    side b tieLow = if tieLow then .tieLow else .tieHigh := by
  simp only [Bracket.isTied, Bool.and_eq_true, Bool.not_eq_true', decide_eq_false_iff_not] at h
  rw [side, if_neg h.1, if_neg h.2]

theorem price_of_not_tie {side : Side} (h : side.isTie = false) (tieLow : Bool) :
    price side = 1 ∧ nextTieLow tieLow side = tieLow := by
  cases side <;> first | exact ⟨rfl, rfl⟩ | contradiction

/-! ### The expansion after `k` ties -/

variable {k : Nat}

/-- Only a low tie is charged for more than its call. -/
theorem price_side (hturn : tieLow = decide (k % 2 = 0)) : price (side b tieLow) =
    1 + ((k + (if b.isTied then 1 else 0) + 1) / 2 : Nat) - ((k + 1) / 2 : Nat) := by
  rcases htied : b.isTied with _ | _
  · have hside : (side b tieLow).isTie = false := by rw [side_isTie, htied]
    rw [(price_of_not_tie hside tieLow).1]
    simp
  · rw [side_of_tied htied, hturn]
    -- half the ties, rounded up, grows by one with every low tie only
    by_cases heven : k % 2 = 0
    · simp only [heven, decide_true, if_true, price]
      omega
    · simp only [heven, decide_false, Bool.false_eq_true, if_false, if_true, price]
      omega

theorem alternating_side (hturn : tieLow = decide (k % 2 = 0)) :
    (alternating k ++ if (side b tieLow).isTie then [side b tieLow] else []) =
      alternating (k + if b.isTied then 1 else 0) := by
  rw [side_isTie]
  rcases htied : b.isTied with _ | _
  · simp
  · rw [side_of_tied htied, hturn]
    simp [alternating_succ]

theorem nextTieLow_side (hturn : tieLow = decide (k % 2 = 0)) :
    nextTieLow tieLow (side b tieLow) = decide ((k + if b.isTied then 1 else 0) % 2 = 0) := by
  rcases htied : b.isTied with _ | _
  · have hside : (side b tieLow).isTie = false := by rw [side_isTie, htied]
    rw [(price_of_not_tie hside tieLow).2, hturn]
    simp
  · rw [side_of_tied htied, hturn]
    by_cases heven : k % 2 = 0
    · simp only [heven, decide_true, if_true, nextTieLow]
      exact (decide_eq_false (by omega)).symm
    · simp only [heven, decide_false, Bool.false_eq_true, if_false, if_true, nextTieLow]
      exact (decide_eq_true (by omega)).symm

/-- An expansion keeps the tally, and passes the turn on if it breaks a tie. -/
theorem Tallied.expanded (h : Tallied first tieLow s) (x fx : α) :
    Tallied first (nextTieLow tieLow (side s.bracket tieLow))
      (s.expanded (side s.bracket tieLow) x fx) := by
  obtain ⟨⟨hcharged, hsides⟩, hcurrent, hturn⟩ := h
  have hties : ties first (s.expanded (side s.bracket tieLow) x fx).expansions =
      ties first s.expansions + if s.bracket.isTied then 1 else 0 := by
    rw [Session.expansions_expanded, ties_append, hcurrent]
  refine ⟨⟨?_, ?_⟩, ?_, ?_⟩
  · have hprice := price_side (b := s.bracket) hturn
    rw [hties]
    simp only [Session.expanded_evaluations, Session.expanded_samples, Array.size_push]
    omega
  · rw [hties, Session.expansions_expanded, tieSides_append, hsides]
    exact alternating_side hturn
  · simp [Session.expansions_expanded]
  · rw [hties]
    exact nextTieLow_side hturn

end Search

end Invariant

/-! ## The searches -/

namespace Search

variable {f : Objective α} {settings : Settings α} {accuracy : α} {method : String}
variable {first : Bracket α} {limit : Nat} {s t : Session α}

/-- An answer reports what was charged; a bracket is handed over while the budget lasts. -/
def Outcome.Charged (limit : Nat) (t : Session α) : Outcome α → Prop
  | .answered result => result.evaluations = t.evaluations ∧ t.evaluations ≤ limit + 2
  | .bracketed => t.evaluations ≤ limit + 1

abbrev SearchesOn (first : Bracket α) (limit : Nat) (m : Solve α (Outcome α)) (s : Session α) : Prop :=
  m.Ensures s (fun outcome t => t.Balanced first ∧ outcome.Charged limit t)
    fun _ t => t.Balanced first ∧ t.evaluations ≤ limit + 2

theorem balanced_of_no_expansion (h : s.expansions = []) (hs : s.evaluations = s.samples.size) :
    s.Balanced first := by
  refine ⟨?_, ?_⟩
  · rw [h, hs]
    simp [ties, grownBrackets]
  · rw [h]
    rfl

theorem price_le (side : Side) : price side ≤ 2 := by
  cases side <;> decide

theorem pass_tallied {tieLow : Bool} (h : Tallied first tieLow t) (hle : t.evaluations ≤ limit) :
    (pass f settings method tieLow).Ensures t
      (fun p u => p.Keeps (fun tieLow => Tallied first tieLow u ∧ u.evaluations ≤ limit + 2)
        fun outcome => u.Balanced first ∧ outcome.Charged limit u)
      fun _ u => u.Balanced first ∧ u.evaluations ≤ limit + 2 := by
  rw [ensures_pass]
  have hidle : t.Spends (limit + 1) t := .refl (by omega)
  have hanswer (x : α) : t.Balanced first ∧
      (Outcome.answered (t.converged x method)).Charged limit t := ⟨h.balanced, rfl, by omega⟩
  refine ⟨fun _ => ⟨fun _ => hanswer _, fun _ => ⟨fun _ => hanswer _, fun _ => ?_⟩⟩, fun _ => ?_⟩
  · have hhanded := (hidle.located t.bracket.midpoint).logged
      (rfl : (Event.bracketed t.evaluations t.bracket).expansion? = none)
    exact ⟨h.balanced.spends hhanded, hhanded.bound⟩
  · refine ⟨fun fx _ => ⟨h.expanded _ fx, ?_⟩, fun _ _ => ?_⟩
    · have hprice := price_le (side t.bracket tieLow)
      simp only [Session.expanded_evaluations]
      omega
    · -- a call that fails is charged but expands nothing
      have hsampled := hidle.sampled (reach settings t.bracket (side t.bracket tieLow))
      exact ⟨h.balanced.spends hsampled, hsampled.bound⟩

theorem aroundGuess_searchesOn (guess step : α) :
    SearchesOn ((Entry.fromGuess guess step).first f settings) settings.maxEvaluations
      (aroundGuess f settings accuracy guess step method) .start := by
  rw [SearchesOn, ensures_aroundGuess]
  have hbegin : (Session.start : Session α).Spends 0 .start := .refl (Int.le_refl 0)
  have hstart : (Session.start : Session α).Balanced ((Entry.fromGuess guess step).first f settings) :=
    balanced_of_no_expansion rfl rfl
  have ht := hbegin.visited guess
  have hcalled := hstart.spends ht
  refine ⟨fun fx hfx => ⟨fun _ => ?_, fun _ => ⟨fun fx' hfx' => ?_, fun _ _ => ?_⟩⟩, fun _ _ => ?_⟩
  · have hset := ht.narrowed ⟨guess, guess, fx, fx⟩
    exact ⟨hstart.spends hset, rfl, Int.le_trans hset.bound (by omega)⟩
  · have hopened := (ht.sampled (beside settings guess fx step)).narrowed
      (opened guess fx (beside settings guess fx step) fx')
    refine ensures_whileBudget (I := fun tieLow t =>
      Tallied ((Entry.fromGuess guess step).first f settings) tieLow t ∧
        t.evaluations ≤ settings.maxEvaluations + 2)
      (fun tieLow t h hb => pass_tallied h.1 (by simpa [Session.hasBudget] using hb))
      (fun _ t h => ?_) ⟨⟨hstart.spends hopened, ?_, rfl⟩, Int.le_trans hopened.bound (by omega)⟩
    · rw [ensures_giveUp]
      have hfailed := (Session.Spends.refl h.2).logged
        (rfl : (Event.searchFailed (.searchSpent settings.maxEvaluations t.bracket)).expansion? = none)
      exact ⟨h.1.balanced.spends hfailed, rfl, hfailed.bound⟩
    · exact Entry.first_eq_opened hfx hfx'
  · have hsampled := ht.sampled (beside settings guess fx step)
    exact ⟨hstart.spends hsampled, Int.le_trans hsampled.bound (by omega)⟩
  · exact ⟨hcalled, Int.le_trans ht.bound (by omega)⟩

theorem supplied_searchesOn (hbudget : 1 ≤ limit) (guess xMin xMax : α) :
    SearchesOn first limit (supplied f settings accuracy guess xMin xMax method) .start := by
  rw [SearchesOn, ensures_supplied]
  have hbegin : (Session.start : Session α).Spends 0 .start := .refl (Int.le_refl 0)
  have hstart : (Session.start : Session α).Balanced first := balanced_of_no_expansion rfl rfl
  have ht := (hbegin.located guess).narrowed { (Session.start : Session α).bracket with xMin, xMax }
  refine ⟨fun status reason _ => ⟨hstart.spends ht, rfl, Int.le_trans ht.bound (by omega)⟩, fun _ => ?_⟩
  have hlow := ht.sampled xMin
  refine ⟨fun fMin _ => ⟨fun _ => ?_, fun _ => ⟨fun fMax _ => ?_, fun _ _ => ?_⟩⟩, fun _ _ => ?_⟩
  · have hset := hlow.narrowed { (Session.start : Session α).bracket with xMin, xMax, fMin }
    exact ⟨hstart.spends hset, rfl, Int.le_trans hset.bound (by omega)⟩
  · have hset := ((hlow.narrowed { (Session.start : Session α).bracket with xMin, xMax, fMin }).sampled
      xMax).narrowed ⟨xMin, xMax, fMin, fMax⟩
    refine ⟨fun _ => ⟨hstart.spends hset, rfl, Int.le_trans hset.bound (by omega)⟩,
      fun _ => ⟨fun _ => ?_, fun _ => ?_⟩⟩
    · exact ⟨hstart.spends hset, Int.le_trans hset.bound (by omega)⟩
    · have hrefused := hset.logged
        (rfl : (Event.notBracketed (.notBracketed ⟨xMin, xMax, fMin, fMax⟩)).expansion? = none)
      exact ⟨hstart.spends hrefused, rfl, Int.le_trans hrefused.bound (by omega)⟩
  · have hsampled := (hlow.narrowed
      { (Session.start : Session α).bracket with xMin, xMax, fMin }).sampled xMax
    exact ⟨hstart.spends hsampled, Int.le_trans hsampled.bound (by omega)⟩
  · exact ⟨hstart.spends hlow, Int.le_trans hlow.bound (by omega)⟩

end Search

/-! ## The solves -/

/-- A solve adds to what its search was charged one for every call, and overruns its budget by two
at most. -/
theorem Entry.solveBy_accounted {strategy : Brentq.Strategy α} {f : Objective α}
    {settings : Settings α} {accuracy : α} (r : Refiner α)
    (hstrategy : r.method = .brentq → strategy.IsThrifty) (hbudget : 1 ≤ settings.maxEvaluations)
    (entry : Entry α) :
    (entry.solveBy strategy r f settings accuracy).Ensures .start
      (fun result t => result.evaluations = t.evaluations ∧ t.Balanced (entry.first f settings) ∧
        t.evaluations ≤ settings.maxEvaluations + 2)
      fun _ t => t.Balanced (entry.first f settings) ∧ t.evaluations ≤ settings.maxEvaluations + 2 := by
  rw [ensures_solveBy]
  have hsearch : Search.SearchesOn (entry.first f settings) settings.maxEvaluations
      (entry.search f settings accuracy r.name) .start := by
    cases entry with
    | fromGuess guess step => exact Search.aroundGuess_searchesOn guess step
    | inBracket guess xMin xMax => exact Search.supplied_searchesOn hbudget guess xMin xMax
  refine hsearch.mono (fun outcome t h => ?_) fun _ _ h => h
  cases outcome with
  | answered result => exact ⟨h.2.1, h.1, h.2.2⟩
  | bracketed =>
    have hcalls := r.method.callsPerPass_le
    have hcharged : t.evaluations ≤ settings.maxEvaluations + 1 := h.2
    have hrefines : RefinesOn (settings.maxEvaluations + 2) (r.refineBy strategy f
        settings.maxEvaluations (Scalar.effectiveAccuracy accuracy)) t :=
      r.refineBy_refinesOn hstrategy (by omega) (by omega)
    exact hrefines.mono (fun _ _ hu => ⟨hu.2, h.1.spends hu.1, hu.1.bound⟩)
      fun _ _ hu => ⟨h.1.spends hu, hu.bound⟩

/-- Every result reports one evaluation for every call of the objective and one more for every other
expansion of a tied bracket, for ties go low and high in turn, whatever comes between them. And no
solve, not even one that ends in a fault, calls the objective more than twice beyond its budget. Of a
search by tolerance it is relied on that it calls it twice and then once a step at most. -/
theorem evaluations_accounted (strategy : Brentq.Strategy α) (r : Refiner α)
    (hstrategy : r.method = .brentq → strategy.IsThrifty) (f : Objective α) (settings : Settings α)
    (accuracy : α) (entry : Entry α) (hbudget : 1 ≤ settings.maxEvaluations) :
    let outcome := (entry.solveBy strategy r f settings accuracy).exec .start
    let expansions := outcome.2.expansions
    let tied := ties (entry.first f settings) expansions
    (∀ result, outcome.1 = .ok result →
      result.evaluations = (outcome.2.samples.size + (tied + 1) / 2 : Nat)) ∧
    tieSides expansions = alternating tied ∧
    outcome.2.samples.size ≤ settings.maxEvaluations + 2 := by
  have hends : (entry.solveBy strategy r f settings accuracy).Ensures .start
      (fun result t => result.evaluations = t.evaluations ∧ t.Balanced (entry.first f settings) ∧
        t.evaluations ≤ settings.maxEvaluations + 2)
      fun _ t => t.Balanced (entry.first f settings) ∧ t.evaluations ≤ settings.maxEvaluations + 2 :=
    entry.solveBy_accounted r hstrategy hbudget
  rcases hexec : (entry.solveBy strategy r f settings accuracy).exec .start with ⟨fault | result, t⟩
  · obtain ⟨⟨hcharged, hsides⟩, hbound⟩ := hends.fault hexec
    have hcalls : t.samples.size ≤ settings.maxEvaluations + 2 := by omega
    refine ⟨fun result e => ?_, hsides, hcalls⟩
    cases e
  · obtain ⟨hreport, ⟨hcharged, hsides⟩, hbound⟩ := hends.value hexec
    have hcalls : t.samples.size ≤ settings.maxEvaluations + 2 := by omega
    refine ⟨fun result' e => ?_, hsides, hcalls⟩
    cases e
    exact hreport.trans hcharged

/-- The search from a tied bracket, with a budget of three: all that is sampled is one, so every
expansion breaks a tie. -/
theorem evaluations_of_constant :
    (Brentq.strategy : Brentq.Strategy Double).IsThrifty ∧
    1 ≤ (⟨3, none, none⟩ : Settings Double).maxEvaluations ∧
    let f : Objective Double := .ofTotal fun _ => 1.0
    let entry : Entry Double := .fromGuess 0.0 1.0
    let outcome := (entry.solveBy Brentq.strategy ⟨.brentq, none⟩ f ⟨3, none, none⟩ 1e-9).exec .start
    let tied := ties (entry.first f ⟨3, none, none⟩) outcome.2.expansions
    (∀ result, outcome.1 = .ok result →
      result.evaluations = (outcome.2.samples.size + (tied + 1) / 2 : Nat)) ∧
    tieSides outcome.2.expansions = alternating tied ∧
    outcome.2.samples.size ≤ 3 + 2 :=
  ⟨Brentq.strategy_isThrifty, by decide, evaluations_accounted Brentq.strategy ⟨.brentq, none⟩
    (fun _ => Brentq.strategy_isThrifty) (.ofTotal fun _ => 1.0) ⟨3, none, none⟩ 1e-9
    (.fromGuess 0.0 1.0) (by decide)⟩

end RootSearch
