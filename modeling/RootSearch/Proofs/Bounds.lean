import Mathlib
import RootSearch.Proofs.Containment
import RootSearch.Proofs.Searching
/-!
# Samples stay within supplied and enforced bounds

A supplied bracket is never left. From a guess, every sample respects each enforced bound that the
guess itself respects: the search clamps its points, and a refinement stays within the bracket that
it is handed.
-/

namespace RootSearch

open Solve

/-! ## Settings -/

namespace Settings

/-- What settings promise once they are made: a budget and bounds in order. -/
structure Valid {α : Type} [Scalar α] (s : Settings α) : Prop where
  budget : 1 ≤ s.maxEvaluations
  ordered : ∀ low ∈ s.lowBound, ∀ hi ∈ s.hiBound, ¬hi < low

/-- Settings are made just as they are asked for, if these are valid. -/
theorem make_eq_ok_iff {α : Type} [Scalar α] {n : Int} {low hi : Option α} {s : Settings α} :
    make n low hi = .ok s ↔ s = ⟨n.toNat, low, hi⟩ ∧ s.Valid := by
  have hbudget : 1 ≤ n.toNat ↔ ¬n < 1 := by omega
  have hvalid : (⟨n.toNat, low, hi⟩ : Settings α).Valid ↔
      ¬n < 1 ∧ ∀ l ∈ low, ∀ h ∈ hi, ¬h < l :=
    ⟨fun h => ⟨hbudget.1 h.budget, h.ordered⟩, fun h => ⟨hbudget.2 h.1, h.2⟩⟩
  have hmake : make n low hi = .ok s ↔ s = ⟨n.toNat, low, hi⟩ ∧ ¬n < 1 ∧ ∀ l ∈ low, ∀ h ∈ hi, ¬h < l := by
    unfold make
    cases low <;> cases hi <;> grind
  rw [hmake]
  refine and_congr_right fun e => ?_
  rw [e, hvalid]

theorem valid_of_make {α : Type} [Scalar α] {n : Int} {low hi : Option α} {s : Settings α}
    (h : make n low hi = .ok s) : s.Valid :=
  (make_eq_ok_iff.1 h).2

section Clamp

variable {α : Type} [Scalar α] {s : Settings α} {low x : α}

theorem clamp_of_lt_low (hlow : low ∈ s.lowBound) (hx : x < low) : s.clamp x = low := by
  unfold clamp
  rw [Option.mem_def.1 hlow]
  exact if_pos hx

/-- The upper bound is looked at once the lower one is respected. -/
theorem clamp_of_not_lt_low (hlow : ∀ low ∈ s.lowBound, ¬x < low) :
    s.clamp x = s.hiBound.elim x fun hi => if hi < x then hi else x := by
  unfold clamp
  rcases hl : s.lowBound with _ | low
  · rcases s.hiBound with _ | hi <;> rfl
  · have hx : ¬x < low := hlow low hl
    rcases s.hiBound with _ | hi <;> exact if_neg hx

/-- Clamping keeps a point that violates no bound and moves any other to the bound that it violates. -/
theorem clamp_cases (s : Settings α) (x : α) :
    ((∀ low ∈ s.lowBound, ¬x < low) ∧ (∀ hi ∈ s.hiBound, ¬hi < x) ∧ s.clamp x = x) ∨
      (x < s.clamp x ∧ s.clamp x ∈ s.lowBound) ∨ (s.clamp x < x ∧ s.clamp x ∈ s.hiBound) := by
  by_cases hlow : ∃ low ∈ s.lowBound, x < low
  · obtain ⟨low, hmem, hx⟩ := hlow
    rw [clamp_of_lt_low hmem hx]
    exact .inr (.inl ⟨hx, hmem⟩)
  · push Not at hlow
    rw [clamp_of_not_lt_low hlow]
    rcases hh : s.hiBound with _ | hi
    · exact .inl ⟨hlow, by simp, rfl⟩
    · by_cases hx : hi < x
      · exact .inr (.inr (by simp [hx]))
      · exact .inl ⟨hlow, by simpa using hx, if_neg hx⟩

end Clamp

/-- The points that respect each enforced bound that the guess respects. -/
def allowed (s : Settings ℝ) (guess : ℝ) : Set ℝ :=
  {x | (∀ low ∈ s.lowBound, low ≤ guess → low ≤ x) ∧ ∀ hi ∈ s.hiBound, guess ≤ hi → x ≤ hi}

variable {settings : Settings ℝ} {guess : ℝ}

theorem guess_mem_allowed : guess ∈ settings.allowed guess := ⟨fun _ _ h => h, fun _ _ h => h⟩

theorem allowed_ordConnected : (settings.allowed guess).OrdConnected := by
  refine ⟨fun x hx y hy z hz => ⟨fun low hlow h => ?_, fun hi hhi h => ?_⟩⟩
  · exact (hx.1 low hlow h).trans hz.1
  · exact hz.2.trans (hy.2 hi hhi h)

theorem low_le_clamp (hvalid : settings.Valid) {low : ℝ} (h : settings.lowBound = some low) (x : ℝ) :
    low ≤ settings.clamp x := by
  rcases settings.clamp_cases x with ⟨hlow, -, e⟩ | ⟨-, hmem⟩ | ⟨-, hmem⟩
  · rw [e]
    exact not_lt.1 (hlow low h)
  · exact (Option.mem_unique h hmem).le
  · exact not_lt.1 (hvalid.ordered low h _ hmem)

theorem clamp_le_hi (hvalid : settings.Valid) {hi : ℝ} (h : settings.hiBound = some hi) (x : ℝ) :
    settings.clamp x ≤ hi := by
  rcases settings.clamp_cases x with ⟨-, hhi, e⟩ | ⟨-, hmem⟩ | ⟨-, hmem⟩
  · rw [e]
    exact not_lt.1 (hhi hi h)
  · exact not_lt.1 (hvalid.ordered _ hmem hi h)
  · exact (Option.mem_unique hmem h).le

/-- A clamped point respects both bounds, whatever the guess does. -/
theorem clamp_mem_allowed (hvalid : settings.Valid) (x : ℝ) :
    settings.clamp x ∈ settings.allowed guess :=
  ⟨fun _ hlow _ => low_le_clamp hvalid hlow x, fun _ hhi _ => clamp_le_hi hvalid hhi x⟩

end Settings

/-! ## The searches -/

namespace Search

variable {S : Set ℝ} {f : Objective ℝ} {settings : Settings ℝ} {accuracy : ℝ} {s : Session ℝ}
variable {method : String}

/-- A search answers with a root in `S` or hands over a bracket in it that straddles zero. -/
def Outcome.Within (S : Set ℝ) (t : Session ℝ) : Outcome ℝ → Prop
  | .answered result => result.RootIn S
  | .bracketed => t.bracket.EndsIn S ∧ t.root ∈ S ∧ t.bracket.Straddles

abbrev SearchesWithin (S : Set ℝ) (m : Solve ℝ (Outcome ℝ)) (s : Session ℝ) : Prop :=
  m.Ensures s (fun outcome t => t.SampledIn S ∧ outcome.Within S t) fun _ t => t.SampledIn S

/-- A search that clamps its points into `S` stays in `S`. -/
theorem pass_within (hS : S.OrdConnected) (hclamp : ∀ x, settings.clamp x ∈ S) (hs : s.Within S)
    (tieLow : Bool) : (pass f settings method tieLow).Ensures s
      (fun p t => t.SampledIn S ∧ p.Keeps (fun _ => t.bracket.EndsIn S) (·.Within S t))
      fun _ t => t.SampledIn S := by
  rw [ensures_pass]
  refine ⟨fun hle => ⟨fun _ => ?_, fun hmin => ⟨fun _ => ?_, fun hmax => ?_⟩⟩, fun _ => ?_⟩
  · exact ⟨hs.samples, converged_rootIn hs.ends.min⟩
  · exact ⟨hs.samples, converged_rootIn hs.ends.max⟩
  · have hb : s.bracket.Straddles := Bracket.straddles_of_crossed hle hmin hmax
    exact ⟨hs.samples, hs.ends, hs.ends.mem hS s.bracket.midpoint_mem, hb⟩
  · have hx : reach settings s.bracket (side s.bracket tieLow) ∈ S := reach_of_clamp hclamp _ _
    exact ⟨fun fx _ => ⟨hs.samples.push hx, grown_all hs.ends hx _⟩, fun _ _ => hs.samples.push hx⟩

theorem aroundGuess_within (hS : S.OrdConnected) (hclamp : ∀ x, settings.clamp x ∈ S)
    (hs : s.SampledIn S) {guess : ℝ} (hguess : guess ∈ S) (step : ℝ) :
    SearchesWithin S (aroundGuess f settings accuracy guess step method) s := by
  rw [SearchesWithin, ensures_aroundGuess]
  have ht := hs.push hguess
  refine ⟨fun fx _ => ⟨fun _ => ⟨ht, converged_rootIn hguess⟩, fun _ => ?_⟩, fun _ _ => ht⟩
  have hx : beside settings guess fx step ∈ S := hclamp _
  refine ⟨fun fx' _ => ?_, fun _ _ => ht.push hx⟩
  refine ensures_whileBudget (I := fun _ t => t.Within S)
    (fun tieLow t ht _ => (pass_within hS hclamp ht tieLow).mono (fun p u h => ?_) fun _ _ h => h)
    (fun _ t ht => ?_) ⟨ht.push hx, opened_all hguess hx⟩
  · cases p with
    | again state => exact ⟨h.1, h.2⟩
    | stop outcome => exact h
  · rw [ensures_giveUp]
    exact ⟨ht.samples, fail_rootIn (by decide) (by decide)⟩

theorem supplied_within {guess xMin xMax : ℝ} (hs : s.SampledIn (Set.Icc xMin xMax)) :
    SearchesWithin (Set.Icc xMin xMax) (supplied f settings accuracy guess xMin xMax method) s := by
  rw [SearchesWithin, ensures_supplied]
  refine ⟨fun status reason h => ⟨hs, ?_⟩, fun h => ?_⟩
  · rcases defect_cases h with rfl | rfl | rfl <;> exact fail_rootIn (by decide) (by decide)
  obtain ⟨hlow, hhigh⟩ := defect_none h
  have hmin : xMin ∈ Set.Icc xMin xMax := ⟨le_refl _, hlow.le.trans hhigh.le⟩
  have hmax : xMax ∈ Set.Icc xMin xMax := ⟨hlow.le.trans hhigh.le, le_refl _⟩
  have hu := hs.push hmin
  have hv := hu.push hmax
  refine ⟨fun fMin _ => ⟨fun _ => ⟨hu, converged_rootIn hmin⟩, fun _ => ?_⟩, fun _ _ => hu⟩
  refine ⟨fun fMax _ => ⟨fun _ => ⟨hv, converged_rootIn hmax⟩, fun _ => ⟨fun hsign => ?_, fun _ => ?_⟩⟩,
    fun _ _ => hv⟩
  · norm_num at hsign
    exact ⟨hv, ⟨hmin, hmax⟩, ⟨hlow.le, hhigh.le⟩, opposite_iff_mul_neg.2 hsign⟩
  · exact ⟨hv, fail_rootIn (by decide) (by decide)⟩

end Search

/-! ## The solves -/

section Solves

variable {S : Set ℝ} {f : Objective ℝ} {settings : Settings ℝ} {accuracy : ℝ} {s : Session ℝ}

theorem effectiveAccuracy_nonneg (accuracy : ℝ) : 0 ≤ Scalar.effectiveAccuracy accuracy :=
  Scalar.real_epsilon_pos.le.trans (Scalar.epsilon_le_effectiveAccuracy (le_refl accuracy))

/-- A solve stays where its search does. -/
theorem Entry.solve_within (hS : S.OrdConnected) {r : Refiner ℝ} (hr : r.method ≠ .brentq)
    {entry : Entry ℝ}
    (h : Search.SearchesWithin S (entry.search f settings accuracy r.name) s) :
    RefinesWithin S (entry.solve r f settings accuracy) s := by
  rw [RefinesWithin, ensures_solve]
  refine h.mono (fun outcome t h => ?_) fun _ _ h => h
  cases outcome with
  | answered result => exact h
  | bracketed =>
    obtain ⟨hsamples, hends, hroot, hb⟩ := h
    exact r.refine_within hr hS (effectiveAccuracy_nonneg accuracy) _ ⟨hsamples, hends⟩ hroot hb

theorem RefinesWithin.exec {m : Solve ℝ (Result ℝ)} (h : RefinesWithin S m s) :
    (∀ x ∈ (m.exec s).2.samples, x ∈ S) ∧ ∀ result, (m.exec s).1 = .ok result → result.RootIn S := by
  rcases hexec : m.exec s with ⟨fault | result, t⟩
  · refine ⟨h.fault hexec, fun result e => ?_⟩
    cases e
  · obtain ⟨hsamples, hroot⟩ := h.value hexec
    refine ⟨hsamples, fun result' e => ?_⟩
    cases e
    exact hroot

end Solves

/-- A solve in a supplied bracket calls the objective in it only, and names no root outside. -/
theorem solveInBracket_stays_within (r : Refiner ℝ) (f : Objective ℝ) (settings : Settings ℝ)
    (accuracy guess xMin xMax : ℝ) (hr : r.method ≠ .brentq) :
    let outcome := (solveInBracket r f settings accuracy guess xMin xMax).exec .start
    (∀ x ∈ outcome.2.samples, x ∈ Set.Icc xMin xMax) ∧
      ∀ result, outcome.1 = .ok result →
        result.status = .converged ∨ result.status = .accuracyNotReached →
        ∃ x ∈ Set.Icc xMin xMax, result.root = some x := by
  have hstart : (Session.start : Session ℝ).SampledIn (Set.Icc xMin xMax) := by
    simp [Session.SampledIn, Session.start]
  have hsearch : Search.SearchesWithin (Set.Icc xMin xMax)
      ((Entry.inBracket guess xMin xMax).search f settings accuracy r.name) .start :=
    Search.supplied_within hstart
  exact (Entry.solve_within Set.ordConnected_Icc hr hsearch).exec

/-- Safeguarded Newton steps with a wrong derivative do not leave the bracket either. -/
theorem solveInBracket_stays_within_wrong_slope :
    Method.safeNewton ≠ .brentq ∧
    let outcome := (solveInBracket ⟨.safeNewton, some fun _ => .ok (-1)⟩ (.ofTotal fun x => x - 1) {}
      1e-9 2 0 4).exec .start
    (∀ x ∈ outcome.2.samples, x ∈ Set.Icc (0 : ℝ) 4) ∧
      ∀ result, outcome.1 = .ok result →
        result.status = .converged ∨ result.status = .accuracyNotReached →
        ∃ x ∈ Set.Icc (0 : ℝ) 4, result.root = some x :=
  ⟨by decide, solveInBracket_stays_within ⟨.safeNewton, some fun _ => .ok (-1)⟩
    (.ofTotal fun x => x - 1) {} 1e-9 2 0 4 (by decide)⟩

/-- A solve from a guess calls the objective only at points that respect each enforced bound that the
guess respects, and so does the root of a converged result. -/
theorem solveFromGuess_respects_bounds (r : Refiner ℝ) (f : Objective ℝ) (settings : Settings ℝ)
    (accuracy guess step : ℝ) (hr : r.method ≠ .brentq) (hsettings : settings.Valid) :
    let outcome := (solveFromGuess r f settings accuracy guess step).exec .start
    (∀ x ∈ outcome.2.samples, x ∈ settings.allowed guess) ∧
      ∀ result, outcome.1 = .ok result → result.status = .converged →
        ∃ x ∈ settings.allowed guess, result.root = some x := by
  have hstart : (Session.start : Session ℝ).SampledIn (settings.allowed guess) := by
    simp [Session.SampledIn, Session.start]
  have hsearch : Search.SearchesWithin (settings.allowed guess)
      ((Entry.fromGuess guess step).search f settings accuracy r.name) .start :=
    Search.aroundGuess_within Settings.allowed_ordConnected (Settings.clamp_mem_allowed hsettings)
      hstart Settings.guess_mem_allowed step
  obtain ⟨hsamples, hroot⟩ :=
    (Entry.solve_within Settings.allowed_ordConnected hr hsearch).exec
  exact ⟨hsamples, fun result h hconverged => hroot result h (.inl hconverged)⟩

/-- With bounds zero and five, from within and with a negative step. -/
theorem solveFromGuess_respects_zero_and_five :
    Method.ridder ≠ .brentq ∧ (⟨100, some 0, some 5⟩ : Settings ℝ).Valid ∧
    let outcome := (solveFromGuess ⟨.ridder, none⟩ (.ofTotal fun x => x - 4) ⟨100, some 0, some 5⟩
      1e-9 2 (-0.1)).exec .start
    (∀ x ∈ outcome.2.samples, x ∈ (⟨100, some 0, some 5⟩ : Settings ℝ).allowed 2) ∧
      ∀ result, outcome.1 = .ok result → result.status = .converged →
        ∃ x ∈ (⟨100, some 0, some 5⟩ : Settings ℝ).allowed 2, result.root = some x :=
  have hvalid : (⟨100, some 0, some 5⟩ : Settings ℝ).Valid := ⟨by decide, by norm_num⟩
  ⟨by decide, hvalid, solveFromGuess_respects_bounds ⟨.ridder, none⟩ (.ofTotal fun x => x - 4)
    ⟨100, some 0, some 5⟩ 1e-9 2 (-0.1) (by decide) hvalid⟩

end RootSearch
