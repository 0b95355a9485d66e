import Mathlib
import RootSearch.Proofs.Accounting
import RootSearch.Proofs.MonotoneSearch
/-!
# Brackets that grow

Over the reals an expansion moves an end away from the other one, by a multiple of their distance. A
bound stops it only once the end is there. So a search whose first two ends differ goes on growing
within its bounds. The first step may lead out of a bound that the guess is at. It is clamped back onto
the guess then: both ends are the guess, a multiple of their distance is zero, and the search never
leaves.
-/

namespace RootSearch

open Solve

/-! ## Only a search expands -/

section Expansions

variable {α : Type} [Scalar α] {f : Objective α} {settings : Settings α} {accuracy : α}
variable {Q : List (Side × Bracket α) → Prop}

/-- What holds of the expansions of a search holds of those of the whole solve. -/
theorem Entry.solve_expansions (r : Refiner α) (entry : Entry α)
    (h : (entry.search f settings accuracy r.name).Ensures .start (fun _ t => Q t.expansions)
      fun _ t => Q t.expansions) :
    (entry.solve r f settings accuracy).Ensures .start (fun _ t => Q t.expansions)
      fun _ t => Q t.expansions := by
  rw [ensures_solve]
  refine h.mono (fun outcome t ht => ?_) fun _ _ h => h
  cases outcome with
  | answered result => exact ht
  | bracketed =>
    -- how much a refinement is charged does not matter here, so any bound will do
    let most : Int := max (settings.maxEvaluations + 2) (t.evaluations + 1)
    have hcalls := r.method.callsPerPass_le
    have hrefines : RefinesOn most (r.refineBy Brentq.strategy f settings.maxEvaluations
        (Scalar.effectiveAccuracy accuracy)) t :=
      r.refineBy_refinesOn (fun _ => Brentq.strategy_isThrifty) (by omega) (by omega)
    exact hrefines.mono (fun _ u hu => hu.1.expansions ▸ ht) fun _ u hu => hu.expansions ▸ ht

end Expansions

namespace Search

variable {f : Objective ℝ} {settings : Settings ℝ} {accuracy guess step fx fx' : ℝ} {method : String}
variable {first b b' : Bracket ℝ} {side : Side} {t : Session ℝ}

/-! ## What an expansion does -/

/-- The end on the side moves strictly outwards, or stays at the bound that it had reached. The other one
does not move. -/
def Pushes (settings : Settings ℝ) (b : Bracket ℝ) (side : Side) (b' : Bracket ℝ) : Prop :=
  if side.isLow then
    b'.xMax = b.xMax ∧ (b'.xMin < b.xMin ∨ b'.xMin = b.xMin ∧ b.xMin ∈ settings.lowBound)
  else
    b'.xMin = b.xMin ∧ (b.xMax < b'.xMax ∨ b'.xMax = b.xMax ∧ b.xMax ∈ settings.hiBound)

theorem Pushes.ends_lt (h : Pushes settings b side b') (hb : b.xMin < b.xMax) : b'.xMin < b'.xMax := by
  unfold Pushes at h
  split at h
  · obtain ⟨hmax, hlt | ⟨hmin, -⟩⟩ := h
    · exact hmax ▸ hlt.trans hb
    · exact hmax ▸ hmin ▸ hb
  · obtain ⟨hmin, hlt | ⟨hmax, -⟩⟩ := h
    · exact hmin ▸ hb.trans hlt
    · exact hmin ▸ hmax ▸ hb

theorem grown_pushes (hb : b.xMin < b.xMax) (hends : b.EndsIn settings.domain) (side : Side) (fx : ℝ) :
    Pushes settings b side (grown b side (reach settings b side) fx) := by
  have hgrowth : (growth : ℝ) = 1.6 := rfl
  unfold Pushes grown reach
  split
  · have htarget : b.xMin + growth * (b.xMin - b.xMax) < b.xMin := by
      rw [hgrowth]
      linarith
    exact ⟨rfl, Settings.clamp_lt_or_eq hends.min htarget⟩
  · have htarget : b.xMax < b.xMax + growth * (b.xMax - b.xMin) := by
      rw [hgrowth]
      linarith
    exact ⟨rfl, Settings.lt_clamp_or_eq hends.max htarget⟩

/-- Every expansion pushes the bracket that it was made from. -/
def AllPush (settings : Settings ℝ) (first : Bracket ℝ) (expansions : List (Side × Bracket ℝ)) : Prop :=
  ∀ p ∈ (grownBrackets first expansions).zip expansions, Pushes settings p.1 p.2.1 p.2.2

theorem AllPush.append {expansions : List (Side × Bracket ℝ)} (h : AllPush settings first expansions)
    (hlast : Pushes settings ((expansions.map Prod.snd).getLastD first) side b) :
    AllPush settings first (expansions ++ [(side, b)]) := by
  have hlength : (grownBrackets first expansions).length = expansions.length := by
    simp [grownBrackets]
  intro p hp
  rw [grownBrackets_append, List.zip_append hlength] at hp
  rcases List.mem_append.1 hp with hp | hp
  · exact h p hp
  · rw [List.mem_singleton.1 hp]
    exact hlast

/-! ## The first bracket -/

/-- The step from the guess leads out of a bound that the guess is at. -/
def Blocked (settings : Settings ℝ) (guess fx : ℝ) : Prop :=
  if 0 < fx then guess ∈ settings.lowBound else guess ∈ settings.hiBound

theorem beside_of_blocked (hguess : guess ∈ settings.domain) (hstep : 0 < step)
    (h : Blocked settings guess fx) : beside settings guess fx step = guess := by
  unfold Blocked at h
  unfold beside
  rw [Scalar.real_zero]
  split at h
  · next hfx =>
    rw [if_pos hfx]
    exact Settings.clamp_of_lt_low h (sub_lt_self guess hstep)
  · next hfx =>
    rw [if_neg hfx]
    have hle := (Settings.clamp_mem_domain hguess (guess + step)).2 guess h
    have hstays := Settings.lt_clamp_or_eq hguess (lt_add_of_pos_right guess hstep)
    exact (hstays.resolve_left hle.not_gt).1

theorem opened_ends_lt (hguess : guess ∈ settings.domain) (hstep : 0 < step)
    (h : ¬Blocked settings guess fx) (fx' : ℝ) :
    let b := opened guess fx (beside settings guess fx step) fx'
    b.xMin < b.xMax := by
  unfold Blocked at h
  unfold opened beside
  rw [Scalar.real_zero]
  split at h
  · next hfx =>
    rw [if_pos hfx, if_pos hfx]
    exact (Settings.clamp_lt_or_eq hguess (sub_lt_self guess hstep)).resolve_right fun he => h he.2
  · next hfx =>
    rw [if_neg hfx, if_neg hfx]
    exact (Settings.lt_clamp_or_eq hguess (lt_add_of_pos_right guess hstep)).resolve_right
      fun he => h he.2

theorem opened_of_blocked (hguess : guess ∈ settings.domain) (hstep : 0 < step)
    (h : Blocked settings guess fx) :
    opened guess fx (beside settings guess fx step) fx = ⟨guess, guess, fx, fx⟩ := by
  rw [beside_of_blocked hguess hstep h]
  unfold opened
  split <;> rfl

/-! ## A search that grows its bracket -/

/-- At the head of a search with something to grow. -/
structure Growing (settings : Settings ℝ) (first : Bracket ℝ) (t : Session ℝ) : Prop where
  inside : t.bracket.EndsIn settings.domain
  ends_lt : t.bracket.xMin < t.bracket.xMax
  current : (t.expansions.map Prod.snd).getLastD first = t.bracket
  pushes : AllPush settings first t.expansions

theorem pass_growing (hguess : guess ∈ settings.domain) (h : Growing settings first t) (tieLow : Bool) :
    (pass f settings method tieLow).Ensures t
      (fun p u => p.Keeps (fun _ => Growing settings first u) fun _ => AllPush settings first u.expansions)
      fun _ u => AllPush settings first u.expansions := by
  rw [ensures_pass]
  refine ⟨fun _ => ⟨fun _ => h.pushes, fun _ => ⟨fun _ => h.pushes, fun _ => ?_⟩⟩, fun _ => ?_⟩
  · show AllPush settings first (Session.logged _ _).expansions
    rw [Session.expansions_logged_of_none rfl]
    exact h.pushes
  · refine ⟨fun fx _ => ?_, fun _ _ => h.pushes⟩
    have hpush := grown_pushes h.ends_lt h.inside (side t.bracket tieLow) fx
    have hx : reach settings t.bracket (side t.bracket tieLow) ∈ settings.domain :=
      reach_of_clamp (Settings.clamp_mem_domain hguess) _ _
    refine ⟨grown_all h.inside hx _, hpush.ends_lt h.ends_lt, ?_, ?_⟩
    · simp [Session.expansions_expanded]
    · rw [Session.expansions_expanded]
      exact h.pushes.append (h.current.symm ▸ hpush)

theorem aroundGuess_growing (hguess : guess ∈ settings.domain) (hstep : 0 < step)
    (hfx : f.value guess = .ok fx) (hfree : ¬Blocked settings guess fx) :
    (aroundGuess f settings accuracy guess step method).Ensures .start
      (fun _ t => AllPush settings ((Entry.fromGuess guess step).first f settings) t.expansions)
      fun _ t => AllPush settings ((Entry.fromGuess guess step).first f settings) t.expansions := by
  have hnone {first : Bracket ℝ} : AllPush settings first [] := by simp [AllPush]
  rw [ensures_aroundGuess]
  refine ⟨fun gx hgx => ⟨fun _ => hnone, fun _ => ⟨fun fx' hfx' => ?_, fun _ _ => hnone⟩⟩, fun _ _ => hnone⟩
  cases hfx.symm.trans hgx
  rw [Entry.first_eq_opened hfx hfx']
  refine ensures_whileBudget (I := fun _ u => Growing settings _ u)
    (fun tieLow u hu _ => pass_growing hguess hu tieLow) (fun _ u hu => ?_) ?_
  · rw [ensures_giveUp]
    show AllPush settings _ (u.logged _).expansions
    rw [Session.expansions_logged_of_none rfl]
    exact hu.pushes
  · refine ⟨opened_all hguess (Settings.clamp_mem_domain hguess _), ?_, rfl, hnone⟩
    exact opened_ends_lt hguess hstep hfree fx'

/-! ## A search that stays at the guess -/

/-- Both ends are the guess, and nothing else has been sampled. -/
structure Stays (guess fx : ℝ) (t : Session ℝ) : Prop where
  bracket : t.bracket = ⟨guess, guess, fx, fx⟩
  samples : ∀ x ∈ t.samples, x = guess

/-- An answer that reports the guess as both ends, and is a failure unless the guess is a root. -/
structure EndsAt (guess fx : ℝ) (result : Result ℝ) (t : Session ℝ) : Prop where
  samples : ∀ x ∈ t.samples, x = guess
  bracket : result.bracket = some ⟨guess, guess, fx, fx⟩
  failed : fx ≠ 0 → result.status = .bracketingFailed

theorem pass_stays (hguess : guess ∈ settings.domain) (hfx : f.value guess = .ok fx)
    (h : Stays guess fx t) (tieLow : Bool) :
    (pass f settings method tieLow).Ensures t
      (fun p u => p.Keeps (fun _ => Stays guess fx u) fun outcome =>
        ∃ result, outcome = .answered result ∧ EndsAt guess fx result u) fun _ _ => False := by
  -- what an end would be moved by is a multiple of zero
  have hreach : reach settings t.bracket (side t.bracket tieLow) = guess := by
    have hclamp := Settings.clamp_of_mem_domain hguess
    rw [h.bracket]
    unfold reach lower higher
    split <;> simpa using hclamp
  have hroot (e : fx = 0) : EndsAt guess fx (t.converged guess method) t :=
    ⟨h.samples, congrArg some h.bracket, fun hne => absurd e hne⟩
  rw [ensures_pass]
  simp only [hreach]
  rw [h.bracket]
  simp only [Scalar.real_zero, Scalar.real_beq, decide_eq_true_eq]
  refine ⟨fun hle => ⟨fun e => ⟨_, rfl, hroot e⟩, fun hne => ⟨fun e => ⟨_, rfl, hroot e⟩, fun _ => ?_⟩⟩,
    fun _ => ?_⟩
  · exact absurd hle (not_le.2 (mul_self_pos.2 hne))
  · refine ⟨fun gx hgx => ⟨?_, fun x hx => ?_⟩, fun fault hfault => ?_⟩
    · cases hfx.symm.trans hgx
      rw [Session.expanded_bracket, h.bracket]
      unfold grown
      split <;> rfl
    · rw [Session.expanded_samples] at hx
      exact (Array.mem_push.1 hx).elim (h.samples x) id
    · cases hfx.symm.trans hfault

theorem aroundGuess_stays (hguess : guess ∈ settings.domain) (hstep : 0 < step)
    (hfx : f.value guess = .ok fx) (hmiss : ¬|fx| ≤ accuracy) (hblocked : Blocked settings guess fx) :
    (aroundGuess f settings accuracy guess step method).Ensures .start
      (fun outcome t => ∃ result, outcome = .answered result ∧ EndsAt guess fx result t)
      fun _ _ => False := by
  have hvalue {gx : ℝ} (hgx : f.value guess = .ok gx) : gx = fx := Except.ok.inj (hgx.symm.trans hfx)
  rw [ensures_aroundGuess]
  refine ⟨fun gx hgx => ⟨fun hmet => ?_, fun _ => ?_⟩, fun fault hfault => nomatch hfx.symm.trans hfault⟩
  · exact absurd (hvalue hgx ▸ hmet) hmiss
  cases hvalue hgx
  rw [beside_of_blocked hguess hstep hblocked]
  refine ⟨fun gx' hgx' => ?_, fun fault hfault => nomatch hfx.symm.trans hfault⟩
  cases hvalue hgx'
  refine ensures_whileBudget (I := fun _ u => Stays guess fx u)
    (fun tieLow u hu _ => pass_stays hguess hfx hu tieLow) (fun _ u hu => ?_) ⟨?_, ?_⟩
  · rw [ensures_giveUp]
    exact ⟨_, rfl, hu.samples, congrArg some hu.bracket, fun _ => rfl⟩
  · unfold opened
    split <;> rfl
  · simp [Session.narrowed, Session.sampled, Session.visited, Session.start]

end Search

/-! ## Solves -/

theorem solveFromGuess_stays {r : Refiner ℝ} {f : Objective ℝ} {settings : Settings ℝ}
    {accuracy guess step fx : ℝ} (hguess : guess ∈ settings.domain) (hstep : 0 < step)
    (hfx : f.value guess = .ok fx) (hmiss : ¬|fx| ≤ accuracy)
    (hblocked : Search.Blocked settings guess fx) :
    ∃ result t, (solveFromGuess r f settings accuracy guess step).exec .start = (.ok result, t) ∧
      Search.EndsAt guess fx result t := by
  have hsolve : ((Entry.fromGuess guess step).solve r f settings accuracy).Ensures .start
      (Search.EndsAt guess fx) fun _ _ => False := by
    rw [Entry.ensures_solve]
    refine (Search.aroundGuess_stays hguess hstep hfx hmiss hblocked).mono (fun outcome t h => ?_)
      fun _ _ h => h
    obtain ⟨result, rfl, hends⟩ := h
    exact hends
  exact hsolve.returns

/-- Over the reals, take a solve from a guess within the bounds with a step above zero, and let the
guess not meet the accuracy. Unless the first step is blocked the first two ends differ, and every
expansion moves its end strictly outwards or leaves it at the bound that it had reached. If the step is
blocked both ends are the guess for good: the solve samples nothing else, whatever the objective and the
budget, and unless the guess is a root it ends without a bracket. -/
theorem bracket_grows_unless_blocked (r : Refiner ℝ) (f : Objective ℝ) (settings : Settings ℝ)
    (accuracy guess step fx fx' : ℝ) (hguess : guess ∈ settings.domain) (hstep : 0 < step)
    (hfx : f.value guess = .ok fx) (hmiss : ¬|fx| ≤ accuracy)
    (hfx' : f.value (Search.beside settings guess fx step) = .ok fx') :
    let outcome := (solveFromGuess r f settings accuracy guess step).exec .start
    let first := (Entry.fromGuess guess step).first f settings
    let expansions := outcome.2.expansions
    (¬Search.Blocked settings guess fx → first.xMin < first.xMax ∧
      ∀ p ∈ (grownBrackets first expansions).zip expansions, Search.Pushes settings p.1 p.2.1 p.2.2) ∧
    (Search.Blocked settings guess fx → first = ⟨guess, guess, fx, fx⟩ ∧
      (∀ x ∈ outcome.2.samples, x = guess) ∧
      ∃ result, outcome.1 = .ok result ∧ result.bracket = some ⟨guess, guess, fx, fx⟩ ∧
        (fx ≠ 0 → result.status = .bracketingFailed)) := by
  intro outcome first expansions
  have hfirst : first = Search.opened guess fx (Search.beside settings guess fx step) fx' :=
    Entry.first_eq_opened hfx hfx'
  refine ⟨fun hfree => ⟨?_, ?_⟩, fun hblocked => ⟨?_, ?_⟩⟩
  · exact hfirst ▸ Search.opened_ends_lt hguess hstep hfree fx'
  · exact (Entry.solve_expansions r (.fromGuess guess step)
      (Search.aroundGuess_growing hguess hstep hfx hfree)).final
  · have hsame : fx' = fx := by
      rw [Search.beside_of_blocked hguess hstep hblocked] at hfx'
      exact Except.ok.inj (hfx'.symm.trans hfx)
    rw [hfirst, hsame]
    exact Search.opened_of_blocked hguess hstep hblocked
  · obtain ⟨result, t, hexec, hends⟩ :=
      solveFromGuess_stays (r := r) hguess hstep hfx hmiss hblocked
    have houtcome : outcome = (.ok result, t) := hexec
    rw [houtcome]
    exact ⟨hends.samples, result, rfl, hends.bracket, hends.failed⟩

/-- A step that is clamped at the lower bound, from a guess inside. -/
theorem bracket_grows_from_clamped_step :
    let f : Objective ℝ := .ofTotal fun x => 3 - x
    let settings : Settings ℝ := ⟨5, some 0, some 5⟩
    let first := (Entry.fromGuess 1 2).first f settings
    let expansions := ((solveFromGuess ⟨.bisection, none⟩ f settings 1e-9 1 2).exec .start).2.expansions
    first.xMin < first.xMax ∧
      ∀ p ∈ (grownBrackets first expansions).zip expansions, Search.Pushes settings p.1 p.2.1 p.2.2 := by
  intro f settings
  have hguess : (1 : ℝ) ∈ settings.domain := by
    simp only [Settings.domain, settings]
    norm_num
  have hfree : ¬Search.Blocked settings 1 2 := by
    simp only [Search.Blocked, settings]
    norm_num
  exact (bracket_grows_unless_blocked ⟨.bisection, none⟩ f settings 1e-9 1 2 2 _ hguess two_pos
    (congrArg Except.ok (by norm_num)) (by norm_num [abs_of_pos]) rfl).1 hfree

/-- From a guess at the lower bound where a decreasing objective is positive, the root above is not found,
however near it is. -/
theorem bracket_does_not_grow_below_root :
    let f : Objective ℝ := .ofTotal fun x => 1 - x
    let settings : Settings ℝ := ⟨5, some 0, some 5⟩
    let outcome := (solveFromGuess ⟨.bisection, none⟩ f settings 1e-9 0 1).exec .start
    let first := (Entry.fromGuess 0 1).first f settings
    (0 : ℝ) ∈ settings.domain ∧ 1 ∈ settings.domain ∧ f.value 1 = .ok 0 ∧ f.value 0 = .ok 1 ∧
      ¬first.xMin < first.xMax ∧ (∀ x ∈ outcome.2.samples, x = 0) ∧
      ∃ result, outcome.1 = .ok result ∧ result.status = .bracketingFailed := by
  intro f settings outcome first
  have hguess : (0 : ℝ) ∈ settings.domain := by
    simp only [Settings.domain, settings]
    norm_num
  have hroot : (1 : ℝ) ∈ settings.domain := by
    simp only [Settings.domain, settings]
    norm_num
  have hvalue : f.value 0 = .ok 1 := congrArg Except.ok (by norm_num)
  have hblocked : Search.Blocked settings 0 1 := by
    simp [Search.Blocked, settings]
  have hends : ¬first.xMin < first.xMax := by
    have hbeside := Search.beside_of_blocked hguess one_pos hblocked
    have hfirst : first = ⟨0, 0, 1, 1⟩ :=
      (Entry.first_eq_opened hvalue (hbeside.symm ▸ hvalue)).trans
        (Search.opened_of_blocked hguess one_pos hblocked)
    rw [hfirst]
    exact lt_irrefl 0
  have hmiss : ¬|(1 : ℝ)| ≤ 1e-9 := by norm_num
  obtain ⟨result, t, hexec, hstays⟩ := solveFromGuess_stays (r := ⟨.bisection, none⟩)
    hguess one_pos hvalue hmiss hblocked
  have houtcome : outcome = (.ok result, t) := hexec
  refine ⟨hguess, hroot, congrArg Except.ok (by norm_num), hvalue, hends, ?_⟩
  rw [houtcome]
  exact ⟨hstays.samples, result, rfl, hstays.failed one_ne_zero⟩

end RootSearch
