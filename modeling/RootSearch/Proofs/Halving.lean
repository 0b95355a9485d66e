import Mathlib
import RootSearch.Proofs.Charges
import RootSearch.Proofs.Faultless
import RootSearch.Proofs.Pace
import RootSearch.Proofs.Stalls
/-!
# Methods that halve

Bisection keeps one of the two halves. Ridders' method does as well: the point of its fit never lies on
the side of the midpoint where the sign is the midpoint's own, so between it and the next sample on the
other side there is no more than a half, in whatever order the two become the ends. So the passes are
counted by the halvings that it takes to come below the resolution.
-/

namespace RootSearch

open Solve

/-! ## Halves -/

/-- A sign change within another bracket and on no more than half of its width. -/
structure Bracket.HalfOf (c b : Bracket ℝ) : Prop where
  straddles : c.Straddles
  inside : Set.uIcc c.xMin c.xMax ⊆ Set.uIcc b.xMin b.xMax
  half : c.width ≤ b.width / 2

namespace Bracket

variable {b c : Bracket ℝ} {x fx : ℝ}

theorem midpoint_sub_xMin (b : Bracket ℝ) : b.midpoint - b.xMin = (b.xMax - b.xMin) / 2 := by
  unfold midpoint
  ring

theorem xMax_sub_midpoint (b : Bracket ℝ) : b.xMax - b.midpoint = (b.xMax - b.xMin) / 2 := by
  unfold midpoint
  ring

/-- Between the midpoint and an end there is a half. -/
theorem halfOf_of_mem {e : ℝ} (he : e = b.xMin ∨ e = b.xMax) (hc : c.Straddles)
    (hmin : c.xMin ∈ Set.uIcc b.midpoint e) (hmax : c.xMax ∈ Set.uIcc b.midpoint e) : c.HalfOf b := by
  have hinside : Set.uIcc c.xMin c.xMax ⊆ Set.uIcc b.midpoint e := Set.uIcc_subset_uIcc hmin hmax
  have hend : e ∈ Set.uIcc b.xMin b.xMax := by
    rcases he with rfl | rfl
    · exact Set.left_mem_uIcc
    · exact Set.right_mem_uIcc
  have hhalf : |e - b.midpoint| = |b.xMax - b.xMin| / 2 := by
    rcases he with rfl | rfl
    · rw [abs_sub_comm, midpoint_sub_xMin, abs_div, abs_two]
    · rw [xMax_sub_midpoint, abs_div, abs_two]
  refine ⟨hc, hinside.trans (Set.uIcc_subset_uIcc b.midpoint_mem hend), ?_⟩
  have hwidth := Set.abs_sub_le_of_uIcc_subset_uIcc hinside
  rwa [hhalf] at hwidth

/-- Between the midpoint and the ends whose values have the other sign than `y`. -/
structure Beyond (b : Bracket ℝ) (y x : ℝ) : Prop where
  min : Opposite y b.fMin → x ∈ Set.uIcc b.midpoint b.xMin
  max : Opposite y b.fMax → x ∈ Set.uIcc b.midpoint b.xMax

theorem midpoint_beyond (b : Bracket ℝ) (y : ℝ) : b.Beyond y b.midpoint :=
  ⟨fun _ => Set.left_mem_uIcc, fun _ => Set.left_mem_uIcc⟩

/-- Shrunk to a point that does not lie on its own side of the midpoint, a bracket is halved. -/
theorem shrink_halfOf (hb : b.Straddles) (hfx : fx ≠ 0) (hx : b.Beyond fx x) :
    (b.shrink x fx).HalfOf b := by
  have hc := hb.shrink (x := x) hfx
  unfold shrink at hc ⊢
  split at hc
  · next hsame =>
    -- the low end moves, so the value is opposite to that at the high end
    rw [if_pos hsame]
    exact halfOf_of_mem (.inr rfl) hc (hx.max hc) Set.right_mem_uIcc
  · next hother =>
    rw [if_neg hother]
    exact halfOf_of_mem (.inl rfl) hc Set.right_mem_uIcc (hx.min hc.symm)

end Bracket

/-! ## The fit of Ridders' method -/

namespace Ridder

variable {b : Bracket ℝ} {fMid fx s x : ℝ}

theorem scale_pos (hb : b.Straddles) (hs : scale b fMid = .ok s) : 0 < s := by
  have hprod : b.fMin * b.fMax < 0 := opposite_iff_mul_neg.1 hb
  rw [scale_eq_ok hs]
  exact Real.sqrt_pos.2 (by nlinarith)

/-- The fitted point lies between the midpoint and an end with the other sign. -/
theorem fitted_beyond (hb : b.Straddles) (hs : scale b fMid = .ok s)
    (h : fitted b b.midpoint fMid s = .ok x) : b.Beyond fMid x := by
  obtain ⟨t, ht, hsign, hx⟩ := fitted_share hb hs h
  obtain ⟨hlow, hhigh⟩ := abs_le.1 ht
  constructor
  · intro hopposite
    have hpos := hb.symm.mul_sub_pos hopposite
    have hback : t ≤ 0 := by nlinarith
    have hx' : x = b.midpoint + (b.xMin - b.midpoint) * -t := by
      rw [hx, ← neg_sub b.midpoint b.xMin, b.midpoint_sub_xMin, b.xMax_sub_midpoint]
      ring
    rw [hx']
    exact add_mul_mem_uIcc _ _ (by linarith) (by linarith)
  · intro hopposite
    have hpos := hb.mul_sub_pos hopposite
    rw [hx]
    exact add_mul_mem_uIcc _ _ (nonneg_of_mul_nonneg_left hsign hpos) hhigh

/-- A value that does not give its sign to another shares it. -/
theorem same_sign_of_copySign {y z : ℝ} (hy : y ≠ 0) (hz : z ≠ 0)
    (h : (Scalar.copySign y z == y) = true) : ¬Opposite y z := by
  rw [opposite_iff hy hz, not_not]
  rw [Scalar.real_beq, decide_eq_true_iff, Scalar.real_copySign] at h
  split at h
  · next hneg =>
    have hy' : y < 0 := lt_of_le_of_ne (by linarith [abs_nonneg y]) hy
    exact iff_of_true hy' hneg
  · next hpos => exact iff_of_false (by linarith [abs_nonneg y]) hpos

/-- Whichever pair is kept, it is no further apart than the midpoint and an end. -/
theorem narrow_halfOf (hb : b.Straddles) (hmid : fMid ≠ 0) (hfx : fx ≠ 0) (hx : b.Beyond fMid x) :
    (narrow b b.midpoint fMid x fx).HalfOf b := by
  have hc : (narrow b b.midpoint fMid x fx).Straddles := narrow_straddles hb hmid hfx
  unfold narrow at hc ⊢
  split at hc
  · next hcrossed =>
    rw [if_pos hcrossed]
    rcases hb.or hmid with hmin | hmax
    · exact Bracket.halfOf_of_mem (.inl rfl) hc Set.left_mem_uIcc (hx.min hmin)
    · exact Bracket.halfOf_of_mem (.inr rfl) hc Set.left_mem_uIcc (hx.max hmax)
  · next hkept =>
    rw [if_neg hkept]
    rw [Bool.not_eq_true', Bool.not_eq_false] at hkept
    have hsame := same_sign_of_copySign hmid hfx hkept
    rw [opposite_iff hmid hfx, not_not] at hsame
    -- the sample has the sign of the midpoint, so it lies beyond on account of its own sign too
    refine Bracket.shrink_halfOf hb hfx ⟨fun h => hx.min ?_, fun h => hx.max ?_⟩
    · have hmin := hb.ne_zero.1
      rw [opposite_iff hfx hmin] at h
      rwa [opposite_iff hmid hmin, hsame]
    · have hmax := hb.ne_zero.2
      rw [opposite_iff hfx hmax] at h
      rwa [opposite_iff hmid hmax, hsame]

theorem narrow_hasEnd (b : Bracket ℝ) (mid fMid x fx : ℝ) : (narrow b mid fMid x fx).HasEnd x fx := by
  unfold narrow
  split
  · exact .inr ⟨rfl, rfl⟩
  · exact b.shrink_hasEnd x fx

end Ridder

/-! ## Passes -/

/-- A bracket that is too small to go on with, while both ends miss the accuracy. -/
structure Bracket.Collapsed (accuracy : ℝ) (b : Bracket ℝ) : Prop where
  straddles : b.Straddles
  narrow : ∃ x ∈ Set.uIcc b.xMin b.xMax, b.width ≤ Scalar.resolution x
  misses : accuracy < |b.fMin| ∧ accuracy < |b.fMax|

/-- A root was found, or the accuracy was not reached and the reported bracket has collapsed. -/
def Result.Collapses (accuracy : ℝ) (r : Result ℝ) : Prop :=
  r.status = .converged ∨
    r.status = .accuracyNotReached ∧ ∃ b, r.bracket = some b ∧ b.Collapsed accuracy

/-- From `s` to `t` the bracket was halved at so many calls, and it is not too small to go on with. -/
structure Session.Halved (calls : ℕ) (s t : Session ℝ) : Prop where
  bracket : t.bracket.HalfOf s.bracket
  wide : ∃ x, Scalar.resolution x < t.bracket.width
  charged : t.evaluations = s.evaluations + calls

/-- A pass halves the bracket, or stops with a root or with a collapsed bracket. It fails only if the
objective does. -/
abbrev Halves {σ : Type} (f : Objective ℝ) (accuracy : ℝ) (calls : ℕ) (s : Session ℝ)
    (m : Solve ℝ (Pass σ (Result ℝ))) : Prop :=
  m.Ensures s (fun p t => p.Keeps (fun _ => s.Halved calls t) (Result.Collapses accuracy))
    fun fault _ => ∃ x, f.value x = .error fault

section Passes

variable {f : Objective ℝ} {accuracy x fx : ℝ} {s : Session ℝ}

theorem collapsed_collapses {method : String} (hs : s.bracket.Straddles) (hx : s.bracket.HasEnd x fx)
    (hsmall : s.bracket.width ≤ Scalar.resolution x) :
    (s.collapsed x fx method accuracy).Collapses accuracy := by
  simp only [Session.collapsed]
  split
  · exact .inl rfl
  · next hmiss =>
    have hnumber (y : ℝ) : Scalar.isNaN y = false := by rw [Scalar.isNaN_eq_false_iff]
    have hmisses := Bracket.best_misses ⟨hnumber _, hnumber _⟩ (hnumber _) hmiss
    have hmem : x ∈ Set.uIcc s.bracket.xMin s.bracket.xMax := by
      rcases hx with ⟨rfl, -⟩ | ⟨rfl, -⟩
      · exact Set.left_mem_uIcc
      · exact Set.right_mem_uIcc
    exact .inr ⟨rfl, s.bracket, rfl, hs, ⟨x, hmem, hsmall⟩, not_le.1 hmisses.min, not_le.1 hmisses.max⟩

theorem Bisection.pass_halves (haccuracy : 0 ≤ accuracy) (hs : s.bracket.Straddles) (u : Unit) :
    Halves f accuracy 1 s (pass f accuracy u) := by
  rw [Halves, ensures_pass]
  refine ⟨fun fMid _ => ⟨fun _ => .inl rfl, fun hmiss => ?_⟩, fun fault hfault => ⟨_, hfault⟩⟩
  have hhalf := Bracket.shrink_halfOf hs (ne_zero_of_missed haccuracy hmiss) (s.bracket.midpoint_beyond _)
  constructor
  · intro hsmall
    exact collapsed_collapses hhalf.straddles (s.bracket.shrink_hasEnd _ _) hsmall
  · intro hwide
    exact ⟨hhalf, ⟨_, not_le.1 hwide⟩, rfl⟩

theorem Ridder.pass_halves (haccuracy : 0 ≤ accuracy) (hs : s.bracket.Straddles) (u : Unit) :
    Halves f accuracy 2 s (pass f accuracy u) := by
  rw [Halves, ensures_pass]
  refine ⟨fun fMid _ => ⟨fun _ => .inl rfl, fun hmid => ?_⟩, fun fault hfault => ⟨_, hfault⟩⟩
  have hmid := ne_zero_of_missed haccuracy hmid
  apply holds_of_total (scale_total hs fMid)
  intro scale hscale
  have hne : ¬(scale == 0.0) = true := mt Scalar.real_beq_zero.1 (scale_pos hs hscale).ne'
  refine ⟨fun h => absurd h hne, fun _ => ?_⟩
  apply holds_of_total (fitted_total _ _ _ hne)
  intro x hx
  refine ⟨fun fx _ => ⟨fun _ => .inl rfl, fun hmiss => ?_⟩, fun fault hfault => ⟨_, hfault⟩⟩
  have hhalf := narrow_halfOf hs hmid (ne_zero_of_missed haccuracy hmiss) (fitted_beyond hs hscale hx)
  constructor
  · intro hsmall
    exact collapsed_collapses hhalf.straddles (narrow_hasEnd _ _ _ _ _) hsmall
  · intro hwide
    exact ⟨hhalf, ⟨_, not_le.1 hwide⟩, add_assoc s.evaluations 1 1⟩

end Passes

/-! ## Runs -/

/-- The bracket after so many halvings, each at so many calls; it takes more to come below the
resolution. -/
structure Session.HalvedTimes (calls : ℕ) (s : Session ℝ) (n : ℕ) (t : Session ℝ) : Prop where
  straddles : t.bracket.Straddles
  width : t.bracket.width ≤ s.bracket.width / 2 ^ n
  charged : t.evaluations = s.evaluations + calls * n
  few : n < halvings s.bracket.width

namespace Session.HalvedTimes

variable {calls n : ℕ} {s t u : Session ℝ}

theorem none (hs : s.bracket.Straddles) : s.HalvedTimes calls 0 s :=
  ⟨hs, by simp, by simp, one_le_halvings _⟩

theorem next (h : s.HalvedTimes calls n t) (hu : t.Halved calls u) : s.HalvedTimes calls (n + 1) u := by
  obtain ⟨x, hx⟩ := hu.wide
  have hwidth : u.bracket.width ≤ s.bracket.width / 2 ^ (n + 1) := halved h.width hu.bracket.half
  refine ⟨hu.bracket.straddles, hwidth, ?_, lt_halvings hwidth hx⟩
  rw [hu.charged, h.charged]
  push_cast
  ring

/-- A budget for all the halvings is not spent before. -/
theorem hasBudget (h : s.HalvedTimes calls n t) {limit : ℕ}
    (hlimit : s.evaluations + calls * halvings s.bracket.width ≤ limit) : t.hasBudget limit = true := by
  have hcalls : (calls : Int) * n ≤ calls * halvings s.bracket.width := by
    exact_mod_cast Nat.mul_le_mul_left calls h.few.le
  simp only [Session.hasBudget, decide_eq_true_eq, h.charged]
  linarith

end Session.HalvedTimes

section Runs

variable {f : Objective ℝ} {accuracy : ℝ} {s : Session ℝ} {limit : ℕ} {r : Refiner ℝ}

/-- A result is right for the budget: only one too small for all the halvings is spent. -/
def Result.HalvesWithin (calls : ℕ) (accuracy : ℝ) (limit : ℕ) (s : Session ℝ) (r : Result ℝ) : Prop :=
  (limit < s.evaluations + calls * halvings s.bracket.width ∧ r.status = .maxEvaluationsExceeded) ∨
    r.Collapses accuracy

/-- A loop whose passes halve keeps halving, and spends its budget only if that is too small. -/
theorem whileBudget_halves {J : Result ℝ → Session ℝ → Prop} {calls : ℕ} {method : String}
    {pass : Unit → Solve ℝ (Pass Unit (Result ℝ))} (hadvances : ∀ u, (pass u).Advances J)
    (hpass : ∀ t u, t.bracket.Straddles → Halves f accuracy calls t (pass u))
    (hs : s.bracket.Straddles) :
    (whileBudget limit pass (exhausted limit method) ()).Ensures s
      (fun r _ => r.HalvesWithin calls accuracy limit s) fun fault _ => ∃ x, f.value x = .error fault := by
  apply ensures_whileBudget_of_advances (I := fun _ t => ∃ n, s.HalvedTimes calls n t) hadvances
  · rintro u t ⟨n, ht⟩ _
    refine (hpass t u ht.straddles).mono (fun p v hp => ?_) fun _ _ h => h
    cases p with
    | again => exact ⟨n + 1, ht.next hp⟩
    | stop r => exact .inr hp
  · rintro u t ⟨n, ht⟩ hspent
    exact .inl ⟨not_le.1 fun hlimit => hspent (ht.hasBudget hlimit), rfl⟩
  · exact ⟨0, .none hs⟩

namespace Refiner

/-- The methods that halve in every pass. -/
def IsHalving (r : Refiner ℝ) : Prop := r.method = .bisection ∨ r.method = .ridder

theorem refine_halves (hr : r.IsHalving) (haccuracy : 0 ≤ accuracy) (hs : s.bracket.Straddles) :
    (r.refine f limit accuracy).Ensures s
      (fun result _ => result.HalvesWithin r.method.callsPerPass accuracy limit s)
      fun fault _ => ∃ x, f.value x = .error fault := by
  obtain ⟨method, supplied⟩ := r
  obtain rfl | rfl : method = .bisection ∨ method = .ridder := hr
  · exact whileBudget_halves (Bisection.pass_advances f accuracy)
      (fun _ u ht => Bisection.pass_halves haccuracy ht u) hs
  · exact whileBudget_halves (Ridder.pass_advances f accuracy)
      (fun _ u ht => Ridder.pass_halves haccuracy ht u) hs

theorem Enters.pass_halves {l : Loop ℝ} (hl : r.Enters f accuracy s l) (hr : r.IsHalving)
    (haccuracy : 0 ≤ accuracy) (state : l.State) {t : Session ℝ} (ht : t.bracket.Straddles) :
    Halves f accuracy r.method.callsPerPass t (l.pass state) := by
  obtain ⟨method, supplied⟩ := r
  obtain rfl | rfl : method = .bisection ∨ method = .ridder := hr
  · cases hl
    exact Bisection.pass_halves haccuracy ht state
  · cases hl
    exact Ridder.pass_halves haccuracy ht state

end Refiner

end Runs

/-- Over the reals, bisection and Ridders' method keep a sign change and halve the bracket in every pass
that does not stop. So they do not spend a budget that allows for the calls of all the halvings, and where
they cannot reach the accuracy they report a sign change that is too small to go on with, both of whose
ends miss the accuracy. They fail only if the objective does. -/
theorem halving_settles_within_budget (r : Refiner ℝ) (f : Objective ℝ) (accuracy : ℝ) (s : Session ℝ)
    (limit : ℕ) (hr : r.method = .bisection ∨ r.method = .ridder) (haccuracy : 0 ≤ accuracy)
    (hs : s.bracket.Straddles) :
    (∀ l, r.Enters f accuracy s l → ∀ state t, l.Head limit state t → ∀ state' u,
      (l.pass state).exec t = (.ok (.again state'), u) → u.bracket.HalfOf t.bracket) ∧
    (∀ result, ((r.refine f limit accuracy).exec s).1 = .ok result →
      (s.evaluations + r.method.callsPerPass * halvings s.bracket.width ≤ limit →
        result.status ≠ .maxEvaluationsExceeded) ∧
      (result.status = .accuracyNotReached →
        ∃ b, result.bracket = some b ∧ b.Straddles ∧
          (∃ x ∈ Set.uIcc b.xMin b.xMax, b.width ≤ Scalar.resolution x) ∧
          accuracy < |b.fMin| ∧ accuracy < |b.fMax|)) ∧
    ((∀ x, ∃ fx, f.value x = .ok fx) → ∃ result, ((r.refine f limit accuracy).exec s).1 = .ok result) := by
  have hrefine : (r.refine f limit accuracy).Ensures s
      (fun result _ => result.HalvesWithin r.method.callsPerPass accuracy limit s)
      fun fault _ => ∃ x, f.value x = .error fault := r.refine_halves hr haccuracy hs
  refine ⟨fun l hl state t ht state' u hagain => ?_, fun result hresult => ?_, fun hf => ?_⟩
  · have haccuracy' : (0.0 : ℝ) ≤ accuracy := by rwa [Scalar.real_zero]
    have hbrent : r.method ≠ .brent := by rcases hr with h | h <;> simp [h]
    have hstraddles := r.head_straddles hl hbrent f.givesNumbers haccuracy' hs ht
    exact ((hl.pass_halves hr haccuracy state hstraddles).value hagain).bracket
  · rcases hrefine.answer hresult with ⟨hspent, hstatus⟩ | hstatus | ⟨hstatus, b, hb, hcollapsed⟩
    · simp [hstatus, hspent]
    · simp [hstatus]
    · refine ⟨by simp [hstatus], fun _ => ?_⟩
      exact ⟨b, hb, hcollapsed.straddles, hcollapsed.narrow, hcollapsed.misses⟩
  · have hreturns : (r.refine f limit accuracy).Ensures s
        (fun result _ => result.HalvesWithin r.method.callsPerPass accuracy limit s) fun _ _ => False := by
      refine hrefine.mono (fun _ _ h => h) ?_
      rintro fault _ ⟨x, hfault⟩
      obtain ⟨fx, hfx⟩ := hf x
      cases hfx.symm.trans hfault
    obtain ⟨result, t, hexec, -⟩ := hreturns.returns
    exact ⟨result, congrArg Prod.fst hexec⟩

/-- Ridders' method at a jump at one, between ends at zero and four. -/
theorem halving_settles_at_jump :
    let r : Refiner ℝ := ⟨.ridder, none⟩
    let f : Objective ℝ := .ofTotal fun x => if x < 1 then -1 else 2
    let s : Session ℝ := { root := 3, bracket := ⟨0, 4, -1, 2⟩, evaluations := 2 }
    ∃ result, ((r.refine f 112 1e-9).exec s).1 = .ok result ∧
      result.status ≠ .maxEvaluationsExceeded ∧
      (result.status = .accuracyNotReached →
        ∃ b, result.bracket = some b ∧ b.Straddles ∧
          (∃ x ∈ Set.uIcc b.xMin b.xMax, b.width ≤ Scalar.resolution x) ∧
          1e-9 < |b.fMin| ∧ 1e-9 < |b.fMax|) := by
  intro r f s
  have hstraddles : s.bracket.Straddles := .inl ⟨by norm_num [s], by norm_num [s]⟩
  obtain ⟨-, hresults, hreturns⟩ :=
    halving_settles_within_budget r f 1e-9 s 112 (.inr rfl) (by norm_num) hstraddles
  obtain ⟨result, hresult⟩ := hreturns fun x => ⟨_, rfl⟩
  obtain ⟨hbudget, hreport⟩ := hresults result hresult
  refine ⟨result, hresult, hbudget ?_, hreport⟩
  have hwidth : s.bracket.width = 4 := by norm_num [s, Bracket.width]
  have hfew : halvings 4 ≤ 55 :=
    halvings_le (by norm_num) (by norm_num) (by norm_num [Scalar.real_epsilon])
  rw [hwidth]
  show (2 : Int) + (2 : ℕ) * (halvings 4 : ℕ) ≤ (112 : ℕ)
  omega

end RootSearch
