import Mathlib
import RootSearch.Proofs.Progress
import RootSearch.Proofs.Reals
import RootSearch.Proofs.Succeeding
/-!
# The pace of a guarded method

A guarded method halves its bracket unless a better step is at hand, and takes such a step only while
the steps lose half of their length every second time. Neither can go on: below the resolution of the
numbers a refinement stops, so there are few halvings, and few steps between two of them. Together they
fit into a budget that is quadratic in the number of halvings.
-/

namespace RootSearch

open Solve

/-! ## Resolutions -/

namespace Scalar

theorem half_epsilon_le_resolution (x : ℝ) : epsilon / 2 ≤ resolution x := by
  have hx : 0 ≤ 2 * epsilon * |x| := mul_nonneg (by linarith [real_epsilon_pos]) (abs_nonneg x)
  rw [real_resolution]
  linarith

/-- Within the resolution of a point the resolutions are no less than half as large. -/
theorem half_resolution_le {x y : ℝ} (h : |x - y| ≤ resolution x) : resolution x / 2 ≤ resolution y := by
  have habs : |x| - resolution x ≤ |y| := by linarith [abs_sub_abs_le_abs_sub x y]
  have hle := mul_le_mul_of_nonneg_left habs real_epsilon_pos.le
  rw [real_resolution, real_epsilon] at hle ⊢
  rw [real_resolution, real_epsilon]
  linarith [abs_nonneg x]

end Scalar

/-! ## Halvings -/

/-- How often a width is to be halved, at least once, until it is at most half the spacing at one. -/
noncomputable def halvings (width : ℝ) : ℕ :=
  max 1 ⌈Real.logb (2 : ℕ) ((2 : ℕ) * width / Scalar.epsilon)⌉₊

theorem halvings_eq (width : ℝ) :
    halvings width = max 1 ⌈Real.logb 2 (2 * width / Scalar.epsilon)⌉₊ := by
  simp only [halvings, Nat.cast_ofNat]

theorem one_le_halvings (width : ℝ) : 1 ≤ halvings width := le_max_left _ _

section Halvings

variable {width d e x : ℝ} {n : ℕ}

theorem width_nonneg (hd : |d| ≤ width / 2 ^ n) : 0 ≤ width := by
  have h := (abs_nonneg d).trans hd
  rwa [le_div_iff₀ (by positivity), zero_mul] at h

theorem le_width (hd : |d| ≤ width / 2 ^ n) : |d| ≤ width :=
  hd.trans (div_le_self (width_nonneg hd) (one_le_pow₀ one_le_two))

theorem halved (hd : |d| ≤ width / 2 ^ n) (he : |e| ≤ |d| / 2) : |e| ≤ width / 2 ^ (n + 1) := by
  rw [pow_succ, ← div_div]
  linarith

theorem div_two_pow_halvings_le (hwidth : 0 ≤ width) :
    width / 2 ^ halvings width ≤ Scalar.epsilon / 2 := by
  have heps := Scalar.real_epsilon_pos
  rcases hwidth.eq_or_lt with rfl | hpos
  · rw [zero_div]
    exact (half_pos heps).le
  · have hlog : Real.logb 2 (2 * width / Scalar.epsilon) ≤ halvings width := by
      rw [halvings_eq]
      exact (Nat.le_ceil _).trans (Nat.cast_le.2 (le_max_right _ _))
    rw [Real.logb_le_iff_le_rpow (by norm_num) (by positivity), Real.rpow_natCast,
      div_le_iff₀ heps] at hlog
    rw [div_le_iff₀ (by positivity)]
    linarith

/-- There are no more halvings than it takes. -/
theorem halvings_le (hwidth : 0 < width) (hn : 1 ≤ n) (h : width / 2 ^ n ≤ Scalar.epsilon / 2) :
    halvings width ≤ n := by
  have heps := Scalar.real_epsilon_pos
  rw [halvings_eq]
  refine max_le hn (Nat.ceil_le.2 ?_)
  rw [Real.logb_le_iff_le_rpow (by norm_num) (by positivity), Real.rpow_natCast, div_le_iff₀ heps]
  rw [div_le_iff₀ (by positivity)] at h
  linarith

/-- What is not below the resolution has not been halved often. -/
theorem le_halvings (hd : |d| ≤ width / 2 ^ n) (hlong : Scalar.resolution x ≤ |d|) :
    n ≤ halvings width := by
  by_contra hmany
  have hwidth := width_nonneg hd
  have hpow : (2 : ℝ) ^ (halvings width + 1) ≤ 2 ^ n := pow_le_pow_right₀ one_le_two (not_le.1 hmany)
  have hshort : width / 2 ^ n ≤ width / 2 ^ (halvings width + 1) :=
    div_le_div_of_nonneg_left hwidth (by positivity) hpow
  rw [pow_succ, ← div_div] at hshort
  linarith [div_two_pow_halvings_le hwidth, Scalar.half_epsilon_le_resolution x, Scalar.real_epsilon_pos]

theorem lt_halvings (hd : |d| ≤ width / 2 ^ n) (hlong : Scalar.resolution x < |d|) :
    n < halvings width := by
  refine lt_of_le_of_ne (le_halvings hd hlong.le) fun hn => ?_
  have hfine := div_two_pow_halvings_le (width_nonneg hd)
  rw [hn] at hd
  linarith [Scalar.half_epsilon_le_resolution x]

end Halvings

/-! ## Steps that dwindle -/

/-- After `n` steps since the last halving, the last step and the one before it are no longer than
`width` halved once for every two steps. -/
structure Dwindles (width : ℝ) (n : ℕ) (lastStep step : ℝ) : Prop where
  lastStep : |lastStep| ≤ width / 2 ^ (n / 2)
  step : |step| ≤ width / 2 ^ ((n + 1) / 2)

namespace Dwindles

variable {width lastStep step d : ℝ} {n : ℕ}

theorem begin (hlast : |lastStep| ≤ width) (hstep : |step| ≤ width) : Dwindles width 0 lastStep step :=
  ⟨by simpa using hlast, by simpa using hstep⟩

theorem step_le (h : Dwindles width n lastStep step) : |step| ≤ width :=
  le_width h.step

/-- A step that is no longer than half the one before the last. -/
theorem next (h : Dwindles width n lastStep step) (hd : |d| ≤ |lastStep| / 2) :
    Dwindles width (n + 1) step d := by
  refine ⟨h.step, ?_⟩
  have hpow : (n + 1 + 1) / 2 = n / 2 + 1 := by omega
  rw [hpow]
  exact halved h.lastStep hd

/-- The last step may stand in for the one before it. -/
theorem repeated (h : Dwindles width n lastStep step) : Dwindles width n step step := by
  refine ⟨h.step.trans ?_, h.step⟩
  have hpow : (2 : ℝ) ^ (n / 2) ≤ 2 ^ ((n + 1) / 2) := pow_le_pow_right₀ one_le_two (by omega)
  exact div_le_div_of_nonneg_left (width_nonneg h.step) (by positivity) hpow

/-- While the step before the last is not below the resolution, there have been few steps. -/
theorem few (h : Dwindles width n lastStep step) {x : ℝ} (hlong : Scalar.resolution x ≤ |lastStep|) :
    n ≤ 2 * halvings width + 1 := by
  have hn := le_halvings h.lastStep hlong
  omega

end Dwindles

/-! ## Charges -/

/-- A run that began with `start` charges has halved its bracket `bisections` times, fewer than `most`
times in all, and has made `steps` passes since. -/
structure Course (most : ℕ) (start : Int) (s : Session ℝ) (bisections steps : ℕ) : Prop where
  few : bisections < most
  short : steps ≤ 2 * most + 2
  charged : s.evaluations ≤ start + 1 + bisections * (2 * most + 3) + steps

namespace Course

variable {most bisections steps limit : ℕ} {start : Int} {s t : Session ℝ}

theorem begin (hmost : 1 ≤ most) (hcharged : s.evaluations = start + 1) : Course most start s 0 0 :=
  ⟨hmost, by omega, by simp [hcharged]⟩

theorem bisected (h : Course most start s bisections steps) (hfew : bisections + 1 < most)
    (hcharged : t.evaluations = s.evaluations + 1) : Course most start t (bisections + 1) 0 := by
  refine ⟨hfew, by omega, ?_⟩
  have hs := h.charged
  have hsteps : (steps : Int) ≤ 2 * most + 2 := by exact_mod_cast h.short
  push_cast
  linarith

theorem stepped (h : Course most start s bisections steps) (hfew : steps ≤ 2 * most + 1)
    (hcharged : t.evaluations = s.evaluations + 1) : Course most start t bisections (steps + 1) := by
  refine ⟨h.few, by omega, ?_⟩
  have hs := h.charged
  push_cast
  linarith

/-- The passes that are possible fit into a budget of twice the square. -/
theorem hasBudget (h : Course most start s bisections steps)
    (hlimit : start + 2 * (most + 1) ^ 2 ≤ limit) : s.hasBudget limit = true := by
  have hbisections : (bisections : Int) + 1 ≤ most := by exact_mod_cast h.few
  have hsteps : (steps : Int) ≤ 2 * most + 2 := by exact_mod_cast h.short
  have hs := h.charged
  have hprod : ((bisections : Int) + 1) * (2 * most + 3) ≤ most * (2 * most + 3) :=
    mul_le_mul_of_nonneg_right hbisections (by positivity)
  have hmost : (most + 1 : Int) ^ 2 = most * most + 2 * most + 1 := by ring
  simp only [Session.hasBudget, decide_eq_true_eq]
  linarith

/-- A budget for more halvings is enough for fewer. -/
theorem budget_of_le {n : ℕ} (hle : most ≤ n) (hlimit : start + 2 * (n + 1) ^ 2 ≤ limit) :
    start + 2 * (most + 1) ^ 2 ≤ limit := by
  have hsq : (most + 1 : Int) ^ 2 ≤ (n + 1) ^ 2 := by gcongr
  linarith

end Course

/-! ## Loops with budget to spare -/

namespace Solve

/-- A loop that has budget whenever it comes to its head ends as its passes do. -/
theorem ensures_whileBudget_of_budget {α β σ : Type} {limit : ℕ} {pass : σ → Solve α (Pass σ β)}
    {spent : Solve α β} {J P : β → Session α → Prop} {I : σ → Session α → Prop}
    {E : Fault α → Session α → Prop} (hadvances : ∀ state, (pass state).Advances J)
    (hbudget : ∀ state s, I state s → s.hasBudget limit = true)
    (hpass : ∀ state s, I state s → (pass state).Ensures s (fun p t => p.Keeps (I · t) (P · t)) E)
    {state : σ} {s : Session α} (h : I state s) : (whileBudget limit pass spent state).Ensures s P E := by
  refine ensures_whileBudget_of_advances hadvances (fun state s hI _ => hpass state s hI) ?_ h
  intro state s hI hspent
  exact absurd (hbudget state s hI) hspent

end Solve

/-! ## Refinements that settle -/

/-- A root was found, or the bracket or a step was too small to go on. -/
def Result.IsSettled {α : Type} (r : Result α) : Prop :=
  r.status = .converged ∨ r.status = .accuracyNotReached

theorem collapsed_isSettled {α : Type} [Scalar α] {s : Session α} {x fx accuracy : α} {method : String} :
    (s.collapsed x fx method accuracy).IsSettled := by
  simp only [Session.collapsed]
  split
  · exact .inl rfl
  · exact .inr rfl

/-- A pass leaves the next head of its loop as `I` says, or stops with a settled result. -/
abbrev KeepsPace {σ : Type} (I : σ → Session ℝ → Prop) (p : Pass σ (Result ℝ)) (t : Session ℝ) : Prop :=
  p.Keeps (I · t) Result.IsSettled

section Passes

variable {σ : Type} {f : Objective ℝ} {accuracy x : ℝ} {method : String} {s : Session ℝ}
variable {I : σ → Session ℝ → Prop}

theorem visits_keepsPace {next : ℝ → Prop} (h : ∀ fx, next fx) :
    Visits f accuracy method x s (KeepsPace I) (fun _ _ => True) next := by
  apply holds_of_values
  intro fx _
  exact ⟨fun _ => .inl rfl, fun _ => h fx⟩

theorem visitsWithSlope_keepsPace {slope : Slope ℝ} {next : Newton.Point ℝ → Prop}
    (h : ∀ p : Newton.Point ℝ, p.x = x → next p) :
    VisitsWithSlope f slope accuracy method x s (KeepsPace I) (fun _ _ => True) next := by
  apply holds_of_values
  intro fx _
  apply holds_of_values
  intro dfx _
  exact ⟨fun _ => .inl rfl, fun _ => h ⟨x, fx, dfx⟩ rfl⟩

end Passes

/-- A refinement that settles unless it ends in a fault, and that does not, settles. -/
theorem settles_of_succeeds {m : Solve ℝ (Result ℝ)} {s : Session ℝ} (hsucceeds : m.Succeeds s)
    (h : m.Ensures s (fun r _ => r.IsSettled) fun _ _ => True) :
    ∃ r, (m.exec s).1 = .ok r ∧ r.IsSettled := by
  obtain ⟨r, t, hexec⟩ := hsucceeds
  exact ⟨r, congrArg Prod.fst hexec, h.value hexec⟩

end RootSearch
