import Mathlib
import RootSearch.Proofs.Accounting
import RootSearch.Proofs.Bounds
import RootSearch.Proofs.Endings
import RootSearch.Proofs.Progress
import RootSearch.Proofs.Reals
/-!
# The search finds the root of a monotone objective

Over the reals and for a strictly monotone objective with a root within the bounds, the smaller value is
at the end that is nearer to the root. So the search grows its bracket towards the root, by the same
factor every time unless a bound stops it, and no bound does before the root is inside. How many
expansions that takes depends on the first width and on the distance of the root from the guess.
-/

namespace RootSearch

open Solve

/-! ## Enforced bounds -/

namespace Settings

/-- The points that respect both bounds. -/
def domain (s : Settings ℝ) : Set ℝ :=
  {x | (∀ low ∈ s.lowBound, low ≤ x) ∧ ∀ hi ∈ s.hiBound, x ≤ hi}

/-- The point is strictly between the bounds. -/
structure Admits (s : Settings ℝ) (x : ℝ) : Prop where
  low : ∀ low ∈ s.lowBound, low < x
  hi : ∀ hi ∈ s.hiBound, x < hi

variable {s : Settings ℝ} {x y : ℝ}

theorem Admits.mem_domain (h : s.Admits x) : x ∈ s.domain :=
  ⟨fun low hlow => (h.low low hlow).le, fun hi hhi => (h.hi hi hhi).le⟩

theorem clamp_mem_domain (hy : y ∈ s.domain) (x : ℝ) : s.clamp x ∈ s.domain := by
  rcases s.clamp_cases x with ⟨hlow, hhi, e⟩ | ⟨-, hmem⟩ | ⟨-, hmem⟩
  · rw [e]
    exact ⟨fun low h => not_lt.1 (hlow low h), fun hi h => not_lt.1 (hhi hi h)⟩
  · exact ⟨fun low h => (Option.mem_unique h hmem).le, fun hi h => (hy.1 _ hmem).trans (hy.2 hi h)⟩
  · exact ⟨fun low h => (hy.1 low h).trans (hy.2 _ hmem), fun hi h => (Option.mem_unique hmem h).le⟩

theorem clamp_of_mem_domain (hx : x ∈ s.domain) : s.clamp x = x := by
  rcases s.clamp_cases x with ⟨-, -, e⟩ | ⟨hlt, hmem⟩ | ⟨hlt, hmem⟩
  · exact e
  · exact absurd (hx.1 _ hmem) (not_le.2 hlt)
  · exact absurd (hx.2 _ hmem) (not_le.2 hlt)

/-- From a point within the bounds a step down leads strictly down, unless the point is the lower bound. -/
theorem clamp_lt_or_eq (hy : y ∈ s.domain) (hx : x < y) :
    s.clamp x < y ∨ s.clamp x = y ∧ y ∈ s.lowBound := by
  rcases s.clamp_cases x with ⟨-, -, e⟩ | ⟨-, hmem⟩ | ⟨hlt, -⟩
  · rw [e]
    exact .inl hx
  · rcases (hy.1 _ hmem).lt_or_eq with hlt | e
    · exact .inl hlt
    · exact .inr ⟨e, e ▸ hmem⟩
  · exact .inl (hlt.trans hx)

theorem lt_clamp_or_eq (hy : y ∈ s.domain) (hx : y < x) :
    y < s.clamp x ∨ s.clamp x = y ∧ y ∈ s.hiBound := by
  rcases s.clamp_cases x with ⟨-, -, e⟩ | ⟨hlt, -⟩ | ⟨-, hmem⟩
  · rw [e]
    exact .inl hx
  · exact .inl (hx.trans hlt)
  · rcases (hy.2 _ hmem).lt_or_eq with hlt | e
    · exact .inl hlt
    · exact .inr ⟨e.symm, e ▸ hmem⟩

theorem Admits.clamp_lt (h : s.Admits y) (hx : x < y) : s.clamp x < y :=
  (clamp_lt_or_eq h.mem_domain hx).resolve_right fun hy => lt_irrefl y (h.low y hy.2)

theorem Admits.lt_clamp (h : s.Admits y) (hx : y < x) : y < s.clamp x :=
  (lt_clamp_or_eq h.mem_domain hx).resolve_right fun hy => lt_irrefl y (h.hi y hy.2)

/-- From a point within the bounds, a higher one is reached unless the upper bound is. -/
theorem clamp_of_above (hy : y ∈ s.domain) (hx : y ≤ x) :
    s.clamp x = x ∨ ∀ z ∈ s.domain, z ≤ s.clamp x := by
  rcases s.clamp_cases x with ⟨-, -, e⟩ | ⟨hlt, hmem⟩ | ⟨-, hmem⟩
  · exact .inl e
  · exact absurd (hlt.trans_le (hy.1 _ hmem)) (not_lt.2 hx)
  · exact .inr fun z hz => hz.2 _ hmem

theorem clamp_of_below (hy : y ∈ s.domain) (hx : x ≤ y) :
    s.clamp x = x ∨ ∀ z ∈ s.domain, s.clamp x ≤ z := by
  rcases s.clamp_cases x with ⟨-, -, e⟩ | ⟨-, hmem⟩ | ⟨hlt, hmem⟩
  · exact .inl e
  · exact .inr fun z hz => hz.1 _ hmem
  · exact absurd ((hy.2 _ hmem).trans_lt hlt) (not_lt.2 hx)

end Settings

/-! ## Objectives that lead to their root -/

/-- Nearer to the root on its side the values are smaller and of one sign, and across it they are not of
one sign. -/
structure Homes (f : ℝ → ℝ) (S : Set ℝ) (root : ℝ) : Prop where
  nearer : ∀ x ∈ S, ∀ y ∈ S, x < y ∧ y < root ∨ root < y ∧ y < x → 0 < f x * f y ∧ |f y| < |f x|
  across : ∀ x ∈ S, ∀ y ∈ S, x ≤ root → root ≤ y → f x * f y ≤ 0

variable {f : ℝ → ℝ} {S : Set ℝ} {root guess w : ℝ} {n k : ℕ} {b : Bracket ℝ}

theorem homes_of_strictMonoOn (hf : StrictMonoOn f S) (hroot : root ∈ S) (hzero : f root = 0) :
    Homes f S root := by
  refine ⟨fun x hx y hy hxy => ?_, fun x hx y hy hlow hhigh => ?_⟩
  · rcases hxy with ⟨hxy, hyr⟩ | ⟨hry, hyx⟩
    · have hy0 : f y < 0 := hzero ▸ hf hy hroot hyr
      have hlt : f x < f y := hf hx hy hxy
      have hx0 : f x < 0 := hlt.trans hy0
      rw [abs_of_neg hx0, abs_of_neg hy0]
      exact ⟨mul_pos_of_neg_of_neg hx0 hy0, neg_lt_neg hlt⟩
    · have hy0 : 0 < f y := hzero ▸ hf hroot hy hry
      have hlt : f y < f x := hf hy hx hyx
      have hx0 : 0 < f x := hy0.trans hlt
      rw [abs_of_pos hx0, abs_of_pos hy0]
      exact ⟨mul_pos hx0 hy0, hlt⟩
  · have hx0 : f x ≤ 0 := hzero ▸ hf.monotoneOn hx hroot hlow
    have hy0 : 0 ≤ f y := hzero ▸ hf.monotoneOn hroot hy hhigh
    exact mul_nonpos_of_nonpos_of_nonneg hx0 hy0

theorem homes_of_strictAntiOn (hf : StrictAntiOn f S) (hroot : root ∈ S) (hzero : f root = 0) :
    Homes f S root := by
  have h : Homes (-f) S root := homes_of_strictMonoOn hf.neg hroot (by simp [hzero])
  refine ⟨fun x hx y hy hxy => ?_, fun x hx y hy hlow hhigh => ?_⟩
  · simpa using h.nearer x hx y hy hxy
  · simpa using h.across x hx y hy hlow hhigh

/-! ## Brackets on their way to the root -/

/-- The root is between the ends. -/
def Bracket.Covers (b : Bracket ℝ) (root : ℝ) : Prop := b.xMin ≤ root ∧ root ≤ b.xMax

/-- The root is beyond an end after `n` expansions of a bracket of width `w` about the guess, and the
other end is where it was. -/
structure Falls (root guess w : ℝ) (n : ℕ) (b : Bracket ℝ) : Prop where
  width : b.xMax - b.xMin = w * 2.6 ^ n
  short : b.xMax < root ∧ guess - w ≤ b.xMin ∨ root < b.xMin ∧ b.xMax ≤ guess + w

/-- So the root is further away than that many expansions reach. -/
theorem Falls.lt_distance (h : Falls root guess w n b) : w * (2.6 ^ n - 1) < |root - guess| := by
  have hwidth := h.width
  rcases h.short with ⟨hroot, hguess⟩ | ⟨hroot, hguess⟩
  · exact lt_abs.2 (.inl (by linarith))
  · exact lt_abs.2 (.inr (by linarith))

theorem Falls.width_pos (h : Falls root guess w n b) (hw : 0 < w) : b.xMin < b.xMax := by
  have hpos : 0 < w * 2.6 ^ n := by positivity
  have hwidth := h.width
  linarith

variable {settings : Settings ℝ}

/-- The ends are in the domain, with the values of the objective there. -/
abbrev Bracket.Traces (f : ℝ → ℝ) (S : Set ℝ) (b : Bracket ℝ) : Prop :=
  b.All fun x fx => x ∈ S ∧ fx = f x

/-- The values at the ends show no sign change, and the bracket grows on the side of the root. -/
theorem Falls.side (h : Falls root guess w n b) (hw : 0 < w) (hf : Homes f S root)
    (hb : b.Traces f S) (tieLow : Bool) :
    0 < b.fMin * b.fMax ∧
      (b.xMax < root ∧ guess - w ≤ b.xMin ∧ Search.side b tieLow = .high ∨
        root < b.xMin ∧ b.xMax ≤ guess + w ∧ Search.side b tieLow = .low) := by
  have hlt := h.width_pos hw
  obtain ⟨⟨hmin, efMin⟩, hmax, efMax⟩ := hb
  unfold Search.side
  rw [Scalar.real_abs, Scalar.real_abs, efMin, efMax]
  -- the end nearer to the root has the strictly smaller value, so there is no tie
  rcases h.short with ⟨hroot, hguess⟩ | ⟨hroot, hguess⟩
  · obtain ⟨hpos, hsmaller⟩ := hf.nearer _ hmin _ hmax (.inl ⟨hlt, hroot⟩)
    refine ⟨hpos, .inl ⟨hroot, hguess, ?_⟩⟩
    rw [if_neg hsmaller.not_gt, if_pos hsmaller]
  · obtain ⟨hpos, hsmaller⟩ := hf.nearer _ hmax _ hmin (.inr ⟨hroot, hlt⟩)
    refine ⟨mul_comm (f b.xMin) _ ▸ hpos, .inr ⟨hroot, hguess, ?_⟩⟩
    rw [if_pos hsmaller]

/-- An expansion costs one call and either takes the root in or grows the bracket by the factor. -/
theorem Falls.grown (h : Falls root guess w n b) (hw : 0 < w) (hf : Homes f settings.domain root)
    (hroot : root ∈ settings.domain) (hb : b.Traces f settings.domain) (tieLow : Bool) (fx : ℝ) :
    let side := Search.side b tieLow
    let b' := Search.grown b side (Search.reach settings b side) fx
    Search.price side = 1 ∧ (b'.Covers root ∨ Falls root guess w (n + 1) b') := by
  have hlt := h.width_pos hw
  have hwidth := h.width
  have hgrowth : (Search.growth : ℝ) = 1.6 := rfl
  obtain ⟨-, ⟨hbeyond, hguess, hside⟩ | ⟨hbeyond, hguess, hside⟩⟩ := h.side hw hf hb tieLow
  · rw [hside]
    refine ⟨rfl, ?_⟩
    show Bracket.Covers ⟨b.xMin, Search.higher settings b, b.fMin, fx⟩ root ∨
      Falls root guess w (n + 1) ⟨b.xMin, Search.higher settings b, b.fMin, fx⟩
    by_cases hreached : root ≤ Search.higher settings b
    · exact .inl ⟨(hlt.trans hbeyond).le, hreached⟩
    · rw [not_le] at hreached
      have htarget : b.xMax ≤ b.xMax + Search.growth * (b.xMax - b.xMin) := by
        rw [hgrowth]
        linarith
      -- a bound that stopped it would be short of the root, which respects all bounds
      have hclamp := (Settings.clamp_of_above hb.max.1 htarget).resolve_right fun h =>
        hreached.not_ge (h root hroot)
      refine .inr ⟨?_, .inl ⟨hreached, hguess⟩⟩
      show Search.higher settings b - b.xMin = w * 2.6 ^ (n + 1)
      rw [Search.higher, hclamp, hgrowth, pow_succ]
      linarith
  · rw [hside]
    refine ⟨rfl, ?_⟩
    show Bracket.Covers ⟨Search.lower settings b, b.xMax, fx, b.fMax⟩ root ∨
      Falls root guess w (n + 1) ⟨Search.lower settings b, b.xMax, fx, b.fMax⟩
    by_cases hreached : Search.lower settings b ≤ root
    · exact .inl ⟨hreached, (hbeyond.trans hlt).le⟩
    · rw [not_le] at hreached
      have htarget : b.xMin + Search.growth * (b.xMin - b.xMax) ≤ b.xMin := by
        rw [hgrowth]
        linarith
      have hclamp := (Settings.clamp_of_below hb.min.1 htarget).resolve_right fun h =>
        hreached.not_ge (h root hroot)
      refine .inr ⟨?_, .inr ⟨hreached, hguess⟩⟩
      show b.xMax - Search.lower settings b = w * 2.6 ^ (n + 1)
      rw [Search.lower, hclamp, hgrowth, pow_succ]
      linarith

/-- The root is in a bracket from the guess, or beyond one of its ends. -/
theorem Bracket.covers_or_falls (hlt : b.xMin < b.xMax) (hguess : guess = b.xMin ∨ guess = b.xMax)
    (root : ℝ) : b.Covers root ∨ Falls root guess b.width 0 b := by
  have hwidth : b.width = b.xMax - b.xMin := abs_of_pos (sub_pos.2 hlt)
  have hfirst : b.xMax - b.xMin = b.width * 2.6 ^ 0 := by rw [hwidth, pow_zero, mul_one]
  have hlow : guess - b.width ≤ b.xMin := by
    rw [hwidth]
    rcases hguess with rfl | rfl <;> linarith
  have hhigh : b.xMax ≤ guess + b.width := by
    rw [hwidth]
    rcases hguess with rfl | rfl <;> linarith
  rcases lt_or_ge b.xMax root with habove | hle
  · exact .inr ⟨hfirst, .inl ⟨habove, hlow⟩⟩
  · rcases lt_or_ge root b.xMin with hbelow | hge
    · exact .inr ⟨hfirst, .inr ⟨hbelow, hhigh⟩⟩
    · exact .inl ⟨hge, hle⟩

/-- A step from a guess strictly between the bounds leads away from it, and the first bracket lies
between the two points. -/
theorem opened_ends (hguess : settings.Admits guess) {step : ℝ} (hstep : 0 < step) (fx fx' : ℝ) :
    let b := Search.opened guess fx (Search.beside settings guess fx step) fx'
    b.xMin < b.xMax ∧ (guess = b.xMin ∨ guess = b.xMax) := by
  unfold Search.opened Search.beside
  by_cases hfx : 0.0 < fx
  · rw [if_pos hfx, if_pos hfx]
    exact ⟨hguess.clamp_lt (sub_lt_self guess hstep), .inr rfl⟩
  · rw [if_neg hfx, if_neg hfx]
    exact ⟨hguess.lt_clamp (lt_add_of_pos_right guess hstep), .inl rfl⟩

/-! ## The search -/

/-- An objective that has a value everywhere. -/
def Objective.ofReal (f : ℝ → ℝ) (slope : Option (Slope ℝ)) : Objective ℝ := ⟨fun x => .ok (f x), slope⟩

namespace Search

/-- The search found a root or a bracket to refine. -/
def Outcome.Found {α : Type} : Outcome α → Prop
  | .answered result => result.status = .converged
  | .bracketed => True

/-- At the head of the search, after at most `k` expansions: the root is inside, or it is not yet. -/
structure Homing (f : ℝ → ℝ) (S : Set ℝ) (root guess w : ℝ) (k : ℕ) (t : Session ℝ) : Prop where
  traces : t.bracket.Traces f S
  charged : ∃ n ≤ k, t.evaluations = 2 + n ∧
    (t.bracket.Covers root ∨ Falls root guess w n t.bracket)

variable {slope : Option (Slope ℝ)} {accuracy step : ℝ} {method : String} {t : Session ℝ}

theorem pass_homing (hw : 0 < w) (hf : Homes f settings.domain root) (hroot : root ∈ settings.domain)
    (hk : |root - guess| ≤ w * (2.6 ^ k - 1)) (h : Homing f settings.domain root guess w k t)
    (tieLow : Bool) :
    (pass (.ofReal f slope) settings method tieLow).Ensures t
      (fun p u => p.Keeps (fun _ => Homing f settings.domain root guess w k u) Outcome.Found)
      fun _ _ => False := by
  rw [ensures_pass]
  refine ⟨fun _ => ⟨fun _ => rfl, fun _ => ⟨fun _ => rfl, fun _ => trivial⟩⟩, fun hsign => ?_⟩
  obtain ⟨htraces, n, hn, hcharged, hcovers | hfalls⟩ := h
  · -- the sign would have changed
    refine absurd ?_ hsign
    norm_num
    rw [htraces.min.2, htraces.max.2]
    exact hf.across _ htraces.min.1 _ htraces.max.1 hcovers.1 hcovers.2
  · -- the root is still further away than `n` expansions reach, and no further than `k` do
    have hlt : n < k := by
      have hreach : w * (2.6 ^ n - 1) < w * (2.6 ^ k - 1) := hfalls.lt_distance.trans_le hk
      have hpow : (2.6 : ℝ) ^ n < 2.6 ^ k := by linarith [lt_of_mul_lt_mul_left hreach hw.le]
      exact (pow_lt_pow_iff_right₀ (by norm_num)).1 hpow
    refine ⟨fun fx hfx => ?_, fun fault hfault => nomatch hfault⟩
    obtain ⟨hprice, hgrown⟩ := hfalls.grown hw hf hroot htraces tieLow fx
    have hx : reach settings t.bracket (side t.bracket tieLow) ∈ settings.domain :=
      reach_of_clamp (Settings.clamp_mem_domain hroot) _ _
    refine ⟨grown_all htraces ⟨hx, ?_⟩ _, n + 1, hlt, ?_, hgrown⟩
    · exact (Except.ok.inj hfx).symm
    · rw [Session.expanded_evaluations, hprice, hcharged]
      push_cast
      ring

theorem aroundGuess_finds (hf : Homes f settings.domain root) (hroot : root ∈ settings.domain)
    (hguess : settings.Admits guess) (hstep : 0 < step)
    (hk : |root - guess| ≤
      ((Entry.fromGuess guess step).first (.ofReal f slope) settings).width * (2.6 ^ k - 1))
    (hbudget : 2 + k ≤ settings.maxEvaluations) :
    (aroundGuess (.ofReal f slope) settings accuracy guess step method).Ensures .start
      (fun outcome _ => outcome.Found) fun _ _ => False := by
  rw [ensures_aroundGuess]
  refine ⟨fun fx hfx => ⟨fun _ => rfl, fun _ => ⟨fun fx' hfx' => ?_, fun fault h => nomatch h⟩⟩,
    fun fault h => nomatch h⟩
  cases hfx
  cases hfx'
  let b := opened guess (f guess) (beside settings guess (f guess) step)
    (f (beside settings guess (f guess) step))
  have hk : |root - guess| ≤ b.width * (2.6 ^ k - 1) := hk
  obtain ⟨hlt, hends⟩ := opened_ends hguess hstep (f guess)
    (f (beside settings guess (f guess) step))
  have hw : 0 < b.width := abs_pos.2 (sub_pos.2 hlt).ne'
  have hfirst : Homing f settings.domain root guess b.width k
      (((Session.start.visited guess).sampled (beside settings guess (f guess) step)).narrowed b) := by
    refine ⟨opened_all ⟨hguess.mem_domain, rfl⟩ ⟨Settings.clamp_mem_domain hroot _, rfl⟩, 0, k.zero_le,
      rfl, ?_⟩
    exact Bracket.covers_or_falls hlt hends root
  refine ensures_whileBudget_of_advances (I := fun _ u => Homing f settings.domain root guess b.width k u)
    (pass_advances _ settings method) (fun tieLow u hu _ => pass_homing hw hf hroot hk hu tieLow)
    (fun _ u hu hspent => ?_) hfirst
  -- at most `k` expansions were charged, so the budget is not spent yet
  obtain ⟨-, n, hn, hcharged, -⟩ := hu
  refine absurd ?_ hspent
  simp only [Session.hasBudget, decide_eq_true_eq]
  omega

end Search

/-- Some number of expansions reaches any distance. -/
theorem exists_isLeast_expansions {w : ℝ} (hw : 0 < w) (distance : ℝ) :
    ∃ k, IsLeast {k : ℕ | distance ≤ w * (2.6 ^ k - 1)} k := by
  obtain ⟨n, hn⟩ := pow_unbounded_of_one_lt (distance / w + 1) (by norm_num : (1 : ℝ) < 2.6)
  have hmem : n ∈ {k : ℕ | distance ≤ w * (2.6 ^ k - 1)} := by
    have hle : distance / w ≤ 2.6 ^ n - 1 := by linarith
    rwa [div_le_iff₀' hw] at hle
  exact ⟨_, Nat.sInf_mem ⟨n, hmem⟩, fun _ h => Nat.sInf_le h⟩

/-- Over the reals, from a guess strictly between the bounds and with a step above zero, the search for
a root of a strictly monotone objective that has one within the bounds finds it: with the least number
`k` of expansions that would reach the distance of the root from the guess, if each grew the first
bracket by the factor, a budget of `2 + k` is enough. -/
theorem monotone_search_succeeds (strategy : Brentq.Strategy ℝ) (r : Refiner ℝ) (f : ℝ → ℝ)
    (slope : Option (Slope ℝ)) (settings : Settings ℝ) (accuracy guess step root : ℝ)
    (hf : StrictMonoOn f settings.domain ∨ StrictAntiOn f settings.domain)
    (hroot : root ∈ settings.domain) (hzero : f root = 0) (hguess : settings.Admits guess)
    (hstep : 0 < step) :
    let objective := Objective.ofReal f slope
    let entry := Entry.fromGuess guess step
    let width := (entry.first objective settings).width
    ∃ k, IsLeast {k : ℕ | |root - guess| ≤ width * (2.6 ^ k - 1)} k ∧
      (2 + k ≤ settings.maxEvaluations →
        (∃ outcome t, (entry.search objective settings accuracy r.name).exec .start = (.ok outcome, t) ∧
          outcome.Found) ∧
        ∀ result, ((entry.solveBy strategy r objective settings accuracy).exec .start).1 = .ok result →
          result.status ≠ .bracketingFailed) := by
  intro objective entry width
  have hhomes : Homes f settings.domain root :=
    hf.elim (homes_of_strictMonoOn · hroot hzero) (homes_of_strictAntiOn · hroot hzero)
  have hwidth : 0 < width := by
    obtain ⟨hlt, -⟩ := opened_ends hguess hstep (f guess)
      (f (Search.beside settings guess (f guess) step))
    exact abs_pos.2 (sub_pos.2 hlt).ne'
  obtain ⟨k, hk⟩ := exists_isLeast_expansions hwidth |root - guess|
  refine ⟨k, hk, fun hbudget => ?_⟩
  have hfinds : (entry.search objective settings accuracy r.name).Ensures .start
      (fun outcome _ => outcome.Found) fun _ _ => False :=
    Search.aroundGuess_finds hhomes hroot hguess hstep hk.1 hbudget
  refine ⟨hfinds.returns, fun result hresult => ?_⟩
  · have hanswers : (entry.search objective settings accuracy r.name).Ensures .start
        (fun outcome _ => ∀ result, outcome = .answered result → result.status = .converged)
        fun _ _ => True := by
      refine hfinds.mono (fun outcome _ h => ?_) fun _ _ _ => trivial
      rintro result rfl
      exact h
    have hends := (entry.solveBy_of_search strategy r hanswers).answer hresult
    intro hstatus
    have hconverged := hends (by rw [Result.IsRefined, hstatus]; decide)
    rw [hstatus] at hconverged
    cases hconverged

/-- A decreasing objective that is positive at the guess: the first bracket opens away from the root, and
two expansions are enough to take it in. -/
theorem monotone_search_succeeds_downhill :
    let f : ℝ → ℝ := fun x => 3 - x
    let settings : Settings ℝ := ⟨4, some 0, some 5⟩
    let entry := Entry.fromGuess (1 : ℝ) 1
    (entry.first (Objective.ofReal f none) settings).width = 1 ∧
    (∃ outcome t, (entry.search (Objective.ofReal f none) settings 1e-9 "ridder").exec .start =
      (.ok outcome, t) ∧ outcome.Found) ∧
    ∀ result, ((entry.solveBy Brentq.strategy ⟨.ridder, none⟩ (Objective.ofReal f none) settings
      1e-9).exec .start).1 = .ok result → result.status ≠ .bracketingFailed := by
  intro f settings entry
  have hfalling : StrictAntiOn f settings.domain := fun x _ y _ hxy => sub_lt_sub_left hxy 3
  have hroot : (3 : ℝ) ∈ settings.domain := by
    simp only [Settings.domain, settings]
    norm_num
  have hguess : settings.Admits 1 := ⟨by norm_num [settings], by norm_num [settings]⟩
  have hwidth : (entry.first (Objective.ofReal f none) settings).width = 1 := by
    simp only [Entry.first, Objective.ofReal, Search.opened, Search.beside, Settings.clamp,
      Bracket.width, Scalar.real_abs, entry, f, settings]
    norm_num
  obtain ⟨k, hk, hfinds⟩ := monotone_search_succeeds Brentq.strategy ⟨.ridder, none⟩ f none settings
    1e-9 1 1 3 (.inr hfalling) hroot (by norm_num [f]) hguess one_pos
  have htwo : k ≤ 2 := by
    refine hk.2 (?_ : |(3 : ℝ) - 1| ≤ _ * (2.6 ^ 2 - 1))
    rw [hwidth]
    norm_num
  exact ⟨hwidth, hfinds (Nat.add_le_add_left htwo 2)⟩

end RootSearch
