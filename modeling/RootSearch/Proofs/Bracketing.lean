import Mathlib
import RootSearch.Proofs.BrentqGenuine
import RootSearch.Proofs.Divisors
import RootSearch.Proofs.SignChange
import RootSearch.Proofs.Strategy
/-!
# A search that brackets

A search by tolerance works between its best point and a counterpoint on the other side of zero. Over the
reals every point that the program's search samples lies strictly between the two: a step goes towards the
blocking point and not as far, whether it halves the way, follows a secant or extrapolates.
-/

namespace RootSearch

open Solve

/-! ## Strictly between two points -/

theorem mem_uIoo_iff {a b x : ℝ} : x ∈ Set.uIoo a b ↔ 0 < (x - a) * (b - x) := by
  rw [Set.uIoo_eq_union, Set.mem_union, Set.mem_Ioo, Set.mem_Ioo, mul_pos_iff]
  constructor
  · rintro (⟨ha, hb⟩ | ⟨hb, ha⟩)
    · exact .inl ⟨by linarith, by linarith⟩
    · exact .inr ⟨by linarith, by linarith⟩
  · rintro (⟨ha, hb⟩ | ⟨ha, hb⟩)
    · exact .inl ⟨by linarith, by linarith⟩
    · exact .inr ⟨by linarith, by linarith⟩

/-- A step in the direction of a point, and shorter than the way to it. -/
theorem add_mem_uIoo {a b d : ℝ} (htowards : 0 < d * (b - a)) (hshort : |d| < |b - a|) :
    a + d ∈ Set.uIoo a b := by
  have hd : 0 < |d| := abs_pos.2 (left_ne_zero_of_mul htowards.ne')
  have hprod : |d| * |b - a| = d * (b - a) := by rw [← abs_mul, abs_of_pos htowards]
  have hlt : |d| * |d| < |d| * |b - a| := mul_lt_mul_of_pos_left hshort hd
  rw [hprod, abs_mul_abs_self] at hlt
  rw [mem_uIoo_iff]
  linarith

namespace Brentq

/-! ## What a search assumes and keeps -/

/-- What the samples of a search, the latest first, have made of its two ends: the best point and the
counterpoint that it works between. Either may be taken for the best. A sample lies strictly between the
two, and replaces the one on its side of zero. -/
inductive Narrows (a b : ℝ × ℝ) : List (ℝ × ℝ) → (best counter : ℝ × ℝ) → Prop
  | ends : Narrows a b [b, a] b a
  | swap {samples : List (ℝ × ℝ)} {p q : ℝ × ℝ} : Narrows a b samples p q → Narrows a b samples q p
  | sample {samples : List (ℝ × ℝ)} {p q : ℝ × ℝ} {x fx : ℝ} : Narrows a b samples p q →
      x ∈ Set.uIoo p.1 q.1 → Opposite fx q.2 → Narrows a b ((x, fx) :: samples) (x, fx) q
  | zero {samples : List (ℝ × ℝ)} {p q : ℝ × ℝ} {x : ℝ} : Narrows a b samples p q →
      x ∈ Set.uIoo p.1 q.1 → Narrows a b ((x, 0) :: samples) p q

namespace Narrows

variable {a b p q : ℝ × ℝ} {samples : List (ℝ × ℝ)} {x fx : ℝ}

/-- A sample on the other side of zero makes the best point the counterpoint. -/
theorem cross (h : Narrows a b samples p q) (hx : x ∈ Set.uIoo p.1 q.1) (hfx : Opposite fx p.2) :
    Narrows a b ((x, fx) :: samples) (x, fx) p :=
  h.swap.sample (Set.uIoo_comm p.1 q.1 ▸ hx) hfx

theorem opposite (hab : Opposite a.2 b.2) (h : Narrows a b samples p q) : Opposite p.2 q.2 := by
  induction h with
  | ends => exact hab.symm
  | swap _ ih => exact ih.symm
  | sample _ _ hfx _ => exact hfx
  | zero _ _ ih => exact ih

/-- The two points stay within the ends. -/
theorem within (h : Narrows a b samples p q) : Set.uIcc p.1 q.1 ⊆ Set.uIcc a.1 b.1 := by
  induction h with
  | ends => rw [Set.uIcc_comm]
  | swap _ ih => rwa [Set.uIcc_comm]
  | sample _ hx _ ih =>
    exact (Set.uIcc_subset_uIcc_right (Set.uIoo_subset_uIcc_self hx)).trans ih
  | zero _ _ ih => exact ih

theorem mem (h : Narrows a b samples p q) : p ∈ samples ∧ q ∈ samples := by
  induction h with
  | ends => simp
  | swap _ ih => exact ih.symm
  | sample _ _ _ ih => exact ⟨List.mem_cons_self, List.mem_cons_of_mem _ ih.2⟩
  | zero _ _ ih => exact ⟨List.mem_cons_of_mem _ ih.1, List.mem_cons_of_mem _ ih.2⟩

end Narrows

/-- What a search between ends `a` and `b` has found: an end of the bracket that it is left with, or a
sample where the objective is zero. -/
structure Found.Brackets (a b : ℝ × ℝ) (found : Found ℝ) (best counter : ℝ × ℝ) : Prop where
  narrows : Narrows a b found.samples best counter
  root : found.root = best.1 ∨ found.root = counter.1 ∨ (found.root, 0) ∈ found.samples

/-- Allowed a step or more and a tolerance, the search between two points where the objective has opposite
signs samples these first and brackets. It fails only if the objective does, or if the steps are too many
to be counted. -/
def Strategy.Brackets (strategy : Strategy ℝ) : Prop :=
  ∀ (f : Objective ℝ) (a b fa fb tolerance : ℝ) (steps : ℕ) (s : Session ℝ),
    f.value a = .ok fa → f.value b = .ok fb → Opposite fa fb → 0 < tolerance → 0 < steps →
    ((strategy a b tolerance steps).run f []).Ensures s
      (fun found _ => ∃ p q, found.Brackets (a, fa) (b, fb) p q)
      fun fault _ => (∃ x, f.value x = .error fault) ∨ stepLimit < steps

/-! ## The search of the program -/

namespace Search

variable {a b : ℝ × ℝ} {samples : List (ℝ × ℝ)} {s : Search ℝ} {delta x fx : ℝ}

/-- The current point and the blocking one are what the samples have left, and the previous point is the
blocking one or lies beyond the current one and on its side of zero. -/
structure Framed (a b : ℝ × ℝ) (samples : List (ℝ × ℝ)) (s : Search ℝ) : Prop where
  narrows : Narrows a b samples (s.xCur, s.fCur) (s.xBlk, s.fBlk)
  pre : s.xPre = s.xBlk ∧ s.fPre = s.fBlk ∨
    Opposite s.fPre s.fBlk ∧ s.xCur ∈ Set.uIoo s.xPre s.xBlk

theorem Framed.order (h : s.Framed a b samples) : s.order.Framed a b samples := by
  unfold Search.order
  split
  · exact ⟨h.narrows.swap, .inl ⟨rfl, rfl⟩⟩
  · exact h

/-! ### Steps -/

/-- A secant through the blocking point leads towards it. -/
theorem secant_towards (hne : s.xCur ≠ s.xBlk) (hopposite : Opposite s.fCur s.fBlk) :
    0 < -s.fCur * (s.xCur - s.xBlk) / (s.fCur - s.fBlk) * (s.xBlk - s.xCur) := by
  have hf : 0 < s.fCur * (s.fCur - s.fBlk) := hopposite.mul_sub_pos hopposite
  have hdf : s.fCur - s.fBlk ≠ 0 := right_ne_zero_of_mul hf.ne'
  have hdx : s.xBlk - s.xCur ≠ 0 := sub_ne_zero.2 hne.symm
  have heq : -s.fCur * (s.xCur - s.xBlk) / (s.fCur - s.fBlk) * (s.xBlk - s.xCur) =
      s.fCur * (s.fCur - s.fBlk) * ((s.xBlk - s.xCur) / (s.fCur - s.fBlk)) ^ 2 := by
    field_simp
    ring
  rw [heq]
  positivity

/-- An extrapolation from two points on one side of zero, the nearer one with the smaller value, leads
towards the blocking point on the other side. -/
theorem extrapolation_towards {g h fPre fCur fBlk : ℝ} (hbetween : g * h < 0)
    (hpre : Opposite fPre fBlk) (hcur : Opposite fCur fBlk) (hbetter : |fCur| < |fPre|) :
    0 < -fCur * (fBlk * ((fBlk - fCur) / h) - fPre * ((fPre - fCur) / g)) /
      ((fBlk - fCur) / h * ((fPre - fCur) / g) * (fBlk - fPre)) * h := by
  have hg : g ≠ 0 := left_ne_zero_of_mul hbetween.ne
  have hh : h ≠ 0 := right_ne_zero_of_mul hbetween.ne
  have hprod : 0 < fCur * fPre := by
    have hsq := mul_pos_of_neg_of_neg (opposite_iff_mul_neg.1 hcur) (opposite_iff_mul_neg.1 hpre)
    have heq : fCur * fBlk * (fPre * fBlk) = fCur * fPre * fBlk ^ 2 := by ring
    rw [heq] at hsq
    exact pos_of_mul_pos_left hsq (sq_nonneg fBlk)
  have habs : |fCur| * |fPre| = fCur * fPre := by rw [← abs_mul, abs_of_pos hprod]
  have hu : 0 < fCur * (fPre - fCur) := by
    nlinarith [abs_mul_abs_self fCur, abs_pos.2 hcur.ne_zero.1]
  have hpreU : 0 < fPre * (fPre - fCur) := by
    nlinarith [abs_mul_abs_self fPre, abs_pos.2 hpre.ne_zero.1]
  have hblkV : 0 < fBlk * (fBlk - fCur) := hcur.symm.mul_sub_pos hcur.symm
  have hv : 0 < (fBlk - fCur) * (fBlk - fPre) := by
    nlinarith [opposite_iff_mul_neg.1 hcur, opposite_iff_mul_neg.1 hpre, sq_nonneg fBlk]
  have hnumerator : 0 < fPre * (fPre - fCur) * h ^ 2 - fBlk * (fBlk - fCur) * (g * h) := by
    have hsq : 0 < h ^ 2 := by positivity
    have hleft := mul_pos hpreU hsq
    have hright := mul_neg_of_pos_of_neg hblkV hbetween
    linarith
  have hu0 : fPre - fCur ≠ 0 := right_ne_zero_of_mul hu.ne'
  have hv0 : fBlk - fCur ≠ 0 := left_ne_zero_of_mul hv.ne'
  have hw0 : fBlk - fPre ≠ 0 := right_ne_zero_of_mul hv.ne'
  have heq : -fCur * (fBlk * ((fBlk - fCur) / h) - fPre * ((fPre - fCur) / g)) /
      ((fBlk - fCur) / h * ((fPre - fCur) / g) * (fBlk - fPre)) * h =
      (fPre * (fPre - fCur) * h ^ 2 - fBlk * (fBlk - fCur) * (g * h)) *
        (fCur * (fPre - fCur) * ((fBlk - fCur) * (fBlk - fPre))) /
          ((fPre - fCur) * (fBlk - fCur) * (fBlk - fPre)) ^ 2 := by
    field_simp
    ring
  rw [heq]
  positivity

/-- An interpolated step goes towards the blocking point. -/
theorem Framed.trial_towards (h : s.Framed a b samples) (hopposite : Opposite s.fCur s.fBlk)
    (hbetter : |s.fCur| < |s.fPre|) (hne : s.xCur ≠ s.xBlk) : 0 < s.trial * (s.xBlk - s.xCur) := by
  unfold Search.trial
  rcases h.pre with ⟨hx, hf⟩ | ⟨hpre, hmem⟩
  · rw [hx, hf, if_pos (by simp)]
    exact secant_towards hne hopposite
  · have hbetween : (s.xPre - s.xCur) * (s.xBlk - s.xCur) < 0 := by
      linarith [mem_uIoo_iff.1 hmem]
    have hne : s.xPre ≠ s.xBlk := by
      intro heq
      rw [heq] at hbetween
      exact hbetween.not_ge (mul_self_nonneg _)
    rw [if_neg (by simpa using hne)]
    exact extrapolation_towards hbetween hpre hopposite hbetter

/-- The step that is chosen halves the way, or is interpolated and not much longer than that. -/
theorem chooseStep_cases (s : Search ℝ) (delta : ℝ) :
    (s.chooseStep delta).sCur = s.half ∨
      |s.fCur| < |s.fPre| ∧ 2 * |s.trial| < 3 * |s.half| - delta ∧
        (s.chooseStep delta).sCur = s.trial := by
  unfold chooseStep
  dsimp only
  split
  · next hinterpolates =>
    split
    · next hshort =>
      have hbound := hshort.trans_le (Scalar.minOf_le_left _ _)
      norm_num at hbound
      exact .inr ⟨hinterpolates.2, hbound, rfl⟩
    · exact .inl rfl
  · exact .inl rfl

theorem xBlk_sub_xCur (s : Search ℝ) : s.xBlk - s.xCur = 2 * s.half := by
  unfold half
  norm_num
  ring

/-- The next sample lies strictly between the current point and the blocking one. -/
theorem Framed.target_mem (h : s.Framed a b samples) (hopposite : Opposite s.fCur s.fBlk)
    (hdelta : 0 < delta) (hwide : delta ≤ |s.half|) :
    (s.chooseStep delta).target delta s.half ∈ Set.uIoo s.xCur s.xBlk := by
  have hhalf : s.half ≠ 0 := abs_pos.1 (hdelta.trans_le hwide)
  have hne : s.xCur ≠ s.xBlk := by
    intro heq
    have hway := s.xBlk_sub_xCur
    rw [heq, sub_self] at hway
    exact hhalf (by linarith)
  have hway : |s.xBlk - s.xCur| = 2 * |s.half| := by rw [xBlk_sub_xCur, abs_mul, abs_two]
  obtain ⟨hcur, -⟩ := chooseStep_points s delta
  unfold target
  rw [hcur]
  split
  · next hlong =>
    apply add_mem_uIoo
    · rcases s.chooseStep_cases delta with hstep | ⟨hbetter, -, hstep⟩
      · rw [hstep, xBlk_sub_xCur]
        nlinarith [mul_self_pos.2 hhalf]
      · rw [hstep]
        exact h.trial_towards hopposite hbetter hne
    · rcases s.chooseStep_cases delta with hstep | ⟨-, hshort, hstep⟩
      · rw [hstep, hway]
        linarith
      · rw [hstep, hway]
        linarith [abs_nonneg s.half]
  · -- the shortest step that is taken is no longer than half the way
    split
    · next hpos =>
      rw [Scalar.real_zero] at hpos
      apply add_mem_uIoo
      · rw [xBlk_sub_xCur]
        positivity
      · rw [hway, abs_of_pos hdelta]
        linarith
    · next hneg =>
      rw [Scalar.real_zero] at hneg
      have hneg : s.half < 0 := lt_of_le_of_ne (not_lt.1 hneg) hhalf
      apply add_mem_uIoo
      · rw [xBlk_sub_xCur]
        nlinarith
      · rw [hway, abs_neg, abs_of_pos hdelta]
        linarith

/-! ### The run -/

theorem delta_pos {tolerance : ℝ} (htolerance : 0 < tolerance) (s : Search ℝ) : 0 < s.delta tolerance := by
  have hrel : (0 : ℝ) ≤ relative * |s.xCur| := by
    have heps := Scalar.real_epsilon_pos
    have habs := abs_nonneg s.xCur
    unfold relative
    norm_num
    positivity
  unfold delta
  norm_num
  linarith

/-- The signs are taken to differ exactly if they are opposite. -/
theorem signs_differ_iff {y z : ℝ} :
    (!(y == 0.0) && !(z == 0.0) && Scalar.signBit y != Scalar.signBit z) = true ↔ Opposite y z := by
  have hbit (x : ℝ) : Scalar.signBit x = decide (x < 0) := rfl
  simp only [Bool.and_eq_true, Bool.not_eq_true', Scalar.real_beq, decide_eq_false_iff_not,
    Scalar.real_zero, hbit, bne_iff_ne, ne_eq, decide_eq_decide]
  constructor
  · rintro ⟨⟨hy, hz⟩, hsigns⟩
    exact (opposite_iff hy hz).2 hsigns
  · intro h
    obtain ⟨hy, hz⟩ := h.ne_zero
    exact ⟨⟨hy, hz⟩, (opposite_iff hy hz).1 h⟩

theorem block_of_opposite (h : Opposite s.fPre s.fCur) :
    s.block = { s with xBlk := s.xPre, fBlk := s.fPre, sPre := s.xCur - s.xPre, sCur := s.xCur - s.xPre } :=
  if_pos (signs_differ_iff.2 h)

theorem block_of_not_opposite (h : ¬Opposite s.fPre s.fCur) : s.block = s :=
  if_neg (mt signs_differ_iff.1 h)

/-- Choosing the blocking point leaves the current one. -/
theorem block_xCur (s : Search ℝ) : s.block.xCur = s.xCur := by
  unfold block
  split
  · rfl
  · rfl

/-- At the head of its loop a search has met a zero, or is framed once the blocking point is chosen. -/
def Poised (a b : ℝ × ℝ) (samples : List (ℝ × ℝ)) (s : Search ℝ) : Prop :=
  (s.fCur = 0 ∧ (s.xCur, 0) ∈ samples ∧ ∃ p q, Narrows a b samples p q) ∨ s.block.Framed a b samples

/-- What follows the sample `x` with the value `fx`. -/
def next (s : Search ℝ) (x fx : ℝ) : Search ℝ :=
  { s with xPre := s.xCur, fPre := s.fCur, xCur := x, fCur := fx }

/-- A sample between the two points leaves the search poised. -/
theorem next_poised (hab : Opposite a.2 b.2)
    (h : Narrows a b samples (s.xCur, s.fCur) (s.xBlk, s.fBlk)) (hx : x ∈ Set.uIoo s.xCur s.xBlk)
    (fx : ℝ) : (s.next x fx).Poised a b ((x, fx) :: samples) := by
  have hopposite : Opposite s.fCur s.fBlk := h.opposite hab
  by_cases hzero : fx = 0
  · subst hzero
    exact .inl ⟨rfl, List.mem_cons_self, _, _, h.zero hx⟩
  right
  by_cases hcross : Opposite s.fCur fx
  · rw [block_of_opposite hcross]
    exact ⟨h.cross hx hcross.symm, .inl ⟨rfl, rfl⟩⟩
  · rw [block_of_not_opposite hcross]
    have hsame := (hopposite.or hzero).resolve_left (mt Opposite.symm hcross)
    exact ⟨h.sample hx hsame, .inr ⟨hopposite, hx⟩⟩

/-- A poised search that has met a zero stops there, and any other is framed when it takes its step. -/
theorem Poised.arranged (h : s.Poised a b samples) :
    (s.block.order.fCur = 0 ∧ (s.block.order.xCur, 0) ∈ samples ∧ ∃ p q, Narrows a b samples p q) ∨
      s.block.order.Framed a b samples := by
  rcases h with ⟨hzero, hmem, hnarrows⟩ | hframed
  · have hblock : s.block = s := block_of_not_opposite fun h => h.ne_zero.2 hzero
    have horder : s.order = s := if_neg (by simp [hzero])
    rw [hblock, horder]
    exact .inl ⟨hzero, hmem, hnarrows⟩
  · exact .inr hframed.order

end Search

/-- Over the reals every sample is a number. -/
theorem ensures_askNumber_real {f : Objective ℝ} {x : ℝ} {next : ℝ → Inquiry ℝ} {s : Session ℝ}
    {samples : List (ℝ × ℝ)} {P : Found ℝ → Session ℝ → Prop} {refused : Prop}
    (h : ∀ fx, f.value x = .ok fx → ((next fx).run f ((x, fx) :: samples)).Ensures (s.sampled x) P
      fun fault _ => (∃ x, f.value x = .error fault) ∨ refused) :
    ((askNumber x next).run f samples).Ensures s P
      fun fault _ => (∃ x, f.value x = .error fault) ∨ refused := by
  have hnumber (fx : ℝ) : ¬Scalar.isNaN fx = true := by simp [Scalar.isNaN]
  rw [ensures_askNumber]
  constructor
  · intro fx hfx
    exact ⟨fun hnan => absurd hnan (hnumber fx), fun _ => h fx hfx⟩
  · intro fault hfault
    exact .inl ⟨x, hfault⟩

theorem inquiryFrom_brackets {f : Objective ℝ} {a b : ℝ × ℝ} (hab : Opposite a.2 b.2) {tolerance : ℝ}
    (htolerance : 0 < tolerance) {refused : Prop} (n : ℕ) {search : Search ℝ} {samples : List (ℝ × ℝ)}
    {s : Session ℝ} (h : search.Poised a b samples) :
    ((inquiryFrom tolerance n search).run f samples).Ensures s
      (fun found _ => ∃ p q, found.Brackets a b p q)
      fun fault _ => (∃ x, f.value x = .error fault) ∨ refused := by
  induction n generalizing search samples s with
  | zero =>
    rcases h with ⟨hzero, hmem, p, q, hnarrows⟩ | hframed
    · exact ⟨p, q, hnarrows, .inr (.inr hmem)⟩
    · exact ⟨_, _, hframed.narrows, .inl search.block_xCur.symm⟩
  | succ n ih =>
    simp only [inquiryFrom, ensures_choice, ensures_finish]
    rcases h.arranged with ⟨hzero, hmem, p, q, hnarrows⟩ | hframed
    · constructor
      · intro _
        exact ⟨p, q, hnarrows, .inr (.inr hmem)⟩
      · intro hgo
        simp [hzero, Scalar.real_zero] at hgo
    · constructor
      · intro _
        exact ⟨_, _, hframed.narrows, .inl rfl⟩
      · intro hgo
        generalize search.block.order = search at hframed hgo ⊢
        have hopposite : Opposite search.fCur search.fBlk := hframed.narrows.opposite hab
        have hwide : search.delta tolerance ≤ |search.half| := by
          simp at hgo
          exact hgo.2
        have hx := hframed.target_mem hopposite (search.delta_pos htolerance) hwide
        apply ensures_askNumber_real
        intro fx _
        refine ih (Search.next_poised (s := search.chooseStep (search.delta tolerance)) hab ?_ ?_ fx)
        · obtain ⟨hcur, hfcur, hblk, hfblk⟩ := chooseStep_points search (search.delta tolerance)
          rw [hcur, hfcur, hblk, hfblk]
          exact hframed.narrows
        · obtain ⟨hcur, -, hblk, -⟩ := chooseStep_points search (search.delta tolerance)
          rw [hcur, hblk]
          exact hx

/-- The program's own search brackets. -/
theorem strategy_brackets : (strategy : Strategy ℝ).Brackets := by
  intro f a b fa fb tolerance steps s hfa hfb hopposite htolerance hsteps
  obtain ⟨hfa0, hfb0⟩ := hopposite.ne_zero
  have hsigns : ¬(Scalar.signBit fa == Scalar.signBit fb) = true := by
    have hdiffer := Search.signs_differ_iff.2 hopposite
    simp only [Bool.and_eq_true, bne_iff_ne] at hdiffer
    simpa using hdiffer.2
  simp only [strategy, ensures_choice, ensures_refuse]
  refine ⟨fun h => absurd h (not_le.2 (by rwa [Scalar.real_zero])), fun _ => ?_⟩
  refine ⟨.inr, fun _ => ?_⟩
  apply ensures_askNumber_real
  intro fa' hfa'
  cases hfa.symm.trans hfa'
  apply ensures_askNumber_real
  intro fb' hfb'
  cases hfb.symm.trans hfb'
  simp only [ensures_choice, ensures_finish, ensures_refuse]
  refine ⟨fun h => absurd (Scalar.real_beq_zero.1 h) hfa0, fun _ => ?_⟩
  refine ⟨fun h => absurd (Scalar.real_beq_zero.1 h) hfb0, fun _ => ?_⟩
  refine ⟨fun h => absurd h hsigns, fun _ => ?_⟩
  apply inquiryFrom_brackets hopposite htolerance
  right
  rw [Search.block_of_opposite hopposite]
  exact ⟨.ends, .inl ⟨rfl, rfl⟩⟩

end Brentq

end RootSearch
