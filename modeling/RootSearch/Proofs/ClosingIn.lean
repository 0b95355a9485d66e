import RootSearch.Proofs.Bracketing
import RootSearch.Proofs.Containment
import RootSearch.Proofs.Endings
import RootSearch.Proofs.Heads
/-!
# Brent's method closes in

Before each step of Brent's method the previous estimate may become the contrapoint, and the estimate and
the contrapoint may change places. Over the reals the two then have values of opposite signs, the estimate
the smaller one, and the next sample lies strictly between them. Whichever points come to be the two after
it, they lie in the interval of the two before.
-/

namespace RootSearch.Brent

open Solve

/-- The loop of a refinement whose estimate has the value `fx`. -/
def loop {α : Type} [Scalar α] (f : Objective α) (accuracy : α) (s : Session α) (fx : α) : Loop α :=
  let b := pickContrapoint s.bracket fx
  ⟨Iterate α, pass f accuracy, ⟨s.root, fx, s.root - b.xMax, s.root - b.xMax⟩,
    (s.sampled s.root).narrowed b⟩

theorem enters_iff {α : Type} [Scalar α] {f : Objective α} {accuracy : α} {s : Session α} {l : Loop α} :
    (⟨.brent, none⟩ : Refiner α).Enters f accuracy s l ↔
      ∃ fx, f.value s.root = .ok fx ∧ ¬Scalar.abs fx ≤ accuracy ∧ l = loop f accuracy s fx := Iff.rfl

variable {f : Objective ℝ} {accuracy : ℝ} {s t : Session ℝ} {b : Bracket ℝ} {i : Iterate ℝ}
variable {S : Set ℝ} {step lastStep half tol : ℝ}

/-! ## Points at the head of the loop -/

theorem step_between (htol : 0 < tol) (hhalf : half = 0.5 * (b.xMax - i.x)) (hlong : tol < |half|)
    (h : chooseStep b i half tol = .ok (step, lastStep)) :
    i.x + atLeast step half tol ∈ Set.uIoo i.x b.xMax := by
  -- the step is the part `r` of the whole way, which is twice the half
  obtain ⟨r, h0, h1, hr⟩ := step_ratio htol hlong h
  have hne : half ≠ 0 := abs_pos.1 (htol.trans hlong)
  have hway : b.xMax = i.x + 2 * half := by
    rw [hhalf]
    ring
  have hparts : (i.x + 2 * half * r - i.x) * (i.x + 2 * half - (i.x + 2 * half * r)) =
      (2 * half) ^ 2 * (r * (1 - r)) := by ring
  have hrest : 0 < 1 - r := by linarith
  rw [mem_uIoo_iff, hr, hway, hparts]
  positivity

/-- What a head of the loop has: values of the objective at all its points, which lie in `S`, and a sign
change between the estimate and one of the other two. -/
structure Held (f : Objective ℝ) (S : Set ℝ) (i : Iterate ℝ) (b : Bracket ℝ) : Prop where
  ends : b.All fun x fx => f.Gives x fx ∧ x ∈ S
  estimate : f.Gives i.x i.fx ∧ i.x ∈ S
  arrangeable : Arrangeable b i

/-- An estimate and a contrapoint in `S` that straddle zero, the estimate with the smaller value. -/
structure Faced (f : Objective ℝ) (S : Set ℝ) (b : Bracket ℝ) (i : Iterate ℝ) : Prop where
  estimate : f.Gives i.x i.fx ∧ i.x ∈ S
  contrapoint : f.Gives b.xMax b.fMax ∧ b.xMax ∈ S
  opposite : Opposite i.fx b.fMax
  best : |i.fx| ≤ |b.fMax|

theorem Held.arranged (h : Held f S i b) : Faced f S (arrange b i).1 (arrange b i).2 := by
  obtain ⟨hends, hestimate⟩ := arrange_all h.ends h.estimate
  exact {
    estimate := hestimate
    contrapoint := hends.max
    opposite := arrange_straddles h.arrangeable
    best := not_lt.1 (arrange_ordered b i) }

/-- After a sample between the two points, the one it was taken from is the previous estimate. -/
theorem Faced.stepped (h : Faced f S b i) (haccuracy : 0 ≤ accuracy) {x fx : ℝ}
    (hx : x ∈ Set.uIoo i.x b.xMax) (hfx : f.Gives x fx) (hmiss : ¬|fx| ≤ accuracy) (step lastStep : ℝ) :
    Held f (Set.uIcc i.x b.xMax) ⟨x, fx, step, lastStep⟩ { b with xMin := i.x, fMin := i.fx } where
  ends := ⟨⟨h.estimate.1, Set.left_mem_uIcc⟩, h.contrapoint.1, Set.right_mem_uIcc⟩
  estimate := ⟨hfx, Set.uIoo_subset_uIcc_self hx⟩
  arrangeable := by
    have hne := ne_zero_of_missed haccuracy hmiss
    exact ⟨hne, h.opposite.ne_zero.2, (h.opposite.or hne).symm⟩

theorem Held.mono {S' : Set ℝ} (h : Held f S i b) (hsub : S ⊆ S') : Held f S' i b where
  ends := h.ends.imp fun _ _ hx => ⟨hx.1, hsub hx.2⟩
  estimate := ⟨h.estimate.1, hsub h.estimate.2⟩
  arrangeable := h.arrangeable

/-- The interval between the estimate and the contrapoint, once they are arranged. -/
def interval (b : Bracket ℝ) (i : Iterate ℝ) : Set ℝ := Set.uIcc (arrange b i).2.x (arrange b i).1.xMax

theorem Held.interval_subset (h : Held f S i b) (hS : S.OrdConnected) : interval b i ⊆ S :=
  hS.uIcc_subset h.arranged.estimate.2 h.arranged.contrapoint.2

/-! ## Passes -/

/-- A pass samples at most one point, and that strictly between the two points. -/
def SamplesBetween (s : Session ℝ) (i : Iterate ℝ) (t : Session ℝ) : Prop :=
  t.samples = s.samples ∨
    ∃ x ∈ Set.uIoo (arrange s.bracket i).2.x (arrange s.bracket i).1.xMax, t.samples = s.samples.push x

theorem pass_closes (haccuracy : 0 ≤ accuracy) (h : Held f S i s.bracket) :
    (pass f accuracy i).Ensures s
      (fun p t => SamplesBetween s i t ∧
        p.Keeps (fun j => Held f (interval s.bracket i) j t.bracket) fun _ => True)
      fun _ t => SamplesBetween s i t := by
  have hfaced := h.arranged
  unfold SamplesBetween interval
  rw [ensures_pass]
  generalize arrange s.bracket i = arranged at hfaced ⊢
  obtain ⟨b, i⟩ := arranged
  refine ⟨fun _ => ⟨.inl rfl, trivial⟩, fun _ => ⟨fun _ => ⟨.inl rfl, trivial⟩, fun hlong => ?_⟩⟩
  refine ⟨fun (step, lastStep) hchoose => ?_, fun _ _ => .inl rfl⟩
  have hx := step_between (Scalar.resolution_pos i.x) rfl (not_le.1 hlong) hchoose
  refine ⟨fun fx hfx => ⟨fun _ => ⟨.inr ⟨_, hx, rfl⟩, trivial⟩, fun hmiss => ⟨.inr ⟨_, hx, rfl⟩, ?_⟩⟩,
    fun _ _ => .inr ⟨_, hx, rfl⟩⟩
  exact hfaced.stepped haccuracy hx hfx hmiss step lastStep

/-! ## Runs -/

theorem loop_held {fx : ℝ} (haccuracy : 0 ≤ accuracy) (hS : S.OrdConnected)
    (hends : s.bracket.All fun x fx => f.Gives x fx ∧ x ∈ S) (hs : s.bracket.Straddles) (hroot : s.root ∈ S)
    (hfx : f.Gives s.root fx) (hmiss : ¬|fx| ≤ accuracy) {limit : ℕ} {i : (loop f accuracy s fx).State}
    (h : (loop f accuracy s fx).Head limit i t) : Held f S i t.bracket := by
  induction h with
  | first =>
    have hne := ne_zero_of_missed haccuracy hmiss
    have hopposite := pickContrapoint_straddles hs hne
    exact ⟨pickContrapoint_all hends fx, ⟨hfx, hroot⟩, hne, hopposite.ne_zero.2, .inl hopposite⟩
  | again _ _ hagain ih => exact ((pass_closes haccuracy ih).value hagain).2.mono (ih.interval_subset hS)

/-- Over the reals, let Brent's method begin within a bracket whose values have strictly opposite signs
and belong to its ends. At every head of its loop, once the points are arranged, the values of the
estimate and the contrapoint belong to them too and have strictly opposite signs, the estimate's being
no larger than the contrapoint's, and both points lie in the bracket. A pass, however it ends, samples
one point at most, and that strictly between the two. If it goes on, the two points of the next pass lie
in the interval of these. -/
theorem estimate_and_contrapoint_close_in (f : Objective ℝ) (accuracy : ℝ) (s : Session ℝ) (limit : ℕ)
    (haccuracy : 0 ≤ accuracy) (hmin : f.value s.bracket.xMin = .ok s.bracket.fMin)
    (hmax : f.value s.bracket.xMax = .ok s.bracket.fMax) (hs : s.bracket.Straddles)
    (hroot : s.root ∈ Set.uIcc s.bracket.xMin s.bracket.xMax) :
    ∀ (i : Iterate ℝ) t, (⟨.brent, none⟩ : Refiner ℝ).ComesTo f limit accuracy s i t →
      let b := (arrange t.bracket i).1
      let j := (arrange t.bracket i).2
      f.value j.x = .ok j.fx ∧ f.value b.xMax = .ok b.fMax ∧ Opposite j.fx b.fMax ∧ |j.fx| ≤ |b.fMax| ∧
      Set.uIcc j.x b.xMax ⊆ Set.uIcc s.bracket.xMin s.bracket.xMax ∧
      (∀ outcome u, (pass f accuracy i).exec t = (outcome, u) →
        u.samples = t.samples ∨ ∃ x ∈ Set.uIoo j.x b.xMax, u.samples = t.samples.push x) ∧
      ∀ i' u, (pass f accuracy i).exec t = (.ok (.again i'), u) →
        Set.uIcc (arrange u.bracket i').2.x (arrange u.bracket i').1.xMax ⊆ Set.uIcc j.x b.xMax := by
  rintro i t ⟨step, first, u, henters, hhead⟩
  obtain ⟨fx, hfx, hmiss, hloop⟩ := enters_iff.1 henters
  cases hloop
  have hends : s.bracket.All fun x fx => f.Gives x fx ∧ x ∈ Set.uIcc s.bracket.xMin s.bracket.xMax :=
    ⟨⟨hmin, Set.left_mem_uIcc⟩, hmax, Set.right_mem_uIcc⟩
  have hheld := loop_held haccuracy Set.ordConnected_uIcc hends hs hroot hfx hmiss hhead
  have hfaced := hheld.arranged
  have hpass := pass_closes haccuracy hheld
  refine ⟨hfaced.estimate.1, hfaced.contrapoint.1, hfaced.opposite, hfaced.best,
    hheld.interval_subset Set.ordConnected_uIcc, fun outcome u hexec => ?_, fun i' u hagain => ?_⟩
  · have hsamples := (hpass.mono (fun _ _ h => h.1) fun _ _ h => h).final
    rwa [hexec] at hsamples
  · exact (hpass.value hagain).2.interval_subset Set.ordConnected_uIcc

/-- A jump at one, between ends at zero and four: the first estimate gives way to its contrapoint. -/
theorem estimate_and_contrapoint_close_in_at_jump :
    let s : Session ℝ := { root := 3, bracket := ⟨0, 4, -1, 2⟩, evaluations := 2 }
    let f : Objective ℝ := .ofTotal fun x => if x < 1 then -1 else 2
    ∃ (i : Iterate ℝ) (t : Session ℝ), (⟨.brent, none⟩ : Refiner ℝ).ComesTo f 100 1e-9 s i t ∧
      let b := (arrange t.bracket i).1
      let j := (arrange t.bracket i).2
      j.x = 0 ∧ b.xMax = 3 ∧ Opposite j.fx b.fMax ∧ |j.fx| ≤ |b.fMax| ∧
      ∀ outcome u, (pass f 1e-9 i).exec t = (outcome, u) →
        u.samples = t.samples ∨ ∃ x ∈ Set.uIoo (0 : ℝ) 3, u.samples = t.samples.push x := by
  intro s f
  have hvalue {x fx : ℝ} (h : (if x < 1 then -1 else 2) = fx) : f.value x = .ok fx := congrArg Except.ok h
  have henters : (⟨.brent, none⟩ : Refiner ℝ).Enters f 1e-9 s (loop f 1e-9 s 2) :=
    enters_iff.2 ⟨2, hvalue (by norm_num [s]), by norm_num, rfl⟩
  have hhead : (⟨.brent, none⟩ : Refiner ℝ).ComesTo f 100 1e-9 s (loop f 1e-9 s 2).first
      (loop f 1e-9 s 2).session := ⟨_, _, _, henters, .first⟩
  have hpick : pickContrapoint s.bracket 2 = ⟨0, 0, -1, -1⟩ := by
    norm_num [pickContrapoint, s]
  have harranged : arrange (loop f 1e-9 s 2).session.bracket (loop f 1e-9 s 2).first =
      (⟨3, 3, 2, 2⟩, ⟨0, -1, 3 - 0, 3 - 0⟩) := by
    show arrange (pickContrapoint s.bracket 2)
      ⟨3, 2, 3 - (pickContrapoint s.bracket 2).xMax, 3 - (pickContrapoint s.bracket 2).xMax⟩ = _
    rw [hpick]
    norm_num [arrange, reset, swap, sameSign]
  obtain ⟨-, -, hopposite, hbest, -, hsamples, -⟩ :=
    estimate_and_contrapoint_close_in f 1e-9 s 100 (by norm_num) (hvalue (by norm_num [s]))
      (hvalue (by norm_num [s])) (.inl ⟨by norm_num [s], by norm_num [s]⟩)
      (Set.mem_uIcc_of_le (by norm_num [s]) (by norm_num [s])) _ _ hhead
  refine ⟨_, _, hhead, ?_, ?_, hopposite, hbest, ?_⟩
  · rw [harranged]
  · rw [harranged]
  · rw [harranged] at hsamples
    exact hsamples

end RootSearch.Brent
