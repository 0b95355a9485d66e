import RootSearch.Proofs.DoubleProducts
import RootSearch.Proofs.Genuine
import RootSearch.Proofs.Progress
/-!
# Roots that a search samples

A search from a guess tests the guess against the accuracy, and the later ends of its bracket for being
zero. Such an end is a root at once, if the search is within its budget and has met finite values before.
An end that is merely within the accuracy is grown past like any other.
-/

namespace RootSearch

open Solve

variable {f : Objective Double}

/-- The objective is zero at `x`. -/
def Objective.Vanishes (f : Objective Double) (x : Double) : Prop :=
  ∃ fx, f.value x = .ok fx ∧ (fx == 0.0) = true

/-- The root `x` was sampled, and so far only finite values. -/
structure SampledRoot (f : Objective Double) (samples : Array Double) (before : List Double) (x : Double)
    (after : List Double) : Prop where
  split : samples.toList = before ++ x :: after
  finite : ∀ y ∈ before, ∀ fy, f.value y = .ok fy → fy.isFinite = true
  root : f.Vanishes x

/-! ## Zero factors -/

namespace Double

variable {y z : Double}

theorem parts_of_zero (h : (y == 0.0) = true) : ∃ s, y.parts = .zero s := by
  obtain ⟨hnumber, -, hrank⟩ := beq_iff.1 h
  rw [parts_zero] at hrank
  exact eq_zero_of_rank_eq hnumber hrank

theorem isFinite_of_zero (h : (y == 0.0) = true) : y.isFinite = true := by
  obtain ⟨s, hs⟩ := parts_of_zero h
  show y.parts.isFinite = true
  rw [hs]
  rfl

theorem mul_le_zero_of_zero (hy : y.isFinite = true) (hz : z.isFinite = true)
    (h : (y == 0.0) = true ∨ (z == 0.0) = true) : y * z ≤ 0.0 := by
  rw [mul_le_zero_iff hy hz]
  rcases h with h | h
  · obtain ⟨s, hs⟩ := parts_of_zero h
    exact .inr (mul_of_zero hy hz (.inl hs)).1
  · obtain ⟨s, hs⟩ := parts_of_zero h
    exact .inr (mul_of_zero hy hz (.inr hs)).1

end Double

/-! ## The latest sample -/

namespace SampledRoot

variable {samples : Array Double} {before after : List Double} {x y : Double}

/-- A sampled root is the latest sample or was one before it. -/
theorem of_push (h : SampledRoot f (samples.push y) before x after) :
    after = [] ∧ x = y ∨ ∃ rest, SampledRoot f samples before x rest := by
  have hsplit := h.split
  rw [Array.toList_push] at hsplit
  rcases List.eq_nil_or_concat after with rfl | ⟨rest, z, rfl⟩
  · obtain ⟨-, hlast⟩ := List.append_inj' hsplit rfl
    exact .inl ⟨rfl, (List.cons.inj hlast).1.symm⟩
  · rw [List.concat_eq_append, ← List.cons_append, ← List.append_assoc] at hsplit
    obtain ⟨hrest, -⟩ := List.append_inj' hsplit rfl
    exact .inr ⟨rest, hrest, h.finite, h.root⟩

end SampledRoot

/-- No root was sampled, or only after a value that is not finite. -/
def SamplesNoRoot (f : Objective Double) (samples : Array Double) : Prop :=
  ∀ before x after, ¬SampledRoot f samples before x after

theorem samplesNoRoot_empty (f : Objective Double) : SamplesNoRoot f #[] := by
  intro before x after h
  simpa using h.split

theorem SamplesNoRoot.push {samples : Array Double} {y : Double} (h : SamplesNoRoot f samples)
    (hy : ¬f.Vanishes y) : SamplesNoRoot f (samples.push y) := by
  intro before x after hroot
  rcases hroot.of_push with ⟨-, rfl⟩ | ⟨rest, hrest⟩
  · exact hy hroot.root
  · exact h _ _ _ hrest

theorem Objective.not_vanishes_of_fault {x : Double} {fault : Fault Double}
    (h : f.value x = .error fault) : ¬f.Vanishes x := by
  rintro ⟨fx, hfx, -⟩
  cases h.symm.trans hfx

theorem Objective.not_vanishes_of_missed {x fx accuracy : Double} (haccuracy : 0.0 ≤ accuracy)
    (h : f.value x = .ok fx) (hmiss : ¬Scalar.abs fx ≤ accuracy) : ¬f.Vanishes x := by
  rintro ⟨fx', hfx', hzero⟩
  cases h.symm.trans hfx'
  exact hmiss (Scalar.le_trans (Scalar.abs_le_zero hzero) haccuracy)

/-- Both ends of the bracket hold their values, and a sampled root is the latest sample and an end. -/
structure Search.Alert (f : Objective Double) (t : Session Double) : Prop where
  genuine : t.Genuine f
  last : ∀ before x after, SampledRoot f t.samples before x after →
    after = [] ∧ (x = t.bracket.xMin ∨ x = t.bracket.xMax)

namespace Search.Alert

variable {t : Session Double} {before after : List Double} {x z fz : Double}

/-- The latest sample became an end, and there was no root before it. -/
theorem of_latest {samples : Array Double} {y : Double} (hgenuine : t.Genuine f)
    (hsamples : t.samples = samples.push y) (hno : SamplesNoRoot f samples)
    (hend : y = t.bracket.xMin ∨ y = t.bracket.xMax) : Alert f t := by
  refine ⟨hgenuine, fun before x after hroot => ?_⟩
  rw [hsamples] at hroot
  rcases hroot.of_push with ⟨hafter, rfl⟩ | ⟨rest, hrest⟩
  · exact ⟨hafter, hend⟩
  · exact (hno _ _ _ hrest).elim

theorem mem (h : Alert f t) (hroot : SampledRoot f t.samples before x after)
    (hz : Sampled f t.samples z fz) : z ∈ before ∨ z = x := by
  have hmem := Array.mem_toList_iff.2 hz.mem
  rw [hroot.split, (h.last _ _ _ hroot).1] at hmem
  simpa using hmem

theorem isFinite (h : Alert f t) (hroot : SampledRoot f t.samples before x after)
    (hz : Sampled f t.samples z fz) : fz.isFinite = true := by
  rcases h.mem hroot hz with hbefore | rfl
  · exact hroot.finite z hbefore fz hz.value
  · obtain ⟨fx, hfx, hzero⟩ := hroot.root
    cases hz.value.symm.trans hfx
    exact Double.isFinite_of_zero hzero

/-- There is but one root among the samples. -/
theorem eq_of_zero (h : Alert f t) (hroot : SampledRoot f t.samples before x after)
    (hz : Sampled f t.samples z fz) (hzero : (fz == 0.0) = true) : z = x := by
  rcases h.mem hroot hz with hbefore | hx
  · -- then `z` is a root with samples after it
    obtain ⟨front, back, rfl⟩ := List.append_of_mem hbefore
    have hz : SampledRoot f t.samples front z (back ++ x :: after) :=
      ⟨by simpa using hroot.split, fun y hy => hroot.finite y (by simp [hy]), fz, hz.value, hzero⟩
    simpa using (h.last _ _ _ hz).1
  · exact hx

theorem zero_end (h : Alert f t) (hroot : SampledRoot f t.samples before x after) :
    (t.bracket.fMin == 0.0) = true ∨ (t.bracket.fMax == 0.0) = true := by
  obtain ⟨fx, hfx, hzero⟩ := hroot.root
  rcases (h.last _ _ _ hroot).2 with rfl | rfl
  · cases hfx.symm.trans h.genuine.min.value
    exact .inl hzero
  · cases hfx.symm.trans h.genuine.max.value
    exact .inr hzero

/-- A sampled root stops the search at once. -/
theorem product (h : Alert f t) (hroot : SampledRoot f t.samples before x after) :
    t.bracket.fMin * t.bracket.fMax ≤ 0.0 :=
  Double.mul_le_zero_of_zero (h.isFinite hroot h.genuine.min) (h.isFinite hroot h.genuine.max)
    (h.zero_end hroot)

end Search.Alert

/-! ## The search -/

namespace Search

theorem grown_end {α : Type} (b : Bracket α) (side : Side) (x fx : α) :
    x = (grown b side x fx).xMin ∨ x = (grown b side x fx).xMax := by
  unfold grown
  split
  · exact .inl rfl
  · exact .inr rfl

theorem opened_end {α : Type} [Scalar α] (guess fx x fx' : α) :
    x = (opened guess fx x fx').xMin ∨ x = (opened guess fx x fx').xMax := by
  unfold opened
  split
  · exact .inl rfl
  · exact .inr rfl

variable {settings : Settings Double} {accuracy guess step : Double} {method : String}
variable {t : Session Double}

/-- If a root was sampled, then nothing after it, and within its budget the search converges there. -/
def Outcome.TakesRoot (f : Objective Double) (limit : Nat) (outcome : Outcome Double)
    (t : Session Double) : Prop :=
  ∀ before x after, SampledRoot f t.samples before x after → after = [] ∧
    ∃ result, outcome = .answered result ∧
      (result.evaluations ≤ limit → result.status = .converged ∧ result.root = some x)

theorem pass_takesRoot (limit : Nat) (ht : Alert f t) (tieLow : Bool) :
    (pass f settings method tieLow).Ensures t
      (fun p u => p.Keeps (fun _ => Alert f u) fun outcome => outcome.TakesRoot f limit u)
      fun _ u => SamplesNoRoot f u.samples := by
  rw [ensures_pass]
  constructor
  · intro _
    refine ⟨fun hmin before x after hroot => ?_, fun hmin => ⟨fun hmax before x after hroot => ?_,
      fun hmax before x after hroot => ?_⟩⟩
    · have hx := ht.eq_of_zero hroot ht.genuine.min hmin
      exact ⟨(ht.last _ _ _ hroot).1, _, rfl, fun _ => ⟨rfl, congrArg some hx⟩⟩
    · have hx := ht.eq_of_zero hroot ht.genuine.max hmax
      exact ⟨(ht.last _ _ _ hroot).1, _, rfl, fun _ => ⟨rfl, congrArg some hx⟩⟩
    · exact ((ht.zero_end hroot).elim hmin hmax).elim
  · -- a root among the samples would have made the product zero
    intro hproduct
    have hno : SamplesNoRoot f t.samples := fun _ _ _ hroot => hproduct (ht.product hroot)
    refine ⟨fun fx hfx => ?_, fun fault hfault => hno.push (Objective.not_vanishes_of_fault hfault)⟩
    have hgenuine := grown_all (Bracket.Genuine.push ht.genuine _) (Sampled.latest t.samples hfx)
      (side t.bracket tieLow)
    exact .of_latest hgenuine rfl hno (grown_end _ _ _ _)

/-- A guess that meets the accuracy is the answer. -/
theorem exec_aroundGuess_met {s : Session Double} {fx : Double} (hfx : f.value guess = .ok fx)
    (hmet : Scalar.abs fx ≤ accuracy) :
    (aroundGuess f settings accuracy guess step method).exec s =
      let t := (s.visited guess).narrowed ⟨guess, guess, fx, fx⟩
      (.ok (.answered (t.converged guess method)), t) := by
  simp only [aroundGuess, exec_bind, exec_setRoot, exec_sample, hfx, hmet, if_true,
    exec_setBracket, exec_converged, exec_pure]
  rfl

theorem aroundGuess_takesRoot (haccuracy : 0.0 ≤ accuracy) :
    (aroundGuess f settings accuracy guess step method).Ensures .start
      (fun outcome t => outcome.TakesRoot f settings.maxEvaluations t)
      fun _ t => SamplesNoRoot f t.samples := by
  have hnone := samplesNoRoot_empty f
  rw [ensures_aroundGuess]
  refine ⟨fun fx hfx => ⟨fun _ before x after hroot => ?_, fun hmiss => ?_⟩,
    fun fault hfault => hnone.push (Objective.not_vanishes_of_fault hfault)⟩
  · have hroot : SampledRoot f (#[].push guess) before x after := hroot
    rcases hroot.of_push with ⟨hafter, rfl⟩ | ⟨rest, hrest⟩
    · exact ⟨hafter, _, rfl, fun _ => ⟨rfl, rfl⟩⟩
    · exact (hnone _ _ _ hrest).elim
  have hno : SamplesNoRoot f #[guess] :=
    hnone.push (Objective.not_vanishes_of_missed haccuracy hfx hmiss)
  refine ⟨fun fx' hfx' => ?_, fun fault hfault => hno.push (Objective.not_vanishes_of_fault hfault)⟩
  apply ensures_whileBudget_of_advances (I := fun _ t => Alert f t) (pass_advances f settings method)
  · intro tieLow t ht _
    exact pass_takesRoot settings.maxEvaluations ht tieLow
  · intro _ t ht hspent
    rw [ensures_giveUp]
    have hover : ¬t.evaluations ≤ settings.maxEvaluations := by simpa [Session.hasBudget] using hspent
    exact fun before x after hroot => ⟨(ht.last _ _ _ hroot).1, _, rfl, fun hwithin => (hover hwithin).elim⟩
  · have hgenuine := opened_all ((Sampled.latest #[] hfx).push _) (Sampled.latest #[guess] hfx')
    exact .of_latest hgenuine rfl hno (opened_end _ _ _ _)

end Search

/-! ## The solve -/

section Solve

variable {r : Refiner Double} {settings : Settings Double} {accuracy guess step : Double}

/-- A solve whose search answers has the search's answer. -/
theorem exec_solveFromGuess_answered {result : Result Double} {t : Session Double}
    (h : (Search.aroundGuess f settings accuracy guess step r.name).exec .start =
      (.ok (.answered result), t)) :
    (solveFromGuess r f settings accuracy guess step).exec .start = (.ok result, t) := by
  show ((Entry.fromGuess guess step).solveBy Brentq.strategy r f settings accuracy).exec .start = _
  unfold Entry.solveBy
  rw [exec_bind, Entry.search, h]
  rfl

end Solve

/-- A guess that meets the accuracy is the root. A later end `x` of the bracket at which the objective
is zero, after finite values only, is the last point that is sampled, and within the budget it is the
root. -/
theorem sampled_root_is_taken (r : Refiner Double) (f : Objective Double) (settings : Settings Double)
    (accuracy guess step : Double) (haccuracy : 0.0 ≤ accuracy) :
    let search := (Search.aroundGuess f settings accuracy guess step r.name).exec .start
    let solve := (solveFromGuess r f settings accuracy guess step).exec .start
    (∀ fx, f.value guess = .ok fx → Scalar.abs fx ≤ accuracy →
      ∃ result, solve.1 = .ok result ∧ result.status = .converged ∧ result.root = some guess) ∧
    ∀ before x after fx, search.2.samples.toList = before ++ x :: after →
      (∀ y ∈ before, ∀ fy, f.value y = .ok fy → fy.isFinite = true) →
      f.value x = .ok fx → (fx == 0.0) = true →
        solve.2.samples.toList = before ++ [x] ∧ ∃ result, solve.1 = .ok result ∧
          (result.evaluations ≤ settings.maxEvaluations →
            result.status = .converged ∧ result.root = some x) := by
  intro search solve
  constructor
  · intro fx hfx hmet
    have hsolve : solve = (.ok _, _) :=
      exec_solveFromGuess_answered (Search.exec_aroundGuess_met hfx hmet)
    exact ⟨_, congrArg Prod.fst hsolve, rfl, rfl⟩
  · intro before x after fx hsplit hfinite hfx hzero
    have hroot : SampledRoot f search.2.samples before x after := ⟨hsplit, hfinite, fx, hfx, hzero⟩
    have htakes : (Search.aroundGuess f settings accuracy guess step r.name).Ensures .start
        (fun outcome t => outcome.TakesRoot f settings.maxEvaluations t)
        fun _ t => SamplesNoRoot f t.samples := Search.aroundGuess_takesRoot haccuracy
    rcases hsearch : search with ⟨fault | outcome, t⟩
    · rw [hsearch] at hroot
      exact (htakes.fault hsearch _ _ _ hroot).elim
    · rw [hsearch] at hroot
      obtain ⟨rfl, result, rfl, hresult⟩ := htakes.value hsearch _ _ _ hroot
      have hsolve := exec_solveFromGuess_answered hsearch
      refine ⟨?_, result, congrArg Prod.fst hsolve, hresult⟩
      show solve.2.samples.toList = _
      rw [show solve = _ from hsolve]
      exact hroot.split

/-- The first step from the guess lands on the root. -/
theorem sampled_root_is_taken_on_line :
    let r : Refiner Double := ⟨.bisection, none⟩
    let f : Objective Double := .ofTotal fun x => x - 1.0
    let solve := (solveFromGuess r f {} 1e-9 0.0 1.0).exec .start
    (∃ result, ((solveFromGuess r f {} 1e-9 1.0 1.0).exec .start).1 = .ok result ∧
      result.status = .converged ∧ result.root = some 1.0) ∧
    solve.2.samples.toList = [0.0] ++ [1.0] ∧ ∃ result, solve.1 = .ok result ∧
      result.evaluations = 2 ∧ result.status = .converged ∧ result.root = some 1.0 := by
  have haccuracy : (0.0 : Double) ≤ 1e-9 := by decide +kernel
  constructor
  · have h := sampled_root_is_taken ⟨.bisection, none⟩ (.ofTotal fun x => x - 1.0) {} 1e-9 1.0 1.0 haccuracy
    exact h.1 0.0 (by decide +kernel) (by decide +kernel)
  · have h := sampled_root_is_taken ⟨.bisection, none⟩ (.ofTotal fun x => x - 1.0) {} 1e-9 0.0 1.0 haccuracy
    have hfinite : ∀ y ∈ [(0.0 : Double)], ∀ fy,
        (Objective.ofTotal fun x : Double => x - 1.0).value y = .ok fy → fy.isFinite = true := by
      intro y hy fy hfy
      cases List.mem_singleton.1 hy
      cases hfy
      decide +kernel
    obtain ⟨hsamples, result, hresult, hroot⟩ :=
      h.2 [0.0] 1.0 [] 0.0 (by decide +kernel) hfinite (by decide +kernel) (by decide +kernel)
    have hevaluations : ((solveFromGuess ⟨.bisection, none⟩ (.ofTotal fun x : Double => x - 1.0) {} 1e-9
        0.0 1.0).exec .start).1.toOption.map (·.evaluations) = some 2 := by decide +kernel
    rw [hresult] at hevaluations
    have htwo : result.evaluations = 2 := Option.some.inj hevaluations
    exact ⟨hsamples, result, hresult, htwo, hroot (htwo.trans_le (by decide))⟩

/-- A search gives up although the first end that it stepped to was within the accuracy: the objective is
not zero there, but as near as it comes. -/
theorem sampled_root_is_passed :
    let r : Refiner Double := ⟨.brent, none⟩
    let f : Objective Double := .ofTotal fun x => (x - 2.0) * (x - 2.0) + 1e-12
    let settings : Settings Double := { maxEvaluations := 5 }
    (0.0 : Double) ≤ 1e-9 ∧
    2.0 ∈ ((Search.aroundGuess f settings 1e-9 1.0 (-1.0) r.name).exec .start).2.samples ∧
    f.value 2.0 = .ok 1e-12 ∧ Scalar.abs (1e-12 : Double) ≤ 1e-9 ∧
    ((solveFromGuess r f settings 1e-9 1.0 (-1.0)).exec .start).1.toOption.map (·.status) =
      some .bracketingFailed := by
  refine ⟨by decide +kernel, Array.mem_of_getElem? (i := 1) ?_, ?_, ?_, ?_⟩
  all_goals decide +kernel

end RootSearch
