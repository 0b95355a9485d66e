import RootSearch.Proofs.Ends
import RootSearch.Proofs.Landing
import RootSearch.Proofs.Passes
/-!
# Samples stay within the bracket

A refinement over the reals is begun on a bracket that lies in an interval. Then it calls the
objective within that interval only, and whatever root it names lies there, whether or not the solve
succeeds in the end.
-/

namespace RootSearch

open Solve

/-- Both ends lie in `S`. -/
abbrev Bracket.EndsIn (S : Set ℝ) (b : Bracket ℝ) : Prop := b.All fun x _ => x ∈ S

/-- Every point at which the objective was called lies in `S`. -/
def Session.SampledIn (S : Set ℝ) (s : Session ℝ) : Prop := ∀ x ∈ s.samples, x ∈ S

/-- The samples and the bracket of a session lie in `S`. -/
structure Session.Within (S : Set ℝ) (s : Session ℝ) : Prop where
  samples : s.SampledIn S
  ends : s.bracket.EndsIn S

/-- A root, or what is named as the best point, lies in `S`. -/
def Result.RootIn (S : Set ℝ) (r : Result ℝ) : Prop :=
  r.status = .converged ∨ r.status = .accuracyNotReached → ∃ x ∈ S, r.root = some x

variable {S : Set ℝ} {σ : Type}

theorem Bracket.EndsIn.mem {b : Bracket ℝ} {x : ℝ} (h : b.EndsIn S) (hS : S.OrdConnected)
    (hx : x ∈ Set.uIcc b.xMin b.xMax) : x ∈ S :=
  hS.uIcc_subset h.min h.max hx

/-! ## Results -/

section Results

variable {s : Session ℝ} {x fx accuracy : ℝ} {method : String}

theorem Session.SampledIn.push (h : s.SampledIn S) (hx : x ∈ S) : (s.sampled x).SampledIn S := by
  intro y hy
  rcases Array.mem_push.1 hy with hy | rfl
  · exact h y hy
  · exact hx

theorem converged_rootIn (hx : x ∈ S) : (s.converged x method).RootIn S :=
  fun _ => ⟨x, hx, rfl⟩

theorem fail_rootIn {status : Status} {reason : Reason ℝ} {root : Option ℝ}
    (h : status ≠ .converged) (h' : status ≠ .accuracyNotReached) :
    (s.fail status reason method root).RootIn S := by
  rintro (e | e)
  · exact absurd e h
  · exact absurd e h'

theorem collapsed_rootIn (hs : s.bracket.EndsIn S) (hx : x ∈ S) :
    (s.collapsed x fx method accuracy).RootIn S := by
  have hbest : (s.bracket.best (x, fx)).1 ∈ S := hs.best hx
  simp only [Session.collapsed]
  split
  · exact converged_rootIn hbest
  · exact fun _ => ⟨_, hbest, rfl⟩

end Results

/-! ## What a pass keeps -/

/-- A pass samples in `S` and goes on within it, or stops with a root in it. -/
abbrev KeepsWithin (S : Set ℝ) (I : σ → Bracket ℝ → Prop) (p : Pass σ (Result ℝ)) (t : Session ℝ) :
    Prop :=
  t.SampledIn S ∧ p.Keeps (fun state => t.bracket.EndsIn S ∧ I state t.bracket) fun r => r.RootIn S

/-- A method samples in `S` and ends with a root in it, or in a fault. -/
abbrev RefinesWithin (S : Set ℝ) (m : Solve ℝ (Result ℝ)) (s : Session ℝ) : Prop :=
  m.Ensures s (fun r t => t.SampledIn S ∧ r.RootIn S) fun _ t => t.SampledIn S

section Passes

variable {f : Objective ℝ} {accuracy x fx : ℝ} {method : String} {s : Session ℝ}
variable {I : σ → Bracket ℝ → Prop}

theorem visits_within {next : ℝ → Prop} (hs : s.SampledIn S) (hx : x ∈ S)
    (h : ∀ fx, ¬|fx| ≤ accuracy → next fx) :
    Visits f accuracy method x s (KeepsWithin S I) (fun _ t => t.SampledIn S) next :=
  ⟨fun fx _ => ⟨fun _ => ⟨hs.push hx, converged_rootIn hx⟩, h fx⟩, fun _ _ => hs.push hx⟩

theorem visitsWithSlope_within {slope : Slope ℝ} {next : Newton.Point ℝ → Prop} (hs : s.SampledIn S)
    (hx : x ∈ S) (h : ∀ p : Newton.Point ℝ, p.x = x → ¬|p.fx| ≤ accuracy → next p) :
    VisitsWithSlope f slope accuracy method x s (KeepsWithin S I) (fun _ t => t.SampledIn S) next := by
  refine ⟨fun fx _ => ⟨fun dfx _ => ?_, fun _ _ => hs.push hx⟩, fun _ _ => hs.push hx⟩
  exact ⟨fun _ => ⟨hs.push hx, converged_rootIn hx⟩, h ⟨x, fx, dfx⟩ rfl⟩

theorem settles_within {isSmall : Prop} {state : σ} (hs : s.Within S) (hx : x ∈ S)
    (hI : I state s.bracket) :
    Settles isSmall x fx method accuracy state s (KeepsWithin S I) :=
  ⟨fun _ => ⟨hs.samples, collapsed_rootIn hs.ends hx⟩, fun _ => ⟨hs.samples, hs.ends, hI⟩⟩

theorem whileBudget_within {limit : Nat} {pass : σ → Solve ℝ (Pass σ (Result ℝ))} {state : σ}
    (hpass : ∀ state s, s.Within S → I state s.bracket →
      (pass state).Ensures s (KeepsWithin S I) fun _ t => t.SampledIn S)
    (hs : s.Within S) (hI : I state s.bracket) :
    RefinesWithin S (whileBudget limit pass (exhausted limit method) state) s := by
  refine ensures_whileBudget (I := fun state s => s.Within S ∧ I state s.bracket)
    (fun state s h _ => (hpass state s h.1 h.2).mono (fun p t hp => ?_) fun _ _ h => h)
    (fun _ _ h => ?_) ⟨hs, hI⟩
  · cases p with
    | again state => exact ⟨⟨hp.1, hp.2.1⟩, hp.2.2⟩
    | stop r => exact hp
  · rw [ensures_exhausted]
    exact ⟨h.1.samples, fail_rootIn (by decide) (by decide)⟩

end Passes

/-! ## The methods -/

section Methods

variable {f : Objective ℝ} {accuracy : ℝ} {s : Session ℝ}

theorem ne_zero_of_missed {fx : ℝ} (haccuracy : 0 ≤ accuracy) (h : ¬|fx| ≤ accuracy) : fx ≠ 0 := by
  rintro rfl
  simp [haccuracy] at h

theorem Bisection.refine_within (hS : S.OrdConnected) (limit : Nat) (hs : s.Within S) :
    RefinesWithin S (refine f limit accuracy) s := by
  refine whileBudget_within (I := fun _ _ => True) (fun u s hs _ => ?_) hs trivial
  rw [ensures_pass]
  have hmid := hs.ends.mem hS s.bracket.midpoint_mem
  refine visits_within hs.samples hmid fun fx _ => settles_within ?_ hmid trivial
  exact ⟨hs.samples.push hmid, hs.ends.shrink hmid⟩

theorem FalsePosition.refine_within (hS : S.OrdConnected) (haccuracy : 0 ≤ accuracy) (limit : Nat)
    (hs : s.Within S) (hb : s.bracket.Straddles) : RefinesWithin S (refine f limit accuracy) s := by
  refine whileBudget_within (I := fun _ b => b.Straddles) (fun previous s hs hb => ?_) hs hb
  rw [ensures_pass]
  refine ⟨fun x h => ?_, fun _ _ => hs.samples⟩
  have hx := hs.ends.mem hS (chord_mem hb h)
  refine visits_within hs.samples hx fun fx hmiss => settles_within ?_ hx ?_
  · exact ⟨hs.samples.push hx, hs.ends.shrink hx⟩
  · exact hb.shrink (ne_zero_of_missed haccuracy hmiss)

theorem Secant.refine_within (hS : S.OrdConnected) (limit : Nat) (hs : s.Within S) :
    RefinesWithin S (refine f limit accuracy) s := by
  rw [RefinesWithin, ensures_refine]
  refine whileBudget_within (I := fun _ _ => True) (fun p s hs _ => ?_) hs trivial
  rw [ensures_pass]
  refine ⟨fun _ => ⟨hs.samples, fail_rootIn (by decide) (by decide)⟩, fun _ => ?_⟩
  refine ⟨fun d _ => ?_, fun _ _ => hs.samples⟩
  have hx := hs.ends.mem hS (insideStep_mem s.bracket p.x d)
  refine visits_within hs.samples hx fun fx _ => settles_within ?_ hx trivial
  exact ⟨hs.samples.push hx, hs.ends.shrink hx⟩

theorem Ridder.refine_within (hS : S.OrdConnected) (haccuracy : 0 ≤ accuracy) (limit : Nat)
    (hs : s.Within S) (hb : s.bracket.Straddles) : RefinesWithin S (refine f limit accuracy) s := by
  refine whileBudget_within (I := fun _ b => b.Straddles) (fun u s hs hb => ?_) hs hb
  rw [ensures_pass]
  have hmid := hs.ends.mem hS s.bracket.midpoint_mem
  have ht : (s.visited s.bracket.midpoint).Within S := ⟨hs.samples.push hmid, hs.ends⟩
  refine visits_within hs.samples hmid fun fMid hmiss => ⟨fun scale hscale => ?_, fun _ _ => ht.samples⟩
  refine ⟨fun _ => ⟨ht.samples, collapsed_rootIn ht.ends hmid⟩, fun _ => ?_⟩
  refine ⟨fun x h => ?_, fun _ _ => ht.samples⟩
  have hx := hs.ends.mem hS (fitted_mem hb hscale h)
  refine visits_within ht.samples hx fun fx hmiss' => settles_within ?_ hx ?_
  · exact ⟨ht.samples.push hx, narrow_all hs.ends hmid hx⟩
  · exact narrow_straddles hb (ne_zero_of_missed haccuracy hmiss) (ne_zero_of_missed haccuracy hmiss')

theorem opens_within {slopes : Except (Fault ℝ) (Slope ℝ)} {method : String}
    {next : Slope ℝ → Newton.Point ℝ → Prop} (hs : s.SampledIn S) (hroot : s.root ∈ S)
    (h : ∀ slope p, next slope p) :
    Opens f slopes accuracy method s (fun r t => t.SampledIn S ∧ r.RootIn S)
      (fun _ t => t.SampledIn S) next := by
  have ht := hs.push hroot
  refine ⟨fun slope _ => ⟨fun fx _ => ⟨fun dfx _ => ?_, fun _ _ => ht⟩, fun _ _ => ht⟩, fun _ _ => hs⟩
  exact ⟨fun _ => ⟨ht, converged_rootIn hroot⟩, fun _ => h slope ⟨s.root, fx, dfx⟩⟩

theorem Newton.refine_within (hS : S.OrdConnected) (supplied : Option (Slope ℝ)) (limit : Nat)
    (hs : s.Within S) (hroot : s.root ∈ S) :
    RefinesWithin S (refine f supplied limit accuracy) s := by
  have ht : (s.sampled s.root).Within S := ⟨hs.samples.push hroot, hs.ends⟩
  rw [RefinesWithin, ensures_refine]
  refine opens_within hs.samples hroot fun slope p => ?_
  refine whileBudget_within (I := fun _ _ => True) (fun p s hs _ => ?_) ht trivial
  rw [ensures_pass]
  refine ⟨fun _ => ⟨hs.samples, fail_rootIn (by decide) (by decide)⟩, fun _ => ?_⟩
  refine ⟨fun dx _ => ⟨fun _ => ?_, fun hinside => ?_⟩, fun _ _ => hs.samples⟩
  · exact ⟨hs.samples, fail_rootIn (by decide) (by decide)⟩
  · -- the test on the new point is all that keeps it in `S`: the bracket is never narrowed
    have hx := hs.ends.mem hS (inside_mem hinside)
    refine visitsWithSlope_within hs.samples hx fun q _ _ => settles_within ?_ hx trivial
    exact ⟨hs.samples.push hx, hs.ends⟩

theorem SafeNewton.orient_mem {b : Bracket ℝ} (hb : b.EndsIn S) :
    (orient b).1 ∈ S ∧ (orient b).2 ∈ S := by
  unfold orient
  split
  · exact ⟨hb.min, hb.max⟩
  · exact ⟨hb.max, hb.min⟩

theorem SafeNewton.next_mem {i : Iterate ℝ} {dx : ℝ} {p : Newton.Point ℝ} (hlow : i.xLow ∈ S)
    (hhigh : i.xHigh ∈ S) (hx : p.x ∈ S) : (i.next dx p).xLow ∈ S ∧ (i.next dx p).xHigh ∈ S := by
  unfold Iterate.next
  dsimp only
  split
  · exact ⟨hx, hhigh⟩
  · exact ⟨hlow, hx⟩

theorem SafeNewton.refine_within (hS : S.OrdConnected) (supplied : Option (Slope ℝ)) (limit : Nat)
    (hs : s.Within S) (hroot : s.root ∈ S) :
    RefinesWithin S (refine f supplied limit accuracy) s := by
  have ht : (s.sampled s.root).Within S := ⟨hs.samples.push hroot, hs.ends⟩
  rw [RefinesWithin, ensures_refine]
  refine opens_within hs.samples hroot fun slope p => ?_
  refine whileBudget_within (I := fun (i : Iterate ℝ) _ => i.xLow ∈ S ∧ i.xHigh ∈ S)
    (fun i s hs hi => ?_) ht (orient_mem hs.ends)
  rw [ensures_pass]
  refine ⟨fun (dx, x) h => ?_, fun _ _ => hs.samples⟩
  have hx : x ∈ S := hS.uIcc_subset hi.1 hi.2 (advance_mem h)
  refine visitsWithSlope_within hs.samples hx fun q hqx _ => settles_within ?_ hx ?_
  · exact ⟨hs.samples.push hx, hs.ends.shrink hx⟩
  · exact next_mem hi.1 hi.2 (hqx ▸ hx)

end Methods

/-! ## Brent's method -/

namespace Brent

variable {f : Objective ℝ} {accuracy : ℝ} {s : Session ℝ} {i : Iterate ℝ}

/-- The next estimate lies between the arranged estimate and its contrapoint, which straddle zero. -/
theorem pass_within (hS : S.OrdConnected) (haccuracy : 0 ≤ accuracy) (hs : s.Within S)
    (hi : i.x ∈ S) (harr : Arrangeable s.bracket i) :
    (pass f accuracy i).Ensures s
      (KeepsWithin S fun i b => i.x ∈ S ∧ Arrangeable b i) fun _ t => t.SampledIn S := by
  rw [ensures_pass]
  have hstraddles := arrange_straddles harr
  obtain ⟨hb, hi⟩ := arrange_all hs.ends hi
  rcases e : arrange s.bracket i with ⟨b, i⟩
  rw [e] at hb hi hstraddles
  have ht : ((s.narrowed b).located i.x).Within S := ⟨hs.samples, hb⟩
  refine ⟨fun _ => ⟨hs.samples, converged_rootIn hi⟩, fun _ => ⟨fun _ => ?_, fun hlong => ?_⟩⟩
  · exact ⟨hs.samples, collapsed_rootIn hb hi⟩
  refine ⟨fun (step, lastStep) h => ?_, fun _ _ => hs.samples⟩
  -- the estimate need not lie in the bracket, but it and the contrapoint lie in `S`
  have hx := hS.uIcc_subset hi hb.max (step_mem (Scalar.resolution_pos i.x) rfl (not_le.1 hlong) h)
  refine visits_within hs.samples hx fun fx hmiss => ?_
  refine ⟨hs.samples.push hx, ⟨hi, hb.max⟩, hx, ?_⟩
  have hfx := ne_zero_of_missed haccuracy hmiss
  exact ⟨hfx, hstraddles.ne_zero.2, (Opposite.or hstraddles hfx).symm⟩

theorem refine_within (hS : S.OrdConnected) (haccuracy : 0 ≤ accuracy) (limit : Nat)
    (hs : s.Within S) (hroot : s.root ∈ S) (hb : s.bracket.Straddles) :
    RefinesWithin S (refine f limit accuracy) s := by
  rw [RefinesWithin, ensures_refine]
  have ht : (s.sampled s.root).SampledIn S := hs.samples.push hroot
  refine ⟨fun fx _ => ⟨fun _ => ⟨ht, converged_rootIn hroot⟩, fun hmiss => ?_⟩, fun _ _ => ht⟩
  have hfx := ne_zero_of_missed haccuracy hmiss
  have hopp := pickContrapoint_straddles hb hfx
  exact whileBudget_within (I := fun i b => i.x ∈ S ∧ Arrangeable b i)
    (fun i s hs hi => pass_within hS haccuracy hs hi.1 hi.2)
    ⟨ht, pickContrapoint_all hs.ends fx⟩ ⟨hroot, hfx, hopp.ne_zero.2, .inl hopp⟩

end Brent

/-- Every method but the one by tolerance stays within. -/
theorem Refiner.refine_within {f : Objective ℝ} {accuracy : ℝ} {s : Session ℝ} (r : Refiner ℝ)
    (hr : r.method ≠ .brentq) (hS : S.OrdConnected) (haccuracy : 0 ≤ accuracy) (limit : Nat)
    (hs : s.Within S) (hroot : s.root ∈ S) (hb : s.bracket.Straddles) :
    RefinesWithin S (r.refine f limit accuracy) s := by
  unfold Refiner.refine Refiner.refineBy
  cases h : r.method with
  | bisection => exact Bisection.refine_within hS limit hs
  | brent => exact Brent.refine_within hS haccuracy limit hs hroot hb
  | brentq => exact absurd h hr
  | falsePosition => exact FalsePosition.refine_within hS haccuracy limit hs hb
  | newton => exact Newton.refine_within hS r.slope limit hs hroot
  | safeNewton => exact SafeNewton.refine_within hS r.slope limit hs hroot
  | ridder => exact Ridder.refine_within hS haccuracy limit hs hb
  | secant => exact Secant.refine_within hS limit hs

end RootSearch
