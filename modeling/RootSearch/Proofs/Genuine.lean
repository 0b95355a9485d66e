import RootSearch.Proofs.Ends
import RootSearch.Proofs.Passes
/-!
# Values belong to their points

A session keeps points together with values of the objective. Every such pair stays genuine: the
objective was called at the point and gave the value. So the root of a converged result, which a
method finds by its value, is a point where the objective has that value.
-/

namespace RootSearch

open Solve

variable {α σ : Type}

/-- The objective was called at `x` and gave `fx`. -/
structure Sampled (f : Objective α) (samples : Array α) (x fx : α) : Prop where
  mem : x ∈ samples
  value : f.value x = .ok fx

namespace Sampled

variable {f : Objective α} {samples : Array α} {x fx : α}

theorem push (h : Sampled f samples x fx) (y : α) : Sampled f (samples.push y) x fx :=
  ⟨Array.mem_push_of_mem y h.mem, h.value⟩

theorem latest (samples : Array α) (h : f.value x = .ok fx) : Sampled f (samples.push x) x fx :=
  ⟨Array.mem_push_self, h⟩

end Sampled

/-! ## Brackets -/

/-- Both values of a bracket belong to its ends. -/
abbrev Bracket.Genuine (f : Objective α) (samples : Array α) (b : Bracket α) : Prop :=
  b.All (Sampled f samples)

theorem Bracket.Genuine.push {f : Objective α} {samples : Array α} {b : Bracket α}
    (h : b.Genuine f samples) (y : α) : b.Genuine f (samples.push y) :=
  h.imp fun _ _ hx => hx.push y

/-- Both values of the session's bracket belong to its ends. -/
def Session.Genuine (f : Objective α) (s : Session α) : Prop := s.bracket.Genuine f s.samples

/-! ## Results -/

/-- A converged result names a point where the objective was called and met the accuracy. -/
def Result.Sound [Scalar α] (f : Objective α) (samples : Array α) (accuracy : α) (r : Result α) :
    Prop :=
  r.status = .converged → ∃ x fx, r.root = some x ∧ Sampled f samples x fx ∧ Scalar.abs fx ≤ accuracy

/-- A result is sound, and the values of the reported bracket belong to its ends. -/
structure Result.Genuine [Scalar α] (f : Objective α) (samples : Array α) (accuracy : α)
    (r : Result α) : Prop where
  sound : r.Sound f samples accuracy
  ends : ∃ b, r.bracket = some b ∧ b.Genuine f samples

section Results

variable [Scalar α] {f : Objective α} {s : Session α} {accuracy x fx : α}

theorem converged_genuine (hs : s.Genuine f) (method : String) (hx : Sampled f s.samples x fx)
    (h : Scalar.abs fx ≤ accuracy) : (s.converged x method).Genuine f s.samples accuracy :=
  ⟨fun _ => ⟨x, fx, rfl, hx, h⟩, s.bracket, rfl, hs⟩

theorem fail_genuine (hs : s.Genuine f) {status : Status} (hstatus : status ≠ .converged)
    (reason : Reason α) (method : String) (root : Option α) :
    (s.fail status reason method root).Genuine f s.samples accuracy :=
  ⟨fun h => absurd h hstatus, s.bracket, rfl, hs⟩

theorem exhausted_genuine (hs : s.Genuine f) (limit : Nat) (method : String) :
    (s.exhausted limit method).Genuine f s.samples accuracy :=
  fail_genuine hs (by decide) _ method none

theorem collapsed_genuine (hs : s.Genuine f) (method : String) (hx : Sampled f s.samples x fx) :
    (s.collapsed x fx method accuracy).Genuine f s.samples accuracy := by
  have hbest : Sampled f s.samples (s.bracket.best (x, fx)).1 (s.bracket.best (x, fx)).2 :=
    Bracket.All.best hs hx
  simp only [Session.collapsed]
  split
  · next h => exact converged_genuine hs method hbest h
  · exact fail_genuine hs (by decide) _ method _

end Results

/-! ## What a pass keeps -/

/-- A pass goes on with a genuine session and iterate, or stops with a genuine result. -/
abbrev KeepsGenuine [Scalar α] (f : Objective α) (accuracy : α) (I : σ → Array α → Prop)
    (p : Pass σ (Result α)) (t : Session α) : Prop :=
  p.Keeps (fun state => t.Genuine f ∧ I state t.samples) fun r => r.Genuine f t.samples accuracy

section Passes

variable [Scalar α] {f : Objective α} {accuracy x fx : α} {method : String} {s : Session α}
variable {I : σ → Array α → Prop}

theorem visits_genuine {next : α → Prop} (hs : s.Genuine f)
    (h : ∀ fx, Sampled f (s.visited x).samples x fx → next fx) :
    Visits f accuracy method x s (KeepsGenuine f accuracy I) (fun _ _ => True) next := by
  refine ⟨fun fx hfx => ?_, fun _ _ => trivial⟩
  have hx : Sampled f (s.visited x).samples x fx := Sampled.latest s.samples hfx
  have ht : (s.visited x).Genuine f := Bracket.Genuine.push hs x
  exact ⟨fun hle => converged_genuine ht method hx hle, fun _ => h fx hx⟩

theorem visitsWithSlope_genuine {slope : Slope α} {next : Newton.Point α → Prop} (hs : s.Genuine f)
    (h : ∀ p : Newton.Point α, p.x = x → Sampled f (s.visited x).samples x p.fx → next p) :
    VisitsWithSlope f slope accuracy method x s (KeepsGenuine f accuracy I) (fun _ _ => True) next := by
  refine ⟨fun fx hfx => ⟨fun dfx _ => ?_, fun _ _ => trivial⟩, fun _ _ => trivial⟩
  have hx : Sampled f (s.visited x).samples x fx := Sampled.latest s.samples hfx
  have ht : (s.visited x).Genuine f := Bracket.Genuine.push hs x
  exact ⟨fun hle => converged_genuine ht method hx hle, fun _ => h ⟨x, fx, dfx⟩ rfl hx⟩

theorem settles_genuine {isSmall : Prop} {state : σ} (hs : s.Genuine f)
    (hx : Sampled f s.samples x fx) (hI : I state s.samples) :
    Settles isSmall x fx method accuracy state s (KeepsGenuine f accuracy I) :=
  ⟨fun _ => collapsed_genuine hs method hx, fun _ => ⟨hs, hI⟩⟩

end Passes

/-! ## The methods -/

section Methods

variable [Scalar α] {f : Objective α} {accuracy : α} {s : Session α}

/-- A method is started on a genuine session and ends with a genuine result. -/
abbrev RefinesGenuine (f : Objective α) (accuracy : α) (m : Solve α (Result α))
    (s : Session α) : Prop :=
  m.Ensures s (fun r t => r.Genuine f t.samples accuracy) fun _ _ => True

/-- A loop of passes that keep the session genuine ends with a genuine result. -/
theorem whileBudget_genuine {limit : Nat} {pass : σ → Solve α (Pass σ (Result α))}
    {method : String} {I : σ → Array α → Prop} {state : σ}
    (hpass : ∀ state s, s.Genuine f → I state s.samples →
      (pass state).Ensures s (KeepsGenuine f accuracy I) fun _ _ => True)
    (hs : s.Genuine f) (hI : I state s.samples) :
    RefinesGenuine f accuracy (whileBudget limit pass (exhausted limit method) state) s :=
  ensures_whileBudget (I := fun state s => s.Genuine f ∧ I state s.samples)
    (fun state s h _ => hpass state s h.1 h.2)
    (fun _ _ h => by simpa using exhausted_genuine h.1 limit method) ⟨hs, hI⟩

theorem Bisection.refine_genuine (limit : Nat) (hs : s.Genuine f) :
    RefinesGenuine f accuracy (refine f limit accuracy) s := by
  refine whileBudget_genuine (I := fun _ _ => True) (fun u s hs _ => ?_) hs trivial
  rw [ensures_pass]
  refine visits_genuine hs fun fx hx => settles_genuine ?_ hx trivial
  exact (Bracket.Genuine.push hs _).shrink hx

theorem FalsePosition.refine_genuine (limit : Nat) (hs : s.Genuine f) :
    RefinesGenuine f accuracy (refine f limit accuracy) s := by
  refine whileBudget_genuine (I := fun _ _ => True) (fun previous s hs _ => ?_) hs trivial
  rw [ensures_pass]
  refine ⟨fun x _ => visits_genuine hs fun fx hx => settles_genuine ?_ hx trivial, fun _ _ => trivial⟩
  exact (Bracket.Genuine.push hs _).shrink hx

theorem Secant.refine_genuine (limit : Nat) (hs : s.Genuine f) :
    RefinesGenuine f accuracy (refine f limit accuracy) s := by
  rw [RefinesGenuine, ensures_refine]
  refine whileBudget_genuine (I := fun _ _ => True) (fun p s hs _ => ?_) hs trivial
  rw [ensures_pass]
  refine ⟨fun _ => fail_genuine hs (by decide) _ _ _, fun _ => ⟨fun d _ => ?_, fun _ _ => trivial⟩⟩
  refine visits_genuine hs fun fx hx => settles_genuine ?_ hx trivial
  exact (Bracket.Genuine.push hs _).shrink hx

theorem Ridder.refine_genuine (limit : Nat) (hs : s.Genuine f) :
    RefinesGenuine f accuracy (refine f limit accuracy) s := by
  refine whileBudget_genuine (I := fun _ _ => True) (fun u s hs _ => ?_) hs trivial
  rw [ensures_pass]
  refine visits_genuine hs fun fMid hmid => ⟨fun scale _ => ?_, fun _ _ => trivial⟩
  have ht : (s.visited s.bracket.midpoint).Genuine f := Bracket.Genuine.push hs _
  refine ⟨fun _ => collapsed_genuine ht _ hmid, fun _ => ⟨fun x _ => ?_, fun _ _ => trivial⟩⟩
  refine visits_genuine ht fun fx hx => settles_genuine ?_ hx trivial
  -- the midpoint may become an end only now, one sample later
  exact narrow_all (Bracket.Genuine.push ht _) (hmid.push x) hx

theorem opens_genuine {slopes : Except (Fault α) (Slope α)} {method : String}
    {next : Slope α → Newton.Point α → Prop} (hs : s.Genuine f) (h : ∀ slope p, next slope p) :
    Opens f slopes accuracy method s (fun r t => r.Genuine f t.samples accuracy) (fun _ _ => True)
      next := by
  refine ⟨fun slope _ => ⟨fun fx hfx => ⟨fun dfx _ => ?_, fun _ _ => trivial⟩, fun _ _ => trivial⟩,
    fun _ _ => trivial⟩
  have hx : Sampled f (s.sampled s.root).samples s.root fx := Sampled.latest s.samples hfx
  have ht : (s.sampled s.root).Genuine f := Bracket.Genuine.push hs _
  exact ⟨fun hle => converged_genuine ht method hx hle, fun _ => h slope ⟨s.root, fx, dfx⟩⟩

theorem Newton.refine_genuine (supplied : Option (Slope α)) (limit : Nat) (hs : s.Genuine f) :
    RefinesGenuine f accuracy (refine f supplied limit accuracy) s := by
  have ht : (s.sampled s.root).Genuine f := Bracket.Genuine.push hs _
  rw [RefinesGenuine, ensures_refine]
  refine opens_genuine hs fun slope p => ?_
  refine whileBudget_genuine (I := fun _ _ => True) (fun p s hs _ => ?_) ht trivial
  rw [ensures_pass]
  refine ⟨fun _ => fail_genuine hs (by decide) _ _ _, fun _ => ⟨fun dx _ => ?_, fun _ _ => trivial⟩⟩
  refine ⟨fun _ => fail_genuine (s := s.located _) hs (by decide) _ _ _, fun _ => ?_⟩
  refine visitsWithSlope_genuine hs fun q _ hx => settles_genuine ?_ hx trivial
  exact Bracket.Genuine.push hs _

theorem SafeNewton.refine_genuine (supplied : Option (Slope α)) (limit : Nat) (hs : s.Genuine f) :
    RefinesGenuine f accuracy (refine f supplied limit accuracy) s := by
  have ht : (s.sampled s.root).Genuine f := Bracket.Genuine.push hs _
  rw [RefinesGenuine, ensures_refine]
  refine opens_genuine hs fun slope p => ?_
  refine whileBudget_genuine (I := fun _ _ => True) (fun i s hs _ => ?_) ht trivial
  rw [ensures_pass]
  refine ⟨fun (dx, x) _ => ?_, fun _ _ => trivial⟩
  refine visitsWithSlope_genuine hs fun q _ hx => settles_genuine ?_ hx trivial
  exact (Bracket.Genuine.push hs _).shrink hx

end Methods

/-! ## Brent's method -/

namespace Brent

variable [Scalar α] {f : Objective α} {accuracy : α} {s : Session α} {i : Iterate α}

theorem pass_genuine (hs : s.Genuine f) (hi : Sampled f s.samples i.x i.fx) :
    (pass f accuracy i).Ensures s
      (KeepsGenuine f accuracy fun i samples => Sampled f samples i.x i.fx) fun _ _ => True := by
  rw [ensures_pass]
  obtain ⟨hb, hi⟩ := arrange_all hs hi
  rcases e : arrange s.bracket i with ⟨b, i⟩
  rw [e] at hb hi
  have ht : ((s.narrowed b).located i.x).Genuine f := hb
  refine ⟨fun hle => converged_genuine ht _ hi hle, fun _ => ⟨fun _ => ?_, fun _ => ?_⟩⟩
  · exact collapsed_genuine ht _ hi
  · refine ⟨fun (step, lastStep) _ => ?_, fun _ _ => trivial⟩
    have hu : (((s.narrowed b).located i.x).narrowed { b with xMin := i.x, fMin := i.fx }).Genuine f :=
      ⟨hi, hb.max⟩
    exact visits_genuine hu fun fx hx => ⟨Bracket.Genuine.push hu _, hx⟩

theorem refine_genuine (limit : Nat) (hs : s.Genuine f) :
    RefinesGenuine f accuracy (refine f limit accuracy) s := by
  rw [RefinesGenuine, ensures_refine]
  refine ⟨fun fx hfx => ?_, fun _ _ => trivial⟩
  have hx : Sampled f (s.sampled s.root).samples s.root fx := Sampled.latest s.samples hfx
  have ht : (s.sampled s.root).Genuine f := Bracket.Genuine.push hs _
  refine ⟨fun hle => converged_genuine ht _ hx hle, fun _ => ?_⟩
  exact whileBudget_genuine (fun i s hs hi => pass_genuine hs hi) (pickContrapoint_all ht fx) hx

end Brent

/-- Every method but the one by tolerance ends with a genuine result, to whatever accuracy. -/
theorem Refiner.native_genuine [Scalar α] {f : Objective α} {accuracy : α} {s : Session α}
    {r : Refiner α} (hr : r.method ≠ .brentq) (limit : Nat) (hs : s.Genuine f) :
    RefinesGenuine f accuracy (r.refine f limit accuracy) s := by
  unfold Refiner.refine refineBy
  cases h : r.method with
  | bisection => exact Bisection.refine_genuine limit hs
  | brent => exact Brent.refine_genuine limit hs
  | brentq => exact absurd h hr
  | falsePosition => exact FalsePosition.refine_genuine limit hs
  | newton => exact Newton.refine_genuine r.slope limit hs
  | safeNewton => exact SafeNewton.refine_genuine r.slope limit hs
  | ridder => exact Ridder.refine_genuine limit hs
  | secant => exact Secant.refine_genuine limit hs

end RootSearch
