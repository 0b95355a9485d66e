import RootSearch.Proofs.Bracketing
import RootSearch.Proofs.Containment
import RootSearch.Proofs.Contrapoint
import RootSearch.Proofs.Stalls
/-!
# The samples of a search rebuild its bracket

The search by tolerance keeps its own points: the best one and a counterpoint, which change places. What
it sampled is shrunk into the bracket afterwards, by the signs of the ends alone. Both keep the two points
about the sign change, so the bracket ends up with the search's own, and Brent's method is handed the root
with the other one for a contrapoint.
-/

namespace RootSearch

open Solve

namespace Bracket

variable {p q : ℝ × ℝ} {b : Bracket ℝ}

theorem Spans.of_all {P : ℝ → ℝ → Prop} (h : b.Spans p q) (hb : b.All P) : P p.1 p.2 ∧ P q.1 q.2 := by
  rcases h with rfl | rfl
  · exact ⟨hb.min, hb.max⟩
  · exact ⟨hb.max, hb.min⟩

theorem Spans.uIcc_eq (h : b.Spans p q) : Set.uIcc p.1 q.1 = Set.uIcc b.xMin b.xMax := by
  rcases h with rfl | rfl
  · rfl
  · exact Set.uIcc_comm p.1 q.1

end Bracket

namespace Brentq

/-! ## The bracket after the search -/

section Narrowing

variable {α : Type} [Scalar α]

/-- Searches by a strategy and narrows the bracket by what was sampled. -/
def narrowBy (strategy : Strategy α) (f : Objective α) (accuracy : α) (steps : Nat) :
    Solve α (Found α) := do
  let (a, b) := ordered (← bracket)
  let found ← (strategy a b accuracy steps).run f []
  setBracket (replay (← bracket) found.samples.reverse)
  setRoot found.root
  return found

/-- Accepts the root that was found, or goes on by Brent's method. -/
def conclude (f : Objective α) (limit : Nat) (accuracy : α) (found : Found α) : Solve α (Result α) := do
  if found.meets accuracy then converged found.root name
  else do
    log (.polishing found.root (← bracket))
    polish f limit accuracy

/-- The method narrows the bracket and concludes, if it is left steps for a search. -/
theorem refineBy_eq (strategy : Strategy α) (f : Objective α) (limit : Nat) (accuracy : α) :
    refineBy strategy f limit accuracy = (do
      let steps : Int := limit - (← get).evaluations - 2
      if steps < 1 then polish f limit accuracy
      else narrowBy strategy f accuracy steps.toNat >>= conclude f limit accuracy) := by
  simp only [refineBy, narrowBy, conclude, bind_assoc, pure_bind]

theorem exec_refineBy {strategy : Strategy α} {f : Objective α} {limit : Nat} {accuracy : α}
    {s : Session α} {steps : Nat} (hsteps : (limit : Int) - s.evaluations - 2 = steps) (hpos : 0 < steps) :
    (refineBy strategy f limit accuracy).exec s =
      (narrowBy strategy f accuracy steps >>= conclude f limit accuracy).exec s := by
  have hleft : ¬(limit : Int) - s.evaluations - 2 < 1 := by omega
  rw [refineBy_eq, exec_bind, exec_get]
  dsimp only
  rw [if_neg hleft, hsteps, Int.toNat_natCast]

theorem ensures_narrowBy {strategy : Strategy α} {f : Objective α} {accuracy : α} {steps : Nat}
    {s : Session α} {P : Found α → Session α → Prop} {E : Fault α → Session α → Prop} :
    (narrowBy strategy f accuracy steps).Ensures s P E ↔
      ((strategy (ordered s.bracket).1 (ordered s.bracket).2 accuracy steps).run f []).Ensures s
        (fun found t =>
          P found ((t.narrowed (replay t.bracket found.samples.reverse)).located found.root)) E := by
  simp [narrowBy, Session.narrowed, Session.located]

omit [Scalar α] in
theorem run_values {f : Objective α} (inquiry : Inquiry α) {samples : List (α × α)} {s : Session α}
    (hsamples : ∀ p ∈ samples, f.value p.1 = .ok p.2) :
    (inquiry.run f samples).Ensures s (fun found _ => ∀ p ∈ found.samples, f.value p.1 = .ok p.2)
      fun _ _ => True := by
  induction inquiry generalizing samples s with
  | finish root isConverged => exact hsamples
  | refuse fault => trivial
  | ask x next ih =>
    simp only [Inquiry.run, ensures_bind, ensures_sample]
    apply holds_of_values
    intro fx hfx
    apply ih
    intro p hp
    rcases List.mem_cons.1 hp with rfl | hp
    · exact hfx
    · exact hsamples p hp

/-- The ends of a bracket with their values, in the order of the ends. -/
theorem ordered_spans (b : Bracket α) :
    ∃ p q : α × α, ordered b = (p.1, q.1) ∧ b.Spans p q := by
  unfold ordered
  split
  · exact ⟨(b.xMax, b.fMax), (b.xMin, b.fMin), rfl, .inr rfl⟩
  · exact ⟨(b.xMin, b.fMin), (b.xMax, b.fMax), rfl, .inl rfl⟩

end Narrowing

section Replay

variable {b : Bracket ℝ} {p q ends ends' : ℝ × ℝ} {samples : List (ℝ × ℝ)}

theorem replay_concat (b : Bracket ℝ) (samples : List (ℝ × ℝ)) (x fx : ℝ) :
    replay b (samples ++ [(x, fx)]) =
      if fx = 0 then replay b samples else (replay b samples).shrink x fx := by
  simp [replay, Scalar.real_zero]

/-- Replayed in their order, the samples leave the two points that the search works between. -/
theorem Narrows.replay_spans {a c : ℝ × ℝ} (hb : b.Spans a c) (hac : Opposite a.2 c.2)
    (h : Narrows a c samples p q) : (replay b samples.reverse).Spans p q := by
  induction h with
  | ends =>
    have hreplay : replay b [a, c] = (b.shrink a.1 a.2).shrink c.1 c.2 := by
      have ha := hac.ne_zero.1
      have hc := hac.ne_zero.2
      simp [replay, Scalar.real_zero, ha, hc]
    show (replay b [a, c]).Spans c a
    rw [hreplay]
    exact ((hb.shrink hac hac).symm).shrink hac.symm hac.symm
  | swap _ ih => exact ih.symm
  | @sample samples p q x fx h _ hfx ih =>
    rw [List.reverse_cons, replay_concat, if_neg hfx.ne_zero.1]
    exact ih.shrink (h.opposite hac) hfx
  | zero _ _ ih => rwa [List.reverse_cons, replay_concat, if_pos rfl]

/-- The contrapoint of one end is the other. -/
theorem pickContrapoint_spans {x fx : ℝ} (hb : b.Spans (x, fx) q) (h : Opposite fx q.2) :
    ((Brent.pickContrapoint b fx).xMax, (Brent.pickContrapoint b fx).fMax) = q := by
  unfold Brent.pickContrapoint
  rw [Scalar.real_zero]
  rcases hb with rfl | rfl
  · rw [if_neg (mul_self_nonneg fx).not_gt]
  · rw [if_pos (opposite_iff_mul_neg.1 h)]

end Replay

/-- What the search has left behind: the two points that its samples `narrow` the bracket to. -/
structure Rebuilt (f : Objective ℝ) (b : Bracket ℝ) (found : Found ℝ) (p q : ℝ × ℝ) (t : Session ℝ) :
    Prop where
  spans : t.bracket.Spans p q
  opposite : Opposite p.2 q.2
  within : Set.uIcc p.1 q.1 ⊆ Set.uIcc b.xMin b.xMax
  values : f.value p.1 = .ok p.2 ∧ f.value q.1 = .ok q.2
  root : t.root = found.root
  rootValue : found.root = p.1 ∨ found.root = q.1 ∨ f.value found.root = .ok 0

section Runs

variable {strategy : Strategy ℝ} {f : Objective ℝ} {accuracy : ℝ} {s t : Session ℝ} {b : Bracket ℝ}
variable {found : Found ℝ} {p q : ℝ × ℝ}

theorem narrowBy_rebuilds (hstrategy : strategy.Brackets) {steps : ℕ} (haccuracy : 0 < accuracy)
    (hpos : 0 < steps) (hvalues : s.bracket.All fun x fx => f.value x = .ok fx) (hs : s.bracket.Straddles) :
    (narrowBy strategy f accuracy steps).Ensures s
      (fun found t => ∃ a c p q, s.bracket.Spans a c ∧ ordered s.bracket = (a.1, c.1) ∧
        found.Brackets a c p q ∧ Rebuilt f s.bracket found p q t)
      fun fault _ => (∃ x, f.value x = .error fault) ∨ stepLimit < steps := by
  obtain ⟨a, c, hordered, hspans⟩ := ordered_spans s.bracket
  have hac : Opposite a.2 c.2 := hspans.straddles_iff.1 hs
  obtain ⟨ha, hc⟩ := hspans.of_all hvalues
  rw [ensures_narrowBy, hordered]
  have hsearch := hstrategy f a.1 c.1 a.2 c.2 accuracy steps s ha hc hac haccuracy hpos
  refine ((hsearch.and (run_values _ (by simp))).and (run_bracket _ [])).mono ?_ fun _ _ h => h.1.1
  rintro found t ⟨⟨⟨p, q, hfound⟩, hsampled⟩, hbracket⟩
  refine ⟨a, c, p, q, hspans, rfl, hfound, ?_⟩
  exact {
    spans := by
      show (replay t.bracket found.samples.reverse).Spans p q
      rw [hbracket]
      exact hfound.narrows.replay_spans hspans hac
    opposite := hfound.narrows.opposite hac
    within := hspans.uIcc_eq ▸ hfound.narrows.within
    values := ⟨hsampled p hfound.narrows.mem.1, hsampled q hfound.narrows.mem.2⟩
    root := rfl
    rootValue := hfound.root.imp_right (Or.imp_right (hsampled _)) }

/-- Brent's method begins between the root and the other point. -/
theorem Rebuilt.begins (h : Rebuilt f b found p q t) (haccuracy : 0 < accuracy) {l : Loop ℝ}
    (hl : (⟨.brent, none⟩ : Refiner ℝ).Enters f accuracy t l) :
    ∃ fx d, l = ⟨Brent.Iterate ℝ, Brent.pass f accuracy, ⟨t.root, fx, d, d⟩, l.session⟩ ∧
      f.value t.root = .ok fx ∧ Opposite fx l.session.bracket.fMax ∧
      t.bracket.Spans (t.root, fx) (l.session.bracket.xMax, l.session.bracket.fMax) := by
  obtain ⟨fx, hfx, hmiss, rfl⟩ := hl
  have hne : fx ≠ 0 := ne_zero_of_missed haccuracy.le hmiss
  have hother : ∃ r, t.bracket.Spans (t.root, fx) r ∧ Opposite fx r.2 := by
    rcases h.rootValue with hp | hq | hzero
    · have hroot : t.root = p.1 := h.root.trans hp
      have hvalue : fx = p.2 := Except.ok.inj ((hroot ▸ hfx).symm.trans h.values.1)
      rw [hroot, hvalue]
      exact ⟨q, h.spans, h.opposite⟩
    · have hroot : t.root = q.1 := h.root.trans hq
      have hvalue : fx = q.2 := Except.ok.inj ((hroot ▸ hfx).symm.trans h.values.2)
      rw [hroot, hvalue]
      exact ⟨p, h.spans.symm, h.opposite.symm⟩
    · rw [h.root, hzero] at hfx
      exact absurd (Except.ok.inj hfx).symm hne
  obtain ⟨r, hr, hopposite⟩ := hother
  have hpick := pickContrapoint_spans hr hopposite
  refine ⟨fx, _, rfl, hfx, ?_, ?_⟩
  · show Opposite fx (Brent.pickContrapoint t.bracket fx).fMax
    rw [← hpick] at hopposite
    exact hopposite
  · show t.bracket.Spans (t.root, fx)
      ((Brent.pickContrapoint t.bracket fx).xMax, (Brent.pickContrapoint t.bracket fx).fMax)
    rwa [hpick]

end Runs

/-- Let a strategy bracket. Over the reals, begun on a sign change with steps left for a search, the
method narrows the bracket by its samples and then accepts the root or goes on by Brent's method. It
fails to narrow only where the objective fails, or if the steps are too many to be counted. Once
narrowed, the bracket is the pair that the samples have left the search with: two points of the first
bracket with values of strictly opposite signs, one of which is the root unless the objective is zero
there. Brent's method begins with the root and the other point for its contrapoint. -/
theorem search_samples_rebuild_bracket (strategy : Strategy ℝ) (hstrategy : strategy.Brackets)
    (f : Objective ℝ) (limit steps : ℕ) (accuracy : ℝ) (s : Session ℝ) (haccuracy : 0 < accuracy)
    (hsteps : (limit : Int) - s.evaluations - 2 = steps) (hpos : 0 < steps)
    (hmin : f.value s.bracket.xMin = .ok s.bracket.fMin)
    (hmax : f.value s.bracket.xMax = .ok s.bracket.fMax) (hs : s.bracket.Straddles) :
    (refineBy strategy f limit accuracy).exec s =
      (narrowBy strategy f accuracy steps >>= conclude f limit accuracy).exec s ∧
    (∀ found t, (narrowBy strategy f accuracy steps).exec s = (.ok found, t) →
      ∃ a c p q, s.bracket.Spans a c ∧ ordered s.bracket = (a.1, c.1) ∧
        Narrows a c found.samples p q ∧ t.bracket.Spans p q ∧ Opposite p.2 q.2 ∧
        Set.uIcc p.1 q.1 ⊆ Set.uIcc s.bracket.xMin s.bracket.xMax ∧ t.root = found.root ∧
        (t.root = p.1 ∨ t.root = q.1 ∨ f.value t.root = .ok 0) ∧
        ∀ l, (⟨.brent, none⟩ : Refiner ℝ).Enters f accuracy
            (t.logged (.polishing found.root t.bracket)) l →
          ∃ fx d, l = ⟨Brent.Iterate ℝ, Brent.pass f accuracy, ⟨t.root, fx, d, d⟩, l.session⟩ ∧
            f.value t.root = .ok fx ∧ Opposite fx l.session.bracket.fMax ∧
            t.bracket.Spans (t.root, fx) (l.session.bracket.xMax, l.session.bracket.fMax)) ∧
    ∀ fault t, (narrowBy strategy f accuracy steps).exec s = (.error fault, t) →
      (∃ x, f.value x = .error fault) ∨ stepLimit < steps := by
  have hnarrow := narrowBy_rebuilds hstrategy haccuracy hpos ⟨hmin, hmax⟩ hs
  refine ⟨exec_refineBy hsteps hpos, fun found t hexec => ?_, fun fault t hexec => hnarrow.fault hexec⟩
  obtain ⟨a, c, p, q, hspans, hordered, hfound, h⟩ := hnarrow.value hexec
  have hlogged : Rebuilt f s.bracket found p q (t.logged (.polishing found.root t.bracket)) :=
    ⟨h.spans, h.opposite, h.within, h.values, h.root, h.rootValue⟩
  refine ⟨a, c, p, q, hspans, hordered, hfound.narrows, h.spans, h.opposite, h.within, h.root, ?_, ?_⟩
  · rw [h.root]
    exact h.rootValue
  · intro l hl
    exact hlogged.begins haccuracy hl

/-- The program's own search for the square root of two. -/
theorem search_samples_rebuild_bracket_of_square :
    let f : Objective ℝ := .ofTotal fun x => x * x - 2
    let s : Session ℝ := { root := 1, bracket := ⟨0, 2, -2, 2⟩, evaluations := 2 }
    ∃ found t p q, (narrowBy strategy f 1e-9 96).exec s = (.ok found, t) ∧
      Narrows (0, -2) (2, 2) found.samples p q ∧ t.bracket.Spans p q ∧ Opposite p.2 q.2 ∧
      (t.root = p.1 ∨ t.root = q.1 ∨ f.value t.root = .ok 0) := by
  intro f s
  have hvalue {x fx : ℝ} (h : x * x - 2 = fx) : f.value x = .ok fx := congrArg Except.ok h
  obtain ⟨-, hnarrowed, hfailed⟩ :=
    search_samples_rebuild_bracket strategy strategy_brackets f 100 96 1e-9 s (by norm_num)
      (by norm_num [s]) (by norm_num) (hvalue (by norm_num [s])) (hvalue (by norm_num [s]))
      (.inl ⟨by norm_num [s], by norm_num [s]⟩)
  rcases hexec : (narrowBy strategy f 1e-9 96).exec s with ⟨fault | found, t⟩
  · rcases hfailed fault t hexec with ⟨x, hx⟩ | hmany
    · cases hx
    · norm_num [stepLimit] at hmany
  · obtain ⟨⟨a, fa⟩, ⟨c, fc⟩, p, q, hspans, hordered, hnarrows, hrebuilt, hopposite, -, -, hroot, -⟩ :=
      hnarrowed found t hexec
    have hends : ordered s.bracket = (0, 2) := if_neg (by norm_num [s])
    obtain ⟨rfl, rfl⟩ := Prod.mk.inj (hordered.symm.trans hends)
    have hvalues : fa = -2 ∧ fc = 2 := by
      rcases hspans with h | h
      · obtain ⟨-, -, ha, hc⟩ := Bracket.mk.inj h
        exact ⟨ha.symm, hc.symm⟩
      · have hne := (Bracket.mk.inj h).1
        norm_num at hne
    obtain ⟨rfl, rfl⟩ := hvalues
    exact ⟨found, t, p, q, rfl, hnarrows, hrebuilt, hopposite, hroot⟩

end Brentq

end RootSearch
