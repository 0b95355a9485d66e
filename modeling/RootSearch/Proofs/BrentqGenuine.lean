import RootSearch.Proofs.DoubleHalf
import RootSearch.Proofs.Genuine
import RootSearch.Proofs.Strategy
/-!
# Brent's method by tolerance finds genuine roots

The method looks the value at the root of its search up by comparing points. Equal points need not be
the same: there are two zeros. So it relies on a search that ends at a point that it asked for, and at
the better of two equal ones. The library's own strategy is such a search, for it never goes on from one
zero to the other.
-/

namespace RootSearch

open Solve

namespace Brentq

/-! ## What is relied on -/

section Strategies

variable {α : Type} [Scalar α]

/-- The root is a point that was asked for, with a value no larger than the one found for it. -/
def Found.NamesSample (found : Found α) : Prop :=
  ∃ fx, (found.root, fx) ∈ found.samples ∧
    ∀ fy, found.valueAtRoot = some fy → Scalar.abs fx ≤ Scalar.abs fy

/-- To a tolerance of at least the spacing of doubles at one, a search that converges ends at a point
that it asked for. Where it asked for an equal point later, the value there is no smaller. -/
def Strategy.EndsWhereItAsked (strategy : Strategy α) : Prop :=
  ∀ (f : Objective α) (a b tolerance : α) (steps : Nat) (s : Session α), Scalar.epsilon ≤ tolerance →
    ((strategy a b tolerance steps).run f []).Ensures s
      (fun found _ => found.isConverged = true → found.NamesSample) fun _ _ => True

end Strategies

/-! ## The method -/

section Method

variable {α : Type} {f : Objective α} {s : Session α}

/-- Whatever an inquiry asks for was sampled. -/
theorem run_genuine (inquiry : Inquiry α) {samples : List (α × α)} (hs : s.Genuine f)
    (hsamples : ∀ p ∈ samples, Sampled f s.samples p.1 p.2) :
    (inquiry.run f samples).Ensures s
      (fun found t => t.Genuine f ∧ ∀ p ∈ found.samples, Sampled f t.samples p.1 p.2)
      fun _ _ => True := by
  induction inquiry generalizing samples s with
  | finish root isConverged => exact ⟨hs, hsamples⟩
  | refuse fault => trivial
  | ask x next ih =>
    rw [ensures_ask]
    apply holds_of_values
    intro fx hfx
    refine ih fx (Bracket.Genuine.push hs x) ?_
    intro p hp
    rcases List.mem_cons.1 hp with rfl | hp
    · exact Sampled.latest s.samples hfx
    · exact (hsamples p hp).push x

variable [Scalar α] {accuracy : α}

theorem polish_genuine (limit : Nat) (hs : s.Genuine f) :
    RefinesGenuine f accuracy (polish f limit accuracy) s := by
  simp only [polish, ensures_bind, ensures_pure]
  exact (Brent.refine_genuine limit hs).mono (fun r t h => ⟨h.sound, h.ends⟩) fun _ _ h => h

/-- A root that is accepted for the value found was sampled, and meets the accuracy. -/
theorem Found.NamesSample.root [LawfulScalar α] {found : Found α} {samples : Array α}
    (h : found.NamesSample) (hall : ∀ p ∈ found.samples, Sampled f samples p.1 p.2)
    (hmeets : found.meets accuracy = true) :
    ∃ fx, Sampled f samples found.root fx ∧ Scalar.abs fx ≤ accuracy := by
  obtain ⟨fx, hmem, hbest⟩ := h
  simp only [meets, Bool.and_eq_true, Option.any_eq_true, decide_eq_true_eq] at hmeets
  obtain ⟨-, fy, hfy, hle⟩ := hmeets
  exact ⟨fx, hall _ hmem, Scalar.le_trans (hbest fy hfy) hle⟩

theorem refineBy_genuine [LawfulScalar α] {strategy : Strategy α}
    (hstrategy : strategy.EndsWhereItAsked) (heps : Scalar.epsilon ≤ accuracy) (limit : Nat)
    (hs : s.Genuine f) : RefinesGenuine f accuracy (refineBy strategy f limit accuracy) s := by
  rw [RefinesGenuine, ensures_refineBy]
  refine ⟨fun _ => polish_genuine limit hs, fun _ => ?_⟩
  refine ((run_genuine _ hs (by simp)).and (hstrategy f _ _ accuracy _ s heps)).mono
    (fun found t h => ?_) fun _ _ _ => trivial
  obtain ⟨⟨ht, hall⟩, hnames⟩ := h
  have ht' : ((t.narrowed (replay t.bracket found.samples.reverse)).located found.root).Genuine f :=
    replay_all ht fun p hp => hall p (List.mem_reverse.1 hp)
  refine ⟨fun hmeets => ?_, fun _ => polish_genuine limit ht'⟩
  have hconverged : found.isConverged = true := (Bool.and_eq_true_iff.1 hmeets).1
  obtain ⟨fx, hx, hle⟩ := (hnames hconverged).root hall hmeets
  exact converged_genuine ht' _ hx hle

end Method

/-! ## Looking up a point that was asked for -/

/-- Between points that are equal without being the same, a search stops. -/
class StopsAtEqual (α : Type) [Scalar α] : Prop where
  half_lt_delta : ∀ {s : Search α} {tolerance : α}, Scalar.epsilon ≤ tolerance →
    (s.xCur == s.xBlk) = true → s.xCur ≠ s.xBlk → Scalar.abs s.half < s.delta tolerance

section Lookup

variable {α : Type} [Scalar α] {f : Objective α} {found : List (α × α)} {x y fx fy : α}

/-- The point was asked for, and the objective has a number there. -/
structure Asked (f : Objective α) (found : List (α × α)) (x fx : α) : Prop where
  mem : (x, fx) ∈ found
  value : f.value x = .ok fx
  number : Scalar.isNaN fx = false

theorem Asked.cons (h : Asked f found x fx) (y fy : α) : Asked f ((y, fy) :: found) x fx :=
  ⟨List.mem_cons_of_mem _ h.mem, h.value, h.number⟩

/-- The latest sample at a point equal to `x`. -/
def lookup (found : List (α × α)) (x : α) : Option (α × α) := found.find? fun p => p.1 == x

/-- What is found for `x` is the value there. -/
def Recalls (f : Objective α) (found : List (α × α)) (x : α) : Prop :=
  ∀ p, lookup found x = some p → f.value x = .ok p.2

theorem lookup_cons_of_beq (h : (y == x) = true) : lookup ((y, fy) :: found) x = some (y, fy) := by
  simp [lookup, h]

theorem lookup_cons_of_not (h : ¬(y == x) = true) : lookup ((y, fy) :: found) x = lookup found x := by
  simp [lookup, h]

theorem Recalls.cons (h : Recalls f found x) (hy : ¬(y == x) = true) :
    Recalls f ((y, fy) :: found) x := by
  intro p hp
  rw [lookup_cons_of_not hy] at hp
  exact h p hp

variable [LawfulScalar α]

/-- The latest sample is found, unless its point is not a number: then nothing is. -/
theorem recalls_latest (h : f.value x = .ok fx) : Recalls f ((x, fx) :: found) x := by
  intro p hp
  have hpx : (p.1 == x) = true := by
    unfold lookup at hp
    simpa using List.find?_some hp
  have hxx : (x == x) = true := Scalar.beq_self_of_beq hpx
  rw [lookup_cons_of_beq hxx] at hp
  cases hp
  exact h

/-- A point whose own value is found is a sample to end at. -/
theorem Asked.namesSample (h : Asked f found x fx) (hrecalls : Recalls f found x) :
    (⟨x, true, found⟩ : Found α).NamesSample := by
  refine ⟨fx, h.mem, fun fy hfy => ?_⟩
  simp only [Found.valueAtRoot, Option.map_eq_some_iff] at hfy
  obtain ⟨p, hp, rfl⟩ := hfy
  cases h.value.symm.trans (hrecalls p hp)
  exact Scalar.abs_le_abs_of_number h.number

end Lookup

/-! ## The invariant of the search -/

section Searches

variable {α : Type} [Scalar α] {f : Objective α} {found : List (α × α)} {s : Search α} {tolerance : α}

/-- All that a search holds was asked for, its current point last, and every other point it holds is
found with its own value unless the current one hides it. -/
structure Search.Genuine (f : Objective α) (found : List (α × α)) (s : Search α) : Prop where
  cur : Asked f found s.xCur s.fCur
  latest : ∃ rest, found = (s.xCur, s.fCur) :: rest
  pre : Asked f found s.xPre s.fPre
  blk : Asked f found s.xBlk s.fBlk
  recallsPre : ¬(s.xCur == s.xPre) = true → Recalls f found s.xPre
  recallsBlk : ¬(s.xCur == s.xBlk) = true → Recalls f found s.xBlk

namespace Search.Genuine

theorem block (h : s.Genuine f found) : s.block.Genuine f found := by
  unfold Search.block
  split
  · exact ⟨h.cur, h.latest, h.pre, h.pre, h.recallsPre, h.recallsPre⟩
  · exact h

variable [LawfulScalar α]

theorem recalls_cur (h : s.Genuine f found) : Recalls f found s.xCur := by
  have hcur := h.cur.value
  obtain ⟨rest, e⟩ := h.latest
  rw [e]
  exact recalls_latest hcur

/-- If the current point hides the blocking one only by being it, both are found with their values. -/
theorem recalls_blk (h : s.Genuine f found)
    (heq : (s.xCur == s.xBlk) = true → s.xCur = s.xBlk) : Recalls f found s.xBlk := by
  by_cases hb : (s.xCur == s.xBlk) = true
  · rw [← heq hb]
    exact h.recalls_cur
  · exact h.recallsBlk hb

end Search.Genuine

/-! ### Ordering the points -/

/-- The current and the blocking point in either order. -/
theorem order_cases (s : Search α) :
    (s.order = s) ∨ (Scalar.abs s.fBlk < Scalar.abs s.fCur ∧ s.order.xPre = s.xCur ∧
      s.order.xCur = s.xBlk ∧ s.order.xBlk = s.xCur ∧ s.order.fPre = s.fCur ∧ s.order.fCur = s.fBlk ∧
      s.order.fBlk = s.fCur) := by
  unfold Search.order
  split
  · next h => exact .inr ⟨h, rfl, rfl, rfl, rfl, rfl, rfl⟩
  · exact .inl rfl

variable [LawfulScalar α]

/-- A search may end at the current one of ordered points. -/
theorem order_namesSample (h : s.Genuine f found) :
    (⟨s.order.xCur, true, found⟩ : Found α).NamesSample := by
  rcases order_cases s with e | ⟨hlt, -, e, -⟩
  · rw [e]
    exact h.cur.namesSample h.recalls_cur
  · rw [e]
    by_cases hb : (s.xCur == s.xBlk) = true
    · -- the current point hides the blocking one, whose value is smaller
      refine ⟨s.fBlk, h.blk.mem, fun fy hfy => ?_⟩
      obtain ⟨rest, hfound⟩ := h.latest
      have hlook : lookup found s.xBlk = some (s.xCur, s.fCur) := by
        rw [hfound, lookup_cons_of_beq hb]
      have hvalue : (lookup found s.xBlk).map Prod.snd = some fy := hfy
      rw [hlook] at hvalue
      cases hvalue
      exact Scalar.le_of_lt hlt
    · exact h.blk.namesSample (h.recallsBlk hb)

/-- What ordered points leave for the next step, unless the search stops between them. -/
theorem order_recalls (h : s.Genuine f found)
    (heq : (s.order.xCur == s.order.xBlk) = true → s.order.xCur = s.order.xBlk) :
    Asked f found s.order.xCur s.order.fCur ∧ Asked f found s.order.xBlk s.order.fBlk ∧
      Recalls f found s.order.xCur ∧ Recalls f found s.order.xBlk := by
  rcases order_cases s with e | ⟨-, -, ex, eb, -, ef, efb⟩
  · rw [e] at heq ⊢
    exact ⟨h.cur, h.blk, h.recalls_cur, h.recalls_blk heq⟩
  · rw [ex, eb] at heq
    rw [ex, eb, ef, efb]
    exact ⟨h.blk, h.cur, h.recalls_blk fun hb => (heq (Scalar.beq_symm hb)).symm, h.recalls_cur⟩

/-! ### The run of the search -/

omit [LawfulScalar α] in
/-- Choosing a step moves no point. -/
theorem chooseStep_points (s : Search α) (delta : α) :
    (s.chooseStep delta).xCur = s.xCur ∧ (s.chooseStep delta).fCur = s.fCur ∧
      (s.chooseStep delta).xBlk = s.xBlk ∧ (s.chooseStep delta).fBlk = s.fBlk := by
  unfold Search.chooseStep
  dsimp only
  split
  · split <;> simp
  · simp

/-- A search put to an objective names a sample if it converges. -/
abbrev EndsAtSample (f : Objective α) (found : List (α × α)) (inquiry : Inquiry α) (t : Session α) :
    Prop :=
  (inquiry.run f found).Ensures t (fun r _ => r.isConverged = true → r.NamesSample) fun _ _ => True

omit [LawfulScalar α] in
theorem askNumber_endsAtSample {x : α} {next : α → Inquiry α} {t : Session α}
    (h : ∀ fx, Asked f ((x, fx) :: found) x fx →
      EndsAtSample f ((x, fx) :: found) (next fx) (t.sampled x)) :
    EndsAtSample f found (askNumber x next) t := by
  rw [EndsAtSample, ensures_askNumber]
  apply holds_of_values
  intro fx hfx
  refine ⟨fun _ => trivial, fun hnumber => ?_⟩
  exact h fx ⟨List.mem_cons_self, hfx, Bool.not_eq_true _ ▸ hnumber⟩

theorem inquiryFrom_endsAtSample [StopsAtEqual α] (heps : Scalar.epsilon ≤ tolerance) (n : Nat)
    {t : Session α} (h : s.block.Genuine f found) :
    EndsAtSample f found (inquiryFrom tolerance n s) t := by
  induction n generalizing s found t with
  | zero => exact nofun
  | succ n ih =>
    simp only [inquiryFrom, EndsAtSample, ensures_choice, ensures_finish]
    refine ⟨fun _ _ => order_namesSample h, fun hgo => ?_⟩
    -- the search goes on only if no point hides another
    have heq : (s.block.order.xCur == s.block.order.xBlk) = true →
        s.block.order.xCur = s.block.order.xBlk := by
      intro hb
      by_contra hne
      have hlt := StopsAtEqual.half_lt_delta heps hb hne
      simp [hlt] at hgo
    obtain ⟨hcur, hblk, hrcur, hrblk⟩ := order_recalls h heq
    obtain ⟨ex, ef, eb, efb⟩ := chooseStep_points s.block.order (s.block.order.delta tolerance)
    refine askNumber_endsAtSample fun fx hx => ih (Search.Genuine.block ⟨hx, ⟨_, rfl⟩, ?_, ?_, ?_, ?_⟩)
    · rw [ex, ef]; exact hcur.cons _ _
    · rw [eb, efb]; exact hblk.cons _ _
    · rw [ex]; exact fun hb => hrcur.cons hb
    · rw [eb]; exact fun hb => hrblk.cons hb

/-- A zero is no worse than any number. -/
theorem namesSample_of_zero {x fx : α} (hx : (x, fx) ∈ found) (hzero : (fx == 0.0) = true)
    (hnumbers : ∀ p ∈ found, Scalar.isNaN p.2 = false) : (⟨x, true, found⟩ : Found α).NamesSample := by
  refine ⟨fx, hx, fun fy hfy => ?_⟩
  simp only [Found.valueAtRoot, Option.map_eq_some_iff] at hfy
  obtain ⟨p, hp, rfl⟩ := hfy
  have hnumber := hnumbers p (List.mem_of_find?_eq_some hp)
  exact Scalar.le_trans (Scalar.abs_le_zero hzero)
    (Scalar.zero_le_abs (Scalar.isNaN_eq_false_iff.1 hnumber))

/-- The two ends of the bracket block each other from the start. -/
theorem strategy_endsWhereItAsked [StopsAtEqual α] : (strategy : Strategy α).EndsWhereItAsked := by
  intro f a b tolerance steps t heps
  simp only [strategy, ensures_choice, ensures_refuse]
  refine ⟨fun _ => trivial, fun _ => ⟨fun _ => trivial, fun _ => ?_⟩⟩
  refine askNumber_endsAtSample fun fa ha => askNumber_endsAtSample fun fb hb => ?_
  simp only [EndsAtSample, ensures_choice, ensures_finish, ensures_refuse]
  have hnumbers : ∀ p ∈ [(b, fb), (a, fa)], Scalar.isNaN p.2 = false := by
    simpa using ⟨hb.number, ha.number⟩
  refine ⟨fun h _ => namesSample_of_zero (by simp) h hnumbers, fun hfa => ⟨fun h _ => ?_, fun hfb => ?_⟩⟩
  · exact namesSample_of_zero (by simp) h hnumbers
  refine ⟨fun _ => trivial, fun hsign => ?_⟩
  refine inquiryFrom_endsAtSample heps steps ?_
  have hblock : (⟨a, b, 0.0, fa, fb, 0.0, 0.0, 0.0⟩ : Search α).block =
      ⟨a, b, a, fa, fb, fa, b - a, b - a⟩ := by
    simp only [Bool.not_eq_true] at hfa hfb
    simp only [beq_iff_eq] at hsign
    simp [Search.block, hfa, hfb, hsign]
  have hrec : ¬(b == a) = true → Recalls f [(b, fb), (a, fa)] a := (recalls_latest ha.value).cons
  have ha' := ha.cons b fb
  rw [hblock]
  exact ⟨hb, ⟨_, rfl⟩, ha', ha', hrec, hrec⟩

end Searches

/-! ## Doubles -/

instance : StopsAtEqual Double where
  half_lt_delta := by
    intro s tolerance heps hb hne
    obtain ⟨u, v, hu, hv⟩ := (Double.eq_or_zeros hb).resolve_left hne
    -- between two zeros everything but the tolerance is zero
    obtain ⟨w, hw⟩ := Double.parts_sub_zeros hv hu
    obtain ⟨w', hw'⟩ := Double.parts_half_zero hw
    have hhalf : (s.half == 0.0) = true :=
      Double.beq_iff.2 ⟨by simp [Search.half, hw'], by simp [Double.parts_zero], by
        simp [Search.half, hw', Double.parts_zero, Double.rank]⟩
    have hdelta : 0.0 < s.delta tolerance := by
      have habs : (Scalar.abs s.xCur).parts = .zero .positive := by rw [Double.parts_abs, hu]; rfl
      have hrel : (relative * Scalar.abs s.xCur).parts = .zero .positive := by
        rw [Double.parts_mul, habs]
        rfl
      exact Double.zero_lt_half heps hrel
    exact Scalar.lt_of_le_of_lt (Scalar.abs_le_zero hhalf) hdelta

end Brentq

/-- Every method ends with a genuine result on a genuine session. -/
theorem Refiner.refineBy_genuine {α : Type} [Scalar α] [LawfulScalar α] {f : Objective α}
    {accuracy : α} {s : Session α} {strategy : Brentq.Strategy α} (r : Refiner α)
    (hstrategy : r.method = .brentq → strategy.EndsWhereItAsked) (heps : Scalar.epsilon ≤ accuracy)
    (limit : Nat) (hs : s.Genuine f) :
    RefinesGenuine f accuracy (r.refineBy strategy f limit accuracy) s := by
  by_cases hr : r.method = .brentq
  · unfold refineBy
    rw [hr]
    exact Brentq.refineBy_genuine (hstrategy hr) heps limit hs
  · rw [refineBy_native hr]
    exact native_genuine hr limit hs

end RootSearch
