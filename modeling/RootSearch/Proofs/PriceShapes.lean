import RootSearch.Black.Price
import RootSearch.Double
/-!
# The shapes of prices

Terms that a context accepts are single values or vectors of one length. Such terms combine entry by
entry, so every step of a formula has a value: a vector where one of its operands is, and of that length.
The last step wants a single value if the forward and the volatility are single values. It looks at no
other term, so a strip of strikes, expiries, rates or kinds of option alone is refused.
-/

namespace RootSearch

/-! ## Strips of one length -/

namespace Strip

variable {α β γ δ : Type} {n : Nat} {a b : Bool} {s : Strip β} {t : Strip γ}

/-- The strip is a vector of `n` entries if `isVector`, and a single value if not. -/
def Spans (n : Nat) (isVector : Bool) (s : Strip β) : Prop :=
  s.length? = if isVector then some n else none

/-- The strip can be computed, and spans as told. -/
def Yields (n : Nat) (isVector : Bool) (r : Except (Fault α) (Strip β)) : Prop :=
  ∃ s, r = .ok s ∧ s.Spans n isVector

theorem spans_false_iff : s.Spans n false ↔ ∃ x, s = one x := by
  cases s <;> simp [Spans, length?]

theorem spans_true_iff : s.Spans n true ↔ ∃ xs, s = many xs ∧ xs.length = n := by
  cases s <;> simp [Spans, length?]

/-- A strip with no other length than `n` is a vector of `n` entries if it has a length. -/
theorem spans_of_length (h : ∀ m ∈ s.length?, m = n) : s.Spans n s.length?.isSome := by
  cases s with
  | one x => rfl
  | many xs => simpa [Spans, length?] using h

theorem Spans.map (h : s.Spans n a) (f : β → γ) : (s.map f).Spans n a := by
  cases s <;> simpa [Spans, length?, Strip.map] using h

theorem zipWith_yields (f : β → γ → δ) (hs : s.Spans n a) (ht : t.Spans n b) :
    Yields n (a || b) (s.zipWith f t : Except (Fault α) (Strip δ)) := by
  cases a <;> cases b
  · obtain ⟨x, rfl⟩ := spans_false_iff.1 hs
    obtain ⟨y, rfl⟩ := spans_false_iff.1 ht
    exact ⟨one (f x y), rfl, rfl⟩
  · obtain ⟨x, rfl⟩ := spans_false_iff.1 hs
    obtain ⟨ys, rfl, hlength⟩ := spans_true_iff.1 ht
    exact ⟨many (ys.map (f x)), rfl, spans_true_iff.2 ⟨_, rfl, by simpa using hlength⟩⟩
  · obtain ⟨xs, rfl, hlength⟩ := spans_true_iff.1 hs
    obtain ⟨y, rfl⟩ := spans_false_iff.1 ht
    exact ⟨many (xs.map (f · y)), rfl, spans_true_iff.2 ⟨_, rfl, by simpa using hlength⟩⟩
  · obtain ⟨xs, rfl, hxs⟩ := spans_true_iff.1 hs
    obtain ⟨ys, rfl, hys⟩ := spans_true_iff.1 ht
    refine ⟨many (List.zipWith f xs ys), ?_, spans_true_iff.2 ⟨_, rfl, by simp [hxs, hys]⟩⟩
    have hzip : zip f (many xs) (many ys) = .ok (many (List.zipWith f xs ys)) := by
      simp [zip, hxs, hys]
    rw [zipWith, hzip]
    rfl

/-- What follows on a strip may rely on how that spans. -/
theorem Yields.bind {r : Except (Fault α) (Strip β)} {k : Strip β → Except (Fault α) γ}
    {P : Except (Fault α) γ → Prop} (hr : Yields n a r) (hk : ∀ s, s.Spans n a → P (k s)) :
    P (r >>= k) := by
  obtain ⟨s, rfl, hs⟩ := hr
  exact hk s hs

theorem yields_pure (hs : s.Spans n a) : Yields n a (pure s : Except (Fault α) (Strip β)) :=
  ⟨s, rfl, hs⟩

end Strip

/-! ## Accepted terms -/

namespace Context

variable {α : Type} [Scalar α] {c : Context α} {n : Nat}

/-- The lengths of the terms that a price depends on. -/
def priceLengths (c : Context α) : List (Option Nat) :=
  [c.forward.length?, c.strike.length?, c.expiry.length?, c.sigma.length?, c.rate.length?,
    c.isCall.length?]

/-- The lengths of the terms that a vega depends on: it is the same for calls and puts. -/
def vegaLengths (c : Context α) : List (Option Nat) :=
  [c.forward.length?, c.strike.length?, c.expiry.length?, c.sigma.length?, c.rate.length?]

omit [Scalar α] in
theorem exists_length_of_isEven (h : c.isEven = true) : ∃ n, ∀ p ∈ c.lengths, p.2 = n := by
  unfold isEven at h
  split at h
  · next e => exact ⟨0, by simp [e]⟩
  · next name n rest e =>
    refine ⟨n, fun p hp => ?_⟩
    rw [e] at hp
    rcases List.mem_cons.1 hp with rfl | hp
    · rfl
    · simpa using List.all_eq_true.1 h p hp

/-- A context is accepted if no check of its terms fails. -/
theorem check_eq_ok_iff : c.check = .ok () ↔
    c.sigma.any (· < 0.0) = false ∧ c.expiry.any (· < 0.0) = false ∧ c.forward.any (· ≤ 0.0) = false ∧
      c.strike.any (· ≤ 0.0) = false ∧ c.isEven = true := by
  unfold check checkVol checkTerms
  cases c.sigma.any (· < 0.0) <;> cases c.expiry.any (· < 0.0) <;> cases c.forward.any (· ≤ 0.0) <;>
    cases c.strike.any (· ≤ 0.0) <;> cases c.isEven <;> simp [bind, Except.bind]

omit [Scalar α] in
theorem lengths_map_snd (c : Context α) : c.lengths.map Prod.snd =
    [c.strike.length?, c.expiry.length?, c.isCall.length?, c.quantity.length?, c.forward.length?,
      c.sigma.length?, c.rate.length?].filterMap id := by
  have hsnd (x : String × Option Nat) : (x.2.map (x.1, ·)).map Prod.snd = x.2 := by
    cases x.2 <;> rfl
  simp only [lengths, List.map_filterMap, hsnd]
  rfl

omit [Scalar α] in
theorem length_eq_of_lengths (h : ∀ p ∈ c.lengths, p.2 = n) :
    ∀ l ∈ [c.strike.length?, c.expiry.length?, c.isCall.length?, c.quantity.length?, c.forward.length?,
      c.sigma.length?, c.rate.length?], ∀ m ∈ l, m = n := by
  intro l hl m hm
  have hmem : m ∈ c.lengths.map Prod.snd := by
    rw [lengths_map_snd, List.mem_filterMap]
    exact ⟨l, hl, hm⟩
  obtain ⟨p, hp, rfl⟩ := List.mem_map.1 hmem
  exact h p hp

omit [Scalar α] in
theorem priceLengths_of_lengths (h : ∀ p ∈ c.lengths, p.2 = n) : ∀ l ∈ c.priceLengths, ∀ m ∈ l, m = n := by
  refine fun l hl => length_eq_of_lengths h l ?_
  simp only [priceLengths, List.mem_cons, List.not_mem_nil, or_false] at hl ⊢
  grind

/-- The vectors among the terms of an accepted context have one length. -/
theorem exists_length_of_check (h : c.check = .ok ()) :
    ∃ n, ∀ l ∈ c.priceLengths, ∀ m ∈ l, m = n := by
  obtain ⟨n, hn⟩ := exists_length_of_isEven (check_eq_ok_iff.1 h).2.2.2.2
  exact ⟨n, priceLengths_of_lengths hn⟩

/-- Every term that a price depends on is a single value or a vector of `n` entries. -/
structure Even (c : Context α) (n : Nat) : Prop where
  forward : c.forward.Spans n c.forward.length?.isSome
  strike : c.strike.Spans n c.strike.length?.isSome
  expiry : c.expiry.Spans n c.expiry.length?.isSome
  sigma : c.sigma.Spans n c.sigma.length?.isSome
  rate : c.rate.Spans n c.rate.length?.isSome
  isCall : c.isCall.Spans n c.isCall.length?.isSome

omit [Scalar α] in
theorem even_of_lengths (h : ∀ l ∈ c.priceLengths, ∀ m ∈ l, m = n) : c.Even n := by
  simp only [priceLengths, List.forall_mem_cons] at h
  obtain ⟨hforward, hstrike, hexpiry, hsigma, hrate, hisCall, -⟩ := h
  exact ⟨Strip.spans_of_length hforward, Strip.spans_of_length hstrike, Strip.spans_of_length hexpiry,
    Strip.spans_of_length hsigma, Strip.spans_of_length hrate, Strip.spans_of_length hisCall⟩

omit [Scalar α] in
theorem mem_priceLengths_of_vega {l : Option Nat} (h : l ∈ c.vegaLengths) : l ∈ c.priceLengths := by
  simp only [priceLengths, vegaLengths, List.mem_cons, List.not_mem_nil, or_false] at h ⊢
  grind

end Context

/-! ## Answers -/

/-- What is answered about options with terms of some lengths. -/
structure Context.Answered {α : Type} (c : Context α) (lengths : List (Option Nat))
    (r : Except (Fault α) (Strip α)) : Prop where
  /-- One option has a single value. -/
  single : (∀ l ∈ lengths, l = none) → ∃ x, r = .ok (.one x)
  /-- A strip of options has a value for each of them. -/
  strip : ∀ m, some m ∈ lengths → ¬(c.forward.isScalar = true ∧ c.sigma.isScalar = true) →
    ∃ xs, r = .ok (.many xs) ∧ xs.length = m
  /-- A strip is refused where neither the forward nor the volatility is a vector. -/
  refused : ∀ m, some m ∈ lengths → c.forward.isScalar = true ∧ c.sigma.isScalar = true →
    r = .error .notScalar

/-! ## The steps of a formula -/

namespace Pricer

open Strip

variable {α : Type} [AnalyticScalar α] {n : Nat} {a b c d e : Bool}
variable {forward strike omega vol discount : Strip α}

theorem d1_yields (hforward : forward.Spans n a) (hstrike : strike.Spans n b) (hvol : vol.Spans n c) :
    Yields n (a || b || c) (d1 forward strike vol) :=
  (zipWith_yields _ hforward hstrike).bind fun _ hmoneyness => zipWith_yields _ hmoneyness hvol

theorem choose_yields (p : Pricer α) {total below above : Strip α} (htotal : total.Spans n a)
    (hbelow : below.Spans n b) (habove : above.Spans n c) :
    Yields n (a || (b || c)) (p.choose total below above) :=
  (zipWith_yields _ hbelow habove).bind fun _ hboth => zipWith_yields _ htotal hboth

theorem intrinsic_yields (hforward : forward.Spans n a) (hstrike : strike.Spans n b)
    (homega : omega.Spans n c) : Yields n (c || (a || b)) (intrinsic forward strike omega) :=
  (zipWith_yields _ hforward hstrike).bind fun _ hgap =>
    (zipWith_yields _ homega hgap).bind fun _ hpayoff => yields_pure (hpayoff.map _)

theorem smooth_yields (hforward : forward.Spans n a) (hstrike : strike.Spans n b) (hvol : vol.Spans n c)
    (hdiscount : discount.Spans n d) (homega : omega.Spans n e) :
    Yields n (a || b || c || d || e) (smooth forward strike vol discount omega) := by
  have h : Yields n (d || e || (a || (e || (a || b || c)) || (b || (e || (a || b || c || c)))))
      (smooth forward strike vol discount omega) :=
    (d1_yields hforward hstrike hvol).bind fun d1 hd1 =>
    (zipWith_yields _ hd1 hvol).bind fun d2 hd2 =>
    (zipWith_yields _ hdiscount homega).bind fun weight hweight =>
    (zipWith_yields _ homega hd1).bind fun up hup =>
    (zipWith_yields _ hforward (hup.map _)).bind fun up hup =>
    (zipWith_yields _ homega hd2).bind fun down hdown =>
    (zipWith_yields _ hstrike (hdown.map _)).bind fun down hdown =>
    (zipWith_yields _ hup hdown).bind fun gap hgap => zipWith_yields _ hweight hgap
  have hsame : ∀ a b c d e : Bool, (d || e || (a || (e || (a || b || c)) ||
      (b || (e || (a || b || c || c))))) = (a || b || c || d || e) := by decide
  rwa [hsame] at h

/-! ## Prices and vegas -/

omit [AnalyticScalar α] in
theorem asScalar_answered {c : Context α} {lengths : List (Option Nat)} {s : Strip α}
    (hlengths : ∀ l ∈ lengths, ∀ m ∈ l, m = n) (hs : s.Spans n (lengths.any Option.isSome)) :
    c.Answered lengths (asScalar c c.sigma s) := by
  have hmany {m : Nat} (hm : some m ∈ lengths) : ∃ xs, s = .many xs ∧ xs.length = m := by
    rw [List.any_eq_true.2 ⟨_, hm, rfl⟩, ← hlengths _ hm m rfl] at hs
    exact spans_true_iff.1 hs
  refine ⟨fun hnone => ?_, fun m hm hvector => ?_, fun m hm hscalar => ?_⟩
  · rw [List.any_eq_false.2 fun l hl => by simp [hnone l hl]] at hs
    obtain ⟨x, rfl⟩ := spans_false_iff.1 hs
    unfold asScalar
    split <;> exact ⟨x, rfl⟩
  · obtain ⟨xs, rfl, hlength⟩ := hmany hm
    refine ⟨xs, if_neg ?_, hlength⟩
    simpa using hvector
  · obtain ⟨xs, rfl, hlength⟩ := hmany hm
    exact if_pos (by simpa using hscalar)

theorem price_answered {c : Context α} (p : Pricer α)
    (hn : ∀ l ∈ c.priceLengths, ∀ m ∈ l, m = n) : c.Answered c.priceLengths (p.price c) := by
  have hc : c.Even n := Context.even_of_lengths hn
  have homega : (Pricer.omega c.isCall : Strip α).Spans n c.isCall.length?.isSome := hc.isCall.map _
  refine (zipWith_yields _ hc.rate hc.expiry).bind fun discount hdiscount => ?_
  refine (zipWith_yields _ hc.sigma hc.expiry).bind fun total htotal => ?_
  refine (intrinsic_yields hc.forward hc.strike homega).bind fun intrinsic hintrinsic => ?_
  refine (zipWith_yields _ hdiscount hintrinsic).bind fun below hbelow => ?_
  refine (smooth_yields hc.forward hc.strike (htotal.map _) hdiscount homega).bind fun above habove => ?_
  refine (choose_yields p htotal hbelow habove).bind fun result hresult => ?_
  apply asScalar_answered hn
  -- each term takes part, however often
  have hsame : ∀ f k t s r w : Bool, (s || t || ((r || t || (w || (f || k))) ||
      (f || k || (s || t) || (r || t) || w))) = (f || (k || (t || (s || (r || (w || false)))))) := by
    decide
  rw [hsame] at hresult
  exact hresult

theorem vega_answered {c : Context α} (p : Pricer α)
    (hn : ∀ l ∈ c.priceLengths, ∀ m ∈ l, m = n) : c.Answered c.vegaLengths (p.vega c) := by
  have hc : c.Even n := Context.even_of_lengths hn
  refine (zipWith_yields _ hc.sigma hc.expiry).bind fun total htotal => ?_
  refine (d1_yields hc.forward hc.strike (htotal.map _)).bind fun d1 hd1 => ?_
  refine (zipWith_yields _ hc.rate hc.expiry).bind fun discount hdiscount => ?_
  refine (zipWith_yields _ hdiscount hc.forward).bind fun spot hspot => ?_
  refine (zipWith_yields _ hspot hd1).bind fun slope hslope => ?_
  refine (zipWith_yields _ hslope hc.expiry).bind fun above habove => ?_
  refine (choose_yields p htotal (spans_false_iff.2 ⟨0.0, rfl⟩) habove).bind fun result hresult => ?_
  apply asScalar_answered fun l hl => hn l (Context.mem_priceLengths_of_vega hl)
  have hsame : ∀ f k t s r : Bool, (s || t || (false || (r || t || f || (f || k || (s || t)) || t))) =
      (f || (k || (t || (s || (r || false))))) := by
    decide
  rw [hsame] at hresult
  exact hresult

end Pricer

/-- An accepted context is priced, and its vega is found, as a single value where no term is a vector and
as a strip of one value for each option where the forward or the volatility is one. Where neither is and
another term is, the answer is refused. -/
theorem accepted_options_are_priced {α : Type} [AnalyticScalar α] (p : Pricer α) (c : Context α)
    (h : c.check = .ok ()) :
    c.Answered c.priceLengths (p.price c) ∧ c.Answered c.vegaLengths (p.vega c) := by
  obtain ⟨n, hn⟩ := Context.exists_length_of_check h
  exact ⟨p.price_answered hn, p.vega_answered hn⟩

/-- Two forwards against one strike, a call and a put. -/
theorem accepted_options_are_priced_on_two_forwards :
    let c : Context Double :=
      { forward := .many [95.0, 105.0], strike := .one 100.0, expiry := .one 1.0, sigma := .one 0.2,
        rate := .one 0.05, isCall := .many [true, false], quantity := .one 1.0 }
    c.check = .ok () ∧ (∃ xs, Pricer.price {} c = .ok (.many xs) ∧ xs.length = 2) ∧
      ∃ xs, Pricer.vega {} c = .ok (.many xs) ∧ xs.length = 2 := by
  intro c
  have hcheck : c.check = .ok () := Context.check_eq_ok_iff.2 (by decide +kernel)
  obtain ⟨hprice, hvega⟩ := accepted_options_are_priced {} c hcheck
  have hvector : ¬(c.forward.isScalar = true ∧ c.sigma.isScalar = true) := by decide
  exact ⟨hcheck, hprice.strip 2 (.head _) hvector, hvega.strip 2 (.head _) hvector⟩

/-- A strip of two strikes under one forward and one volatility is accepted and then refused a price. -/
theorem accepted_strikes_are_refused :
    let c : Context Double :=
      { forward := .one 100.0, strike := .many [90.0, 110.0], expiry := .one 1.0, sigma := .one 0.2,
        rate := .one 0.0, quantity := .one 1.0 }
    c.check = .ok () ∧ Pricer.price {} c = .error .notScalar ∧ Pricer.vega {} c = .error .notScalar :=
  ⟨Context.check_eq_ok_iff.2 (by decide +kernel), rfl, rfl⟩

end RootSearch
