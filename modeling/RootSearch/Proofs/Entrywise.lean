import RootSearch.Proofs.PriceShapes
import RootSearch.Proofs.SingleOptions
/-!
# Strips of options, one by one

The terms of a strip of options assign a value to each of them, so the strip is priced option by option.
What a price or a vega is for one option is a formula in its terms. For a strip the same formula is
evaluated with the terms of every option in turn, and no option sees the terms of another.
-/

namespace RootSearch

/-! ## Values of the options -/

namespace Strip

variable {α β γ δ : Type} {n : Nat} {e : Fin n → β} {g : Fin n → γ} {s : Strip β} {t : Strip γ}

/-- The entry at a place, alone. A single value is the entry at every place. -/
def entry (s : Strip β) (i : Nat) : Strip β :=
  match s with
  | one x => one x
  | many xs => (xs[i]?).elim (many []) one

theorem isScalar_of_length (h : s.length? = some n) : s.isScalar = false := by
  cases s with
  | one x => cases h
  | many xs => rfl

theorem length_entry {i : Nat} (h : ∀ m ∈ s.length?, i < m) : (s.entry i).length? = none := by
  cases s with
  | one x => rfl
  | many xs =>
    have hi : i < xs.length := h xs.length rfl
    simp [entry, length?, hi]

theorem any_entry {p : β → Bool} (h : s.any p = false) (i : Nat) : (s.entry i).any p = false := by
  cases s with
  | one x => exact h
  | many xs =>
    simp only [entry]
    cases hx : xs[i]? with
    | none => rfl
    | some x =>
      have hp := List.any_eq_false.1 h x (List.mem_of_getElem? hx)
      simpa [any, toList] using hp

/-- The strip has the value `e i` for option `i`: it is the vector of these values, or the one value that
all of them are. -/
inductive Assigns : (Fin n → β) → Strip β → Prop
  | one (x : β) : Assigns (fun _ => x) (one x)
  | many (e : Fin n → β) : Assigns e (many (List.ofFn e))

/-- The strip can be computed, and has the values as told. -/
def Computes (e : Fin n → β) (r : Except (Fault α) (Strip β)) : Prop := ∃ s, r = .ok s ∧ s.Assigns e

theorem exists_assigns {a : Bool} (h : s.Spans n a) : ∃ e : Fin n → β, s.Assigns e := by
  cases s with
  | one x => exact ⟨fun _ => x, .one x⟩
  | many xs =>
    cases a with
    | false => cases h
    | true =>
      obtain ⟨xs, hs, rfl⟩ := spans_true_iff.1 h
      cases hs
      have hlist := Assigns.many xs.get
      rw [List.ofFn_get] at hlist
      exact ⟨xs.get, hlist⟩

theorem Assigns.entry_eq (h : s.Assigns e) (i : Fin n) : s.entry i = .one (e i) := by
  cases h with
  | one x => rfl
  | many e => simp [entry]

theorem Assigns.length_eq (h : s.Assigns e) : ∀ m ∈ s.length?, m = n := by
  cases h with
  | one x => nofun
  | many e => simp [length?]

theorem Assigns.eq_many {xs : List β} (h : (Strip.many xs).Assigns e) : xs = List.ofFn e := by
  cases h
  rfl

theorem Assigns.map (h : s.Assigns e) (f : β → γ) : (s.map f).Assigns fun i => f (e i) := by
  cases h with
  | one x => exact .one (f x)
  | many e =>
    have hmap : (List.ofFn e).map f = List.ofFn fun i => f (e i) := List.map_ofFn ..
    rw [Strip.map, hmap]
    exact .many _

theorem zipWith_computes (f : β → γ → δ) (hs : s.Assigns e) (ht : t.Assigns g) :
    Computes (fun i => f (e i) (g i)) (s.zipWith f t : Except (Fault α) (Strip δ)) := by
  cases hs with
  | one x =>
    cases ht with
    | one y => exact ⟨one (f x y), rfl, .one _⟩
    | many g => exact ⟨_, rfl, (Assigns.many g).map (f x)⟩
  | many e =>
    cases ht with
    | one y => exact ⟨_, rfl, (Assigns.many e).map (f · y)⟩
    | many g =>
      have hzip : List.zipWith f (List.ofFn e) (List.ofFn g) = List.ofFn fun i => f (e i) (g i) :=
        List.ext_getElem (by simp) (by simp)
      refine ⟨many (List.ofFn fun i => f (e i) (g i)), ?_, .many _⟩
      simp [zipWith, zip, hzip, Except.mapError]

/-- What follows on a strip may rely on its values. -/
theorem Computes.bind {r : Except (Fault α) (Strip β)} {k : Strip β → Except (Fault α) γ}
    {P : Except (Fault α) γ → Prop} (hr : Computes e r) (hk : ∀ s, s.Assigns e → P (k s)) :
    P (r >>= k) := by
  obtain ⟨s, rfl, hs⟩ := hr
  exact hk s hs

theorem computes_pure (hs : s.Assigns e) : Computes e (pure s : Except (Fault α) (Strip β)) :=
  ⟨s, rfl, hs⟩

end Strip

/-! ## One option -/

namespace Terms

/-- The terms are those of a context without vectors. -/
structure Of {α : Type} (w : Terms α) (c : Context α) : Prop where
  forward : c.forward = .one w.forward
  strike : c.strike = .one w.strike
  expiry : c.expiry = .one w.expiry
  rate : c.rate = .one w.rate
  isCall : c.isCall = .one w.isCall

section

variable {α : Type} [Scalar α] (w : Terms α) (p : Pricer α) (sigma : α)

/-- One for a call, minus one for a put. -/
def omega : α := if w.isCall then 1.0 else -1.0

def totalVol : α := sigma * Scalar.sqrt w.expiry

/-- The total volatility, or one where it is below the threshold. -/
def safeVol : α := if w.totalVol sigma < p.threshold then 1.0 else w.totalVol sigma

end

open AnalyticScalar

variable {α : Type} [AnalyticScalar α] (w : Terms α) (p : Pricer α) (sigma vol : α)

def discount : α := exp (-w.rate * w.expiry)

def d1 : α := (log (w.forward / w.strike) + 0.5 * (vol * vol)) / vol

/-- The discounted intrinsic value. -/
def intrinsicPrice : α := w.discount * Scalar.maxNaN (w.omega * (w.forward - w.strike)) 0.0

/-- The price at a total volatility. -/
def smoothPrice : α :=
  w.discount * w.omega * (w.forward * normalCdf (w.omega * w.d1 vol) -
    w.strike * normalCdf (w.omega * (w.d1 vol - vol)))

/-- The derivative of the price in the volatility, at a total volatility. -/
def smoothVega : α := w.discount * w.forward * normalPdf (w.d1 vol) * Scalar.sqrt w.expiry

/-- The price of one option at a volatility. -/
def price : α :=
  if w.totalVol sigma < p.threshold then w.intrinsicPrice else w.smoothPrice (w.safeVol p sigma)

def vega : α := if w.totalVol sigma < p.threshold then 0.0 else w.smoothVega (w.safeVol p sigma)

variable {w p sigma} {c : Context α}

theorem Of.priceWithVol (h : w.Of c) :
    p.priceWithVol c (.one sigma) = .ok (.one (w.price p sigma)) := by
  obtain ⟨forward, strike, expiry, vols, rate, isCall, quantity⟩ := c
  obtain ⟨rfl, rfl, rfl, rfl, rfl⟩ := h
  rfl

theorem Of.vegaWithVol (h : w.Of c) : p.vegaWithVol c (.one sigma) = .ok (.one (w.vega p sigma)) := by
  obtain ⟨forward, strike, expiry, vols, rate, isCall, quantity⟩ := c
  obtain ⟨rfl, rfl, rfl, rfl, rfl⟩ := h
  rfl

end Terms

/-! ## Strips of options -/

namespace Context

variable {α : Type} {n : Nat} {c : Context α} {w : Fin n → Terms α}

/-- The context of the option at a place, alone. -/
def entry (c : Context α) (i : Nat) : Context α where
  forward := c.forward.entry i
  strike := c.strike.entry i
  expiry := c.expiry.entry i
  sigma := c.sigma.entry i
  rate := c.rate.entry i
  isCall := c.isCall.entry i
  quantity := c.quantity.entry i

/-- The context with other volatilities. -/
def withVol (c : Context α) (sigma : Strip α) : Context α := { c with sigma }

/-- The forward or the volatility is a vector of `n` entries. -/
def IsStrip (c : Context α) (n : Nat) : Prop := c.forward.length? = some n ∨ c.sigma.length? = some n

theorem IsStrip.mem_lengths (h : c.IsStrip n) : some n ∈ c.priceLengths ∧ some n ∈ c.vegaLengths := by
  rcases h with h | h <;> simp [priceLengths, vegaLengths, h]

theorem IsStrip.not_isScalar (h : c.IsStrip n) :
    ¬(c.forward.isScalar = true ∧ c.sigma.isScalar = true) := by
  rcases h with h | h <;> simp [Strip.isScalar_of_length h]

/-- Option `i` of the context has the terms `w i`. -/
structure Assigns (w : Fin n → Terms α) (c : Context α) : Prop where
  forward : c.forward.Assigns fun i => (w i).forward
  strike : c.strike.Assigns fun i => (w i).strike
  expiry : c.expiry.Assigns fun i => (w i).expiry
  rate : c.rate.Assigns fun i => (w i).rate
  isCall : c.isCall.Assigns fun i => (w i).isCall

theorem exists_assigns (h : ∀ l ∈ c.priceLengths, ∀ m ∈ l, m = n) :
    (∃ w : Fin n → Terms α, c.Assigns w) ∧ ∃ v : Fin n → α, c.sigma.Assigns v := by
  have hc : c.Even n := even_of_lengths h
  obtain ⟨forward, hforward⟩ := Strip.exists_assigns hc.forward
  obtain ⟨strike, hstrike⟩ := Strip.exists_assigns hc.strike
  obtain ⟨expiry, hexpiry⟩ := Strip.exists_assigns hc.expiry
  obtain ⟨rate, hrate⟩ := Strip.exists_assigns hc.rate
  obtain ⟨isCall, hisCall⟩ := Strip.exists_assigns hc.isCall
  refine ⟨⟨fun i => ⟨forward i, strike i, expiry i, rate i, isCall i⟩, ?_⟩, Strip.exists_assigns hc.sigma⟩
  exact ⟨hforward, hstrike, hexpiry, hrate, hisCall⟩

theorem Assigns.of_entry (h : c.Assigns w) (i : Fin n) : (w i).Of (c.entry i) where
  forward := h.forward.entry_eq i
  strike := h.strike.entry_eq i
  expiry := h.expiry.entry_eq i
  rate := h.rate.entry_eq i
  isCall := h.isCall.entry_eq i

theorem Assigns.priceLengths (h : c.Assigns w) {sigma : Strip α} {v : Fin n → α} (hv : sigma.Assigns v) :
    ∀ l ∈ (c.withVol sigma).priceLengths, ∀ m ∈ l, m = n := by
  simp only [Context.priceLengths, List.forall_mem_cons]
  exact ⟨h.forward.length_eq, h.strike.length_eq, h.expiry.length_eq, hv.length_eq, h.rate.length_eq,
    h.isCall.length_eq, by simp⟩

/-- Where the vectors have `n` entries each of the first `n` options stands alone. -/
theorem entry_length (h : ∀ l ∈ c.lengths, l.2 = n) {i : Nat} (hi : i < n) : (c.entry i).lengths = [] := by
  have hterm {β : Type} {s : Strip β} (hs : ∀ m ∈ s.length?, m = n) : (s.entry i).length? = none := by
    refine Strip.length_entry fun m hm => ?_
    rwa [hs m hm]
  have hall := length_eq_of_lengths h
  simp only [List.forall_mem_cons] at hall
  obtain ⟨hstrike, hexpiry, hisCall, hquantity, hforward, hsigma, hrate, -⟩ := hall
  simp [lengths, entry, hterm hstrike, hterm hexpiry, hterm hisCall, hterm hquantity, hterm hforward,
    hterm hsigma, hterm hrate]

/-- The options of an accepted context are accepted alone. -/
theorem check_entry [Scalar α] (hcheck : c.check = .ok ()) (h : ∀ l ∈ c.lengths, l.2 = n) {i : Nat}
    (hi : i < n) : (c.entry i).check = .ok () := by
  obtain ⟨hsigma, hexpiry, hforward, hstrike, -⟩ := check_eq_ok_iff.1 hcheck
  refine check_eq_ok_iff.2 ⟨Strip.any_entry hsigma i, Strip.any_entry hexpiry i,
    Strip.any_entry hforward i, Strip.any_entry hstrike i, ?_⟩
  rw [isEven, entry_length h hi]

end Context

namespace Pricer

open Strip

variable {α : Type} [AnalyticScalar α] {n : Nat} {c : Context α} {sigma : Strip α} {w : Fin n → Terms α}
variable {v vol : Fin n → α}

theorem safeVol_assigns (p : Pricer α) {total : Strip α}
    (h : total.Assigns fun i => (w i).totalVol (v i)) :
    (p.safeVol total).Assigns fun i => (w i).safeVol p (v i) :=
  h.map fun vol => if vol < p.threshold then 1.0 else vol

theorem d1_computes {total : Strip α} (h : c.Assigns w) (htotal : total.Assigns vol) :
    Computes (fun i => (w i).d1 (vol i)) (d1 c.forward c.strike total) :=
  (zipWith_computes _ h.forward h.strike).bind fun _ hmoneyness => zipWith_computes _ hmoneyness htotal

/-- Each option is told apart by its own total volatility. -/
theorem choose_computes (p : Pricer α) {total below above : Strip α} {x y : Fin n → α}
    (htotal : total.Assigns vol) (hbelow : below.Assigns x) (habove : above.Assigns y) :
    Computes (fun i => if vol i < p.threshold then x i else y i) (p.choose total below above) :=
  (zipWith_computes _ hbelow habove).bind fun _ hboth => zipWith_computes _ htotal hboth

theorem smooth_computes {total discount omega : Strip α} (h : c.Assigns w) (htotal : total.Assigns vol)
    (hdiscount : discount.Assigns fun i => (w i).discount) (homega : omega.Assigns fun i => (w i).omega) :
    Computes (fun i => (w i).smoothPrice (vol i)) (smooth c.forward c.strike total discount omega) :=
  (d1_computes h htotal).bind fun _ hd1 =>
  (zipWith_computes _ hd1 htotal).bind fun _ hd2 =>
  (zipWith_computes _ hdiscount homega).bind fun _ hweight =>
  (zipWith_computes _ homega hd1).bind fun _ hup =>
  (zipWith_computes _ h.forward (hup.map _)).bind fun _ hup =>
  (zipWith_computes _ homega hd2).bind fun _ hdown =>
  (zipWith_computes _ h.strike (hdown.map _)).bind fun _ hdown =>
  (zipWith_computes _ hup hdown).bind fun _ hgap => zipWith_computes _ hweight hgap

/-- The answer comes from a strip with the values `e`, as the shapes of the forward and the volatility
allow. -/
def Answers (c : Context α) (sigma : Strip α) (e : Fin n → α) (r : Except (Fault α) (Strip α)) : Prop :=
  ∃ s : Strip α, s.Assigns e ∧ r = asScalar c sigma s

theorem priceWithVol_answers (p : Pricer α) (h : c.Assigns w) (hv : sigma.Assigns v) :
    Answers c sigma (fun i => (w i).price p (v i)) (p.priceWithVol c sigma) := by
  have homega : (omega c.isCall : Strip α).Assigns fun i => (w i).omega :=
    h.isCall.map fun c => if c then 1.0 else -1.0
  have hintrinsic : Computes (fun i => Scalar.maxNaN ((w i).omega * ((w i).forward - (w i).strike)) 0.0)
      (intrinsic c.forward c.strike (omega c.isCall)) :=
    (zipWith_computes _ h.forward h.strike).bind fun _ hgap =>
      (zipWith_computes _ homega hgap).bind fun _ hpayoff =>
        computes_pure (hpayoff.map (Scalar.maxNaN · 0.0))
  refine (zipWith_computes _ h.rate h.expiry).bind fun discount hdiscount => ?_
  refine (zipWith_computes _ hv h.expiry).bind fun total htotal => ?_
  refine hintrinsic.bind fun intrinsic hintrinsic => ?_
  refine (zipWith_computes _ hdiscount hintrinsic).bind fun below hbelow => ?_
  refine (smooth_computes h (safeVol_assigns p htotal) hdiscount homega).bind fun above habove => ?_
  exact (choose_computes p htotal hbelow habove).bind fun result hresult => ⟨result, hresult, rfl⟩

theorem vegaWithVol_answers (p : Pricer α) (h : c.Assigns w) (hv : sigma.Assigns v) :
    Answers c sigma (fun i => (w i).vega p (v i)) (p.vegaWithVol c sigma) := by
  refine (zipWith_computes _ hv h.expiry).bind fun total htotal => ?_
  refine (d1_computes h (safeVol_assigns p htotal)).bind fun d1 hd1 => ?_
  refine (zipWith_computes _ h.rate h.expiry).bind fun discount hdiscount => ?_
  refine (zipWith_computes _ hdiscount h.forward).bind fun spot hspot => ?_
  refine (zipWith_computes _ hspot hd1).bind fun slope hslope => ?_
  refine (zipWith_computes _ hslope h.expiry).bind fun above habove => ?_
  exact (choose_computes p htotal (.one 0.0) habove).bind fun result hresult => ⟨result, hresult, rfl⟩

/-- The answer is a vector of `n` values, and each of them is the answer for one option alone. -/
def Entrywise (n : Nat) (r : Except (Fault α) (Strip α)) (alone : Nat → Except (Fault α) (Strip α)) :
    Prop :=
  ∃ xs : List α, r = .ok (.many xs) ∧ xs.length = n ∧ ∀ i x, xs[i]? = some x → alone i = .ok (.one x)

section Answers

omit [AnalyticScalar α]

variable {e : Fin n → α} {r : Except (Fault α) (Strip α)}

theorem eq_of_asScalar {s t : Strip α} (h : asScalar c sigma s = .ok t) : s = t := by
  unfold asScalar at h
  split at h
  · cases s <;> cases h
    rfl
  · exact Except.ok.inj h

/-- An answer that is not refused is the strip itself. -/
theorem Answers.computes (h : Answers c sigma e r) (hr : ∃ s, r = .ok s) : Computes e r := by
  obtain ⟨s, hs, rfl⟩ := h
  obtain ⟨t, ht⟩ := hr
  rw [ht]
  exact ⟨t, rfl, eq_of_asScalar ht ▸ hs⟩

theorem Answers.entrywise {alone : Nat → Except (Fault α) (Strip α)} (h : Answers c sigma e r)
    (hr : ∃ xs, r = .ok (.many xs)) (halone : ∀ i : Fin n, alone i = .ok (.one (e i))) :
    Entrywise n r alone := by
  obtain ⟨xs, hxs⟩ := hr
  obtain ⟨s, hs, he⟩ := h.computes ⟨_, hxs⟩
  rw [hxs] at hs
  cases hs
  obtain rfl := he.eq_many
  refine ⟨_, hxs, List.length_ofFn, fun i x hx => ?_⟩
  obtain ⟨hi, rfl⟩ := List.getElem?_eq_some_iff.1 hx
  rw [List.getElem_ofFn]
  exact halone ⟨i, _⟩

end Answers

/-- Where the forward or the volatility is a vector, the prices are a vector too. -/
theorem priceWithVol_of_isStrip (p : Pricer α) (h : c.Assigns w) (hv : sigma.Assigns v)
    (hstrip : (c.withVol sigma).IsStrip n) :
    p.priceWithVol c sigma = .ok (.many (List.ofFn fun i => (w i).price p (v i))) := by
  have hprice := p.price_answered (h.priceLengths hv)
  obtain ⟨xs, hxs, -⟩ := hprice.strip n hstrip.mem_lengths.1 hstrip.not_isScalar
  have hpriced : p.priceWithVol c sigma = .ok (.many xs) := hxs
  obtain ⟨s, hs, he⟩ := (priceWithVol_answers p h hv).computes ⟨_, hpriced⟩
  rw [hpriced] at hs ⊢
  cases hs
  rw [he.eq_many]

/-- Strips are priced option by option where the forward or the volatility is a vector. -/
theorem price_entrywise (p : Pricer α) (h : ∀ l ∈ c.priceLengths, ∀ m ∈ l, m = n)
    (hstrip : c.IsStrip n) :
    Entrywise n (p.price c) (fun i => p.price (c.entry i)) ∧
      Entrywise n (p.vega c) fun i => p.vega (c.entry i) := by
  obtain ⟨hpriceLengths, hvegaLengths⟩ := hstrip.mem_lengths
  obtain ⟨prices, hprices, -⟩ := (p.price_answered h).strip n hpriceLengths hstrip.not_isScalar
  obtain ⟨vegas, hvegas, -⟩ := (p.vega_answered h).strip n hvegaLengths hstrip.not_isScalar
  obtain ⟨⟨w, hw⟩, v, hv⟩ := Context.exists_assigns h
  have hsigma (i : Fin n) : (c.entry i).sigma = .one (v i) := hv.entry_eq i
  constructor
  · refine (priceWithVol_answers p hw hv).entrywise ⟨prices, hprices⟩ fun i => ?_
    rw [price, hsigma]
    exact (hw.of_entry i).priceWithVol
  · refine (vegaWithVol_answers p hw hv).entrywise ⟨vegas, hvegas⟩ fun i => ?_
    rw [vega, hsigma]
    exact (hw.of_entry i).vegaWithVol

end Pricer

/-- In a context that is accepted and whose vectors have `n` entries, each of the `n` options stands alone
as an accepted context of single values. If the forward or the volatility is a vector, the price and the
vega are vectors of `n` values, and the value at a place is the price and the vega of the option at that
place alone; the same holds of any vector of `n` volatilities in place of those of the context. No law of
arithmetic takes part: the values are equal because the same operations are made, over doubles too. -/
theorem strips_are_priced_entrywise {α : Type} [AnalyticScalar α] (p : Pricer α) (c : Context α) (n : Nat)
    (hcheck : c.check = .ok ()) (hn : ∀ l ∈ c.lengths, l.2 = n) :
    (∀ i < n, (c.entry i).lengths = [] ∧ (c.entry i).check = .ok ()) ∧
    (c.forward.length? = some n ∨ c.sigma.length? = some n →
      Pricer.Entrywise n (p.price c) (fun i => p.price (c.entry i)) ∧
      Pricer.Entrywise n (p.vega c) fun i => p.vega (c.entry i)) ∧
    ∀ vols : List α, vols.length = n →
      Pricer.Entrywise n (p.priceWithVol c (.many vols))
        (fun i => p.priceWithVol (c.entry i) ((Strip.many vols).entry i)) ∧
      Pricer.Entrywise n (p.vegaWithVol c (.many vols))
        fun i => p.vegaWithVol (c.entry i) ((Strip.many vols).entry i) := by
  have hlengths := Context.priceLengths_of_lengths hn
  refine ⟨fun i hi => ⟨Context.entry_length hn hi, Context.check_entry hcheck hn hi⟩, ?_, ?_⟩
  · intro hvector
    exact p.price_entrywise hlengths hvector
  · intro vols hvols
    -- the volatilities of the context do not take part, so these may stand in their place
    have hplaced : ∀ l ∈ (c.withVol (.many vols)).priceLengths, ∀ m ∈ l, m = n := by
      simp only [Context.priceLengths, List.forall_mem_cons] at hlengths ⊢
      obtain ⟨hforward, hstrike, hexpiry, -, hrate⟩ := hlengths
      exact ⟨hforward, hstrike, hexpiry, fun m hm => hvols ▸ (Option.some.inj hm).symm, hrate⟩
    exact p.price_entrywise hplaced (.inr (congrArg some hvols))

/-- Two forwards against one strike, a call with a volatility and a put without one. -/
theorem strips_are_priced_entrywise_on_call_and_put :
    let c : Context Double :=
      { forward := .many [95.0, 105.0], strike := .one 100.0, expiry := .one 1.0, sigma := .many [0.2, 0.0],
        rate := .one 0.05, isCall := .many [true, false], quantity := .one 1.0 }
    c.check = .ok () ∧ (∀ l ∈ c.lengths, l.2 = 2) ∧ c.forward.length? = some 2 ∧
      Pricer.Entrywise 2 (Pricer.price {} c) (fun i => Pricer.price {} (c.entry i)) ∧
      Pricer.Entrywise 2 (Pricer.priceWithVol {} c (.many [0.0, 0.3]))
        fun i => Pricer.priceWithVol {} (c.entry i) ((Strip.many [0.0, 0.3]).entry i) := by
  intro c
  have hcheck : c.check = .ok () := Context.check_eq_ok_iff.2 (by decide +kernel)
  have hlengths : ∀ l ∈ c.lengths, l.2 = 2 := by decide
  obtain ⟨-, hstrip, hvols⟩ := strips_are_priced_entrywise {} c 2 hcheck hlengths
  exact ⟨hcheck, hlengths, rfl, (hstrip (.inl rfl)).1, (hvols [0.0, 0.3] rfl).1⟩

end RootSearch
