import RootSearch.Black.QuoteSolver
import RootSearch.Proofs.SingleOptions
import RootSearch.Proofs.Tables
/-!
# Batches of quotes

What becomes of a row depends on the row alone: on its terms, on its price and on the search for the
volatility. The batch answers all rows in order, or ends at the first one that is not answered. A row
whose terms are unfit is answered too; what ends a batch is a term that is missing or beyond all
numbers, a price that is no number, or a search that ends in a fault.
-/

namespace RootSearch

/-- The cells of an outcome, by their columns. -/
def QuoteOutcome.cells (o : QuoteOutcome) : List (String × Cell) :=
  [("implied_vol", .number o.vol), ("status", .text o.status), ("evaluations", .count o.evaluations),
    ("message", .text o.message)]

namespace QuoteSolver

open Solve

/-- The columns of the outcomes. -/
def resultColumns : List String := ["implied_vol", "status", "evaluations", "message"]

/-! ## What a row holds -/

section Row

variable {columns : List String} (q : QuoteSolver) (row : Row columns)

/-- The terms of a row up to the first that is unfit. -/
def reading : Except (Fault Double) (Terms Double) := do
  let strike ← numberIn row "strike"
  let expiry ← numberIn row "expiry"
  let forward ← numberIn row "forward"
  Context.checkVol (.one q.guess)
  let rate ← numberIn row "rate"
  let isCall := ((row.cell? "is_call").getD (.flag true)).isTrue
  let terms : Terms Double := { forward, strike, expiry, rate, isCall }
  (terms.context q.guess).checkTerms
  return terms

/-- Where the search of every row starts. -/
def query : ImpliedVol.Query Double := { guess := q.guess, step := q.step, method := q.method }

/-- The session in which the search of a row begins. A guess of zero has been reported by then. -/
def opening : Session Double :=
  if q.guess == 0.0 then Session.start.logged (.zeroVol (.one q.guess)) else .start

/-- What becomes of a row by itself. -/
def answer : Except (Fault Double) QuoteOutcome := ((q.solveRow row).exec .start).1

end Row

variable {q : QuoteSolver} {columns : List String} {row : Row columns}

/-! ## Readings -/

/-- Begun in `s`, the computation ends in the fault of a reading, or in `u` with what was read. -/
def Reads {β : Type} (m : Solve Double β) (s u : Session Double) (r : Except (Fault Double) β) : Prop :=
  m.Ensures s (fun b v => r = .ok b ∧ v = u) fun fault _ => r = .error fault

section Reads

variable {β γ : Type} {s u v : Session Double}

theorem Reads.bind {m : Solve Double β} {r : Except (Fault Double) β} {k : β → Solve Double γ}
    {j : β → Except (Fault Double) γ} (hm : Reads m s u r) (h : ∀ b, Reads (k b) u v (j b)) :
    Reads (m >>= k) s v (r >>= j) := by
  rw [Reads, ensures_bind]
  refine hm.mono (fun b u' hb => ?_) fun fault _ hfault => ?_
  · obtain ⟨rfl, rfl⟩ := hb
    exact h b
  · rw [hfault]
    rfl

theorem Reads.value {m : Solve Double β} {r : Except (Fault Double) β} (h : Reads m s u r) {b : β}
    (hr : r = .ok b) : m.exec s = (.ok b, u) := by
  unfold Reads Ensures at h
  rcases hm : m.exec s with ⟨fault | b', v⟩ <;> rw [hm] at h
  · cases hr.symm.trans h
  · obtain ⟨hb, rfl⟩ := h
    cases hr.symm.trans hb
    rfl

theorem Reads.fault {m : Solve Double β} {r : Except (Fault Double) β} (h : Reads m s u r)
    {fault : Fault Double} (hr : r = .error fault) : ∃ v, m.exec s = (.error fault, v) := by
  unfold Reads Ensures at h
  rcases hm : m.exec s with ⟨fault' | b, v⟩ <;> rw [hm] at h
  · cases hr.symm.trans h
    exact ⟨v, rfl⟩
  · cases hr.symm.trans h.1

theorem reads_attempt (r : Except (Fault Double) β) : Reads (attempt r) s s r := by
  rw [Reads, ensures_attempt]
  exact ⟨fun b hb => ⟨hb, rfl⟩, fun _ hfault => hfault⟩

theorem reads_acceptVol (sigma : Double) :
    Reads (Context.acceptVol (.one sigma)) s
      (if sigma == 0.0 then s.logged (.zeroVol (.one sigma)) else s) (Context.checkVol (.one sigma)) := by
  unfold Context.acceptVol
  rw [Reads, ensures_bind, ensures_attempt]
  refine ⟨fun u hvol => ?_, fun _ hfault => hfault⟩
  cases hz : sigma == 0.0
  · simp [Strip.any, Strip.toList, hz, hvol]
  · simp [Strip.any, Strip.toList, hz, hvol, Session.logged]

end Reads

theorem reads_terms :
    Reads (q.terms row) .start q.opening ((·.context q.guess) <$> q.reading row) := by
  simp only [reading, map_bind, map_pure]
  refine (reads_attempt _).bind fun strike => (reads_attempt _).bind fun expiry => ?_
  refine (reads_attempt _).bind fun forward => (reads_acceptVol q.guess).bind fun _ => ?_
  refine (reads_attempt _).bind fun rate => (reads_attempt _).bind fun _ => ?_
  exact ⟨rfl, rfl⟩

/-! ## The answer of a row -/

/-- Terms that are not read end the batch or reject the row. -/
theorem answer_of_fault {fault : Fault Double} (h : q.reading row = .error fault) :
    q.answer row = if endsBatch fault then .error fault else .ok (.rejected fault) := by
  obtain ⟨v, hexec⟩ := reads_terms.fault (congrArg _ h)
  simp only [answer, solveRow, exec_bind, exec_observe, hexec]
  cases endsBatch fault <;> rfl

theorem answer_of_terms {w : Terms Double} (h : q.reading row = .ok w) :
    q.answer row = (numberIn row "price").bind fun price =>
      ((w.search q.engine q.query q.guess price).exec q.opening).1.map .solved := by
  have hexec := reads_terms.value (congrArg _ h)
  simp only [answer, solveRow, exec_bind, exec_observe, hexec]
  cases numberIn row "price" with
  | error fault => rfl
  | ok price => simp only [exec_attempt, exec_map]; rfl

/-! ## Rows in order -/

theorem solveRows_cons (rest : List (Row columns)) :
    (q.solveRows (row :: rest)).1 = (q.answer row).bind fun outcome =>
      (q.solveRows rest).1.map (outcome :: ·) := by
  unfold answer
  rcases h : (q.solveRow row).exec .start with ⟨fault | outcome, s⟩
  · simp only [solveRows, h]
    rfl
  · simp only [solveRows, h]
    rfl

/-- What a row becomes, if it is answered. -/
def outcome (q : QuoteSolver) (row : Row columns) : QuoteOutcome :=
  match q.answer row with
  | .ok outcome => outcome
  | .error fault => .rejected fault

theorem answer_eq_outcome (h : ∃ outcome, q.answer row = .ok outcome) :
    q.answer row = .ok (q.outcome row) := by
  obtain ⟨o, ho⟩ := h
  simp only [outcome, ho]

theorem solveRows_of_answered {rows : List (Row columns)}
    (h : ∀ row ∈ rows, ∃ outcome, q.answer row = .ok outcome) :
    (q.solveRows rows).1 = .ok (rows.map q.outcome) := by
  induction rows with
  | nil => rfl
  | cons row rest ih =>
    rw [solveRows_cons, answer_eq_outcome (h row List.mem_cons_self),
      ih fun row hrow => h row (List.mem_cons_of_mem _ hrow)]
    rfl

theorem solveRows_of_stopped {before after : List (Row columns)} {fault : Fault Double}
    (hbefore : ∀ row ∈ before, ∃ outcome, q.answer row = .ok outcome)
    (hrow : q.answer row = .error fault) :
    (q.solveRows (before ++ row :: after)).1 = .error fault := by
  induction before with
  | nil =>
    rw [List.nil_append, solveRows_cons, hrow]
    rfl
  | cons first before ih =>
    rw [List.cons_append, solveRows_cons, answer_eq_outcome (hbefore first List.mem_cons_self),
      ih fun row hrow => hbefore row (List.mem_cons_of_mem _ hrow)]
    rfl

/-- All of some rows are answered, or there is a first one that is not. -/
theorem answered_or_stopped (q : QuoteSolver) (rows : List (Row columns)) :
    (∀ row ∈ rows, ∃ outcome, q.answer row = .ok outcome) ∨
      ∃ before row after fault, rows = before ++ row :: after ∧
        (∀ row ∈ before, ∃ outcome, q.answer row = .ok outcome) ∧ q.answer row = .error fault := by
  induction rows with
  | nil => exact .inl (by simp)
  | cons row rest ih =>
    cases hrow : q.answer row with
    | error fault => exact .inr ⟨[], row, rest, fault, rfl, by simp, hrow⟩
    | ok outcome =>
      rcases ih with hall | ⟨before, row', after, fault, rfl, hbefore, hrow'⟩
      · exact .inl (List.forall_mem_cons.2 ⟨⟨outcome, hrow⟩, hall⟩)
      · refine .inr ⟨row :: before, row', after, fault, rfl, ?_, hrow'⟩
        exact List.forall_mem_cons.2 ⟨⟨outcome, hrow⟩, hbefore⟩

/-! ## Tables with answers -/

/-- The outcomes are recorded row by row. -/
theorem record_map (rows : List (Row columns)) (outcomeOf : Row columns → QuoteOutcome) :
    record ⟨columns, rows⟩ (rows.map outcomeOf) = ⟨Table.addedAll columns resultColumns,
      rows.map fun row => row.putAll (outcomeOf row).cells⟩ := by
  have hrows : (⟨columns, rows⟩ : Table) = ⟨columns, rows.map id⟩ := by rw [List.map_id]
  rw [hrows]
  simp only [record, List.map_map, Function.comp_def, Table.assign_map]
  rfl

theorem solve_fst (hcolumns : ∀ name ∈ requiredColumns, name ∈ columns) (rows : List (Row columns)) :
    (q.solve ⟨columns, rows⟩).1 =
      (q.solveRows rows).1.map fun outcomes => (outcomes, record ⟨columns, rows⟩ outcomes) := by
  have habsent : requiredColumns.filter (!columns.contains ·) = [] := by
    rw [List.filter_eq_nil_iff]
    intro name hname
    simpa using hcolumns name hname
  unfold solve
  simp only [habsent, List.isEmpty_nil, Bool.not_true, Bool.false_eq_true, if_false]
  rcases q.solveRows rows with ⟨fault | outcomes, events⟩
  · rfl
  · rfl

/-- If every row is answered, the batch is answered row by row. -/
theorem solve_of_answered (hcolumns : ∀ name ∈ requiredColumns, name ∈ columns)
    {rows : List (Row columns)} (h : ∀ row ∈ rows, ∃ outcome, q.answer row = .ok outcome) :
    (q.solve ⟨columns, rows⟩).1 = .ok (rows.map q.outcome,
      ⟨Table.addedAll columns resultColumns, rows.map fun row => row.putAll (q.outcome row).cells⟩) := by
  rw [solve_fst hcolumns, solveRows_of_answered h]
  exact congrArg (fun table => Except.ok (rows.map q.outcome, table)) (record_map rows q.outcome)

theorem solve_of_stopped (hcolumns : ∀ name ∈ requiredColumns, name ∈ columns)
    {before after : List (Row columns)} {fault : Fault Double}
    (hbefore : ∀ row ∈ before, ∃ outcome, q.answer row = .ok outcome)
    (hrow : q.answer row = .error fault) :
    (q.solve ⟨columns, before ++ row :: after⟩).1 = .error fault := by
  rw [solve_fst hcolumns, solveRows_of_stopped hbefore hrow]
  rfl

/-- A batch that returns has answered all rows. -/
theorem answered_of_solve (hcolumns : ∀ name ∈ requiredColumns, name ∈ columns)
    {rows : List (Row columns)} {result : List QuoteOutcome × Table}
    (h : (q.solve ⟨columns, rows⟩).1 = .ok result) :
    ∀ row ∈ rows, ∃ outcome, q.answer row = .ok outcome := by
  rcases answered_or_stopped q rows with hall | ⟨before, row, after, fault, rfl, hbefore, hrow⟩
  · exact hall
  · rw [solve_of_stopped hcolumns hbefore hrow] at h
    cases h

/-! ## Rows that end a batch -/

/-- Why a row ends its batch, with the fault in which the batch ends. -/
inductive Stops (q : QuoteSolver) (row : Row columns) : Fault Double → Prop
  /-- A term is missing or beyond all numbers, and the terms before it are fit. -/
  | term {fault : Fault Double} : q.reading row = .error fault → endsBatch fault = true →
      Stops q row fault
  /-- The terms are fit, and there is no price that can be read. -/
  | price {w : Terms Double} {fault : Fault Double} : q.reading row = .ok w →
      numberIn row "price" = .error fault → Stops q row fault
  /-- The search for the volatility ends in a fault. -/
  | search {w : Terms Double} {price : Double} {fault : Fault Double} : q.reading row = .ok w →
      numberIn row "price" = .ok price →
      ((w.search q.engine q.query q.guess price).exec q.opening).1 = .error fault → Stops q row fault

theorem stops_iff {fault : Fault Double} : q.Stops row fault ↔ q.answer row = .error fault := by
  constructor
  · intro h
    cases h with
    | term hterm hends => rw [answer_of_fault hterm, if_pos hends]
    | price hterms hprice =>
      rw [answer_of_terms hterms, hprice]
      rfl
    | search hterms hprice hsearch =>
      rw [answer_of_terms hterms, hprice, Except.bind, hsearch]
      rfl
  · intro h
    cases hterms : q.reading row with
    | error fault' =>
      rw [answer_of_fault hterms] at h
      split at h
      · next hends =>
        cases h
        exact .term hterms hends
      · cases h
    | ok w =>
      rw [answer_of_terms hterms] at h
      cases hprice : numberIn row "price" with
      | error fault' =>
        rw [hprice] at h
        cases h
        exact .price hterms hprice
      | ok price =>
        rw [hprice, Except.bind] at h
        cases hsearch : ((w.search q.engine q.query q.guess price).exec q.opening).1 with
        | error fault' =>
          rw [hsearch] at h
          cases h
          exact .search hterms hprice hsearch
        | ok result =>
          rw [hsearch] at h
          cases h

theorem answered_iff : (∃ outcome, q.answer row = .ok outcome) ↔ ∀ fault, ¬q.Stops row fault := by
  simp only [stops_iff]
  cases q.answer row <;> simp

/-! ### Cells that end a batch -/

/-- The cell in a column holds no number that could be unfit: it is missing, or counts beyond all
numbers. -/
def Lacks (row : Row columns) (name : String) : Prop :=
  row.cell? name = some .missing ∨
    ∃ n, row.cell? name = some (.count n) ∧ (Scalar.ofInt? n : Option Double) = none

/-- The cell in a column holds a text that is no number. -/
def Misreads (row : Row columns) (name : String) : Prop :=
  ∃ s, row.cell? name = some (.text s) ∧ Decimal.read? s = none

theorem Lacks.ne_ok {name : String} (h : Lacks row name) {x : Double} : numberIn row name ≠ .ok x := by
  unfold numberIn
  rcases h with hc | ⟨n, hc, hn⟩
  · rw [hc]
    exact nofun
  · rw [hc, Option.getD_some, Cell.toNumber, hn]
    exact nofun

theorem Misreads.ne_ok {name : String} (h : Misreads row name) {x : Double} :
    numberIn row name ≠ .ok x := by
  obtain ⟨s, hc, hs⟩ := h
  unfold numberIn
  rw [hc, Option.getD_some, Cell.toNumber, hs]
  exact nofun

theorem numberIn_error {name : String} {fault : Fault Double} (hname : name ∈ columns)
    (h : numberIn row name = .error fault) :
    Lacks row name ∧ endsBatch fault = true ∨ Misreads row name ∧ endsBatch fault = false := by
  obtain ⟨c, hc⟩ := row.cell_of_mem hname
  unfold numberIn at h
  rw [hc, Option.getD_some] at h
  cases c with
  | missing =>
    cases h
    exact .inl ⟨.inl hc, rfl⟩
  | count n =>
    cases hn : (Scalar.ofInt? n : Option Double) with
    | none =>
      simp only [Cell.toNumber, hn] at h
      cases h
      exact .inl ⟨.inr ⟨n, hc, hn⟩, rfl⟩
    | some x =>
      simp only [Cell.toNumber, hn] at h
      cases h
  | text s =>
    cases hs : Decimal.read? s with
    | none =>
      simp only [Cell.toNumber, hs] at h
      cases h
      exact .inr ⟨⟨s, hc, hs⟩, rfl⟩
    | some x =>
      simp only [Cell.toNumber, hs] at h
      cases h
  | _ => cases h

theorem bind_eq_error {ε β γ : Type} {m : Except ε β} {k : β → Except ε γ} {e : ε}
    (h : m >>= k = .error e) : m = .error e ∨ ∃ b, m = .ok b ∧ k b = .error e := by
  cases m with
  | error e' =>
    cases h
    exact .inl rfl
  | ok b => exact .inr ⟨b, rfl, h⟩

/-- A volatility that is refused rejects its row. -/
theorem checkVol_rejects {sigma : Strip Double} {fault : Fault Double}
    (h : Context.checkVol sigma = .error fault) : endsBatch fault = false := by
  unfold Context.checkVol at h
  split_ifs at h
  cases h
  rfl

theorem checkTerms_rejects {c : Context Double} {fault : Fault Double} (h : c.checkTerms = .error fault) :
    endsBatch fault = false := by
  unfold Context.checkTerms at h
  split_ifs at h <;> cases h <;> rfl

/-- A reading ends the batch only where it met a cell that it could not read. -/
theorem reading_endsBatch {fault : Fault Double} (h : q.reading row = .error fault)
    (hends : endsBatch fault = true) : ∃ name ∈ requiredColumns, numberIn row name = .error fault := by
  have hchecked (hrejects : endsBatch fault = false) : False := by
    rw [hends] at hrejects
    cases hrejects
  rcases bind_eq_error h with hstrike | ⟨strike, -, h⟩
  · exact ⟨"strike", by decide, hstrike⟩
  rcases bind_eq_error h with hexpiry | ⟨expiry, -, h⟩
  · exact ⟨"expiry", by decide, hexpiry⟩
  rcases bind_eq_error h with hforward | ⟨forward, -, h⟩
  · exact ⟨"forward", by decide, hforward⟩
  rcases bind_eq_error h with hvol | ⟨_, -, h⟩
  · exact (hchecked (checkVol_rejects hvol)).elim
  rcases bind_eq_error h with hrate | ⟨rate, -, h⟩
  · exact ⟨"rate", by decide, hrate⟩
  rcases bind_eq_error h with hterms | ⟨_, -, h⟩
  · exact (hchecked (checkTerms_rejects hterms)).elim
  · cases h

/-- A row whose method guards its divisors ends its batch only by a cell that lacks a number or a price
that is misread. -/
theorem Stops.cause {m : Method} {fault : Fault Double} (h : q.Stops row fault)
    (hcolumns : ∀ name ∈ requiredColumns, name ∈ columns)
    (hm : Method.ofName? q.method = some m) (hguarded : m.guardsDivisors = true)
    (haccuracy : Scalar.isNaN q.engine.accuracy = false) :
    (∃ name ∈ requiredColumns, Lacks row name) ∨ Misreads row "price" := by
  have hprice : "price" ∈ requiredColumns := by decide
  cases h with
  | term hterm hends =>
    obtain ⟨name, hname, hnumber⟩ := reading_endsBatch hterm hends
    rcases numberIn_error (hcolumns name hname) hnumber with ⟨hlacks, -⟩ | ⟨-, hrejects⟩
    · exact .inl ⟨name, hname, hlacks⟩
    · rw [hends] at hrejects
      cases hrejects
  | price _ hnumber =>
    rcases numberIn_error (hcolumns "price" hprice) hnumber with ⟨hlacks, -⟩ | ⟨hmisreads, -⟩
    · exact .inl ⟨"price", hprice, hlacks⟩
    · exact .inr hmisreads
  | @search w price _ _ _ hsearch =>
    have hsucceeds : (w.search q.engine q.query q.guess price).Succeeds q.opening :=
      Terms.search_succeeds hm hguarded haccuracy
    obtain ⟨result, u, hexec⟩ := hsucceeds
    rw [hexec] at hsearch
    cases hsearch

/-! ### Batches that end -/

/-- A batch returns, with one outcome and one row for every row of its table, if and only if no row ends
it. Otherwise it ends as the first such row does: one with a term that is missing or beyond all numbers,
one with fit terms but no price that can be read, or one whose search ends in a fault. By a method that
guards its divisors no search ends so. Then only a missing cell, an integer beyond all numbers or a text
for the price can end a batch, and no other number, flag or text. -/
theorem batch_returns_unless_row_stops (q : QuoteSolver) (t : Table)
    (hcolumns : ∀ name ∈ requiredColumns, name ∈ t.columns) :
    ((∃ outcomes table, (q.solve t).1 = .ok (outcomes, table) ∧
        outcomes.length = t.rows.length ∧ table.rows.length = t.rows.length) ↔
      ∀ row ∈ t.rows, ∀ fault, ¬q.Stops row fault) ∧
    (∀ before row after fault, t.rows = before ++ row :: after →
      (∀ row ∈ before, ∀ fault, ¬q.Stops row fault) → q.Stops row fault →
      (q.solve t).1 = .error fault) ∧
    ∀ m, Method.ofName? q.method = some m → m.guardsDivisors = true →
      Scalar.isNaN q.engine.accuracy = false → ∀ (row : Row t.columns) (fault : Fault Double),
        q.Stops row fault → (∃ name ∈ requiredColumns, Lacks row name) ∨ Misreads row "price" := by
  obtain ⟨columns, rows⟩ := t
  refine ⟨⟨fun hreturns => ?_, fun h => ?_⟩,
    fun (before : List (Row columns)) (row : Row columns) (after : List (Row columns)) fault
      (hrows : rows = before ++ row :: after) hbefore hrow => ?_, ?_⟩
  · obtain ⟨outcomes, table, hsolve, -⟩ := hreturns
    exact fun row hrow => answered_iff.1 (answered_of_solve hcolumns hsolve row hrow)
  · exact ⟨_, _, solve_of_answered hcolumns fun row hrow => answered_iff.2 (h row hrow),
      List.length_map _, List.length_map _⟩
  · subst hrows
    exact solve_of_stopped hcolumns (fun row hrow => answered_iff.2 (hbefore row hrow)) (stops_iff.1 hrow)
  · exact fun m hm hguarded haccuracy row fault hstops => hstops.cause hcolumns hm hguarded haccuracy

/-- A row of five cells, in the order of the required columns. -/
def quoteRow (forward strike expiry rate price : Cell) : Row requiredColumns where
  cells := [forward, strike, expiry, rate, price]
  width := rfl

/-- A quote that can be solved. -/
def usable : Row requiredColumns :=
  quoteRow (.number 100.0) (.number 100.0) (.number 1.0) (.number 0.02) (.number 8.0)

/-- A quote with a text for its price. -/
def unusable : Row requiredColumns :=
  quoteRow (.number 100.0) (.number 100.0) (.number 1.0) (.number 0.02) (.text "abc")

/-- The two quotes in one table. -/
def halfUsable : Table := ⟨requiredColumns, [usable, unusable]⟩

theorem usable_answered : ∃ o, ({} : QuoteSolver).answer usable = .ok o := by
  have hmethod : Method.ofName? "brent" = some .brent := by decide +kernel
  refine answered_iff.2 fun fault hstops => ?_
  rcases hstops.cause (by decide) hmethod rfl (by decide +kernel) with ⟨name, hname, hlacks⟩ | ⟨s, hcell, -⟩
  · simp only [requiredColumns, List.mem_cons, List.not_mem_nil, or_false] at hname
    rcases hlacks with hcell | ⟨n, hcell, -⟩ <;>
      rcases hname with rfl | rfl | rfl | rfl | rfl <;> cases hcell
  · cases hcell

theorem unusable_stops : ({} : QuoteSolver).Stops unusable (.unreadable "abc") :=
  .price (w := ⟨100.0, 100.0, 1.0, 0.02, true⟩) rfl rfl

/-- The batch of the two quotes ends in the fault of the second. -/
theorem batch_ends_at_unreadable_price :
    (∀ name ∈ requiredColumns, name ∈ halfUsable.columns) ∧
      (({} : QuoteSolver).solve halfUsable).1 = .error (.unreadable "abc") := by
  have hcolumns : ∀ name ∈ requiredColumns, name ∈ halfUsable.columns := fun _ hname => hname
  refine ⟨hcolumns, ?_⟩
  exact (batch_returns_unless_row_stops {} halfUsable hcolumns).2.1 [usable] unusable [] _ rfl
    (List.forall_mem_singleton.2 (answered_iff.1 usable_answered)) unusable_stops

/-- So a known method and a table with all required columns are not enough for a batch to return. -/
theorem batch_lost_to_unreadable_price :
    ¬∀ (q : QuoteSolver) (t : Table), (∃ m, Method.ofName? q.method = some m) →
      (∀ name ∈ requiredColumns, name ∈ t.columns) →
      ∃ outcomes table, (q.solve t).1 = .ok (outcomes, table) ∧ table.rows.length = t.rows.length := by
  intro h
  obtain ⟨outcomes, table, hsolve, -⟩ := h {} halfUsable ⟨.brent, by decide +kernel⟩ fun _ hname => hname
  have hstops : (({} : QuoteSolver).solve ⟨requiredColumns, [usable] ++ unusable :: []⟩).1 =
      .error (.unreadable "abc") :=
    solve_of_stopped (fun _ hname => hname) (List.forall_mem_singleton.2 usable_answered)
      (stops_iff.1 unusable_stops)
  cases hstops.symm.trans hsolve

end QuoteSolver

end RootSearch
