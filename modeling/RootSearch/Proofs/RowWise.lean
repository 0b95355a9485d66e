import RootSearch.Proofs.Batches
/-!
# A batch is a map over its rows

What a row becomes does not depend on the others: it reads no cells but its own, and every search starts
afresh. So a batch is the table of what its rows become one by one, each beside its own cells.
-/

namespace RootSearch

open Solve

/-- A row holds the terms. -/
structure Terms.IsIn {columns : List String} (w : Terms Double) (row : Row columns) : Prop where
  forward : QuoteSolver.numberIn row "forward" = .ok w.forward
  strike : QuoteSolver.numberIn row "strike" = .ok w.strike
  expiry : QuoteSolver.numberIn row "expiry" = .ok w.expiry
  rate : QuoteSolver.numberIn row "rate" = .ok w.rate
  isCall : ((row.cell? "is_call").getD (.flag true)).isTrue = w.isCall

namespace QuoteSolver

/-- The needed cells of a row hold numbers. -/
def Complete {columns : List String} (row : Row columns) : Prop :=
  ∀ name ∈ requiredColumns, ∃ x, numberIn row name = .ok x

variable {q : QuoteSolver} {columns : List String} {row : Row columns} {w : Terms Double}

/-! ## What a complete row becomes -/

theorem Complete.terms (h : Complete row) : ∃ w : Terms Double, w.IsIn row := by
  obtain ⟨forward, hforward⟩ := h "forward" (by decide)
  obtain ⟨strike, hstrike⟩ := h "strike" (by decide)
  obtain ⟨expiry, hexpiry⟩ := h "expiry" (by decide)
  obtain ⟨rate, hrate⟩ := h "rate" (by decide)
  exact ⟨⟨forward, strike, expiry, rate, _⟩, hforward, hstrike, hexpiry, hrate, rfl⟩

/-- Terms that are there are read unless their context is refused. -/
theorem reading_of_terms (h : w.IsIn row) :
    q.reading row = (fun _ => w) <$> (w.context q.guess).check := by
  obtain ⟨forward, strike, expiry, rate, isCall⟩ := w
  obtain ⟨hforward, hstrike, hexpiry, hrate, rfl⟩ := h
  simp only [reading, hforward, hstrike, hexpiry, hrate, Context.check, map_bind]
  rfl

/-- A context that is refused rejects its row. -/
theorem check_rejects {c : Context Double} {fault : Fault Double} (h : c.check = .error fault) :
    endsBatch fault = false := by
  rcases bind_eq_error h with hvol | ⟨_, -, hterms⟩
  · exact checkVol_rejects hvol
  · exact checkTerms_rejects hterms

/-- What is said of a quote: that it was refused, with no evaluations and no volatility, exactly if its
context was, and a volatility exactly if the search converged. -/
structure Reports (refused : Prop) (o : QuoteOutcome) : Prop where
  refused_iff : o.status = "invalid_input" ↔ refused
  refused : o.status = "invalid_input" → o.evaluations = 0 ∧ o.vol.isNaN = true
  vol_iff : o.vol.isNaN = false ↔ o.status = "converged"

theorem reports_rejected (fault : Fault Double) {refused : Prop} (h : refused) :
    Reports refused (.rejected fault) where
  refused_iff := ⟨fun _ => h, fun _ => rfl⟩
  refused _ := ⟨rfl, Double.isNaN_nan⟩
  vol_iff := by
    simp [QuoteOutcome.vol, QuoteOutcome.status, Double.isNaN_nan]

theorem reports_solved {result : Result Double} {refused : Prop} (h : ¬refused)
    (hroot : result.status = .converged → ∃ x, result.root = some x ∧ x.isNaN = false) :
    Reports refused (.solved result) := by
  have hstatus : (QuoteOutcome.solved result).status ≠ "invalid_input" := by
    show result.status.name ≠ "invalid_input"
    cases result.status <;> decide
  refine ⟨⟨fun hinvalid => absurd hinvalid hstatus, fun hrefused => absurd hrefused h⟩,
    fun hinvalid => absurd hinvalid hstatus, ?_⟩
  by_cases hconverged : result.status = .converged
  · obtain ⟨x, hx, hnumber⟩ := hroot hconverged
    simp [QuoteOutcome.vol, QuoteOutcome.status, Result.ok, hconverged, hx, hnumber, Status.name]
  · have hname : result.status.name ≠ "converged" := by
      revert hconverged
      cases result.status <;> decide
    simp [QuoteOutcome.vol, QuoteOutcome.status, Result.ok, hconverged, Double.isNaN_nan, hname]

/-- An answered row reports what became of its terms. -/
theorem reports_answered {m : Method} (hm : Method.ofName? q.method = some m) (hnative : m ≠ .brentq)
    (hw : w.IsIn row) {o : QuoteOutcome} (ho : q.answer row = .ok o) :
    Reports (∃ fault, (w.context q.guess).check = .error fault) o := by
  have hreading := reading_of_terms (q := q) hw
  cases hcheck : (w.context q.guess).check with
  | error fault =>
    rw [hcheck] at hreading
    rw [answer_of_fault hreading, check_rejects hcheck] at ho
    cases ho
    exact reports_rejected fault ⟨fault, rfl⟩
  | ok u =>
    rw [hcheck] at hreading
    rw [answer_of_terms hreading] at ho
    obtain ⟨price, -, hsearch⟩ := bind_eq_ok.1 ho
    cases hresult : ((w.search q.engine q.query q.guess price).exec q.opening).1 with
    | error fault =>
      rw [hresult] at hsearch
      cases hsearch
    | ok result =>
      rw [hresult] at hsearch
      cases hsearch
      have hroot : (w.search q.engine q.query q.guess price).Ensures q.opening
          (fun result _ => result.status = .converged → ∃ x, result.root = some x ∧ x.isNaN = false)
          fun _ _ => True := Terms.search_root hm hnative
      exact reports_solved (by simp) (hroot.answer hresult)

/-! ## Batches of complete rows -/

/-- The row with what it becomes. -/
def extend (q : QuoteSolver) (row : Row columns) : Row (Table.addedAll columns resultColumns) :=
  row.putAll (q.outcome row).cells

/-- An extended row has the cells of its outcome, and its own in all other columns. -/
theorem cell_extend (q : QuoteSolver) (row : Row columns) :
    (∀ cell ∈ (q.outcome row).cells, (q.extend row).cell? cell.1 = some cell.2) ∧
    ∀ name ∈ columns, name ∉ resultColumns → (q.extend row).cell? name = row.cell? name := by
  have hnodup : ((q.outcome row).cells.map Prod.fst).Nodup := by
    show resultColumns.Nodup
    decide
  exact ⟨fun _ hcell => Row.cell_putAll_self hnodup hcell,
    fun _ hname (hother : _ ∉ (q.outcome row).cells.map Prod.fst) => Row.cell_putAll_other hname hother⟩

/-- If a batch of the row alone returns, the row is answered. -/
theorem answered_of_alone (hcolumns : ∀ name ∈ requiredColumns, name ∈ columns)
    (h : ∃ r, (q.solve ⟨columns, [row]⟩).1 = .ok r) : ∃ o, q.answer row = .ok o := by
  obtain ⟨r, hr⟩ := h
  exact answered_of_solve hcolumns hr row (List.mem_singleton_self row)

/-- By a method that guards its divisors, the batch of a complete row returns. -/
theorem Complete.returns (h : Complete row) (hcolumns : ∀ name ∈ requiredColumns, name ∈ columns)
    {m : Method} (hm : Method.ofName? q.method = some m) (hguarded : m.guardsDivisors = true)
    (haccuracy : Scalar.isNaN q.engine.accuracy = false) :
    ∃ r, (q.solve ⟨columns, [row]⟩).1 = .ok r := by
  have hanswered : ∃ o, q.answer row = .ok o := by
    refine answered_iff.2 fun fault hstops => ?_
    have hnumber (name : String) (hname : name ∈ requiredColumns) :
        ¬Lacks row name ∧ ¬Misreads row name := by
      obtain ⟨x, hx⟩ := h name hname
      exact ⟨fun hlacks => hlacks.ne_ok hx, fun hmisreads => hmisreads.ne_ok hx⟩
    rcases hstops.cause hcolumns hm hguarded haccuracy with ⟨name, hname, hlacks⟩ | hmisreads
    · exact (hnumber name hname).1 hlacks
    · exact (hnumber "price" (by decide)).2 hmisreads
  exact ⟨_, solve_of_answered hcolumns (List.forall_mem_singleton.2 hanswered)⟩

/-- A row of five numbers. -/
def numberRow (forward strike expiry rate price : Double) : Row requiredColumns :=
  quoteRow (.number forward) (.number strike) (.number expiry) (.number rate) (.number price)

theorem complete_numberRow (forward strike expiry rate price : Double) :
    Complete (numberRow forward strike expiry rate price) := by
  intro name hname
  simp only [requiredColumns, List.mem_cons, List.not_mem_nil, or_false] at hname
  rcases hname with rfl | rfl | rfl | rfl | rfl <;> exact ⟨_, rfl⟩

end QuoteSolver

end RootSearch
