import RootSearch.Black.ImpliedVol
import RootSearch.Report
import RootSearch.Table
/-!
# Solving tables of option quotes

Finds the implied volatility of every row of a table. A row whose terms are unfit is marked
`invalid_input` instead of ending the batch; a term that is missing or beyond all numbers, or a price
that is no number, does end it. The answers are added to the table as columns.
-/

namespace RootSearch

/-- What became of a quote. -/
inductive QuoteOutcome where
  | solved (result : Result Double)
  | rejected (fault : Fault Double)

namespace QuoteOutcome

/-- The implied volatility, if there is one. -/
def vol : QuoteOutcome → Double
  | solved r => if r.ok then r.root.getD (0.0 / 0.0) else 0.0 / 0.0
  | rejected _ => 0.0 / 0.0

def status : QuoteOutcome → String
  | solved r => r.status.name
  | rejected _ => "invalid_input"

def evaluations : QuoteOutcome → Int
  | solved r => r.evaluations
  | rejected _ => 0

def message : QuoteOutcome → String
  | solved r => r.reason.message
  | rejected fault => fault.message

def isSolved (o : QuoteOutcome) : Bool := o.status == Status.converged.name

end QuoteOutcome

/-- An engine with the guess and the step that every quote starts from. -/
structure QuoteSolver where
  engine : ImpliedVol Double := {}
  method : String := "brent"
  guess : Double := 0.2
  step : Double := 0.05

namespace QuoteSolver

def requiredColumns : List String := ["forward", "strike", "expiry", "rate", "price"]

/-- Whether a fault in the terms of a row ends the batch. It does where there is no number to be unfit:
all other faults reject the row only. -/
def endsBatch : Fault Double → Bool
  | .missingNumber | .unrepresentable => true
  | _ => false

section Rows

variable {columns : List String}

/-- The number in a column that must be there. -/
def numberIn (row : Row columns) (name : String) : Except (Fault Double) Double :=
  ((row.cell? name).getD .missing).toNumber

/-- The context of a row. Its volatility is the guess, which the search replaces; an option is a
call unless its row says otherwise. -/
def terms (q : QuoteSolver) (row : Row columns) : Solve Double (Context Double) := do
  let isCall := ((row.cell? "is_call").getD (.flag true)).isTrue
  let strike ← Solve.attempt (numberIn row "strike")
  let expiry ← Solve.attempt (numberIn row "expiry")
  let forward ← Solve.attempt (numberIn row "forward")
  Context.acceptVol (.one q.guess)
  let rate ← Solve.attempt (numberIn row "rate")
  let context : Context Double :=
    { forward := .one forward, strike := .one strike, expiry := .one expiry, sigma := .one q.guess,
      rate := .one rate, isCall := .one isCall, quantity := .one 1.0 }
  Solve.attempt context.checkTerms
  return context

/-- Solves one row. A row with unfit terms is rejected. -/
def solveRow (q : QuoteSolver) (row : Row columns) : Solve Double QuoteOutcome := do
  match ← Solve.observe (q.terms row) with
  | .error fault => if endsBatch fault then throw fault else return .rejected fault
  | .ok context => do
    let price ← Solve.attempt (numberIn row "price")
    .solved <$> q.engine.run price context { guess := q.guess, step := q.step, method := q.method }

/-- Solves rows in order, each in a session of its own, up to the first fault. -/
def solveRows (q : QuoteSolver) :
    List (Row columns) → Except (Fault Double) (List QuoteOutcome) × List (Event Double)
  | [] => (.ok [], [])
  | row :: rest =>
    match (q.solveRow row).exec Session.start with
    | (.error fault, session) => (.error fault, session.events.toList)
    | (.ok outcome, session) =>
      let (outcomes, events) := q.solveRows rest
      (outcomes.map (outcome :: ·), session.events.toList ++ events)

end Rows

/-- The table with the columns of the answers. -/
def record (t : Table) (outcomes : List QuoteOutcome) : Table :=
  (((t.assign "implied_vol" (outcomes.map fun o => .number o.vol)).assign
    "status" (outcomes.map fun o => .text o.status)).assign
    "evaluations" (outcomes.map fun o => .count o.evaluations)).assign
    "message" (outcomes.map fun o => .text o.message)

/-- What is reported once all quotes are solved. -/
def closing (outcomes : List QuoteOutcome) : List (Event Double) :=
  let failed := (outcomes.filter (!·.isSolved)).length
  if outcomes.isEmpty then [.noQuotes]
  else if failed = 0 then []
  else [.quotesFailed failed outcomes.length]

/-- Solves every row of a table. -/
def solve (q : QuoteSolver) (t : Table) :
    Except (Fault Double) (List QuoteOutcome × Table) × List (Event Double) :=
  let absent := requiredColumns.filter (!t.columns.contains ·)
  if !absent.isEmpty then (.error (.missingColumns absent), [])
  else
    match q.solveRows t.rows with
    | (.error fault, events) => (.error fault, events)
    | (.ok outcomes, events) =>
      (.ok (outcomes, record t outcomes), events ++ closing outcomes)

end QuoteSolver

end RootSearch
