import RootSearch.Decimal.Reader
import RootSearch.Double
import RootSearch.Fault
/-!
# Tables

Named columns over rows of cells. A row has a cell for each of its columns.
-/

namespace RootSearch

inductive Cell where
  | number (x : Double)
  | flag (b : Bool)
  | text (s : String)
  | count (n : Int)
  | missing

namespace Cell

/-- Whether a cell says yes: a missing one, zero and the empty text say no. -/
def isTrue : Cell → Bool
  | number x => !(x == 0.0)
  | flag b => b
  | text s => s ≠ ""
  | count n => n ≠ 0
  | missing => false

/-- The number that a cell holds. -/
def toNumber : Cell → Except (Fault Double) Double
  | number x => .ok x
  | flag b => .ok (if b then 1.0 else 0.0)
  | text s => match Decimal.read? s with
    | some x => .ok ⟨x, false⟩
    | none => .error (.unreadable s)
  | count n => match Scalar.ofInt? n with
    | some x => .ok x
    | none => .error .unrepresentable
  | missing => .error .missingNumber

end Cell

/-- The names of the columns once one was assigned: a new one comes last. -/
def Table.added (columns : List String) (name : String) : List String :=
  if columns.contains name then columns else columns ++ [name]

/-- A cell for each of some columns. -/
structure Row (columns : List String) where
  cells : List Cell
  width : cells.length = columns.length := by simp

namespace Row

variable {columns : List String}

/-- The cell in a named column. -/
def cell? (row : Row columns) (name : String) : Option Cell := row.cells[columns.idxOf name]?

/-- Puts a cell in the place of a column, or after all others if the column is new. -/
def put (row : Row columns) (name : String) (c : Cell) : Row (Table.added columns name) where
  cells :=
    if columns.contains name then row.cells.set (columns.idxOf name) c else row.cells ++ [c]
  width := by
    unfold Table.added
    split <;> simp [row.width]

end Row

structure Table where
  columns : List String
  rows : List (Row columns)

/-- Assigns a column, one cell to every row. -/
def Table.assign (t : Table) (name : String) (cells : List Cell) : Table where
  columns := added t.columns name
  rows := List.zipWith (fun row c => row.put name c) t.rows cells

end RootSearch
