import Mathlib.Data.List.Basic
import RootSearch.Table
/-!
# Rows of tables

Adding columns to a table goes row by row, and changes no cell of another column.
-/

namespace RootSearch

open Table (added)

variable {columns : List String} {row : Row columns} {name other : String} {c : Cell}

theorem Row.idxOf_lt (row : Row columns) (h : name ∈ columns) : columns.idxOf name < row.cells.length := by
  rw [row.width]
  exact List.idxOf_lt_length_of_mem h

/-- Every column that a row has is found. -/
theorem Row.cell_of_mem (row : Row columns) (h : name ∈ columns) : ∃ c, row.cell? name = some c :=
  ⟨_, List.getElem?_eq_getElem (row.idxOf_lt h)⟩

/-! ## Added columns -/

theorem Table.mem_added_self : name ∈ added columns name := by
  unfold added
  split
  · next h => simpa using h
  · simp

theorem Table.mem_added_of_mem (h : other ∈ columns) : other ∈ added columns name := by
  unfold added
  split
  · exact h
  · exact List.mem_append_left _ h

/-- A column is assigned row by row. -/
theorem Table.assign_map {β : Type} (items : List β) (rowOf : β → Row columns) (name : String)
    (cellOf : β → Cell) :
    assign ⟨columns, items.map rowOf⟩ name (items.map cellOf) =
      ⟨added columns name, items.map fun item => (rowOf item).put name (cellOf item)⟩ := by
  simp [assign, List.zipWith_map, List.zipWith_self]

namespace Row

/-- The cell that was put in a column is found there. -/
theorem cell_put_self : (row.put name c).cell? name = some c := by
  unfold cell? put added
  by_cases hold : columns.contains name = true
  · have hindex : columns.idxOf name < row.cells.length := row.idxOf_lt (by simpa using hold)
    simp only [if_pos hold]
    simp [hindex]
  · have hnew : name ∉ columns := by simpa using hold
    simp only [if_neg hold]
    rw [List.idxOf_append_of_notMem hnew]
    simp [row.width]

/-- The cells of the other columns stay. -/
theorem cell_put_other (hmem : other ∈ columns) (hne : other ≠ name) :
    (row.put name c).cell? other = row.cell? other := by
  unfold cell? put added
  by_cases hold : columns.contains name = true
  · have hapart : columns.idxOf name ≠ columns.idxOf other :=
      fun he => hne ((List.idxOf_inj (by simpa using hold)).1 he).symm
    simp only [if_pos hold]
    exact List.getElem?_set_ne hapart
  · simp only [if_neg hold]
    rw [List.idxOf_append_of_mem hmem]
    exact List.getElem?_append_left (row.idxOf_lt hmem)

end Row

/-! ## Several added columns -/

/-- The names of the columns once some were assigned. -/
def Table.addedAll (columns : List String) (names : List String) : List String := names.foldl added columns

/-- Columns that are there keep their places, and the others follow in order. -/
theorem Table.addedAll_eq {names : List String} (h : names.Nodup) (columns : List String) :
    addedAll columns names = columns ++ names.filter (· ∉ columns) := by
  induction names generalizing columns with
  | nil => simp [addedAll]
  | cons name names ih =>
    obtain ⟨hnew, hrest⟩ := List.nodup_cons.1 h
    have hfilter : names.filter (· ∉ added columns name) = names.filter (· ∉ columns) := by
      refine List.filter_congr fun other hother => ?_
      have hne : other ≠ name := fun e => hnew (e ▸ hother)
      unfold added
      split <;> simp [hne]
    show addedAll (added columns name) names = _
    rw [ih hrest, hfilter]
    unfold added
    by_cases hmem : name ∈ columns <;> simp [hmem]

namespace Row

/-- Puts cells in columns, one after the other. -/
def putAll {columns : List String} (row : Row columns) :
    (cells : List (String × Cell)) → Row (Table.addedAll columns (cells.map Prod.fst))
  | [] => row
  | (name, c) :: cells => (row.put name c).putAll cells

variable {cells : List (String × Cell)}

/-- The cells of columns that were not assigned stay. -/
theorem cell_putAll_other (hmem : other ∈ columns) (hother : other ∉ cells.map Prod.fst) :
    (row.putAll cells).cell? other = row.cell? other := by
  induction cells generalizing columns with
  | nil => rfl
  | cons cell cells ih =>
    obtain ⟨hne, hrest⟩ := List.ne_and_not_mem_of_not_mem_cons hother
    exact (ih (Table.mem_added_of_mem hmem) hrest).trans (cell_put_other hmem hne)

theorem cell_putAll_self (hnodup : (cells.map Prod.fst).Nodup) (hmem : (name, c) ∈ cells) :
    (row.putAll cells).cell? name = some c := by
  induction cells generalizing columns with
  | nil => cases hmem
  | cons cell cells ih =>
    obtain ⟨hnew, hrest⟩ := List.nodup_cons.1 hnodup
    rcases List.mem_cons.1 hmem with rfl | hmem
    · -- the columns that are assigned later have other names
      exact (cell_putAll_other Table.mem_added_self hnew).trans cell_put_self
    · exact ih hrest hmem

end Row

end RootSearch
