import RootSearch.Fault
/-!
# Nested lists as arrays

A nested list is an array if all lists at one depth have the same length. The shape is the list of
these lengths, the data are the leaves in order.
-/

namespace RootSearch

inductive Nested (β : Type) where
  | leaf (value : β)
  | list (items : List (Nested β))

/-- The longest common beginning of two shapes. -/
def commonShape : List Nat → List Nat → List Nat
  | m :: s, n :: t => if m = n then m :: commonShape s t else []
  | _, _ => []

namespace Nested

variable {α β : Type}

mutual

/-- The shape as deep as all parts share it, and whether that is the whole shape. -/
def shared : Nested β → List Nat × Bool
  | leaf _ => ([], true)
  | list items => let (shape, isEven) := sharedBy items; (items.length :: shape, isEven)

def sharedBy : List (Nested β) → List Nat × Bool
  | [] => ([], true)
  | [item] => item.shared
  | item :: next :: rest =>
    let (s, isEven) := item.shared
    let (t, isEvenRest) := sharedBy (next :: rest)
    (commonShape s t, isEven && isEvenRest && s == t)

end

mutual

/-- The leaves in order. -/
def leaves : Nested β → List β
  | leaf value => [value]
  | list items => leavesOf items

def leavesOf : List (Nested β) → List β
  | [] => []
  | item :: rest => item.leaves ++ leavesOf rest

end

end Nested

/-- An array: its leaves, the last index running fastest. -/
structure Grid (β : Type) where
  shape : List Nat
  data : List β

namespace Grid

variable {α β : Type}

/-- The number of dimensions that an array has at most. -/
def dimensionLimit : Nat := 64

def ofNested (x : Nested β) : Except (Fault α) (Grid β) :=
  let (shape, isEven) := x.shared
  if isEven ∧ shape.length ≤ dimensionLimit then .ok ⟨shape, x.leaves⟩
  else if shape.length < dimensionLimit then .error (.ragged shape)
  else .error (.tooDeep dimensionLimit)

/-- The same array, a single value as a vector of length one. -/
def atLeastVector (g : Grid β) : Grid β := if g.shape.isEmpty then { g with shape := [1] } else g

end Grid

end RootSearch
