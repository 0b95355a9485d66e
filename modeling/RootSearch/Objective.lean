import RootSearch.Fault
/-!
# Objectives

A function whose root is sought. It may fail at a point, and it may know its own derivative.
-/

namespace RootSearch

/-- A function of one variable that may fail. -/
abbrev Slope (α : Type) := α → Except (Fault α) α

structure Objective (α : Type) where
  value : α → Except (Fault α) α
  slope : Option (Slope α) := none

/-- An objective that has a value everywhere. -/
def Objective.ofTotal {α : Type} (f : α → α) (slope : Option (α → α) := none) : Objective α where
  value x := .ok (f x)
  slope := slope.map fun g x => .ok (g x)

end RootSearch
