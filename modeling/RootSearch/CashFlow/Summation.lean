import RootSearch.Scalar
/-!
# Sums

A long sum is cut in two until its parts are short, and a part is summed in eight lanes at a time, so
rounding errors do not pile up with every term. The order of the additions shows in the last digits.
-/

namespace RootSearch

variable {α : Type} [Scalar α]

/-- Eight running sums. -/
structure Lanes (α : Type) where
  (r0 r1 r2 r3 r4 r5 r6 r7 : α)

namespace Lanes

def add (l m : Lanes α) : Lanes α :=
  ⟨l.r0 + m.r0, l.r1 + m.r1, l.r2 + m.r2, l.r3 + m.r3, l.r4 + m.r4, l.r5 + m.r5, l.r6 + m.r6, l.r7 + m.r7⟩

/-- The lanes added up in pairs. -/
def total (l : Lanes α) : α := ((l.r0 + l.r1) + (l.r2 + l.r3)) + ((l.r4 + l.r5) + (l.r6 + l.r7))

/-- Gives terms to the lanes in turn. Those that are left when not every lane gets one are added after
the lanes. -/
def sum (l : Lanes α) : List α → α
  | a :: b :: c :: d :: e :: f :: g :: h :: rest => (l.add ⟨a, b, c, d, e, f, g, h⟩).sum rest
  | rest => rest.foldl (· + ·) l.total

end Lanes

/-- The sum of a part: in lanes if there is a term for each of them, else in order. -/
def sumPart : List α → α
  | a :: b :: c :: d :: e :: f :: g :: h :: rest => (Lanes.mk a b c d e f g h).sum rest
  | first :: rest => rest.foldl (· + ·) first
  | [] => 0.0

/-- The sum of a list. Parts have up to 128 terms, and a list is cut near its middle after a multiple of
eight terms. -/
def sumPairwise (terms : List α) : α :=
  if terms.length ≤ 128 then sumPart terms
  else
    let half := terms.length / 2
    let cut := half - half % 8
    sumPairwise (terms.take cut) + sumPairwise (terms.drop cut)
termination_by terms.length
decreasing_by
  all_goals
    simp only [List.length_take, List.length_drop]
    omega

end RootSearch
