/-!
# Scalars and vectors

A `Strip` is one value or a vector of values. Operations on two strips go entry by entry; a single
value, or a vector of length one, is used for every entry of the other.
-/

namespace RootSearch

inductive Strip (β : Type) where
  | one (x : β)
  | many (xs : List β)
deriving DecidableEq

namespace Strip

variable {β γ δ : Type}

def map (f : β → γ) : Strip β → Strip γ
  | one x => one (f x)
  | many xs => many (xs.map f)

/-- The length of a vector. -/
def length? : Strip β → Option Nat
  | one _ => none
  | many xs => some xs.length

def isScalar : Strip β → Bool
  | one _ => true
  | many _ => false

def toList : Strip β → List β
  | one x => [x]
  | many xs => xs

def any (p : β → Bool) (s : Strip β) : Bool := s.toList.any p

/-- Combines two strips entry by entry; the two lengths when they do not fit. -/
def zip (f : β → γ → δ) : Strip β → Strip γ → Except (Nat × Nat) (Strip δ)
  | one x, one y => .ok (one (f x y))
  | one x, many ys => .ok (many (ys.map (f x)))
  | many xs, one y => .ok (many (xs.map (f · y)))
  | many xs, many ys =>
    if xs.length = ys.length then .ok (many (List.zipWith f xs ys))
    else match xs, ys with
      | [x], _ => .ok (many (ys.map (f x)))
      | _, [y] => .ok (many (xs.map (f · y)))
      | _, _ => .error (xs.length, ys.length)

end Strip

end RootSearch
