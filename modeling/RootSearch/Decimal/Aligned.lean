import RootSearch.Decimal.Style
/-!
# Vectors of doubles

The items stand in brackets, one space apart, padded so that their points are aligned. At most eight
digits follow the point. One notation serves the whole vector: an exponent if an item is `1e8` or
more, if one is below `1e-4`, or if two are a factor of more than a thousand apart. Long vectors are
broken into lines.
-/

namespace RootSearch.Decimal

/-- Digits after the point that are written at most. -/
def alignedPlaces : Nat := 8

/-- The parts of an unsigned number before and after the point, and its exponent if one is
written. -/
structure Parts where
  whole : List Char
  places : List Char
  exponent : Option Int := none

/-- The shortest digits, or the exact value to eight places if those are more. -/
def positionalParts (m : Nat) (e : Int) : Parts :=
  let d := shortest m e
  let d := if d.exponent < -alignedPlaces then (toPlaces m e alignedPlaces).trim else d
  let (whole, places) := d.split
  ⟨whole, places, none⟩

/-- One digit before the point and at most eight after it. -/
def scientificParts (m : Nat) (e : Int) : Parts :=
  let d := shortest m e
  let d := if alignedPlaces + 1 < digitCount d.coefficient then
    (toPrecision m e (alignedPlaces + 1)).trim else d
  ⟨d.digitChars.take 1, d.digitChars.drop 1, some d.leading⟩

/-- Whether the magnitudes of the finite items call for an exponent. -/
def needsExponent (xs : List Float) : Bool :=
  let sizes := (xs.filter fun x => x.isFinite && x != 0.0).map Float.abs
  match sizes with
  | [] => false
  | x :: rest =>
    let largest := rest.foldl max x
    let smallest := rest.foldl min x
    1e8 ≤ largest || smallest < 1e-4 || 1000.0 < largest / smallest

def padLeft (width : Nat) (cs : List Char) : List Char := List.replicate (width - cs.length) ' ' ++ cs

def padRight (width : Nat) (cs : List Char) : List Char := cs ++ List.replicate (width - cs.length) ' '

/-- The longest of some texts. -/
def widest (texts : List (List Char)) : Nat := (texts.map List.length).foldl max 0

/-- One item of a vector before alignment: a word, or a number in parts. -/
inductive Item where
  | word (text : List Char)
  | number (parts : Parts)

namespace Item

def ofFloat (scientific : Bool) (x : Float) : Item :=
  match Binary.ofFloat x with
  | .nan => word ['n', 'a', 'n']
  | .infinite negative => word (if negative then ['-', 'i', 'n', 'f'] else ['i', 'n', 'f'])
  | .finite negative m e =>
    let p := if scientific then scientificParts m e else positionalParts m e
    number (if negative then { p with whole := '-' :: p.whole } else p)

def letters : Item → List Char
  | word w => w
  | number _ => []

def parts? : Item → Option Parts
  | word _ => none
  | number p => some p

end Item

/-- The mark, the sign and the digits of an exponent, filled up to `width` digits. -/
def alignedExponent (width : Nat) (e : Int) : List Char :=
  let ds := Nat.toDigits 10 e.natAbs
  'e' :: (if e < 0 then '-' else '+') :: (zeros (width - ds.length) ++ ds)

/-- The length of a line before its last bracket. -/
def lineWidth : Nat := 74

/-- Adds a word to lines that are in reverse order, on a new line if the last one has words and no
room. -/
def addWord (lines : List (List Char)) (word : List Char) : List (List Char) :=
  match lines with
  | [] => [' ' :: word]
  | line :: done =>
    if lineWidth < line.length + 1 + word.length then
      (' ' :: word) :: (line.reverse.dropWhile (· == ' ')).reverse :: done
    else (line ++ ' ' :: word) :: done

/-- Words in lines. Every line begins with a blank. -/
def fillLines (words : List (List Char)) : List (List Char) := (words.foldl addWord []).reverse

/-- The items in brackets. With an exponent the places are filled up with zeros, else with
blanks. -/
def aligned (xs : List Float) : String :=
  let scientific := needsExponent xs
  let items := xs.map (Item.ofFloat scientific)
  let numbers := items.filterMap Item.parts?
  let placesWidth := widest (numbers.map Parts.places)
  let exponents := numbers.filterMap Parts.exponent
  let exponentWidth := (exponents.map fun e => digitCount e.natAbs).foldl max 2
  let tailWidth := placesWidth + if scientific then exponentWidth + 2 else 0
  let wholeWidth := max (widest (numbers.map Parts.whole))
    (widest (items.map Item.letters) - (tailWidth + 1))
  let write : Item → List Char
    | .word w => padLeft (wholeWidth + 1 + tailWidth) w
    | .number p => padLeft wholeWidth p.whole ++ '.' :: match p.exponent with
      | some e => p.places ++ zeros (placesWidth - p.places.length) ++ alignedExponent exponentWidth e
      | none => padRight placesWidth p.places
  String.ofList ('[' :: (List.intercalate ['\n'] (fillLines (items.map write))).drop 1 ++ [']'])

end RootSearch.Decimal
