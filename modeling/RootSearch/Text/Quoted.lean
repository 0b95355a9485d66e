import RootSearch.Text.Unseen
/-!
# Quoted text

Single quotes unless the text has one and no double quote. Backslashes, the quote itself and what
cannot be seen are escaped.
-/

namespace RootSearch.Text

/-- The code point in hexadecimal, to two, four or eight digits. -/
def hexEscape (c : Char) : List Char :=
  let n := c.toNat
  let ds := Nat.toDigits 16 n
  let padded (width : Nat) := List.replicate (width - ds.length) '0' ++ ds
  if n < 0x100 then '\\' :: 'x' :: padded 2
  else if n < 0x10000 then '\\' :: 'u' :: padded 4
  else '\\' :: 'U' :: padded 8

def escape (quote c : Char) : List Char :=
  if c == quote || c == '\\' then ['\\', c]
  else if c == '\n' then ['\\', 'n']
  else if c == '\r' then ['\\', 'r']
  else if c == '\t' then ['\\', 't']
  else if isUnseen c then hexEscape c
  else [c]

def quoteFor (cs : List Char) : Char :=
  if cs.contains '\'' && !cs.contains '"' then '"' else '\''

def quoted (s : String) : String :=
  let quote := quoteFor s.toList
  String.ofList (quote :: s.toList.flatMap (escape quote) ++ [quote])

end RootSearch.Text
