import AnimaCore.Base

/-!
# AnimaCore.Texts — texts as lists of characters

What the parsers of the daemon use of `str`: `trim`, `eq_ignore_ascii_case` and `split_once`.
-/

namespace AnimaCore.Texts

/-- The characters of a text. -/
abbrev Text := List Char

def trim (text : Text) : Text := ((text.dropWhile isWhitespace).reverse.dropWhile isWhitespace).reverse

def eqIgnoreAsciiCase (a b : Text) : Bool := a.map Char.toLower == b.map Char.toLower

def splitOnce (c : Char) (text : Text) : Option (Text × Text) :=
  if c ∈ text then some (text.takeWhile (· ≠ c), (text.dropWhile (· ≠ c)).tail) else none

end AnimaCore.Texts
