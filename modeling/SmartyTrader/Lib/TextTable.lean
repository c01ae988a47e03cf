import SmartyTrader.Lib.IntText

set_option autoImplicit false

/-! # White space and case

Stripping a text and changing its case, over a table of what white space is and what the cases
of letters are, so that nothing depends on a version of the character set. A letter can have
several for its capital; the small letter of a capital may depend on where it stands.
-/

namespace Lib

/-- The white space and the cases of a character set. -/
structure TextTable where
  space : Char → Bool
  capital : Char → List Char
  small : List Char → List Char

namespace TextTable

/-- The characters of seven bits. -/
def ascii : TextTable where
  space := CharTable.ascii.space
  capital c := [c.toUpper]
  small s := s.map Char.toLower

variable (u : TextTable)

/-- `s.strip()`. -/
def strip (s : String) : String := String.ofList (CharTable.trim u.space s.toList)

/-- `s.upper()`. -/
def upper (s : String) : String := String.ofList (s.toList.flatMap u.capital)

/-- `s.lower()`. -/
def lower (s : String) : String := String.ofList (u.small s.toList)

end TextTable

end Lib
