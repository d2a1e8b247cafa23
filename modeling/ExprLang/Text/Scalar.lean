namespace ExprLang.Text

def code (c : Char) : Int64 := Int64.ofNat c.toNat

/-- The character with a given code point, if the integer is a Unicode scalar value. -/
def scalar? (n : Int64) : Option Char :=
  if 0 ≤ n.toInt ∧ n.toInt.toNat.isValidChar then some (Char.ofNat n.toInt.toNat) else none

def codes (s : String) : List Int64 := s.toList.map code

end ExprLang.Text
