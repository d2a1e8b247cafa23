namespace ExprLang.Text

/-- The code points from `first` to `last`, both included. -/
structure Span where
  first : Nat
  last : Nat

def Span.covers (s : Span) (n : Nat) : Bool := s.first ≤ n && n ≤ s.last

def within (spans : List Span) (c : Char) : Bool := spans.any (·.covers c.toNat)

end ExprLang.Text
