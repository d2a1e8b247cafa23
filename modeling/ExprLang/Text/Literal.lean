namespace ExprLang.Text

def ofBool (b : Bool) : String := if b then "true" else "false"

/-- Decimal digits, after a minus sign if the integer is negative. -/
def ofInt (n : Int64) : String := toString n.toInt

end ExprLang.Text
