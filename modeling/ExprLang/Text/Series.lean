namespace ExprLang.Text

def commaSeries : List String → String
  | [] => ""
  | [a] => a
  | a :: as => a ++ ", " ++ commaSeries as

/-- The items in round brackets. A single item keeps a comma, so that it does not read as an item
in brackets. -/
def tuple : List String → String
  | [a] => "(" ++ a ++ ",)"
  | as => "(" ++ commaSeries as ++ ")"

def bracketed (as : List String) : String := "[" ++ commaSeries as ++ "]"

def braced (as : List String) : String := "\x7b" ++ commaSeries as ++ "\x7d"

end ExprLang.Text
