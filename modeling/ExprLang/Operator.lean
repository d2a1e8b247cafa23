namespace ExprLang

inductive BinaryOp where
  | add | sub | mul | div | mod | pow
  | eq | neq | lt | gt | le | ge
  | and | or | xor | xnor
deriving DecidableEq

namespace BinaryOp

def symbol : BinaryOp → String
  | add => "+"
  | sub => "-"
  | mul => "*"
  | div => "/"
  | mod => "%"
  | pow => "**"
  | eq => "=="
  | neq => "!="
  | lt => "<"
  | gt => ">"
  | le => "<="
  | ge => ">="
  | and => "&"
  | or => "|"
  | xor => "^"
  | xnor => "!^"

def ofSymbol? : String → Option BinaryOp
  | "+" => some add
  | "-" => some sub
  | "*" => some mul
  | "/" => some div
  | "%" => some mod
  | "**" => some pow
  | "==" => some eq
  | "!=" => some neq
  | "<" => some lt
  | ">" => some gt
  | "<=" => some le
  | ">=" => some ge
  | "&" => some and
  | "|" => some or
  | "^" => some xor
  | "!^" => some xnor
  | _ => none

/-- Binding power. A tighter operator has a larger one. -/
def power : BinaryOp → Nat
  | and | or | xor | xnor => 1
  | eq | neq | lt | gt | le | ge => 2
  | add | sub | mod => 4
  | mul | div => 5
  | pow => 6

/-- Exponentiation groups to the right, all others to the left. -/
def rightAssociative : BinaryOp → Bool
  | pow => true
  | _ => false

@[simp] theorem ofSymbol?_symbol (op : BinaryOp) : ofSymbol? op.symbol = some op := by
  cases op <;> rfl

end BinaryOp

inductive UnaryOp where
  | neg | not
deriving DecidableEq

def UnaryOp.symbol : UnaryOp → String
  | neg => "-"
  | not => "!"

end ExprLang
