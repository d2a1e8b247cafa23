import ExprLang.Text.DefaultIgnorable
import ExprLang.Text.ExtendingMark
import ExprLang.Text.Printable
import ExprLang.Value

namespace ExprLang.Value

/-- A character of a label that would not be seen, or not apart from its neighbours. -/
def hidden (c : Char) : Bool :=
  Text.isExtendingMark c || Text.isDefaultIgnorable c || !Text.isPrintable c

/-- How a character of a label is written between quotes: quotes, backslashes and the common
controls by an escape letter, other hidden characters by their code point, and the rest as they are.
-/
def escapeLabelChar (c : Char) : String :=
  match c with
  | '"' => "\\\""
  | '\\' => "\\\\"
  | '\n' => "\\n"
  | '\r' => "\\r"
  | '\t' => "\\t"
  | _ =>
    if c.toNat = 0 then "\\0"
    else if hidden c then "\\u\x7b" ++ String.ofList (Nat.toDigits 16 c.toNat) ++ "\x7d"
    else c.toString

def quotedLabel (label : String) : String :=
  "\"" ++ String.join (label.toList.map escapeLabelChar) ++ "\""

def builtinOutline : Builtin → String
  | .print => "Print"
  | .input => "Input"
  | .rand => "Rand"

mutual

/-- The constructors of a value, outermost first. -/
def outline : Value → String
  | bool b => "Bool(" ++ Text.ofBool b ++ ")"
  | int n => "Int(" ++ Text.ofInt n ++ ")"
  | list items => "List(" ++ Text.bracketed (outlines items) ++ ")"
  | tuple items => "Tuple(" ++ Text.bracketed (outlines items) ++ ")"
  | fn (.builtin b) => "Function(Builtin(" ++ builtinOutline b ++ "))"
  | fn (.global label) => "Function(Global(" ++ quotedLabel label ++ "))"

def outlines : List Value → List String
  | [] => []
  | v :: vs => v.outline :: outlines vs

end

end ExprLang.Value
