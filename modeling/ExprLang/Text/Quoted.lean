import ExprLang.Text.Literal
import ExprLang.Text.Scalar

namespace ExprLang.Text.Quoted

def unescape? : Char → Option Char
  | 't' => some '\t'
  | 'r' => some '\r'
  | 'n' => some '\n'
  | '\\' => some '\\'
  | '"' => some '"'
  | _ => none

/-- Splits the text after an opening quote into the written body and what follows the closing quote.
There is none if the line or the text ends first, or if a backslash starts no escape. -/
def body? : List Char → Option (List Char × List Char)
  | [] => none
  | '"' :: rest => some ([], rest)
  | '\\' :: c :: rest =>
    if (unescape? c).isSome then (body? rest).map fun (body, rest) => ('\\' :: c :: body, rest)
    else none
  | c :: rest =>
    if c = '\\' ∨ c = '\n' then none
    else (body? rest).map fun (body, rest) => (c :: body, rest)

def decode? : List Char → Option (List Char)
  | [] => some []
  | '\\' :: c :: rest => do
    let d ← unescape? c
    let ds ← decode? rest
    return d :: ds
  | c :: rest => if c = '\\' then none else (decode? rest).map (c :: ·)

/-- How one code point is written inside quotes. An integer that is no character is written as a
backslash and the number in braces, which no literal can spell. -/
def escape (n : Int64) : String :=
  match scalar? n with
  | some '"' => "\\\""
  | some '\\' => "\\\\"
  | some '\n' => "\\n"
  | some '\t' => "\\t"
  | some '\r' => "\\r"
  | some c => c.toString
  | none => "\\\x7b" ++ ofInt n ++ "\x7d"

def encode (codes : List Int64) : String :=
  "\"" ++ String.join (codes.map escape) ++ "\""

end ExprLang.Text.Quoted
