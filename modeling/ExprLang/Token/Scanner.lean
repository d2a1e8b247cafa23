import ExprLang.Report
import ExprLang.Token
import ExprLang.Token.Lexeme

namespace ExprLang

/-- Why a source has no tokens: a lexeme is none, or the lexemes do not reach the end. -/
inductive LexicalFault where
  | unrecognizedCharacter (character : Char)
  | malformedString
  | integerOutOfRange (literal : String)
  | ungrammatical (report : String)

def LexicalFault.message : LexicalFault → String
  | unrecognizedCharacter c => "unrecognized character '" ++ c.toString ++ "'"
  | malformedString => "invalid string literal"
  | integerOutOfRange literal => "integer literal '" ++ literal ++ "' is out of range"
  | ungrammatical report => "ran into error while scanning: " ++ report

abbrev LexicalError := Located LexicalFault

namespace Lexeme

/-- The line where no rule applies, a mark under the place, and what would have applied. -/
def mismatch (source : String) (pos : Position) : String :=
  let number := toString pos.line
  let margin := String.ofList (number.toList.map fun _ => ' ')
  let shown := Report.line source pos.line
  margin ++ "--> " ++ number ++ ":" ++ toString pos.column ++ "\n" ++ margin ++ " |\n" ++
    number ++ " | " ++ String.ofList shown ++ "\n" ++
    margin ++ " | " ++ String.ofList (Report.indent shown (pos.column - 1)) ++ "^---\n" ++
    margin ++ " |\n" ++ margin ++ " = expected EOI, word, integer, string, bad_string, " ++
    "operator, punctuation, or unknown"

/-- The lexemes of a source, which have to reach its end. -/
def ofSource (source : String) : Except LexicalError (List (Position × Lexeme)) :=
  match takeAll .start source.toList with
  | (lexemes, _, []) => .ok lexemes
  | (_, pos, _ :: _) => .error ⟨.ungrammatical (mismatch source pos), pos⟩

def number (digits : List Char) : Nat :=
  digits.foldl (fun n d => 10 * n + (d.toNat - '0'.toNat)) 0

/-- The kind of token that a word is: a truth value, a keyword, or else an identifier. -/
def wordKind : String → Token.Kind
  | "true" => .bool true
  | "false" => .bool false
  | word =>
    match Keyword.ofWord? word with
    | some k => .keyword k
    | none => .identifier

/-- The written body of a string lexeme, which stands between its first and last character. -/
def quotedBody (lexeme : Lexeme) : List Char := lexeme.text.tail.dropLast

/-- The kind of token that a lexeme makes. An integer has to fit in 64 bits with a sign. -/
def tokenKind (lexeme : Lexeme) : Except LexicalFault Token.Kind :=
  match lexeme.kind with
  | .integer =>
    let n := number lexeme.text
    if n < Nat.pow 2 63 then .ok (.int (Int64.ofNat n))
    else .error (.integerOutOfRange (String.ofList lexeme.text))
  | .string =>
    match Text.Quoted.decode? lexeme.quotedBody with
    | some cs => .ok (.str (cs.map Text.code))
    | none => .error .malformedString
  | .word => .ok (wordKind (String.ofList lexeme.text))
  | .operator => .ok (.symbol .operator)
  | .punctuation => .ok (.symbol .punctuation)
  | .brokenString => .error .malformedString
  | .unknown => .error (.unrecognizedCharacter (lexeme.text.headD default))

end Lexeme

namespace Token

def ofLexeme (pos : Position) (lexeme : Lexeme) : Except LexicalError Token :=
  match lexeme.tokenKind with
  | .ok kind => .ok ⟨kind, String.ofList lexeme.text, pos⟩
  | .error fault => .error ⟨fault, pos⟩

def ofLexemes : List (Position × Lexeme) → Except LexicalError (List Token)
  | [] => .ok []
  | (pos, lexeme) :: lexemes => do
    let t ← ofLexeme pos lexeme
    let ts ← ofLexemes lexemes
    pure (t :: ts)

/-- The tokens of a source text. All of it is split into lexemes before the first one is read. -/
def ofSource (source : String) : Except LexicalError (List Token) := do
  let lexemes ← Lexeme.ofSource source
  ofLexemes lexemes

end Token

end ExprLang
