import ExprLang.Position

namespace ExprLang

inductive Keyword where
  | kwIf | kwThen | kwElse | kwLet | kwIn | kwOf
deriving DecidableEq

namespace Keyword

def spelling : Keyword → String
  | kwIf => "if"
  | kwThen => "then"
  | kwElse => "else"
  | kwLet => "let"
  | kwIn => "in"
  | kwOf => "of"

def ofWord? : String → Option Keyword
  | "if" => some kwIf
  | "then" => some kwThen
  | "else" => some kwElse
  | "let" => some kwLet
  | "in" => some kwIn
  | "of" => some kwOf
  | _ => none

@[simp] theorem ofWord?_spelling (k : Keyword) : ofWord? k.spelling = some k := by
  cases k <;> rfl

end Keyword

/-- The two classes of symbols, which only their names tell apart. -/
inductive Token.SymbolClass where
  | operator | punctuation
deriving DecidableEq

/-- What a token is. A string literal carries its decoded code points. -/
inductive Token.Kind where
  | identifier
  | bool (value : Bool)
  | int (value : Int64)
  | str (codes : List Int64)
  | keyword (word : Keyword)
  | symbol (kind : Token.SymbolClass)
deriving DecidableEq

structure Token where
  kind : Token.Kind
  text : String
  pos : Position
deriving DecidableEq

namespace Token

def isSymbol (t : Token) (spelling : String) : Bool :=
  match t.kind with
  | .symbol _ => t.text == spelling
  | _ => false

def isKeyword (t : Token) (word : Keyword) : Bool :=
  match t.kind with
  | .keyword w => w == word
  | _ => false

/-- The words by which a syntax error names a token. -/
def describe (t : Token) : String :=
  match t.kind with
  | .identifier => "identifier '" ++ t.text ++ "'"
  | .bool _ => "boolean '" ++ t.text ++ "'"
  | .int _ => "integer '" ++ t.text ++ "'"
  | .str _ => "string " ++ t.text
  | .keyword _ => "keyword '" ++ t.text ++ "'"
  | .symbol _ => "'" ++ t.text ++ "'"

end Token

end ExprLang
