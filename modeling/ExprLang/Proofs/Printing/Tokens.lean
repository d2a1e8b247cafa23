import ExprLang.Expr.Printer
import ExprLang.Token

namespace ExprLang

namespace Token

def mark (spelling : String) : Token := ⟨.symbol .punctuation, spelling, .start⟩

def operator (spelling : String) : Token := ⟨.symbol .operator, spelling, .start⟩

def name (text : String) : Token := ⟨.identifier, text, .start⟩

def keyword (word : Keyword) : Token := ⟨.keyword word, word.spelling, .start⟩

def commaSeries : List (List Token) → List Token
  | [] => []
  | [a] => a
  | a :: as => a ++ mark "," :: commaSeries as

/-- The items of a tuple, where a single one keeps a comma. -/
def tupleItems : List (List Token) → List Token
  | [a] => a ++ [mark ","]
  | as => commaSeries as

def tuple (as : List (List Token)) : List Token := mark "(" :: (tupleItems as ++ [mark ")"])

def bracketed (as : List (List Token)) : List Token := mark "[" :: (commaSeries as ++ [mark "]"])

def braced (as : List (List Token)) : List Token :=
  mark "\x7b" :: (commaSeries as ++ [mark "\x7d"])

def parenthesized (ts : List Token) : List Token := mark "(" :: (ts ++ [mark ")"])

def branches (yes no : List Token) : List Token :=
  .keyword .kwThen :: (yes ++ .keyword .kwElse :: no)

def bound (value body : List Token) : List Token :=
  .operator "<-" :: (value ++ .keyword .kwIn :: body)

end Token

open Token

def Name.tokens (name : Name) : List Token := [.name name.text]

namespace TypeExpr

def genericTokens (generics : List Name) : List Token :=
  if generics.isEmpty then [] else Token.braced (generics.map Name.tokens)

mutual

def tokens : TypeExpr → List Token
  | int _ => [.name "Int"]
  | bool _ => [.name "Bool"]
  | list _ element => Token.bracketed [element.tokens]
  | tuple _ items => Token.tuple (tokensAll items)
  | generic _ name => [.name name]
  | fn _ generics params ret =>
    genericTokens generics ++ ret.tokens ++ parenthesized (commaSeries (paramTokens params))

def tokensAll : List TypeExpr → List (List Token)
  | [] => []
  | t :: ts => t.tokens :: tokensAll ts

def paramTokens : List (Name × TypeExpr) → List (List Token)
  | [] => []
  | (name, t) :: params => (.name name.text :: mark ":" :: t.tokens) :: paramTokens params

end

def tokensOfParam (param : Name × TypeExpr) : List Token :=
  .name param.1.text :: mark ":" :: param.2.tokens

theorem tokensAll_eq_map (ts : List TypeExpr) : tokensAll ts = ts.map tokens := by
  induction ts with
  | nil => rfl
  | cons t ts ih => rw [tokensAll, ih, List.map_cons]

theorem paramTokens_eq_map (params : List (Name × TypeExpr)) :
    paramTokens params = params.map tokensOfParam := by
  induction params with
  | nil => rfl
  | cons param params ih => rw [paramTokens, ih, List.map_cons, tokensOfParam]

theorem texts_eq_map (ts : List TypeExpr) : texts ts = ts.map text := by
  induction ts with
  | nil => rfl
  | cons t ts ih => rw [texts, ih, List.map_cons]

theorem paramTexts_eq_map (params : List (Name × TypeExpr)) :
    paramTexts params = params.map fun param => param.1.text ++ ": " ++ param.2.text := by
  induction params with
  | nil => rfl
  | cons param params ih => rw [paramTexts, ih, List.map_cons]

end TypeExpr

namespace Expr

def typeArgTokens : Option (List TypeExpr) → List Token
  | none => []
  | some ts => Token.braced (ts.map TypeExpr.tokens)

mutual

def tokens : Expr → List Token
  | int _ n => [⟨.int n, Text.ofInt n, .start⟩]
  | bool _ b => [⟨.bool b, Text.ofBool b, .start⟩]
  | str _ codes => [⟨.str codes, Text.Quoted.encode codes, .start⟩]
  | ident _ name => [.name name]
  | list _ items => Token.bracketed (tokensAll items)
  | emptyOf _ element => mark "[" :: mark "]" :: .keyword .kwOf :: element.tokens
  | tuple _ items => Token.tuple (tokensAll items)
  | call _ callee generics args =>
    callee.tokens ++ typeArgTokens generics ++ parenthesized (commaSeries (tokensAll args))
  | cond _ test yes no =>
    parenthesized (.keyword .kwIf :: (test.tokens ++ Token.branches yes.tokens no.tokens))
  | unpack _ head tail whole yes no =>
    parenthesized (.keyword .kwIf :: (parenthesized (head.tokens ++ .operator "~" :: tail.tokens) ++
      .operator "<-" :: (whole.tokens ++ Token.branches yes.tokens no.tokens)))
  | letName _ name value body =>
    parenthesized (.keyword .kwLet :: (name.tokens ++ Token.bound value.tokens body.tokens))
  | letTuple _ names value body =>
    parenthesized (.keyword .kwLet ::
      (Token.tuple (names.map Name.tokens) ++ Token.bound value.tokens body.tokens))
  | cons _ head tail => parenthesized (head.tokens ++ .operator "~" :: tail.tokens)
  | binary _ op left right =>
    parenthesized (left.tokens ++ .operator op.symbol :: right.tokens)
  | unary _ op operand => parenthesized (.operator op.symbol :: operand.tokens)

def tokensAll : List Expr → List (List Token)
  | [] => []
  | e :: es => e.tokens :: tokensAll es

end

theorem tokensAll_eq_map (es : List Expr) : tokensAll es = es.map tokens := by
  induction es with
  | nil => rfl
  | cons e es ih => rw [tokensAll, ih, List.map_cons]

theorem texts_eq_map (es : List Expr) : texts es = es.map text := by
  induction es with
  | nil => rfl
  | cons e es ih => rw [texts, ih, List.map_cons]

end Expr

end ExprLang
