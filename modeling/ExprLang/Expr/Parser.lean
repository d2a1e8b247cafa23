import ExprLang.Expr.Printer
import ExprLang.TypeExpr.Parser

namespace ExprLang

inductive Suffix where
  | generics
  | call
  | cons
  | binary (op : BinaryOp)

namespace Suffix

def ofToken? (t : Token) : Option Suffix :=
  match t.kind with
  | .symbol _ =>
    match t.text with
    | "\x7b" => some generics
    | "(" => some call
    | "~" => some cons
    | symbol => (BinaryOp.ofSymbol? symbol).map binary
  | _ => none

def power : Suffix → Nat
  | generics | call => 8
  | cons => 3
  | binary op => op.power

/-- The list operator and exponentiation group to the right. -/
def rightAssociative : Suffix → Bool
  | cons => true
  | binary op => op.rightAssociative
  | generics | call => false

/-- The power that suffixes within the right operand have to exceed. -/
def operandPower (s : Suffix) : Nat := if s.rightAssociative then s.power - 1 else s.power

end Suffix

namespace Expr

open Parse

/-- The power that every suffix exceeds. -/
def lowest : Nat := 0

/-- The power of a unary operator: of the suffixes only calls bind tighter. -/
def unaryPower : Nat := 7

/-- An expression in the place of a pattern has to be an identifier. -/
def bindingName : Expr → Parse Name
  | ident pos name => pure ⟨name, pos⟩
  | e => fail (.invalidPattern e.text) e.pos

def bindingNames : List Expr → Parse (List Name)
  | [] => pure []
  | e :: es => do
    let name ← bindingName e
    let names ← bindingNames es
    pure (name :: names)

/-- Brackets around one expression without a trailing comma only group. -/
def ofSeries (pos : Position) : List Expr × Bool → Expr
  | ([e], false) => e
  | (es, _) => tuple pos es

def branches (expr : Parse Expr) : Parse (Expr × Expr) := do
  expectKeyword .kwThen
  let yes ← expr
  expectKeyword .kwElse
  let no ← expr
  pure (yes, no)

/-- A conditional after its first keyword. An arrow after the test makes the test a pattern. -/
def conditional (expr : Parse Expr) (pos : Position) : Parse Expr := do
  let test ← expr
  if ← accept "<-" then
    match test with
    | cons _ h t => do
      let head ← bindingName h
      let tail ← bindingName t
      let whole ← expr
      let (yes, no) ← branches expr
      pure (unpack pos head tail whole yes no)
    | _ => fail (.invalidUnpack test.text) test.pos
  else
    let (yes, no) ← branches expr
    pure (cond pos test yes no)

def bound (expr : Parse Expr) : Parse (Expr × Expr) := do
  expect "<-"
  let value ← expr
  expectKeyword .kwIn
  let body ← expr
  pure (value, body)

def binding (expr : Parse Expr) (pos : Position) : Parse Expr := do
  let pattern ← expr
  match pattern with
  | ident p name => do
    let (value, body) ← bound expr
    pure (letName pos ⟨name, p⟩ value body)
  | tuple _ es => do
    let names ← bindingNames es
    let (value, body) ← bound expr
    pure (letTuple pos names value body)
  | e => fail (.invalidPattern e.text) e.pos

/-- A list after its opening bracket. Only an empty one may name the type of its elements. -/
def listLiteral (expr : Parse Expr) (type : Parse TypeExpr) (fuel : Nat) (pos : Position) :
    Parse Expr := do
  let (items, _) ← series "]" expr false fuel
  match ← acceptKeyword .kwOf with
  | none => pure (list pos items)
  | some ofPos =>
    match items with
    | [] => do
      let element ← type
      pure (emptyOf pos element)
    | _ :: _ => fail .annotatedNonEmptyList ofPos

/-- The arguments of a call after the opening bracket. A call stands where its callee stands. -/
def callArgs (expr : Parse Expr) (fuel : Nat) (callee : Expr)
    (generics : Option (List TypeExpr)) : Parse Expr := do
  let (args, _) ← series ")" expr false fuel
  pure (call callee.pos callee generics args)

/-- Type arguments after the opening brace, and the call that has to follow them. -/
def genericCall (expr : Parse Expr) (type : Parse TypeExpr) (fuel : Nat) (callee : Expr) :
    Parse Expr := do
  let (types, _) ← series "\x7d" type false fuel
  if ← accept "(" then callArgs expr fuel callee (some types)
  else fail .danglingGenerics (← here)

/-- The expression that a suffix makes of the one before it, after the token of the suffix. The
parser of operands takes the power that their suffixes have to exceed. -/
def extend (expr : Nat → Parse Expr) (type : Parse TypeExpr) (fuel : Nat) (node : Expr)
    (pos : Position) (s : Suffix) : Parse Expr :=
  match s with
  | .generics => genericCall (expr lowest) type fuel node
  | .call => callArgs (expr lowest) fuel node none
  | .cons => do
    let tail ← expr s.operandPower
    pure (cons pos node tail)
  | .binary op => do
    let right ← expr s.operandPower
    pure (binary pos op node right)

mutual

/-- An expression up to the first suffix whose power does not exceed `floor`. -/
def parse : Nat → Nat → Parse Expr
  | 0, _ => outOfFuel
  | n + 1, floor => do
    let node ← operand n
    suffixes n floor node

/-- An expression without suffixes. -/
def operand : Nat → Parse Expr
  | 0 => outOfFuel
  | n + 1 => do
    let t ← next "an expression"
    match t.kind with
    | .int value => pure (int t.pos value)
    | .bool value => pure (bool t.pos value)
    | .str codes => pure (str t.pos codes)
    | .identifier => pure (ident t.pos t.text)
    | .keyword .kwIf => conditional (parse n lowest) t.pos
    | .keyword .kwLet => binding (parse n lowest) t.pos
    | .keyword _ => unexpected "an expression" t
    | .symbol _ =>
      match t.text with
      | "-" => do
        let e ← parse n unaryPower
        pure (unary t.pos .neg e)
      | "!" => do
        let e ← parse n unaryPower
        pure (unary t.pos .not e)
      | "(" => do
        let items ← series ")" (parse n lowest) false n
        pure (ofSeries t.pos items)
      | "[" => listLiteral (parse n lowest) (TypeExpr.parse n) n t.pos
      | _ => unexpected "an expression" t

/-- Extends an expression by the suffixes that follow it and whose power exceeds `floor`. -/
def suffixes : Nat → Nat → Expr → Parse Expr
  | 0, _, _ => outOfFuel
  | n + 1, floor, node => do
    match ← peek with
    | none => pure node
    | some t =>
      match Suffix.ofToken? t with
      | none => pure node
      | some s =>
        if s.power ≤ floor then pure node
        else do
          let _ ← next "a suffix"
          let longer ← extend (parse n) (TypeExpr.parse n) n node t.pos s
          suffixes n floor longer

end

end Expr

end ExprLang
