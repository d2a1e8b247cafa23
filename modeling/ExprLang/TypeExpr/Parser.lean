import ExprLang.Parse
import ExprLang.TypeExpr

namespace ExprLang

def Name.ofToken (t : Token) : Name := ⟨t.text, t.pos⟩

namespace TypeExpr

open Parse

/-- The names between braces, whose opening brace is already taken. -/
def genericNames (fuel : Nat) : Parse (List Name) := do
  let (names, _) ← series "\x7d" (identifier "a generic name") false fuel
  pure (names.map Name.ofToken)

def optionalGenerics (fuel : Nat) : Parse (List Name) := do
  if ← accept "\x7b" then genericNames fuel else pure []

def param (type : Parse TypeExpr) : Parse (Name × TypeExpr) := do
  let name ← identifier "a parameter name"
  expect ":"
  let t ← type
  pure (Name.ofToken name, t)

def params (type : Parse TypeExpr) (fuel : Nat) : Parse (List (Name × TypeExpr)) := do
  let (ps, _) ← series ")" (param type) false fuel
  pure ps

/-- The type that a word spells: every word but the two basic types refers to a generic. -/
def ofWord (t : Token) : TypeExpr :=
  match t.text with
  | "Int" => int t.pos
  | "Bool" => bool t.pos
  | name => generic t.pos name

/-- Brackets around one type without a trailing comma only group. -/
def ofSeries (pos : Position) : List TypeExpr × Bool → TypeExpr
  | ([t], false) => t
  | (ts, _) => tuple pos ts

mutual

/-- A type: an atom, made a function type by generics before it and parameters after it. Generics
need parameters. -/
def parse : Nat → Parse TypeExpr
  | 0 => outOfFuel
  | n + 1 => do
    let generics ← optionalGenerics n
    let ret ← atom n
    if ← accept "(" then
      let ps ← params (parse n) n
      pure (fn ((generics.head?.map Name.pos).getD ret.pos) generics ps ret)
    else
      match generics with
      | [] => pure ret
      | g :: _ => fail .genericsWithoutParams g.pos

/-- A type that needs no generics or parameters: a word, a list type, or types in brackets. -/
def atom : Nat → Parse TypeExpr
  | 0 => outOfFuel
  | n + 1 => do
    let t ← next "a type"
    match t.kind with
    | .identifier => pure (ofWord t)
    | .symbol _ =>
      match t.text with
      | "[" => do
        let element ← parse n
        expect "]"
        pure (list t.pos element)
      | "(" => do
        let items ← series ")" (parse n) false n
        pure (ofSeries t.pos items)
      | _ => unexpected "a type" t
    | _ => unexpected "a type" t

end

end TypeExpr

end ExprLang
