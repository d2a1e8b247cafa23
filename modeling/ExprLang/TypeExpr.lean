import ExprLang.Position
import ExprLang.Text.Series

namespace ExprLang

structure Name where
  text : String
  pos : Position

/-- A written type. A function type declares its own generics, names its parameters, and puts the
result first: `{G} result(name: type)`. -/
inductive TypeExpr where
  | int (pos : Position)
  | bool (pos : Position)
  | list (pos : Position) (element : TypeExpr)
  | tuple (pos : Position) (items : List TypeExpr)
  | generic (pos : Position) (name : String)
  | fn (pos : Position) (generics : List Name) (params : List (Name × TypeExpr)) (ret : TypeExpr)

namespace TypeExpr

def pos : TypeExpr → Position
  | int p | bool p | list p _ | tuple p _ | generic p _ | fn p _ _ _ => p

mutual

def text : TypeExpr → String
  | int _ => "Int"
  | bool _ => "Bool"
  | list _ element => "[" ++ element.text ++ "]"
  | tuple _ items => Text.tuple (texts items)
  | generic _ name => name
  | fn _ generics params ret =>
    (if generics.isEmpty then "" else Text.braced (generics.map Name.text) ++ " ") ++
      ret.text ++ "(" ++ Text.commaSeries (paramTexts params) ++ ")"

def texts : List TypeExpr → List String
  | [] => []
  | t :: ts => t.text :: texts ts

def paramTexts : List (Name × TypeExpr) → List String
  | [] => []
  | (name, t) :: params => (name.text ++ ": " ++ t.text) :: paramTexts params

end

end TypeExpr

end ExprLang
