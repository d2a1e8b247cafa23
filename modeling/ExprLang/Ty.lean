import ExprLang.Text.Series

namespace ExprLang

/-- A resolved type. A function type keeps the names of its parameters and the generics it declares;
there may be fewer or more names than parameters. -/
inductive Ty where
  | bool
  | int
  | list (element : Ty)
  | tuple (items : List Ty)
  | fn (ret : Ty) (params : List Ty) (names generics : List String)
  | generic (name : String)

namespace Ty

def unit : Ty := tuple []

/-- The type of texts, which are lists of code points. -/
def string : Ty := list int

mutual

/-- Same structure. -/
def equiv : Ty → Ty → Bool
  | bool, bool => true
  | int, int => true
  | list s, list t => equiv s t
  | tuple ss, tuple ts => equivAll ss ts
  | fn r ps _ _, fn s qs _ _ => equiv r s && equivAll ps qs
  | generic a, generic b => a == b
  | _, _ => false

def equivAll : List Ty → List Ty → Bool
  | [], [] => true
  | s :: ss, t :: ts => equiv s t && equivAll ss ts
  | _, _ => false

end

mutual

/-- The generic names that occur in a type, declared ones included. -/
def names : Ty → List String
  | bool | int => []
  | list t => t.names
  | tuple ts => namesAll ts
  | fn ret params _ generics => generics ++ ret.names ++ namesAll params
  | generic a => [a]

def namesAll : List Ty → List String
  | [] => []
  | t :: ts => t.names ++ namesAll ts

end

/-- Whether a generic name occurs anywhere in a type, declared or not. -/
def mentions (t : Ty) (name : String) : Bool := t.names.contains name

mutual

def depth : Ty → Nat
  | bool | int | generic _ => 1
  | list t => t.depth + 1
  | tuple ts => depthAll ts + 1
  | fn ret params _ _ => max ret.depth (depthAll params) + 1

def depthAll : List Ty → Nat
  | [] => 0
  | t :: ts => max t.depth (depthAll ts)

end

/-- Parameters with their names in front, as far as there are names. -/
def paramTexts : List String → List String → List String
  | _, [] => []
  | [], ts => ts
  | name :: names, t :: ts => (name ++ ": " ++ t) :: paramTexts names ts

mutual

def text : Ty → String
  | bool => "Bool"
  | int => "Int"
  | list t => "[" ++ t.text ++ "]"
  | tuple ts => Text.tuple (texts ts)
  | fn ret params names generics =>
    (if generics.isEmpty then "" else Text.braced generics ++ " ") ++
      ret.text ++ "(" ++ Text.commaSeries (paramTexts names (texts params)) ++ ")"
  | generic a => a

def texts : List Ty → List String
  | [] => []
  | t :: ts => t.text :: texts ts

end

end Ty

end ExprLang
