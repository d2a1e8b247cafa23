import ExprLang.Program
import ExprLang.Text.Literal
import ExprLang.Text.Scalar
import ExprLang.Text.Series

namespace ExprLang

/-- What a call can invoke. A declared function is known by its label; type arguments leave no
trace. -/
inductive Callable where
  | builtin (b : Builtin)
  | global (label : String)
deriving DecidableEq

def Callable.ofName (name : String) : Callable :=
  match Builtin.ofName? name with
  | some b => builtin b
  | none => global name

inductive Value where
  | bool (b : Bool)
  | int (n : Int64)
  | list (items : List Value)
  | tuple (items : List Value)
  | fn (f : Callable)

namespace Value

def unit : Value := tuple []

def ofCodes (codes : List Int64) : Value := list (codes.map int)

/-- A text as the list of its code points. -/
def ofText (s : String) : Value := ofCodes (Text.codes s)

mutual

/-- Same structure and same contents. -/
def same : Value → Value → Bool
  | bool a, bool b => a == b
  | int a, int b => a == b
  | list as, list bs => sameAll as bs
  | tuple as, tuple bs => sameAll as bs
  | fn f, fn g => f == g
  | _, _ => false

def sameAll : List Value → List Value → Bool
  | [], [] => true
  | a :: as, b :: bs => same a b && sameAll as bs
  | _, _ => false

end

mutual

def text : Value → String
  | bool b => Text.ofBool b
  | int n => Text.ofInt n
  | list items => Text.bracketed (texts items)
  | tuple items => Text.tuple (texts items)
  | fn (.builtin b) => "<builtin " ++ b.name ++ ">"
  | fn (.global label) => "<function " ++ label ++ ">"

def texts : List Value → List String
  | [] => []
  | v :: vs => v.text :: texts vs

end

end Value

end ExprLang
