import ExprLang.Position
import ExprLang.Text.Literal

namespace ExprLang

/-- A cause that stands at a place of the program. A type fault is a value of another kind than the
checker promised. -/
inductive RuntimeFault where
  | cyclicGlobal (name : String)
  | divisionByZero
  | overflow (op : String)
  | negativeExponent (exponent : Int64)
  | invalidCharacter (code : Int64)
  | emptyRandomRange (bound : Int64)
  | inputClosed
  | typeFault (expected found : String)
deriving DecidableEq

def RuntimeFault.message : RuntimeFault → String
  | cyclicGlobal name => "global '" ++ name ++ "' depends on its own value"
  | divisionByZero => "division by zero"
  | overflow op => "integer overflow in '" ++ op ++ "'"
  | negativeExponent e => "negative exponent " ++ Text.ofInt e
  | invalidCharacter code => Text.ofInt code ++ " is not a valid character"
  | emptyRandomRange bound => "rand needs a positive bound, found " ++ Text.ofInt bound
  | inputClosed => "input is closed"
  | typeFault expected found => "expected " ++ expected ++ ", found " ++ found

/-- A fault at its place, or a failure of the host, which stands nowhere in the program. -/
inductive RuntimeError where
  | fault (e : Located RuntimeFault)
  | host (message : String)
deriving DecidableEq

namespace RuntimeError

def pos? : RuntimeError → Option Position
  | fault e => some e.pos
  | host _ => none

def message : RuntimeError → String
  | fault e => e.cause.message
  | host message => message

def kind : String := "Runtime Error"

end RuntimeError

end ExprLang
