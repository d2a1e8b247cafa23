import ExprLang.Operator
import ExprLang.TypeExpr

namespace ExprLang

inductive Expr where
  | int (pos : Position) (value : Int64)
  | bool (pos : Position) (value : Bool)
  /-- A string literal stands for the list of its code points. -/
  | str (pos : Position) (codes : List Int64)
  | ident (pos : Position) (name : String)
  | list (pos : Position) (items : List Expr)
  /-- The empty list with the type of its elements, `[] of T`. -/
  | emptyOf (pos : Position) (element : TypeExpr)
  | tuple (pos : Position) (items : List Expr)
  /-- A call, with the type arguments if braces were written. -/
  | call (pos : Position) (callee : Expr) (generics : Option (List TypeExpr)) (args : List Expr)
  | cond (pos : Position) (test yes no : Expr)
  /-- `if (head ~ tail) <- whole then yes else no` -/
  | unpack (pos : Position) (head tail : Name) (whole yes no : Expr)
  | letName (pos : Position) (name : Name) (value body : Expr)
  | letTuple (pos : Position) (names : List Name) (value body : Expr)
  | cons (pos : Position) (head tail : Expr)
  | binary (pos : Position) (op : BinaryOp) (left right : Expr)
  | unary (pos : Position) (op : UnaryOp) (operand : Expr)

/-- Where an expression is reported: an operation at its operator, a call at what it calls, all else
at its first token. -/
def Expr.pos : Expr → Position
  | int p _ | bool p _ | str p _ | ident p _ | list p _ | emptyOf p _ | tuple p _ | call p _ _ _
  | cond p _ _ _ | unpack p _ _ _ _ _ | letName p _ _ _ | letTuple p _ _ _ | cons p _ _
  | binary p _ _ _ | unary p _ _ => p

structure Decl where
  label : String
  pos : Position
  signature : TypeExpr
  body : Expr

end ExprLang
