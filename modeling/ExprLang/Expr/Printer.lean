import ExprLang.Expr
import ExprLang.Text.Quoted

namespace ExprLang.Expr

/-- The type arguments of a call, nothing if no braces were written. -/
def typeArgsText : Option (List TypeExpr) → String
  | none => ""
  | some ts => Text.braced (ts.map TypeExpr.text)

mutual

def text : Expr → String
  | int _ n => Text.ofInt n
  | bool _ b => Text.ofBool b
  | str _ codes => Text.Quoted.encode codes
  | ident _ name => name
  | list _ items => Text.bracketed (texts items)
  | emptyOf _ element => "[] of " ++ element.text
  | tuple _ items => Text.tuple (texts items)
  | call _ callee generics args =>
    callee.text ++ typeArgsText generics ++ "(" ++ Text.commaSeries (texts args) ++ ")"
  | cond _ test yes no =>
    "(if " ++ test.text ++ " then " ++ yes.text ++ " else " ++ no.text ++ ")"
  | unpack _ head tail whole yes no =>
    "(if (" ++ head.text ++ " ~ " ++ tail.text ++ ") <- " ++ whole.text ++ " then " ++ yes.text ++
      " else " ++ no.text ++ ")"
  | letName _ name value body =>
    "(let " ++ name.text ++ " <- " ++ value.text ++ " in " ++ body.text ++ ")"
  | letTuple _ names value body =>
    "(let " ++ Text.tuple (names.map Name.text) ++ " <- " ++ value.text ++ " in " ++ body.text ++
      ")"
  | cons _ head tail => "(" ++ head.text ++ " ~ " ++ tail.text ++ ")"
  | binary _ op left right => "(" ++ left.text ++ " " ++ op.symbol ++ " " ++ right.text ++ ")"
  | unary _ op operand => "(" ++ op.symbol ++ operand.text ++ ")"

def texts : List Expr → List String
  | [] => []
  | e :: es => e.text :: texts es

end

end ExprLang.Expr
