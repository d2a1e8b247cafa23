import ExprLang.Expr
import ExprLang.Ty.Substitution
import ExprLang.Typing.Scope

namespace ExprLang

/-- Operand and result type of a binary operator. Both operands have the same type. -/
def BinaryOp.signature : BinaryOp → Ty × Ty
  | add | sub | mul | div | mod | pow => (.int, .int)
  | eq | neq | lt | gt | le | ge => (.int, .bool)
  | and | or | xor | xnor => (.bool, .bool)

def UnaryOp.type : UnaryOp → Ty
  | neg => .int
  | not => .bool

/-- Demands that the type found at a place is the expected one. -/
def Ty.demand (expected found : Ty) (pos : Position) : Except TypingError Unit :=
  if expected.equiv found then .ok () else .error ⟨.typeMismatch expected found, pos⟩

/-- Result and parameter types of a callee under its type arguments. A callee that declares generics
needs exactly as many arguments, one that declares none takes no braces. -/
def Ty.instantiate (scope : Scope) (callee : Ty) (typeArgs : Option (List TypeExpr))
    (pos : Position) : Except TypingError (Ty × List Ty) :=
  match callee with
  | .fn ret params _ generics =>
    match generics.isEmpty, typeArgs with
    | true, none => .ok (ret, params)
    | true, some _ => .error ⟨.unexpectedGenericArguments callee, pos⟩
    | false, none => .error ⟨.missingGenericArguments callee, pos⟩
    | false, some args =>
      if args.length = generics.length then do
        let resolved ← TypeExpr.resolveAll scope.generics args
        let s := Substitution.ofList (generics.zip resolved)
        return (s.apply ret, params.map s.apply)
      else .error ⟨.genericArgumentCount generics.length args.length, pos⟩
  | found => .error ⟨.notCallable found, pos⟩

namespace Expr

mutual

def infer (scope : Scope) : Expr → Except TypingError Ty
  | int _ _ => .ok .int
  | bool _ _ => .ok .bool
  | str _ _ => .ok .string
  | ident pos name =>
    match scope.lookup name with
    | some t => .ok t
    | none => .error ⟨.unknownIdentifier name, pos⟩
  | list pos [] => .error ⟨.untypedEmptyList, pos⟩
  | list _ (first :: rest) => do
    let t ← first.infer scope
    checkAll scope t rest
    return .list t
  | emptyOf _ element => do
    let t ← element.resolve scope.generics
    return .list t
  | tuple _ items => do
    let ts ← inferAll scope items
    return .tuple ts
  | call pos callee generics args => do
    let t ← callee.infer scope
    let (ret, params) ← t.instantiate scope generics callee.pos
    if params.length = args.length then
      checkArgs scope params args
      return ret
    else throw ⟨.argumentCount params.length args.length, pos⟩
  | cond _ test yes no => do
    let t ← test.infer scope
    Ty.demand .bool t test.pos
    let yesTy ← yes.infer scope
    let noTy ← no.infer scope
    if yesTy.equiv noTy then return yesTy else throw ⟨.branchMismatch yesTy noTy, no.pos⟩
  | unpack _ head tail whole yes no => do
    let t ← whole.infer scope
    match t with
    | .list element => do
      let scope₁ ← scope.bind head element
      let scope₂ ← scope₁.bind tail t
      let yesTy ← yes.infer scope₂
      let noTy ← no.infer scope
      if yesTy.equiv noTy then return yesTy else throw ⟨.branchMismatch yesTy noTy, no.pos⟩
    | found => throw ⟨.expectedList found, whole.pos⟩
  | letName _ name value body => do
    let t ← value.infer scope
    let inner ← scope.bind name t
    body.infer inner
  | letTuple _ names value body => do
    let t ← value.infer scope
    match t with
    | .tuple ts =>
      if ts.length = names.length then do
        let inner ← scope.bindAll names ts
        body.infer inner
      else throw ⟨.patternMismatch names.length (.tuple ts), value.pos⟩
    | found => throw ⟨.patternMismatch names.length found, value.pos⟩
  | cons _ head tail => do
    let t ← tail.infer scope
    match t with
    | .list element => do
      let h ← head.infer scope
      Ty.demand element h head.pos
      return .list element
    | found => throw ⟨.expectedList found, tail.pos⟩
  | binary _ op left right => do
    let l ← left.infer scope
    Ty.demand op.signature.1 l left.pos
    let r ← right.infer scope
    Ty.demand op.signature.1 r right.pos
    return op.signature.2
  | unary _ op operand => do
    let t ← operand.infer scope
    Ty.demand op.type t operand.pos
    return op.type

def inferAll (scope : Scope) : List Expr → Except TypingError (List Ty)
  | [] => .ok []
  | e :: es => do
    let t ← e.infer scope
    let ts ← inferAll scope es
    return t :: ts

def checkAll (scope : Scope) (expected : Ty) : List Expr → Except TypingError Unit
  | [] => .ok ()
  | e :: es => do
    let t ← e.infer scope
    Ty.demand expected t e.pos
    checkAll scope expected es

def checkArgs (scope : Scope) : List Ty → List Expr → Except TypingError Unit
  | p :: ps, e :: es => do
    let t ← e.infer scope
    Ty.demand p t e.pos
    checkArgs scope ps es
  | _, _ => .ok ()

end

def check (scope : Scope) (expected : Ty) (e : Expr) : Except TypingError Unit := do
  let t ← e.infer scope
  Ty.demand expected t e.pos

end Expr

end ExprLang
