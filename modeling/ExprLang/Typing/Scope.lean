import ExprLang.TypeExpr
import ExprLang.Typing.Fault

namespace ExprLang

/-- A table of names and their types. A name has the type of its first entry. -/
abbrev TypeTable := List (String × Ty)

/-- The local names of one declaration over the table of globals, and the generics in scope. -/
structure Scope where
  globals : TypeTable
  locals : TypeTable
  generics : List String

namespace Scope

/-- A local name goes before a global one. -/
def lookup (scope : Scope) (name : String) : Option Ty :=
  match scope.locals.lookup name with
  | some t => some t
  | none => scope.globals.lookup name

/-- Adds a local name, which may hide neither a global nor another local. -/
def bind (scope : Scope) (name : Name) (t : Ty) : Except TypingError Scope :=
  if (scope.globals.lookup name.text).isSome then .error ⟨.shadowsGlobal name.text, name.pos⟩
  else if (scope.locals.lookup name.text).isSome then
    .error ⟨.duplicateBinding name.text, name.pos⟩
  else .ok { scope with locals := (name.text, t) :: scope.locals }

/-- Adds several local names from left to right, as far as there are types. -/
def bindAll (scope : Scope) : List Name → List Ty → Except TypingError Scope
  | name :: names, t :: ts => do
    let scope ← scope.bind name t
    scope.bindAll names ts
  | _, _ => .ok scope

end Scope

namespace TypeExpr

/-- Adds declared generics to those in scope. None may be declared twice. -/
def declareGenerics (allowed : List String) : List Name → Except TypingError (List String)
  | [] => .ok allowed
  | g :: gs =>
    if allowed.contains g.text then .error ⟨.redeclaredGeneric g.text, g.pos⟩
    else declareGenerics (allowed ++ [g.text]) gs

mutual

/-- The type that is written, with `allowed` as the generics in scope. A function type adds its own
generics for its parameters and its result; the parameters are resolved first. -/
def resolve (allowed : List String) : TypeExpr → Except TypingError Ty
  | int _ => .ok .int
  | bool _ => .ok .bool
  | list _ element => do
    let t ← element.resolve allowed
    return .list t
  | tuple _ items => do
    let ts ← resolveAll allowed items
    return .tuple ts
  | generic pos name =>
    if allowed.contains name then .ok (.generic name) else .error ⟨.unknownType name, pos⟩
  | fn _ generics params ret => do
    let inner ← declareGenerics allowed generics
    let ps ← resolveParams inner params
    let r ← ret.resolve inner
    return .fn r ps (params.map fun p => p.1.text) (generics.map Name.text)

def resolveAll (allowed : List String) : List TypeExpr → Except TypingError (List Ty)
  | [] => .ok []
  | t :: ts => do
    let t ← t.resolve allowed
    let ts ← resolveAll allowed ts
    return t :: ts

def resolveParams (allowed : List String) : List (Name × TypeExpr) → Except TypingError (List Ty)
  | [] => .ok []
  | (_, t) :: ps => do
    let t ← t.resolve allowed
    let ts ← resolveParams allowed ps
    return t :: ts

end

end TypeExpr

end ExprLang
