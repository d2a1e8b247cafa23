import ExprLang.Typing.Infer

namespace ExprLang

/-- The globals that the host provides. -/
inductive Builtin where
  | print | input | rand
deriving DecidableEq

namespace Builtin

def name : Builtin → String
  | print => "print"
  | input => "input"
  | rand => "rand"

def ofName? : String → Option Builtin
  | "print" => some print
  | "input" => some input
  | "rand" => some rand
  | _ => none

@[simp] theorem ofName?_name (b : Builtin) : ofName? b.name = some b := by cases b <;> rfl

def type : Builtin → Ty
  | print => .fn .unit [.string] ["text"] []
  | input => .fn .string [] [] []
  | rand => .fn .int [.int] ["bound"] []

def table : TypeTable := [print, input, rand].map fun b => (b.name, b.type)

end Builtin

structure CheckedDecl where
  label : String
  pos : Position
  type : Ty
  body : Expr

/-- The parameter names of a function, none for a value. -/
def CheckedDecl.params? (d : CheckedDecl) : Option (List String) :=
  match d.type with
  | .fn _ _ names _ => some names
  | _ => none

structure Program where
  globals : TypeTable
  decls : List CheckedDecl

namespace Program

def mainLabel : String := "main"

/-- `Int(args: [[Int]])` -/
def mainType : Ty := .fn .int [.list .string] ["args"] []

/-- Resolves the signatures in order and adds them to a table. No label may be there already. -/
def declare (table : TypeTable) : List Decl → Except TypingError (TypeTable × List Ty)
  | [] => .ok (table, [])
  | d :: ds => do
    let t ← d.signature.resolve []
    if (table.lookup d.label).isSome then throw ⟨.multipleDefinitions d.label, d.pos⟩
    else
      let (table, ts) ← declare (table ++ [(d.label, t)]) ds
      return (table, t :: ts)

def findMain? : List (Decl × Ty) → Option (Decl × Ty) :=
  List.find? fun p => p.1.label == mainLabel

/-- A type that declares generics of its own. -/
def isGeneric : Ty → Bool
  | .fn _ _ _ generics => !generics.isEmpty
  | _ => false

/-- There has to be a function to start with, of the one type it may have. If there is none, that is
reported at the body of the last declaration. -/
def checkMain (ds : List Decl) (ts : List Ty) : Except TypingError Unit :=
  match findMain? (ds.zip ts) with
  | none => .error ⟨.noMain, (ds.getLast?.map fun d => d.body.pos).getD .start⟩
  | some (d, t) =>
    if isGeneric t || !t.equiv mainType then .error ⟨.invalidMain mainType t, d.pos⟩ else .ok ()

/-- Checks a body against its declared type. A declared function binds its parameters. -/
def checkBody (globals : TypeTable) (d : Decl) (t : Ty) : Except TypingError Unit :=
  match d.signature, t with
  | .fn _ _ params _, .fn ret paramTys _ generics => do
    let scope ← Scope.bindAll ⟨globals, [], generics⟩ (params.map Prod.fst) paramTys
    d.body.check scope ret
  | _, _ => d.body.check ⟨globals, [], []⟩ t

def checkBodies (globals : TypeTable) : List Decl → List Ty → Except TypingError (List CheckedDecl)
  | d :: ds, t :: ts => do
    checkBody globals d t
    let rest ← checkBodies globals ds ts
    return ⟨d.label, d.pos, t, d.body⟩ :: rest
  | _, _ => .ok []

/-- Checks declarations: first all signatures, then the start, then all bodies. -/
def check (ds : List Decl) : Except TypingError Program := do
  let (globals, ts) ← declare Builtin.table ds
  checkMain ds ts
  let decls ← checkBodies globals ds ts
  return ⟨globals, decls⟩

/-- The declaration of a label, the last one where there are several. -/
def find? (p : Program) (label : String) : Option CheckedDecl :=
  p.decls.reverse.find? fun d => d.label == label

theorem mem_of_find? {p : Program} {label : String} {d : CheckedDecl}
    (h : p.find? label = some d) : d ∈ p.decls :=
  List.mem_reverse.1 (List.mem_of_find?_eq_some h)

theorem label_of_find? {p : Program} {label : String} {d : CheckedDecl}
    (h : p.find? label = some d) : d.label = label := by
  have hfound := List.find?_some h
  exact beq_iff_eq.1 hfound

end Program

end ExprLang
