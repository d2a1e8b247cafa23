import ExprLang.Dialogue
import ExprLang.Evaluation.Arithmetic

namespace ExprLang

inductive Outcome (α : Type) where
  | value (a : α)
  | error (e : RuntimeError)
  | outOfFuel

/-- What is known of a value global: that it is being computed, or its value. -/
inductive Slot where
  | evaluating
  | ready (v : Value)

/-- The slots of the globals used so far, the newest entry of a name first. -/
abbrev Memo := List (String × Slot)

namespace Memo

def erase (m : Memo) (name : String) : Memo := m.filter fun e => e.1 != name

def insert (m : Memo) (name : String) (slot : Slot) : Memo := (name, slot) :: m.erase name

end Memo

/-- A computation that reads and extends the memo, talks to the host, and ends in an outcome. The
memo is answered whatever the outcome. -/
def Eval (α : Type) : Type := Memo → Dialogue (Outcome α × Memo)

namespace Eval

instance : Monad Eval where
  pure a := fun m => .done (.value a, m)
  bind x f := fun m => (x m).bind fun
    | (.value a, m) => f a m
    | (.error e, m) => .done (.error e, m)
    | (.outOfFuel, m) => .done (.outOfFuel, m)

def outOfFuel {α : Type} : Eval α := fun m => .done (.outOfFuel, m)

def raise {α : Type} (e : RuntimeError) : Eval α := fun m => .done (.error e, m)

def fail {α : Type} (fault : RuntimeFault) (pos : Position) : Eval α :=
  raise (.fault ⟨fault, pos⟩)

def mismatch {α : Type} (expected : String) (found : Value) (pos : Position) : Eval α :=
  fail (.typeFault expected found.text) pos

def lift {α : Type} (r : Except RuntimeFault α) (pos : Position) : Eval α :=
  match r with
  | .ok a => pure a
  | .error fault => fail fault pos

def slot? (name : String) : Eval (Option Slot) := fun m => .done (.value (m.lookup name), m)

def print (text : String) : Eval Unit := fun m =>
  .print text fun
    | .ok () => .done (.value (), m)
    | .error message => .done (.error (.host message), m)

def readLine : Eval (Option String) := fun m =>
  .readLine fun
    | .ok line => .done (.value line, m)
    | .error message => .done (.error (.host message), m)

def rand (bound : Int64) : Eval Int64 := fun m =>
  .rand bound fun n => .done (.value n, m)

/-- Computes the value of a global: it is marked while the computation runs and remembered at the
end; a computation that fails leaves no mark. -/
def remember (name : String) (x : Eval Value) : Eval Value := fun m =>
  (x (m.insert name .evaluating)).bind fun
    | (.value v, m) => .done (.value v, m.insert name (.ready v))
    | (.error e, m) => .done (.error e, m.erase name)
    | (.outOfFuel, m) => .done (.outOfFuel, m.erase name)

end Eval

/-- The local names of an evaluation, the newest first. -/
abbrev Env := List (String × Value)

namespace Env

/-- Binds names to values from left to right, as far as there are both. -/
def extend (env : Env) : List String → List Value → Env
  | name :: names, v :: vs => extend ((name, v) :: env) names vs
  | _, _ => env

end Env

open Eval

/-- The text that a list of code points stands for. The first element that is no character is the
fault. -/
def Value.decode : List Value → Except RuntimeFault (List Char)
  | [] => .ok []
  | .int n :: vs =>
    match Text.scalar? n with
    | none => .error (.invalidCharacter n)
    | some c => do
      let cs ← decode vs
      return c :: cs
  | v :: _ => .error (.typeFault "Int" v.text)

/-- Calls a function of the host. Arguments beyond its parameters are ignored, and a missing one
counts as the empty tuple. -/
def Builtin.call (b : Builtin) (args : List Value) (pos : Position) : Eval Value :=
  match b with
  | print =>
    match args.headD .unit with
    | .list codes => do
      let text ← lift (Value.decode codes) pos
      Eval.print (String.ofList text)
      pure .unit
    | v => mismatch "[Int]" v pos
  | input => do
    match ← readLine with
    | some line => pure (.ofText line)
    | none => fail .inputClosed pos
  | rand =>
    match args.headD .unit with
    | .int bound =>
      if 0 < bound.toInt then do
        let n ← Eval.rand bound
        pure (.int n)
      else fail (.emptyRandomRange bound) pos
    | v => mismatch "Int" v pos

namespace Program

def declared (p : Program) (label : String) (pos : Position) : Eval CheckedDecl :=
  match p.find? label with
  | some d => pure d
  | none => fail (.typeFault "a declared name" label) pos

section Step

-- A step runs in any monad that evaluations can be lifted to, over what it does with less fuel.
variable {M : Type → Type} [Monad M]

/-- Evaluates from left to right. -/
@[specialize] def evalAll (eval : Expr → M Value) : List Expr → M (List Value)
  | [] => pure []
  | e :: es => do
    let v ← eval e
    let vs ← evalAll eval es
    pure (v :: vs)

variable [MonadLiftT Eval M]

/-- One step of the evaluation of an expression. A local name goes before a global one; the tail of
a list goes before its head. -/
@[specialize] def evalStep (eval : Env → Expr → M Value) (global : String → Position → M Value)
    (call : Value → List Value → Position → M Value) (env : Env) : Expr → M Value
  | .int _ k => pure (.int k)
  | .bool _ b => pure (.bool b)
  | .str _ codes => pure (.ofCodes codes)
  | .ident pos name =>
    match env.lookup name with
    | some v => pure v
    | none => global name pos
  | .list _ items => do
    let vs ← evalAll (eval env) items
    pure (.list vs)
  | .emptyOf _ _ => pure (.list [])
  | .tuple _ items => do
    let vs ← evalAll (eval env) items
    pure (.tuple vs)
  | .call pos callee _ args => do
    let f ← eval env callee
    let vs ← evalAll (eval env) args
    call f vs pos
  | .cond _ test yes no => do
    match ← eval env test with
    | .bool true => eval env yes
    | .bool false => eval env no
    | v => liftM (mismatch "Bool" v test.pos)
  | .unpack _ head tail whole yes no => do
    match ← eval env whole with
    | .list [] => eval env no
    | .list (v :: vs) => eval ((tail.text, .list vs) :: (head.text, v) :: env) yes
    | v => liftM (mismatch "a list" v whole.pos)
  | .letName _ name value body => do
    let v ← eval env value
    eval ((name.text, v) :: env) body
  | .letTuple _ names value body => do
    match ← eval env value with
    | .tuple vs =>
      if names.length = vs.length then eval (env.extend (names.map Name.text) vs) body
      else liftM (mismatch "a tuple" (.tuple vs) value.pos)
    | v => liftM (mismatch "a tuple" v value.pos)
  | .cons _ head tail => do
    match ← eval env tail with
    | .list vs => do
      let v ← eval env head
      pure (.list (v :: vs))
    | v => liftM (mismatch "a list" v tail.pos)
  | .binary pos op left right => do
    let l ← eval env left
    let r ← eval env right
    liftM (lift (op.apply l r) pos)
  | .unary pos op operand => do
    let v ← eval env operand
    liftM (lift (op.apply v) pos)

/-- Calls a value. The body of a declared function sees its parameters only. -/
@[specialize] def callStep (p : Program) (body : String → Env → Expr → M Value) (f : Value)
    (args : List Value) (pos : Position) : M Value :=
  match f with
  | .fn (.builtin b) => liftM (b.call args pos)
  | .fn (.global label) => do
    let d ← liftM (declared p label pos)
    body label (Env.extend [] (d.params?.getD []) args) d.body
  | v => liftM (mismatch "a function" v pos)

@[specialize] def startStep (global : String → Position → M Value)
    (call : Value → List Value → Position → M Value) (args : List String) (pos : Position) :
    M Int64 := do
  let f ← global mainLabel pos
  let v ← call f [.list (args.map Value.ofText)] pos
  match v with
  | .int status => pure status
  | v => liftM (mismatch "Int" v pos)

end Step

mutual

/-- Evaluates an expression. The fuel bounds how deeply calls and expressions nest, and running out
of it is kept apart from every other result. -/
def eval (p : Program) : Nat → Env → Expr → Eval Value
  | 0, _, _ => outOfFuel
  | n + 1, env, e => evalStep (eval p n) (global p n) (call p n) env e

/-- The value of a global. A function stands for itself; a value is computed on first use. -/
def global (p : Program) : Nat → String → Position → Eval Value
  | 0, _, _ => outOfFuel
  | n + 1, name, pos => do
    match ← slot? name with
    | some (.ready v) => pure v
    | some .evaluating => fail (.cyclicGlobal name) pos
    | none =>
      match p.globals.lookup name with
      | some (.fn ..) => pure (.fn (.ofName name))
      | _ => do
        let d ← declared p name pos
        remember name (eval p n [] d.body)

def call (p : Program) : Nat → Value → List Value → Position → Eval Value
  | 0, _, _, _ => outOfFuel
  | n + 1, f, args, pos => callStep p (fun _ => eval p n) f args pos

end

def mainPos (p : Program) : Position := ((p.find? mainLabel).map CheckedDecl.pos).getD .start

def start (p : Program) (fuel : Nat) (args : List String) : Eval Int64 :=
  startStep (global p fuel) (call p fuel) args p.mainPos

/-- A whole run, which starts with nothing remembered. -/
def run (p : Program) (fuel : Nat) (args : List String) : Dialogue (Outcome Int64) :=
  (start p fuel args []).bind fun r => .done r.1

end Program

end ExprLang
