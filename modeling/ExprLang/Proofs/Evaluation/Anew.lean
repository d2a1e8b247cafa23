import ExprLang.Evaluation

namespace ExprLang.Program

open Eval

mutual

/-- Evaluates an expression without a memo. -/
def evalAnew (p : Program) : Nat → Env → Expr → Eval Value
  | 0, _, _ => outOfFuel
  | n + 1, env, e => evalStep (evalAnew p n) (globalAnew p n) (callAnew p n) env e

/-- The value of a global: a function stands for itself, and a value is computed at each use. -/
def globalAnew (p : Program) : Nat → String → Position → Eval Value
  | 0, _, _ => outOfFuel
  | n + 1, name, pos =>
    match p.globals.lookup name with
    | some (.fn ..) => pure (.fn (.ofName name))
    | _ => do
      let d ← declared p name pos
      evalAnew p n [] d.body

def callAnew (p : Program) : Nat → Value → List Value → Position → Eval Value
  | 0, _, _, _ => outOfFuel
  | n + 1, f, args, pos => callStep p (fun _ => evalAnew p n) f args pos

end

def startAnew (p : Program) (fuel : Nat) (args : List String) : Eval Int64 :=
  startStep (globalAnew p fuel) (callAnew p fuel) args p.mainPos

def runAnew (p : Program) (fuel : Nat) (args : List String) : Dialogue (Outcome Int64) :=
  (startAnew p fuel args []).bind fun r => .done r.1

end ExprLang.Program
