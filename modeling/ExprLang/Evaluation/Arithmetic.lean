import ExprLang.Evaluation.Fault
import ExprLang.Value

namespace ExprLang

namespace Arithmetic

/-- The machine integer with this value, if there is one. -/
def ofInt? (n : Int) : Option Int64 :=
  if Int64.minValue.toInt ≤ n ∧ n ≤ Int64.maxValue.toInt then some (Int64.ofInt n) else none

section Machine

variable (l r : Int64)

def add? : Option Int64 := ofInt? (l.toInt + r.toInt)

def sub? : Option Int64 := ofInt? (l.toInt - r.toInt)

def mul? : Option Int64 := ofInt? (l.toInt * r.toInt)

/-- The quotient rounded toward zero. The divisor 0 has none. -/
def quot? : Option Int64 := if r = 0 then none else ofInt? (l.toInt.tdiv r.toInt)

/-- What the quotient leaves. There is no remainder where there is no quotient. -/
def rem? : Option Int64 := (quot? l r).bind fun _ => ofInt? (l.toInt.tmod r.toInt)

end Machine

/-- A power by repeated squaring. It ends at the first product that does not fit. -/
def pow? (base : Int64) (exponent : Nat) : Option Int64 :=
  if exponent = 0 then some 1
  else if exponent = 1 then some base
  else do
    let square ← mul? base base
    let even ← pow? square (exponent / 2)
    if exponent % 2 = 0 then some even else mul? even base
termination_by exponent
decreasing_by omega

/-- The quotient rounded toward negative infinity. A quotient that was rounded up, because the
signs of the operands differ, is one too large. -/
def floorDiv? (l r : Int64) : Option Int64 := do
  let q ← quot? l r
  let m ← rem? l r
  if m ≠ 0 ∧ ¬ (l < 0 ↔ r < 0) then sub? q 1 else some q

/-- The remainder with the sign of the divisor. The divisor -1 leaves nothing, and for it the
machine has no quotient of the least integer. -/
def floorMod? (l r : Int64) : Option Int64 :=
  if r = -1 then some 0
  else do
    let m ← rem? l r
    if m ≠ 0 ∧ ¬ (m < 0 ↔ r < 0) then add? m r else some m

/-- Powers with an exponent of at least zero. The bases 0, 1 and -1 have powers with every exponent;
those of other bases are computed for exponents of 32 bits only. -/
def power? (base exponent : Int64) : Option Int64 :=
  if (base = 0 ∨ base = 1) ∧ 0 < exponent then some base
  else if base = -1 then do
    let m ← rem? exponent 2
    some (if m = 0 then 1 else -1)
  else if exponent.toInt < Int.pow 2 32 then pow? base exponent.toInt.toNat
  else none

/-- The answer of an integer operation, an overflow if it has none. -/
def fit (op : BinaryOp) : Option Int64 → Except RuntimeFault Int64
  | some n => .ok n
  | none => .error (.overflow op.symbol)

def add (l r : Int64) : Except RuntimeFault Int64 := fit .add (add? l r)

def sub (l r : Int64) : Except RuntimeFault Int64 := fit .sub (sub? l r)

def mul (l r : Int64) : Except RuntimeFault Int64 := fit .mul (mul? l r)

def div (l r : Int64) : Except RuntimeFault Int64 :=
  if r = 0 then .error .divisionByZero else fit .div (floorDiv? l r)

def mod (l r : Int64) : Except RuntimeFault Int64 :=
  if r = 0 then .error .divisionByZero else fit .mod (floorMod? l r)

def pow (base exponent : Int64) : Except RuntimeFault Int64 :=
  if exponent < 0 then .error (.negativeExponent exponent) else fit .pow (power? base exponent)

end Arithmetic

/-- What an operator does, by the kind of its operands and its result. -/
inductive BinaryOp.Meaning where
  | arithmetic (f : Int64 → Int64 → Except RuntimeFault Int64)
  | comparison (f : Int64 → Int64 → Bool)
  | logic (f : Bool → Bool → Bool)

def BinaryOp.meaning : BinaryOp → BinaryOp.Meaning
  | add => .arithmetic Arithmetic.add
  | sub => .arithmetic Arithmetic.sub
  | mul => .arithmetic Arithmetic.mul
  | div => .arithmetic Arithmetic.div
  | mod => .arithmetic Arithmetic.mod
  | pow => .arithmetic Arithmetic.pow
  | eq => .comparison fun l r => l == r
  | neq => .comparison fun l r => l != r
  | lt => .comparison fun l r => decide (l < r)
  | gt => .comparison fun l r => decide (r < l)
  | le => .comparison fun l r => decide (l ≤ r)
  | ge => .comparison fun l r => decide (r ≤ l)
  | and => .logic fun l r => l && r
  | or => .logic fun l r => l || r
  | xor => .logic fun l r => l != r
  | xnor => .logic fun l r => l == r

namespace Value

def asInt : Value → Except RuntimeFault Int64
  | int n => .ok n
  | v => .error (.typeFault "Int" v.text)

def asBool : Value → Except RuntimeFault Bool
  | bool b => .ok b
  | v => .error (.typeFault "Bool" v.text)

end Value

/-- Applies a binary operator. The left operand is looked at first. -/
def BinaryOp.apply (op : BinaryOp) (l r : Value) : Except RuntimeFault Value :=
  match op.meaning with
  | .arithmetic f => do
    let a ← l.asInt
    let b ← r.asInt
    let n ← f a b
    return .int n
  | .comparison f => do
    let a ← l.asInt
    let b ← r.asInt
    return .bool (f a b)
  | .logic f => do
    let a ← l.asBool
    let b ← r.asBool
    return .bool (f a b)

def UnaryOp.apply (op : UnaryOp) (v : Value) : Except RuntimeFault Value :=
  match op with
  | neg => do
    let n ← v.asInt
    match Arithmetic.ofInt? (-n.toInt) with
    | some m => return .int m
    | none => throw (.overflow UnaryOp.neg.symbol)
  | not => do
    let b ← v.asBool
    return .bool (!b)

end ExprLang
