import ExprLang.Evaluation.Arithmetic

namespace ExprLang

/-- A fault of an operation on integers. -/
def RuntimeFault.IsArithmetic : RuntimeFault → Prop
  | divisionByZero | overflow _ | negativeExponent _ => True
  | _ => False

def RuntimeFault.IsTypeFault : RuntimeFault → Prop
  | typeFault _ _ => True
  | _ => False

theorem RuntimeFault.IsArithmetic.not_isTypeFault {fault : RuntimeFault} (h : fault.IsArithmetic) :
    ¬ fault.IsTypeFault := by
  cases fault with
  | typeFault => exact h.elim
  | _ => exact id

/-- A global that was used while it was computed. -/
def RuntimeFault.IsCyclic : RuntimeFault → Prop
  | cyclicGlobal _ => True
  | _ => False

def RuntimeError.IsCyclic : RuntimeError → Prop
  | fault e => e.cause.IsCyclic
  | host _ => False

theorem RuntimeFault.not_isCyclic {fault : RuntimeFault}
    (h : fault.IsArithmetic ∨ fault.IsTypeFault) : ¬ fault.IsCyclic := by
  cases fault with
  | cyclicGlobal => exact (h.elim id id).elim
  | _ => exact id

/-- An answer of an operator. -/
def Value.IsAnswer : Except RuntimeFault Value → Prop
  | .ok (.int _) | .ok (.bool _) => True
  | .ok _ => False
  | .error fault => fault.IsArithmetic ∨ fault.IsTypeFault

namespace Value

theorem isAnswer_asInt_bind {v : Value} {f : Int64 → Except RuntimeFault Value}
    (h : ∀ n, IsAnswer (f n)) : IsAnswer (v.asInt >>= f) := by
  cases v with
  | int n => exact h n
  | bool | list | tuple | fn => exact .inr trivial

theorem isAnswer_asBool_bind {v : Value} {f : Bool → Except RuntimeFault Value}
    (h : ∀ b, IsAnswer (f b)) : IsAnswer (v.asBool >>= f) := by
  cases v with
  | bool b => exact h b
  | int | list | tuple | fn => exact .inr trivial

end Value

theorem Arithmetic.fit_error {op : BinaryOp} {result : Option Int64} {fault : RuntimeFault}
    (h : fit op result = .error fault) : fault.IsArithmetic := by
  cases result with
  | some n => cases h
  | none =>
    cases h
    trivial

namespace BinaryOp

theorem arithmetic_error {op : BinaryOp} {f : Int64 → Int64 → Except RuntimeFault Int64}
    (hf : op.meaning = .arithmetic f) {l r : Int64} {fault : RuntimeFault}
    (h : f l r = .error fault) : fault.IsArithmetic := by
  cases op <;> cases hf
  case add | sub | mul => exact Arithmetic.fit_error h
  case div | mod | pow =>
    simp only [Arithmetic.div, Arithmetic.mod, Arithmetic.pow] at h
    split at h
    · cases h
      trivial
    · exact Arithmetic.fit_error h

theorem isAnswer_apply (op : BinaryOp) (l r : Value) : Value.IsAnswer (op.apply l r) := by
  rw [apply]
  split
  · rename_i f hf
    apply Value.isAnswer_asInt_bind
    intro a
    apply Value.isAnswer_asInt_bind
    intro b
    cases hn : f a b with
    | ok n => trivial
    | error fault => exact .inl (arithmetic_error hf hn)
  · apply Value.isAnswer_asInt_bind
    intro a
    apply Value.isAnswer_asInt_bind
    exact fun b => trivial
  · apply Value.isAnswer_asBool_bind
    intro a
    apply Value.isAnswer_asBool_bind
    exact fun b => trivial

end BinaryOp

theorem UnaryOp.isAnswer_apply (op : UnaryOp) (v : Value) : Value.IsAnswer (op.apply v) := by
  cases op with
  | neg =>
    apply Value.isAnswer_asInt_bind
    intro n
    split
    · trivial
    · exact .inl trivial
  | not =>
    apply Value.isAnswer_asBool_bind
    exact fun b => trivial

end ExprLang
