import ExprLang.Evaluation
import ExprLang.Proofs.Places.Move

namespace ExprLang

variable {φ : Position → Position}

def RuntimeError.move (φ : Position → Position) : RuntimeError → RuntimeError
  | fault e => fault (e.move φ)
  | host message => host message

def Outcome.move {α : Type} (φ : Position → Position) : Outcome α → Outcome α
  | value a => value a
  | error e => error (e.move φ)
  | outOfFuel => outOfFuel

namespace Dialogue

def map {α β : Type} (f : α → β) (d : Dialogue α) : Dialogue β := d.bind fun a => done (f a)

variable {α β γ : Type}

theorem bind_map (f : α → β) (d : Dialogue α) (k : β → Dialogue γ) :
    (d.map f).bind k = d.bind fun a => k (f a) :=
  bind_assoc d _ k

theorem map_bind (d : Dialogue α) (k : α → Dialogue β) (f : β → γ) :
    (d.bind k).map f = d.bind fun a => (k a).map f :=
  bind_assoc d k _

end Dialogue

/-- A computation does what another one does, with the places of its errors moved. -/
def Eval.Mirrors {α : Type} (φ : Position → Position) (x y : Eval α) : Prop :=
  ∀ m, y m = (x m).map fun r => (r.1.move φ, r.2)

namespace Eval.Mirrors

variable {α β : Type}

theorem pure (a : α) : Mirrors φ (Pure.pure a) (Pure.pure a) := fun _ => rfl

theorem outOfFuel : Mirrors φ (Eval.outOfFuel : Eval α) Eval.outOfFuel := fun _ => rfl

theorem fail (fault : RuntimeFault) (pos : Position) :
    Mirrors φ (Eval.fail fault pos : Eval α) (Eval.fail fault (φ pos)) := fun _ => rfl

theorem mismatch (expected : String) (found : Value) (pos : Position) :
    Mirrors φ (Eval.mismatch expected found pos : Eval α) (Eval.mismatch expected found (φ pos)) :=
  fail _ _

theorem bind {x y : Eval α} {k k' : α → Eval β} (hx : Mirrors φ x y)
    (hk : ∀ a, Mirrors φ (k a) (k' a)) : Mirrors φ (x >>= k) (y >>= k') := by
  intro m
  change (y m).bind _ = Dialogue.map _ ((x m).bind _)
  rw [hx m, Dialogue.bind_map, Dialogue.map_bind]
  congr 1
  funext (outcome, m')
  cases outcome with
  | value a => exact hk a m'
  | error e => rfl
  | outOfFuel => rfl

theorem lift (r : Except RuntimeFault α) (pos : Position) :
    Mirrors φ (Eval.lift r pos) (Eval.lift r (φ pos)) := by
  cases r with
  | ok a => exact pure a
  | error fault => exact fail fault pos

theorem slot? (name : String) : Mirrors φ (Eval.slot? name) (Eval.slot? name) := fun _ => rfl

theorem print (text : String) : Mirrors φ (Eval.print text) (Eval.print text) := by
  intro m
  refine congrArg (Dialogue.print text) (funext fun r => ?_)
  cases r <;> rfl

theorem readLine : Mirrors φ Eval.readLine Eval.readLine := by
  intro m
  refine congrArg Dialogue.readLine (funext fun r => ?_)
  cases r <;> rfl

theorem rand (bound : Int64) : Mirrors φ (Eval.rand bound) (Eval.rand bound) := fun _ => rfl

theorem remember (name : String) {x y : Eval Value} (h : Mirrors φ x y) :
    Mirrors φ (Eval.remember name x) (Eval.remember name y) := by
  intro m
  rw [Eval.remember, Eval.remember, h, Dialogue.bind_map, Dialogue.map_bind]
  congr 1
  funext (outcome, m')
  cases outcome <;> rfl

theorem all {x y : Expr → Eval Value} (es : List Expr)
    (h : ∀ e ∈ es, Mirrors φ (x e) (y (e.move φ))) :
    Mirrors φ (Program.evalAll x es) (Program.evalAll y (Expr.moveAll φ es)) := by
  induction es with
  | nil => exact pure []
  | cons e es ih =>
    obtain ⟨he, hes⟩ := List.forall_mem_cons.1 h
    exact he.bind fun v => (ih hes).bind fun vs => pure (v :: vs)

end Eval.Mirrors

open Eval

theorem Builtin.call_mirrors (b : Builtin) (args : List Value) (pos : Position) :
    Mirrors φ (b.call args pos) (b.call args (φ pos)) := by
  cases b with
  | print =>
    rw [Builtin.call, Builtin.call]
    split
    · refine (Mirrors.lift _ pos).bind fun text => ?_
      exact (Mirrors.print _).bind fun _ => .pure _
    · exact .mismatch _ _ pos
  | input =>
    refine Mirrors.readLine.bind fun line? => ?_
    cases line? with
    | some line => exact .pure _
    | none => exact .fail _ pos
  | rand =>
    rw [Builtin.call, Builtin.call]
    split
    · split
      · exact (Mirrors.rand _).bind fun n => .pure _
      · exact .fail _ pos
    · exact .mismatch _ _ pos

namespace Program

variable (p : Program)

theorem find?_move (label : String) :
    (p.move φ).find? label = (p.find? label).map (CheckedDecl.move φ) := by
  rw [find?, find?, move, ← List.map_reverse]
  exact List.find?_map

theorem declared_mirrors {β : Type} (label : String) (pos : Position)
    {k k' : CheckedDecl → Eval β} (hk : ∀ d, Mirrors φ (k d) (k' (d.move φ))) :
    Mirrors φ (p.declared label pos >>= k) ((p.move φ).declared label (φ pos) >>= k') := by
  rw [declared, declared, find?_move]
  cases p.find? label with
  | none => exact fun _ => rfl
  | some d => exact hk d

mutual

theorem eval_mirrors : (n : Nat) → (env : Env) → (e : Expr) →
    Mirrors φ (p.eval n env e) ((p.move φ).eval n env (e.move φ))
  | 0, _, _ => .outOfFuel
  | n + 1, env, e => by
    have heval (env : Env) (e : Expr) := eval_mirrors n env e
    have hall (es : List Expr) :
        Mirrors φ (evalAll (p.eval n env) es)
          (evalAll ((p.move φ).eval n env) (Expr.moveAll φ es)) :=
      .all es fun e _ => heval env e
    cases e with
    | int _ k => exact .pure _
    | bool _ b => exact .pure _
    | str _ codes => exact .pure _
    | ident pos name =>
      rw [Expr.move, eval, eval, evalStep, evalStep]
      split
      · exact .pure _
      · exact global_mirrors n name pos
    | list _ items => exact (hall items).bind fun vs => .pure _
    | emptyOf _ _ => exact .pure _
    | tuple _ items => exact (hall items).bind fun vs => .pure _
    | call pos callee _ args =>
      refine (heval env callee).bind fun f => ?_
      exact (hall args).bind fun vs => call_mirrors n f vs pos
    | cond _ test yes no =>
      rw [Expr.move, eval, eval, evalStep, evalStep, Expr.pos_move]
      refine (heval env test).bind fun v => ?_
      split
      · exact heval env yes
      · exact heval env no
      · exact .mismatch _ _ _
    | unpack _ head tail whole yes no =>
      rw [Expr.move, eval, eval, evalStep, evalStep, Expr.pos_move]
      refine (heval env whole).bind fun v => ?_
      split
      · exact heval env no
      · exact heval _ yes
      · exact .mismatch _ _ _
    | letName _ name value body => exact (heval env value).bind fun v => heval _ body
    | letTuple _ names value body =>
      rw [Expr.move, eval, eval, evalStep, evalStep, Expr.pos_move, List.length_map,
        TypeExpr.map_text_move]
      refine (heval env value).bind fun v => ?_
      split
      · split
        · exact heval _ body
        · exact .mismatch _ _ _
      · exact .mismatch _ _ _
    | cons _ head tail =>
      rw [Expr.move, eval, eval, evalStep, evalStep, Expr.pos_move]
      refine (heval env tail).bind fun v => ?_
      split
      · exact (heval env head).bind fun v => .pure _
      · exact .mismatch _ _ _
    | binary pos op left right =>
      refine (heval env left).bind fun l => ?_
      exact (heval env right).bind fun r => .lift _ pos
    | unary pos op operand => exact (heval env operand).bind fun v => .lift _ pos

theorem global_mirrors : (n : Nat) → (name : String) → (pos : Position) →
    Mirrors φ (p.global n name pos) ((p.move φ).global n name (φ pos))
  | 0, _, _ => .outOfFuel
  | n + 1, name, pos => by
    rw [global, global]
    refine (Mirrors.slot? name).bind fun slot => ?_
    have hglobals : (p.move φ).globals = p.globals := rfl
    rw [hglobals]
    split
    · exact .pure _
    · exact .fail _ pos
    split
    · exact .pure _
    · exact declared_mirrors p name pos fun d => .remember name (eval_mirrors n [] d.body)

theorem call_mirrors : (n : Nat) → (f : Value) → (args : List Value) → (pos : Position) →
    Mirrors φ (p.call n f args pos) ((p.move φ).call n f args (φ pos))
  | 0, _, _, _ => .outOfFuel
  | n + 1, f, args, pos => by
    cases f with
    | fn c =>
      cases c with
      | builtin b => exact b.call_mirrors args pos
      | global label => exact declared_mirrors p label pos fun d => eval_mirrors n _ d.body
    | bool | int | list | tuple => exact .mismatch _ _ pos

end

theorem mainPos_move {d : CheckedDecl} (h : p.find? mainLabel = some d) :
    (p.move φ).mainPos = φ p.mainPos := by
  rw [mainPos, mainPos, find?_move, h]
  rfl

theorem start_mirrors {d : CheckedDecl} (h : p.find? mainLabel = some d) (fuel : Nat)
    (args : List String) :
    Mirrors φ (p.start fuel args) ((p.move φ).start fuel args) := by
  rw [start, start, mainPos_move p h]
  refine (global_mirrors p fuel mainLabel _).bind fun f => ?_
  refine (call_mirrors p fuel f _ _).bind fun v => ?_
  split
  · exact .pure _
  · exact .mismatch _ _ _

theorem run_move {d : CheckedDecl} (h : p.find? mainLabel = some d) (fuel : Nat)
    (args : List String) :
    (p.move φ).run fuel args = (p.run fuel args).map (Outcome.move φ) := by
  rw [run, run, start_mirrors p h fuel args [], Dialogue.bind_map, Dialogue.map_bind]
  rfl

end Program

end ExprLang
