import ExprLang.Proofs.Evaluation.Anew
import ExprLang.Proofs.Evaluation.Operators
import ExprLang.Proofs.Table

namespace ExprLang

namespace Expr

mutual

def idents : Expr → List String
  | int _ _ | bool _ _ | str _ _ | emptyOf _ _ => []
  | ident _ name => [name]
  | list _ items | tuple _ items => identsAll items
  | call _ callee _ args => callee.idents ++ identsAll args
  | cond _ test yes no => test.idents ++ yes.idents ++ no.idents
  | unpack _ _ _ whole yes no => whole.idents ++ yes.idents ++ no.idents
  | letName _ _ value body | letTuple _ _ value body => value.idents ++ body.idents
  | cons _ head tail => head.idents ++ tail.idents
  | binary _ _ left right => left.idents ++ right.idents
  | unary _ _ operand => operand.idents

def identsAll : List Expr → List String
  | [] => []
  | e :: es => e.idents ++ identsAll es

end

end Expr

namespace Value

variable {P Q : Callable → Prop}

mutual

/-- Every function in a value has the property. -/
def Only (P : Callable → Prop) : Value → Prop
  | bool _ | int _ => True
  | list items | tuple items => AllOnly P items
  | fn c => P c

def AllOnly (P : Callable → Prop) : List Value → Prop
  | [] => True
  | v :: vs => v.Only P ∧ AllOnly P vs

end

mutual

theorem Only.imp (hPQ : ∀ c, P c → Q c) (v : Value) (h : v.Only P) : v.Only Q := by
  cases v with
  | bool | int => trivial
  | list items => exact AllOnly.imp hPQ items h
  | tuple items => exact AllOnly.imp hPQ items h
  | fn c => exact hPQ c h

theorem AllOnly.imp (hPQ : ∀ c, P c → Q c) (vs : List Value) (h : AllOnly P vs) :
    AllOnly Q vs := by
  cases vs with
  | nil => trivial
  | cons v vs => exact ⟨Only.imp hPQ v h.1, AllOnly.imp hPQ vs h.2⟩

end

theorem only_ofCodes (codes : List Int64) : (ofCodes codes).Only P := by
  induction codes with
  | nil => trivial
  | cons code codes ih => exact ⟨trivial, ih⟩

theorem allOnly_ofText (args : List String) : AllOnly P (args.map ofText) := by
  induction args with
  | nil => trivial
  | cons arg args ih => exact ⟨only_ofCodes _, ih⟩

end Value

namespace Env

variable {P : Callable → Prop} {env : Env}

def Only (P : Callable → Prop) (env : Env) : Prop :=
  ∀ name v, env.lookup name = some v → v.Only P

theorem Only.nil : Only P [] := by
  intro name v h
  cases h

theorem Only.cons (h : env.Only P) (name : String) {v : Value} (hv : v.Only P) :
    Only P ((name, v) :: env) := by
  intro other w hw
  rw [lookup_cons_eq_ite] at hw
  split at hw
  · cases hw
    exact hv
  · exact h other w hw

theorem Only.extend (h : env.Only P) (names : List String) {vs : List Value}
    (hvs : Value.AllOnly P vs) : (env.extend names vs).Only P := by
  induction names generalizing env vs with
  | nil => cases vs <;> exact h
  | cons name names ih =>
    cases vs with
    | nil => exact h
    | cons v vs => exact ih (h.cons name hvs.1) hvs.2

end Env

namespace Eval

/-- A relation between an evaluation, whose values have a property, and a family of evaluations. It
holds of the same value and of the same fault, unless that is a cycle, and it holds of evaluations
that follow each other. -/
structure Stepwise {M N : Type → Type} [Monad M] [MonadLiftT Eval M] [Monad N]
    [MonadLiftT Eval N] {ι : Type} (R : {α : Type} → (α → Prop) → M α → (ι → N α) → Prop) :
    Prop where
  pure : ∀ {α : Type} {Q : α → Prop} {a : α}, Q a → R Q (Pure.pure a) fun _ => Pure.pure a
  lift : ∀ {α : Type} {Q : α → Prop} {r : Except RuntimeFault α}, (∀ a, r = .ok a → Q a) →
    (∀ fault, r = .error fault → ¬ fault.IsCyclic) → ∀ pos : Position,
      R Q (liftM (Eval.lift r pos)) fun _ => liftM (Eval.lift r pos)
  bind : ∀ {α β : Type} {Q : α → Prop} {S : β → Prop} {x : M α} {xs : ι → N α}
    {f : α → M β} {fs : ι → α → N β}, R Q x xs → (∀ a, Q a → R S (f a) fun i => fs i a) →
      R S (x >>= f) fun i => xs i >>= fs i

namespace Stepwise

variable {M N : Type → Type} [Monad M] [MonadLiftT Eval M] [Monad N] [MonadLiftT Eval N]
  {ι : Type} {R : {α : Type} → (α → Prop) → M α → (ι → N α) → Prop}
  {P : Callable → Prop} {K : String → Prop} (h : Stepwise R)
include h

theorem fail {α : Type} {Q : α → Prop} {fault : RuntimeFault} (hfault : ¬ fault.IsCyclic)
    (pos : Position) : R Q (liftM (Eval.fail fault pos)) fun _ => liftM (Eval.fail fault pos) :=
  h.lift (r := .error fault) (fun _ ha => by cases ha) (fun _ he => by cases he; exact hfault) pos

theorem mismatch {α : Type} {Q : α → Prop} (expected : String) (found : Value) (pos : Position) :
    R Q (liftM (Eval.mismatch expected found pos)) fun _ =>
      liftM (Eval.mismatch expected found pos) :=
  h.fail id pos

theorem answer {r : Except RuntimeFault Value} (hr : Value.IsAnswer r) (pos : Position) :
    R (Value.Only P) (liftM (Eval.lift r pos)) fun _ => liftM (Eval.lift r pos) := by
  apply h.lift
  · rintro v rfl
    cases v with
    | int | bool => trivial
    | list | tuple | fn => exact hr.elim
  · rintro fault rfl
    exact RuntimeFault.not_isCyclic hr

theorem declared (p : Program) (label : String) (pos : Position) :
    R (fun d => p.find? label = some d) (liftM (p.declared label pos)) fun _ =>
      liftM (p.declared label pos) := by
  rw [Program.declared]
  cases p.find? label with
  | none => exact h.fail id pos
  | some d =>
    exact h.lift (r := .ok d) (fun _ hd => by cases hd; rfl) (fun _ he => by cases he) pos

theorem all {eval : Expr → M Value} {evals : ι → Expr → N Value} {es : List Expr}
    (hes : ∀ x ∈ Expr.identsAll es, K x)
    (heval : ∀ e, (∀ x ∈ e.idents, K x) → R (Value.Only P) (eval e) fun i => evals i e) :
    R (Value.AllOnly P) (Program.evalAll eval es) fun i => Program.evalAll (evals i) es := by
  induction es with
  | nil => exact h.pure trivial
  | cons e es ih =>
    obtain ⟨he, hes⟩ := List.forall_mem_append.1 hes
    apply h.bind (heval e he)
    intro v hv
    apply h.bind (ih hes)
    intro vs hvs
    exact h.pure ⟨hv, hvs⟩

/-- A step over names that have `K`, where all functions that are met have `P`. -/
theorem evalStep {eval : Env → Expr → M Value} {global : String → Position → M Value}
    {call : Value → List Value → Position → M Value} (evals : ι → Env → Expr → N Value)
    (globals : ι → String → Position → N Value)
    (calls : ι → Value → List Value → Position → N Value)
    (heval : ∀ env e, env.Only P → (∀ x ∈ e.idents, K x) →
      R (Value.Only P) (eval env e) fun i => evals i env e)
    (hglobal : ∀ name pos, K name → R (Value.Only P) (global name pos) fun i => globals i name pos)
    (hcall : ∀ f args pos, f.Only P → Value.AllOnly P args →
      R (Value.Only P) (call f args pos) fun i => calls i f args pos)
    {env : Env} {e : Expr} (henv : env.Only P) (he : ∀ x ∈ e.idents, K x) :
    R (Value.Only P) (Program.evalStep eval global call env e) fun i =>
      Program.evalStep (evals i) (globals i) (calls i) env e := by
  have hall {es : List Expr} (hes : ∀ x ∈ Expr.identsAll es, K x) :
      R (Value.AllOnly P) (Program.evalAll (eval env) es) fun i =>
        Program.evalAll (evals i env) es :=
    h.all hes fun e he => heval env e henv he
  cases e with
  | int | bool => exact h.pure trivial
  | str pos codes => exact h.pure (Value.only_ofCodes codes)
  | emptyOf => exact h.pure trivial
  | ident pos name =>
    simp only [Program.evalStep]
    cases hname : env.lookup name with
    | some v => exact h.pure (henv name v hname)
    | none => exact hglobal name pos (he name List.mem_cons_self)
  | list pos items => exact h.bind (hall he) fun vs hvs => h.pure hvs
  | tuple pos items => exact h.bind (hall he) fun vs hvs => h.pure hvs
  | call pos callee types args =>
    obtain ⟨hcallee, hargs⟩ := List.forall_mem_append.1 he
    apply h.bind (heval env callee henv hcallee)
    intro f hf
    exact h.bind (hall hargs) fun vs hvs => hcall f vs pos hf hvs
  | cond pos test yes no =>
    obtain ⟨htest, hno⟩ := List.forall_mem_append.1 he
    obtain ⟨htest, hyes⟩ := List.forall_mem_append.1 htest
    apply h.bind (heval env test henv htest)
    intro v _
    cases v with
    | bool b =>
      cases b with
      | true => exact heval env yes henv hyes
      | false => exact heval env no henv hno
    | int | list | tuple | fn => exact h.mismatch _ _ _
  | unpack pos head tail whole yes no =>
    obtain ⟨hwhole, hno⟩ := List.forall_mem_append.1 he
    obtain ⟨hwhole, hyes⟩ := List.forall_mem_append.1 hwhole
    apply h.bind (heval env whole henv hwhole)
    intro v hv
    cases v with
    | list vs =>
      cases vs with
      | nil => exact heval env no henv hno
      | cons v vs => exact heval _ yes ((henv.cons head.text hv.1).cons tail.text hv.2) hyes
    | int | bool | tuple | fn => exact h.mismatch _ _ _
  | letName pos name value body =>
    obtain ⟨hvalue, hbody⟩ := List.forall_mem_append.1 he
    apply h.bind (heval env value henv hvalue)
    intro v hv
    exact heval _ body (henv.cons name.text hv) hbody
  | letTuple pos names value body =>
    obtain ⟨hvalue, hbody⟩ := List.forall_mem_append.1 he
    apply h.bind (heval env value henv hvalue)
    intro v hv
    cases v with
    | tuple vs =>
      by_cases hlength : names.length = vs.length
      · simp only [if_pos hlength]
        exact heval _ body (henv.extend _ hv) hbody
      · simp only [if_neg hlength]
        exact h.mismatch _ _ _
    | int | bool | list | fn => exact h.mismatch _ _ _
  | cons pos head tail =>
    obtain ⟨hhead, htail⟩ := List.forall_mem_append.1 he
    apply h.bind (heval env tail henv htail)
    intro v hv
    cases v with
    | list vs => exact h.bind (heval env head henv hhead) fun w hw => h.pure ⟨hw, hv⟩
    | int | bool | tuple | fn => exact h.mismatch _ _ _
  | binary pos op left right =>
    obtain ⟨hleft, hright⟩ := List.forall_mem_append.1 he
    apply h.bind (heval env left henv hleft)
    intro l _
    apply h.bind (heval env right henv hright)
    intro r _
    exact h.answer (op.isAnswer_apply l r) pos
  | unary pos op operand =>
    apply h.bind (heval env operand henv he)
    intro v _
    exact h.answer (op.isAnswer_apply v) pos

theorem callStep {p q : Program} {body : String → Env → Expr → M Value}
    (bodies : ι → String → Env → Expr → N Value) {f : Value} {args : List Value} {pos : Position}
    (hhost : ∀ b, P (.builtin b) →
      R (Value.Only P) (liftM (Builtin.call b args pos)) fun _ => liftM (Builtin.call b args pos))
    (hfind : ∀ label, P (.global label) → p.find? label = q.find? label)
    (hbody : ∀ label d env, P (.global label) → p.find? label = some d → env.Only P →
      R (Value.Only P) (body label env d.body) fun i => bodies i label env d.body)
    (hf : f.Only P) (hargs : Value.AllOnly P args) :
    R (Value.Only P) (Program.callStep p body f args pos) fun i =>
      Program.callStep q (bodies i) f args pos := by
  cases f with
  | fn c =>
    cases c with
    | builtin b => exact hhost b hf
    | global label =>
      have hsame : q.declared label pos = p.declared label pos := by
        rw [Program.declared, Program.declared, hfind label hf]
      simp only [Program.callStep, hsame]
      apply h.bind (h.declared p label pos)
      intro d hd
      exact hbody label d _ hf hd (Env.Only.nil.extend _ hargs)
  | int | bool | list | tuple => exact h.mismatch _ _ _

theorem startStep {global : String → Position → M Value}
    {call : Value → List Value → Position → M Value} (globals : ι → String → Position → N Value)
    (calls : ι → Value → List Value → Position → N Value) (args : List String) {pos : Position}
    (hglobal : R (Value.Only P) (global Program.mainLabel pos) fun i =>
      globals i Program.mainLabel pos)
    (hcall : ∀ f args, f.Only P → Value.AllOnly P args →
      R (Value.Only P) (call f args pos) fun i => calls i f args pos) :
    R (fun _ => True) (Program.startStep global call args pos) fun i =>
      Program.startStep (globals i) (calls i) args pos := by
  apply h.bind hglobal
  intro f hf
  have hargs : Value.AllOnly P [.list (args.map Value.ofText)] :=
    ⟨Value.allOnly_ofText args, trivial⟩
  apply h.bind (hcall f _ hf hargs)
  intro v _
  cases v with
  | int status => exact h.pure trivial
  | bool | list | tuple | fn => exact h.mismatch _ _ _

end Stepwise

end Eval

end ExprLang
