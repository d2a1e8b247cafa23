import ExprLang.Proofs.Evaluation.Ensures
import ExprLang.Proofs.Evaluation.Operators
import ExprLang.Proofs.Ty.Structure
import ExprLang.Proofs.Typing.Judgment

namespace ExprLang

def RuntimeError.IsTypeFault : RuntimeError → Prop
  | fault e => e.cause.IsTypeFault
  | host _ => False

def Program.typeOf? (p : Program) : Callable → Option Ty
  | .builtin b => some b.type
  | .global label => (p.find? label).map CheckedDecl.type

/-- The body of a declaration has the declared type: that of the result, with the parameters in
scope, for a function, and the whole type for a value. -/
def CheckedDecl.TypedBy (rule : CalleeRule) (globals : TypeTable) (d : CheckedDecl) : Prop :=
  match d.type with
  | .fn ret params names generics =>
    ∃ bound scope t, bound.map Name.text = names ∧
      Scope.bindAll ⟨globals, [], generics⟩ bound params = .ok scope ∧
      Expr.HasType rule scope d.body t ∧ Ty.Equiv ret t
  | t => ∃ u, Expr.HasType rule ⟨globals, [], []⟩ d.body u ∧ Ty.Equiv t u

/-- The table gives the declared types, and all bodies have them. -/
structure Program.TypedBy (rule : CalleeRule) (p : Program) : Prop where
  table : ∀ name t, p.globals.lookup name = some t → p.typeOf? (.ofName name) = some t
  bodies : ∀ d ∈ p.decls, d.TypedBy rule p.globals

namespace Program.TypedBy

variable {rule : CalleeRule} {p : Program} (hp : p.TypedBy rule)
include hp

/-- Only a declared name can have a type that is no function type, and its body has that type. -/
theorem value {name : String} {t : Ty} (hname : p.globals.lookup name = some t)
    (hno : ∀ ret params names generics, t ≠ .fn ret params names generics) :
    ∃ d u, p.find? name = some d ∧ Expr.HasType rule ⟨p.globals, [], []⟩ d.body u ∧
      Ty.Equiv t u := by
  have htype := hp.table name t hname
  cases hb : Builtin.ofName? name with
  | some b =>
    rw [Callable.ofName, hb] at htype
    cases b <;> cases htype <;> exact absurd rfl (hno _ _ _ _)
  | none =>
    rw [Callable.ofName, hb] at htype
    obtain ⟨d, hd, rfl⟩ := Option.map_eq_some_iff.1 htype
    have hbody := hp.bodies d (mem_of_find? hd)
    rw [CheckedDecl.TypedBy] at hbody
    split at hbody
    · rename_i heq
      exact absurd heq (hno _ _ _ _)
    · obtain ⟨u, hu, hfits⟩ := hbody
      exact ⟨d, u, hd, hu, hfits⟩

theorem function {d : CheckedDecl} (hd : d ∈ p.decls) {ret : Ty} {params : List Ty}
    {names generics : List String} (htype : d.type = .fn ret params names generics) :
    ∃ bound scope u, d.params?.getD [] = bound.map Name.text ∧
      Scope.bindAll ⟨p.globals, [], generics⟩ bound params = .ok scope ∧
      Expr.HasType rule scope d.body u ∧ Ty.Equiv ret u := by
  have hbody := hp.bodies d hd
  rw [CheckedDecl.TypedBy, htype] at hbody
  obtain ⟨bound, scope, u, rfl, hbind, hbody, hfits⟩ := hbody
  have hparams : d.params?.getD [] = bound.map Name.text := by
    rw [CheckedDecl.params?, htype]
    rfl
  exact ⟨bound, scope, u, hparams, hbind, hbody, hfits⟩

end Program.TypedBy

/-- An identifier that no local has. -/
def Expr.NamesGlobal (scope : Scope) (e : Expr) : Prop :=
  ∃ pos name, e = .ident pos name ∧ scope.locals.lookup name = none

/-- A value is a function whose declared type has the arguments in some world, and whose results
there have the property. -/
def Program.Accepts {World : Type} (p : Program) (Member : World → Ty → Value → Prop) (f : Value)
    (args : List Value) (Q : Value → Prop) : Prop :=
  ∃ c ret params names generics w, f = .fn c ∧
    p.typeOf? c = some (.fn ret params names generics) ∧
    List.Forall₂ (Member w) params args ∧ ∀ v, Member w ret v → Q v

/-- Which values each type has. The generics of a type are read in a world. -/
structure TypeModel (p : Program) (rule : CalleeRule) where
  World : Type
  Member : World → Ty → Value → Prop
  int_iff : ∀ {w v}, Member w .int v ↔ ∃ n, v = .int n
  bool_iff : ∀ {w v}, Member w .bool v ↔ ∃ b, v = .bool b
  list_iff : ∀ {w t v}, Member w (.list t) v ↔ ∃ vs, v = .list vs ∧ ∀ x ∈ vs, Member w t x
  tuple_iff : ∀ {w ts v}, Member w (.tuple ts) v ↔
    ∃ vs, v = .tuple vs ∧ List.Forall₂ (Member w) ts vs
  /-- A value of the type found is one of the type expected. -/
  subsume : ∀ {w expected found v}, Ty.Equiv expected found → Member w found v →
    Member w expected v
  function : ∀ {w name ret params names generics},
    p.globals.lookup name = some (.fn ret params names generics) →
      Member w (.fn ret params names generics) (.fn (.ofName name))
  /-- A call without type arguments invokes a function. -/
  invoke : ∀ {w t scope pos ret params f args},
    t.instantiate scope none pos = .ok (ret, params) → Member w t f →
      List.Forall₂ (Member w) params args → p.Accepts Member f args (Member w ret)
  /-- So does one with type arguments, if the callee has its type in every world. With more than one
  world the type is that of a global. -/
  specialize : ∀ {w t scope typeArgs pos ret params f args},
    (Subsingleton World ∨ ∃ name, p.globals.lookup name = some t) →
      t.instantiate scope (some typeArgs) pos = .ok (ret, params) → (∀ w, Member w t f) →
        List.Forall₂ (Member w) params args → p.Accepts Member f args (Member w ret)
  /-- With more than one world only a global takes type arguments. -/
  named : ∀ {scope callee}, rule scope callee → Subsingleton World ∨ callee.NamesGlobal scope

namespace Env

/-- The local names have values, each one that the relation gives to its type, and no other name has
one. -/
def Fits (R : Ty → Value → Prop) (locals : TypeTable) (env : Env) : Prop :=
  ∀ name, Option.Rel R (locals.lookup name) (env.lookup name)

variable {R : Ty → Value → Prop} {scope inner : Scope} {env : Env}

theorem Fits.nil : Fits R [] [] := fun _ => .none

theorem Fits.lookup_some {locals : TypeTable} (h : Fits R locals env) {name : String} {t : Ty}
    (ht : locals.lookup name = some t) : ∃ v, env.lookup name = some v ∧ R t v := by
  have hname := h name
  rw [ht] at hname
  cases hv : env.lookup name with
  | none =>
    rw [hv] at hname
    cases hname
  | some v =>
    rw [hv] at hname
    cases hname with
    | some hv => exact ⟨v, rfl, hv⟩

theorem Fits.lookup_none {locals : TypeTable} (h : Fits R locals env) {name : String}
    (hnone : locals.lookup name = none) : env.lookup name = none := by
  have hname := h name
  rw [hnone] at hname
  cases hv : env.lookup name with
  | none => rfl
  | some v =>
    rw [hv] at hname
    cases hname

theorem Fits.cons {locals : TypeTable} (h : Fits R locals env) {t : Ty} {v : Value} (hv : R t v)
    (name : String) : Fits R ((name, t) :: locals) ((name, v) :: env) := by
  intro other
  rw [lookup_cons_eq_ite, lookup_cons_eq_ite]
  split
  · exact .some hv
  · exact h other

theorem Fits.bind {name : Name} {t : Ty} {v : Value} (hbind : scope.bind name t = .ok inner)
    (h : Fits R scope.locals env) (hv : R t v) :
    inner.globals = scope.globals ∧ Fits R inner.locals ((name.text, v) :: env) := by
  obtain ⟨_, _, rfl⟩ := Scope.bind_ok hbind
  exact ⟨rfl, h.cons hv name.text⟩

theorem Fits.bindAll {names : List Name} {ts : List Ty} {vs : List Value}
    (hbind : scope.bindAll names ts = .ok inner) (h : Fits R scope.locals env)
    (hvs : List.Forall₂ R ts vs) :
    inner.globals = scope.globals ∧
      Fits R inner.locals (env.extend (names.map Name.text) vs) := by
  induction names generalizing scope ts vs env with
  | nil =>
    rw [Scope.bindAll] at hbind
    cases hbind
    exact ⟨rfl, h⟩
    · simp
  | cons name names ih =>
    cases hvs with
    | nil =>
      rw [Scope.bindAll] at hbind
      cases hbind
      exact ⟨rfl, h⟩
      · simp
    | cons hv hvs =>
      rw [Scope.bindAll, bind_eq_ok] at hbind
      obtain ⟨next, hnext, hbind⟩ := hbind
      obtain ⟨hglobals, h⟩ := h.bind hnext hv
      obtain ⟨hinner, h⟩ := ih hbind h hvs
      exact ⟨hinner.trans hglobals, h⟩

end Env

namespace Ty

variable {R : Ty → Value → Prop}
  (hR : ∀ expected found v, Equiv expected found → R found v → R expected v)
include hR

theorem subsume_all {expected : Ty} {ts : List Ty} {vs : List Value}
    (hfits : ∀ t ∈ ts, Equiv expected t) (hvs : List.Forall₂ R ts vs) :
    ∀ v ∈ vs, R expected v := by
  induction hvs with
  | nil => exact List.forall_mem_nil _
  | cons hv _ ih =>
    obtain ⟨hfit, hfits⟩ := List.forall_mem_cons.1 hfits
    exact List.forall_mem_cons.2 ⟨hR _ _ _ hfit hv, ih hfits⟩

theorem subsume_each {expected found : List Ty} {vs : List Value}
    (hfits : List.Forall₂ Equiv expected found) (hvs : List.Forall₂ R found vs) :
    List.Forall₂ R expected vs := by
  induction hfits generalizing vs with
  | nil =>
    cases hvs
    exact .nil
  | cons hfit _ ih =>
    cases hvs with
    | cons hv hvs => exact .cons (hR _ _ _ hfit hv) (ih hvs)

end Ty

namespace BinaryOp

theorem signature_eq (op : BinaryOp) :
    op.signature = match op.meaning with
      | .arithmetic _ => (.int, .int)
      | .comparison _ => (.int, .bool)
      | .logic _ => (.bool, .bool) := by
  cases op <;> rfl

end BinaryOp

namespace TypeModel

variable {p : Program} {rule : CalleeRule} (M : TypeModel p rule)

def EnvFits (w : M.World) (locals : TypeTable) (env : Env) : Prop :=
  ∀ name, Option.Rel (M.Member w) (locals.lookup name) (env.lookup name)

def Remembers (name : String) (v : Value) : Prop :=
  ∃ t, p.globals.lookup name = some t ∧ ∀ w, M.Member w t v

/-- An evaluation to a value with the property, without a type fault. -/
abbrev Safe {α : Type} (Q : α → Prop) (x : Eval α) : Prop :=
  Eval.Ensures M.Remembers (fun e => ¬ e.IsTypeFault) Q x

variable {M} {w : M.World}

theorem EnvFits.nil (w : M.World) : M.EnvFits w [] [] := Env.Fits.nil

theorem EnvFits.bind {scope inner : Scope} {name : Name} {t : Ty} {v : Value} {env : Env}
    (hbind : scope.bind name t = .ok inner) (h : M.EnvFits w scope.locals env)
    (hv : M.Member w t v) :
    inner.globals = scope.globals ∧ M.EnvFits w inner.locals ((name.text, v) :: env) :=
  Env.Fits.bind hbind h hv

theorem EnvFits.bindAll {scope inner : Scope} {names : List Name} {ts : List Ty}
    {vs : List Value} {env : Env} (hbind : scope.bindAll names ts = .ok inner)
    (h : M.EnvFits w scope.locals env) (hvs : List.Forall₂ (M.Member w) ts vs) :
    inner.globals = scope.globals ∧
      M.EnvFits w inner.locals (env.extend (names.map Name.text) vs) :=
  Env.Fits.bindAll hbind h hvs

theorem member_ofCodes (w : M.World) (codes : List Int64) :
    M.Member w .string (.ofCodes codes) := by
  refine M.list_iff.2 ⟨codes.map .int, rfl, fun v hv => ?_⟩
  obtain ⟨n, _, rfl⟩ := List.mem_map.1 hv
  exact M.int_iff.2 ⟨n, rfl⟩

theorem member_ofText (w : M.World) (s : String) : M.Member w .string (.ofText s) :=
  member_ofCodes w _

theorem member_unit (w : M.World) : M.Member w .unit .unit := M.tuple_iff.2 ⟨[], rfl, .nil⟩

theorem decode_error {vs : List Value} (h : ∀ v ∈ vs, M.Member w .int v) {fault : RuntimeFault}
    (hf : Value.decode vs = .error fault) : ¬ fault.IsTypeFault := by
  induction vs with
  | nil => cases hf
  | cons v vs ih =>
    obtain ⟨hv, hvs⟩ := List.forall_mem_cons.1 h
    obtain ⟨n, rfl⟩ := M.int_iff.1 hv
    rw [Value.decode] at hf
    split at hf
    · cases hf
      exact id
    · cases hd : Value.decode vs with
      | error fault' =>
        rw [hd] at hf
        cases hf
        exact ih hvs hd
      | ok cs =>
        rw [hd] at hf
        cases hf

theorem binary_safe {op : BinaryOp} {l r : Value} (hl : M.Member w op.signature.1 l)
    (hr : M.Member w op.signature.1 r) (pos : Position) :
    M.Safe (M.Member w op.signature.2) (Eval.lift (op.apply l r) pos) := by
  rw [BinaryOp.signature_eq] at hl hr ⊢
  cases hop : op.meaning with
  | arithmetic f =>
    rw [hop] at hl hr
    obtain ⟨a, rfl⟩ := M.int_iff.1 hl
    obtain ⟨b, rfl⟩ := M.int_iff.1 hr
    cases hf : f a b with
    | error fault =>
      have happ : op.apply (.int a) (.int b) = .error fault := by
        simp only [BinaryOp.apply, hop, Value.asInt, hf, bind, Except.bind]
      rw [happ]
      exact .fail (BinaryOp.arithmetic_error hop hf).not_isTypeFault
    | ok n =>
      have happ : op.apply (.int a) (.int b) = .ok (.int n) := by
        simp only [BinaryOp.apply, hop, Value.asInt, hf, bind, Except.bind, pure, Except.pure]
      rw [happ]
      exact .pure (M.int_iff.2 ⟨n, rfl⟩)
  | comparison f =>
    rw [hop] at hl hr
    obtain ⟨a, rfl⟩ := M.int_iff.1 hl
    obtain ⟨b, rfl⟩ := M.int_iff.1 hr
    have happ : op.apply (.int a) (.int b) = .ok (.bool (f a b)) := by
      simp only [BinaryOp.apply, hop, Value.asInt, bind, Except.bind, pure, Except.pure]
    rw [happ]
    exact .pure (M.bool_iff.2 ⟨_, rfl⟩)
  | logic f =>
    rw [hop] at hl hr
    obtain ⟨a, rfl⟩ := M.bool_iff.1 hl
    obtain ⟨b, rfl⟩ := M.bool_iff.1 hr
    have happ : op.apply (.bool a) (.bool b) = .ok (.bool (f a b)) := by
      simp only [BinaryOp.apply, hop, Value.asBool, bind, Except.bind, pure, Except.pure]
    rw [happ]
    exact .pure (M.bool_iff.2 ⟨_, rfl⟩)

theorem unary_safe {op : UnaryOp} {v : Value} (hv : M.Member w op.type v) (pos : Position) :
    M.Safe (M.Member w op.type) (Eval.lift (op.apply v) pos) := by
  cases op with
  | neg =>
    obtain ⟨n, rfl⟩ := M.int_iff.1 hv
    cases hn : Arithmetic.ofInt? (-n.toInt) with
    | none =>
      have happ : UnaryOp.neg.apply (.int n) = .error (.overflow UnaryOp.neg.symbol) := by
        simp only [UnaryOp.apply, Value.asInt, bind, Except.bind, hn]
        rfl
      rw [happ]
      exact .fail id
    | some m =>
      have happ : UnaryOp.neg.apply (.int n) = .ok (.int m) := by
        simp only [UnaryOp.apply, Value.asInt, bind, Except.bind, hn]
        rfl
      rw [happ]
      exact .pure (M.int_iff.2 ⟨m, rfl⟩)
  | not =>
    obtain ⟨b, rfl⟩ := M.bool_iff.1 hv
    exact .pure (M.bool_iff.2 ⟨_, rfl⟩)

theorem builtin_safe {b : Builtin} {ret : Ty} {params : List Ty} {names generics : List String}
    (hb : b.type = .fn ret params names generics) {args : List Value}
    (hargs : List.Forall₂ (M.Member w) params args) (pos : Position) :
    M.Safe (M.Member w ret) (b.call args pos) := by
  cases b <;> cases hb
  case print =>
    cases hargs with
    | cons harg hargs =>
      obtain ⟨codes, rfl, hcodes⟩ := M.list_iff.1 harg
      refine .bind (Q := fun _ => True) ?_ fun text _ => ?_
      · exact .lift (fun _ _ => trivial) fun fault hf => decode_error hcodes hf
      · exact .bind (.print _ fun _ => id) fun _ _ => .pure (member_unit w)
  case input =>
    refine .bind (.readLine fun _ => id) fun line? _ => ?_
    split
    · exact .pure (member_ofText w _)
    · exact .fail id
  case rand =>
    cases hargs with
    | cons harg hargs =>
      obtain ⟨bound, rfl⟩ := M.int_iff.1 harg
      simp only [Builtin.call, List.headD_cons]
      split
      · exact .bind (.rand bound) fun n _ => .pure (M.int_iff.2 ⟨n, rfl⟩)
      · exact .fail id

theorem all_safe {scope : Scope} {eval : Expr → Eval Value} {es : List Expr} {ts : List Ty}
    (hes : Expr.HasTypes rule scope es ts)
    (h : ∀ e t, Expr.HasType rule scope e t → M.Safe (M.Member w t) (eval e)) :
    M.Safe (List.Forall₂ (M.Member w) ts) (Program.evalAll eval es) := by
  induction es generalizing ts with
  | nil =>
    cases hes
    exact .pure .nil
  | cons e es ih =>
    cases hes with
    | more he hes =>
      refine .bind (h e _ he) fun v hv => ?_
      exact .bind (ih hes) fun vs hvs => .pure (.cons hv hvs)

theorem eval_ident_of_lookup_eq_none {n : Nat} {env : Env} {name : String}
    (h : env.lookup name = none) (pos : Position) :
    p.eval n env (.ident pos name) = p.eval n [] (.ident pos name) := by
  cases n with
  | zero => rfl
  | succ n =>
    simp only [Program.eval, Program.evalStep, h, List.lookup_nil]

theorem declared_safe {label : String} {d : CheckedDecl} (h : p.find? label = some d)
    (pos : Position) : M.Safe (fun d' => d' = d) (p.declared label pos) := by
  rw [Program.declared, h]
  exact .pure rfl

variable (M) in
/-- Expressions, globals and calls are safe at one level of fuel. -/
structure SafeAt (n : Nat) : Prop where
  eval : ∀ {w scope env e t}, scope.globals = p.globals → Expr.HasType rule scope e t →
    M.EnvFits w scope.locals env → M.Safe (M.Member w t) (p.eval n env e)
  global : ∀ {w name t}, p.globals.lookup name = some t → ∀ pos,
    M.Safe (M.Member w t) (p.global n name pos)
  call : ∀ {w c ret params names generics args},
    p.typeOf? c = some (.fn ret params names generics) → List.Forall₂ (M.Member w) params args →
      ∀ pos, M.Safe (M.Member w ret) (p.call n (.fn c) args pos)

variable {n : Nat}

theorem SafeAt.accepted (h : M.SafeAt n) {f : Value} {args : List Value} {Q : Value → Prop}
    (hf : p.Accepts M.Member f args Q) (pos : Position) : M.Safe Q (p.call n f args pos) := by
  obtain ⟨c, ret, params, names, generics, w, rfl, hc, hargs, hret⟩ := hf
  exact (h.call hc hargs pos).imp hret

/-- A global needs no local values, so that it has its type in every world. -/
theorem SafeAt.callee (h : M.SafeAt n) {scope : Scope} {env : Env} {e : Expr} {t : Ty}
    (hglobals : scope.globals = p.globals) (he : Expr.HasType rule scope e t)
    (henv : M.EnvFits w scope.locals env) (hrule : rule scope e) :
    (Subsingleton M.World ∨ ∃ name, p.globals.lookup name = some t) ∧
      M.Safe (fun f => ∀ w, M.Member w t f) (p.eval n env e) := by
  have : Nonempty M.World := ⟨w⟩
  obtain hone | ⟨pos, name, rfl, hlocal⟩ := M.named hrule
  · refine ⟨.inl hone, .of_forall fun w' => ?_⟩
    rw [hone.elim w' w]
    exact h.eval hglobals he henv
  · cases he with
    | ident hname =>
      rw [Scope.lookup, hlocal, hglobals] at hname
      have hnone := Env.Fits.lookup_none henv hlocal
      refine ⟨.inr ⟨name, hname⟩, .of_forall fun w' => ?_⟩
      rw [eval_ident_of_lookup_eq_none hnone]
      have hname : Scope.lookup ⟨p.globals, [], []⟩ name = some t := hname
      exact h.eval rfl (.ident hname) (EnvFits.nil w')

theorem SafeAt.eval_succ (h : M.SafeAt n) {scope : Scope} {env : Env} {e : Expr} {t : Ty}
    (hglobals : scope.globals = p.globals) (he : Expr.HasType rule scope e t)
    (henv : M.EnvFits w scope.locals env) :
    M.Safe (M.Member w t) (p.eval (n + 1) env e) := by
  have hsub {e : Expr} {t : Ty} (he : Expr.HasType rule scope e t) :
      M.Safe (M.Member w t) (p.eval n env e) := h.eval hglobals he henv
  have hsubsume (expected found : Ty) (v : Value) (hfits : Ty.Equiv expected found)
      (hv : M.Member w found v) : M.Member w expected v := M.subsume hfits hv
  rw [Program.eval]
  cases he with
  | int => exact .pure (M.int_iff.2 ⟨_, rfl⟩)
  | bool => exact .pure (M.bool_iff.2 ⟨_, rfl⟩)
  | str => exact .pure (member_ofCodes w _)
  | @ident _ _ name _ hname =>
    rw [Scope.lookup] at hname
    rw [Program.evalStep]
    cases hl : scope.locals.lookup name with
    | some u =>
      rw [hl] at hname
      cases hname
      obtain ⟨v, hv, hmember⟩ := Env.Fits.lookup_some henv hl
      rw [hv]
      exact .pure hmember
    | none =>
      rw [hl] at hname
      rw [Env.Fits.lookup_none henv hl]
      exact h.global (hglobals ▸ hname) _
  | list hfirst hrest hfits =>
    refine .bind (all_safe (.more hfirst hrest) fun _ _ he => hsub he) fun vs hvs => ?_
    cases hvs with
    | cons hv hvs =>
      have hall := List.forall_mem_cons.2 ⟨hv, Ty.subsume_all hsubsume hfits hvs⟩
      exact .pure (M.list_iff.2 ⟨_, rfl, hall⟩)
  | emptyOf _ => exact .pure (M.list_iff.2 ⟨[], rfl, by simp⟩)
  | tuple hitems =>
    refine .bind (all_safe hitems fun _ _ he => hsub he) fun vs hvs => ?_
    exact .pure (M.tuple_iff.2 ⟨vs, rfl, hvs⟩)
  | @call _ _ _ typeArgs _ _ _ _ _ hcallee hrule hinst hargs hfits =>
    have hargs := all_safe hargs fun _ _ he => hsub he
    cases typeArgs with
    | none =>
      refine .bind (hsub hcallee) fun f hf => ?_
      refine .bind hargs fun vs hvs => ?_
      exact h.accepted (M.invoke hinst hf (Ty.subsume_each hsubsume hfits hvs)) _
    | some typeArgs =>
      obtain ⟨hglobal, hcallee⟩ := h.callee hglobals hcallee henv (hrule rfl)
      refine .bind hcallee fun f hf => ?_
      refine .bind hargs fun vs hvs => ?_
      exact h.accepted (M.specialize hglobal hinst hf (Ty.subsume_each hsubsume hfits hvs)) _
  | cond htest hbool hyes hno hfits =>
    refine .bind (hsub htest) fun v hv => ?_
    obtain ⟨b, rfl⟩ := M.bool_iff.1 (M.subsume hbool hv)
    cases b with
    | true => exact hsub hyes
    | false => exact (hsub hno).imp fun v hv => M.subsume hfits hv
  | unpack hwhole hhead htail hyes hno hfits =>
    refine .bind (hsub hwhole) fun v hv => ?_
    obtain ⟨vs, rfl, hvs⟩ := M.list_iff.1 hv
    cases vs with
    | nil => exact (hsub hno).imp fun v hv => M.subsume hfits hv
    | cons x xs =>
      obtain ⟨hx, hxs⟩ := List.forall_mem_cons.1 hvs
      obtain ⟨hscope₁, henv⟩ := henv.bind hhead hx
      obtain ⟨hscope₂, henv⟩ := henv.bind htail (M.list_iff.2 ⟨xs, rfl, hxs⟩)
      exact h.eval ((hscope₂.trans hscope₁).trans hglobals) hyes henv
  | letName hvalue hbind hbody =>
    refine .bind (hsub hvalue) fun v hv => ?_
    obtain ⟨hinner, henv⟩ := henv.bind hbind hv
    exact h.eval (hinner.trans hglobals) hbody henv
  | letTuple hvalue hlength hbind hbody =>
    refine .bind (hsub hvalue) fun v hv => ?_
    obtain ⟨vs, rfl, hvs⟩ := M.tuple_iff.1 hv
    obtain ⟨hinner, henv⟩ := henv.bindAll hbind hvs
    simp only [← hlength, hvs.length_eq, if_true]
    exact h.eval (hinner.trans hglobals) hbody henv
  | cons htail hhead hfits =>
    refine .bind (hsub htail) fun v hv => ?_
    obtain ⟨vs, rfl, hvs⟩ := M.list_iff.1 hv
    refine .bind (hsub hhead) fun x hx => ?_
    exact .pure (M.list_iff.2 ⟨_, rfl, List.forall_mem_cons.2 ⟨M.subsume hfits hx, hvs⟩⟩)
  | binary hleft hl hright hr =>
    refine .bind (hsub hleft) fun l hl' => ?_
    refine .bind (hsub hright) fun r hr' => ?_
    exact binary_safe (M.subsume hl hl') (M.subsume hr hr') _
  | unary hoperand hfits =>
    refine .bind (hsub hoperand) fun v hv => ?_
    exact unary_safe (M.subsume hfits hv) _

theorem SafeAt.global_succ (hp : p.TypedBy rule) (h : M.SafeAt n) {name : String} {t : Ty}
    (hname : p.globals.lookup name = some t) (pos : Position) :
    M.Safe (M.Member w t) (p.global (n + 1) name pos) := by
  rw [Program.global]
  refine .bind (.slot? name) fun slot hslot => ?_
  split
  · rename_i v
    obtain ⟨t', ht', hv⟩ := hslot v rfl
    rw [hname] at ht'
    cases ht'
    exact .pure (hv w)
  · exact .fail id
  · rw [hname]
    split
    · rename_i heq
      cases heq
      exact .pure (M.function hname)
    · rename_i hno
      obtain ⟨d, u, hd, hu, hfits⟩ :=
        hp.value hname fun _ _ _ _ h => hno _ _ _ _ (congrArg some h)
      refine .bind (declared_safe hd pos) fun d' hd' => ?_
      subst hd'
      have : Nonempty M.World := ⟨w⟩
      have hvalue : M.Safe (fun v => ∀ w, M.Member w t v) (p.eval n [] d'.body) :=
        .of_forall fun w => (h.eval rfl hu (EnvFits.nil w)).imp fun v hv => M.subsume hfits hv
      exact (hvalue.remember fun v hv => ⟨t, hname, hv⟩).imp fun v hv => hv w

theorem SafeAt.call_succ (hp : p.TypedBy rule) (h : M.SafeAt n) {c : Callable} {ret : Ty}
    {params : List Ty} {names generics : List String} {args : List Value}
    (hc : p.typeOf? c = some (.fn ret params names generics))
    (hargs : List.Forall₂ (M.Member w) params args) (pos : Position) :
    M.Safe (M.Member w ret) (p.call (n + 1) (.fn c) args pos) := by
  cases c with
  | builtin b => exact builtin_safe (Option.some.inj hc) hargs pos
  | global label =>
    obtain ⟨d, hd, htype⟩ := Option.map_eq_some_iff.1 hc
    rw [Program.call]
    refine .bind (declared_safe hd pos) fun d' hd' => ?_
    subst hd'
    obtain ⟨bound, scope, t, hparams, hbind, hbody, hfits⟩ :=
      hp.function (Program.mem_of_find? hd) htype
    obtain ⟨hglobals, henv⟩ := EnvFits.bindAll hbind (EnvFits.nil w) hargs
    rw [hparams]
    exact (h.eval hglobals hbody henv).imp fun v hv => M.subsume hfits hv

variable (M) in
theorem safeAt (hp : p.TypedBy rule) (n : Nat) : M.SafeAt n := by
  induction n with
  | zero =>
    refine ⟨fun _ _ _ => ?_, fun _ _ => ?_, fun _ _ _ => ?_⟩
    · exact .outOfFuel
    · exact .outOfFuel
    · exact .outOfFuel
  | succ n ih => exact ⟨ih.eval_succ, ih.global_succ hp, ih.call_succ hp⟩

theorem start_safe (hp : p.TypedBy rule) (w : M.World) {t : Ty}
    (hmain : p.globals.lookup Program.mainLabel = some t)
    (ht : t.equiv Program.mainType = true) (fuel : Nat) (args : List String) :
    M.Safe (fun _ => True) (p.start fuel args) := by
  have hsafe := M.safeAt hp fuel
  have hinst : Program.mainType.instantiate ⟨[], [], []⟩ none .start =
    .ok (.int, [.list .string]) := rfl
  have hargs : M.Member w (.list .string) (.list (args.map Value.ofText)) := by
    refine M.list_iff.2 ⟨_, rfl, fun v hv => ?_⟩
    obtain ⟨s, _, rfl⟩ := List.mem_map.1 hv
    exact member_ofText w s
  refine .bind (hsafe.global hmain _) fun f (hf : M.Member w t f) => ?_
  have hf : M.Member w Program.mainType f := M.subsume (Ty.equiv_symm ht) hf
  refine .bind (hsafe.accepted (M.invoke hinst hf (.cons hargs .nil)) _) fun v hv => ?_
  obtain ⟨status, rfl⟩ := M.int_iff.1 hv
  exact .pure trivial

theorem run_safe (hp : p.TypedBy rule) (w : M.World) {t : Ty}
    (hmain : p.globals.lookup Program.mainLabel = some t)
    (ht : t.equiv Program.mainType = true) (fuel : Nat) (args : List String) :
    (p.run fuel args).Always fun outcome =>
      ∀ error, outcome = .error error → ¬ error.IsTypeFault := by
  refine (start_safe hp w hmain ht fuel args [] Memo.Holds.nil).bind fun (outcome, m) hr => ?_
  rintro error rfl
  exact hr.1

end TypeModel

end ExprLang
