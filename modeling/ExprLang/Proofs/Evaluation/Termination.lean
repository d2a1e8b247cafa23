import ExprLang.Proofs.Evaluation.Total
import Mathlib.Order.WellFoundedSet

namespace ExprLang.Program

open Eval Relation

/-- With enough fuel, every use of a global ends in a total value of its type or in an error. -/
def Settled (p : Program) (gs : List String) (name : String) : Prop :=
  ∀ t, p.globals.lookup name = some t →
    EnoughFuel fun n => ∀ pos, Finishes p.FitsGlobal (p.Total gs t) (p.global n name pos)

/-- With enough fuel, and with total values for the locals, an expression is evaluated to a total
value of the type or to an error. -/
def Evaluates (p : Program) (gs : List String) (scope : Scope) (e : Expr) (t : Ty) : Prop :=
  EnoughFuel fun n => ∀ env : Env, env.Fits (p.Total gs) scope.locals →
    Finishes p.FitsGlobal (p.Total gs t) (p.eval n env e)

variable {ds : List Decl} {p : Program} {gs : List String} {name : String}

theorem evaluates_all {rule : CalleeRule} {scope : Scope} {es : List Expr} {ts : List Ty}
    (h : List.Forall₂ (fun e t => ∃ _ : Expr.HasType rule scope e t,
      scope.globals = p.globals → (∀ x ∈ e.idents, p.Settled gs x) →
        p.Evaluates gs scope e t) es ts)
    (hscope : scope.globals = p.globals) (hidents : ∀ x ∈ Expr.identsAll es, p.Settled gs x) :
    EnoughFuel fun n => ∀ env : Env, env.Fits (p.Total gs) scope.locals →
      Finishes p.FitsGlobal (List.Forall₂ (p.Total gs) ts) (evalAll (p.eval n env) es) := by
  induction h with
  | nil => exact .of_forall fun n env _ => .pure .nil
  | cons he _ ih =>
    obtain ⟨_, he⟩ := he
    obtain ⟨hident, hidents⟩ := List.forall_mem_append.1 hidents
    apply ((he hscope hident).and (ih hidents)).imp
    rintro n ⟨he, hes⟩ env henv
    apply (he env henv).bind
    intro v hv
    apply (hes env henv).bind
    intro vs hvs
    exact .pure (.cons hv hvs)

/-- An expression over settled globals is evaluated. The induction is on the typing derivation: the
type of a callee says that its calls end. -/
theorem evaluates_of_hasType (hp : p.Monomorphic) {rule : CalleeRule} {scope : Scope} {e : Expr}
    {t : Ty} (he : Expr.HasType rule scope e t) (hscope : scope.globals = p.globals)
    (hidents : ∀ x ∈ e.idents, p.Settled gs x) : p.Evaluates gs scope e t := by
  induction he using Expr.HasType.induction with
  | int =>
    apply EnoughFuel.of_succ
    intro n env _
    exact .pure (total_structural.int_iff.2 ⟨_, rfl⟩)
  | bool =>
    apply EnoughFuel.of_succ
    intro n env _
    exact .pure (total_structural.bool_iff.2 ⟨_, rfl⟩)
  | str =>
    apply EnoughFuel.of_succ
    intro n env _
    exact .pure (total_ofCodes _)
  | @ident scope pos name t hname =>
    rw [Scope.lookup] at hname
    cases hl : scope.locals.lookup name with
    | some u =>
      rw [hl] at hname
      cases hname
      apply EnoughFuel.of_succ
      intro n env henv
      obtain ⟨v, hv, htotal⟩ := henv.lookup_some hl
      simp only [Program.eval, evalStep, hv]
      exact .pure htotal
    | none =>
      rw [hl, hscope] at hname
      apply (hidents name List.mem_cons_self t hname).step
      intro n h env henv
      simp only [Program.eval, evalStep, henv.lookup_none hl]
      exact h pos
  | list hfirst _ hfits ihFirst ihRest =>
    apply (evaluates_all (.cons ⟨hfirst, ihFirst⟩ ihRest) hscope hidents).step
    intro n hitems env henv
    rw [Program.eval]
    apply (hitems env henv).bind
    intro vs hvs
    cases hvs with
    | cons hv hvs =>
      have hall := List.forall_mem_cons.2 ⟨hv, Ty.subsume_all Total.of_equiv hfits hvs⟩
      exact .pure (total_structural.list_iff.2 ⟨_, rfl, hall⟩)
  | emptyOf =>
    apply EnoughFuel.of_succ
    intro n env _
    exact .pure (total_structural.list_iff.2 ⟨[], rfl, List.forall_mem_nil _⟩)
  | tuple _ ih =>
    apply (evaluates_all ih hscope hidents).step
    intro n hitems env henv
    rw [Program.eval]
    apply (hitems env henv).bind
    intro vs hvs
    exact .pure (total_structural.tuple_iff.2 ⟨vs, rfl, hvs⟩)
  | @call _ pos _ _ _ _ _ _ _ _ _ hinst _ hfits ihCallee ihArgs =>
    obtain ⟨hcallee, hargs⟩ := List.forall_mem_append.1 hidents
    -- Which function is called is known only with the fuel given, so one bound has to serve all.
    apply ((ihCallee hscope hcallee).and ((evaluates_all ihArgs hscope hargs).and
      (enoughFuel_instantiate hp hinst))).step
    rintro n ⟨hcallee, hargs, hcall⟩ env henv
    rw [Program.eval]
    apply (hcallee env henv).bind
    intro f hf
    apply (hargs env henv).bind
    intro vs hvs
    exact hcall f vs pos hf (Ty.subsume_each Total.of_equiv hfits hvs)
  | cond _ _ _ _ hfits ihTest ihYes ihNo =>
    obtain ⟨htest, hno⟩ := List.forall_mem_append.1 hidents
    obtain ⟨htest, hyes⟩ := List.forall_mem_append.1 htest
    apply ((ihTest hscope htest).and ((ihYes hscope hyes).and (ihNo hscope hno))).step
    rintro n ⟨htest, hyes, hno⟩ env henv
    rw [Program.eval]
    apply (htest env henv).bind
    intro v _
    cases v with
    | bool b =>
      cases b with
      | true => exact hyes env henv
      | false => exact (hno env henv).imp fun v => Total.of_equiv _ _ v hfits
    | _ => exact .mismatch _ _ _
  | unpack _ hhead htail _ _ hfits ihWhole ihYes ihNo =>
    obtain ⟨hwhole, hno⟩ := List.forall_mem_append.1 hidents
    obtain ⟨hwhole, hyes⟩ := List.forall_mem_append.1 hwhole
    obtain ⟨_, _, rfl⟩ := Scope.bind_ok hhead
    obtain ⟨_, _, rfl⟩ := Scope.bind_ok htail
    apply ((ihWhole hscope hwhole).and ((ihYes hscope hyes).and (ihNo hscope hno))).step
    rintro n ⟨hwhole, hyes, hno⟩ env henv
    rw [Program.eval]
    apply (hwhole env henv).bind
    intro v hv
    obtain ⟨vs, rfl, hvs⟩ := total_structural.list_iff.1 hv
    cases vs with
    | nil => exact (hno env henv).imp fun v => Total.of_equiv _ _ v hfits
    | cons x xs =>
      obtain ⟨hx, hxs⟩ := List.forall_mem_cons.1 hvs
      exact hyes _ ((henv.cons hx _).cons (total_structural.list_iff.2 ⟨xs, rfl, hxs⟩) _)
  | letName _ hbind _ ihValue ihBody =>
    obtain ⟨hvalue, hbody⟩ := List.forall_mem_append.1 hidents
    obtain ⟨_, _, rfl⟩ := Scope.bind_ok hbind
    apply ((ihValue hscope hvalue).and (ihBody hscope hbody)).step
    rintro n ⟨hvalue, hbody⟩ env henv
    rw [Program.eval]
    apply (hvalue env henv).bind
    intro v hv
    exact hbody _ (henv.cons hv _)
  | letTuple _ hlength hbind _ ihValue ihBody =>
    obtain ⟨hvalue, hbody⟩ := List.forall_mem_append.1 hidents
    have hinner := congrArg Scope.globals (Scope.bindAll_ok hbind)
    apply ((ihValue hscope hvalue).and (ihBody (hinner.trans hscope) hbody)).step
    rintro n ⟨hvalue, hbody⟩ env henv
    rw [Program.eval]
    apply (hvalue env henv).bind
    intro v hv
    obtain ⟨vs, rfl, hvs⟩ := total_structural.tuple_iff.1 hv
    simp only [← hlength, hvs.length_eq, if_true]
    exact hbody _ (henv.bindAll hbind hvs).2
  | cons _ _ hfits ihTail ihHead =>
    obtain ⟨hhead, htail⟩ := List.forall_mem_append.1 hidents
    apply ((ihTail hscope htail).and (ihHead hscope hhead)).step
    rintro n ⟨htail, hhead⟩ env henv
    rw [Program.eval]
    apply (htail env henv).bind
    intro v hv
    obtain ⟨vs, rfl, hvs⟩ := total_structural.list_iff.1 hv
    apply (hhead env henv).bind
    intro x hx
    have hall := List.forall_mem_cons.2 ⟨Total.of_equiv _ _ x hfits hx, hvs⟩
    exact .pure (total_structural.list_iff.2 ⟨_, rfl, hall⟩)
  | binary _ _ _ _ ihLeft ihRight =>
    obtain ⟨hleft, hright⟩ := List.forall_mem_append.1 hidents
    apply ((ihLeft hscope hleft).and (ihRight hscope hright)).step
    rintro n ⟨hleft, hright⟩ env henv
    rw [Program.eval]
    apply (hleft env henv).bind
    intro l _
    apply (hright env henv).bind
    intro r _
    exact .lift fun v hv => total_binary hv
  | unary _ _ ih =>
    apply (ih hscope hidents).step
    intro n hoperand env henv
    rw [Program.eval]
    apply (hoperand env henv).bind
    intro v _
    exact .lift fun v hv => total_unary hv

theorem Settled.total {ret : Ty} {params : List Ty} {names generics : List String}
    (h : p.Settled gs name) (hname : p.globals.lookup name = some (.fn ret params names generics)) :
    p.Total gs (.fn ret params names generics) (.fn (.ofName name)) := by
  obtain ⟨bound, h⟩ := h _ hname
  have hends := h (bound + 1) (Nat.le_succ bound) .start [] .nil
  rw [Program.global, slot?_bind] at hends
  simp only [List.lookup_nil, hname] at hends
  exact hends.1

theorem Settled.total_global {d : CheckedDecl} {ret : Ty} {params : List Ty}
    {names generics : List String} (h : p.Settled gs name) (hcheck : check ds = .ok p)
    (hd : p.find? name = some d) (herase : d.type.erase = (Ty.fn ret params names generics).erase) :
    p.Total gs (.fn ret params names generics) (.fn (.global name)) := by
  obtain ⟨hlookup, hhost⟩ := lookup_of_find? hcheck hd
  cases htype : d.type with
  | fn declRet declParams declNames declGenerics =>
    rw [htype] at hlookup herase
    have htotal := h.total hlookup
    rw [Callable.ofName, hhost] at htotal
    exact htotal.of_erase_eq herase.symm
  | _ =>
    rw [htype] at herase
    cases herase

theorem total_declared (hp : p.Monomorphic) (htyped : p.TypedBy .any) {d : CheckedDecl}
    (hd : p.find? name = some d) {ret : Ty} {params : List Ty} {names generics : List String}
    (htype : d.type = .fn ret params names generics) (hled : p.LedToFunction gs (.global name))
    (hidents : ∀ x ∈ d.body.idents, p.Settled gs x) : p.Total gs d.type (.fn (.global name)) := by
  obtain ⟨bound, scope, t, hparams, hbind, hbody, hfits⟩ :=
    htyped.function (mem_of_find? hd) htype
  have hscope := congrArg Scope.globals (Scope.bindAll_ok hbind)
  have hreaches : p.Reaches gs d.type (.global name) := by
    rw [Reaches, typeOf?, hd]
    exact ⟨rfl, hled⟩
  rw [htype] at hreaches ⊢
  apply total_fn_iff.2 ⟨_, rfl, hreaches, _⟩
  apply (evaluates_of_hasType hp hbody hscope hidents).step
  intro n h args pos hargs
  have henv := (Env.Fits.bindAll hbind Env.Fits.nil hargs).2
  rw [← hparams] at henv
  simp only [Program.call, callStep, declared, hd]
  exact (h _ henv).imp fun v => Total.of_equiv _ _ v hfits

section Below

variable (hcheck : check ds = .ok p)
  (hbelow : ∀ x, TransGen p.Refers name x → ∀ gs, p.LedTo gs x → p.Settled gs x)
include hcheck hbelow

/-- A value that a global may have is total if all that the global leads to is settled. -/
theorem total_of_fitsGlobal {t : Ty} (hname : p.globals.lookup name = some t)
    (hled : p.LedTo gs name) {v : Value} (hv : p.FitsGlobal name v) : p.Total gs t v := by
  obtain ⟨t', ht', hv⟩ := hv
  cases hname.symm.trans ht'
  have hsome : (p.globals.lookup name).isSome = true := by
    rw [hname]
    rfl
  apply Ty.contains_structural.imp total_structural _ hv
  intro u c hc
  cases u with
  | fn ret params names generics =>
    obtain ⟨_, ⟨⟩, htype, hc⟩ := Ty.contains_fn_iff.1 hc
    cases c with
    | builtin b => exact (total_builtin b).of_erase_eq (Option.some.inj htype).symm
    | global label =>
      rw [typeOf?, Option.map_map] at htype
      obtain ⟨d, hd, herase⟩ := Option.map_eq_some_iff.1 htype
      have hlabel := isSome_lookup_of_find? hcheck hd
      have hleads : TransGen p.Refers name label := hc hlabel name List.mem_cons_self
      have hsettled := hbelow label hleads gs fun _ g hg => (hled hsome g hg).trans hleads
      exact hsettled.total_global hcheck hd herase
  | _ => cases hc

theorem settled_of_mem_idents {d : CheckedDecl} (hd : p.find? name = some d) {x : String}
    (hx : x ∈ d.body.idents) (hled : p.LedTo gs x) : p.Settled gs x := by
  intro t ht
  obtain ⟨hmem, hlabel⟩ := (find?_eq_some_iff hcheck).1 hd
  have hglobal : (p.globals.lookup x).isSome = true := by
    rw [ht]
    rfl
  exact hbelow x (.single ⟨⟨d, hmem, hlabel, hx⟩, hglobal⟩) gs hled t ht

theorem total_function (hp : p.Monomorphic) {ret : Ty} {params : List Ty}
    {names generics : List String}
    (hname : p.globals.lookup name = some (.fn ret params names generics))
    (hled : p.LedTo gs name) : p.Total gs (.fn ret params names generics) (.fn (.ofName name)) := by
  have htyped := check_typedBy hcheck
  have htype := htyped.table name _ hname
  cases hb : Builtin.ofName? name with
  | some b =>
    rw [Callable.ofName, hb] at htype ⊢
    rw [← Option.some.inj htype]
    exact total_builtin b
  | none =>
    rw [Callable.ofName, hb] at htype ⊢
    obtain ⟨d, hd, htype⟩ := Option.map_eq_some_iff.1 htype
    obtain ⟨hmem, hlabel⟩ := (find?_eq_some_iff hcheck).1 hd
    rw [← htype]
    apply total_declared hp htyped hd htype hled
    intro x hx
    have hglobal := isSome_lookup_of_find? hcheck hd
    exact settled_of_mem_idents hcheck hbelow hd hx (hled.body hglobal hmem hlabel hx)

/-- The body of a value global is evaluated for that global alone: its functions are then known to
be ones that the global leads to. -/
theorem enoughFuel_remember (hp : p.Monomorphic) {t : Ty} (hname : p.globals.lookup name = some t)
    (hno : ∀ ret params names generics, t ≠ .fn ret params names generics) :
    EnoughFuel fun n => ∀ pos, Finishes p.FitsGlobal (p.FitsGlobal name)
      (p.declared name pos >>= fun d => remember name (p.eval n [] d.body)) := by
  obtain ⟨d, u, hd, hbody, hfits⟩ := (check_typedBy hcheck).value hname hno
  obtain ⟨hmem, hlabel⟩ := (find?_eq_some_iff hcheck).1 hd
  have hglobal := isSome_lookup_of_find? hcheck hd
  have hled : p.LedTo [] name := fun _ => List.forall_mem_nil _
  have hidents : ∀ x ∈ d.body.idents, p.Settled [name] x := fun x hx =>
    settled_of_mem_idents hcheck hbelow hd hx (hled.cons_body hglobal hmem hlabel hx)
  apply (evaluates_of_hasType hp hbody rfl hidents).imp
  intro n h pos
  have hvalue : Finishes p.FitsGlobal (p.FitsGlobal name) (p.eval n [] d.body) :=
    (h [] Env.Fits.nil).imp fun v hv => ⟨t, hname, (Total.of_equiv _ _ v hfits hv).contains⟩
  simp only [declared, hd]
  exact hvalue.remember fun v hv => hv

theorem settled_of_below (hp : p.Monomorphic) (hled : p.LedTo gs name) : p.Settled gs name := by
  intro t hname
  have hvalue (v : Value) (hv : p.FitsGlobal name v) : p.Total gs t v :=
    total_of_fitsGlobal hcheck hbelow hname hled hv
  have hcompute : EnoughFuel fun n =>
      (∀ ret params names generics, t ≠ .fn ret params names generics) → ∀ pos,
        Finishes p.FitsGlobal (p.Total gs t)
          (p.declared name pos >>= fun d => remember name (p.eval n [] d.body)) := by
    by_cases hno : ∀ ret params names generics, t ≠ .fn ret params names generics
    · apply (enoughFuel_remember hcheck hbelow hp hname hno).imp
      exact fun n h _ pos => (h pos).imp hvalue
    · exact .of_forall fun n h => (hno h).elim
  apply hcompute.step
  intro n hcompute pos
  rw [Program.global]
  apply (Finishes.slot? name).bind
  intro slot hslot
  -- Remembered, in computation, or new: then a function stands for itself.
  split
  · rename_i v
    exact .pure (hvalue v (hslot v rfl))
  · exact .fail _ _
  · rw [hname]
    split
    · rename_i heq
      cases heq
      exact .pure (total_function hcheck hbelow hp hname hled)
    · rename_i hno
      exact hcompute (fun _ _ _ _ h => hno _ _ _ _ (congrArg some h)) pos

end Below

/-- Without cycles all globals are settled. The induction is on what a global leads to, which is a
well-founded order on the finitely many globals. -/
theorem settled_of_acyclic (hcheck : check ds = .ok p) (hp : p.Monomorphic)
    (hacyclic : ∀ name, ¬ TransGen p.Refers name name) (hled : p.LedTo gs name) :
    p.Settled gs name := by
  have hglobal {x : String} (hx : (p.globals.lookup x).isSome = true) :
      x ∈ p.globals.map Prod.fst := by
    by_contra hno
    rw [(lookup_eq_none_iff _ _).2 hno] at hx
    cases hx
  have : IsStrictOrder String fun x y => TransGen p.Refers y x :=
    { irrefl := hacyclic, trans := fun _ _ _ h h' => h'.trans h }
  have hwf := (p.globals.map Prod.fst).finite_toSet.wellFoundedOn
    (r := fun x y => TransGen p.Refers y x)
  intro t hname
  have hmem : name ∈ p.globals.map Prod.fst := by
    apply hglobal
    rw [hname]
    rfl
  revert gs t
  apply hwf.induction hmem
  intro x _ ih gs hled
  apply settled_of_below hcheck _ hp hled
  intro y hy gs hled
  have hy' : (p.globals.lookup y).isSome = true := by
    cases hy with
    | single h => exact h.2
    | tail _ h => exact h.2
  exact ih y (hglobal hy') hy hled

/-- In a checked program that declares no generics, and in which no body leads back to itself, there
is fuel that is enough for every run: it ends in a status or an error, for all arguments and
whatever the host answers. -/
theorem run_terminates (hcheck : check ds = .ok p)
    (hmono : ∀ d ∈ ds, d.signature.declaresGenerics = false)
    (hacyclic : ∀ name, ¬ TransGen p.Refers name name) :
    ∃ bound, ∀ fuel, bound ≤ fuel → ∀ args, (p.run fuel args).Always fun outcome =>
      (∃ status, outcome = .value status) ∨ ∃ error, outcome = .error error := by
  have hp := check_monomorphic hcheck hmono
  obtain ⟨t, hmain, ht⟩ := check_main hcheck
  have hled : p.LedTo [] mainLabel := fun _ => List.forall_mem_nil _
  have hsettled := settled_of_acyclic hcheck hp hacyclic hled t hmain
  obtain ⟨bound, hends⟩ := hsettled.and (enoughFuel_call p [] .int [.list .string] ["args"] [])
  apply Exists.intro bound
  intro fuel hfuel args
  obtain ⟨hglobal, hcall⟩ := hends fuel hfuel
  have hargs : p.Total [] (.list .string) (.list (args.map Value.ofText)) := by
    apply total_structural.list_iff.2 ⟨_, rfl, _⟩
    intro v hv
    obtain ⟨s, _, rfl⟩ := List.mem_map.1 hv
    exact total_ofCodes _
  have hstart : Finishes p.FitsGlobal (fun _ => True) (p.start fuel args) := by
    apply (hglobal p.mainPos).bind
    intro f hf
    have hf : p.Total [] mainType f := Total.of_equiv _ _ f (Ty.equiv_symm ht) hf
    apply (hcall f _ p.mainPos hf (.cons hargs .nil)).bind
    intro v hv
    obtain ⟨status, rfl⟩ := total_structural.int_iff.1 hv
    exact .pure trivial
  apply (hstart [] .nil).bind
  rintro ⟨outcome, m⟩ ⟨hr, _⟩
  cases outcome with
  | value status => exact .inl ⟨status, rfl⟩
  | error e => exact .inr ⟨e, rfl⟩
  | outOfFuel => exact hr.elim

/-- The number of globals that stand before a name in the table. -/
def rank (p : Program) (name : String) : Nat := (p.globals.map Prod.fst).idxOf name

/-- Every body refers only to globals that stand before its own. -/
def inOrder (p : Program) : Bool :=
  p.decls.all fun d => d.body.idents.all fun x =>
    (p.globals.lookup x).isNone || decide (p.rank x < p.rank d.label)

theorem acyclic_of_inOrder (h : p.inOrder = true) (name : String) :
    ¬ TransGen p.Refers name name := by
  simp only [inOrder, List.all_eq_true, Bool.or_eq_true, decide_eq_true_eq] at h
  have hstep {g x : String} (hrefers : p.Refers g x) : p.rank x < p.rank g := by
    obtain ⟨⟨d, hd, rfl, hx⟩, hglobal⟩ := hrefers
    rcases h d hd x hx with hnone | hlt
    · rw [Option.isNone_iff_eq_none.1 hnone] at hglobal
      cases hglobal
    · exact hlt
  have hreach {x : String} (hx : TransGen p.Refers name x) : p.rank x < p.rank name := by
    induction hx with
    | single hrefers => exact hstep hrefers
    | tail _ hrefers ih => exact (hstep hrefers).trans ih
  exact fun hcycle => Nat.lt_irrefl _ (hreach hcycle)

/-- `main` takes from a list a function that calls `twice`, and calls `twice` with it. -/
def layered : String :=
  "double(n: Int): Int = n + n\n" ++
    "twice(f: Int(n: Int), n: Int): Int = f(f(n))\n" ++
    "quad(n: Int): Int = twice(double, n)\n" ++
    "fs: [Int(n: Int)] = [quad, rand]\n" ++
    "main(args: [[Int]]): Int = if (f ~ t) <- fs then twice(f, 3) else 0\n"

theorem run_terminates_layered :
    ∃ ds p, Decl.ofSource layered = .ok ds ∧ check ds = .ok p ∧
      (∀ d ∈ ds, d.signature.declaresGenerics = false) ∧
      (∀ name, ¬ TransGen p.Refers name name) ∧
      ∃ bound, ∀ fuel, bound ≤ fuel → ∀ args, (p.run fuel args).Always fun outcome =>
        (∃ status, outcome = .value status) ∨ ∃ error, outcome = .error error := by
  have hchecks : ((Decl.ofSource layered).toOption.bind fun ds =>
      (check ds).toOption.map fun p =>
        (ds.all fun d => !d.signature.declaresGenerics) && p.inOrder) = some true := by
    decide +kernel
  obtain ⟨ds, hds, hchecks⟩ := Option.bind_eq_some_iff.1 hchecks
  obtain ⟨p, hp, hchecks⟩ := Option.map_eq_some_iff.1 hchecks
  obtain ⟨hmono, horder⟩ := Bool.and_eq_true_iff.1 hchecks
  have hmono : ∀ d ∈ ds, d.signature.declaresGenerics = false := by
    simpa using hmono
  have hp := eq_ok_of_toOption hp
  have hacyclic := acyclic_of_inOrder horder
  exact ⟨ds, p, eq_ok_of_toOption hds, hp, hmono, hacyclic, run_terminates hp hmono hacyclic⟩

end ExprLang.Program
