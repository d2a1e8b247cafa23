import ExprLang.Proofs.Ty.Reading
import ExprLang.Proofs.Typing.Inhabitant
import ExprLang.Proofs.Typing.Scoping

namespace ExprLang

namespace Expr

def isNameIn (labels : List String) : Expr → Bool
  | ident _ name => labels.contains name
  | _ => false

mutual

/-- Whether type arguments are given to the labels only. -/
def instantiatesOnly (labels : List String) : Expr → Bool
  | int _ _ | bool _ _ | str _ _ | ident _ _ | emptyOf _ _ => true
  | list _ items | tuple _ items => allInstantiateOnly labels items
  | call _ callee typeArgs args =>
    (typeArgs.isNone || callee.isNameIn labels) && callee.instantiatesOnly labels &&
      allInstantiateOnly labels args
  | cond _ test yes no =>
    test.instantiatesOnly labels && yes.instantiatesOnly labels && no.instantiatesOnly labels
  | unpack _ _ _ whole yes no =>
    whole.instantiatesOnly labels && yes.instantiatesOnly labels && no.instantiatesOnly labels
  | letName _ _ value body | letTuple _ _ value body =>
    value.instantiatesOnly labels && body.instantiatesOnly labels
  | cons _ head tail => head.instantiatesOnly labels && tail.instantiatesOnly labels
  | binary _ _ left right => left.instantiatesOnly labels && right.instantiatesOnly labels
  | unary _ _ operand => operand.instantiatesOnly labels

def allInstantiateOnly (labels : List String) : List Expr → Bool
  | [] => true
  | e :: es => e.instantiatesOnly labels && allInstantiateOnly labels es

end

end Expr

/-- The labels are globals, and no local has their names. -/
structure Scope.Apart (labels : List String) (scope : Scope) : Prop where
  globals : ∀ label ∈ labels, (scope.globals.lookup label).isSome = true
  locals : ∀ label ∈ labels, scope.locals.lookup label = none

namespace Scope.Apart

variable {labels : List String} {scope inner : Scope}

theorem bind (h : scope.Apart labels) {name : Name} {t : Ty}
    (hbind : scope.bind name t = .ok inner) : inner.Apart labels := by
  obtain ⟨hglobal, _, rfl⟩ := Scope.bind_ok hbind
  refine ⟨h.globals, fun label hlabel => ?_⟩
  rw [lookup_cons_eq_ite]
  split
  · rename_i hname
    have hsome := h.globals label hlabel
    rw [hname, hglobal] at hsome
    cases hsome
  · exact h.locals label hlabel

theorem bindAll (h : scope.Apart labels) {names : List Name} {ts : List Ty}
    (hbind : scope.bindAll names ts = .ok inner) : inner.Apart labels := by
  induction names generalizing scope ts with
  | nil =>
    cases hbind
    exact h
  | cons name names ih =>
    cases ts with
    | nil =>
      cases hbind
      exact h
    | cons t ts =>
      obtain ⟨next, hnext, hbind⟩ := bind_eq_ok.1 hbind
      exact ih (h.bind hnext) hbind

end Scope.Apart

namespace Expr

variable {labels : List String}

mutual

/-- The callees that take type arguments are globals. -/
theorem HasType.namesGlobal {scope : Scope} {t : Ty} (hscope : scope.Apart labels) :
    (e : Expr) → e.instantiatesOnly labels = true → HasType .any scope e t →
      HasType NamesGlobal scope e t
  | int _ _, _, .int => .int
  | bool _ _, _, .bool => .bool
  | str _ _, _, .str => .str
  | ident _ _, _, .ident h => .ident h
  | list _ (first :: rest), hown, .list hfirst hrest hfits => by
    obtain ⟨hown₁, hown₂⟩ := Bool.and_eq_true_iff.1 hown
    exact .list (HasType.namesGlobal hscope first hown₁ hfirst)
      (HasTypes.namesGlobal hscope rest hown₂ hrest) hfits
  | emptyOf _ _, _, .emptyOf h => .emptyOf h
  | tuple _ items, hown, .tuple h => .tuple (HasTypes.namesGlobal hscope items hown h)
  | call _ callee typeArgs args, hown, .call hcallee _ hinst hargs hfits => by
    simp only [instantiatesOnly, Bool.and_eq_true, Bool.or_eq_true] at hown
    obtain ⟨⟨hown, hown₁⟩, hown₂⟩ := hown
    refine .call (HasType.namesGlobal hscope callee hown₁ hcallee) (fun hsome => ?_) hinst
      (HasTypes.namesGlobal hscope args hown₂ hargs) hfits
    obtain hnone | hname := hown
    · cases typeArgs <;> simp_all
    · cases callee with
      | ident pos name =>
        exact ⟨pos, name, rfl, hscope.locals name (by simpa [isNameIn] using hname)⟩
      | _ => cases hname
  | cond _ test yes no, hown, .cond htest hbool hyes hno hfits => by
    simp only [instantiatesOnly, Bool.and_eq_true] at hown
    obtain ⟨⟨hown₁, hown₂⟩, hown₃⟩ := hown
    exact .cond (HasType.namesGlobal hscope test hown₁ htest) hbool
      (HasType.namesGlobal hscope yes hown₂ hyes) (HasType.namesGlobal hscope no hown₃ hno) hfits
  | unpack _ _ _ whole yes no, hown, .unpack hwhole hhead htail hyes hno hfits => by
    simp only [instantiatesOnly, Bool.and_eq_true] at hown
    obtain ⟨⟨hown₁, hown₂⟩, hown₃⟩ := hown
    have hinner := (hscope.bind hhead).bind htail
    exact .unpack (HasType.namesGlobal hscope whole hown₁ hwhole) hhead htail
      (HasType.namesGlobal hinner yes hown₂ hyes) (HasType.namesGlobal hscope no hown₃ hno) hfits
  | letName _ _ value body, hown, .letName hvalue hbind hbody => by
    obtain ⟨hown₁, hown₂⟩ := Bool.and_eq_true_iff.1 hown
    exact .letName (HasType.namesGlobal hscope value hown₁ hvalue) hbind
      (HasType.namesGlobal (hscope.bind hbind) body hown₂ hbody)
  | letTuple _ _ value body, hown, .letTuple hvalue hlength hbind hbody => by
    obtain ⟨hown₁, hown₂⟩ := Bool.and_eq_true_iff.1 hown
    exact .letTuple (HasType.namesGlobal hscope value hown₁ hvalue) hlength hbind
      (HasType.namesGlobal (hscope.bindAll hbind) body hown₂ hbody)
  | cons _ head tail, hown, .cons htail hhead hfits => by
    obtain ⟨hown₁, hown₂⟩ := Bool.and_eq_true_iff.1 hown
    exact .cons (HasType.namesGlobal hscope tail hown₂ htail)
      (HasType.namesGlobal hscope head hown₁ hhead) hfits
  | binary _ _ left right, hown, .binary hleft hl hright hr => by
    obtain ⟨hown₁, hown₂⟩ := Bool.and_eq_true_iff.1 hown
    exact .binary (HasType.namesGlobal hscope left hown₁ hleft) hl
      (HasType.namesGlobal hscope right hown₂ hright) hr
  | unary _ _ operand, hown, .unary hoperand hfits =>
    .unary (HasType.namesGlobal hscope operand hown hoperand) hfits

theorem HasTypes.namesGlobal {scope : Scope} {ts : List Ty} (hscope : scope.Apart labels) :
    (es : List Expr) → allInstantiateOnly labels es = true → HasTypes .any scope es ts →
      HasTypes NamesGlobal scope es ts
  | [], _, .nil => .nil
  | e :: es, hown, .more he hes => by
    obtain ⟨hown₁, hown₂⟩ := Bool.and_eq_true_iff.1 hown
    exact .more (HasType.namesGlobal hscope e hown₁ he) (HasTypes.namesGlobal hscope es hown₂ hes)

end

end Expr

namespace Program

variable {p : Program}

/-- The functions of a type: their declared types read as the type under some valuation. -/
def Instance (p : Program) (t : Ty) (c : Callable) : Prop :=
  ∃ ret params names generics w,
    p.typeOf? c = some (.fn ret params names generics) ∧
      t = (Ty.fn ret params names generics).read w

/-- The values of a type whose generics are read under a valuation. -/
def Denotes (p : Program) (w : Valuation) (t : Ty) (v : Value) : Prop :=
  (t.read w).Contains p.Instance v

theorem forall₂_denotes_iff {w : Valuation} {ts : List Ty} {vs : List Value} :
    List.Forall₂ (p.Denotes w) ts vs ↔
      List.Forall₂ (Ty.Contains p.Instance) (ts.map (Ty.read w)) vs := by
  rw [List.forall₂_map_left_iff]
  rfl

theorem denotes_tuple_iff {w : Valuation} {ts : List Ty} {v : Value} :
    p.Denotes w (.tuple ts) v ↔ ∃ vs, v = .tuple vs ∧ List.Forall₂ (p.Denotes w) ts vs := by
  simp only [Denotes, Ty.read, Ty.readAll_eq_map, Ty.contains_tuple_iff, forall₂_denotes_iff]

theorem Denotes.of_read_eq {w w' : Valuation} {s t : Ty} {v : Value}
    (h : s.read w = t.read w') (hv : p.Denotes w' t v) : p.Denotes w s v := by
  rw [Denotes, h]
  exact hv

/-- A function accepts the arguments of every type that reads as its own. -/
theorem Denotes.accepts {w w' : Valuation} {ret ret' : Ty} {params params' : List Ty}
    {names generics : List String} {f : Value}
    (hf : p.Denotes w' (.fn ret' params' names generics) f) (hret : ret.read w = ret'.read w')
    (hparams : params.map (Ty.read w) = params'.map (Ty.read w')) {args : List Value}
    (hargs : List.Forall₂ (p.Denotes w) params args) :
    p.Accepts p.Denotes f args (p.Denotes w ret) := by
  obtain ⟨c, rfl, declRet, declParams, declNames, declGenerics, w'', hc, hread⟩ :=
    Ty.contains_fn_iff.1 hf
  simp only [Ty.read, Ty.readAll_eq_map, Ty.fn.injEq, and_true] at hread
  refine ⟨c, declRet, declParams, declNames, declGenerics, w'', rfl, hc, ?_, fun v => ?_⟩
  · rw [forall₂_denotes_iff, hparams, hread.2] at hargs
    exact forall₂_denotes_iff.2 hargs
  · exact .of_read_eq (hret.trans hread.1)

def readings (hp : p.Scoped)
    (htable : ∀ name t, p.globals.lookup name = some t → p.typeOf? (.ofName name) = some t) :
    TypeModel p Expr.NamesGlobal where
  World := Valuation
  Member := p.Denotes
  int_iff := Ty.contains_int_iff
  bool_iff := Ty.contains_bool_iff
  list_iff := Ty.contains_list_iff
  tuple_iff := denotes_tuple_iff
  subsume h hv := .of_read_eq (Ty.read_eq_of_equiv h _) hv
  function {w name _ _ _ _} h :=
    Ty.contains_fn_iff.2 ⟨_, rfl, _, _, _, _, w, htable name _ h, rfl⟩
  invoke hinst hf hargs := by
    obtain ⟨fnRet, fnParams, names, generics, rfl, hparts⟩ := Ty.instantiate_eq_ok hinst
    obtain ⟨_, rfl, rfl⟩ | ⟨_, _, hnone, _⟩ := hparts
    · exact hf.accepts rfl rfl hargs
    · cases hnone
  specialize {w _ _ _ _ _ _ _ _} hglobal hinst hf hargs := by
    obtain ⟨fnRet, fnParams, names, generics, rfl, hparts⟩ := Ty.instantiate_eq_ok hinst
    obtain ⟨hsome, _⟩ | ⟨_, resolved, _, _, hlength, hresolved, rfl, rfl⟩ := hparts
    · cases hsome
    obtain hone | ⟨name, hname⟩ := hglobal
    · exact absurd (congrFun (hone.elim (fun _ => .int) fun _ => .bool) "") nofun
    · obtain ⟨hgenerics, hret, hparams⟩ := hp name _ hname
      have hparams := (Ty.allWellScoped_iff _).1 hparams
      have hplain (g : String) (hg : g ∈ generics) : Plain g := (hgenerics g hg).1
      have hreplaces := Substitution.replaces_zip
        ((TypeExpr.resolveAll_length hresolved).trans hlength)
      refine (hf (w.after _)).accepts (Substitution.read_apply w hret hplain hreplaces) ?_ hargs
      rw [List.map_map]
      exact List.map_congr_left fun t ht =>
        Substitution.read_apply w (hparams t ht) hplain hreplaces
  named h := .inr h

section Checked

variable {ds : List Decl}

theorem check_typedBy_namesGlobal (h : check ds = .ok p)
    (hown : ∀ d ∈ ds, d.body.instantiatesOnly (ds.map Decl.label) = true) :
    p.TypedBy Expr.NamesGlobal := by
  have htyped := check_typedBy h
  have hscope (generics : List String) :
      Scope.Apart (ds.map Decl.label) ⟨p.globals, [], generics⟩ :=
    ⟨fun _ => lookup_label h, fun _ _ => rfl⟩
  refine ⟨htyped.table, fun d' hd' => ?_⟩
  obtain ⟨d, hd, _, _, _, hbody⟩ := exists_checksTo h hd'
  have hown := hown d hd
  rw [← hbody] at hown
  have hd' := htyped.bodies d' hd'
  unfold CheckedDecl.TypedBy at hd' ⊢
  split at hd'
  · obtain ⟨bound, scope, t, hnames, hbind, hbody, hfits⟩ := hd'
    have hbody := hbody.namesGlobal ((hscope _).bindAll hbind) d'.body hown
    exact ⟨bound, scope, t, hnames, hbind, hbody, hfits⟩
  · obtain ⟨u, hbody, hfits⟩ := hd'
    exact ⟨u, hbody.namesGlobal (hscope []) d'.body hown, hfits⟩

/-- No run of a checked program ends in a type fault, on any host, when type arguments are given to
declarations by name. -/
theorem run_no_typeFault {source : String} (hsource : Decl.ofSource source = .ok ds)
    (h : check ds = .ok p)
    (hown : ∀ d ∈ ds, d.body.instantiatesOnly (ds.map Decl.label) = true) (fuel : Nat)
    (args : List String) :
    (p.run fuel args).Always fun outcome =>
      ∀ error, outcome = .error error → ¬ error.IsTypeFault := by
  have htyped := check_typedBy_namesGlobal h hown
  obtain ⟨t, hmain, ht⟩ := check_main h
  have hspelled := Decl.ofSource_wellSpelled hsource
  let M := readings (check_scoped h fun d hd => (hspelled d hd).signature) htyped.table
  let w : Valuation := fun _ => .int
  exact M.run_safe htyped w hmain ht fuel args

end Checked

/-- `make` and `keep` declare a generic inside their types, and `over` calls them with a type
argument of the same name. -/
def capturing : String :=
  "first\x7bB, A\x7d(y: B, z: A): B = y\n" ++
    "make\x7bA\x7d(a: A): \x7bB\x7d B(y: B, z: A) = first\n" ++
    "keep\x7bA\x7d(f: \x7bB\x7d B(y: B, z: A), x: A): A = x\n" ++
    "over\x7bB\x7d(x: B): B = keep\x7bB\x7d(make\x7bB\x7d(x), x)\n" ++
    "main(a: [[Int]]): Int = over\x7bInt\x7d(1)\n"

theorem run_no_typeFault_capturing :
    ∃ ds p, Decl.ofSource capturing = .ok ds ∧ check ds = .ok p ∧
      (∀ d ∈ ds, d.body.instantiatesOnly (ds.map Decl.label) = true) ∧
        (p.run 9 []).Always fun outcome =>
          ∀ error, outcome = .error error → ¬ error.IsTypeFault := by
  have hown : ((Decl.ofSource capturing).toOption.map fun ds =>
      ((check ds).toOption.isSome,
        ds.all fun d => d.body.instantiatesOnly (ds.map Decl.label))) = some (true, true) := by
    decide +kernel
  cases hsource : Decl.ofSource capturing with
  | error e =>
    rw [hsource] at hown
    cases hown
  | ok ds =>
    rw [hsource] at hown
    obtain ⟨hchecks, hown⟩ := Prod.mk.inj (Option.some.inj hown)
    have hown := List.all_eq_true.1 hown
    cases hcheck : check ds with
    | error e =>
      rw [hcheck] at hchecks
      cases hchecks
    | ok p => exact ⟨ds, p, rfl, hcheck, hown, run_no_typeFault hsource hcheck hown 9 []⟩

/-- `outer` passes a function of one type on as one for all types, and `use` applies it to a type
that it is not for. -/
def widening : String :=
  "use(g: \x7bA\x7d A(y: A)): Int = g\x7bInt\x7d(3)\n" ++
    "outer\x7bA\x7d(f: A(y: A)): Int = use(f)\n" ++
    "flip(b: Bool): Bool = !b\n" ++
    "main(args: [[Int]]): Int = outer\x7bBool\x7d(flip)\n"

/-- The program is accepted, and its run ends in a type fault. -/
theorem run_widening_typeFault :
    ∃ ds p error, Decl.ofSource widening = .ok ds ∧ check ds = .ok p ∧
      p.run 9 [] = .done (.error error) ∧ error.IsTypeFault := by
  have hrun : ((ofSource? widening).bind fun p => (p.run 9 []).failure?) =
      some (.fault ⟨.typeFault "Bool" "3", ⟨3, 23⟩⟩) := by
    decide +kernel
  obtain ⟨p, hp, hfailure⟩ := Option.bind_eq_some_iff.1 hrun
  obtain ⟨ds, hds, hcheck⟩ := ofSource?_eq_some hp
  exact ⟨ds, p, _, hds, hcheck, Dialogue.eq_done_of_failure? hfailure, trivial⟩

end Program

end ExprLang
