import ExprLang.Proofs.Printing.TypeText
import ExprLang.Proofs.Typing.Checked

namespace ExprLang

def TypingFault.mismatch? : TypingFault → Option (Ty × Ty)
  | typeMismatch first second | branchMismatch first second => some (first, second)
  | _ => none

/-- The two types that the checker shows as not matching, if that is its answer. -/
def Typing.mismatch? {α : Type} : Except TypingError α → Option (Ty × Ty)
  | .ok _ => none
  | .error e => e.cause.mismatch?

/-- The checker gives a value with the property, or else shows no types as not matching but legible
ones of different structure. -/
def Typing.Shows {α : Type} (Q : α → Prop) : Except TypingError α → Prop
  | .ok a => Q a
  | .error e => ∀ first second, e.cause.mismatch? = some (first, second) →
    first.Legible ∧ second.Legible ∧ first.equiv second = false

namespace Typing.Shows

variable {α β : Type} {Q : α → Prop} {R : β → Prop}

theorem ok {a : α} (h : Q a) : Shows Q (.ok a) := h

theorem error {fault : TypingFault} {pos : Position} (h : fault.mismatch? = none) :
    Shows Q (.error ⟨fault, pos⟩) := by
  intro first second hshown
  cases h.symm.trans hshown

theorem mismatch {fault : TypingFault} {pos : Position} {first second : Ty}
    (hshown : fault.mismatch? = some (first, second)) (hfirst : first.Legible)
    (hsecond : second.Legible) (hne : ¬ first.equiv second = true) :
    Shows Q (.error ⟨fault, pos⟩) := by
  intro first' second' hshown'
  cases hshown.symm.trans hshown'
  exact ⟨hfirst, hsecond, Bool.eq_false_iff.2 hne⟩

theorem text_ne {x : Except TypingError α} (h : Shows Q x) {first second : Ty}
    (hshown : mismatch? x = some (first, second)) : first.text ≠ second.text := by
  cases x with
  | ok a => cases hshown
  | error e =>
    obtain ⟨hfirst, hsecond, hne⟩ := h first second hshown
    intro htext
    exact absurd (hfirst.equiv_of_text_eq hsecond htext) (ne_true_of_eq_false hne)

theorem bind {x : Except TypingError α} {k : α → Except TypingError β} (hx : Shows Q x)
    (hk : ∀ a, Q a → Shows R (k a)) : Shows R (x >>= k) := by
  cases x with
  | ok a => exact hk a hx
  | error e => exact hx

theorem ite {c : Prop} [Decidable c] {x y : Except TypingError α} (hyes : c → Shows Q x)
    (hno : ¬ c → Shows Q y) : Shows Q (if c then x else y) := by
  split
  · rename_i hc
    exact hyes hc
  · rename_i hc
    exact hno hc

end Typing.Shows

open Typing

structure Scope.Legible (scope : Scope) : Prop where
  globals : ∀ e ∈ scope.globals, e.2.Legible
  locals : ∀ e ∈ scope.locals, e.2.Legible

namespace Scope

variable {scope : Scope}

theorem Legible.lookup (h : scope.Legible) {name : String} {t : Ty}
    (ht : scope.lookup name = some t) : t.Legible := by
  rw [Scope.lookup] at ht
  split at ht
  · rename_i hlocal
    cases ht
    exact h.locals _ (Substitution.mem_of_lookup hlocal)
  · exact h.globals _ (Substitution.mem_of_lookup ht)

theorem bind_shows (h : scope.Legible) (name : Name) {t : Ty} (ht : t.Legible) :
    Shows Legible (scope.bind name t) := by
  apply Shows.ite
  · exact fun _ => .error rfl
  intro _
  apply Shows.ite
  · exact fun _ => .error rfl
  · exact fun _ => .ok ⟨h.globals, List.forall_mem_cons.2 ⟨ht, h.locals⟩⟩

theorem bindAll_shows (h : scope.Legible) (names : List Name) {ts : List Ty}
    (hts : Ty.AllLegible ts) : Shows Legible (scope.bindAll names ts) := by
  induction names generalizing scope ts with
  | nil => exact .ok h
  | cons name names ih =>
    cases ts with
    | nil => exact .ok h
    | cons t ts => exact (bind_shows h name hts.1).bind fun inner hinner => ih hinner hts.2

end Scope

namespace TypeExpr

theorem declareGenerics_shows (allowed : List String) (gs : List Name) :
    Shows (fun _ => True) (declareGenerics allowed gs) := by
  induction gs generalizing allowed with
  | nil => exact .ok trivial
  | cons g gs ih =>
    rw [declareGenerics]
    exact .ite (fun _ => .error rfl) fun _ => ih _

mutual

theorem resolve_shows (allowed : List String) : (t : TypeExpr) → t.WellSpelled →
    Shows Ty.Legible (t.resolve allowed)
  | int _, _ => .ok trivial
  | bool _, _ => .ok trivial
  | list _ element, h => (resolve_shows allowed element h).bind fun _ ht => .ok ht
  | tuple _ items, h => (resolveAll_shows allowed items h).bind fun _ hts => .ok hts
  | generic pos name, h => by
    rw [resolve]
    exact .ite (fun _ => .ok ⟨h.1.isPrimedWord, h.2⟩) fun _ => .error rfl
  | fn _ generics params ret, h => by
    obtain ⟨hgenerics, hparams, hret⟩ := h
    have hnames : ∀ name ∈ params.map fun p => p.1.text, IsPrimedWord name :=
      List.forall_mem_map.2 fun p hp => (paramsWellSpelled_iff.1 hparams p hp).1.isPrimedWord
    have hdeclared : ∀ g ∈ generics.map Name.text, IsPrimedWord g :=
      List.forall_mem_map.2 fun g hg => (hgenerics g hg).isPrimedWord
    rw [resolve]
    apply (declareGenerics_shows allowed generics).bind
    intro inner _
    apply (resolveParams_shows inner params hparams).bind
    intro ps hps
    apply (resolve_shows inner ret hret).bind
    intro r hr
    have hlength : (params.map fun p => p.1.text).length = ps.length := by
      rw [List.length_map, hps.1]
    exact .ok ⟨hlength, hnames, hdeclared, hr, hps.2⟩

theorem resolveAll_shows (allowed : List String) : (ts : List TypeExpr) → AllWellSpelled ts →
    Shows Ty.AllLegible (resolveAll allowed ts)
  | [], _ => .ok trivial
  | t :: ts, h =>
    (resolve_shows allowed t h.1).bind fun _ ht =>
      (resolveAll_shows allowed ts h.2).bind fun _ hts => .ok ⟨ht, hts⟩

theorem resolveParams_shows (allowed : List String) : (params : List (Name × TypeExpr)) →
    ParamsWellSpelled params →
    Shows (fun ts => ts.length = params.length ∧ Ty.AllLegible ts) (resolveParams allowed params)
  | [], _ => .ok ⟨rfl, trivial⟩
  | (_, t) :: params, h =>
    (resolve_shows allowed t h.1.2).bind fun _ ht =>
      (resolveParams_shows allowed params h.2).bind fun _ hts =>
        .ok ⟨congrArg Nat.succ hts.1, ht, hts.2⟩

end

end TypeExpr

namespace Ty

theorem demand_shows {expected found : Ty} (he : expected.Legible) (hf : found.Legible)
    (pos : Position) : Shows (fun _ => True) (demand expected found pos) :=
  .ite (fun _ => .ok trivial) fun h => .mismatch rfl he hf h

theorem instantiate_shows {scope : Scope} {callee : Ty} (h : callee.Legible)
    {typeArgs : Option (List TypeExpr)}
    (hargs : ∀ args, typeArgs = some args → TypeExpr.AllWellSpelled args) (pos : Position) :
    Shows (fun r : Ty × List Ty => r.1.Legible ∧ AllLegible r.2)
      (instantiate scope callee typeArgs pos) := by
  cases callee with
  | fn ret params names generics =>
    obtain ⟨-, -, -, hret, hparams⟩ := h
    unfold instantiate
    dsimp only
    cases generics.isEmpty with
    | true =>
      cases typeArgs with
      | none => exact .ok ⟨hret, hparams⟩
      | some _ => exact .error rfl
    | false =>
      cases typeArgs with
      | none => exact .error rfl
      | some args =>
        apply Shows.ite
        · intro _
          apply (TypeExpr.resolveAll_shows _ args (hargs args rfl)).bind
          intro resolved hresolved
          have hentries : ∀ e ∈ (Substitution.ofList (generics.zip resolved)).entries,
              e.2.Legible := by
            intro e he
            have hzip := Substitution.mem_of_mem_ofList he
            exact allLegible_iff.1 hresolved e.2 (List.of_mem_zip hzip).2
          apply Shows.ok
          constructor
          · exact Substitution.apply_legible hentries hret
          · exact allLegible_iff.2 (List.forall_mem_map.2 fun t ht =>
              Substitution.apply_legible hentries (allLegible_iff.1 hparams t ht))
        · exact fun _ => .error rfl
  | bool | int | list | tuple | generic => exact .error rfl

end Ty

theorem BinaryOp.legible_signature (op : BinaryOp) :
    op.signature.1.Legible ∧ op.signature.2.Legible := by
  cases op <;> exact ⟨trivial, trivial⟩

theorem UnaryOp.legible_type (op : UnaryOp) : op.type.Legible := by
  cases op <;> exact trivial

namespace Expr

theorem branches_shows {yes no : Ty} (hyes : yes.Legible) (hno : no.Legible) (pos : Position) :
    Shows Ty.Legible (if yes.equiv no then .ok yes else .error ⟨.branchMismatch yes no, pos⟩) :=
  .ite (fun _ => .ok hyes) fun h => .mismatch rfl hyes hno h

mutual

theorem infer_shows {scope : Scope} (hscope : scope.Legible) : (e : Expr) → e.WellSpelled →
    Shows Ty.Legible (e.infer scope)
  | int _ _, _ => .ok trivial
  | bool _ _, _ => .ok trivial
  | str _ _, _ => .ok trivial
  | ident pos name, _ => by
    rw [infer]
    split
    · rename_i t ht
      exact .ok (hscope.lookup ht)
    · exact .error rfl
  | list pos [], _ => .error rfl
  | list _ (first :: rest), h =>
    (infer_shows hscope first h.1).bind fun _ ht =>
      (checkAll_shows hscope ht rest h.2).bind fun _ _ => .ok ht
  | emptyOf _ element, h =>
    (TypeExpr.resolve_shows scope.generics element h).bind fun _ ht => .ok ht
  | tuple _ items, h => (inferAll_shows hscope items h).bind fun _ hts => .ok hts
  | call pos callee typeArgs args, h => by
    obtain ⟨hcallee, htypeArgs, hargs⟩ := h
    rw [infer]
    apply (infer_shows hscope callee hcallee).bind
    intro t ht
    apply (Ty.instantiate_shows ht htypeArgs callee.pos).bind
    intro r hr
    apply Shows.ite
    · intro _
      exact (checkArgs_shows hscope hr.2 args hargs).bind fun _ _ => .ok hr.1
    · exact fun _ => .error rfl
  | cond _ test yes no, h => by
    obtain ⟨htest, hyes, hno⟩ := h
    rw [infer]
    apply (infer_shows hscope test htest).bind
    intro t ht
    have hbool : Ty.bool.Legible := trivial
    apply (Ty.demand_shows hbool ht test.pos).bind
    intro _ _
    apply (infer_shows hscope yes hyes).bind
    intro yesTy hyesTy
    apply (infer_shows hscope no hno).bind
    intro noTy hnoTy
    exact branches_shows hyesTy hnoTy no.pos
  | unpack _ head tail whole yes no, h => by
    obtain ⟨-, -, hwhole, hyes, hno⟩ := h
    rw [infer]
    apply (infer_shows hscope whole hwhole).bind
    intro t ht
    cases t with
    | list element =>
      have helement : element.Legible := ht
      apply (Scope.bind_shows hscope head helement).bind
      intro scope₁ hscope₁
      apply (Scope.bind_shows hscope₁ tail ht).bind
      intro scope₂ hscope₂
      apply (infer_shows hscope₂ yes hyes).bind
      intro yesTy hyesTy
      apply (infer_shows hscope no hno).bind
      intro noTy hnoTy
      exact branches_shows hyesTy hnoTy no.pos
    | bool | int | tuple | generic | fn => exact .error rfl
  | letName _ name value body, h => by
    obtain ⟨-, hvalue, hbody⟩ := h
    rw [infer]
    apply (infer_shows hscope value hvalue).bind
    intro t ht
    apply (Scope.bind_shows hscope name ht).bind
    intro inner hinner
    exact infer_shows hinner body hbody
  | letTuple _ names value body, h => by
    obtain ⟨-, hvalue, hbody⟩ := h
    rw [infer]
    apply (infer_shows hscope value hvalue).bind
    intro t ht
    cases t with
    | tuple ts =>
      apply Shows.ite
      · intro _
        apply (Scope.bindAll_shows hscope names ht).bind
        intro inner hinner
        exact infer_shows hinner body hbody
      · exact fun _ => .error rfl
    | bool | int | list | generic | fn => exact .error rfl
  | cons _ head tail, h => by
    rw [infer]
    apply (infer_shows hscope tail h.2).bind
    intro t ht
    cases t with
    | list element =>
      apply (infer_shows hscope head h.1).bind
      intro found hfound
      have helement : element.Legible := ht
      exact (Ty.demand_shows helement hfound head.pos).bind fun _ _ => .ok ht
    | bool | int | tuple | generic | fn => exact .error rfl
  | binary _ op left right, h => by
    obtain ⟨hoperand, hresult⟩ := op.legible_signature
    rw [infer]
    apply (infer_shows hscope left h.1).bind
    intro l hl
    apply (Ty.demand_shows hoperand hl left.pos).bind
    intro _ _
    apply (infer_shows hscope right h.2).bind
    intro r hr
    exact (Ty.demand_shows hoperand hr right.pos).bind fun _ _ => .ok hresult
  | unary _ op operand, h => by
    rw [infer]
    apply (infer_shows hscope operand h).bind
    intro t ht
    exact (Ty.demand_shows op.legible_type ht operand.pos).bind fun _ _ => .ok op.legible_type

theorem inferAll_shows {scope : Scope} (hscope : scope.Legible) : (es : List Expr) →
    AllWellSpelled es → Shows Ty.AllLegible (inferAll scope es)
  | [], _ => .ok trivial
  | e :: es, h =>
    (infer_shows hscope e h.1).bind fun _ ht =>
      (inferAll_shows hscope es h.2).bind fun _ hts => .ok ⟨ht, hts⟩

theorem checkAll_shows {scope : Scope} (hscope : scope.Legible) {expected : Ty}
    (hexpected : expected.Legible) : (es : List Expr) → AllWellSpelled es →
    Shows (fun _ => True) (checkAll scope expected es)
  | [], _ => .ok trivial
  | e :: es, h => by
    rw [checkAll]
    apply (infer_shows hscope e h.1).bind
    intro t ht
    apply (Ty.demand_shows hexpected ht e.pos).bind
    intro _ _
    exact checkAll_shows hscope hexpected es h.2

theorem checkArgs_shows {scope : Scope} (hscope : scope.Legible) : {params : List Ty} →
    Ty.AllLegible params → (es : List Expr) → AllWellSpelled es →
    Shows (fun _ => True) (checkArgs scope params es)
  | [], _, [], _ => .ok trivial
  | [], _, _ :: _, _ => .ok trivial
  | _ :: _, _, [], _ => .ok trivial
  | _ :: _, hparams, e :: es, h => by
    rw [checkArgs]
    apply (infer_shows hscope e h.1).bind
    intro t ht
    apply (Ty.demand_shows hparams.1 ht e.pos).bind
    intro _ _
    exact checkArgs_shows hscope hparams.2 es h.2

end

theorem check_shows {scope : Scope} (hscope : scope.Legible) {expected : Ty}
    (hexpected : expected.Legible) {e : Expr} (h : e.WellSpelled) :
    Shows (fun _ => True) (e.check scope expected) :=
  (infer_shows hscope e h).bind fun _ ht => Ty.demand_shows hexpected ht e.pos

end Expr

namespace Program

theorem legible_builtins : ∀ e ∈ Builtin.table, e.2.Legible := by
  have htext : IsPrimedWord "text" :=
    ⟨'t', ['e', 'x', 't'], 0, rfl, rfl, List.all_eq_true.1 rfl⟩
  have hbound : IsPrimedWord "bound" :=
    ⟨'b', ['o', 'u', 'n', 'd'], 0, rfl, rfl, List.all_eq_true.1 rfl⟩
  intro e he
  obtain ⟨b, -, rfl⟩ := List.mem_map.1 he
  cases b with
  | print =>
    have hnames := List.forall_mem_singleton.2 htext
    exact ⟨rfl, hnames, List.forall_mem_nil _, trivial, trivial, trivial⟩
  | input => exact ⟨rfl, List.forall_mem_nil _, List.forall_mem_nil _, trivial, trivial⟩
  | rand =>
    have hnames := List.forall_mem_singleton.2 hbound
    exact ⟨rfl, hnames, List.forall_mem_nil _, trivial, trivial, trivial⟩

theorem declare_shows {table : TypeTable} (htable : ∀ e ∈ table, e.2.Legible) {ds : List Decl}
    (hds : ∀ d ∈ ds, d.WellSpelled) :
    Shows (fun r : TypeTable × List Ty => (∀ e ∈ r.1, e.2.Legible) ∧ Ty.AllLegible r.2)
      (declare table ds) := by
  induction ds generalizing table with
  | nil => exact .ok ⟨htable, trivial⟩
  | cons d ds ih =>
    obtain ⟨hd, hds⟩ := List.forall_mem_cons.1 hds
    rw [declare]
    apply (TypeExpr.resolve_shows [] d.signature hd.signature).bind
    intro t ht
    apply Shows.ite
    · exact fun _ => .error rfl
    · intro _
      have hentry : ∀ e ∈ [(d.label, t)], e.2.Legible := List.forall_mem_singleton.2 ht
      have hnext := List.forall_mem_append.2 ⟨htable, hentry⟩
      exact (ih hnext hds).bind fun r hr => .ok ⟨hr.1, ht, hr.2⟩

theorem checkMain_shows (ds : List Decl) (ts : List Ty) :
    Shows (fun _ => True) (checkMain ds ts) := by
  rw [checkMain]
  split
  · exact .error rfl
  · exact .ite (fun _ => .error rfl) fun _ => .ok trivial

theorem checkBody_shows {globals : TypeTable} (hglobals : ∀ e ∈ globals, e.2.Legible) {d : Decl}
    (hd : d.WellSpelled) {t : Ty} (ht : t.Legible) :
    Shows (fun _ => True) (checkBody globals d t) := by
  have hscope (generics : List String) : Scope.Legible ⟨globals, [], generics⟩ :=
    ⟨hglobals, List.forall_mem_nil _⟩
  unfold checkBody
  split
  · obtain ⟨-, -, -, hret, hparams⟩ := ht
    apply (Scope.bindAll_shows (hscope _) _ hparams).bind
    intro scope hscope
    exact Expr.check_shows hscope hret hd.body
  · exact Expr.check_shows (hscope []) ht hd.body

theorem checkBodies_shows {globals : TypeTable} (hglobals : ∀ e ∈ globals, e.2.Legible)
    {ds : List Decl} (hds : ∀ d ∈ ds, d.WellSpelled) {ts : List Ty} (hts : Ty.AllLegible ts) :
    Shows (fun _ => True) (checkBodies globals ds ts) := by
  induction ds generalizing ts with
  | nil => exact .ok trivial
  | cons d ds ih =>
    obtain ⟨hd, hds⟩ := List.forall_mem_cons.1 hds
    cases ts with
    | nil => exact .ok trivial
    | cons t ts =>
      apply (checkBody_shows hglobals hd hts.1).bind
      intro _ _
      exact (ih hds hts.2).bind fun _ _ => .ok trivial

theorem check_shows {ds : List Decl} (hds : ∀ d ∈ ds, d.WellSpelled) :
    Shows (fun _ => True) (check ds) := by
  apply (declare_shows legible_builtins hds).bind
  intro r hr
  apply (checkMain_shows ds r.2).bind
  intro _ _
  exact (checkBodies_shows hr.1 hds hr.2).bind fun _ _ => .ok trivial

/-- Legible types that are shown alike are equal, and what the checker shows as not matching in a
program that a source has is shown by two different texts. -/
theorem text_identifies_type :
    (∀ first second : Ty, first.Legible → second.Legible → first.text = second.text →
      first.equiv second = true) ∧
    ∀ (source : String) (ds : List Decl) (first second : Ty), Decl.ofSource source = .ok ds →
      mismatch? (check ds) = some (first, second) → first.text ≠ second.text := by
  constructor
  · intro first second hfirst hsecond htext
    exact hfirst.equiv_of_text_eq hsecond htext
  · intro source ds first second hds hshown
    exact (check_shows (Decl.ofSource_wellSpelled hds)).text_ne hshown

/-- `f` gives a function on the generic of `outer`, `h` one with a generic of its own. -/
def clashing : String :=
  "h\x7bX\x7d(x: X): \x7bA\x7d A(y: A) = h\x7bX\x7d(x)\n" ++
  "outer\x7bA\x7d(a: A, f: \x7bX\x7d (A(y: A))(x: X)): A(y: A) =\n" ++
  "  if true then f\x7bA\x7d(a) else h\x7bA\x7d(a)\n" ++
  "main(args: [[Int]]): Int = 0\n"

/-- The generics of curried types may stand at different function types without being told apart. -/
theorem text_identifies_type_clashing :
    let inner := Ty.fn (.fn (.fn .int [] [] ["B"]) [] [] ["A"]) [.bool] ["b"] []
    let outer := Ty.fn (.fn (.fn .int [] [] []) [] [] ["B"]) [.bool] ["b"] ["A"]
    (inner.text = outer.text ∧ inner.equiv outer = true) ∧
    ∃ ds first second, Decl.ofSource clashing = .ok ds ∧
      mismatch? (check ds) = some (first, second) ∧ first.text = "A(y: A)" ∧
      second.text = "\x7bA'\x7d A'(y: A')" ∧ first.text ≠ second.text := by
  intro inner outer
  have hA : IsPrimedWord "A" := ⟨'A', [], 0, rfl, rfl, List.forall_mem_nil _⟩
  have hB : IsPrimedWord "B" := ⟨'B', [], 0, rfl, rfl, List.forall_mem_nil _⟩
  have hb : IsPrimedWord "b" := ⟨'b', [], 0, rfl, rfl, List.forall_mem_nil _⟩
  have hinner : inner.Legible := by simp [inner, Ty.Legible, Ty.AllLegible, hA, hB, hb]
  have houter : outer.Legible := by simp [outer, Ty.Legible, Ty.AllLegible, hA, hB, hb]
  have htext : inner.text = outer.text := by decide +kernel
  have hshown : (Decl.ofSource clashing).toOption.bind (fun ds =>
      (mismatch? (check ds)).map fun types => (types.1.text, types.2.text)) =
      some ("A(y: A)", "\x7bA'\x7d A'(y: A')") := by decide +kernel
  obtain ⟨ds, hds, hshown⟩ := Option.bind_eq_some_iff.1 hshown
  obtain ⟨⟨first, second⟩, hshown, htexts⟩ := Option.map_eq_some_iff.1 hshown
  obtain ⟨hfirst, hsecond⟩ := Prod.mk.inj htexts
  have hds := eq_ok_of_toOption hds
  obtain ⟨hequal, hdiffer⟩ := text_identifies_type
  exact ⟨⟨htext, hequal inner outer hinner houter htext⟩, ds, first, second, hds, hshown, hfirst,
    hsecond, hdiffer clashing ds first second hds hshown⟩

end Program

end ExprLang
