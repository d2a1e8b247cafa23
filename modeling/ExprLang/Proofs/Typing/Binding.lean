import ExprLang.Proofs.Typing.Checked

namespace ExprLang

/-- Names that are bound one after the other: each is new, neither a global nor bound before. -/
def NewNames (globals : TypeTable) (bound : List String) : List String → Prop
  | [] => True
  | name :: names =>
    globals.lookup name = none ∧ name ∉ bound ∧ NewNames globals (name :: bound) names

theorem NewNames.lookup_eq_none {globals : TypeTable} {bound names : List String}
    (h : NewNames globals bound names) {name : String} (hname : name ∈ names) :
    globals.lookup name = none := by
  induction names generalizing bound with
  | nil => cases hname
  | cons first names ih =>
    obtain ⟨hglobal, _, hnames⟩ := h
    rcases List.mem_cons.1 hname with rfl | hname
    · exact hglobal
    · exact ih hnames hname

namespace Scope

variable {scope inner : Scope}

def bound (scope : Scope) : List String := scope.locals.map Prod.fst

theorem bind_bound {name : Name} {t : Ty} (h : scope.bind name t = .ok inner) :
    inner.globals = scope.globals ∧ inner.bound = name.text :: scope.bound ∧
      scope.globals.lookup name.text = none ∧ name.text ∉ scope.bound := by
  obtain ⟨hglobal, hlocal, rfl⟩ := bind_ok h
  exact ⟨rfl, rfl, hglobal, (lookup_eq_none_iff _ _).1 hlocal⟩

theorem bindAll_bound {names : List Name} {ts : List Ty} (h : scope.bindAll names ts = .ok inner)
    (hlength : ts.length = names.length) :
    inner.globals = scope.globals ∧
      inner.bound = (names.map Name.text).reverse ++ scope.bound ∧
      NewNames scope.globals scope.bound (names.map Name.text) := by
  induction names generalizing scope ts with
  | nil =>
    cases h
    exact ⟨rfl, rfl, trivial⟩
  | cons name names ih =>
    cases ts with
    | nil => cases hlength
    | cons t ts =>
      rw [bindAll, bind_eq_ok] at h
      obtain ⟨next, hnext, h⟩ := h
      obtain ⟨hglobals, hbound, hglobal, hnew⟩ := bind_bound hnext
      obtain ⟨hglobals', hbound', hnames⟩ := ih h (Nat.succ.inj hlength)
      rw [hglobals, hbound] at hnames
      refine ⟨hglobals'.trans hglobals, ?_, hglobal, hnew, hnames⟩
      rw [hbound', hbound]
      simp

end Scope

namespace Expr

mutual

/-- Every identifier is bound or a global, and what is bound is new. A `let` binds in its body only,
an unpacking condition where the list is not empty. -/
def WellBound (globals : TypeTable) (bound : List String) : Expr → Prop
  | int _ _ | bool _ _ | str _ _ | emptyOf _ _ => True
  | ident _ name => name ∈ bound ∨ (globals.lookup name).isSome = true
  | list _ items | tuple _ items => AllWellBound globals bound items
  | call _ callee _ args => callee.WellBound globals bound ∧ AllWellBound globals bound args
  | cond _ test yes no =>
    test.WellBound globals bound ∧ yes.WellBound globals bound ∧ no.WellBound globals bound
  | unpack _ head tail whole yes no =>
    whole.WellBound globals bound ∧ NewNames globals bound [head.text, tail.text] ∧
      yes.WellBound globals (tail.text :: head.text :: bound) ∧ no.WellBound globals bound
  | letName _ name value body =>
    value.WellBound globals bound ∧ NewNames globals bound [name.text] ∧
      body.WellBound globals (name.text :: bound)
  | letTuple _ names value body =>
    value.WellBound globals bound ∧ NewNames globals bound (names.map Name.text) ∧
      body.WellBound globals ((names.map Name.text).reverse ++ bound)
  | cons _ head tail => head.WellBound globals bound ∧ tail.WellBound globals bound
  | binary _ _ left right => left.WellBound globals bound ∧ right.WellBound globals bound
  | unary _ _ operand => operand.WellBound globals bound

def AllWellBound (globals : TypeTable) (bound : List String) : List Expr → Prop
  | [] => True
  | e :: es => e.WellBound globals bound ∧ AllWellBound globals bound es

end

theorem AllWellBound.of_forall₂ {globals : TypeTable} {bound : List String} {es : List Expr}
    {ts : List Ty} {R : Expr → Ty → Prop} (h : List.Forall₂ R es ts)
    (hR : ∀ e t, R e t → e.WellBound globals bound) : AllWellBound globals bound es := by
  induction h with
  | nil => trivial
  | cons he _ ih => exact ⟨hR _ _ he, ih⟩

/-- The judgment gives types only to expressions whose names are bound well. -/
theorem HasType.wellBound {rule : CalleeRule} {scope : Scope} {e : Expr} {t : Ty}
    (h : HasType rule scope e t) : e.WellBound scope.globals scope.bound := by
  induction h using HasType.induction with
  | int => trivial
  | bool => trivial
  | str => trivial
  | @ident scope _ name t h =>
    rw [Scope.lookup] at h
    split at h
    · rename_i u hlocal
      left
      by_contra hnot
      rw [(lookup_eq_none_iff _ _).2 hnot] at hlocal
      cases hlocal
    · right
      rw [h]
      rfl
  | list _ _ _ ihFirst ihRest => exact ⟨ihFirst, .of_forall₂ ihRest fun _ _ ⟨_, ih⟩ => ih⟩
  | emptyOf => trivial
  | tuple _ ihItems => exact AllWellBound.of_forall₂ ihItems fun _ _ ⟨_, ih⟩ => ih
  | call _ _ _ _ _ ihCallee ihArgs => exact ⟨ihCallee, .of_forall₂ ihArgs fun _ _ ⟨_, ih⟩ => ih⟩
  | cond _ _ _ _ _ ihTest ihYes ihNo => exact ⟨ihTest, ihYes, ihNo⟩
  | unpack _ hhead htail _ _ _ ihWhole ihYes ihNo =>
    obtain ⟨hglobals₁, hbound₁, hglobal₁, hnew₁⟩ := Scope.bind_bound hhead
    obtain ⟨hglobals₂, hbound₂, hglobal₂, hnew₂⟩ := Scope.bind_bound htail
    rw [hglobals₁] at hglobals₂ hglobal₂
    rw [hbound₁] at hbound₂ hnew₂
    rw [hglobals₂, hbound₂] at ihYes
    exact ⟨ihWhole, ⟨hglobal₁, hnew₁, hglobal₂, hnew₂, trivial⟩, ihYes, ihNo⟩
  | letName _ hbind _ ihValue ihBody =>
    obtain ⟨hglobals, hbound, hglobal, hnew⟩ := Scope.bind_bound hbind
    rw [hglobals, hbound] at ihBody
    exact ⟨ihValue, ⟨hglobal, hnew, trivial⟩, ihBody⟩
  | letTuple _ hlength hbind _ ihValue ihBody =>
    obtain ⟨hglobals, hbound, hnew⟩ := Scope.bindAll_bound hbind hlength
    rw [hglobals, hbound] at ihBody
    exact ⟨ihValue, hnew, ihBody⟩
  | cons _ _ _ ihTail ihHead => exact ⟨ihHead, ihTail⟩
  | binary _ _ _ _ ihLeft ihRight => exact ⟨ihLeft, ihRight⟩
  | unary _ _ ihOperand => exact ihOperand

end Expr

theorem TypeExpr.resolveParams_length {allowed : List String} {params : List (Name × TypeExpr)}
    {ts : List Ty} (h : resolveParams allowed params = .ok ts) : ts.length = params.length := by
  induction params generalizing ts with
  | nil =>
    cases h
    rfl
  | cons param params ih =>
    simp only [resolveParams, bind_eq_ok] at h
    obtain ⟨t, _, ts, hts, h⟩ := h
    cases h
    rw [List.length_cons, List.length_cons, ih hts]

/-- The names that the body of a declaration starts with, in the order of the parameters. -/
def CheckedDecl.params (d : CheckedDecl) : List String := d.params?.getD []

theorem Program.check_wellBound {ds : List Decl} {p : Program} (h : check ds = .ok p)
    {d : CheckedDecl} (hd : d ∈ p.decls) :
    NewNames p.globals [] d.params ∧ d.body.WellBound p.globals d.params.reverse := by
  obtain ⟨written, _, hresolve, _⟩ := exists_checksTo h hd
  have htyped := (check_typedBy h).bodies d hd
  obtain ⟨label, pos, type, body⟩ := d
  cases type with
  | fn ret params names generics =>
    obtain ⟨bound, scope, t, rfl, hbind, hbody, _⟩ := htyped
    obtain ⟨_, _, params', _, _, hnames, _, inner, hparams, _⟩ := TypeExpr.resolve_eq_fn hresolve
    have hcount := congrArg List.length hnames
    rw [List.length_map, List.length_map] at hcount
    have hlength : params.length = bound.length :=
      (TypeExpr.resolveParams_length hparams).trans hcount.symm
    obtain ⟨hglobals, hbound, hnew⟩ := Scope.bindAll_bound hbind hlength
    have hwell := hbody.wellBound
    have hempty : Scope.bound ⟨p.globals, [], generics⟩ = [] := rfl
    rw [hglobals, hbound, hempty, List.append_nil] at hwell
    exact ⟨hnew, hwell⟩
  | bool | int | list | tuple | generic =>
    obtain ⟨u, hbody, _⟩ := htyped
    exact ⟨trivial, hbody.wellBound⟩

end ExprLang
