import ExprLang.Proofs.Typing.Binding
import ExprLang.Proofs.Typing.Resolution

namespace ExprLang

namespace NewNames

variable {globals : TypeTable} {bound names : List String}

theorem append {rest : List String} (h : NewNames globals bound names)
    (hrest : NewNames globals (names.reverse ++ bound) rest) :
    NewNames globals bound (names ++ rest) := by
  induction names generalizing bound with
  | nil => exact hrest
  | cons name names ih =>
    obtain ⟨hglobal, hnew, hnames⟩ := h
    rw [List.reverse_cons, List.append_assoc] at hrest
    exact ⟨hglobal, hnew, ih hnames hrest⟩

theorem not_mem (h : NewNames globals bound names) {name : String} (hname : name ∈ names) :
    name ∉ bound := by
  induction names generalizing bound with
  | nil => cases hname
  | cons first names ih =>
    obtain ⟨_, hnew, hnames⟩ := h
    rcases List.mem_cons.1 hname with rfl | hname
    · exact hnew
    · exact fun hmem => ih hnames hname (List.mem_cons_of_mem _ hmem)

theorem nodup (h : NewNames globals bound names) : names.Nodup := by
  induction names generalizing bound with
  | nil => exact List.nodup_nil
  | cons name names ih =>
    obtain ⟨_, _, hnames⟩ := h
    exact List.nodup_cons.2 ⟨fun hmem => hnames.not_mem hmem List.mem_cons_self, ih hnames⟩

end NewNames

namespace Expr

/-- The parts of an expression, each with the names that the expression binds in it. A `let` binds
in its body and not in its value, an unpacking condition in its first branch only. -/
def parts : Expr → List (List String × Expr)
  | int _ _ | bool _ _ | str _ _ | ident _ _ | emptyOf _ _ => []
  | list _ items | tuple _ items => items.map fun item => ([], item)
  | call _ callee _ args => ([], callee) :: args.map fun arg => ([], arg)
  | cond _ test yes no => [([], test), ([], yes), ([], no)]
  | unpack _ head tail whole yes no =>
    [([], whole), ([head.text, tail.text], yes), ([], no)]
  | letName _ name value body => [([], value), ([name.text], body)]
  | letTuple _ names value body => [([], value), (names.map Name.text, body)]
  | cons _ head tail => [([], head), ([], tail)]
  | binary _ _ left right => [([], left), ([], right)]
  | unary _ _ operand => [([], operand)]

/-- A way down from an expression to a node, with the names bound on it from the outside in. -/
inductive Path : Expr → List String → Expr → Prop
  | here (e : Expr) : Path e [] e
  | step {e part node : Expr} {names bound : List String} (hpart : (names, part) ∈ e.parts)
      (hpath : Path part bound node) : Path e (names ++ bound) node

theorem allWellBound_iff {globals : TypeTable} {bound : List String} (es : List Expr) :
    AllWellBound globals bound es ↔ ∀ e ∈ es, e.WellBound globals bound := by
  induction es with
  | nil => simp [AllWellBound]
  | cons e es ih => simp [AllWellBound, ih]

/-- What an expression binds in a part is new, and the part is bound well over it. -/
theorem WellBound.part {globals : TypeTable} {bound : List String} {e : Expr}
    (h : e.WellBound globals bound) :
    ∀ p ∈ e.parts,
      NewNames globals bound p.1 ∧ p.2.WellBound globals (p.1.reverse ++ bound) := by
  have hitems {items : List Expr} (h : AllWellBound globals bound items) :
      ∀ p ∈ items.map fun item => (([] : List String), item),
        NewNames globals bound p.1 ∧ p.2.WellBound globals (p.1.reverse ++ bound) := by
    rw [List.forall_mem_map]
    exact fun item hitem => ⟨trivial, (allWellBound_iff items).1 h item hitem⟩
  cases e with
  | int | bool | str | ident | emptyOf => exact List.forall_mem_nil _
  | list | tuple => exact hitems h
  | call => exact List.forall_mem_cons.2 ⟨⟨trivial, h.1⟩, hitems h.2⟩
  | cond =>
    obtain ⟨htest, hyes, hno⟩ := h
    simp only [parts, List.forall_mem_cons]
    exact ⟨⟨trivial, htest⟩, ⟨trivial, hyes⟩, ⟨trivial, hno⟩, List.forall_mem_nil _⟩
  | unpack =>
    obtain ⟨hwhole, hnew, hyes, hno⟩ := h
    simp only [parts, List.forall_mem_cons]
    exact ⟨⟨trivial, hwhole⟩, ⟨hnew, hyes⟩, ⟨trivial, hno⟩, List.forall_mem_nil _⟩
  | letName | letTuple =>
    obtain ⟨hvalue, hnew, hbody⟩ := h
    simp only [parts, List.forall_mem_cons]
    exact ⟨⟨trivial, hvalue⟩, ⟨hnew, hbody⟩, List.forall_mem_nil _⟩
  | cons | binary =>
    obtain ⟨hleft, hright⟩ := h
    simp only [parts, List.forall_mem_cons]
    exact ⟨⟨trivial, hleft⟩, ⟨trivial, hright⟩, List.forall_mem_nil _⟩
  | unary => exact List.forall_mem_singleton.2 ⟨trivial, h⟩

theorem Path.wellBound {globals : TypeTable} {outer bound : List String} {e node : Expr}
    (hpath : Path e bound node) (h : e.WellBound globals outer) :
    NewNames globals outer bound ∧ node.WellBound globals (bound.reverse ++ outer) := by
  induction hpath generalizing outer with
  | here => exact ⟨trivial, h⟩
  | step hpart _ ih =>
    obtain ⟨hnew, hwell⟩ := h.part _ hpart
    obtain ⟨hbound, hnode⟩ := ih hwell
    refine ⟨hnew.append hbound, ?_⟩
    rwa [List.reverse_append, List.append_assoc]

end Expr

/-- The names of the parameters that a declaration is written with, none for a value. -/
def Decl.params (d : Decl) : List String :=
  match d.signature with
  | .fn _ _ params _ => params.map fun p => p.1.text
  | _ => []

theorem Decl.ChecksTo.params_eq {d : Decl} {d' : CheckedDecl} (h : d.ChecksTo d') :
    d'.params = d.params := by
  obtain ⟨label, pos, type, body⟩ := d'
  obtain ⟨hresolve, _⟩ := h
  rw [Decl.params]
  cases hsignature : d.signature with
  | int | bool =>
    rw [hsignature] at hresolve
    cases hresolve
    rfl
  | list =>
    rw [hsignature, TypeExpr.resolve_list_eq_ok_iff] at hresolve
    obtain ⟨_, _, rfl⟩ := hresolve
    rfl
  | tuple =>
    rw [hsignature, TypeExpr.resolve_tuple_eq_ok_iff] at hresolve
    obtain ⟨_, _, rfl⟩ := hresolve
    rfl
  | generic =>
    rw [hsignature, TypeExpr.resolve_generic_eq_ok_iff] at hresolve
    obtain ⟨_, rfl⟩ := hresolve
    rfl
  | fn =>
    rw [hsignature, TypeExpr.resolve_fn_eq_ok_iff] at hresolve
    obtain ⟨_, _, _, _, rfl⟩ := hresolve
    rfl

namespace Program

def globalNames (ds : List Decl) : List String :=
  Builtin.table.map Prod.fst ++ ds.map Decl.label

theorem check_globals {ds : List Decl} {p : Program} (h : check ds = .ok p) :
    p.globals.map Prod.fst = globalNames ds := by
  obtain ⟨hglobals, hdecls, _⟩ := check_eq_ok h
  rw [hglobals, globalNames, map_label_eq hdecls, List.map_append, List.map_map]
  rfl

/-- Parameters and names bound on the way to a node are distinct and no globals, and an identifier
there is one of them or a global. -/
theorem check_path_wellScoped {ds : List Decl} {p : Program} (h : check ds = .ok p) {d : Decl}
    (hd : d ∈ ds) {bound : List String} {node : Expr} (hpath : d.body.Path bound node) :
    (d.params ++ bound).Nodup ∧ (∀ x ∈ d.params ++ bound, x ∉ globalNames ds) ∧
      ∀ pos name, node = .ident pos name → name ∈ d.params ++ bound ∨ name ∈ globalNames ds := by
  obtain ⟨_, hdecls, _⟩ := check_eq_ok h
  obtain ⟨d', hd', hto⟩ := exists_of_mem_right hdecls.flip hd
  have hto : d.ChecksTo d' := hto
  obtain ⟨hparams, hwell⟩ := check_wellBound h hd'
  rw [hto.params_eq] at hparams hwell
  obtain ⟨_, _, _, hbody⟩ := hto
  rw [hbody] at hwell
  obtain ⟨hbound, hnode⟩ := hpath.wellBound hwell
  have hnew : NewNames p.globals [] (d.params ++ bound) := by
    apply hparams.append
    rwa [List.append_nil]
  rw [← check_globals h]
  refine ⟨hnew.nodup, ?_, ?_⟩
  · intro x hx
    exact (lookup_eq_none_iff _ _).1 (hnew.lookup_eq_none hx)
  · rintro pos name rfl
    rw [← List.reverse_append] at hnode
    rcases hnode with hmem | hglobal
    · exact .inl (List.mem_reverse.1 hmem)
    · right
      by_contra hnot
      rw [(lookup_eq_none_iff _ _).2 hnot] at hglobal
      cases hglobal

/-- `let (a, b) <- (h, total(t)) in a + b` -/
def totalStep : Expr :=
  .letTuple .start [⟨"a", .start⟩, ⟨"b", .start⟩]
    (.tuple .start
      [.ident .start "h", .call .start (.ident .start "total") none [.ident .start "t"]])
    (.binary .start .add (.ident .start "a") (.ident .start "b"))

/-- `let h <- 0 in h` -/
def totalEnd : Expr :=
  .letName .start ⟨"h", .start⟩ (.int .start 0) (.ident .start "h")

/-- `total(xs: [Int]): Int = if (h ~ t) <- xs then … else …` and
`main(args: [[Int]]): Int = total([] of Int)` -/
def totalling : List Decl :=
  [⟨"total", .start,
      .fn .start [] [(⟨"xs", .start⟩, .list .start (.int .start))] (.int .start),
      .unpack .start ⟨"h", .start⟩ ⟨"t", .start⟩ (.ident .start "xs") totalStep totalEnd⟩,
    ⟨"main", .start,
      .fn .start [] [(⟨"args", .start⟩, .list .start (.list .start (.int .start)))] (.int .start),
      .call .start (.ident .start "total") none [.emptyOf .start (.int .start)]⟩]

/-- The branches bind a name each for itself, and the step binds more below its own branch. -/
theorem check_path_wellScoped_total :
    ∃ p d, check totalling = .ok p ∧ d ∈ totalling ∧ d.label = "total" ∧
      d.body.Path ["h", "t", "a", "b"] (.ident .start "b") ∧
      (["xs", "h", "t", "a", "b"].Nodup ∧
        ∀ x ∈ ["xs", "h", "t", "a", "b"], x ∉ globalNames totalling) ∧
      d.body.Path ["h"] (.ident .start "h") ∧
      ("h" ∈ ["xs", "h"] ∨ "h" ∈ globalNames totalling) := by
  have hcheck : ∃ p, check totalling = .ok p := ⟨_, rfl⟩
  obtain ⟨p, hp⟩ := hcheck
  obtain ⟨d, hd, hlabel, hbody, hparams⟩ : ∃ d ∈ totalling, d.label = "total" ∧
      d.body.parts = [([], .ident .start "xs"), (["h", "t"], totalStep), ([], totalEnd)] ∧
      d.params = ["xs"] :=
    ⟨_, List.mem_cons_self, rfl, rfl, rfl⟩
  have hyes : (["h", "t"], totalStep) ∈ d.body.parts := by simp [hbody]
  have hno : ([], totalEnd) ∈ d.body.parts := by simp [hbody]
  have hsum : (["a", "b"], .binary .start .add (.ident .start "a") (.ident .start "b")) ∈
      totalStep.parts := .tail _ (.head _)
  have hright : ([], .ident .start "b") ∈
      (Expr.binary .start .add (.ident .start "a") (.ident .start "b")).parts := .tail _ (.head _)
  have hlet : (["h"], .ident .start "h") ∈ totalEnd.parts := .tail _ (.head _)
  have hstep := Expr.Path.step hyes (.step hsum (.step hright (.here _)))
  have hend := Expr.Path.step hno (.step hlet (.here _))
  obtain ⟨hnodup, hnone, _⟩ := check_path_wellScoped hp hd hstep
  obtain ⟨_, _, hname⟩ := check_path_wellScoped hp hd hend
  rw [hparams] at hnodup hnone hname
  exact ⟨p, d, hp, hd, hlabel, hstep, ⟨hnodup, hnone⟩, hend, hname _ _ rfl⟩

end Program

end ExprLang
