import ExprLang.Proofs.Typing.Checked

namespace ExprLang

def Decl.resolved (d : Decl) : Ty := (d.signature.resolve []).toOption.getD .unit

def Decl.checked (d : Decl) : CheckedDecl := ⟨d.label, d.pos, d.resolved, d.body⟩

theorem Decl.resolved_eq {d : Decl} {t : Ty} (h : d.signature.resolve [] = .ok t) :
    d.resolved = t := by
  rw [resolved, h]
  rfl

def Scope.withGlobals (scope : Scope) (table : TypeTable) : Scope := { scope with globals := table }

namespace Scope

variable {scope inner : Scope} {table : TypeTable}

theorem lookup_withGlobals (h : ∀ name, table.lookup name = scope.globals.lookup name)
    (name : String) : (scope.withGlobals table).lookup name = scope.lookup name := by
  have hlocals : (scope.withGlobals table).locals = scope.locals := rfl
  have hglobals : (scope.withGlobals table).globals = table := rfl
  rw [lookup, lookup, hlocals, hglobals, h]

theorem bind_withGlobals (h : ∀ name, table.lookup name = scope.globals.lookup name) {name : Name}
    {t : Ty} (hbind : scope.bind name t = .ok inner) :
    (scope.withGlobals table).bind name t = .ok (inner.withGlobals table) ∧
      ∀ name, table.lookup name = inner.globals.lookup name := by
  obtain ⟨hglobal, hlocal, rfl⟩ := bind_ok hbind
  refine ⟨?_, h⟩
  rw [← h] at hglobal
  have hglobal : ((scope.withGlobals table).globals.lookup name.text).isSome = false :=
    Option.isSome_eq_false_iff.2 (Option.isNone_iff_eq_none.2 hglobal)
  have hlocal : ((scope.withGlobals table).locals.lookup name.text).isSome = false :=
    Option.isSome_eq_false_iff.2 (Option.isNone_iff_eq_none.2 hlocal)
  rw [bind, if_neg (ne_true_of_eq_false hglobal), if_neg (ne_true_of_eq_false hlocal)]
  rfl

theorem bindAll_withGlobals (h : ∀ name, table.lookup name = scope.globals.lookup name)
    {names : List Name} {ts : List Ty} (hbind : scope.bindAll names ts = .ok inner) :
    (scope.withGlobals table).bindAll names ts = .ok (inner.withGlobals table) ∧
      ∀ name, table.lookup name = inner.globals.lookup name := by
  induction names generalizing scope ts with
  | nil =>
    cases hbind
    exact ⟨rfl, h⟩
  | cons name names ih =>
    cases ts with
    | nil =>
      cases hbind
      exact ⟨rfl, h⟩
    | cons t ts =>
      rw [bindAll, bind_eq_ok] at hbind
      obtain ⟨next, hnext, hbind⟩ := hbind
      obtain ⟨hnext, hnames⟩ := bind_withGlobals h hnext
      obtain ⟨hrest, hinner⟩ := ih hnames hbind
      refine ⟨?_, hinner⟩
      rw [bindAll, hnext]
      exact hrest

end Scope

namespace Expr

theorem HasTypes.of_forall₂ {rule : CalleeRule} {scope : Scope} {es : List Expr} {ts : List Ty}
    (h : List.Forall₂ (HasType rule scope) es ts) : HasTypes rule scope es ts := by
  induction h with
  | nil => exact .nil
  | cons he _ ih => exact .more he ih

theorem HasType.withGlobals {scope : Scope} {table : TypeTable} {e : Expr} {t : Ty}
    (h : HasType .any scope e t) (hsame : ∀ name, table.lookup name = scope.globals.lookup name) :
    HasType .any (scope.withGlobals table) e t := by
  have hall {scope : Scope} {es : List Expr} {ts : List Ty}
      (hsame : ∀ name, table.lookup name = scope.globals.lookup name)
      (ih : List.Forall₂ (fun e u => ∃ _ : HasType .any scope e u,
        (∀ name, table.lookup name = scope.globals.lookup name) →
          HasType .any (scope.withGlobals table) e u) es ts) :
      HasTypes .any (scope.withGlobals table) es ts :=
    .of_forall₂ (ih.imp fun _ _ ⟨_, ih⟩ => ih hsame)
  induction h using HasType.induction with
  | int => exact .int
  | bool => exact .bool
  | str => exact .str
  | ident h =>
    rw [← Scope.lookup_withGlobals hsame] at h
    exact .ident h
  | list _ _ hfits ihFirst ihRest => exact .list (ihFirst hsame) (hall hsame ihRest) hfits
  | emptyOf h => exact .emptyOf h
  | tuple _ ihItems => exact .tuple (hall hsame ihItems)
  | call _ _ hinst _ hfits ihCallee ihArgs =>
    exact .call (ihCallee hsame) (fun _ => trivial) hinst (hall hsame ihArgs) hfits
  | cond _ hbool _ _ hfits ihTest ihYes ihNo =>
    exact .cond (ihTest hsame) hbool (ihYes hsame) (ihNo hsame) hfits
  | unpack _ hhead htail _ _ hfits ihWhole ihYes ihNo =>
    obtain ⟨hhead, hsame₁⟩ := Scope.bind_withGlobals hsame hhead
    obtain ⟨htail, hsame₂⟩ := Scope.bind_withGlobals hsame₁ htail
    exact .unpack (ihWhole hsame) hhead htail (ihYes hsame₂) (ihNo hsame) hfits
  | letName _ hbind _ ihValue ihBody =>
    obtain ⟨hbind, hinner⟩ := Scope.bind_withGlobals hsame hbind
    exact .letName (ihValue hsame) hbind (ihBody hinner)
  | letTuple _ hlength hbind _ ihValue ihBody =>
    obtain ⟨hbind, hinner⟩ := Scope.bindAll_withGlobals hsame hbind
    exact .letTuple (ihValue hsame) hlength hbind (ihBody hinner)
  | cons _ _ hfits ihTail ihHead => exact .cons (ihTail hsame) (ihHead hsame) hfits
  | binary _ hl _ hr ihLeft ihRight => exact .binary (ihLeft hsame) hl (ihRight hsame) hr
  | unary _ hfits ihOperand => exact .unary (ihOperand hsame) hfits

end Expr

namespace Program

def tableOf (ds : List Decl) : TypeTable := Builtin.table ++ ds.map fun d => (d.label, d.resolved)

/-- What the checker demands of declarations. -/
structure Admissible (ds : List Decl) : Prop where
  resolves : ∀ d ∈ ds, d.signature.resolve [] = .ok d.resolved
  distinct : ((tableOf ds).map Prod.fst).Nodup
  main : ∃ d ∈ ds, d.label = mainLabel ∧ isGeneric d.resolved = false ∧
    d.resolved.equiv mainType = true
  bodies : ∀ d ∈ ds, checkBody (tableOf ds) d d.resolved = .ok ()

variable {ds es : List Decl} {table globals : TypeTable}

theorem map_fst_entries (ds : List Decl) :
    (ds.map fun d => (d.label, d.resolved)).map Prod.fst = ds.map Decl.label :=
  List.map_map

theorem resolved_of_forall₂ {ts : List Ty}
    (h : List.Forall₂ (fun d t => d.signature.resolve [] = .ok t) ds ts) :
    (∀ d ∈ ds, d.signature.resolve [] = .ok d.resolved) ∧ ts = ds.map Decl.resolved := by
  induction h with
  | nil => exact ⟨List.forall_mem_nil _, rfl⟩
  | cons ht _ ih =>
    obtain ⟨hresolves, rfl⟩ := ih
    obtain rfl := Decl.resolved_eq ht
    exact ⟨List.forall_mem_cons.2 ⟨ht, hresolves⟩, rfl⟩

theorem declare_of_distinct (hresolves : ∀ d ∈ ds, d.signature.resolve [] = .ok d.resolved)
    (hdistinct : ((table ++ ds.map fun d => (d.label, d.resolved)).map Prod.fst).Nodup) :
    declare table ds =
      .ok (table ++ ds.map fun d => (d.label, d.resolved), ds.map Decl.resolved) := by
  induction ds generalizing table with
  | nil => rw [declare, List.map_nil, List.append_nil, List.map_nil]
  | cons d ds ih =>
    obtain ⟨hd, hresolves⟩ := List.forall_mem_cons.1 hresolves
    have hnew : table.lookup d.label = none := by
      rw [lookup_eq_none_iff]
      intro hmem
      rw [List.map_append, map_fst_entries] at hdistinct
      exact (List.nodup_append.1 hdistinct).2.2 _ hmem _ List.mem_cons_self rfl
    rw [List.map_cons, List.append_cons] at hdistinct ⊢
    rw [declare, hd, List.map_cons]
    simp only [bind, Except.bind, hnew, ih hresolves hdistinct]
    rfl

theorem checkMain_eq_ok_iff (hdistinct : (ds.map Decl.label).Nodup) :
    checkMain ds (ds.map Decl.resolved) = .ok () ↔
      ∃ d ∈ ds, d.label = mainLabel ∧ isGeneric d.resolved = false ∧
        d.resolved.equiv mainType = true := by
  have hzip : ds.zip (ds.map Decl.resolved) = ds.map fun d => (d, d.resolved) := by
    have hmap : (ds.map id).zip (ds.map Decl.resolved) = ds.map fun d => (d, d.resolved) :=
      List.zip_map'
    rwa [List.map_id] at hmap
  have hfind : findMain? (ds.zip (ds.map Decl.resolved)) =
      (ds.find? fun d => d.label == mainLabel).map fun d => (d, d.resolved) := by
    rw [hzip, findMain?, List.find?_map]
    rfl
  rw [checkMain, hfind]
  constructor
  · intro h
    cases hd : ds.find? fun d => d.label == mainLabel with
    | none =>
      rw [hd] at h
      cases h
    | some d =>
      rw [hd] at h
      obtain ⟨hmem, hlabel⟩ := (find?_eq_some_iff_of_nodup Decl.label hdistinct).1 hd
      refine ⟨d, hmem, hlabel, ?_⟩
      by_contra hno
      have hbad : (isGeneric d.resolved || !d.resolved.equiv mainType) = true := by
        simp only [not_and, Bool.not_eq_true] at hno
        cases hgeneric : isGeneric d.resolved with
        | true => rfl
        | false => rw [hno hgeneric]; rfl
      simp only [Option.map_some, hbad, if_true] at h
      cases h
  · rintro ⟨d, hmem, hlabel, hgeneric, hmain⟩
    rw [(find?_eq_some_iff_of_nodup Decl.label hdistinct).2 ⟨hmem, hlabel⟩]
    simp only [Option.map_some, hgeneric, hmain]
    rfl

theorem checkBodies_eq_ok_iff {decls : List CheckedDecl} :
    checkBodies globals ds (ds.map Decl.resolved) = .ok decls ↔
      (∀ d ∈ ds, checkBody globals d d.resolved = .ok ()) ∧ decls = ds.map Decl.checked := by
  induction ds generalizing decls with
  | nil =>
    rw [List.map_nil, checkBodies, List.map_nil, Except.ok.injEq]
    · exact ⟨fun h => ⟨List.forall_mem_nil _, h.symm⟩, fun h => h.2.symm⟩
    · simp
  | cons d ds ih =>
    simp only [List.map_cons, checkBodies, bind_eq_ok, List.forall_mem_cons]
    constructor
    · rintro ⟨_, hbody, rest, hrest, h⟩
      cases h
      obtain ⟨hbodies, rfl⟩ := ih.1 hrest
      exact ⟨⟨hbody, hbodies⟩, rfl⟩
    · rintro ⟨⟨hbody, hbodies⟩, rfl⟩
      exact ⟨(), hbody, _, ih.2 ⟨hbodies, rfl⟩, rfl⟩

theorem labels_nodup (h : ((tableOf ds).map Prod.fst).Nodup) : (ds.map Decl.label).Nodup := by
  rw [tableOf, List.map_append, map_fst_entries] at h
  exact (List.nodup_append.1 h).2.1

/-- The checker accepts admissible declarations, and gives each its checked form. -/
theorem check_eq_ok_iff {p : Program} :
    check ds = .ok p ↔ Admissible ds ∧ p = ⟨tableOf ds, ds.map Decl.checked⟩ := by
  constructor
  · intro h
    simp only [check, bind_eq_ok] at h
    obtain ⟨⟨globals, ts⟩, hdeclare, _, hmain, decls, hbodies, h⟩ := h
    cases h
    have hdistinct := declare_distinct builtin_distinct hdeclare
    obtain ⟨rfl, hts⟩ := declare_eq_ok hdeclare
    obtain ⟨hresolves, rfl⟩ := resolved_of_forall₂ hts
    have htable : Builtin.table ++ (ds.map Decl.label).zip (ds.map Decl.resolved) = tableOf ds := by
      rw [List.zip_map']
      rfl
    rw [htable] at hdistinct hbodies ⊢
    have hlabels := labels_nodup hdistinct
    obtain ⟨hchecks, rfl⟩ := checkBodies_eq_ok_iff.1 hbodies
    exact ⟨⟨hresolves, hdistinct, (checkMain_eq_ok_iff hlabels).1 hmain, hchecks⟩, rfl⟩
  · rintro ⟨⟨hresolves, hdistinct, hmain, hbodies⟩, rfl⟩
    have hlabels := labels_nodup hdistinct
    simp only [check, bind_eq_ok]
    exact ⟨_, declare_of_distinct hresolves hdistinct, (), (checkMain_eq_ok_iff hlabels).2 hmain, _,
      checkBodies_eq_ok_iff.2 ⟨hbodies, rfl⟩, rfl⟩

theorem find?_eq_some_iff {p : Program} (h : check ds = .ok p) {name : String} {d : CheckedDecl} :
    p.find? name = some d ↔ d ∈ p.decls ∧ d.label = name := by
  rw [find?_eq h]
  exact find?_eq_some_iff_of_nodup CheckedDecl.label (check_labels_nodup h)

theorem lookup_of_find? {p : Program} (h : check ds = .ok p) {name : String} {d : CheckedDecl}
    (hd : p.find? name = some d) :
    p.globals.lookup name = some d.type ∧ Builtin.ofName? name = none := by
  obtain ⟨hmem, rfl⟩ := (find?_eq_some_iff h).1 hd
  obtain ⟨hds, rfl⟩ := check_eq_ok_iff.1 h
  obtain ⟨written, hwritten, rfl⟩ := List.mem_map.1 hmem
  have hentry : (written.label, written.resolved) ∈ ds.map fun d => (d.label, d.resolved) :=
    List.mem_map_of_mem (f := fun d : Decl => (d.label, d.resolved)) hwritten
  refine ⟨(lookup_eq_some_iff hds.distinct).2 (List.mem_append_right _ hentry), ?_⟩
  have hnames := hds.distinct
  rw [tableOf, List.map_append, map_fst_entries] at hnames
  have hhost : Builtin.table.lookup written.label = none := by
    rw [lookup_eq_none_iff]
    intro hhost
    exact (List.nodup_append.1 hnames).2.2 _ hhost _ (List.mem_map_of_mem hwritten) rfl
  rw [lookup_builtin_table] at hhost
  exact Option.map_eq_none_iff.1 hhost

theorem bodyScope_withGlobals {d : Decl} {t : Ty} {scope : Scope}
    (hsame : ∀ name, table.lookup name = globals.lookup name)
    (h : bodyScope globals d t = .ok scope) :
    bodyScope table d t = .ok (scope.withGlobals table) ∧
      ∀ name, table.lookup name = scope.globals.lookup name := by
  obtain ⟨label, pos, signature, body⟩ := d
  cases signature with
  | fn _ _ params _ =>
    cases t with
    | fn ret paramTys names generics =>
      refine Scope.bindAll_withGlobals ?_ h
      exact hsame
    | _ =>
      cases h
      exact ⟨rfl, hsame⟩
  | _ =>
    cases h
    exact ⟨rfl, hsame⟩

theorem checkBody_of_same {d : Decl} (hd : d.signature.resolve [] = .ok d.resolved)
    (hsame : ∀ name, table.lookup name = globals.lookup name)
    (h : checkBody globals d d.resolved = .ok ()) : checkBody table d d.resolved = .ok () := by
  rw [checkBody_eq hd, bind_eq_ok] at h ⊢
  obtain ⟨scope, hscope, hbody⟩ := h
  obtain ⟨t, ht, hfits⟩ := Expr.check_eq_ok.1 hbody
  obtain ⟨hscope, hsame⟩ := bodyScope_withGlobals hsame hscope
  exact ⟨_, hscope, Expr.check_eq_ok.2 ⟨t, ht.withGlobals hsame, hfits⟩⟩

theorem lookup_tableOf_perm (h : ds.Perm es) (hdistinct : ((tableOf ds).map Prod.fst).Nodup)
    (name : String) : (tableOf es).lookup name = (tableOf ds).lookup name := by
  have hperm : (tableOf ds).Perm (tableOf es) := (h.map _).append_left _
  have hdistinct' : ((tableOf es).map Prod.fst).Nodup := (hperm.map _).nodup_iff.1 hdistinct
  ext t
  rw [lookup_eq_some_iff hdistinct, lookup_eq_some_iff hdistinct', hperm.mem_iff]

theorem Admissible.perm (h : Admissible ds) (hperm : ds.Perm es) : Admissible es := by
  have hmem {d : Decl} (hd : d ∈ es) : d ∈ ds := hperm.mem_iff.2 hd
  have htable : (tableOf ds).Perm (tableOf es) := (hperm.map _).append_left _
  refine ⟨fun d hd => h.resolves d (hmem hd), (htable.map _).nodup_iff.1 h.distinct, ?_, ?_⟩
  · obtain ⟨d, hd, hmain⟩ := h.main
    exact ⟨d, hperm.mem_iff.1 hd, hmain⟩
  · intro d hd
    exact checkBody_of_same (h.resolves d (hmem hd)) (lookup_tableOf_perm hperm h.distinct)
      (h.bodies d (hmem hd))

/-- Declarations are accepted in every order or in none. The table is the same in all of them: the
functions of the host and one entry for each label. Every declaration has one checked form, and the
checked forms stand in the order of the declarations. -/
theorem check_perm (h : ds.Perm es) :
    ((∃ p, check ds = .ok p) ↔ ∃ q, check es = .ok q) ∧
      ∀ p q, check ds = .ok p → check es = .ok q →
        (∀ name, q.globals.lookup name = p.globals.lookup name) ∧
        p.globals = Builtin.table ++ p.decls.map entry ∧ (p.globals.map Prod.fst).Nodup ∧
        ∃ checked : Decl → CheckedDecl, (∀ d ∈ ds, d.ChecksTo (checked d)) ∧
          p.decls = ds.map checked ∧ q.decls = es.map checked := by
  constructor
  · constructor
    · rintro ⟨p, hp⟩
      obtain ⟨hds, _⟩ := check_eq_ok_iff.1 hp
      exact ⟨_, check_eq_ok_iff.2 ⟨hds.perm h, rfl⟩⟩
    · rintro ⟨q, hq⟩
      obtain ⟨hes, _⟩ := check_eq_ok_iff.1 hq
      exact ⟨_, check_eq_ok_iff.2 ⟨hes.perm h.symm, rfl⟩⟩
  · intro p q hp hq
    obtain ⟨hds, rfl⟩ := check_eq_ok_iff.1 hp
    obtain ⟨_, rfl⟩ := check_eq_ok_iff.1 hq
    have hchecks : ∀ d ∈ ds, d.ChecksTo d.checked := fun d hd => ⟨hds.resolves d hd, rfl, rfl, rfl⟩
    have htable : tableOf ds = Builtin.table ++ (ds.map Decl.checked).map entry := by
      rw [List.map_map]
      rfl
    exact ⟨lookup_tableOf_perm h hds.distinct, htable, hds.distinct, Decl.checked, hchecks, rfl,
      rfl⟩

/-- Every declaration but the last uses one that comes after it. -/
def forwards : String :=
  "main(args: [[Int]]): Int = if even(limit) then 1 else 0\n" ++
    "even(n: Int): Bool = if n == 0 then true else odd(n - 1)\n" ++
    "odd(n: Int): Bool = if n == 0 then false else even(n - limit)\n" ++
    "limit: Int = 1\n"

/-- Read from its end, the program is accepted as well. -/
theorem check_perm_reverse :
    ∃ ds p q, Decl.ofSource forwards = .ok ds ∧ check ds = .ok p ∧ check ds.reverse = .ok q ∧
      (∀ name, q.globals.lookup name = p.globals.lookup name) ∧ q.decls = p.decls.reverse := by
  have haccepted : (ofSource? forwards).isSome = true := by decide +kernel
  obtain ⟨p, hp⟩ := Option.isSome_iff_exists.1 haccepted
  obtain ⟨ds, hds, hp⟩ := ofSource?_eq_some hp
  obtain ⟨hiff, hsame⟩ := check_perm ds.reverse_perm.symm
  obtain ⟨q, hq⟩ := hiff.1 ⟨p, hp⟩
  obtain ⟨htable, _, _, checked, _, hpDecls, hqDecls⟩ := hsame p q hp hq
  refine ⟨ds, p, q, hds, hp, hq, htable, ?_⟩
  rw [hpDecls, hqDecls, List.map_reverse]

end Program

end ExprLang
