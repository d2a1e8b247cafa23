import ExprLang.Decl.Source
import ExprLang.Proofs.Typing.Preservation

namespace ExprLang

theorem eq_ok_of_toOption {ε α : Type} {x : Except ε α} {a : α} (h : x.toOption = some a) :
    x = .ok a := by
  cases x with
  | error e => cases h
  | ok b =>
    cases h
    rfl

namespace TypeExpr

/-- Generics are declared where they differ from each other and from those in scope. -/
theorem declareGenerics_eq_ok_iff {allowed inner : List String} {gs : List Name} :
    declareGenerics allowed gs = .ok inner ↔
      inner = allowed ++ gs.map Name.text ∧ (gs.map Name.text).Nodup ∧
        ∀ g ∈ gs.map Name.text, g ∉ allowed := by
  induction gs generalizing allowed with
  | nil => simp [declareGenerics, eq_comm]
  | cons g gs ih =>
    rw [declareGenerics]
    split
    · rename_i hg
      have hmem : g.text ∈ allowed := List.contains_iff_mem.1 hg
      simp [hmem]
    · rename_i hg
      have hmem : g.text ∉ allowed := mt List.contains_iff_mem.2 hg
      rw [ih, List.append_assoc, List.singleton_append, List.map_cons, List.nodup_cons,
        List.forall_mem_cons]
      grind

theorem declareGenerics_eq_ok {allowed inner : List String} {gs : List Name}
    (h : declareGenerics allowed gs = .ok inner) :
    inner = allowed ++ gs.map Name.text ∧ ∀ g ∈ gs, g.text ∉ allowed := by
  obtain ⟨hinner, _, hnew⟩ := declareGenerics_eq_ok_iff.1 h
  exact ⟨hinner, fun g hg => hnew g.text (List.mem_map_of_mem hg)⟩

theorem resolveAll_length {allowed : List String} {items : List TypeExpr} {ts : List Ty}
    (h : resolveAll allowed items = .ok ts) : ts.length = items.length := by
  induction items generalizing ts with
  | nil =>
    cases h
    rfl
  | cons item items ih =>
    simp only [resolveAll, bind_eq_ok] at h
    obtain ⟨t, _, ts, hts, h⟩ := h
    cases h
    rw [List.length_cons, List.length_cons, ih hts]

/-- Only a written function type stands for a function type. -/
theorem resolve_eq_fn {allowed : List String} {signature : TypeExpr} {ret : Ty} {params : List Ty}
    {names generics : List String}
    (h : signature.resolve allowed = .ok (.fn ret params names generics)) :
    ∃ pos declared written result, signature = .fn pos declared written result ∧
      names = written.map (fun p => p.1.text) ∧ generics = declared.map Name.text ∧
      ∃ inner, resolveParams inner written = .ok params ∧ result.resolve inner = .ok ret := by
  cases signature with
  | int => cases h
  | bool => cases h
  | list pos element =>
    simp only [resolve, bind_eq_ok] at h
    obtain ⟨t, _, h⟩ := h
    cases h
  | tuple pos items =>
    simp only [resolve, bind_eq_ok] at h
    obtain ⟨ts, _, h⟩ := h
    cases h
  | generic pos name =>
    rw [resolve] at h
    split at h <;> cases h
  | fn pos declared written result =>
    simp only [resolve, bind_eq_ok] at h
    obtain ⟨inner, _, ps, hparams, r, hret, h⟩ := h
    cases h
    exact ⟨pos, declared, written, result, rfl, rfl, rfl, inner, hparams, hret⟩

end TypeExpr

theorem Expr.check_eq_ok {scope : Scope} {expected : Ty} {e : Expr} {u : Unit} :
    e.check scope expected = .ok u ↔
      ∃ t, Expr.HasType .any scope e t ∧ Ty.Equiv expected t := by
  simp only [Expr.check, bind_eq_ok, Ty.demand_eq_ok, Expr.infer_eq_ok_iff]
  rfl

/-- The checked form of a declaration: its written type is resolved, and all else is kept. -/
def Decl.ChecksTo (d : Decl) (d' : CheckedDecl) : Prop :=
  d.signature.resolve [] = .ok d'.type ∧ d'.label = d.label ∧ d'.pos = d.pos ∧ d'.body = d.body

namespace Program

def entry (d : CheckedDecl) : String × Ty := (d.label, d.type)

theorem declare_eq_ok {table globals : TypeTable} {ds : List Decl} {ts : List Ty}
    (h : declare table ds = .ok (globals, ts)) :
    globals = table ++ (ds.map Decl.label).zip ts ∧
      List.Forall₂ (fun d t => d.signature.resolve [] = .ok t) ds ts := by
  induction ds generalizing table ts with
  | nil =>
    cases h
    exact ⟨by simp, .nil⟩
  | cons d ds ih =>
    rw [declare, bind_eq_ok] at h
    obtain ⟨t, ht, h⟩ := h
    split at h
    · cases h
    · obtain ⟨⟨globals', ts'⟩, hrest, h⟩ := bind_eq_ok.1 h
      cases h
      obtain ⟨hglobals, hts⟩ := ih hrest
      exact ⟨by simp [hglobals], .cons ht hts⟩

/-- The scope in which the body of a declaration is checked: a declared function binds its
parameters. -/
def bodyScope (globals : TypeTable) (d : Decl) (t : Ty) : Except TypingError Scope :=
  match d.signature, t with
  | .fn _ _ params _, .fn _ paramTys _ generics =>
    Scope.bindAll ⟨globals, [], generics⟩ (params.map Prod.fst) paramTys
  | _, _ => .ok ⟨globals, [], []⟩

def bodyType : Ty → Ty
  | .fn ret _ _ _ => ret
  | t => t

theorem checkBody_eq {d : Decl} {t : Ty} (ht : d.signature.resolve [] = .ok t)
    (globals : TypeTable) :
    checkBody globals d t =
      bodyScope globals d t >>= fun scope => d.body.check scope (bodyType t) := by
  cases t with
  | fn ret params names generics =>
    obtain ⟨pos, declared, written, result, hsignature, _⟩ := TypeExpr.resolve_eq_fn ht
    simp only [checkBody, bodyScope, hsignature]
    rfl
  | bool | int | list | tuple | generic =>
    rw [checkBody, bodyScope]
    · rfl
    · simp
    · simp

theorem checkBody_typedBy {globals : TypeTable} {d : Decl} {t : Ty} {u : Unit}
    (ht : d.signature.resolve [] = .ok t) (h : checkBody globals d t = .ok u) :
    CheckedDecl.TypedBy .any globals ⟨d.label, d.pos, t, d.body⟩ := by
  cases t with
  | fn ret params names generics =>
    obtain ⟨pos, declared, written, result, hsignature, rfl, rfl, _⟩ := TypeExpr.resolve_eq_fn ht
    simp only [checkBody, hsignature] at h
    obtain ⟨scope, hbind, hbody⟩ := bind_eq_ok.1 h
    obtain ⟨t, hbody, hfits⟩ := Expr.check_eq_ok.1 hbody
    exact ⟨written.map Prod.fst, scope, t, List.map_map, hbind, hbody, hfits⟩
  | bool | int | list | tuple | generic =>
    rw [checkBody] at h
    · exact Expr.check_eq_ok.1 h
    · simp

theorem checkBodies_eq_ok {globals : TypeTable} {ds : List Decl} {ts : List Ty}
    {decls : List CheckedDecl}
    (hts : List.Forall₂ (fun d t => d.signature.resolve [] = .ok t) ds ts)
    (h : checkBodies globals ds ts = .ok decls) :
    decls.map entry = (ds.map Decl.label).zip ts ∧ List.Forall₂ Decl.ChecksTo ds decls ∧
      ∀ d ∈ decls, d.TypedBy .any globals := by
  induction hts generalizing decls with
  | nil =>
    cases h
    exact ⟨rfl, .nil, by simp⟩
  | cons ht hts ih =>
    simp only [checkBodies, bind_eq_ok] at h
    obtain ⟨_, hbody, rest, hrest, h⟩ := h
    cases h
    obtain ⟨hentries, hdecls, htyped⟩ := ih hrest
    refine ⟨congrArg _ hentries, .cons ⟨ht, rfl, rfl, rfl⟩ hdecls, ?_⟩
    exact List.forall_mem_cons.2 ⟨checkBody_typedBy ht hbody, htyped⟩

theorem lookup_map_entry (decls : List CheckedDecl) (name : String) :
    (decls.map entry).lookup name =
      (decls.find? fun d => d.label == name).map CheckedDecl.type := by
  induction decls with
  | nil => rfl
  | cons d decls ih =>
    rw [List.map_cons, entry, lookup_cons_eq_ite, List.find?_cons, ih]
    by_cases hd : d.label = name
    · simp [hd]
    · rw [if_neg fun h => hd h.symm, beq_false_of_ne hd]

theorem declare_distinct {table globals : TypeTable} {ds : List Decl} {ts : List Ty}
    (htable : (table.map Prod.fst).Nodup)
    (h : declare table ds = .ok (globals, ts)) : (globals.map Prod.fst).Nodup := by
  induction ds generalizing table ts with
  | nil =>
    cases h
    exact htable
  | cons d ds ih =>
    rw [declare, bind_eq_ok] at h
    obtain ⟨t, _, h⟩ := h
    split at h
    · cases h
    · rename_i hnew
      obtain ⟨⟨globals', ts'⟩, hrest, h⟩ := bind_eq_ok.1 h
      cases h
      have hnew : d.label ∉ table.map Prod.fst :=
        (lookup_eq_none_iff table d.label).1 (Option.not_isSome_iff_eq_none.1 hnew)
      apply ih _ hrest
      rw [List.map_append]
      refine List.nodup_append.2 ⟨htable, List.pairwise_singleton _ _, ?_⟩
      rintro label hlabel _ hmem rfl
      rw [List.mem_singleton.1 hmem] at hlabel
      exact hnew hlabel

theorem builtin_distinct : (Builtin.table.map Prod.fst).Nodup := by decide

theorem check_eq_ok {ds : List Decl} {p : Program} (h : check ds = .ok p) :
    p.globals = Builtin.table ++ p.decls.map entry ∧ List.Forall₂ Decl.ChecksTo ds p.decls ∧
      ∀ d ∈ p.decls, d.TypedBy .any p.globals := by
  rw [check, bind_eq_ok] at h
  obtain ⟨⟨globals, ts⟩, hdeclare, h⟩ := h
  simp only [bind_eq_ok] at h
  obtain ⟨_, _, decls, hbodies, h⟩ := h
  cases h
  obtain ⟨hglobals, hts⟩ := declare_eq_ok hdeclare
  obtain ⟨hentries, hdecls, htyped⟩ := checkBodies_eq_ok hts hbodies
  exact ⟨by rw [hglobals, hentries], hdecls, htyped⟩

theorem check_distinct {ds : List Decl} {p : Program} (h : check ds = .ok p) :
    (p.globals.map Prod.fst).Nodup := by
  simp only [check, bind_eq_ok] at h
  obtain ⟨⟨globals, ts⟩, hdeclare, _, _, decls, _, h⟩ := h
  cases h
  exact declare_distinct builtin_distinct hdeclare

theorem check_labels_nodup {ds : List Decl} {p : Program} (h : check ds = .ok p) :
    (p.decls.map CheckedDecl.label).Nodup := by
  have hdistinct := check_distinct h
  rw [(check_eq_ok h).1, List.map_append, List.map_map] at hdistinct
  exact (List.nodup_append.1 hdistinct).2.1

theorem find?_eq {ds : List Decl} {p : Program} (h : check ds = .ok p) (name : String) :
    p.find? name = p.decls.find? fun d => d.label == name :=
  find?_reverse_of_nodup CheckedDecl.label (check_labels_nodup h) name

theorem exists_checksTo {ds : List Decl} {p : Program} (h : check ds = .ok p) {d' : CheckedDecl}
    (hd' : d' ∈ p.decls) : ∃ d ∈ ds, d.ChecksTo d' := by
  obtain ⟨_, hdecls, _⟩ := check_eq_ok h
  exact exists_of_mem_right hdecls hd'

theorem map_label_eq {ds : List Decl} {decls : List CheckedDecl}
    (h : List.Forall₂ Decl.ChecksTo ds decls) :
    ds.map Decl.label = decls.map CheckedDecl.label := by
  induction h with
  | nil => rfl
  | cons hd _ ih =>
    obtain ⟨_, hlabel, _, _⟩ := hd
    rw [List.map_cons, List.map_cons, hlabel, ih]

theorem lookup_label {ds : List Decl} {p : Program} (h : check ds = .ok p) {label : String}
    (hlabel : label ∈ ds.map Decl.label) : (p.globals.lookup label).isSome = true := by
  obtain ⟨hglobals, hdecls, _⟩ := check_eq_ok h
  rw [map_label_eq hdecls] at hlabel
  obtain ⟨d, hd, rfl⟩ := List.mem_map.1 hlabel
  have hfind : (p.decls.find? fun d' => d'.label == d.label).isSome = true :=
    List.find?_isSome.2 ⟨d, hd, beq_self_eq_true _⟩
  rw [hglobals, List.lookup_append, lookup_map_entry, Option.isSome_or, Option.isSome_map, hfind,
    Bool.or_true]

theorem lookup_labels_zip (ds : List Decl) (ts : List Ty) (name : String) :
    ((ds.map Decl.label).zip ts).lookup name =
      ((ds.zip ts).find? fun p => p.1.label == name).map Prod.snd := by
  induction ds generalizing ts with
  | nil => rfl
  | cons d ds ih =>
    cases ts with
    | nil => rfl
    | cons t ts =>
      rw [List.map_cons, List.zip_cons_cons, List.zip_cons_cons, lookup_cons_eq_ite,
        List.find?_cons, ih]
      by_cases hd : d.label = name
      · simp [hd]
      · rw [if_neg fun h => hd h.symm, beq_false_of_ne hd]

theorem check_main {ds : List Decl} {p : Program} (h : check ds = .ok p) :
    ∃ t, p.globals.lookup mainLabel = some t ∧ t.equiv mainType = true := by
  rw [check, bind_eq_ok] at h
  obtain ⟨⟨globals, ts⟩, hdeclare, h⟩ := h
  simp only [bind_eq_ok] at h
  obtain ⟨_, hmain, decls, _, h⟩ := h
  cases h
  obtain ⟨hglobals, _⟩ := declare_eq_ok hdeclare
  rw [checkMain] at hmain
  split at hmain
  · cases hmain
  · rename_i d t hfind
    split at hmain
    · cases hmain
    · rename_i hno
      have hmain : isGeneric t = false ∧ t.equiv mainType = true := by simpa using hno
      refine ⟨t, ?_, hmain.2⟩
      have hfind : (ds.zip ts).find? (fun p => p.1.label == mainLabel) = some (d, t) := hfind
      have hbuiltin : Builtin.table.lookup mainLabel = none := rfl
      rw [hglobals, List.lookup_append, hbuiltin, lookup_labels_zip, hfind]
      rfl

theorem lookup_builtin_table (name : String) :
    Builtin.table.lookup name = (Builtin.ofName? name).map Builtin.type := by
  simp only [Builtin.table, List.map_cons, List.map_nil, lookup_cons_eq_ite, List.lookup_nil]
  split
  · rename_i h
    rw [h]
    rfl
  split
  · rename_i h
    rw [h]
    rfl
  split
  · rename_i h
    rw [h]
    rfl
  · rename_i hprint hinput hrand
    rw [Builtin.ofName?]
    · rfl
    · exact hprint
    · exact hinput
    · exact hrand

theorem check_typedBy {ds : List Decl} {p : Program} (h : check ds = .ok p) :
    p.TypedBy .any := by
  obtain ⟨hglobals, _, hbodies⟩ := check_eq_ok h
  refine ⟨fun name t ht => ?_, hbodies⟩
  rw [hglobals, List.lookup_append, lookup_builtin_table, lookup_map_entry, ← find?_eq h] at ht
  rw [Callable.ofName]
  cases hb : Builtin.ofName? name with
  | some b =>
    rw [hb] at ht
    exact ht
  | none =>
    rw [hb] at ht
    exact ht

def ofSource? (source : String) : Option Program :=
  match Decl.ofSource source with
  | .ok ds => (check ds).toOption
  | .error _ => none

theorem ofSource?_eq_some {source : String} {p : Program} (h : ofSource? source = some p) :
    ∃ ds, Decl.ofSource source = .ok ds ∧ check ds = .ok p := by
  unfold ofSource? at h
  split at h
  · rename_i ds hds
    exact ⟨ds, hds, eq_ok_of_toOption h⟩
  · cases h

end Program

end ExprLang
