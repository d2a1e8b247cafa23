import ExprLang.Proofs.Ty.Free
import ExprLang.Proofs.Ty.Reading
import ExprLang.Proofs.Typing.Checked

namespace ExprLang

namespace TypeExpr

mutual

theorem resolve_free {allowed : List String} : (written : TypeExpr) → {t : Ty} →
    written.resolve allowed = .ok t → ∀ x ∈ t.free, x ∈ allowed
  | int _, _, h, x, hx => by
    cases h
    cases hx
  | bool _, _, h, x, hx => by
    cases h
    cases hx
  | generic _ name, _, h, x, hx => by
    rw [resolve] at h
    split at h
    · rename_i hname
      cases h
      rw [List.mem_singleton.1 hx]
      exact List.contains_iff_mem.1 hname
    · cases h
  | list _ element, _, h, x, hx => by
    simp only [resolve, bind_eq_ok] at h
    obtain ⟨t, ht, h⟩ := h
    cases h
    exact resolve_free element ht x hx
  | tuple _ items, _, h, x, hx => by
    simp only [resolve, bind_eq_ok] at h
    obtain ⟨ts, hts, h⟩ := h
    cases h
    exact resolveAll_free items hts x hx
  | fn _ generics params ret, _, h, x, hx => by
    simp only [resolve, bind_eq_ok] at h
    obtain ⟨inner, hinner, ps, hps, r, hr, h⟩ := h
    cases h
    obtain ⟨rfl, _⟩ := declareGenerics_eq_ok hinner
    obtain ⟨hx, hnot⟩ := Ty.mem_free_fn_iff.1 hx
    have hmem : x ∈ allowed ++ generics.map Name.text := by
      rcases List.mem_append.1 hx with hx | hx
      · exact resolve_free ret hr x hx
      · exact resolveParams_free params hps x hx
    exact (List.mem_append.1 hmem).resolve_right hnot

theorem resolveAll_free {allowed : List String} : (items : List TypeExpr) → {ts : List Ty} →
    resolveAll allowed items = .ok ts → ∀ x ∈ Ty.freeAll ts, x ∈ allowed
  | [], _, h, x, hx => by
    cases h
    cases hx
  | item :: items, _, h, x, hx => by
    simp only [resolveAll, bind_eq_ok] at h
    obtain ⟨t, ht, ts, hts, h⟩ := h
    cases h
    rcases List.mem_append.1 hx with hx | hx
    · exact resolve_free item ht x hx
    · exact resolveAll_free items hts x hx

theorem resolveParams_free {allowed : List String} : (params : List (Name × TypeExpr)) →
    {ts : List Ty} → resolveParams allowed params = .ok ts → ∀ x ∈ Ty.freeAll ts, x ∈ allowed
  | [], _, h, x, hx => by
    cases h
    cases hx
  | (_, param) :: params, _, h, x, hx => by
    simp only [resolveParams, bind_eq_ok] at h
    obtain ⟨t, ht, ts, hts, h⟩ := h
    cases h
    rcases List.mem_append.1 hx with hx | hx
    · exact resolve_free param ht x hx
    · exact resolveParams_free params hts x hx

end

end TypeExpr

/-- No global has a free generic, and those of the locals are in scope. -/
structure Scope.Confined (scope : Scope) : Prop where
  globals : ∀ entry ∈ scope.globals, entry.2.free = []
  locals : ∀ entry ∈ scope.locals, ∀ x ∈ entry.2.free, x ∈ scope.generics

namespace Scope.Confined

variable {scope inner : Scope}

theorem lookup (h : scope.Confined) {name : String} {t : Ty} (ht : scope.lookup name = some t) :
    ∀ x ∈ t.free, x ∈ scope.generics := by
  intro x hx
  rw [Scope.lookup] at ht
  split at ht
  · rename_i u hlocal
    cases ht
    exact h.locals _ (Substitution.mem_of_lookup hlocal) x hx
  · have hnone := h.globals _ (Substitution.mem_of_lookup ht)
    rw [hnone] at hx
    cases hx

theorem bindAll (h : scope.Confined) {names : List Name} {ts : List Ty}
    (hts : ∀ x ∈ Ty.freeAll ts, x ∈ scope.generics) (hbind : scope.bindAll names ts = .ok inner) :
    inner.Confined ∧ inner.generics = scope.generics := by
  obtain rfl := Scope.bindAll_ok hbind
  refine ⟨⟨h.globals, ?_⟩, rfl⟩
  intro entry hentry x hx
  rcases List.mem_append.1 hentry with hnew | hold
  · have ht : entry.2 ∈ ts := (List.of_mem_zip (List.mem_reverse.1 hnew)).2
    exact hts x ((Ty.mem_freeAll_iff ts).2 ⟨entry.2, ht, hx⟩)
  · exact h.locals entry hold x hx

theorem bind (h : scope.Confined) {name : Name} {t : Ty} (ht : ∀ x ∈ t.free, x ∈ scope.generics)
    (hbind : scope.bind name t = .ok inner) :
    inner.Confined ∧ inner.generics = scope.generics := by
  obtain ⟨_, _, rfl⟩ := Scope.bind_ok hbind
  exact ⟨⟨h.globals, List.forall_mem_cons.2 ⟨ht, h.locals⟩⟩, rfl⟩

theorem bindPair (h : scope.Confined) {head tail : Name} {element : Ty} {scope₁ : Scope}
    (ht : ∀ x ∈ (Ty.list element).free, x ∈ scope.generics)
    (hhead : scope.bind head element = .ok scope₁)
    (htail : scope₁.bind tail (.list element) = .ok inner) :
    inner.Confined ∧ inner.generics = scope.generics := by
  obtain ⟨h₁, hgenerics₁⟩ := h.bind (t := element) ht hhead
  rw [← hgenerics₁] at ht
  obtain ⟨h₂, hgenerics₂⟩ := h₁.bind ht htail
  exact ⟨h₂, hgenerics₂.trans hgenerics₁⟩

end Scope.Confined

theorem Ty.instantiate_none {scope : Scope} {ret : Ty} {params : List Ty}
    {names generics : List String} {pos : Position} {r : Ty × List Ty}
    (h : (Ty.fn ret params names generics).instantiate scope none pos = .ok r) : generics = [] := by
  cases generics with
  | nil => rfl
  | cons g gs => cases h

/-- The type arguments take the place of the generics that the callee declares. -/
theorem Ty.instantiate_free {scope : Scope} {t : Ty} {typeArgs : Option (List TypeExpr)}
    {pos : Position} {ret : Ty} {params : List Ty}
    (h : t.instantiate scope typeArgs pos = .ok (ret, params))
    (ht : ∀ x ∈ t.free, x ∈ scope.generics) : ∀ x ∈ ret.free, x ∈ scope.generics := by
  intro x hx
  obtain ⟨fnRet, fnParams, names, generics, rfl, hparts⟩ := Ty.instantiate_eq_ok h
  have hret (hx : x ∈ fnRet.free) (hnot : x ∉ generics) : x ∈ scope.generics :=
    ht x (Ty.mem_free_fn_iff.2 ⟨List.mem_append_left _ hx, hnot⟩)
  rcases hparts with ⟨rfl, rfl, rfl⟩ | ⟨args, resolved, rfl, _, hlength, hresolved, rfl, rfl⟩
  · rw [Ty.instantiate_none h] at hret
    exact hret hx List.not_mem_nil
  · have hreplaces := Substitution.replaces_zip
      ((TypeExpr.resolveAll_length hresolved).trans hlength)
    rcases Substitution.mem_free_apply _ hx with ⟨hx, hkept⟩ | ⟨e, he, hx⟩
    · refine hret hx fun hmem => ?_
      rw [(hreplaces x).2 hmem] at hkept
      cases hkept
    · have he : e.2 ∈ resolved := (List.of_mem_zip (Substitution.mem_of_mem_ofList he)).2
      exact TypeExpr.resolveAll_free args hresolved x ((Ty.mem_freeAll_iff _).2 ⟨e.2, he, hx⟩)

namespace Expr

/-- The free generics of the type of an expression are in scope. -/
theorem HasType.free {rule : CalleeRule} {scope : Scope} {e : Expr} {t : Ty}
    (h : HasType rule scope e t) (hscope : scope.Confined) : ∀ x ∈ t.free, x ∈ scope.generics := by
  induction h using HasType.induction with
  | int => exact List.forall_mem_nil _
  | bool => exact List.forall_mem_nil _
  | str => exact List.forall_mem_nil _
  | ident h => exact hscope.lookup h
  | list _ _ _ ihFirst _ => exact ihFirst hscope
  | emptyOf h =>
    intro x hx
    exact TypeExpr.resolve_free _ h x hx
  | tuple _ ihItems =>
    intro x hx
    obtain ⟨t, ht, hx⟩ := (Ty.mem_freeAll_iff _).1 hx
    obtain ⟨_, _, ⟨_, ih⟩⟩ := exists_of_mem_right ihItems ht
    exact ih hscope x hx
  | call _ _ hinst _ _ ihCallee _ => exact Ty.instantiate_free hinst (ihCallee hscope)
  | cond _ _ _ _ _ _ ihYes _ => exact ihYes hscope
  | unpack _ hhead htail _ _ _ ihWhole ihYes _ =>
    obtain ⟨hinner, hgenerics⟩ := hscope.bindPair (ihWhole hscope) hhead htail
    have hyes := ihYes hinner
    rwa [hgenerics] at hyes
  | letName _ hbind _ ihValue ihBody =>
    obtain ⟨hinner, hgenerics⟩ := hscope.bind (ihValue hscope) hbind
    have hbody := ihBody hinner
    rwa [hgenerics] at hbody
  | letTuple _ _ hbind _ ihValue ihBody =>
    obtain ⟨hinner, hgenerics⟩ := hscope.bindAll (ihValue hscope) hbind
    have hbody := ihBody hinner
    rwa [hgenerics] at hbody
  | cons _ _ _ ihTail _ => exact ihTail hscope
  | @binary _ _ op => cases op <;> exact List.forall_mem_nil _
  | @unary _ _ op => cases op <;> exact List.forall_mem_nil _

/-- The way of the checker through an expression: the parts that it visits, each in the scope in
which it does, whatever came of the parts that it visited before. -/
inductive Visits : Scope → Expr → Scope → Expr → Prop
  | self {scope e} : Visits scope e scope e
  | item {scope pos items item inner e} (hitem : item ∈ items) (h : Visits scope item inner e) :
    Visits scope (.list pos items) inner e
  | component {scope pos items item inner e} (hitem : item ∈ items)
    (h : Visits scope item inner e) : Visits scope (.tuple pos items) inner e
  | callee {scope pos callee generics args inner e} (h : Visits scope callee inner e) :
    Visits scope (.call pos callee generics args) inner e
  | argument {scope pos callee generics args arg inner e} (harg : arg ∈ args)
    (h : Visits scope arg inner e) : Visits scope (.call pos callee generics args) inner e
  | test {scope pos test yes no inner e} (h : Visits scope test inner e) :
    Visits scope (.cond pos test yes no) inner e
  | condYes {scope pos test yes no inner e} (h : Visits scope yes inner e) :
    Visits scope (.cond pos test yes no) inner e
  | condNo {scope pos test yes no inner e} (h : Visits scope no inner e) :
    Visits scope (.cond pos test yes no) inner e
  | whole {scope pos head tail whole yes no inner e} (h : Visits scope whole inner e) :
    Visits scope (.unpack pos head tail whole yes no) inner e
  | unpackYes {scope pos head tail whole yes no element scope₁ scope₂ inner e}
    (hwhole : whole.infer scope = .ok (.list element))
    (hhead : scope.bind head element = .ok scope₁)
    (htail : scope₁.bind tail (.list element) = .ok scope₂) (h : Visits scope₂ yes inner e) :
    Visits scope (.unpack pos head tail whole yes no) inner e
  | unpackNo {scope pos head tail whole yes no inner e} (h : Visits scope no inner e) :
    Visits scope (.unpack pos head tail whole yes no) inner e
  | letValue {scope pos name value body inner e} (h : Visits scope value inner e) :
    Visits scope (.letName pos name value body) inner e
  | letBody {scope pos name value body t scope₁ inner e} (hvalue : value.infer scope = .ok t)
    (hbind : scope.bind name t = .ok scope₁) (h : Visits scope₁ body inner e) :
    Visits scope (.letName pos name value body) inner e
  | letTupleValue {scope pos names value body inner e} (h : Visits scope value inner e) :
    Visits scope (.letTuple pos names value body) inner e
  | letTupleBody {scope pos names value body ts scope₁ inner e}
    (hvalue : value.infer scope = .ok (.tuple ts)) (hlength : ts.length = names.length)
    (hbind : scope.bindAll names ts = .ok scope₁) (h : Visits scope₁ body inner e) :
    Visits scope (.letTuple pos names value body) inner e
  | tail {scope pos head tail inner e} (h : Visits scope tail inner e) :
    Visits scope (.cons pos head tail) inner e
  | head {scope pos head tail inner e} (h : Visits scope head inner e) :
    Visits scope (.cons pos head tail) inner e
  | left {scope pos op left right inner e} (h : Visits scope left inner e) :
    Visits scope (.binary pos op left right) inner e
  | right {scope pos op left right inner e} (h : Visits scope right inner e) :
    Visits scope (.binary pos op left right) inner e
  | operand {scope pos op operand inner e} (h : Visits scope operand inner e) :
    Visits scope (.unary pos op operand) inner e

theorem infer_free {scope : Scope} {e : Expr} {t : Ty} (h : e.infer scope = .ok t)
    (hscope : scope.Confined) : ∀ x ∈ t.free, x ∈ scope.generics :=
  (infer_sound e h).free hscope

/-- What the checker binds on its way keeps to the generics in scope. -/
theorem Visits.confined {scope inner : Scope} {whole e : Expr} (h : Visits scope whole inner e)
    (hscope : scope.Confined) : inner.Confined ∧ inner.generics = scope.generics := by
  induction h with
  | self => exact ⟨hscope, rfl⟩
  | unpackYes hwhole hhead htail _ ih =>
    obtain ⟨hbound, hgenerics⟩ := hscope.bindPair (infer_free hwhole hscope) hhead htail
    rw [← hgenerics]
    exact ih hbound
  | letBody hvalue hbind _ ih =>
    obtain ⟨hbound, hgenerics⟩ := hscope.bind (infer_free hvalue hscope) hbind
    rw [← hgenerics]
    exact ih hbound
  | letTupleBody hvalue _ hbind _ ih =>
    obtain ⟨hbound, hgenerics⟩ := hscope.bindAll (infer_free hvalue hscope) hbind
    rw [← hgenerics]
    exact ih hbound
  | _ =>
    rename_i ih
    exact ih hscope

end Expr

namespace Program

theorem bodyScope_confined {globals : TypeTable} {d : Decl} {t : Ty} {scope : Scope}
    (hglobals : ∀ entry ∈ globals, entry.2.free = []) (ht : t.free = [])
    (h : bodyScope globals d t = .ok scope) :
    scope.Confined ∧ ∀ x ∈ scope.generics, x ∈ t.declared := by
  unfold bodyScope at h
  split at h
  · rename_i ret paramTys names generics _
    have hstart : Scope.Confined ⟨globals, [], generics⟩ := ⟨hglobals, List.forall_mem_nil _⟩
    have hparams : ∀ x ∈ Ty.freeAll paramTys, x ∈ generics := by
      intro x hx
      by_contra hnot
      have hfree : x ∈ (Ty.fn ret paramTys names generics).free :=
        Ty.mem_free_fn_iff.2 ⟨List.mem_append_right ret.free hx, hnot⟩
      rw [ht] at hfree
      cases hfree
    obtain ⟨hscope, hgenerics⟩ := hstart.bindAll hparams h
    refine ⟨hscope, ?_⟩
    rw [hgenerics]
    exact fun x hx => hx
  · cases h
    exact ⟨⟨hglobals, List.forall_mem_nil _⟩, List.forall_mem_nil _⟩

theorem builtin_table_free : ∀ entry ∈ Builtin.table, entry.2.free = [] := by
  intro entry hentry
  obtain ⟨b, _, rfl⟩ := List.mem_map.1 hentry
  cases b <;> rfl

theorem declare_free {ds : List Decl} {globals : TypeTable} {ts : List Ty}
    (h : declare Builtin.table ds = .ok (globals, ts)) :
    (∀ entry ∈ globals, entry.2.free = []) ∧ ∀ t ∈ ts, t.free = [] := by
  obtain ⟨rfl, hts⟩ := declare_eq_ok h
  have hfree : ∀ t ∈ ts, t.free = [] := by
    intro t ht
    obtain ⟨d, _, hresolve⟩ := exists_of_mem_right hts ht
    exact List.eq_nil_iff_forall_not_mem.2 fun x hx =>
      List.not_mem_nil (d.signature.resolve_free hresolve x hx)
  refine ⟨List.forall_mem_append.2 ⟨builtin_table_free, ?_⟩, hfree⟩
  intro entry hentry
  exact hfree entry.2 (List.of_mem_zip hentry).2

/-- If all signatures resolve and register, no global has a free generic, and whenever the checker
finds a type for a part of a body, the signature declares the free generics of that type. -/
theorem declare_generics_confined {ds : List Decl} {globals : TypeTable} {ts : List Ty}
    (h : declare Builtin.table ds = .ok (globals, ts)) :
    (∀ entry ∈ globals, entry.2.free = []) ∧
      ∀ d t, (d, t) ∈ ds.zip ts → ∀ scope, bodyScope globals d t = .ok scope →
        ∀ inner e u, Expr.Visits scope d.body inner e → e.infer inner = .ok u →
          ∀ x ∈ u.free, x ∈ t.declared := by
  obtain ⟨hglobals, hts⟩ := declare_free h
  refine ⟨hglobals, ?_⟩
  intro d t hd scope hscope inner e u hvisits hinfer x hx
  obtain ⟨hconfined, hdeclared⟩ := bodyScope_confined hglobals (hts t (List.of_mem_zip hd).2) hscope
  obtain ⟨hinner, hgenerics⟩ := hvisits.confined hconfined
  have hmem := Expr.infer_free hinfer hinner x hx
  rw [hgenerics] at hmem
  exact hdeclared x hmem

/-- `over` calls `wrap` with a type argument that has the name of a generic that the result of
`wrap` declares. -/
def wrapping : String :=
  "wrap\x7bA\x7d(a: A): \x7bB\x7d (A, Int)(b: Int) = wrap\x7bA\x7d(a)\n" ++
    "over\x7bB\x7d(x: B): \x7bC\x7d (B, Int)(b: Int) = wrap\x7bB\x7d(x)\n" ++
    "main(args: [[Int]]): Int = 0\n"

/-- The body of `over` has a type in which one generic is free and another one, renamed, is
declared. -/
theorem declare_generics_confined_wrapping :
    ∃ ds globals ts d t scope u, Decl.ofSource wrapping = .ok ds ∧
      declare Builtin.table ds = .ok (globals, ts) ∧ (d, t) ∈ ds.zip ts ∧
      bodyScope globals d t = .ok scope ∧ d.body.infer scope = .ok u ∧
      u.text = "\x7bB'\x7d (B, Int)(b: Int)" ∧ u.free = ["B"] ∧ ∀ x ∈ u.free, x ∈ t.declared := by
  have hrun : ((Decl.ofSource wrapping).toOption.bind fun ds =>
      (declare Builtin.table ds).toOption.bind fun r =>
        (ds.zip r.2)[1]?.bind fun entry =>
          (bodyScope r.1 entry.1 entry.2).toOption.bind fun scope =>
            (entry.1.body.infer scope).toOption.map fun u => (u.text, u.free)) =
      some ("\x7bB'\x7d (B, Int)(b: Int)", ["B"]) := by
    decide +kernel
  obtain ⟨ds, hds, hrun⟩ := Option.bind_eq_some_iff.1 hrun
  obtain ⟨⟨globals, ts⟩, hdeclare, hrun⟩ := Option.bind_eq_some_iff.1 hrun
  obtain ⟨⟨d, t⟩, hentry, hrun⟩ := Option.bind_eq_some_iff.1 hrun
  obtain ⟨scope, hscope, hrun⟩ := Option.bind_eq_some_iff.1 hrun
  obtain ⟨u, hu, htext⟩ := Option.map_eq_some_iff.1 hrun
  have hdeclare := eq_ok_of_toOption hdeclare
  have hmem : (d, t) ∈ ds.zip ts := List.mem_of_getElem? hentry
  have hscope := eq_ok_of_toOption hscope
  have hu := eq_ok_of_toOption hu
  obtain ⟨htext, hfree⟩ := Prod.mk.inj htext
  exact ⟨ds, globals, ts, d, t, scope, u, eq_ok_of_toOption hds, hdeclare, hmem, hscope, hu, htext,
    hfree, (declare_generics_confined hdeclare).2 d t hmem scope hscope scope d.body u .self hu⟩

end Program

end ExprLang
