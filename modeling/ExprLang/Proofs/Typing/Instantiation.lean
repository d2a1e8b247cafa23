import ExprLang.Proofs.Ty.Binders
import ExprLang.Proofs.Ty.Free
import ExprLang.Proofs.Typing.Resolution

namespace ExprLang

theorem lookup_zip_rel {α β : Type} {R : α → β → Prop} {as : List α} {bs : List β}
    (h : List.Forall₂ R as bs) (keys : List String) (name : String) :
    Option.Rel R ((keys.zip as).lookup name) ((keys.zip bs).lookup name) := by
  induction h generalizing keys with
  | nil =>
    rw [List.zip_nil_right, List.zip_nil_right]
    exact .none
  | cons hab _ ih =>
    cases keys with
    | nil => exact .none
    | cons key keys =>
      rw [List.zip_cons_cons, List.zip_cons_cons, lookup_cons_eq_ite, lookup_cons_eq_ite]
      split
      · exact .some hab
      · exact ih keys

theorem Substitution.get?_ofList {pairs : List (String × Ty)} (h : (pairs.map Prod.fst).Nodup)
    (a : String) : (ofList pairs).get? a = pairs.lookup a := by
  cases hget : (ofList pairs).get? a with
  | some t => exact ((lookup_eq_some_iff h).2 (mem_of_mem_ofList (mem_of_lookup hget))).symm
  | none =>
    refine ((lookup_eq_none_iff pairs a).2 fun ha => ?_).symm
    have hreplaces := (replaces_ofList pairs a).2 ha
    rw [replaces, hget] at hreplaces
    cases hreplaces

namespace TypeExpr

mutual

/-- The generics that are declared in a written type, and what is taken of each reference. -/
def collect (refs : String → List String) : TypeExpr → List String
  | int _ | bool _ => []
  | list _ t => t.collect refs
  | tuple _ ts => collectAll refs ts
  | generic _ a => refs a
  | fn _ generics params ret =>
    generics.map Name.text ++ (ret.collect refs ++ collectParams refs params)

def collectAll (refs : String → List String) : List TypeExpr → List String
  | [] => []
  | t :: ts => t.collect refs ++ collectAll refs ts

def collectParams (refs : String → List String) : List (Name × TypeExpr) → List String
  | [] => []
  | (_, t) :: params => t.collect refs ++ collectParams refs params

end

def binders (t : TypeExpr) : List String := t.collect fun _ => []

def names (t : TypeExpr) : List String := t.collect fun a => [a]

mutual

/-- Puts written types in the place of references, all at once. -/
def replace (σ : List (String × TypeExpr)) : TypeExpr → TypeExpr
  | int pos => int pos
  | bool pos => bool pos
  | list pos t => list pos (t.replace σ)
  | tuple pos ts => tuple pos (replaceAll σ ts)
  | generic pos a => (σ.lookup a).getD (generic pos a)
  | fn pos generics params ret => fn pos generics (replaceParams σ params) (ret.replace σ)

def replaceAll (σ : List (String × TypeExpr)) : List TypeExpr → List TypeExpr
  | [] => []
  | t :: ts => t.replace σ :: replaceAll σ ts

def replaceParams (σ : List (String × TypeExpr)) :
    List (Name × TypeExpr) → List (Name × TypeExpr)
  | [] => []
  | (name, t) :: params => (name, t.replace σ) :: replaceParams σ params

end

section Collect

variable {refs : String → List String} {x : String}

theorem mem_collectAll_iff (ts : List TypeExpr) :
    x ∈ collectAll refs ts ↔ ∃ t ∈ ts, x ∈ t.collect refs := by
  induction ts with
  | nil => simp [collectAll]
  | cons t ts ih => simp [collectAll, ih]

theorem collectParams_eq_collectAll (params : List (Name × TypeExpr)) :
    collectParams refs params = collectAll refs (params.map Prod.snd) := by
  induction params with
  | nil => rfl
  | cons p params ih => rw [collectParams, ih, List.map_cons, collectAll]

theorem mem_collect_fn_iff {pos : Position} {generics : List Name}
    {params : List (Name × TypeExpr)} {ret : TypeExpr} :
    x ∈ (fn pos generics params ret).collect refs ↔
      x ∈ generics.map Name.text ∨ ∃ t ∈ ret :: params.map Prod.snd, x ∈ t.collect refs := by
  rw [← mem_collectAll_iff, collect, List.mem_append, collectParams_eq_collectAll, collectAll]

theorem mem_names_of_mem_binders {t : TypeExpr} (h : x ∈ t.binders) : x ∈ t.names := by
  induction t using TypeExpr.induction with
  | int => cases h
  | bool => cases h
  | list pos t ih => exact ih h
  | tuple pos ts ih =>
    obtain ⟨t, ht, hx⟩ := (mem_collectAll_iff ts).1 h
    exact (mem_collectAll_iff ts).2 ⟨t, ht, ih t ht hx⟩
  | generic => cases h
  | fn pos generics params ret ih =>
    rcases mem_collect_fn_iff.1 h with hg | ⟨t, ht, hx⟩
    · exact mem_collect_fn_iff.2 (.inl hg)
    · exact mem_collect_fn_iff.2 (.inr ⟨t, ht, ih t ht hx⟩)

end Collect

theorem replaceAll_eq_map (σ : List (String × TypeExpr)) (ts : List TypeExpr) :
    replaceAll σ ts = ts.map (replace σ) := by
  induction ts with
  | nil => rfl
  | cons t ts ih => rw [replaceAll, ih, List.map_cons]

theorem map_snd_replaceParams (σ : List (String × TypeExpr)) (params : List (Name × TypeExpr)) :
    (replaceParams σ params).map Prod.snd = (params.map Prod.snd).map (replace σ) := by
  induction params with
  | nil => rfl
  | cons p params ih => rw [replaceParams, List.map_cons, ih, List.map_cons, List.map_cons]

theorem map_text_replaceParams (σ : List (String × TypeExpr)) (params : List (Name × TypeExpr)) :
    (replaceParams σ params).map (fun p => p.1.text) = params.map fun p => p.1.text := by
  induction params with
  | nil => rfl
  | cons p params ih => rw [replaceParams, List.map_cons, ih, List.map_cons]

section Resolve

variable {allowed : List String}

theorem mem_names_of_resolve {w : TypeExpr} {t : Ty} (h : w.resolve allowed = .ok t) {x : String}
    (hx : x ∈ t.names) : x ∈ w.names := by
  have hall {allowed : List String} {items : List TypeExpr} {ts : List Ty}
      (ih : ∀ w ∈ items, ∀ {allowed : List String} {t : Ty},
        w.resolve allowed = .ok t → x ∈ t.names → x ∈ w.names)
      (h : List.Forall₂ (fun item t => item.resolve allowed = .ok t) items ts)
      (hx : x ∈ Ty.namesAll ts) : ∃ w ∈ items, x ∈ w.names := by
    obtain ⟨t, ht, hx⟩ := (Ty.mem_namesAll_iff ts).1 hx
    obtain ⟨w, hw, h⟩ := exists_of_mem_right h ht
    exact ⟨w, hw, ih w hw h hx⟩
  induction w using TypeExpr.induction generalizing allowed t with
  | int =>
    cases h
    cases hx
  | bool =>
    cases h
    cases hx
  | list pos item ih =>
    obtain ⟨element, hitem, rfl⟩ := resolve_list_eq_ok_iff.1 h
    exact ih hitem hx
  | tuple pos items ih =>
    obtain ⟨ts, hts, rfl⟩ := resolve_tuple_eq_ok_iff.1 h
    exact (mem_collectAll_iff items).2 (hall ih hts hx)
  | generic pos a =>
    obtain ⟨-, rfl⟩ := resolve_generic_eq_ok_iff.1 h
    exact hx
  | fn pos generics params ret ih =>
    obtain ⟨-, r, ts, hts, rfl⟩ := resolve_fn_eq_ok_iff.1 h
    rw [Ty.names, List.append_assoc, List.mem_append] at hx
    exact mem_collect_fn_iff.2 (hx.imp_right (hall ih hts))

/-- A wider scope makes no difference where none of its new generics is declared again. -/
theorem resolve_weaken {w : TypeExpr} {t : Ty} {wider : List String} (hsub : allowed ⊆ wider)
    (h : w.resolve allowed = .ok t) (hnew : ∀ g ∈ w.binders, g ∈ wider → g ∈ allowed) :
    w.resolve wider = .ok t := by
  induction w using TypeExpr.induction generalizing allowed wider t with
  | int => exact h
  | bool => exact h
  | list pos item ih =>
    obtain ⟨element, hitem, rfl⟩ := resolve_list_eq_ok_iff.1 h
    exact resolve_list_eq_ok_iff.2 ⟨element, ih hsub hitem hnew, rfl⟩
  | tuple pos items ih =>
    obtain ⟨ts, hts, rfl⟩ := resolve_tuple_eq_ok_iff.1 h
    have hitems : ∀ w ∈ items, ∀ t, w.resolve allowed = .ok t → w.resolve wider = .ok t := by
      intro w hw t h
      exact ih w hw hsub h fun g hg => hnew g ((mem_collectAll_iff items).2 ⟨w, hw, hg⟩)
    exact resolve_tuple_eq_ok_iff.2 ⟨ts, forall₂_imp_of_mem hts hitems, rfl⟩
  | generic pos a =>
    obtain ⟨ha, rfl⟩ := resolve_generic_eq_ok_iff.1 h
    exact resolve_generic_eq_ok_iff.2 ⟨hsub ha, rfl⟩
  | fn pos generics params ret ih =>
    obtain ⟨⟨hnodup, hgenerics⟩, r, ts, hts, rfl⟩ := resolve_fn_eq_ok_iff.1 h
    have hgenerics' : ∀ g ∈ generics.map Name.text, g ∉ wider := fun g hg hmem =>
      hgenerics g hg (hnew g (mem_collect_fn_iff.2 (.inl hg)) hmem)
    have hparts : ∀ w ∈ ret :: params.map Prod.snd, ∀ t,
        w.resolve (allowed ++ generics.map Name.text) = .ok t →
          w.resolve (wider ++ generics.map Name.text) = .ok t := by
      intro w hw t h
      have hinner : allowed ++ generics.map Name.text ⊆ wider ++ generics.map Name.text := by
        intro g hg
        rw [List.mem_append] at hg ⊢
        exact hg.imp_left (@hsub g)
      apply ih w hw hinner h
      intro g hg hmem
      rw [List.mem_append] at hmem ⊢
      exact hmem.imp_left (hnew g (mem_collect_fn_iff.2 (.inr ⟨w, hw, hg⟩)))
    exact resolve_fn_eq_ok_iff.2 ⟨⟨hnodup, hgenerics'⟩, r, ts, forall₂_imp_of_mem hts hparts, rfl⟩

end Resolve

/-- What is known of a substitution that written types stand for in a scope. -/
structure StandsFor (σ : List (String × TypeExpr)) (scope : List String) (s : Substitution) :
    Prop where
  lookup : ∀ a, Option.Rel (fun w t => w.resolve scope = .ok t) (σ.lookup a) (s.get? a)
  entries : ∀ e ∈ s.entries, ∃ w ∈ σ.map Prod.snd, w.resolve scope = .ok e.2

/-- A generic that is not in scope and does not occur in any of some written types. -/
def Unused (scope : List String) (ws : List TypeExpr) (g : String) : Prop :=
  g ∉ scope ∧ ∀ w ∈ ws, g ∉ w.names

instance (scope : List String) (ws : List TypeExpr) (g : String) : Decidable (Unused scope ws g) :=
  inferInstanceAs (Decidable (_ ∧ _))

section Replace

variable {σ : List (String × TypeExpr)} {scope : List String} {s : Substitution}

theorem standsFor_zip {keys : List String} (hkeys : keys.Nodup) {args : List TypeExpr}
    (hlength : args.length = keys.length) {ts : List Ty} (h : resolveAll scope args = .ok ts) :
    StandsFor (keys.zip args) scope (.ofList (keys.zip ts)) := by
  have hlength' : ts.length = keys.length := (resolveAll_length h).trans hlength
  rw [resolveAll_eq_ok_iff] at h
  constructor
  · intro a
    have hnodup : ((keys.zip ts).map Prod.fst).Nodup := by
      rwa [List.map_fst_zip (Nat.le_of_eq hlength'.symm)]
    rw [Substitution.get?_ofList hnodup]
    exact lookup_zip_rel h keys a
  · intro e he
    rw [List.map_snd_zip (Nat.le_of_eq hlength)]
    exact exists_of_mem_right h (List.of_mem_zip (Substitution.mem_of_mem_ofList he)).2

theorem StandsFor.get?_eq_none (hs : StandsFor σ scope s) {a : String} (ha : a ∉ σ.map Prod.fst) :
    s.get? a = none := by
  have hrel := hs.lookup a
  rw [(lookup_eq_none_iff σ a).2 ha] at hrel
  cases h : s.get? a with
  | none => rfl
  | some t =>
    rw [h] at hrel
    cases hrel

theorem StandsFor.get?_of_lookup (hs : StandsFor σ scope s) {a : String} {w : TypeExpr}
    (ha : σ.lookup a = some w) : ∃ t, w.resolve scope = .ok t ∧ s.get? a = some t := by
  have hrel := hs.lookup a
  rw [ha] at hrel
  cases h : s.get? a with
  | none =>
    rw [h] at hrel
    cases hrel
  | some t =>
    rw [h] at hrel
    cases hrel with
    | some hw => exact ⟨t, hw, rfl⟩

/-- Generics that nothing written uses are neither dropped nor renamed. -/
theorem StandsFor.apply_fn (hs : StandsFor σ scope s) {generics : List String}
    (hkeys : ∀ g ∈ generics, g ∉ σ.map Prod.fst)
    (hunused : ∀ g ∈ generics, Unused scope (σ.map Prod.snd) g) (ret : Ty) (params : List Ty)
    (names : List String) :
    s.apply (.fn ret params names generics) =
      .fn (s.apply ret) (params.map s.apply) names generics := by
  have hfresh : ∀ g ∈ generics, s.replaces g = false ∧ s.introduces g = false := by
    intro g hg
    constructor
    · rw [Substitution.replaces, hs.get?_eq_none (hkeys g hg)]
      rfl
    · rw [Substitution.introduces_eq_false_iff]
      intro e he hmem
      obtain ⟨w, hw, h⟩ := hs.entries e he
      exact (hunused g hg).2 w hw (mem_names_of_resolve h hmem)
  rw [Substitution.apply_fn, Substitution.freshen_self hfresh]

/-- Replacing references and then resolving is resolving and then substituting. -/
theorem StandsFor.resolve_replace (hs : StandsFor σ scope s) {w : TypeExpr} {t : Ty}
    {outer : List String} (h : w.resolve (σ.map Prod.fst ++ outer) = .ok t)
    (hunused : ∀ g ∈ outer ++ w.binders, Unused scope (σ.map Prod.snd) g) :
    (w.replace σ).resolve (scope ++ outer) = .ok (s.apply t) := by
  induction w using TypeExpr.induction generalizing outer t with
  | int =>
    cases h
    rfl
  | bool =>
    cases h
    rfl
  | list pos item ih =>
    obtain ⟨element, hitem, rfl⟩ := resolve_list_eq_ok_iff.1 h
    exact resolve_list_eq_ok_iff.2 ⟨_, ih hitem hunused, rfl⟩
  | tuple pos items ih =>
    obtain ⟨ts, hts, rfl⟩ := resolve_tuple_eq_ok_iff.1 h
    rw [replace, replaceAll_eq_map, Substitution.apply_tuple, resolve_tuple_eq_ok_iff]
    refine ⟨_, ?_, rfl⟩
    rw [List.forall₂_map_left_iff, List.forall₂_map_right_iff]
    apply forall₂_imp_of_mem hts
    intro w hw t h
    apply ih w hw h
    intro g hg
    rw [List.mem_append] at hg
    exact hunused g (List.mem_append.2 (hg.imp_right fun hg =>
      (mem_collectAll_iff items).2 ⟨w, hw, hg⟩))
  | generic pos a =>
    obtain ⟨ha, rfl⟩ := resolve_generic_eq_ok_iff.1 h
    rw [replace, Substitution.apply_generic]
    cases hlookup : σ.lookup a with
    | none =>
      have hkey := (lookup_eq_none_iff σ a).1 hlookup
      have houter := (List.mem_append.1 ha).resolve_left hkey
      rw [hs.get?_eq_none hkey]
      exact resolve_generic_eq_ok_iff.2 ⟨List.mem_append_right _ houter, rfl⟩
    | some w =>
      obtain ⟨t, hw, hget⟩ := hs.get?_of_lookup hlookup
      have hmem : w ∈ σ.map Prod.snd := by
        obtain ⟨before, after, hσ, -⟩ := List.lookup_eq_some_iff.1 hlookup
        simp [hσ]
      rw [hget]
      -- The argument was resolved outside; what is declared around its place is not used in it.
      apply resolve_weaken (List.subset_append_left _ _) hw
      intro g hg hscope
      refine (List.mem_append.1 hscope).resolve_right fun houter => ?_
      exact (hunused g (List.mem_append_left _ houter)).2 w hmem (mem_names_of_mem_binders hg)
  | fn pos generics params ret ih =>
    obtain ⟨⟨hnodup, hgenerics⟩, r, ts, hts, rfl⟩ := resolve_fn_eq_ok_iff.1 h
    have hown (g : String) (hg : g ∈ generics.map Name.text) :
        Unused scope (σ.map Prod.snd) g :=
      hunused g (List.mem_append_right _ (mem_collect_fn_iff.2 (.inl hg)))
    have hkeys (g : String) (hg : g ∈ generics.map Name.text) : g ∉ σ.map Prod.fst :=
      fun hmem => hgenerics g hg (List.mem_append_left _ hmem)
    have hnew (g : String) (hg : g ∈ generics.map Name.text) : g ∉ scope ++ outer := by
      rw [List.mem_append, not_or]
      exact ⟨(hown g hg).1, fun hmem => hgenerics g hg (List.mem_append_right _ hmem)⟩
    rw [hs.apply_fn hkeys hown, replace, resolve_fn_eq_ok_iff, map_snd_replaceParams,
      map_text_replaceParams]
    refine ⟨⟨hnodup, hnew⟩, _, _, ?_, rfl⟩
    rw [← List.map_cons, ← List.map_cons, List.forall₂_map_left_iff, List.forall₂_map_right_iff]
    apply forall₂_imp_of_mem hts
    intro w hw t h
    rw [List.append_assoc] at h ⊢
    apply ih w hw h
    intro g hg
    rcases List.mem_append.1 hg with hg | hg
    · rcases List.mem_append.1 hg with hg | hg
      · exact hunused g (List.mem_append_left _ hg)
      · exact hown g hg
    · exact hunused g (List.mem_append_right _ (mem_collect_fn_iff.2 (.inr ⟨w, hw, hg⟩)))

end Replace

end TypeExpr

namespace Ty

theorem instantiate_of_resolveAll {scope : Scope} {args : List TypeExpr} {resolved : List Ty}
    (h : TypeExpr.resolveAll scope.generics args = .ok resolved) {generics : List String}
    (hne : generics ≠ []) (hlength : args.length = generics.length) (ret : Ty) (params : List Ty)
    (names : List String) (pos : Position) :
    (fn ret params names generics).instantiate scope (some args) pos =
      .ok ((Substitution.ofList (generics.zip resolved)).apply ret,
        params.map (Substitution.ofList (generics.zip resolved)).apply) := by
  have hempty : generics.isEmpty = false := List.isEmpty_eq_false_iff.2 hne
  simp only [instantiate, hempty, if_pos hlength, h]
  rfl

/-- The type arguments of a call give the types that the written result and parameters of the
callee stand for once every reference to one of its generics is replaced by the argument. -/
theorem instantiate_written_out {pos place : Position} {generics : List Name}
    {params : List (Name × TypeExpr)} {ret : TypeExpr} {callee : Ty} {scope : Scope}
    {args : List TypeExpr} (hcallee : (TypeExpr.fn pos generics params ret).resolve [] = .ok callee)
    (hne : generics ≠ []) (hlength : args.length = generics.length)
    (hargs : ∀ w ∈ args, ∃ t, w.resolve scope.generics = .ok t)
    (hunused : ∀ part ∈ ret :: params.map Prod.snd, ∀ g ∈ part.binders,
      TypeExpr.Unused scope.generics args g) :
    ∃ r ps, callee.instantiate scope (some args) place = .ok (r, ps) ∧
      (ret.replace ((generics.map Name.text).zip args)).resolve scope.generics = .ok r ∧
      TypeExpr.resolveParams scope.generics
        (TypeExpr.replaceParams ((generics.map Name.text).zip args) params) = .ok ps := by
  obtain ⟨⟨hnodup, -⟩, r, ts, hts, rfl⟩ := TypeExpr.resolve_fn_eq_ok_iff.1 hcallee
  obtain ⟨resolved, hresolved⟩ := TypeExpr.exists_resolveAll hargs
  have hlength' : args.length = (generics.map Name.text).length := by rwa [List.length_map]
  have hs := TypeExpr.standsFor_zip hnodup hlength' hresolved
  have hparts : ∀ w ∈ ret :: params.map Prod.snd, ∀ t,
      w.resolve ([] ++ generics.map Name.text) = .ok t →
        (w.replace ((generics.map Name.text).zip args)).resolve scope.generics =
          .ok ((Substitution.ofList ((generics.map Name.text).zip resolved)).apply t) := by
    intro w hw t h
    rw [← List.append_nil scope.generics]
    apply hs.resolve_replace
    · rwa [List.map_fst_zip (Nat.le_of_eq hlength'.symm), List.append_nil]
    · rw [List.map_snd_zip (Nat.le_of_eq hlength')]
      exact hunused w hw
  obtain ⟨hret, hparams⟩ := List.forall₂_cons.1 (forall₂_imp_of_mem hts hparts)
  refine ⟨_, _, instantiate_of_resolveAll hresolved (by simpa using hne) hlength' _ _ _ _, hret, ?_⟩
  rw [TypeExpr.resolveParams_eq_resolveAll, TypeExpr.map_snd_replaceParams,
    TypeExpr.resolveAll_eq_ok_iff, List.forall₂_map_left_iff, List.forall₂_map_right_iff]
  exact hparams

/-- `({C} B(c: C), A)` -/
def crossedResult : TypeExpr :=
  .tuple .start
    [.fn .start [⟨"C", .start⟩] [(⟨"c", .start⟩, .generic .start "C")] (.generic .start "B"),
      .generic .start "A"]

/-- `a: A, f: {C} [B](c: C, a: A)` -/
def crossedParams : List (Name × TypeExpr) :=
  [(⟨"a", .start⟩, .generic .start "A"),
    (⟨"f", .start⟩, .fn .start [⟨"C", .start⟩]
      [(⟨"c", .start⟩, .generic .start "C"), (⟨"a", .start⟩, .generic .start "A")]
      (.list .start (.generic .start "B")))]

/-- `[B]` for `A` and `{D} A(d: D)` for `B` -/
def crossedArgs : List TypeExpr :=
  [.list .start (.generic .start "B"),
    .fn .start [⟨"D", .start⟩] [(⟨"d", .start⟩, .generic .start "D")] (.generic .start "A")]

/-- The arguments refer to generics of the scope that have the names of the callee's own. -/
theorem instantiate_written_out_crossed :
    ∃ callee, (TypeExpr.fn .start [⟨"A", .start⟩, ⟨"B", .start⟩] crossedParams
        crossedResult).resolve [] = .ok callee ∧
      ∃ r ps, callee.instantiate ⟨[], [], ["A", "B"]⟩ (some crossedArgs) .start = .ok (r, ps) ∧
        (fn r ps ["a", "f"] []).text =
          "(\x7bC\x7d \x7bD\x7d A(d: D)(c: C), [B])" ++
            "(a: [B], f: \x7bC\x7d [\x7bD\x7d A(d: D)](c: C, a: [B]))" := by
  refine ⟨_, rfl, ?_⟩
  have hargs : ∀ w ∈ crossedArgs, ∃ t, w.resolve ["A", "B"] = .ok t :=
    List.forall_mem_cons.2 ⟨⟨_, rfl⟩, List.forall_mem_cons.2 ⟨⟨_, rfl⟩, List.forall_mem_nil _⟩⟩
  have hunused : ∀ part ∈ crossedResult :: crossedParams.map Prod.snd, ∀ g ∈ part.binders,
      TypeExpr.Unused ["A", "B"] crossedArgs g := by decide +kernel
  obtain ⟨r, ps, h, hret, hparams⟩ := @instantiate_written_out .start .start
    [⟨"A", .start⟩, ⟨"B", .start⟩] crossedParams crossedResult _ ⟨[], [], ["A", "B"]⟩ crossedArgs
    rfl (List.cons_ne_nil _ _) rfl hargs hunused
  refine ⟨r, ps, h, ?_⟩
  rw [Except.ok.inj (hret.symm.trans rfl), Except.ok.inj (hparams.symm.trans rfl)]
  decide +kernel

end Ty

end ExprLang
