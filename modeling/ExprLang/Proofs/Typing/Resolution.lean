import ExprLang.Proofs.Typing.Checked

namespace ExprLang

theorem forall₂_imp_of_mem {α β : Type} {R S : α → β → Prop} {as : List α} {bs : List β}
    (h : List.Forall₂ R as bs) (himp : ∀ a ∈ as, ∀ b, R a b → S a b) : List.Forall₂ S as bs := by
  have hboth := (List.forall₂_and_left as bs).2 ⟨himp, h⟩
  exact hboth.imp fun a b hab => hab.1 b hab.2

namespace TypeExpr

theorem induction {motive : TypeExpr → Prop} (int : ∀ pos, motive (.int pos))
    (bool : ∀ pos, motive (.bool pos)) (list : ∀ pos t, motive t → motive (.list pos t))
    (tuple : ∀ pos ts, (∀ t ∈ ts, motive t) → motive (.tuple pos ts))
    (generic : ∀ pos a, motive (.generic pos a))
    (fn : ∀ pos generics params ret, (∀ t ∈ ret :: params.map Prod.snd, motive t) →
      motive (.fn pos generics params ret)) (t : TypeExpr) : motive t := by
  refine @TypeExpr.rec motive (fun ts => ∀ t ∈ ts, motive t)
    (fun params => ∀ t ∈ params.map Prod.snd, motive t) (fun p => motive p.2)
    int bool list tuple generic ?_ ?_ ?_ ?_ ?_ ?_ t
  · intro pos generics params ret ihParams ihRet
    exact fn pos generics params ret (List.forall_mem_cons.2 ⟨ihRet, ihParams⟩)
  · exact List.forall_mem_nil _
  · exact fun t ts ih ihs => List.forall_mem_cons.2 ⟨ih, ihs⟩
  · exact List.forall_mem_nil _
  · exact fun p params ih ihs => List.forall_mem_cons.2 ⟨ih, ihs⟩
  · exact fun name t ih => ih

variable {allowed : List String} {pos : Position} {items : List TypeExpr}

theorem resolveAll_eq_ok_iff {ts : List Ty} :
    resolveAll allowed items = .ok ts ↔
      List.Forall₂ (fun item t => item.resolve allowed = .ok t) items ts := by
  induction items generalizing ts with
  | nil => simp [resolveAll, eq_comm]
  | cons item items ih =>
    simp only [resolveAll, bind_eq_ok, ih, List.forall₂_cons_left_iff]
    constructor
    · rintro ⟨t, ht, ts, hts, h⟩
      cases h
      exact ⟨t, ts, ht, hts, rfl⟩
    · rintro ⟨t, ts, ht, hts, rfl⟩
      exact ⟨t, ht, ts, hts, rfl⟩

theorem exists_resolveAll (h : ∀ item ∈ items, ∃ t, item.resolve allowed = .ok t) :
    ∃ ts, resolveAll allowed items = .ok ts := by
  induction items with
  | nil => exact ⟨[], rfl⟩
  | cons item items ih =>
    obtain ⟨⟨t, ht⟩, hitems⟩ := List.forall_mem_cons.1 h
    obtain ⟨ts, hts⟩ := ih hitems
    rw [resolveAll_eq_ok_iff] at hts
    exact ⟨t :: ts, resolveAll_eq_ok_iff.2 (.cons ht hts)⟩

theorem resolveParams_eq_resolveAll (params : List (Name × TypeExpr)) :
    resolveParams allowed params = resolveAll allowed (params.map Prod.snd) := by
  induction params with
  | nil => rfl
  | cons p params ih => rw [resolveParams, ih, List.map_cons, resolveAll]

theorem resolve_list_eq_ok_iff {item : TypeExpr} {t : Ty} :
    (list pos item).resolve allowed = .ok t ↔
      ∃ element, item.resolve allowed = .ok element ∧ t = .list element := by
  simp only [resolve, bind_eq_ok]
  exact exists_congr fun element => and_congr_right fun _ => by simp [pure, Except.pure, eq_comm]

theorem resolve_tuple_eq_ok_iff {t : Ty} :
    (tuple pos items).resolve allowed = .ok t ↔
      ∃ ts, List.Forall₂ (fun item t => item.resolve allowed = .ok t) items ts ∧
        t = .tuple ts := by
  simp only [resolve, bind_eq_ok, resolveAll_eq_ok_iff]
  exact exists_congr fun ts => and_congr_right fun _ => by simp [pure, Except.pure, eq_comm]

theorem resolve_generic_eq_ok_iff {a : String} {t : Ty} :
    (generic pos a).resolve allowed = .ok t ↔ a ∈ allowed ∧ t = .generic a := by
  rw [resolve]
  split <;> simp_all [eq_comm]

theorem resolve_fn_eq_ok_iff {generics : List Name} {params : List (Name × TypeExpr)}
    {ret : TypeExpr} {t : Ty} :
    (fn pos generics params ret).resolve allowed = .ok t ↔
      ((generics.map Name.text).Nodup ∧ ∀ g ∈ generics.map Name.text, g ∉ allowed) ∧
      ∃ r ts, List.Forall₂ (fun item t => item.resolve (allowed ++ generics.map Name.text) = .ok t)
          (ret :: params.map Prod.snd) (r :: ts) ∧
        t = .fn r ts (params.map fun p => p.1.text) (generics.map Name.text) := by
  simp only [resolve, bind_eq_ok, declareGenerics_eq_ok_iff, resolveParams_eq_resolveAll,
    resolveAll_eq_ok_iff, List.forall₂_cons]
  constructor
  · rintro ⟨inner, ⟨rfl, hnew⟩, ts, hts, r, hr, h⟩
    cases h
    exact ⟨hnew, r, ts, ⟨hr, hts⟩, rfl⟩
  · rintro ⟨hnew, r, ts, ⟨hr, hts⟩, rfl⟩
    exact ⟨_, ⟨rfl, hnew⟩, ts, hts, r, hr, rfl⟩

end TypeExpr

end ExprLang
