import ExprLang.Proofs.Parsing.Spelling
import ExprLang.Proofs.Ty.Renaming
import ExprLang.Proofs.Typing.Checked

namespace ExprLang

open Lexeme

theorem IsName.plain {name : String} (h : IsName name) : Plain name := by
  rintro stem rfl
  obtain ⟨c, cs, htext, hc, hcs⟩ := h.spelling
  have hword (d : Char) (hd : d ∈ c :: cs) : (isWordStart d || isWordPart d) = true := by
    cases hd with
    | head => rw [hc, Bool.true_or]
    | tail _ hd => rw [hcs d hd, Bool.or_true]
  have hprime : "'".toList.all (fun d => !(isWordStart d || isWordPart d)) = true := rfl
  obtain ⟨d, hd⟩ := List.exists_mem_of_ne_nil "'".toList (by decide)
  have hmem : d ∈ c :: cs := by
    rw [← htext, String.toList_append]
    exact List.mem_append_right _ hd
  have hnot := List.all_eq_true.1 hprime d hd
  rw [hword d hmem] at hnot
  cases hnot

namespace TypeExpr

mutual

theorem resolve_wellScoped {allowed : List String} : (written : TypeExpr) → written.WellSpelled →
    {t : Ty} → written.resolve allowed = .ok t → t.WellScoped allowed
  | int _, _, _, h => by
    cases h
    trivial
  | bool _, _, _, h => by
    cases h
    trivial
  | generic _ name, _, _, h => by
    rw [resolve] at h
    split at h
    · rename_i hname
      cases h
      exact List.contains_iff_mem.1 hname
    · cases h
  | list _ element, hspelled, _, h => by
    simp only [resolve, bind_eq_ok] at h
    obtain ⟨t, ht, h⟩ := h
    cases h
    exact (resolve_wellScoped element hspelled ht : t.WellScoped allowed)
  | tuple _ items, hspelled, _, h => by
    simp only [resolve, bind_eq_ok] at h
    obtain ⟨ts, hts, h⟩ := h
    cases h
    exact resolveAll_wellScoped items hspelled hts
  | fn _ generics params ret, ⟨hgenerics, hparams, hret⟩, _, h => by
    simp only [resolve, bind_eq_ok] at h
    obtain ⟨inner, hinner, ps, hps, r, hr, h⟩ := h
    cases h
    obtain ⟨rfl, hnew⟩ := declareGenerics_eq_ok hinner
    refine ⟨List.forall_mem_map.2 fun g hg => ⟨(hgenerics g hg).plain, hnew g hg⟩, ?_, ?_⟩
    · exact resolve_wellScoped ret hret hr
    · exact resolveParams_wellScoped params hparams hps

theorem resolveAll_wellScoped {allowed : List String} : (items : List TypeExpr) →
    AllWellSpelled items → {ts : List Ty} → resolveAll allowed items = .ok ts →
    Ty.AllWellScoped allowed ts
  | [], _, _, h => by
    cases h
    trivial
  | item :: items, hspelled, _, h => by
    simp only [resolveAll, bind_eq_ok] at h
    obtain ⟨t, ht, ts, hts, h⟩ := h
    cases h
    exact ⟨resolve_wellScoped item hspelled.1 ht, resolveAll_wellScoped items hspelled.2 hts⟩

theorem resolveParams_wellScoped {allowed : List String} : (params : List (Name × TypeExpr)) →
    ParamsWellSpelled params → {ts : List Ty} → resolveParams allowed params = .ok ts →
    Ty.AllWellScoped allowed ts
  | [], _, _, h => by
    cases h
    trivial
  | (_, param) :: params, hspelled, _, h => by
    simp only [resolveParams, bind_eq_ok] at h
    obtain ⟨t, ht, ts, hts, h⟩ := h
    cases h
    exact ⟨resolve_wellScoped param hspelled.1.2 ht, resolveParams_wellScoped params hspelled.2 hts⟩

end

end TypeExpr

namespace Program

variable {p : Program} {ds : List Decl}

/-- The types of the globals refer to no generics but those that they declare, each once. -/
def Scoped (p : Program) : Prop := ∀ name t, p.globals.lookup name = some t → t.WellScoped []

theorem check_scoped (h : check ds = .ok p) (hspelled : ∀ d ∈ ds, d.signature.WellSpelled) :
    p.Scoped := by
  intro name t hname
  have htype := (check_typedBy h).table name t hname
  cases hc : Callable.ofName name with
  | builtin b =>
    rw [hc] at htype
    cases htype
    cases b <;> simp [Builtin.type, Ty.WellScoped, Ty.AllWellScoped, Ty.unit, Ty.string]
  | global label =>
    rw [hc] at htype
    obtain ⟨d', hd', rfl⟩ := Option.map_eq_some_iff.1 htype
    obtain ⟨d, hd, hresolve, _⟩ := exists_checksTo h (mem_of_find? hd')
    exact d.signature.resolve_wellScoped (hspelled d hd) hresolve

end Program

end ExprLang
