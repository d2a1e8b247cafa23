import ExprLang.Proofs.Ty.Renaming

namespace ExprLang

abbrev Valuation := String → Ty

namespace Ty

mutual

/-- A type with its generics looked up, those that a function type declares too. Names of parameters
and declared generics are left out, so that only the structure is read. -/
def read (w : Valuation) : Ty → Ty
  | bool => bool
  | int => int
  | list t => list (t.read w)
  | tuple ts => tuple (readAll w ts)
  | fn ret params _ _ => fn (ret.read w) (readAll w params) [] []
  | generic a => w a

def readAll (w : Valuation) : List Ty → List Ty
  | [] => []
  | t :: ts => t.read w :: readAll w ts

end

theorem readAll_eq_map (w : Valuation) (ts : List Ty) : readAll w ts = ts.map (read w) := by
  induction ts with
  | nil => rfl
  | cons t ts ih => rw [readAll, ih, List.map_cons]

theorem read_erase (w : Valuation) (t : Ty) : t.erase.read w = t.read w := by
  have hall {ts : List Ty} (h : ∀ t ∈ ts, t.erase.read w = t.read w) :
      readAll w (eraseAll ts) = readAll w ts := by
    rw [readAll_eq_map, readAll_eq_map, eraseAll_eq_map, List.map_map]
    exact List.map_congr_left h
  induction t using Ty.induction with
  | bool => rfl
  | int => rfl
  | generic a => rfl
  | list t ih => rw [erase, read, read, ih]
  | tuple ts ih => rw [erase, read, read, hall ih]
  | fn ret params names generics ihRet ihParams =>
    rw [erase, read, read, ihRet, hall ihParams]

theorem read_eq_of_equiv {s t : Ty} (h : s.equiv t = true) (w : Valuation) :
    s.read w = t.read w := by
  rw [← read_erase, (equiv_iff_erase_eq s t).1 h, read_erase]

end Ty

/-- What the generics stand for once the replaced ones stand for their replacements, and the others
have the new names that they get where a replacement mentions them. -/
def Valuation.after (w : Valuation) (s : Substitution) : Valuation := fun a =>
  match s.get? a with
  | some t => t.read w
  | none => w (if s.introduces a then s.fresh a else a)

namespace Substitution

variable {s : Substitution} {scope : List String} {ρ : String → String}

theorem read_generic_of_replaces (w : Valuation) {a : String} (h : s.replaces a = true) :
    (s.apply (.generic a)).read w = w.after s a := by
  obtain ⟨t, ht⟩ := Option.isSome_iff_exists.1 h
  rw [apply_generic, Valuation.after, ht]
  rfl

theorem read_generic_freshening (w : Valuation) {gs : List String} {g : String} (hg : g ∈ gs)
    (hreplaces : s.replaces g = false) (hρ : ρ g = g) :
    (s.apply (.generic (s.freshening gs ρ g))).read w = w.after s g := by
  have hnone : s.get? g = none :=
    Option.isNone_iff_eq_none.1 (Option.isSome_eq_false_iff.1 hreplaces)
  rw [Valuation.after, hnone, freshening]
  cases hintroduces : s.introduces g with
  | true =>
    rw [if_pos ⟨hg, rfl⟩, apply_generic, get?_fresh]
    rfl
  | false =>
    rw [if_neg fun h => Bool.false_ne_true h.2, hρ, apply_generic, hnone]
    rfl

/-- The scope grows by the generics that a function type declares, and with it the renaming that has
taken place before the substitution reaches the parts of the type. -/
theorem read_apply_rename (w : Valuation) {t : Ty} (ht : t.WellScoped scope)
    (hscope : ∀ a ∈ scope, Plain a) (hreplaces : ∀ a, s.replaces a = true → a ∈ scope)
    (hρ : s.Renames scope ρ)
    (hread : ∀ a ∈ scope, (s.apply (.generic (ρ a))).read w = w.after s a) :
    (s.apply (t.rename ρ)).read w = t.read (w.after s) := by
  induction t using Ty.induction generalizing scope ρ with
  | bool => rfl
  | int => rfl
  | generic a => exact hread a ht
  | list t ih => rw [Ty.rename, apply_list, Ty.read, Ty.read, ih ht hscope hreplaces hρ hread]
  | tuple ts ih =>
    have hts := (Ty.allWellScoped_iff ts).1 ht
    rw [Ty.rename, apply_tuple, Ty.read, Ty.read, Ty.renameAll_eq_map, Ty.readAll_eq_map,
      Ty.readAll_eq_map, List.map_map, List.map_map]
    refine congrArg _ (List.map_congr_left fun t hmem => ?_)
    exact ih t hmem (hts t hmem) hscope hreplaces hρ hread
  | fn ret params names generics ihRet ihParams =>
    have hwithin (g : String) (hg : g ∈ generics) :
        ∀ x ∈ ((Ty.fn ret params names generics).rename ρ).names, ¬ Primed g x :=
      hρ.not_primed hscope ht (ht.1 g hg).1 (ht.1 g hg).2
    obtain ⟨hgenerics, hret, hparams⟩ := ht
    have hparams := (Ty.allWellScoped_iff params).1 hparams
    have hkept (g : String) (hg : g ∈ generics) : s.replaces g = false :=
      Bool.eq_false_iff.2 fun h => (hgenerics g hg).2 (hreplaces g h)
    have hinner : ∀ a ∈ scope ++ generics, Plain a :=
      List.forall_mem_append.2 ⟨hscope, fun g hg => (hgenerics g hg).1⟩
    have hnew : ∀ g ∈ generics, Plain g ∧ g ∈ scope ++ generics ∧ s.replaces g = false :=
      fun g hg => ⟨(hgenerics g hg).1, List.mem_append_right _ hg, hkept g hg⟩
    obtain ⟨kept, hfreshen⟩ := freshen_rename hnew hwithin hret hparams hρ
    have hread' : ∀ a ∈ scope ++ generics,
        (s.apply (.generic (s.freshening generics ρ a))).read w = w.after s a := by
      intro a ha
      by_cases hmem : a ∈ generics
      · have hself : ρ a = a := (hρ a).resolve_right fun h => (hgenerics a hmem).2 h.1
        exact read_generic_freshening w hmem (hkept a hmem) hself
      · rw [freshening, if_neg fun h => hmem h.1]
        exact hread a ((List.mem_append.1 ha).resolve_right hmem)
    have hreplaces' (a : String) (ha : s.replaces a = true) : a ∈ scope ++ generics :=
      List.mem_append_left _ (hreplaces a ha)
    rw [Ty.rename, Ty.renameAll_eq_map] at hfreshen ⊢
    rw [apply_fn, hfreshen]
    simp only [Ty.read, Ty.readAll_eq_map, List.map_map]
    rw [ihRet hret hinner hreplaces' hρ.freshening hread']
    refine congrArg (Ty.fn _ · [] []) (List.map_congr_left fun t hmem => ?_)
    exact ihParams t hmem (hparams t hmem) hinner hreplaces' hρ.freshening hread'

/-- A type whose generics are all replaced, those apart that it declares itself. -/
theorem read_apply (w : Valuation) {t : Ty} (ht : t.WellScoped scope)
    (hscope : ∀ a ∈ scope, Plain a) (hreplaces : ∀ a, s.replaces a = true ↔ a ∈ scope) :
    (s.apply t).read w = t.read (w.after s) := by
  have hself : s.Renames scope fun a => a := fun a => .inl rfl
  have h := read_apply_rename w ht hscope (fun a => (hreplaces a).1) hself fun a ha =>
    read_generic_of_replaces w ((hreplaces a).2 ha)
  rwa [Ty.rename_self] at h

theorem replaces_zip {resolved : List Ty} (h : resolved.length = scope.length) (a : String) :
    (ofList (scope.zip resolved)).replaces a = true ↔ a ∈ scope := by
  rw [replaces_ofList, List.map_fst_zip (Nat.le_of_eq h.symm)]

end Substitution

end ExprLang
