import ExprLang.Proofs.Ty.Binders
import Mathlib.Data.List.Forall2

namespace ExprLang

namespace Ty

mutual

/-- Renames the generics that stand in a type, and withdraws some of those that it declares. -/
def recast (ρ : String → String) (withdrawn : List String) : Ty → Ty
  | bool => bool
  | int => int
  | list t => list (t.recast ρ withdrawn)
  | tuple ts => tuple (recastAll ρ withdrawn ts)
  | fn ret params names generics =>
    fn (ret.recast ρ withdrawn) (recastAll ρ withdrawn params) names
      (generics.filter fun g => !withdrawn.contains g)
  | generic a => generic (ρ a)

def recastAll (ρ : String → String) (withdrawn : List String) : List Ty → List Ty
  | [] => []
  | t :: ts => t.recast ρ withdrawn :: recastAll ρ withdrawn ts

end

variable {ρ : String → String} {withdrawn : List String}

theorem recastAll_eq_map (ts : List Ty) :
    recastAll ρ withdrawn ts = ts.map (recast ρ withdrawn) := by
  induction ts with
  | nil => rfl
  | cons t ts ih => rw [recastAll, ih, List.map_cons]

theorem recast_self (t : Ty) : t.recast (fun a => a) [] = t := by
  have hall {ts : List Ty} (ih : ∀ t ∈ ts, t.recast (fun a => a) [] = t) :
      recastAll (fun a => a) [] ts = ts := by
    rw [recastAll_eq_map, List.map_congr_left ih, List.map_id']
  induction t using Ty.induction with
  | bool => rfl
  | int => rfl
  | generic a => rfl
  | list t ih => rw [recast, ih]
  | tuple ts ih => rw [recast, hall ih]
  | fn ret params names generics ihRet ihParams =>
    have hgenerics : generics.filter (fun g => !List.contains [] g) = generics :=
      List.filter_eq_self.2 fun _ _ => rfl
    rw [recast, ihRet, hall ihParams, hgenerics]

theorem recast_recast (t : Ty) (ρ σ : String → String) (xs ys : List String) :
    (t.recast ρ xs).recast σ ys = t.recast (fun a => σ (ρ a)) (xs ++ ys) := by
  have hall {ts : List Ty} (ih : ∀ t ∈ ts,
      (t.recast ρ xs).recast σ ys = t.recast (fun a => σ (ρ a)) (xs ++ ys)) :
      recastAll σ ys (recastAll ρ xs ts) = recastAll (fun a => σ (ρ a)) (xs ++ ys) ts := by
    rw [recastAll_eq_map, recastAll_eq_map, recastAll_eq_map, List.map_map]
    exact List.map_congr_left ih
  induction t using Ty.induction with
  | bool => rfl
  | int => rfl
  | generic a => rfl
  | list t ih => rw [recast, recast, recast, ih]
  | tuple ts ih => rw [recast, recast, recast, hall ih]
  | fn ret params names generics ihRet ihParams =>
    have hgenerics : (generics.filter fun g => !xs.contains g).filter (fun g => !ys.contains g) =
        generics.filter fun g => !(xs ++ ys).contains g := by
      rw [List.filter_filter]
      apply List.filter_congr
      intro g _
      rw [List.contains_append, Bool.not_or, Bool.and_comm]
    rw [recast, recast, recast, ihRet, hall ihParams, hgenerics]

theorem mem_binders_recast {x : String} (t : Ty) :
    x ∈ (t.recast ρ withdrawn).binders ↔ x ∈ t.binders ∧ x ∉ withdrawn := by
  have hall {ts : List Ty}
      (ih : ∀ t ∈ ts, x ∈ (t.recast ρ withdrawn).binders ↔ x ∈ t.binders ∧ x ∉ withdrawn) :
      x ∈ bindersAll (recastAll ρ withdrawn ts) ↔ x ∈ bindersAll ts ∧ x ∉ withdrawn := by
    simp only [mem_bindersAll_iff, recastAll_eq_map, List.mem_map, exists_exists_and_eq_and]
    constructor
    · intro h
      obtain ⟨t, ht, hx⟩ := h
      obtain ⟨hx, hnot⟩ := (ih t ht).1 hx
      exact ⟨⟨t, ht, hx⟩, hnot⟩
    · intro h
      obtain ⟨⟨t, ht, hx⟩, hnot⟩ := h
      exact ⟨t, ht, (ih t ht).2 ⟨hx, hnot⟩⟩
  induction t using Ty.induction with
  | bool => simp [recast, binders, genericLists]
  | int => simp [recast, binders, genericLists]
  | generic a => simp [recast, binders, genericLists]
  | list t ih => exact ih
  | tuple ts ih => exact hall ih
  | fn ret params names generics ihRet ihParams =>
    have hparts := hall (List.forall_mem_cons.2 ⟨ihRet, ihParams⟩)
    rw [mem_bindersAll_iff, mem_bindersAll_iff] at hparts
    rw [recast, mem_binders_fn_iff, mem_binders_fn_iff, ← recastAll, hparts, List.mem_filter,
      Bool.not_eq_true', ← Bool.not_eq_true, List.contains_iff_mem, or_and_right]

theorem erase_recast (t : Ty) : (t.recast ρ withdrawn).erase = t.erase.rename ρ := by
  have hall {ts : List Ty} (ih : ∀ t ∈ ts, (t.recast ρ withdrawn).erase = t.erase.rename ρ) :
      eraseAll (recastAll ρ withdrawn ts) = renameAll ρ (eraseAll ts) := by
    rw [eraseAll_eq_map, eraseAll_eq_map, recastAll_eq_map, renameAll_eq_map, List.map_map,
      List.map_map]
    exact List.map_congr_left ih
  induction t using Ty.induction with
  | bool => rfl
  | int => rfl
  | generic a => rfl
  | list t ih => rw [recast, erase, erase, rename, ih]
  | tuple ts ih => rw [recast, erase, erase, rename, hall ih]
  | fn ret params names generics ihRet ihParams =>
    rw [recast, erase, erase, rename, ihRet, hall ihParams]

/-- A name occurs in a type as a declared generic or in its structure. -/
theorem mem_names_iff {x : String} (t : Ty) : x ∈ t.names ↔ x ∈ t.binders ∨ x ∈ t.erase.names := by
  have hall {ts : List Ty} (ih : ∀ t ∈ ts, x ∈ t.names ↔ x ∈ t.binders ∨ x ∈ t.erase.names) :
      x ∈ namesAll ts ↔ x ∈ bindersAll ts ∨ x ∈ namesAll (eraseAll ts) := by
    simp only [mem_namesAll_iff, mem_bindersAll_iff, eraseAll_eq_map, List.mem_map,
      exists_exists_and_eq_and, ← exists_or]
    apply exists_congr
    intro t
    rw [← and_or_left]
    exact and_congr_right (ih t)
  induction t using Ty.induction with
  | bool => simp [erase, names, binders, genericLists]
  | int => simp [erase, names, binders, genericLists]
  | generic a => simp [erase, names, binders, genericLists]
  | list t ih => exact ih
  | tuple ts ih => exact hall ih
  | fn ret params names generics ihRet ihParams =>
    have hparts := hall (List.forall_mem_cons.2 ⟨ihRet, ihParams⟩)
    have hbinders : x ∈ (fn ret params names generics).binders ↔
        x ∈ generics ∨ x ∈ bindersAll (ret :: params) := by
      rw [mem_binders_fn_iff, mem_bindersAll_iff]
    have hnames (r : Ty) (ps : List Ty) (ns gs : List String) :
        x ∈ (fn r ps ns gs).names ↔ x ∈ gs ∨ x ∈ namesAll (r :: ps) := by
      rw [Ty.names, List.append_assoc, List.mem_append, namesAll]
    rw [erase, hbinders, hnames, hnames, hparts, or_assoc, ← eraseAll]
    simp

theorem length_genericLists_erase (t : Ty) :
    t.erase.genericLists.length = t.genericLists.length := by
  have hall {ts : List Ty}
      (ih : ∀ t ∈ ts, t.erase.genericLists.length = t.genericLists.length) :
      (genericListsAll (eraseAll ts)).length = (genericListsAll ts).length := by
    induction ts with
    | nil => rfl
    | cons t ts ihs =>
      obtain ⟨ht, hts⟩ := List.forall_mem_cons.1 ih
      rw [eraseAll, genericListsAll, genericListsAll, List.length_append, List.length_append, ht,
        ihs hts]
  induction t using Ty.induction with
  | bool => rfl
  | int => rfl
  | generic a => rfl
  | list t ih => exact ih
  | tuple ts ih => exact hall ih
  | fn ret params names generics ihRet ihParams =>
    exact congrArg Nat.succ (hall (List.forall_mem_cons.2 ⟨ihRet, ihParams⟩))

/-- The types have the same structure, and at corresponding function types they declare the same
generics out of those with a property. -/
structure Alike (K : String → Prop) (a b : Ty) : Prop where
  structural : a.erase = b.erase
  generics : List.Forall₂ (fun gs hs => ∀ g, K g → (g ∈ gs ↔ g ∈ hs)) a.genericLists
    b.genericLists

namespace Alike

variable {K : String → Prop}

theorem forall₂_of_all {ts us : List Ty} (herase : eraseAll ts = eraseAll us)
    (h : List.Forall₂ (fun gs hs => ∀ g, K g → (g ∈ gs ↔ g ∈ hs)) (genericListsAll ts)
      (genericListsAll us)) : List.Forall₂ (Alike K) ts us := by
  induction ts generalizing us with
  | nil =>
    cases us with
    | nil => exact .nil
    | cons u us => cases herase
  | cons t ts ih =>
    cases us with
    | nil => cases herase
    | cons u us =>
      obtain ⟨ht, hts⟩ := List.cons.inj herase
      have hlength : t.genericLists.length = u.genericLists.length := by
        rw [← length_genericLists_erase, ht, length_genericLists_erase]
      rw [genericListsAll, genericListsAll] at h
      have hfirst := List.forall₂_take_append _ _ _ h
      have hrest := List.forall₂_drop_append _ _ _ h
      rw [List.take_left' hlength] at hfirst
      rw [List.drop_left' hlength] at hrest
      exact .cons ⟨ht, hfirst⟩ (ih hts hrest)

theorem items {ts us : List Ty} (h : (tuple ts).Alike K (tuple us)) :
    List.Forall₂ (Alike K) ts us :=
  forall₂_of_all (tuple.inj h.structural) h.generics

theorem parts {ret ret' : Ty} {params params' : List Ty} {names names' gs gs' : List String}
    (h : (fn ret params names gs).Alike K (fn ret' params' names' gs')) :
    (∀ g, K g → (g ∈ gs ↔ g ∈ gs')) ∧ ret.Alike K ret' ∧ List.Forall₂ (Alike K) params params' := by
  obtain ⟨hret, hparams, -, -⟩ := fn.inj h.structural
  have herase : eraseAll (ret :: params) = eraseAll (ret' :: params') :=
    congrArg₂ List.cons hret hparams
  obtain ⟨hgenerics, hlists⟩ := List.forall₂_cons.1 h.generics
  exact ⟨hgenerics, List.forall₂_cons.1 (forall₂_of_all herase hlists)⟩

theorem map_eq {ts us : List Ty} {f g : Ty → Ty} (h : List.Forall₂ (Alike K) ts us)
    (hfg : ∀ t ∈ ts, ∀ u, t.Alike K u → f t = g u) : ts.map f = us.map g := by
  induction h with
  | nil => rfl
  | cons hhead _ ih =>
    obtain ⟨hf, hfs⟩ := List.forall_mem_cons.1 hfg
    rw [List.map_cons, List.map_cons, hf _ hhead, ih hfs]

theorem mem_binders {a b : Ty} (h : a.Alike K b) {x : String} (hx : K x) :
    x ∈ a.binders ↔ x ∈ b.binders := by
  have hlists := h.generics
  rw [binders, binders]
  generalize a.genericLists = as, b.genericLists = bs at hlists ⊢
  induction hlists with
  | nil => rfl
  | cons hhead _ ih =>
    rw [List.flatten_cons, List.flatten_cons, List.mem_append, List.mem_append]
    exact or_congr (hhead x hx) ih

end Alike

end Ty

namespace Substitution

variable {s : Substitution} {within ret : Ty} {params : List Ty} {names gs : List String}

/-- The generics of a list that a substitution renames: it does not replace them, and a replacement
mentions them. -/
def renamed (s : Substitution) (gs : List String) : List String :=
  gs.filter fun g => !s.replaces g && s.introduces g

theorem mem_renamed_iff {x : String} :
    x ∈ s.renamed gs ↔ x ∈ gs ∧ s.replaces x = false ∧ s.introduces x = true := by
  rw [renamed, List.mem_filter, Bool.and_eq_true, Bool.not_eq_true']

theorem renamed_cons_of_not {g : String} (h : (!s.replaces g && s.introduces g) = false) :
    s.renamed (g :: gs) = s.renamed gs :=
  List.filter_cons_of_neg (Bool.eq_false_iff.1 h)

theorem freshen_single {a b : String} (hb : b ∉ gs) (within : Ty) (rename : Substitution → Ty → Ty)
    (ret : Ty) (params : List Ty) :
    freshen ⟨[(a, .generic b)]⟩ within rename gs ret params =
      (gs.filter fun g => !([a].contains g), ret, params) := by
  induction gs with
  | nil => rfl
  | cons g gs ih =>
    obtain ⟨hg, hgs⟩ := not_or.1 (mt List.mem_cons.2 hb)
    rw [freshen, ih hgs]
    by_cases ha : g = a
    · have hreplaces : replaces ⟨[(a, .generic b)]⟩ g = true := by
        rw [replaces, get?, lookup_cons_eq_ite, if_pos ha]
        rfl
      rw [if_pos hreplaces, List.filter_cons_of_neg (by simp [ha])]
    · obtain ⟨hreplaces, hintroduces⟩ := single_kept ha (Ne.symm hg)
      rw [if_neg (ne_true_of_eq_false hreplaces), if_neg (ne_true_of_eq_false hintroduces),
        List.filter_cons_of_pos (by simp [ha])]

theorem apply_single_eq_recast {a b : String} {t : Ty} (hb : b ∉ t.binders) :
    apply ⟨[(a, .generic b)]⟩ t = t.recast (fun c => if c = a then b else c) [a] := by
  have hall {ts : List Ty} (hb : b ∉ Ty.bindersAll ts)
      (ih : ∀ t ∈ ts, b ∉ t.binders →
        apply ⟨[(a, .generic b)]⟩ t = t.recast (fun c => if c = a then b else c) [a]) :
      ts.map (apply ⟨[(a, .generic b)]⟩) =
        Ty.recastAll (fun c => if c = a then b else c) [a] ts := by
    rw [Ty.recastAll_eq_map]
    apply List.map_congr_left
    intro t ht
    exact ih t ht fun hmem => hb ((Ty.mem_bindersAll_iff ts).2 ⟨t, ht, hmem⟩)
  induction t using Ty.induction with
  | bool => rfl
  | int => rfl
  | generic c =>
    rw [apply_generic, get?, lookup_cons_eq_ite, Ty.recast]
    split <;> rfl
  | list t ih => rw [apply_list, Ty.recast, ih hb]
  | tuple ts ih => rw [apply_tuple, Ty.recast, hall hb ih]
  | fn ret params names generics ihRet ihParams =>
    obtain ⟨hgenerics, hparts⟩ := not_or.1 (mt Ty.mem_binders_fn_iff.2 hb)
    have hret : b ∉ ret.binders := fun hmem => hparts ⟨ret, List.mem_cons_self, hmem⟩
    have hparams : b ∉ Ty.bindersAll params := by
      intro hmem
      obtain ⟨t, ht, hmem⟩ := (Ty.mem_bindersAll_iff params).1 hmem
      exact hparts ⟨t, List.mem_cons_of_mem _ ht, hmem⟩
    rw [apply_fn, freshen_single hgenerics, Ty.recast]
    dsimp only
    rw [ihRet hret, hall hparams ihParams]

/-- The generics that a function type declares are renamed one after the other, which comes to
renaming those that are mentioned at once and withdrawing them inside. -/
theorem freshen_eq_recast (hgs : ∀ g ∈ gs, g ∈ within.names)
    (hparts : ∀ t ∈ ret :: params, ∀ b ∈ t.binders, b ∈ within.names) :
    (s.freshen within apply gs ret params).2 =
      (ret.recast (s.renewal within (s.renamed gs)) (s.renamed gs),
        params.map (Ty.recast (s.renewal within (s.renamed gs)) (s.renamed gs))) := by
  induction gs generalizing ret params with
  | nil =>
    have hnil : s.renamed [] = [] := rfl
    rw [hnil, renewal_nil, ret.recast_self, List.map_congr_left fun t _ => t.recast_self,
      List.map_id']
    rfl
  | cons g gs ih =>
    obtain ⟨hg, hgs⟩ := List.forall_mem_cons.1 hgs
    rw [freshen]
    cases hreplaces : s.replaces g with
    | true =>
      rw [if_pos rfl, renamed_cons_of_not (by rw [hreplaces]; rfl)]
      exact ih hgs hparts
    | false =>
      cases hintroduces : s.introduces g with
      | false =>
        rw [if_neg Bool.false_ne_true, if_neg Bool.false_ne_true,
          renamed_cons_of_not (by rw [hintroduces, Bool.and_false])]
        exact ih hgs hparts
      | true =>
        have hrenamed : s.renamed (g :: gs) = [g] ++ s.renamed gs :=
          List.filter_cons_of_pos (by rw [hreplaces, hintroduces]; rfl)
        have hsingle : ∀ t ∈ ret :: params,
            apply ⟨[(g, .generic (s.freshName g within))]⟩ t =
              t.recast (s.renewal within [g]) [g] := by
          intro t ht
          have hname : s.newName within g = s.freshName g within := if_pos hintroduces
          rw [renewal_singleton, hname]
          exact apply_single_eq_recast fun hmem =>
            (s.freshName_unused g within).1 (hparts t ht _ hmem)
        have hnext : ∀ t ∈ (ret :: params).map (Ty.recast (s.renewal within [g]) [g]),
            ∀ b ∈ t.binders, b ∈ within.names := by
          intro t ht b hb
          obtain ⟨u, hu, rfl⟩ := List.mem_map.1 ht
          exact hparts u hu b ((Ty.mem_binders_recast u).1 hb).1
        have hrest := ih hgs hnext
        have hdeclared : ∀ a ∈ s.renamed gs, a ∈ within.names :=
          fun a ha => hgs a (mem_renamed_iff.1 ha).1
        have hcons := renewal_cons s g hdeclared
        simp only [List.map_map, Function.comp_def, Ty.recast_recast, hcons] at hrest
        obtain ⟨hret, hparams⟩ := List.forall_mem_cons.1 hsingle
        rw [if_neg Bool.false_ne_true, if_pos rfl, hrenamed]
        dsimp only
        rw [hret, List.map_congr_left hparams]
        exact hrest

theorem erase_apply_recast_fn (ρ : String → String) (withdrawn : List String) :
    let within := (Ty.fn ret params names gs).recast ρ withdrawn
    let renamed := s.renamed (gs.filter fun g => !withdrawn.contains g)
    let next := Ty.recast (fun a => s.renewal within renamed (ρ a)) (withdrawn ++ renamed)
    (s.apply within).erase =
      .fn (s.apply (next ret)).erase (params.map fun t => (s.apply (next t)).erase) [] [] := by
  intro within renamed next
  have hwithin : within = .fn (ret.recast ρ withdrawn) (Ty.recastAll ρ withdrawn params) names
      (gs.filter fun g => !withdrawn.contains g) := rfl
  have hdeclared : ∀ g ∈ gs.filter fun g => !withdrawn.contains g, g ∈ within.names :=
    fun g hg => Ty.mem_names_of_mem_binders (Ty.mem_binders_fn_iff.2 (.inl hg))
  have hinside : ∀ t ∈ ret.recast ρ withdrawn :: Ty.recastAll ρ withdrawn params,
      ∀ b ∈ t.binders, b ∈ within.names :=
    fun t ht b hb => Ty.mem_names_of_mem_binders (Ty.binders_subset_fn ht hb)
  have hparams : (((Ty.recastAll ρ withdrawn params).map
      (Ty.recast (s.renewal within renamed) renamed)).map s.apply).map Ty.erase =
      params.map fun t => (s.apply (next t)).erase := by
    rw [Ty.recastAll_eq_map, List.map_map, List.map_map, List.map_map]
    apply List.map_congr_left
    intro t _
    exact congrArg (fun u => (s.apply u).erase) (t.recast_recast ρ _ withdrawn renamed)
  have happly := apply_fn s (ret.recast ρ withdrawn) (Ty.recastAll ρ withdrawn params) names
    (gs.filter fun g => !withdrawn.contains g)
  rw [← hwithin] at happly
  dsimp only at happly
  rw [freshen_eq_recast hdeclared hinside] at happly
  rw [happly, Ty.erase, Ty.eraseAll_eq_map, hparams, Ty.recast_recast]

/-- The declared generics that bear on a substitution: it keeps them, and a replacement mentions
them or a name of which they are a primed form. -/
def Heeds (s : Substitution) (g : String) : Prop :=
  s.replaces g = false ∧ ∃ x, s.introduces x = true ∧ (g = x ∨ Primed x g)

theorem mem_taken_of_replaces {x : String} (h : s.replaces x = true) (within : Ty) :
    x ∈ s.taken within := by
  obtain ⟨t, ht⟩ := Option.isSome_iff_exists.1 h
  apply List.mem_append_right
  exact List.mem_flatMap.2 ⟨_, mem_of_lookup ht, List.mem_cons_self⟩

theorem freshName_congr {g : String} {a b : Ty} (hg : s.introduces g = true)
    (h : ∀ x, s.Heeds x → (x ∈ a.names ↔ x ∈ b.names)) : s.freshName g a = s.freshName g b := by
  have hlength : (g ++ "'").length = g.length + 1 := String.length_append _ _
  have hbound (t : Ty) :
      ∀ x ∈ s.taken t, x.length < (g ++ "'").length + totalLength (s.taken t) := by
    intro x hx
    have hle := length_le_totalLength hx
    omega
  apply firstFree_congr .once _ (hbound a) (hbound b)
  intro x hx
  cases hreplaces : s.replaces x with
  | true =>
    have htaken := mem_taken_of_replaces hreplaces
    exact iff_of_true (htaken a) (htaken b)
  | false =>
    rw [taken, taken, List.mem_append, List.mem_append]
    exact or_congr_left (h x ⟨hreplaces, g, hg, .inr hx⟩)

section Alike

variable {a b : Ty} {ρ : String → String} {xs ys : List String}

theorem freshName_alike {g : String} (hg : s.introduces g = true) (h : a.Alike s.Heeds b)
    (hwithdrawn : ∀ x, s.Heeds x → (x ∈ xs ↔ x ∈ ys)) :
    s.freshName g (a.recast ρ xs) = s.freshName g (b.recast ρ ys) := by
  apply freshName_congr hg
  intro x hx
  rw [Ty.mem_names_iff (a.recast ρ xs), Ty.mem_names_iff (b.recast ρ ys), Ty.erase_recast,
    Ty.erase_recast, h.structural, Ty.mem_binders_recast, Ty.mem_binders_recast, h.mem_binders hx,
    hwithdrawn x hx]

theorem mem_renamed_alike {gs hs : List String} (hgenerics : ∀ g, s.Heeds g → (g ∈ gs ↔ g ∈ hs))
    (hwithdrawn : ∀ x, s.Heeds x → (x ∈ xs ↔ x ∈ ys)) (g : String) :
    g ∈ s.renamed (gs.filter fun g => !xs.contains g) ↔
      g ∈ s.renamed (hs.filter fun g => !ys.contains g) := by
  rw [mem_renamed_iff, mem_renamed_iff]
  apply and_congr_left
  intro h
  obtain ⟨hreplaces, hintroduces⟩ := h
  have hg : s.Heeds g := ⟨hreplaces, g, hintroduces, .inl rfl⟩
  rw [List.mem_filter, List.mem_filter, hgenerics g hg, Bool.not_eq_true', Bool.not_eq_true',
    ← Bool.not_eq_true, ← Bool.not_eq_true, List.contains_iff_mem, List.contains_iff_mem,
    hwithdrawn g hg]

/-- The declarations that bear on a substitution decide on its result together with the structure.
The induction goes into parts of which enclosing function types have renamed some generics and
withdrawn their declarations. -/
theorem erase_apply_recast (h : a.Alike s.Heeds b)
    (hwithdrawn : ∀ x, s.Heeds x → (x ∈ xs ↔ x ∈ ys)) :
    (s.apply (a.recast ρ xs)).erase = (s.apply (b.recast ρ ys)).erase := by
  induction a using Ty.induction generalizing b ρ xs ys with
  | bool =>
    cases b with
    | bool => rfl
    | _ => cases h.structural
  | int =>
    cases b with
    | int => rfl
    | _ => cases h.structural
  | generic a =>
    cases b with
    | generic b => rw [Ty.generic.inj h.structural, Ty.recast, Ty.recast]
    | _ => cases h.structural
  | list t ih =>
    cases b with
    | list u =>
      have hitem : t.Alike s.Heeds u := ⟨Ty.list.inj h.structural, h.generics⟩
      rw [Ty.recast, Ty.recast, apply_list, apply_list, Ty.erase, Ty.erase, ih hitem hwithdrawn]
    | _ => cases h.structural
  | tuple ts ih =>
    cases b with
    | tuple us =>
      rw [Ty.recast, Ty.recast, apply_tuple, apply_tuple, Ty.erase, Ty.erase, Ty.eraseAll_eq_map,
        Ty.eraseAll_eq_map, Ty.recastAll_eq_map, Ty.recastAll_eq_map, List.map_map, List.map_map,
        List.map_map, List.map_map]
      apply congrArg Ty.tuple
      apply Ty.Alike.map_eq h.items
      intro t ht u htu
      exact ih t ht htu hwithdrawn
    | _ => cases h.structural
  | fn ret params names gs ihRet ihParams =>
    cases b with
    | fn ret' params' names' gs' =>
      obtain ⟨hgenerics, hret, hparams⟩ := h.parts
      have hrenamed := mem_renamed_alike hgenerics hwithdrawn
      have hrenewal : (fun a => s.renewal ((Ty.fn ret params names gs).recast ρ xs)
            (s.renamed (gs.filter fun g => !xs.contains g)) (ρ a)) =
          fun a => s.renewal ((Ty.fn ret' params' names' gs').recast ρ ys)
            (s.renamed (gs'.filter fun g => !ys.contains g)) (ρ a) := by
        funext a
        by_cases ha : ρ a ∈ s.renamed (gs.filter fun g => !xs.contains g)
        · obtain ⟨-, -, hintroduces⟩ := mem_renamed_iff.1 ha
          rw [renewal_of_mem ha, renewal_of_mem ((hrenamed _).1 ha), newName, newName,
            freshName_alike hintroduces h hwithdrawn]
        · rw [renewal_of_not_mem ha, renewal_of_not_mem (mt (hrenamed _).2 ha)]
      have hnext : ∀ x, s.Heeds x →
          (x ∈ xs ++ s.renamed (gs.filter fun g => !xs.contains g) ↔
            x ∈ ys ++ s.renamed (gs'.filter fun g => !ys.contains g)) := by
        intro x hx
        rw [List.mem_append, List.mem_append, hwithdrawn x hx, hrenamed]
      rw [erase_apply_recast_fn, erase_apply_recast_fn, hrenewal, ihRet hret hnext]
      congr 1
      apply Ty.Alike.map_eq hparams
      intro t ht u htu
      exact ihParams t ht htu hnext
    | _ => cases h.structural

end Alike

/-- Equal types stay equal under a substitution if their function types declare the same generics
out of those that bear on it. -/
theorem equiv_apply {a b : Ty} (h : a.equiv b = true)
    (hgenerics : List.Forall₂ (fun gs hs => ∀ g, s.Heeds g → (g ∈ gs ↔ g ∈ hs)) a.genericLists
      b.genericLists) : (s.apply a).equiv (s.apply b) = true := by
  rw [Ty.equiv_iff_erase_eq] at h ⊢
  have halike : a.Alike s.Heeds b := ⟨h, hgenerics⟩
  have herase : (s.apply (a.recast (fun x => x) [])).erase =
      (s.apply (b.recast (fun x => x) [])).erase :=
    erase_apply_recast halike fun _ _ => Iff.rfl
  rwa [Ty.recast_self, Ty.recast_self] at herase

/-- Order and repetition of declared generics make no difference, nor does a declaration of `C` if
only `A` is mentioned. -/
theorem equiv_apply_reordered :
    let s : Substitution := ⟨[("X", .generic "A")]⟩
    let parts := Ty.tuple [.generic "A", .generic "B", .generic "X"]
    let a := Ty.fn parts [.fn (.generic "C") [.generic "C"] ["c"] ["C"]] ["f"] ["A", "B"]
    let b := Ty.fn parts [.fn (.generic "C") [.generic "C"] ["d"] []] ["g"] ["B", "A", "A"]
    a.equiv b = true ∧ (s.apply a).equiv (s.apply b) = true ∧
      (s.apply a).text = "\x7bA', B\x7d (A', B, A)(f: \x7bC\x7d C(c: C))" := by
  intro s parts a b
  have hab : a.equiv b = true := by decide +kernel
  have hC : ¬ s.Heeds "C" := by
    intro h
    obtain ⟨_, x, hx, hname⟩ := h
    have hxA : x = "A" := by simpa [s, introduces, Ty.mentions, Ty.names] using hx
    subst hxA
    rcases hname with hname | hname
    · exact absurd hname (by decide +kernel)
    · exact absurd hname.stem_eq (by decide +kernel)
  have hgenerics : List.Forall₂ (fun gs hs => ∀ g, s.Heeds g → (g ∈ gs ↔ g ∈ hs)) a.genericLists
      b.genericLists := by
    apply List.Forall₂.cons
    · intro g _
      simp [or_comm]
    apply List.Forall₂.cons
    · intro g hg
      have hne : g ≠ "C" := fun h => hC (h ▸ hg)
      simp [hne]
    · exact .nil
  exact ⟨hab, equiv_apply hab hgenerics, by decide +kernel⟩

/-- One type declares the generic that a replacement mentions, the other one takes it from outside:
they are equal, and only the first one gets a new name. -/
theorem equiv_broken_by_declaration :
    let s : Substitution := ⟨[("X", .generic "A")]⟩
    let a := Ty.fn (.generic "A") [.generic "A"] ["y"] ["A"]
    let b := Ty.fn (.generic "A") [.generic "A"] ["y"] []
    a.equiv b = true ∧ (s.apply a).equiv (s.apply b) = false := by
  decide +kernel

-- A declared `A'` stands in the way of the new name that `A` gets without it.
example :
    let s : Substitution := ⟨[("X", .generic "A")]⟩
    let a := Ty.fn (.generic "A") [] [] ["A", "A'"]
    let b := Ty.fn (.generic "A") [] [] ["A"]
    a.equiv b = true ∧ (s.apply a).equiv (s.apply b) = false := by
  decide +kernel

end Substitution

end ExprLang
