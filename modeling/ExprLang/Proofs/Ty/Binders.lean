import ExprLang.Proofs.Ty.Renaming

namespace ExprLang

namespace Ty

mutual

def genericLists : Ty → List (List String)
  | bool | int | generic _ => []
  | list t => t.genericLists
  | tuple ts => genericListsAll ts
  | fn ret params _ generics => generics :: (ret.genericLists ++ genericListsAll params)

def genericListsAll : List Ty → List (List String)
  | [] => []
  | t :: ts => t.genericLists ++ genericListsAll ts

end

/-- All generics that are declared in a type, however deep. -/
def binders (t : Ty) : List String := t.genericLists.flatten

def bindersAll (ts : List Ty) : List String := (genericListsAll ts).flatten

mutual

/-- The pairs of declared generics of which the second one is declared inside the function type that
declares the first. -/
def nestings : Ty → List (String × String)
  | bool | int | generic _ => []
  | list t => t.nestings
  | tuple ts => nestingsAll ts
  | fn ret params _ generics =>
    (generics.flatMap fun a => (bindersAll (ret :: params)).map fun b => (a, b)) ++
      (ret.nestings ++ nestingsAll params)

def nestingsAll : List Ty → List (String × String)
  | [] => []
  | t :: ts => t.nestings ++ nestingsAll ts

end

/-- Each declared generic is related to all that are declared inside its function type. -/
def Nested (R : String → String → Prop) (t : Ty) : Prop := ∀ p ∈ t.nestings, R p.1 p.2

instance (R : String → String → Prop) [DecidableRel R] (t : Ty) : Decidable (t.Nested R) :=
  inferInstanceAs (Decidable (∀ p ∈ t.nestings, R p.1 p.2))

variable {x : String} {ret : Ty} {params : List Ty} {names generics : List String}

theorem genericListsAll_eq_flatMap (ts : List Ty) :
    genericListsAll ts = ts.flatMap genericLists := by
  induction ts with
  | nil => rfl
  | cons t ts ih => rw [genericListsAll, ih, List.flatMap_cons]

theorem mem_genericListsAll_iff {gs : List String} (ts : List Ty) :
    gs ∈ genericListsAll ts ↔ ∃ t ∈ ts, gs ∈ t.genericLists := by
  rw [genericListsAll_eq_flatMap, List.mem_flatMap]

theorem mem_bindersAll_iff (ts : List Ty) : x ∈ bindersAll ts ↔ ∃ t ∈ ts, x ∈ t.binders := by
  induction ts with
  | nil => simp [bindersAll, genericListsAll]
  | cons t ts ih =>
    rw [bindersAll, genericListsAll, List.flatten_append, List.mem_append, ← bindersAll, ih]
    simp [binders]

theorem mem_binders_fn_iff :
    x ∈ (fn ret params names generics).binders ↔
      x ∈ generics ∨ ∃ t ∈ ret :: params, x ∈ t.binders := by
  rw [← mem_bindersAll_iff, binders, genericLists, List.flatten_cons, List.mem_append]
  rfl

theorem binders_subset_tuple {t : Ty} {ts : List Ty} (ht : t ∈ ts) :
    t.binders ⊆ (tuple ts).binders :=
  fun _ hx => (mem_bindersAll_iff ts).2 ⟨t, ht, hx⟩

theorem binders_subset_fn {t : Ty} (ht : t ∈ ret :: params) :
    t.binders ⊆ (fn ret params names generics).binders :=
  fun _ hx => mem_binders_fn_iff.2 (.inr ⟨t, ht, hx⟩)

theorem mem_nestingsAll_iff {p : String × String} (ts : List Ty) :
    p ∈ nestingsAll ts ↔ ∃ t ∈ ts, p ∈ t.nestings := by
  induction ts with
  | nil => simp [nestingsAll]
  | cons t ts ih => simp [nestingsAll, ih]

theorem nested_tuple_iff {R : String → String → Prop} {ts : List Ty} :
    (tuple ts).Nested R ↔ ∀ t ∈ ts, t.Nested R := by
  constructor
  · intro h t ht p hp
    exact h p ((mem_nestingsAll_iff ts).2 ⟨t, ht, hp⟩)
  · intro h p hp
    obtain ⟨t, ht, hp⟩ := (mem_nestingsAll_iff ts).1 hp
    exact h t ht p hp

theorem nested_fn_iff {R : String → String → Prop} :
    (fn ret params names generics).Nested R ↔
      (∀ a ∈ generics, ∀ t ∈ ret :: params, ∀ b ∈ t.binders, R a b) ∧
        ∀ t ∈ ret :: params, t.Nested R := by
  rw [← nested_tuple_iff, Nested, nestings, List.forall_mem_append, List.forall_mem_flatMap]
  apply and_congr_left'
  apply forall₂_congr
  intro a _
  rw [List.forall_mem_map]
  constructor
  · intro h t ht b hb
    exact h b ((mem_bindersAll_iff _).2 ⟨t, ht, hb⟩)
  · intro h b hb
    obtain ⟨t, ht, hb⟩ := (mem_bindersAll_iff _).1 hb
    exact h t ht b hb

theorem mem_names_of_mem_binders {t : Ty} (h : x ∈ t.binders) : x ∈ t.names := by
  have hall {ts : List Ty} (ih : ∀ t ∈ ts, x ∈ t.binders → x ∈ t.names) (h : x ∈ bindersAll ts) :
      x ∈ namesAll ts := by
    obtain ⟨t, ht, hx⟩ := (mem_bindersAll_iff ts).1 h
    exact (mem_namesAll_iff ts).2 ⟨t, ht, ih t ht hx⟩
  induction t using Ty.induction with
  | bool => cases h
  | int => cases h
  | generic a => cases h
  | list t ih => exact ih h
  | tuple ts ih => exact hall ih h
  | fn ret params names generics ihRet ihParams =>
    rw [Ty.names, List.append_assoc, List.mem_append]
    rcases mem_binders_fn_iff.1 h with hg | hparts
    · exact .inl hg
    · have ih := List.forall_mem_cons.2 ⟨ihRet, ihParams⟩
      exact .inr (hall ih ((mem_bindersAll_iff _).2 hparts))

theorem genericLists_rename (ρ : String → String) (t : Ty) :
    (t.rename ρ).genericLists = t.genericLists := by
  have hall {ts : List Ty} (ih : ∀ t ∈ ts, (t.rename ρ).genericLists = t.genericLists) :
      genericListsAll (renameAll ρ ts) = genericListsAll ts := by
    rw [genericListsAll_eq_flatMap, genericListsAll_eq_flatMap, renameAll_eq_map,
      List.flatMap_map]
    exact congrArg List.flatten (List.map_congr_left ih)
  induction t using Ty.induction with
  | bool => rfl
  | int => rfl
  | generic a => rfl
  | list t ih => exact ih
  | tuple ts ih => exact hall ih
  | fn ret params names generics ihRet ihParams =>
    rw [rename, genericLists, genericLists, ihRet, hall ihParams]

theorem binders_rename (ρ : String → String) (t : Ty) : (t.rename ρ).binders = t.binders :=
  congrArg List.flatten (genericLists_rename ρ t)

theorem rename_rename (t : Ty) (ρ σ : String → String) :
    (t.rename ρ).rename σ = t.rename fun a => σ (ρ a) := by
  have hall {ts : List Ty} (ih : ∀ t ∈ ts, (t.rename ρ).rename σ = t.rename fun a => σ (ρ a)) :
      renameAll σ (renameAll ρ ts) = renameAll (fun a => σ (ρ a)) ts := by
    rw [renameAll_eq_map, renameAll_eq_map, renameAll_eq_map, List.map_map]
    exact List.map_congr_left ih
  induction t using Ty.induction with
  | bool => rfl
  | int => rfl
  | generic a => rfl
  | list t ih => rw [rename, rename, rename, ih]
  | tuple ts ih => rw [rename, rename, rename, hall ih]
  | fn ret params names generics ihRet ihParams =>
    rw [rename, rename, rename, ihRet, hall ihParams]

theorem map_rename_self (ts : List Ty) : ts.map (rename fun a => a) = ts := by
  rw [List.map_congr_left fun t _ => t.rename_self, List.map_id']

end Ty

namespace Substitution

variable {s : Substitution} {within ret : Ty} {params : List Ty} {names gs : List String}

theorem introduces_eq_false_iff {x : String} :
    s.introduces x = false ↔ ∀ e ∈ s.entries, x ∉ e.2.names := by
  simp [introduces, Ty.mentions]

theorem get?_eq_none_of_replaces {a : String} (h : s.replaces a = false) : s.get? a = none :=
  Option.isNone_iff_eq_none.1 (Option.isSome_eq_false_iff.1 h)

theorem freshName_unused (s : Substitution) (g : String) (within : Ty) :
    s.freshName g within ∉ within.names ∧ s.introduces (s.freshName g within) = false ∧
      s.get? (s.freshName g within) = none := by
  obtain ⟨hwithin, hentries⟩ := not_or.1 (mt List.mem_append.2 (s.freshName_not_mem_taken g within))
  rw [List.mem_flatMap] at hentries
  constructor
  · exact hwithin
  constructor
  · exact introduces_eq_false_iff.2 fun e he hx => hentries ⟨e, he, List.mem_cons_of_mem _ hx⟩
  · cases h : s.get? (s.freshName g within) with
    | none => rfl
    | some t => exact absurd ⟨_, mem_of_lookup h, List.mem_cons_self⟩ hentries

/-- The name that a substitution gives to a generic that a function type declares. -/
def newName (s : Substitution) (within : Ty) (g : String) : String :=
  if s.introduces g then s.freshName g within else g

theorem newName_cases (s : Substitution) (within : Ty) (g : String) :
    (s.introduces g = false ∧ s.newName within g = g) ∨
      (s.introduces g = true ∧ s.newName within g = s.freshName g within) := by
  rw [newName]
  cases hg : s.introduces g with
  | false => exact .inl ⟨rfl, if_neg Bool.false_ne_true⟩
  | true => exact .inr ⟨rfl, if_pos rfl⟩

theorem newName_eq_or_not_mem (s : Substitution) (within : Ty) (g : String) :
    s.newName within g = g ∨ s.newName within g ∉ within.names := by
  rcases s.newName_cases within g with ⟨_, hself⟩ | ⟨_, hfresh⟩
  · exact .inl hself
  · rw [hfresh]
    exact .inr (s.freshName_unused g within).1

theorem introduces_newName (s : Substitution) (within : Ty) (g : String) :
    s.introduces (s.newName within g) = false := by
  rcases s.newName_cases within g with ⟨hg, hself⟩ | ⟨_, hfresh⟩
  · rw [hself, hg]
  · rw [hfresh]
    exact (s.freshName_unused g within).2.1

theorem get?_newName {g : String} (h : s.replaces g = false) (within : Ty) :
    s.get? (s.newName within g) = none := by
  rcases s.newName_cases within g with ⟨_, hself⟩ | ⟨_, hfresh⟩
  · rw [hself]
    exact get?_eq_none_of_replaces h
  · rw [hfresh]
    exact (s.freshName_unused g within).2.2

def renewal (s : Substitution) (within : Ty) (gs : List String) (a : String) : String :=
  if a ∈ gs then s.newName within a else a

theorem renewal_nil : s.renewal within [] = fun a => a := by
  funext a
  exact if_neg List.not_mem_nil

theorem renewal_of_mem {a : String} (h : a ∈ gs) :
    s.renewal within gs a = s.newName within a :=
  if_pos h

theorem renewal_of_not_mem {a : String} (h : a ∉ gs) : s.renewal within gs a = a :=
  if_neg h

theorem renewal_singleton (g : String) :
    s.renewal within [g] = fun a => if a = g then s.newName within g else a := by
  funext a
  by_cases ha : a = g
  · rw [ha, renewal_of_mem List.mem_cons_self, if_pos rfl]
  · rw [renewal_of_not_mem (mt List.mem_singleton.1 ha), if_neg ha]

theorem renewal_cons (s : Substitution) (g : String) (hgs : ∀ a ∈ gs, a ∈ within.names) :
    (fun a => s.renewal within gs (s.renewal within [g] a)) = s.renewal within (g :: gs) := by
  funext a
  by_cases ha : a = g
  · subst ha
    rw [renewal_of_mem List.mem_cons_self, renewal_of_mem List.mem_cons_self]
    rcases s.newName_eq_or_not_mem within a with hself | hfresh
    · rw [hself, renewal, hself, ite_self]
    · exact renewal_of_not_mem fun hmem => hfresh (hgs _ hmem)
  · rw [renewal_of_not_mem (mt List.mem_singleton.1 ha), renewal, renewal]
    simp only [List.mem_cons, ha, false_or]

/-- A generic is renamed everywhere if neither it nor its new name is declared in the type. -/
theorem apply_single_eq_rename {a b : String} {t : Ty} (ha : a ∉ t.binders) (hb : b ∉ t.binders) :
    apply ⟨[(a, .generic b)]⟩ t = t.rename fun c => if c = a then b else c := by
  have hall {ts : List Ty} (ha : ∀ t ∈ ts, a ∉ t.binders) (hb : ∀ t ∈ ts, b ∉ t.binders)
      (ih : ∀ t ∈ ts, a ∉ t.binders → b ∉ t.binders →
        apply ⟨[(a, .generic b)]⟩ t = t.rename fun c => if c = a then b else c) :
      ts.map (apply ⟨[(a, .generic b)]⟩) = Ty.renameAll (fun c => if c = a then b else c) ts := by
    rw [Ty.renameAll_eq_map]
    exact List.map_congr_left fun t ht => ih t ht (ha t ht) (hb t ht)
  induction t using Ty.induction with
  | bool => rfl
  | int => rfl
  | generic c =>
    rw [apply_generic, get?, lookup_cons_eq_ite, Ty.rename]
    split <;> rfl
  | list t ih => rw [apply_list, Ty.rename, ih ha hb]
  | tuple ts ih =>
    have hparts {x : String} (hx : x ∉ (Ty.tuple ts).binders) (t : Ty) (ht : t ∈ ts) :
        x ∉ t.binders := fun hmem => hx ((Ty.mem_bindersAll_iff ts).2 ⟨t, ht, hmem⟩)
    rw [apply_tuple, Ty.rename, hall (hparts ha) (hparts hb) ih]
  | fn ret params names generics ihRet ihParams =>
    obtain ⟨ha, haParts⟩ := not_or.1 (mt Ty.mem_binders_fn_iff.2 ha)
    obtain ⟨hb, hbParts⟩ := not_or.1 (mt Ty.mem_binders_fn_iff.2 hb)
    have hparts {x : String} (hx : ¬ ∃ t ∈ ret :: params, x ∈ t.binders) :
        x ∉ ret.binders ∧ ∀ t ∈ params, x ∉ t.binders :=
      List.forall_mem_cons.1 fun t ht hmem => hx ⟨t, ht, hmem⟩
    have hkept : ∀ g ∈ generics, replaces ⟨[(a, .generic b)]⟩ g = false ∧
        introduces ⟨[(a, .generic b)]⟩ g = false := by
      intro g hg
      exact single_kept (fun h => ha (h ▸ hg)) fun h => hb (h ▸ hg)
    rw [apply_fn, freshen_self hkept, Ty.rename]
    dsimp only
    rw [ihRet (hparts haParts).1 (hparts hbParts).1,
      hall (hparts haParts).2 (hparts hbParts).2 ihParams]

/-- The generics that a function type declares are renamed one after the other, which comes to
renaming them at once. -/
theorem freshen_eq_rename (hgs : ∀ g ∈ gs, g ∈ within.names ∧ s.replaces g = false)
    (hparts : ∀ t ∈ ret :: params, ∀ b ∈ t.binders, b ∈ within.names ∧ b ∉ gs) :
    s.freshen within apply gs ret params =
      (gs.map (s.newName within), ret.rename (s.renewal within gs),
        params.map (Ty.rename (s.renewal within gs))) := by
  induction gs generalizing ret params with
  | nil =>
    rw [renewal_nil, ret.rename_self, Ty.map_rename_self]
    rfl
  | cons g gs ih =>
    obtain ⟨⟨hg, hreplaces⟩, hgs⟩ := List.forall_mem_cons.1 hgs
    -- renaming the first generic keeps what is declared in the parts
    have hnext : ∀ t ∈ (ret :: params).map (Ty.rename (s.renewal within [g])),
        ∀ b ∈ t.binders, b ∈ within.names ∧ b ∉ gs := by
      intro t ht b hb
      obtain ⟨u, hu, rfl⟩ := List.mem_map.1 ht
      rw [Ty.binders_rename] at hb
      obtain ⟨hwithin, hnew⟩ := hparts u hu b hb
      exact ⟨hwithin, List.not_mem_of_not_mem_cons hnew⟩
    have hrest := ih hgs hnext
    have hcons := renewal_cons s g fun a ha => (hgs a ha).1
    simp only [List.map_map, Ty.rename_rename, Function.comp_def, hcons] at hrest
    rw [freshen, if_neg (ne_true_of_eq_false hreplaces), List.map_cons]
    rcases s.newName_cases within g with ⟨hintroduces, hself⟩ | ⟨hintroduces, hfresh⟩
    · have hid : s.renewal within [g] = fun a => a := by
        rw [renewal_singleton, hself]
        funext a
        split
        · rename_i ha
          exact ha.symm
        · rfl
      rw [hid, ret.rename_self, Ty.map_rename_self] at hrest
      rw [if_neg (ne_true_of_eq_false hintroduces), hrest, hself]
    · have happly : ∀ t ∈ ret :: params,
          apply ⟨[(g, .generic (s.freshName g within))]⟩ t = t.rename (s.renewal within [g]) := by
        intro t ht
        rw [renewal_singleton, hfresh]
        apply apply_single_eq_rename
        · exact fun hmem => (hparts t ht g hmem).2 List.mem_cons_self
        · exact fun hmem => (s.freshName_unused g within).1 (hparts t ht _ hmem).1
      obtain ⟨hret, hparams⟩ := List.forall_mem_cons.1 happly
      rw [if_pos hintroduces, hfresh]
      simp only [hret, List.map_congr_left hparams, hrest]

/-- Substitution in a type whose generics have got other names before, as those have that an
enclosing function type declares. -/
def applyAfter (s : Substitution) (ρ : String → String) (t : Ty) : Ty := s.apply (t.rename ρ)

theorem applyAfter_self (t : Ty) : s.applyAfter (fun a => a) t = s.apply t :=
  congrArg s.apply t.rename_self

@[simp] theorem applyAfter_generic (ρ : String → String) (a : String) :
    s.applyAfter ρ (.generic a) = (s.get? (ρ a)).getD (.generic (ρ a)) := rfl

@[simp] theorem applyAfter_list (ρ : String → String) (t : Ty) :
    s.applyAfter ρ (.list t) = .list (s.applyAfter ρ t) := rfl

@[simp] theorem applyAfter_tuple (ρ : String → String) (ts : List Ty) :
    s.applyAfter ρ (.tuple ts) = .tuple (ts.map (s.applyAfter ρ)) := by
  rw [applyAfter, Ty.rename, apply_tuple, Ty.renameAll_eq_map, List.map_map]
  rfl

/-- No generic is declared that is declared inside again or that the map replaces. -/
structure Spares (s : Substitution) (t : Ty) : Prop where
  nested : t.Nested fun a b => a ≠ b
  kept : ∀ g ∈ t.binders, s.replaces g = false

namespace Spares

theorem item {t : Ty} {ts : List Ty} (h : s.Spares (.tuple ts)) (ht : t ∈ ts) : s.Spares t :=
  ⟨Ty.nested_tuple_iff.1 h.nested t ht, fun g hg => h.kept g (Ty.binders_subset_tuple ht hg)⟩

theorem part {t : Ty} (h : s.Spares (.fn ret params names gs)) (ht : t ∈ ret :: params) :
    s.Spares t :=
  ⟨(Ty.nested_fn_iff.1 h.nested).2 t ht, fun g hg => h.kept g (Ty.binders_subset_fn ht hg)⟩

/-- What a substitution makes of a function type: the declared generics get new names, and with
these the map goes into the parts. -/
theorem applyAfter_fn (h : s.Spares (.fn ret params names gs)) (ρ : String → String) :
    let within := (Ty.fn ret params names gs).rename ρ
    let σ := fun a => s.renewal within gs (ρ a)
    s.applyAfter ρ (.fn ret params names gs) =
      .fn (s.applyAfter σ ret) (params.map (s.applyAfter σ)) names
        (gs.map (s.newName within)) := by
  intro within σ
  have hwithin : within = .fn (ret.rename ρ) (Ty.renameAll ρ params) names gs := rfl
  have hdeclared : ∀ g ∈ gs, g ∈ within.names ∧ s.replaces g = false := by
    intro g hg
    constructor
    · exact Ty.mem_names_of_mem_binders (Ty.mem_binders_fn_iff.2 (.inl hg))
    · exact h.kept g (Ty.mem_binders_fn_iff.2 (.inl hg))
  have hinside : ∀ t ∈ ret.rename ρ :: Ty.renameAll ρ params,
      ∀ b ∈ t.binders, b ∈ within.names ∧ b ∉ gs := by
    intro t ht b hb
    constructor
    · exact Ty.mem_names_of_mem_binders (Ty.binders_subset_fn ht hb)
    · rw [Ty.renameAll_eq_map, ← List.map_cons] at ht
      obtain ⟨u, hu, rfl⟩ := List.mem_map.1 ht
      rw [Ty.binders_rename] at hb
      intro hmem
      exact (Ty.nested_fn_iff.1 h.nested).1 b hmem u hu b hb rfl
  have hmap : ((Ty.renameAll ρ params).map (Ty.rename (s.renewal within gs))).map s.apply =
      params.map (s.applyAfter σ) := by
    rw [Ty.renameAll_eq_map, List.map_map, List.map_map]
    apply List.map_congr_left
    intro t _
    exact congrArg s.apply (t.rename_rename ρ (s.renewal within gs))
  have happly := apply_fn s (ret.rename ρ) (Ty.renameAll ρ params) names gs
  rw [← hwithin, freshen_eq_rename hdeclared hinside] at happly
  dsimp only at happly
  rw [hmap, Ty.rename_rename] at happly
  exact happly

end Spares

end Substitution

end ExprLang
