import ExprLang.Proofs.Ty.Binders
import ExprLang.Proofs.Ty.Free
import Mathlib.Data.List.Nodup

namespace ExprLang

/-- A type that refers to declared generics by place. Free generics keep their names. -/
inductive Nameless where
  | bool
  | int
  | list (element : Nameless)
  | tuple (items : List Nameless)
  /-- A function type that declares as many generics as its arity says. -/
  | fn (ret : Nameless) (params : List Nameless) (names : List String) (arity : Nat)
  | free (name : String)
  /-- The generic at a place of the list that the function type declares which is so many levels
  further out than the closest one. -/
  | bound (level place : Nat)

namespace Nameless

mutual

/-- Puts other types in the place of free generics, all at once. What is put there refers to no
declared generic outside of it, so that no place has to be shifted. -/
def replace (f : String → Option Nameless) : Nameless → Nameless
  | bool => bool
  | int => int
  | list t => list (t.replace f)
  | tuple ts => tuple (replaceAll f ts)
  | fn ret params names arity => fn (ret.replace f) (replaceAll f params) names arity
  | free a => (f a).getD (free a)
  | bound level place => bound level place

def replaceAll (f : String → Option Nameless) : List Nameless → List Nameless
  | [] => []
  | t :: ts => t.replace f :: replaceAll f ts

end

theorem replaceAll_eq_map (f : String → Option Nameless) (ts : List Nameless) :
    replaceAll f ts = ts.map (replace f) := by
  induction ts with
  | nil => rfl
  | cons t ts ih => rw [replaceAll, ih, List.map_cons]

end Nameless

namespace Ty

/-- Where a generic is declared: how many lists further out, and at which place of the list. The
closest list comes first. -/
def locate : List (List String) → String → Option (Nat × Nat)
  | [], _ => none
  | gs :: scopes, a =>
    if a ∈ gs then some (0, gs.idxOf a)
    else (locate scopes a).map fun p => (p.1 + 1, p.2)

theorem locate_cons_of_mem {gs : List String} {a : String} (h : a ∈ gs)
    (scopes : List (List String)) : locate (gs :: scopes) a = some (0, gs.idxOf a) :=
  if_pos h

theorem locate_cons_of_not_mem {gs : List String} {a : String} (h : a ∉ gs)
    (scopes : List (List String)) :
    locate (gs :: scopes) a = (locate scopes a).map fun p => (p.1 + 1, p.2) :=
  if_neg h

mutual

/-- The nameless form of a type inside of function types that declare the given lists. -/
def nameless (scopes : List (List String)) : Ty → Nameless
  | bool => .bool
  | int => .int
  | list t => .list (t.nameless scopes)
  | tuple ts => .tuple (namelessAll scopes ts)
  | fn ret params names generics =>
    .fn (ret.nameless (generics :: scopes)) (namelessAll (generics :: scopes) params) names
      generics.length
  | generic a =>
    match locate scopes a with
    | some p => .bound p.1 p.2
    | none => .free a

def namelessAll (scopes : List (List String)) : List Ty → List Nameless
  | [] => []
  | t :: ts => t.nameless scopes :: namelessAll scopes ts

end

theorem namelessAll_eq_map (scopes : List (List String)) (ts : List Ty) :
    namelessAll scopes ts = ts.map (nameless scopes) := by
  induction ts with
  | nil => rfl
  | cons t ts ih => rw [namelessAll, ih, List.map_cons]

variable {scopes scopes' : List (List String)}

theorem nameless_generic_of_eq_some {a : String} {p : Nat × Nat} (h : locate scopes a = some p) :
    (generic a).nameless scopes = .bound p.1 p.2 := by
  rw [nameless, h]

theorem nameless_generic_of_eq_none {a : String} (h : locate scopes a = none) :
    (generic a).nameless scopes = .free a := by
  rw [nameless, h]

/-- The nameless form depends on where the free generics are declared only. -/
theorem nameless_congr {t : Ty} (h : ∀ x ∈ t.free, locate scopes x = locate scopes' x) :
    t.nameless scopes = t.nameless scopes' := by
  induction t using Ty.induction generalizing scopes scopes' with
  | bool => rfl
  | int => rfl
  | generic a => rw [nameless, nameless, h a List.mem_cons_self]
  | list t ih => rw [nameless, nameless, ih h]
  | tuple ts ih =>
    rw [nameless, nameless, namelessAll_eq_map, namelessAll_eq_map]
    apply congrArg
    apply List.map_congr_left
    intro t ht
    exact ih t ht fun x hx => h x ((mem_freeAll_iff ts).2 ⟨t, ht, hx⟩)
  | fn ret params names generics ihRet ihParams =>
    have hinner : ∀ t ∈ ret :: params, ∀ x ∈ t.free,
        locate (generics :: scopes) x = locate (generics :: scopes') x := by
      intro t ht x hx
      by_cases hmem : x ∈ generics
      · rw [locate_cons_of_mem hmem, locate_cons_of_mem hmem]
      · have hfree : x ∈ (fn ret params names generics).free :=
          mem_free_fn_iff.2 ⟨(mem_freeAll_iff _).2 ⟨t, ht, hx⟩, hmem⟩
        rw [locate_cons_of_not_mem hmem, locate_cons_of_not_mem hmem, h x hfree]
    obtain ⟨hret, hparams⟩ := List.forall_mem_cons.1 hinner
    rw [nameless, nameless, namelessAll_eq_map, namelessAll_eq_map, ihRet hret,
      List.map_congr_left fun t ht => ihParams t ht (hparams t ht)]

theorem mem_names_of_mem_free {t : Ty} {x : String} (h : x ∈ t.free) : x ∈ t.names := by
  have hall {ts : List Ty} (ih : ∀ t ∈ ts, x ∈ t.free → x ∈ t.names) (h : x ∈ freeAll ts) :
      x ∈ namesAll ts := by
    obtain ⟨t, ht, hx⟩ := (mem_freeAll_iff ts).1 h
    exact (mem_namesAll_iff ts).2 ⟨t, ht, ih t ht hx⟩
  induction t using Ty.induction with
  | bool => cases h
  | int => cases h
  | generic a => exact h
  | list t ih => exact ih h
  | tuple ts ih => exact hall ih h
  | fn ret params names generics ihRet ihParams =>
    have ih := List.forall_mem_cons.2 ⟨ihRet, ihParams⟩
    rw [Ty.names, List.append_assoc, List.mem_append]
    exact .inr (hall ih (mem_free_fn_iff.1 h).1)

theorem mem_names_rename {t : Ty} {x : String} (h : x ∈ t.free) (ρ : String → String) :
    ρ x ∈ (t.rename ρ).names := by
  have hall {ts : List Ty} (ih : ∀ t ∈ ts, x ∈ t.free → ρ x ∈ (t.rename ρ).names)
      (h : x ∈ freeAll ts) : ρ x ∈ namesAll (renameAll ρ ts) := by
    obtain ⟨t, ht, hx⟩ := (mem_freeAll_iff ts).1 h
    rw [renameAll_eq_map]
    exact (mem_namesAll_iff _).2 ⟨t.rename ρ, List.mem_map_of_mem ht, ih t ht hx⟩
  induction t using Ty.induction with
  | bool => cases h
  | int => cases h
  | generic a =>
    rw [List.mem_singleton.1 h]
    exact List.mem_cons_self
  | list t ih => exact ih h
  | tuple ts ih => exact hall ih h
  | fn ret params names generics ihRet ihParams =>
    have ih := List.forall_mem_cons.2 ⟨ihRet, ihParams⟩
    rw [rename, Ty.names, List.append_assoc, List.mem_append]
    exact .inr (hall ih (mem_free_fn_iff.1 h).1)

end Ty

theorem idxOf_map {f : String → String} {l : List String} {a : String}
    (hf : ∀ b ∈ l, f b = f a → b = a) : (l.map f).idxOf (f a) = l.idxOf a := by
  induction l with
  | nil => rfl
  | cons b l ih =>
    obtain ⟨hb, hl⟩ := List.forall_mem_cons.1 hf
    by_cases hab : b = a
    · rw [hab, List.map_cons, List.idxOf_cons_self, List.idxOf_cons_self]
    · rw [List.map_cons, List.idxOf_cons_ne _ hab, List.idxOf_cons_ne _ fun h => hab (hb h),
        ih hl]

namespace Substitution

variable {s : Substitution} {within ret : Ty} {params : List Ty} {names gs : List String}
  {scopes scopes' : List (List String)} {ρ : String → String} {a : String}

/-- The nameless forms of the replacements. -/
def nameless (s : Substitution) (a : String) : Option Nameless :=
  (s.get? a).map (Ty.nameless [])

/-- What connects a generic in a type with the renamed one in the type after substitution: either
both are declared at the same place, or the generic is free, has its name still, and nothing that
the substitution puts for it is declared around it. -/
inductive Tracks (s : Substitution) (scopes scopes' : List (List String)) (ρ : String → String)
    (a : String) : Prop
  | bound {p : Nat × Nat} (hold : Ty.locate scopes a = some p)
    (hnew : Ty.locate scopes' (ρ a) = some p) (hkept : s.get? (ρ a) = none)
  | free (hold : Ty.locate scopes a = none) (hself : ρ a = a)
    (hnew : ∀ x ∈ (s.apply (.generic a)).names, Ty.locate scopes' x = none)

theorem Tracks.nameless_generic (h : s.Tracks scopes scopes' ρ a) :
    (s.applyAfter ρ (.generic a)).nameless scopes' =
      ((Ty.generic a).nameless scopes).replace s.nameless := by
  cases h with
  | bound hold hnew hkept =>
    rw [applyAfter_generic, hkept, Ty.nameless_generic_of_eq_some hold]
    exact Ty.nameless_generic_of_eq_some hnew
  | free hold hself hnew =>
    rw [Ty.nameless_generic_of_eq_none hold, applyAfter_generic, hself, Nameless.replace, nameless]
    rw [apply_generic] at hnew
    cases ha : s.get? a with
    | none =>
      rw [ha] at hnew
      exact Ty.nameless_generic_of_eq_none (hnew a List.mem_cons_self)
    | some u =>
      rw [ha] at hnew
      exact Ty.nameless_congr fun x hx => hnew x (Ty.mem_names_of_mem_free hx)

theorem stem_newName (s : Substitution) (within : Ty) (g : String) :
    stem (s.newName within g) = stem g := by
  rcases s.newName_cases within g with ⟨_, hself⟩ | ⟨_, hfresh⟩
  · rw [hself]
  · rw [hfresh, (s.freshName_primed g within).stem_eq]

theorem locate_newName (hstems : (gs.map stem).Nodup) (ha : a ∈ gs) :
    Ty.locate (gs.map (s.newName within) :: scopes) (s.newName within a) =
      some (0, gs.idxOf a) := by
  have hinj : ∀ b ∈ gs, s.newName within b = s.newName within a → b = a := by
    intro b hb hsame
    have hstem := congrArg stem hsame
    rw [stem_newName, stem_newName] at hstem
    exact List.inj_on_of_nodup_map hstems hb ha hstem
  rw [Ty.locate_cons_of_mem (List.mem_map_of_mem ha), idxOf_map hinj]

/-- A renaming that leaves alone what a type declares, and gives no name that it declares. -/
def Avoids (ρ : String → String) (t : Ty) : Prop :=
  ∀ a, ρ a = a ∨ (a ∉ t.binders ∧ ρ a ∉ t.binders)

theorem Avoids.mono {t u : Ty} (h : Avoids ρ u) (hsub : t.binders ⊆ u.binders) : Avoids ρ t := by
  intro a
  rcases h a with hself | ⟨hold, hnew⟩
  · exact .inl hself
  · exact .inr ⟨fun ha => hold (hsub ha), fun ha => hnew (hsub ha)⟩

theorem Avoids.eq_self {t : Ty} (h : Avoids ρ t) (ha : a ∈ t.binders) : ρ a = a :=
  (h a).resolve_right fun hnot => hnot.1 ha

theorem Avoids.not_mem {t : Ty} (h : Avoids ρ t) (hgs : gs ⊆ t.binders) (ha : a ∉ gs) :
    ρ a ∉ gs := by
  rcases h a with hself | ⟨_, hnew⟩
  · rwa [hself]
  · exact fun hmem => hnew (hgs hmem)

/-- A new name is one of the old ones or does not occur in the function type. -/
theorem not_mem_newNames_of_mem_names (ha : a ∈ within.names) (hgs : a ∉ gs) :
    a ∉ gs.map (s.newName within) := by
  intro hmem
  obtain ⟨g, hg, rfl⟩ := List.mem_map.1 hmem
  rcases s.newName_eq_or_not_mem within g with hself | hfresh
  · rw [hself] at hgs
    exact hgs hg
  · exact hfresh ha

theorem not_mem_newNames_of_mem_entries {e : String × Ty} (he : e ∈ s.entries)
    (ha : a ∈ e.2.names) : a ∉ gs.map (s.newName within) := by
  intro hmem
  obtain ⟨g, _, rfl⟩ := List.mem_map.1 hmem
  exact introduces_eq_false_iff.1 (s.introduces_newName within g) e he ha

theorem generics_subset_binders : gs ⊆ (Ty.fn ret params names gs).binders :=
  fun _ hg => Ty.mem_binders_fn_iff.2 (.inl hg)

section Function

variable (hspares : s.Spares (.fn ret params names gs)) (hρ : Avoids ρ (.fn ret params names gs))
include hspares hρ

theorem Avoids.renewal {t : Ty} (ht : t ∈ ret :: params) :
    Avoids (fun a => s.renewal ((Ty.fn ret params names gs).rename ρ) gs (ρ a)) t := by
  intro a
  dsimp only
  by_cases ha : a ∈ gs
  · rw [hρ.eq_self (generics_subset_binders ha), renewal_of_mem ha]
    rcases s.newName_eq_or_not_mem ((Ty.fn ret params names gs).rename ρ) a with hself | hfresh
    · exact .inl hself
    · right
      constructor
      · exact fun hmem => (Ty.nested_fn_iff.1 hspares.nested).1 a ha t ht a hmem rfl
      · intro hmem
        apply hfresh
        apply Ty.mem_names_of_mem_binders
        rw [Ty.binders_rename]
        exact Ty.binders_subset_fn ht hmem
  · rw [renewal_of_not_mem (hρ.not_mem generics_subset_binders ha)]
    exact hρ.mono (Ty.binders_subset_fn ht) a

/-- The generics of a function type come into scope on both sides, with their new names on one. -/
theorem Tracks.declare (hstems : (gs.map stem).Nodup)
    (h : ∀ a ∈ (Ty.fn ret params names gs).free, s.Tracks scopes scopes' ρ a)
    (ha : a ∈ Ty.freeAll (ret :: params)) :
    let within := (Ty.fn ret params names gs).rename ρ
    s.Tracks (gs :: scopes) (gs.map (s.newName within) :: scopes')
      (fun a => s.renewal within gs (ρ a)) a := by
  intro within
  by_cases hmem : a ∈ gs
  · have hnew : s.renewal within gs (ρ a) = s.newName within a := by
      rw [hρ.eq_self (generics_subset_binders hmem), renewal_of_mem hmem]
    apply Tracks.bound (Ty.locate_cons_of_mem hmem scopes)
    · rw [hnew, locate_newName hstems hmem]
    · rw [hnew]
      exact get?_newName (hspares.kept a (generics_subset_binders hmem)) within
  · have hfree : a ∈ (Ty.fn ret params names gs).free := Ty.mem_free_fn_iff.2 ⟨ha, hmem⟩
    have hgs : ρ a ∉ gs := hρ.not_mem generics_subset_binders hmem
    have hold : s.renewal within gs (ρ a) = ρ a := renewal_of_not_mem hgs
    have hnot : ρ a ∉ gs.map (s.newName within) :=
      not_mem_newNames_of_mem_names (Ty.mem_names_rename hfree ρ) hgs
    cases h a hfree with
    | bound hplace hplace' hkept =>
      apply Tracks.bound
      · rw [Ty.locate_cons_of_not_mem hmem, hplace]
        rfl
      · rw [hold, Ty.locate_cons_of_not_mem hnot, hplace']
        rfl
      · rw [hold]
        exact hkept
    | free hnone hself hnone' =>
      apply Tracks.free
      · rw [Ty.locate_cons_of_not_mem hmem, hnone]
        rfl
      · exact hold.trans hself
      · intro x hx
        have hnew : x ∉ gs.map (s.newName within) := by
          rw [apply_generic] at hx
          cases hget : s.get? a with
          | none =>
            rw [hget] at hx
            rw [List.mem_singleton.1 hx, ← hself]
            exact hnot
          | some u =>
            rw [hget] at hx
            exact not_mem_newNames_of_mem_entries (mem_of_lookup hget) hx
        rw [Ty.locate_cons_of_not_mem hnew, hnone' x hx]
        rfl

end Function

/-- The scopes on both sides grow together, and with them the renaming that has taken place before
the substitution reaches the parts of a type. -/
theorem nameless_applyAfter {t : Ty} (hspares : s.Spares t)
    (hstems : ∀ gs ∈ t.genericLists, (gs.map stem).Nodup) (hρ : Avoids ρ t)
    (h : ∀ a ∈ t.free, s.Tracks scopes scopes' ρ a) :
    (s.applyAfter ρ t).nameless scopes' = (t.nameless scopes).replace s.nameless := by
  induction t using Ty.induction generalizing scopes scopes' ρ with
  | bool => rfl
  | int => rfl
  | generic a => exact (h a List.mem_cons_self).nameless_generic
  | list t ih =>
    rw [applyAfter_list, Ty.nameless, Ty.nameless, Nameless.replace]
    exact congrArg _ (ih ⟨hspares.nested, hspares.kept⟩ hstems hρ h)
  | tuple ts ih =>
    rw [applyAfter_tuple, Ty.nameless, Ty.nameless, Nameless.replace, Ty.namelessAll_eq_map,
      Ty.namelessAll_eq_map, Nameless.replaceAll_eq_map, List.map_map, List.map_map]
    apply congrArg
    apply List.map_congr_left
    intro t ht
    apply ih t ht (hspares.item ht)
    · exact fun gs hgs => hstems gs ((Ty.mem_genericListsAll_iff ts).2 ⟨t, ht, hgs⟩)
    · exact hρ.mono (Ty.binders_subset_tuple ht)
    · exact fun a ha => h a ((Ty.mem_freeAll_iff ts).2 ⟨t, ht, ha⟩)
  | fn ret params names generics ihRet ihParams =>
    obtain ⟨hgenerics, hinside⟩ := List.forall_mem_cons.1 hstems
    have ih := List.forall_mem_cons.2 ⟨@ihRet, fun t ht => @ihParams t ht⟩
    let within := (Ty.fn ret params names generics).rename ρ
    have hparts : ∀ t ∈ ret :: params,
        (s.applyAfter (fun a => s.renewal within generics (ρ a)) t).nameless
          (generics.map (s.newName within) :: scopes') =
          (t.nameless (generics :: scopes)).replace s.nameless := by
      intro t ht
      apply ih t ht (hspares.part ht)
      · exact fun gs hgs => hinside gs ((Ty.mem_genericListsAll_iff _).2 ⟨t, ht, hgs⟩)
      · exact Avoids.renewal hspares hρ ht
      · exact fun a ha => Tracks.declare hspares hρ hgenerics h
          ((Ty.mem_freeAll_iff _).2 ⟨t, ht, ha⟩)
    obtain ⟨hret, hparams⟩ := List.forall_mem_cons.1 hparts
    rw [hspares.applyAfter_fn ρ, Ty.nameless, Ty.nameless, Nameless.replace, Ty.namelessAll_eq_map,
      Ty.namelessAll_eq_map, Nameless.replaceAll_eq_map, List.map_map, List.map_map,
      List.length_map]
    exact congrArg₂ (Nameless.fn · · names generics.length) hret (List.map_congr_left hparams)

/-- Substitution replaces the free generics and captures none, up to the names of declared
generics. -/
theorem nameless_apply (s : Substitution) {t : Ty} (hnested : t.Nested fun a b => a ≠ b)
    (hstems : ∀ gs ∈ t.genericLists, (gs.map stem).Nodup)
    (hkept : ∀ g ∈ t.binders, s.replaces g = false) :
    (s.apply t).nameless [] =
      (t.nameless []).replace fun a => (s.get? a).map (Ty.nameless []) := by
  rw [← applyAfter_self]
  apply nameless_applyAfter ⟨hnested, hkept⟩ hstems
  · exact fun a => .inl rfl
  · exact fun a _ => .free rfl rfl fun x _ => rfl

/-- `{A'} ({A} (A, Y)(b: A))(a: A')` -/
def primedType : Ty :=
  .fn (.fn (.tuple [.generic "A", .generic "Y"]) [.generic "A"] ["b"] ["A"]) [.generic "A'"] ["a"]
    ["A'"]

/-- The inner generic gets the name of the outer one, to which the inner function type does not
refer: every generic still belongs to its own declaration, and the replacement is free. -/
theorem nameless_apply_primed :
    let s : Substitution := ⟨[("Y", .generic "A")]⟩
    primedType.Nested (fun a b => a ≠ b) ∧
      (∀ gs ∈ primedType.genericLists, (gs.map stem).Nodup) ∧
      (∀ g ∈ primedType.binders, s.replaces g = false) ∧
      (s.apply primedType).text = "\x7bA'\x7d \x7bA'\x7d (A', A)(b: A')(a: A')" ∧
      (s.apply primedType).nameless [] =
        .fn (.fn (.tuple [.bound 0 0, .free "A"]) [.bound 0 0] ["b"] 1) [.bound 0 0] ["a"] 1 := by
  intro s
  have hnested : primedType.Nested fun a b => a ≠ b := by decide +kernel
  have hstems : ∀ gs ∈ primedType.genericLists, (gs.map stem).Nodup := by decide +kernel
  have hkept : ∀ g ∈ primedType.binders, s.replaces g = false := by decide +kernel
  have hname := nameless_apply s hnested hstems hkept
  exact ⟨hnested, hstems, hkept, by decide +kernel, hname⟩

end Substitution

end ExprLang
