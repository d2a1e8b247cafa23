import ExprLang.Proofs.Table
import ExprLang.Proofs.Ty.Structure

namespace ExprLang

/-- No prime ends the name. -/
def Plain (name : String) : Prop := ∀ stem, name ≠ stem ++ "'"

/-- The name followed by one prime or more. -/
inductive Primed (name : String) : String → Prop
  | once : Primed name (name ++ "'")
  | more {longer : String} (h : Primed name longer) : Primed name (longer ++ "'")

theorem Primed.not_plain {name primed : String} (h : Primed name primed) : ¬ Plain primed := by
  cases h with
  | once => exact fun hplain => hplain _ rfl
  | more => exact fun hplain => hplain _ rfl

theorem Primed.unique {a b primed : String} (ha : Plain a) (hb : Plain b) (h : Primed a primed)
    (h' : Primed b primed) : a = b := by
  induction h with
  | once =>
    generalize hprimed : a ++ "'" = primed at h'
    cases h' with
    | once => exact (String.append_left_inj "'").1 hprimed
    | more h' =>
      rw [← (String.append_left_inj "'").1 hprimed] at h'
      exact absurd ha h'.not_plain
  | @more longer h ih =>
    generalize hprimed : longer ++ "'" = primed at h'
    cases h' with
    | once =>
      rw [(String.append_left_inj "'").1 hprimed] at h
      exact absurd hb h.not_plain
    | more h' =>
      rw [← (String.append_left_inj "'").1 hprimed] at h'
      exact ih h'

/-- If two names have a primed form in common, one of them is a primed form of the other. -/
theorem Primed.comparable {a b primed : String} (h : Primed a primed) (h' : Primed b primed) :
    a = b ∨ Primed a b ∨ Primed b a := by
  induction h with
  | once =>
    generalize hprimed : a ++ "'" = primed at h'
    cases h' with
    | once => exact .inl ((String.append_left_inj "'").1 hprimed)
    | more h' =>
      rw [← (String.append_left_inj "'").1 hprimed] at h'
      exact .inr (.inr h')
  | @more longer h ih =>
    generalize hprimed : longer ++ "'" = primed at h'
    cases h' with
    | once =>
      rw [(String.append_left_inj "'").1 hprimed] at h
      exact .inr (.inl h)
    | more h' =>
      rw [← (String.append_left_inj "'").1 hprimed] at h'
      exact ih h'

def stem (name : String) : String :=
  String.ofList (name.toList.reverse.dropWhile fun c => c == '\'').reverse

theorem stem_append_prime (name : String) : stem (name ++ "'") = stem name := by
  have hprime : "'".toList = ['\''] := rfl
  rw [stem, stem, String.toList_append, hprime, List.reverse_append]
  rfl

theorem Primed.stem_eq {name primed : String} (h : Primed name primed) :
    stem primed = stem name := by
  induction h with
  | once => exact stem_append_prime name
  | more h ih => rw [stem_append_prime, ih]

namespace Ty

mutual

/-- A type with other names for its generics. Those that it declares stay as they are. -/
def rename (ρ : String → String) : Ty → Ty
  | bool => bool
  | int => int
  | list t => list (t.rename ρ)
  | tuple ts => tuple (renameAll ρ ts)
  | fn ret params names generics => fn (ret.rename ρ) (renameAll ρ params) names generics
  | generic a => generic (ρ a)

def renameAll (ρ : String → String) : List Ty → List Ty
  | [] => []
  | t :: ts => t.rename ρ :: renameAll ρ ts

end

theorem renameAll_eq_map (ρ : String → String) (ts : List Ty) :
    renameAll ρ ts = ts.map (rename ρ) := by
  induction ts with
  | nil => rfl
  | cons t ts ih => rw [renameAll, ih, List.map_cons]

theorem rename_self (t : Ty) : t.rename (fun a => a) = t := by
  have hall {ts : List Ty} (h : ∀ t ∈ ts, t.rename (fun a => a) = t) :
      renameAll (fun a => a) ts = ts := by
    rw [renameAll_eq_map, List.map_congr_left h]
    exact List.map_id ts
  induction t using Ty.induction with
  | bool => rfl
  | int => rfl
  | generic a => rfl
  | list t ih => rw [rename, ih]
  | tuple ts ih => rw [rename, hall ih]
  | fn ret params names generics ihRet ihParams => rw [rename, ihRet, hall ihParams]

mutual

/-- Every generic is in scope where it stands, and one that is declared is plain and new there. -/
def WellScoped (scope : List String) : Ty → Prop
  | bool | int => True
  | list t => t.WellScoped scope
  | tuple ts => AllWellScoped scope ts
  | fn ret params _ generics =>
    (∀ g ∈ generics, Plain g ∧ g ∉ scope) ∧ ret.WellScoped (scope ++ generics) ∧
      AllWellScoped (scope ++ generics) params
  | generic a => a ∈ scope

def AllWellScoped (scope : List String) : List Ty → Prop
  | [] => True
  | t :: ts => t.WellScoped scope ∧ AllWellScoped scope ts

end

theorem allWellScoped_iff {scope : List String} (ts : List Ty) :
    AllWellScoped scope ts ↔ ∀ t ∈ ts, t.WellScoped scope := by
  induction ts with
  | nil => simp [AllWellScoped]
  | cons t ts ih => rw [AllWellScoped, ih, List.forall_mem_cons]

theorem mem_namesAll_iff {x : String} (ts : List Ty) :
    x ∈ namesAll ts ↔ ∃ t ∈ ts, x ∈ t.names := by
  induction ts with
  | nil => simp [namesAll]
  | cons t ts ih => simp [namesAll, ih]

end Ty

namespace Substitution

theorem firstFree_primed {name primed : String} (h : Primed name primed) (taken : List String)
    (n : Nat) : Primed name (firstFree taken primed n) := by
  induction n generalizing primed with
  | zero => exact h
  | succ n ih =>
    rw [firstFree]
    split
    · exact ih h.more
    · exact h

theorem freshName_primed (s : Substitution) (g : String) (within : Ty) :
    Primed g (s.freshName g within) :=
  firstFree_primed .once _ _

theorem firstFree_congr {name primed : String} (h : Primed name primed) {taken taken' : List String}
    {n n' : Nat} (hsame : ∀ x, Primed name x → (x ∈ taken ↔ x ∈ taken'))
    (hn : ∀ x ∈ taken, x.length < primed.length + n)
    (hn' : ∀ x ∈ taken', x.length < primed.length + n') :
    firstFree taken primed n = firstFree taken' primed n' := by
  have hlength : (primed ++ "'").length = primed.length + 1 := String.length_append _ _
  induction n generalizing primed n' with
  | zero =>
    have hfree : primed ∉ taken' := fun hmem =>
      Nat.lt_irrefl _ (hn primed ((hsame primed h).2 hmem))
    cases n' with
    | zero => rfl
    | succ n' => rw [firstFree, firstFree, if_neg (mt List.contains_iff_mem.1 hfree)]
  | succ n ih =>
    by_cases hmem : primed ∈ taken
    · have hmem' := (hsame primed h).1 hmem
      cases n' with
      | zero => exact absurd (hn' primed hmem') (Nat.lt_irrefl _)
      | succ n' =>
        rw [firstFree, firstFree, if_pos (List.contains_iff_mem.2 hmem),
          if_pos (List.contains_iff_mem.2 hmem')]
        refine ih h.more (fun x hx => ?_) (fun x hx => ?_) (String.length_append _ _)
        · have hlt := hn x hx
          omega
        · have hlt := hn' x hx
          omega
    · have hfree := mt (hsame primed h).2 hmem
      rw [firstFree, if_neg (mt List.contains_iff_mem.1 hmem)]
      cases n' with
      | zero => rfl
      | succ n' => rw [firstFree, if_neg (mt List.contains_iff_mem.1 hfree)]

/-- The new name of a generic that a type declares, as far as the substitution decides on it. -/
def fresh (s : Substitution) (g : String) : String := s.freshName g .bool

theorem freshName_eq_fresh {s : Substitution} {g : String} {within : Ty}
    (h : ∀ x ∈ within.names, ¬ Primed g x) : s.freshName g within = s.fresh g := by
  have hlength : (g ++ "'").length = g.length + 1 := String.length_append _ _
  apply firstFree_congr .once
  · intro x hx
    simp only [taken, List.mem_append]
    exact or_congr_left (iff_of_false (fun hmem => h x hmem hx) List.not_mem_nil)
  · intro x hx
    have hle := length_le_totalLength hx
    omega
  · intro x hx
    have hle := length_le_totalLength hx
    omega

theorem get?_fresh (s : Substitution) (g : String) : s.get? (s.fresh g) = none := by
  cases h : s.get? (s.fresh g) with
  | none => rfl
  | some t =>
    have hmem : s.fresh g ∈ s.taken .bool :=
      List.mem_append_right _ (List.mem_flatMap.2 ⟨_, mem_of_lookup h, List.mem_cons_self⟩)
    exact absurd hmem (s.freshName_not_mem_taken g .bool)

theorem freshen_self {s : Substitution} {gs : List String}
    (h : ∀ g ∈ gs, s.replaces g = false ∧ s.introduces g = false) (within : Ty)
    (rename : Substitution → Ty → Ty) (ret : Ty) (params : List Ty) :
    s.freshen within rename gs ret params = (gs, ret, params) := by
  induction gs with
  | nil => rfl
  | cons g gs ih =>
    obtain ⟨⟨hreplaces, hintroduces⟩, hgs⟩ := List.forall_mem_cons.1 h
    rw [freshen, if_neg (ne_true_of_eq_false hreplaces), if_neg (ne_true_of_eq_false hintroduces),
      ih hgs]

theorem single_kept {a g : String} {b : String} (ha : g ≠ a) (hb : g ≠ b) :
    replaces ⟨[(a, .generic b)]⟩ g = false ∧ introduces ⟨[(a, .generic b)]⟩ g = false := by
  constructor
  · rw [replaces, get?, lookup_cons_eq_ite, if_neg ha]
    rfl
  · simp [introduces, Ty.mentions, Ty.names, hb]

/-- One generic in scope is renamed to a name that is not plain, so nothing that is declared gets
in the way. -/
theorem apply_single {a b : String} {scope : List String} (ha : a ∈ scope) (hb : ¬ Plain b) {t : Ty}
    (ht : t.WellScoped scope) (ρ : String → String) :
    apply ⟨[(a, .generic b)]⟩ (t.rename ρ) = t.rename fun c => if ρ c = a then b else ρ c := by
  induction t using Ty.induction generalizing scope with
  | bool => rfl
  | int => rfl
  | generic c =>
    rw [Ty.rename, apply_generic, get?, lookup_cons_eq_ite, Ty.rename]
    split <;> rfl
  | list t ih => rw [Ty.rename, apply_list, Ty.rename, ih ha ht]
  | tuple ts ih =>
    have hts := (Ty.allWellScoped_iff ts).1 ht
    rw [Ty.rename, apply_tuple, Ty.rename, Ty.renameAll_eq_map, Ty.renameAll_eq_map, List.map_map]
    exact congrArg _ (List.map_congr_left fun t hmem => ih t hmem ha (hts t hmem))
  | fn ret params names generics ihRet ihParams =>
    obtain ⟨hgenerics, hret, hparams⟩ := ht
    have hparams := (Ty.allWellScoped_iff params).1 hparams
    have hinner : a ∈ scope ++ generics := List.mem_append_left _ ha
    have hkept (g : String) (hg : g ∈ generics) :
        replaces ⟨[(a, .generic b)]⟩ g = false ∧ introduces ⟨[(a, .generic b)]⟩ g = false := by
      obtain ⟨hplain, hnew⟩ := hgenerics g hg
      apply single_kept
      · rintro rfl
        exact hnew ha
      · rintro rfl
        exact hb hplain
    rw [Ty.rename, apply_fn, freshen_self hkept, Ty.rename, Ty.renameAll_eq_map,
      Ty.renameAll_eq_map]
    dsimp only
    rw [ihRet hinner hret, List.map_map]
    refine congrArg (Ty.fn _ · names generics) (List.map_congr_left fun t hmem => ?_)
    exact ihParams t hmem hinner (hparams t hmem)

/-- A renaming that gives new names only as the substitution does, and only to names of a scope. -/
def Renames (s : Substitution) (scope : List String) (ρ : String → String) : Prop :=
  ∀ a, ρ a = a ∨ (a ∈ scope ∧ ρ a = s.fresh a)

def freshening (s : Substitution) (gs : List String) (ρ : String → String) (a : String) : String :=
  if a ∈ gs ∧ s.introduces a = true then s.fresh a else ρ a

variable {s : Substitution} {scope gs : List String} {ρ : String → String}

theorem Renames.freshening (h : s.Renames scope ρ) :
    s.Renames (scope ++ gs) (s.freshening gs ρ) := by
  intro a
  rw [Substitution.freshening]
  split
  · rename_i ha
    exact .inr ⟨List.mem_append_right _ ha.1, rfl⟩
  · obtain hself | ⟨ha, hfresh⟩ := h a
    · exact .inl hself
    · exact .inr ⟨List.mem_append_left _ ha, hfresh⟩

theorem Renames.eq_of_plain (h : s.Renames scope ρ) {a g : String} (hg : Plain g) (ha : ρ a = g) :
    a = g := by
  obtain hself | ⟨-, hfresh⟩ := h a
  · rw [← hself, ha]
  · rw [← ha, hfresh] at hg
    exact absurd hg (s.freshName_primed a .bool).not_plain

theorem Renames.mem_names (h : s.Renames scope ρ) {inner : List String} {t : Ty}
    (ht : t.WellScoped inner) (hinner : ∀ a ∈ inner, Plain a) {x : String}
    (hx : x ∈ (t.rename ρ).names) : Plain x ∨ ∃ a ∈ scope, x = s.fresh a := by
  induction t using Ty.induction generalizing inner with
  | bool => cases hx
  | int => cases hx
  | generic a =>
    obtain rfl := List.mem_singleton.1 hx
    obtain hself | hfresh := h a
    · rw [hself]
      exact .inl (hinner a ht)
    · exact .inr ⟨a, hfresh⟩
  | list t ih => exact ih ht hinner hx
  | tuple ts ih =>
    rw [Ty.rename, Ty.names, Ty.renameAll_eq_map, Ty.mem_namesAll_iff] at hx
    obtain ⟨_, hrenamed, hx⟩ := hx
    obtain ⟨t, hmem, rfl⟩ := List.mem_map.1 hrenamed
    exact ih t hmem ((Ty.allWellScoped_iff ts).1 ht t hmem) hinner hx
  | fn ret params names generics ihRet ihParams =>
    obtain ⟨hgenerics, hret, hparams⟩ := ht
    have hinner : ∀ a ∈ inner ++ generics, Plain a :=
      List.forall_mem_append.2 ⟨hinner, fun g hg => (hgenerics g hg).1⟩
    rw [Ty.rename, Ty.names, Ty.renameAll_eq_map, List.mem_append, List.mem_append,
      Ty.mem_namesAll_iff] at hx
    obtain (hx | hx) | ⟨_, hrenamed, hx⟩ := hx
    · exact .inl (hgenerics x hx).1
    · exact ihRet hret hinner hx
    · obtain ⟨t, hmem, rfl⟩ := List.mem_map.1 hrenamed
      exact ihParams t hmem ((Ty.allWellScoped_iff params).1 hparams t hmem) hinner hx

theorem Renames.not_primed (h : s.Renames scope ρ) (hscope : ∀ a ∈ scope, Plain a) {t : Ty}
    (ht : t.WellScoped scope) {g : String} (hg : Plain g) (hnew : g ∉ scope) :
    ∀ x ∈ (t.rename ρ).names, ¬ Primed g x := by
  intro x hx hprimed
  obtain hplain | ⟨a, ha, rfl⟩ := h.mem_names ht hscope hx
  · exact hprimed.not_plain hplain
  · have hsame := (s.freshName_primed a .bool).unique (hscope a ha) hg hprimed
    rw [hsame] at ha
    exact hnew ha

theorem Renames.single_eq (h : s.Renames scope ρ) {g : String} (hg : Plain g)
    (hintroduces : s.introduces g = true) :
    (fun a => if ρ a = g then s.fresh g else ρ a) = s.freshening [g] ρ := by
  funext a
  simp only [Substitution.freshening, List.mem_singleton]
  by_cases ha : a = g
  · subst ha
    have hboth : a = a ∧ s.introduces a = true := ⟨rfl, hintroduces⟩
    obtain hself | ⟨-, hfresh⟩ := h a
    · rw [if_pos hself, if_pos hboth]
    · rw [hfresh, ite_self, if_pos hboth]
  · rw [if_neg fun hρ => ha (h.eq_of_plain hg hρ), if_neg fun hboth => ha hboth.1]

theorem freshening_nil : s.freshening [] ρ = ρ := by
  funext a
  exact if_neg fun h => List.not_mem_nil h.1

theorem freshening_cons (g : String) :
    s.freshening gs (s.freshening [g] ρ) = s.freshening (g :: gs) ρ := by
  funext a
  simp only [freshening, List.mem_cons, List.not_mem_nil, or_false]
  by_cases hintroduces : s.introduces a = true
  · by_cases hgs : a ∈ gs <;> simp [hgs, hintroduces]
  · simp [hintroduces]

theorem freshening_of_not_introduces {g : String} (h : s.introduces g = false) :
    s.freshening [g] ρ = ρ := by
  funext a
  refine if_neg fun ⟨ha, hintroduces⟩ => ?_
  rw [List.mem_singleton.1 ha, h] at hintroduces
  cases hintroduces

/-- What becomes of a function type whose generics are new in a scope that holds them. -/
theorem freshen_rename {within ret : Ty} {params : List Ty} {inner : List String}
    (hgs : ∀ g ∈ gs, Plain g ∧ g ∈ inner ∧ s.replaces g = false)
    (hwithin : ∀ g ∈ gs, ∀ x ∈ within.names, ¬ Primed g x) (hret : ret.WellScoped inner)
    (hparams : ∀ t ∈ params, t.WellScoped inner) (hρ : s.Renames scope ρ) :
    ∃ kept, s.freshen within apply gs (ret.rename ρ) (params.map (Ty.rename ρ)) =
      (kept, ret.rename (s.freshening gs ρ), params.map (Ty.rename (s.freshening gs ρ))) := by
  induction gs generalizing scope ρ with
  | nil =>
    rw [freshening_nil]
    exact ⟨[], rfl⟩
  | cons g gs ih =>
    obtain ⟨⟨hplain, hinner, hreplaces⟩, hgs⟩ := List.forall_mem_cons.1 hgs
    obtain ⟨hg, hwithin⟩ := List.forall_mem_cons.1 hwithin
    have hnext : s.Renames (scope ++ [g]) (s.freshening [g] ρ) := hρ.freshening
    obtain ⟨kept, hkept⟩ := ih hgs hwithin hnext
    rw [freshening_cons] at hkept
    rw [freshen, if_neg (ne_true_of_eq_false hreplaces)]
    cases hintroduces : s.introduces g with
    | true =>
      have hfresh : ¬ Plain (s.fresh g) := (s.freshName_primed g .bool).not_plain
      have hsingle {t : Ty} (ht : t.WellScoped inner) :
          apply ⟨[(g, .generic (s.fresh g))]⟩ (t.rename ρ) = t.rename (s.freshening [g] ρ) := by
        rw [apply_single hinner hfresh ht, hρ.single_eq hplain hintroduces]
      have hmap : (params.map (Ty.rename ρ)).map (apply ⟨[(g, .generic (s.fresh g))]⟩) =
          params.map (Ty.rename (s.freshening [g] ρ)) := by
        rw [List.map_map]
        exact List.map_congr_left fun t hmem => hsingle (hparams t hmem)
      refine ⟨s.fresh g :: kept, ?_⟩
      rw [if_pos rfl, freshName_eq_fresh hg]
      simp only [hsingle hret, hmap, hkept]
    | false =>
      rw [freshening_of_not_introduces hintroduces] at hkept
      refine ⟨g :: kept, ?_⟩
      rw [if_neg Bool.false_ne_true, hkept]

theorem replaces_insert (name : String) (t : Ty) (a : String) :
    (s.insert name t).replaces a = true ↔ a = name ∨ s.replaces a = true := by
  rw [replaces, get?, insert, lookup_cons_eq_ite, lookup_filter_ne]
  by_cases h : a = name <;> simp [h, replaces, get?]

theorem replaces_ofList (pairs : List (String × Ty)) (a : String) :
    (ofList pairs).replaces a = true ↔ a ∈ pairs.map Prod.fst := by
  have hfold (pairs : List (String × Ty)) (s : Substitution) :
      (pairs.foldl (fun s p => s.insert p.1 p.2) s).replaces a = true ↔
        a ∈ pairs.map Prod.fst ∨ s.replaces a = true := by
    induction pairs generalizing s with
    | nil => simp
    | cons p pairs ih =>
      rw [List.foldl_cons, ih, replaces_insert, List.map_cons, List.mem_cons, or_assoc,
        or_left_comm]
  rw [ofList, hfold, or_iff_left]
  exact Bool.false_ne_true

end Substitution

end ExprLang
