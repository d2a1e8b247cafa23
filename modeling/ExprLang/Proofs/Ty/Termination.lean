import ExprLang.Proofs.Ty.Binders

namespace ExprLang

namespace Ty

mutual

def size : Ty → Nat
  | bool | int | generic _ => 1
  | list t => t.size + 1
  | tuple ts => sizeAll ts + 1
  | fn ret params names generics =>
    ret.size + sizeAll params + names.length + generics.length + 1

def sizeAll : List Ty → Nat
  | [] => 0
  | t :: ts => t.size + sizeAll ts

end

theorem sizeAll_map_le {f : Ty → Ty} {ts : List Ty} (h : ∀ t ∈ ts, (f t).size ≤ t.size) :
    sizeAll (ts.map f) ≤ sizeAll ts := by
  induction ts with
  | nil => exact Nat.le_refl 0
  | cons t ts ih =>
    obtain ⟨ht, hts⟩ := List.forall_mem_cons.1 h
    exact Nat.add_le_add ht (ih hts)

theorem depth_lt_list (t : Ty) : t.depth < (list t).depth := Nat.lt_succ_self _

theorem depth_lt_tuple {t : Ty} {ts : List Ty} (ht : t ∈ ts) : t.depth < (tuple ts).depth :=
  Nat.lt_succ_of_le (depth_le_depthAll ht)

theorem depth_lt_fn {t ret : Ty} {params : List Ty} {names generics : List String}
    (ht : t ∈ ret :: params) : t.depth < (fn ret params names generics).depth :=
  Nat.lt_succ_of_le (depth_le_depthAll ht)

end Ty

namespace Substitution

/-- Whether a name is in use: in the type, in a replacement, or as one that the map replaces. -/
def uses (s : Substitution) (within : Ty) (name : String) : Bool :=
  within.mentions name || s.introduces name || s.replaces name

/-- The search for a fresh name, which adds primes until the name is not in use. -/
inductive Finds (s : Substitution) (within : Ty) : String → String → Prop
  | here {name} (h : s.uses within name = false) : Finds s within name name
  | further {name fresh} (h : s.uses within name = true)
    (hfinds : Finds s within (name ++ "'") fresh) : Finds s within name fresh

mutual

/-- What a substitution makes of a type. -/
inductive Applies : Substitution → Ty → Ty → Prop
  | bool {s} : Applies s .bool .bool
  | int {s} : Applies s .int .int
  | replaced {s a t} (h : s.get? a = some t) : Applies s (.generic a) t
  | kept {s a} (h : s.get? a = none) : Applies s (.generic a) (.generic a)
  | list {s t u} (h : Applies s t u) : Applies s (.list t) (.list u)
  | tuple {s ts us} (h : AppliesAll s ts us) : Applies s (.tuple ts) (.tuple us)
  | fn {s ret params names generics kept ret₁ params₁ ret₂ params₂}
    (hfreshens : Freshens s (.fn ret params names generics) generics ret params kept ret₁ params₁)
    (hret : Applies s ret₁ ret₂) (hparams : AppliesAll s params₁ params₂) :
    Applies s (.fn ret params names generics) (.fn ret₂ params₂ names kept)

inductive AppliesAll : Substitution → List Ty → List Ty → Prop
  | nil {s} : AppliesAll s [] []
  | cons {s t u ts us} (h : Applies s t u) (hs : AppliesAll s ts us) :
    AppliesAll s (t :: ts) (u :: us)

/-- The way through the generics that a function type declares. One that the map replaces is
dropped, and one that a replacement mentions is renamed in result and parameters before the next one
has its turn. -/
inductive Freshens : Substitution → Ty → List String → Ty → List Ty → List String → Ty →
    List Ty → Prop
  | done {s within ret params} : Freshens s within [] ret params [] ret params
  | drop {s within g gs ret params kept ret' params'} (hg : s.replaces g = true)
    (hrest : Freshens s within gs ret params kept ret' params') :
    Freshens s within (g :: gs) ret params kept ret' params'
  | keep {s within g gs ret params kept ret' params'} (hg : s.replaces g = false)
    (hnew : s.introduces g = false) (hrest : Freshens s within gs ret params kept ret' params') :
    Freshens s within (g :: gs) ret params (g :: kept) ret' params'
  | rename {s within g gs fresh ret params ret₁ params₁ kept ret' params'}
    (hg : s.replaces g = false) (hnew : s.introduces g = true)
    (hfinds : Finds s within (g ++ "'") fresh)
    (hret : Applies ⟨[(g, .generic fresh)]⟩ ret ret₁)
    (hparams : AppliesAll ⟨[(g, .generic fresh)]⟩ params params₁)
    (hrest : Freshens s within gs ret₁ params₁ kept ret' params') :
    Freshens s within (g :: gs) ret params (fresh :: kept) ret' params'

end

variable {s : Substitution} {within : Ty} {name fresh : String}

theorem replaces_iff {a : String} : s.replaces a = true ↔ ∃ e ∈ s.entries, e.1 = a := by
  rw [replaces, get?, ← Option.not_isNone, Bool.not_eq_true', ← Bool.not_eq_true,
    Option.isNone_iff_eq_none, lookup_eq_none_iff, List.mem_map, Classical.not_not]

theorem uses_iff : s.uses within name = true ↔ name ∈ s.taken within := by
  have hentries : (s.introduces name = true ∨ s.replaces name = true) ↔
      ∃ e ∈ s.entries, name ∈ e.1 :: e.2.names := by
    rw [introduces, List.any_eq_true, replaces_iff]
    constructor
    · rintro (⟨e, he, hname⟩ | ⟨e, he, rfl⟩)
      · exact ⟨e, he, List.mem_cons_of_mem _ (List.contains_iff_mem.1 hname)⟩
      · exact ⟨e, he, List.mem_cons_self⟩
    · rintro ⟨e, he, hname⟩
      rcases List.mem_cons.1 hname with rfl | hname
      · exact .inr ⟨e, he, rfl⟩
      · exact .inl ⟨e, he, List.contains_iff_mem.2 hname⟩
  rw [uses, Bool.or_assoc, Bool.or_eq_true, Bool.or_eq_true, hentries, taken, List.mem_append,
    List.mem_flatMap, Ty.mentions, List.contains_iff_mem]

/-- The search ends if the names in use are shorter than the last candidate of the bounded one. -/
theorem finds_firstFree {n : Nat} (h : ∀ x ∈ s.taken within, x.length < name.length + n) :
    s.Finds within name (firstFree (s.taken within) name n) := by
  induction n generalizing name with
  | zero =>
    apply Finds.here
    rw [← Bool.not_eq_true, uses_iff]
    exact fun hname => Nat.lt_irrefl _ (h name hname)
  | succ n ih =>
    rw [firstFree]
    split
    · rename_i hname
      have hlength : (name ++ "'").length = name.length + 1 := String.length_append _ _
      apply Finds.further (uses_iff.2 (List.contains_iff_mem.1 hname))
      apply ih
      intro x hx
      have hlt := h x hx
      omega
    · rename_i hname
      apply Finds.here
      rw [← Bool.not_eq_true, uses_iff, ← List.contains_iff_mem]
      exact hname

theorem finds_freshName (s : Substitution) (name : String) (within : Ty) :
    s.Finds within (name ++ "'") (s.freshName name within) := by
  apply finds_firstFree
  intro x hx
  have hle := length_le_totalLength hx
  have hlength : (name ++ "'").length = name.length + 1 := String.length_append _ _
  omega

theorem Finds.unique {other : String} (h : s.Finds within name fresh)
    (h' : s.Finds within name other) : fresh = other := by
  induction h with
  | here h =>
    cases h' with
    | here => rfl
    | further hused => exact absurd hused (ne_true_of_eq_false h)
  | further hused _ ih =>
    cases h' with
    | here h => exact absurd hused (ne_true_of_eq_false h)
    | further _ hfinds => exact ih hfinds

theorem finds_iff : s.Finds within (name ++ "'") fresh ↔ fresh = s.freshName name within := by
  constructor
  · exact fun h => h.unique (s.finds_freshName name within)
  · rintro rfl
    exact s.finds_freshName name within

/-- The rules have no other result than the bounded computation. -/
theorem Applies.eq_apply {t u : Ty} (h : s.Applies t u) : u = s.apply t := by
  induction h using Applies.rec
      (motive_2 := fun s ts us _ => us = ts.map s.apply)
      (motive_3 := fun s within gs ret params kept ret' params' _ =>
        (kept, ret', params') = s.freshen within apply gs ret params) with
  | bool => rfl
  | int => rfl
  | replaced h => rw [apply_generic, h, Option.getD_some]
  | kept h => rw [apply_generic, h, Option.getD_none]
  | list _ ih => rw [apply_list, ih]
  | tuple _ ih => rw [apply_tuple, ih]
  | fn _ _ _ ihFreshens ihRet ihParams => rw [apply_fn, ← ihFreshens, ihRet, ihParams]
  | nil => rfl
  | cons _ _ ih ihs => rw [List.map_cons, ih, ihs]
  | done => rfl
  | drop hg _ ih => rw [freshen, if_pos hg, ih]
  | keep hg hnew _ ih =>
    rw [freshen, if_neg (ne_true_of_eq_false hg), if_neg (ne_true_of_eq_false hnew), ← ih]
  | rename hg hnew hfinds _ _ _ ihRet ihParams ih =>
    rw [finds_iff] at hfinds
    subst hfinds ihRet ihParams
    rw [freshen, if_neg (ne_true_of_eq_false hg), if_pos hnew]
    dsimp only
    rw [← ih]

theorem appliesAll_map {ts : List Ty} (h : ∀ t ∈ ts, s.Applies t (s.apply t)) :
    s.AppliesAll ts (ts.map s.apply) := by
  induction ts with
  | nil => exact .nil
  | cons t ts ih =>
    obtain ⟨ht, hts⟩ := List.forall_mem_cons.1 h
    exact .cons ht (ih hts)

theorem depth_lt_of_renamed {n : Nat} {ts : List Ty} (h : ∀ t ∈ ts, t.depth < n) (a b : String) :
    ∀ t ∈ ts.map (apply ⟨[(a, .generic b)]⟩), t.depth < n := by
  intro t ht
  obtain ⟨u, hu, rfl⟩ := List.mem_map.1 ht
  exact Nat.lt_of_le_of_lt (apply_depth (isRenaming_single a b) u) (h u hu)

theorem freshens_freshen (s : Substitution) (within : Ty) {n : Nat}
    (h : ∀ a b t, t.depth < n →
      Applies ⟨[(a, .generic b)]⟩ t (apply ⟨[(a, .generic b)]⟩ t))
    (gs : List String) {ret : Ty} {params : List Ty} (hparts : ∀ t ∈ ret :: params, t.depth < n) :
    let fresh := s.freshen within apply gs ret params
    s.Freshens within gs ret params fresh.1 fresh.2.1 fresh.2.2 ∧
      ∀ t ∈ fresh.2.1 :: fresh.2.2, t.depth < n := by
  induction gs generalizing ret params with
  | nil => exact ⟨.done, hparts⟩
  | cons g gs ih =>
    rw [freshen]
    cases hg : s.replaces g with
    | true =>
      obtain ⟨hrest, hdepth⟩ := ih hparts
      exact ⟨.drop hg hrest, hdepth⟩
    | false =>
      cases hnew : s.introduces g with
      | true =>
        obtain ⟨hrest, hdepth⟩ := ih (depth_lt_of_renamed hparts g (s.freshName g within))
        obtain ⟨hret, hparams⟩ := List.forall_mem_cons.1 hparts
        have hmap := appliesAll_map fun t ht => h g (s.freshName g within) t (hparams t ht)
        exact ⟨.rename hg hnew (s.finds_freshName g within) (h _ _ ret hret) hmap hrest, hdepth⟩
      | false =>
        obtain ⟨hrest, hdepth⟩ := ih hparts
        exact ⟨.keep hg hnew hrest, hdepth⟩

/-- The substitution goes into renamed parts, not into the parts of the type that it was given, so
the induction is on the number of levels. -/
theorem applies_apply (s : Substitution) (t : Ty) : s.Applies t (s.apply t) := by
  induction hn : t.depth using Nat.strongRecOn generalizing s t with
  | _ n ih =>
    have hall {ts : List Ty} (hts : ∀ t ∈ ts, t.depth < n) : s.AppliesAll ts (ts.map s.apply) :=
      appliesAll_map fun t ht => ih _ (hts t ht) s t rfl
    subst hn
    cases t with
    | bool => exact .bool
    | int => exact .int
    | generic a =>
      rw [apply_generic]
      cases ha : s.get? a with
      | none => exact .kept ha
      | some t => exact .replaced ha
    | list t => exact .list (ih _ t.depth_lt_list s t rfl)
    | tuple ts =>
      rw [apply_tuple]
      exact .tuple (hall fun t ht => Ty.depth_lt_tuple ht)
    | fn ret params names generics =>
      obtain ⟨hfreshens, hdepth⟩ := freshens_freshen s (.fn ret params names generics)
        (fun a b t ht => ih _ ht ⟨[(a, .generic b)]⟩ t rfl) generics fun t ht => Ty.depth_lt_fn ht
      obtain ⟨hret, hparams⟩ := List.forall_mem_cons.1 hdepth
      rw [apply_fn]
      exact .fn hfreshens (ih _ hret s _ rfl) (hall hparams)

theorem applies_iff {t u : Ty} : s.Applies t u ↔ u = s.apply t := by
  constructor
  · exact Applies.eq_apply
  · rintro rfl
    exact s.applies_apply t

theorem freshen_size (s : Substitution) (within : Ty) {n : Nat}
    (h : ∀ a b t, t.depth < n → (apply ⟨[(a, .generic b)]⟩ t).size ≤ t.size)
    (gs : List String) {ret : Ty} {params : List Ty} (hparts : ∀ t ∈ ret :: params, t.depth < n) :
    let fresh := s.freshen within apply gs ret params
    fresh.1.length ≤ gs.length ∧ fresh.2.1.size ≤ ret.size ∧
      Ty.sizeAll fresh.2.2 ≤ Ty.sizeAll params ∧ ∀ t ∈ fresh.2.1 :: fresh.2.2, t.depth < n := by
  induction gs generalizing ret params with
  | nil => exact ⟨Nat.le_refl _, Nat.le_refl _, Nat.le_refl _, hparts⟩
  | cons g gs ih =>
    rw [freshen]
    split
    · obtain ⟨hkept, hrest⟩ := ih hparts
      exact ⟨Nat.le_succ_of_le hkept, hrest⟩
    split
    · obtain ⟨hkept, hret, hparams, hdepth⟩ :=
        ih (depth_lt_of_renamed hparts g (s.freshName g within))
      obtain ⟨hret', hparams'⟩ := List.forall_mem_cons.1 hparts
      have hmap := Ty.sizeAll_map_le fun t ht => h g (s.freshName g within) t (hparams' t ht)
      exact ⟨Nat.succ_le_succ hkept, Nat.le_trans hret (h _ _ ret hret'),
        Nat.le_trans hparams hmap, hdepth⟩
    · obtain ⟨hkept, hrest⟩ := ih hparts
      exact ⟨Nat.succ_le_succ hkept, hrest⟩

/-- Renaming one generic to another one does not make a type grow; where the type declares the first
one, it shrinks. -/
theorem apply_single_size (a b : String) (t : Ty) :
    (apply ⟨[(a, .generic b)]⟩ t).size ≤ t.size := by
  induction hn : t.depth using Nat.strongRecOn generalizing a b t with
  | _ n ih =>
    have hall {ts : List Ty} (hts : ∀ t ∈ ts, t.depth < n) :
        Ty.sizeAll (ts.map (apply ⟨[(a, .generic b)]⟩)) ≤ Ty.sizeAll ts :=
      Ty.sizeAll_map_le fun t ht => ih _ (hts t ht) a b t rfl
    subst hn
    cases t with
    | bool => exact Nat.le_refl _
    | int => exact Nat.le_refl _
    | generic c =>
      rw [apply_generic, get?, lookup_cons_eq_ite]
      split <;> exact Nat.le_refl _
    | list t => exact Nat.succ_le_succ (ih _ t.depth_lt_list a b t rfl)
    | tuple ts =>
      rw [apply_tuple]
      exact Nat.succ_le_succ (hall fun t ht => Ty.depth_lt_tuple ht)
    | fn ret params names generics =>
      obtain ⟨hkept, hret, hparams, hdepth⟩ := freshen_size ⟨[(a, .generic b)]⟩
        (.fn ret params names generics) (fun a b t ht => ih _ ht a b t rfl) generics
        fun t ht => Ty.depth_lt_fn ht
      obtain ⟨hdepthRet, hdepthParams⟩ := List.forall_mem_cons.1 hdepth
      have hret' := ih _ hdepthRet a b _ rfl
      have hparams' := hall hdepthParams
      rw [apply_fn, Ty.size, Ty.size]
      omega

/-- Every substitution ends in every type, and so does every search for a fresh name; each has one
result, and the name found is in use nowhere. No renaming makes a type grow or adds levels to it. -/
theorem apply_terminates :
    (∀ (s : Substitution) (t u : Ty), s.Applies t u ↔ u = s.apply t) ∧
      (∀ (s : Substitution) (within : Ty) (name fresh : String),
        s.Finds within (name ++ "'") fresh ↔ fresh = s.freshName name within) ∧
      (∀ (s : Substitution) (within : Ty) (name : String),
        within.mentions (s.freshName name within) = false ∧
          s.introduces (s.freshName name within) = false ∧
          s.replaces (s.freshName name within) = false) ∧
      ∀ (a b : String) (t : Ty), (apply ⟨[(a, .generic b)]⟩ t).size ≤ t.size ∧
        (apply ⟨[(a, .generic b)]⟩ t).depth ≤ t.depth := by
  constructor
  · exact fun s t u => applies_iff
  constructor
  · exact fun s within name fresh => finds_iff
  constructor
  · intro s within name
    obtain ⟨hwithin, hintroduces, hget⟩ := s.freshName_unused name within
    constructor
    · exact Bool.eq_false_iff.2 (mt List.contains_iff_mem.1 hwithin)
    constructor
    · exact hintroduces
    · rw [replaces, hget]
      rfl
  · exact fun a b t => ⟨apply_single_size a b t, apply_depth (isRenaming_single a b) t⟩

end Substitution

end ExprLang
