import ExprLang.Proofs.Ty.Binders

namespace ExprLang

namespace Ty

/-- Any two generics that one list declares are in the first relation, and any two of which one is
declared inside the function type that declares the other are in the second. -/
structure Apart (L R : String → String → Prop) (t : Ty) : Prop where
  lists : ∀ gs ∈ t.genericLists, gs.Pairwise L
  nested : t.Nested R

instance (L R : String → String → Prop) [DecidableRel L] [DecidableRel R] (t : Ty) :
    Decidable (t.Apart L R) :=
  decidable_of_iff ((∀ gs ∈ t.genericLists, gs.Pairwise L) ∧ t.Nested R)
    ⟨fun h => ⟨h.1, h.2⟩, fun h => ⟨h.lists, h.nested⟩⟩

/-- No list of declared generics has a repetition, and no function type declares a generic that an
enclosing one declares. -/
def Hygienic (t : Ty) : Prop := t.Apart (fun a b => a ≠ b) fun a b => a ≠ b

instance (t : Ty) : Decidable t.Hygienic :=
  inferInstanceAs (Decidable (t.Apart (fun a b => a ≠ b) fun a b => a ≠ b))

variable {L R : String → String → Prop}

theorem apart_tuple_iff {ts : List Ty} : (tuple ts).Apart L R ↔ ∀ t ∈ ts, t.Apart L R := by
  constructor
  · intro h t ht
    have hlists : ∀ gs ∈ t.genericLists, gs.Pairwise L := fun gs hgs =>
      h.lists gs ((mem_genericListsAll_iff ts).2 ⟨t, ht, hgs⟩)
    exact ⟨hlists, nested_tuple_iff.1 h.nested t ht⟩
  · intro h
    constructor
    · intro gs hgs
      obtain ⟨t, ht, hgs⟩ := (mem_genericListsAll_iff ts).1 hgs
      exact (h t ht).lists gs hgs
    · exact nested_tuple_iff.2 fun t ht => (h t ht).nested

theorem apart_fn_iff {ret : Ty} {params : List Ty} {names generics : List String} :
    (fn ret params names generics).Apart L R ↔
      generics.Pairwise L ∧ (∀ a ∈ generics, ∀ t ∈ ret :: params, ∀ b ∈ t.binders, R a b) ∧
        ∀ t ∈ ret :: params, t.Apart L R := by
  constructor
  · intro h
    obtain ⟨hgenerics, hlists⟩ := List.forall_mem_cons.1 h.lists
    obtain ⟨hinside, hnested⟩ := nested_fn_iff.1 h.nested
    exact ⟨hgenerics, hinside, apart_tuple_iff.1 ⟨hlists, nested_tuple_iff.2 hnested⟩⟩
  · intro ⟨hgenerics, hinside, hparts⟩
    have hall := apart_tuple_iff.2 hparts
    exact ⟨List.forall_mem_cons.2 ⟨hgenerics, hall.lists⟩,
      nested_fn_iff.2 ⟨hinside, nested_tuple_iff.1 hall.nested⟩⟩

theorem Apart.imp {L' R' : String → String → Prop} {t : Ty} (h : t.Apart L R)
    (hlists : ∀ a b, L a b → L' a b) (hnested : ∀ a b, R a b → R' a b) : t.Apart L' R' :=
  ⟨fun gs hgs => (h.lists gs hgs).imp (hlists _ _), fun p hp => hnested _ _ (h.nested p hp)⟩

theorem apart_generic (a : String) : (generic a).Apart L R :=
  ⟨List.forall_mem_nil _, List.forall_mem_nil _⟩

end Ty

namespace Substitution

variable {s : Substitution} {within : Ty} {a b x y : String}

/-- Two generics of one list of which one is a primed form of the other are not both mentioned by
replacements. -/
def KeepsListed (s : Substitution) (a b : String) : Prop :=
  s.introduces a = true → s.introduces b = true → ¬ Primed a b ∧ ¬ Primed b a

/-- If a replacement mentions the inner generic `b`, the outer one is no primed form of it, nor the
other way round if a replacement mentions the outer one as well. -/
def KeepsNested (s : Substitution) (a b : String) : Prop :=
  s.introduces b = true → ¬ Primed b a ∧ (s.introduces a = true → ¬ Primed a b)

/-- Names that differ in more than their primes are kept apart by every substitution. -/
theorem keepsListed_of_stem_ne (s : Substitution) (h : stem a ≠ stem b) : s.KeepsListed a b :=
  fun _ _ => ⟨fun hprimed => h hprimed.stem_eq.symm, fun hprimed => h hprimed.stem_eq⟩

theorem keepsNested_of_stem_ne (s : Substitution) (h : stem a ≠ stem b) : s.KeepsNested a b :=
  fun _ => ⟨fun hprimed => h hprimed.stem_eq, fun _ hprimed => h hprimed.stem_eq.symm⟩

/-- What a declared generic can be called after a substitution: as before if no replacement mentions
it, and else by a primed form that none mentions. -/
def Renews (s : Substitution) (a x : String) : Prop :=
  s.introduces x = false ∧ (x = a ∨ s.introduces a = true ∧ Primed a x)

theorem renews_newName (s : Substitution) (within : Ty) (g : String) :
    s.Renews g (s.newName within g) := by
  constructor
  · exact s.introduces_newName within g
  · rcases s.newName_cases within g with ⟨_, hself⟩ | ⟨hg, hfresh⟩
    · exact .inl hself
    · rw [hfresh]
      exact .inr ⟨hg, s.freshName_primed g within⟩

theorem newName_ne_newName (ha : a ∈ within.names) (hb : b ∈ within.names) (hne : a ≠ b)
    (h : s.KeepsListed a b) : s.newName within a ≠ s.newName within b := by
  intro heq
  rcases s.newName_cases within a with ⟨_, haself⟩ | ⟨hintroduces, hafresh⟩
  · rcases s.newName_eq_or_not_mem within b with hbself | hbfresh
    · exact hne (haself.symm.trans (heq.trans hbself))
    · rw [← heq, haself] at hbfresh
      exact hbfresh ha
  · rcases s.newName_cases within b with ⟨_, hbself⟩ | ⟨hintroduces', hbfresh⟩
    · rw [hafresh, hbself] at heq
      exact (s.freshName_unused a within).1 (heq ▸ hb)
    · have hprimed := s.freshName_primed b within
      rw [← hbfresh, ← heq, hafresh] at hprimed
      obtain ⟨hab, hba⟩ := h hintroduces hintroduces'
      rcases (s.freshName_primed a within).comparable hprimed with heq | hprimed | hprimed
      · exact hne heq
      · exact hab hprimed
      · exact hba hprimed

/-- The new name of a generic is not what one declared further inside is called later. -/
theorem newName_ne_of_renews (hb : b ∈ within.names) (hne : a ≠ b) (h : s.KeepsNested a b)
    (hy : s.Renews b y) : s.newName within a ≠ y := by
  rintro rfl
  obtain ⟨-, hself | ⟨hintroduces, hprimed⟩⟩ := hy
  · rcases s.newName_eq_or_not_mem within a with haself | hafresh
    · exact hne (haself.symm.trans hself)
    · exact hafresh (hself ▸ hb)
  · obtain ⟨hba, hab⟩ := h hintroduces
    rcases s.newName_cases within a with ⟨_, haself⟩ | ⟨hintroduces', hafresh⟩
    · rw [haself] at hprimed
      exact hba hprimed
    · rw [hafresh] at hprimed
      rcases (s.freshName_primed a within).comparable hprimed with heq | hprimed | hprimed
      · exact hne heq
      · exact hab hintroduces' hprimed
      · exact hba hprimed

/-- What can be declared in a type after a substitution: what was declared before, up to its new
name, and what a replacement declares. -/
def Declares (s : Substitution) (t : Ty) (x : String) : Prop :=
  (∃ g ∈ t.binders, s.Renews g x) ∨ ∃ e ∈ s.entries, x ∈ e.2.binders

theorem Declares.mono {t u : Ty} (h : s.Declares t x) (hsub : t.binders ⊆ u.binders) :
    s.Declares u x := by
  rcases h with ⟨g, hg, hx⟩ | hentry
  · exact .inl ⟨g, hsub hg, hx⟩
  · exact .inr hentry

theorem declares_of_mem_binders {t : Ty} (h : s.Spares t) (ρ : String → String)
    (hx : x ∈ (s.applyAfter ρ t).binders) : s.Declares t x := by
  induction t using Ty.induction generalizing ρ with
  | bool => cases hx
  | int => cases hx
  | generic a =>
    rw [applyAfter_generic] at hx
    cases ha : s.get? (ρ a) with
    | none =>
      rw [ha] at hx
      cases hx
    | some u =>
      rw [ha] at hx
      exact .inr ⟨_, mem_of_lookup ha, hx⟩
  | list t ih => exact ih ⟨h.nested, h.kept⟩ ρ hx
  | tuple ts ih =>
    rw [applyAfter_tuple] at hx
    obtain ⟨_, hmem, hx⟩ := (Ty.mem_bindersAll_iff _).1 hx
    obtain ⟨t, ht, rfl⟩ := List.mem_map.1 hmem
    exact (ih t ht (h.item ht) ρ hx).mono (Ty.binders_subset_tuple ht)
  | fn ret params names generics ihRet ihParams =>
    have ih := List.forall_mem_cons.2 ⟨ihRet, ihParams⟩
    rw [h.applyAfter_fn ρ, Ty.mem_binders_fn_iff, ← List.map_cons] at hx
    rcases hx with hx | ⟨_, hmem, hx⟩
    · obtain ⟨g, hg, rfl⟩ := List.mem_map.1 hx
      exact .inl ⟨g, Ty.mem_binders_fn_iff.2 (.inl hg), s.renews_newName _ g⟩
    · obtain ⟨t, ht, rfl⟩ := List.mem_map.1 hmem
      exact (ih t ht (h.part ht) _ hx).mono (Ty.binders_subset_fn ht)

theorem hygienic_applyAfter {t : Ty} (h : s.Spares t) (ht : t.Hygienic)
    (hapart : t.Apart s.KeepsListed s.KeepsNested) (hs : ∀ e ∈ s.entries, e.2.Hygienic)
    (ρ : String → String) :
    (s.applyAfter ρ t).Hygienic := by
  induction t using Ty.induction generalizing ρ with
  | bool => exact ht
  | int => exact ht
  | generic a =>
    rw [applyAfter_generic]
    cases ha : s.get? (ρ a) with
    | none => exact Ty.apart_generic _
    | some u => exact hs _ (mem_of_lookup ha)
  | list t ih =>
    have hlist := ih ⟨h.nested, h.kept⟩ ⟨ht.lists, ht.nested⟩ ⟨hapart.lists, hapart.nested⟩ ρ
    exact ⟨hlist.lists, hlist.nested⟩
  | tuple ts ih =>
    have hts := Ty.apart_tuple_iff.1 ht
    have hapart := Ty.apart_tuple_iff.1 hapart
    rw [applyAfter_tuple]
    apply Ty.apart_tuple_iff.2
    rw [List.forall_mem_map]
    intro t hmem
    exact ih t hmem (h.item hmem) (hts t hmem) (hapart t hmem) ρ
  | fn ret params names generics ihRet ihParams =>
    have ih := List.forall_mem_cons.2 ⟨ihRet, ihParams⟩
    obtain ⟨hgenerics, hinside, hparts⟩ := Ty.apart_fn_iff.1 ht
    obtain ⟨hgenerics', hinside', hparts'⟩ := Ty.apart_fn_iff.1 hapart
    have hwithin (b : String) (hb : b ∈ (Ty.fn ret params names generics).binders) :
        b ∈ ((Ty.fn ret params names generics).rename ρ).names := by
      apply Ty.mem_names_of_mem_binders
      rwa [Ty.binders_rename]
    have hlisted (b : String) (hb : b ∈ generics) := hwithin b (Ty.mem_binders_fn_iff.2 (.inl hb))
    rw [h.applyAfter_fn ρ]
    apply Ty.apart_fn_iff.2
    rw [← List.map_cons]
    constructor
    · apply List.pairwise_map.2
      apply (hgenerics.and hgenerics').imp_of_mem
      intro a b ha hb ⟨hne, hab⟩
      exact newName_ne_newName (hlisted a ha) (hlisted b hb) hne hab
    constructor
    · rw [List.forall_mem_map]
      intro a ha
      rw [List.forall_mem_map]
      intro t hmem y hy
      rcases declares_of_mem_binders (h.part hmem) _ hy with ⟨b, hb, hy⟩ | ⟨e, he, hy⟩
      · have hb' := hwithin b (Ty.binders_subset_fn hmem hb)
        exact newName_ne_of_renews hb' (hinside a ha t hmem b hb) (hinside' a ha t hmem b hb) hy
      · -- no replacement mentions a new name
        rintro rfl
        exact introduces_eq_false_iff.1 (s.introduces_newName _ a) e he
          (Ty.mem_names_of_mem_binders hy)
    · rw [List.forall_mem_map]
      intro t hmem
      exact ih t hmem (h.part hmem) (hparts t hmem) (hparts' t hmem) _

/-- A substitution of hygienic types that replaces no declared generic keeps a type hygienic, if it
keeps apart the declared generics that differ in their primes alone. -/
theorem apply_hygienic {t : Ty} (ht : t.Hygienic) (hs : ∀ e ∈ s.entries, e.2.Hygienic)
    (hkept : ∀ g ∈ t.binders, s.replaces g = false) (hapart : t.Apart s.KeepsListed s.KeepsNested) :
    (s.apply t).Hygienic := by
  rw [← applyAfter_self]
  exact hygienic_applyAfter ⟨ht.nested, hkept⟩ ht hapart hs _

/-- `{A} A(b: A)` -/
def identityType : Ty := .fn (.generic "A") [.generic "A"] ["b"] ["A"]

/-- `{A, B} ({C} (X, Y, C)(c: A))(a: A, b: B)` -/
def curriedType : Ty :=
  .fn (.fn (.tuple [.generic "X", .generic "Y", .generic "C"]) [.generic "A"] ["c"] ["C"])
    [.generic "A", .generic "B"] ["a", "b"] ["A", "B"]

/-- All three declared generics get new names, since the replacements mention them. -/
theorem apply_hygienic_curried :
    let s : Substitution := ⟨[("X", identityType), ("Y", .tuple [.generic "B", .generic "C"])]⟩
    curriedType.Hygienic ∧ (∀ e ∈ s.entries, e.2.Hygienic) ∧
      (∀ g ∈ curriedType.binders, s.replaces g = false) ∧
      curriedType.Apart s.KeepsListed s.KeepsNested ∧
      (s.apply curriedType).text =
        "\x7bA', B'\x7d \x7bC'\x7d (\x7bA\x7d A(b: A), (B, C), C')(c: A')(a: A', b: B')" ∧
      (s.apply curriedType).Hygienic := by
  intro s
  have ht : curriedType.Hygienic := by decide +kernel
  have hs : ∀ e ∈ s.entries, e.2.Hygienic := by decide +kernel
  have hkept : ∀ g ∈ curriedType.binders, s.replaces g = false := by decide +kernel
  have hstems : curriedType.Apart (fun a b => stem a ≠ stem b) fun a b => stem a ≠ stem b := by
    decide +kernel
  have hapart : curriedType.Apart s.KeepsListed s.KeepsNested :=
    hstems.imp (fun _ _ => s.keepsListed_of_stem_ne) fun _ _ => s.keepsNested_of_stem_ne
  exact ⟨ht, hs, hkept, hapart, by decide +kernel, apply_hygienic ht hs hkept hapart⟩

/-- `{A} (X, Y)(a: A)` -/
def pairingType : Ty := .fn (.tuple [.generic "X", .generic "Y"]) [.generic "A"] ["a"] ["A"]

/-- The first substitution gives the outer generic the name that the second one then gives to the
inner one: the new name is free in the inner function type, where alone it is looked for. -/
theorem apply_not_hygienic :
    let t := apply ⟨[("X", identityType)]⟩ pairingType
    let s : Substitution := ⟨[("Y", identityType)]⟩
    t.Hygienic ∧ (∀ e ∈ s.entries, e.2.Hygienic) ∧ (∀ g ∈ t.binders, s.replaces g = false) ∧
      t.text = "\x7bA'\x7d (\x7bA\x7d A(b: A), Y)(a: A')" ∧
      (s.apply t).text = "\x7bA'\x7d (\x7bA'\x7d A'(b: A'), \x7bA\x7d A(b: A))(a: A')" ∧
      ¬ (s.apply t).Hygienic := by
  decide +kernel

-- The new names of one list are not compared with each other either.
example :
    (apply ⟨[("X", .tuple [.generic "A", .generic "A'"])]⟩
      (.fn (.generic "X") [.generic "A", .generic "A'"] ["a", "b"] ["A", "A'"])).text =
        "\x7bA'', A''\x7d (A, A')(a: A'', b: A'')" := by
  decide +kernel

end Substitution

end ExprLang
