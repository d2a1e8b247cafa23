import ExprLang.Proofs.Table
import ExprLang.Proofs.Ty.Structure

namespace ExprLang

namespace Ty

mutual

def free : Ty → List String
  | bool | int => []
  | list t => t.free
  | tuple ts => freeAll ts
  | fn ret params _ generics =>
    (ret.free ++ freeAll params).filter fun a => !generics.contains a
  | generic a => [a]

def freeAll : List Ty → List String
  | [] => []
  | t :: ts => t.free ++ freeAll ts

end

variable {x : String}

theorem mem_freeAll_iff (ts : List Ty) : x ∈ freeAll ts ↔ ∃ t ∈ ts, x ∈ t.free := by
  induction ts with
  | nil => simp [freeAll]
  | cons t ts ih => simp [freeAll, ih]

theorem mem_free_fn_iff {ret : Ty} {params : List Ty} {names generics : List String} :
    x ∈ (fn ret params names generics).free ↔ x ∈ freeAll (ret :: params) ∧ x ∉ generics := by
  rw [free, List.mem_filter, freeAll, Bool.not_eq_true', ← Bool.not_eq_true,
    List.contains_iff_mem]

def declared : Ty → List String
  | fn _ _ _ generics => generics
  | _ => []

end Ty

namespace Substitution

variable {x : String}

/-- What a substitution can leave free in a type. -/
def Leaves (s : Substitution) (t : Ty) (x : String) : Prop :=
  (x ∈ t.free ∧ s.replaces x = false) ∨ ∃ e ∈ s.entries, x ∈ e.2.free

theorem Leaves.single {a b : String} {t : Ty} (h : Leaves ⟨[(a, .generic b)]⟩ t x) :
    (x ∈ t.free ∧ x ≠ a) ∨ x = b := by
  rcases h with ⟨hx, hreplaces⟩ | ⟨e, he, hx⟩
  · left
    refine ⟨hx, ?_⟩
    rintro rfl
    rw [replaces, get?, lookup_cons_eq_ite, if_pos rfl] at hreplaces
    cases hreplaces
  · right
    rw [List.mem_singleton.1 he] at hx
    exact List.mem_singleton.1 hx

theorem freshen_free (s : Substitution) (within : Ty) {rename : Substitution → Ty → Ty}
    {P : Ty → Prop} (hP : ∀ a b t, P t → P (rename ⟨[(a, .generic b)]⟩ t))
    (hrename : ∀ a b t, P t → ∀ x ∈ (rename ⟨[(a, .generic b)]⟩ t).free,
      Leaves ⟨[(a, .generic b)]⟩ t x)
    (gs : List String) {ret : Ty} {params : List Ty} (h : ∀ t ∈ ret :: params, P t) :
    let fresh := s.freshen within rename gs ret params
    (∀ t ∈ fresh.2.1 :: fresh.2.2, P t) ∧
      ∀ x ∈ Ty.freeAll (fresh.2.1 :: fresh.2.2), x ∉ fresh.1 → s.replaces x = false →
        x ∈ Ty.freeAll (ret :: params) ∧ x ∉ gs := by
  induction gs generalizing ret params with
  | nil =>
    refine ⟨h, ?_⟩
    intro x hx _ _
    exact ⟨hx, List.not_mem_nil⟩
  | cons g gs ih =>
    rw [freshen]
    split
    · rename_i hg
      obtain ⟨hkept, hfree⟩ := ih h
      refine ⟨hkept, ?_⟩
      intro x hx hnot hreplaces
      obtain ⟨hx, hgs⟩ := hfree x hx hnot hreplaces
      refine ⟨hx, List.not_mem_cons_of_ne_of_not_mem ?_ hgs⟩
      rintro rfl
      rw [hg] at hreplaces
      cases hreplaces
    split
    · have hrenamed : ∀ t ∈ (ret :: params).map (rename ⟨[(g, .generic (s.freshName g within))]⟩),
          P t := List.forall_mem_map.2 fun t ht => hP _ _ t (h t ht)
      obtain ⟨hkept, hfree⟩ := ih hrenamed
      refine ⟨hkept, ?_⟩
      intro x hx hnot hreplaces
      obtain ⟨hx, hgs⟩ := hfree x hx (List.not_mem_of_not_mem_cons hnot) hreplaces
      obtain ⟨_, hmem, hx⟩ := (Ty.mem_freeAll_iff _).1 hx
      rw [← List.map_cons] at hmem
      obtain ⟨t, ht, rfl⟩ := List.mem_map.1 hmem
      rcases (hrename _ _ t (h t ht) x hx).single with ⟨hx, hne⟩ | rfl
      · exact ⟨(Ty.mem_freeAll_iff _).2 ⟨t, ht, hx⟩, List.not_mem_cons_of_ne_of_not_mem hne hgs⟩
      · exact absurd List.mem_cons_self hnot
    · obtain ⟨hkept, hfree⟩ := ih h
      refine ⟨hkept, ?_⟩
      intro x hx hnot hreplaces
      obtain ⟨hx, hgs⟩ := hfree x hx (List.not_mem_of_not_mem_cons hnot) hreplaces
      exact ⟨hx, List.not_mem_cons_of_ne_of_not_mem (List.ne_of_not_mem_cons hnot) hgs⟩

/-- A renaming goes into the parts of a function type before the substitution does, so the induction
is on the number of levels. -/
theorem mem_free_apply (s : Substitution) {t : Ty} (hx : x ∈ (s.apply t).free) : s.Leaves t x := by
  induction hn : t.depth using Nat.strongRecOn generalizing s t x with
  | _ n ih =>
    have hall {ts : List Ty} (hts : ∀ t ∈ ts, t.depth < n) (hx : x ∈ Ty.freeAll (ts.map s.apply)) :
        (x ∈ Ty.freeAll ts ∧ s.replaces x = false) ∨ ∃ e ∈ s.entries, x ∈ e.2.free := by
      obtain ⟨_, hmem, hx⟩ := (Ty.mem_freeAll_iff _).1 hx
      obtain ⟨t, ht, rfl⟩ := List.mem_map.1 hmem
      rcases ih _ (hts t ht) s hx rfl with ⟨hx, hreplaces⟩ | hentry
      · exact .inl ⟨(Ty.mem_freeAll_iff _).2 ⟨t, ht, hx⟩, hreplaces⟩
      · exact .inr hentry
    cases t with
    | bool => cases hx
    | int => cases hx
    | generic a =>
      rw [apply_generic] at hx
      cases ha : s.get? a with
      | none =>
        rw [ha] at hx
        obtain rfl := List.mem_singleton.1 hx
        exact .inl ⟨hx, by rw [replaces, ha]; rfl⟩
      | some u =>
        rw [ha] at hx
        exact .inr ⟨(a, u), mem_of_lookup ha, hx⟩
    | list t =>
      have hlt : t.depth < n := by rw [← hn, Ty.depth]; exact Nat.lt_succ_self _
      have hleaves : s.Leaves t x := ih _ hlt s hx rfl
      exact hleaves
    | tuple ts =>
      have hlt : ∀ t ∈ ts, t.depth < n := by
        intro t ht
        rw [← hn, Ty.depth]
        exact Nat.lt_succ_of_le (Ty.depth_le_depthAll ht)
      rw [apply_tuple] at hx
      exact hall hlt hx
    | fn ret params names generics =>
      have hlt : ∀ t ∈ ret :: params, t.depth < n := by
        intro t ht
        rw [← hn, Ty.depth]
        exact Nat.lt_succ_of_le (Ty.depth_le_depthAll ht)
      have hdepth : ∀ a b t, t.depth < n → (apply ⟨[(a, .generic b)]⟩ t).depth < n := by
        intro a b t ht
        exact Nat.lt_of_le_of_lt (apply_depth (isRenaming_single a b) t) ht
      have hrename : ∀ a b t, t.depth < n → ∀ x ∈ (apply ⟨[(a, .generic b)]⟩ t).free,
          Leaves ⟨[(a, .generic b)]⟩ t x := by
        intro a b t ht x hx
        exact ih _ ht _ hx rfl
      obtain ⟨hkept, hfree⟩ := freshen_free s (.fn ret params names generics) hdepth hrename
        generics hlt
      rw [apply_fn, Ty.mem_free_fn_iff] at hx
      obtain ⟨hx, hnot⟩ := hx
      rcases hall hkept hx with ⟨hx, hreplaces⟩ | hentry
      · exact .inl ⟨Ty.mem_free_fn_iff.2 (hfree x hx hnot hreplaces), hreplaces⟩
      · exact .inr hentry

theorem mem_of_mem_ofList {pairs : List (String × Ty)} {e : String × Ty}
    (h : e ∈ (ofList pairs).entries) : e ∈ pairs := by
  have hfold (pairs : List (String × Ty)) (s : Substitution)
      (h : e ∈ (pairs.foldl (fun s p => s.insert p.1 p.2) s).entries) :
      e ∈ pairs ∨ e ∈ s.entries := by
    induction pairs generalizing s with
    | nil => exact .inr h
    | cons p pairs ih =>
      rcases ih _ h with hmem | hmem
      · exact .inl (List.mem_cons_of_mem _ hmem)
      · rcases List.mem_cons.1 hmem with rfl | hmem
        · exact .inl List.mem_cons_self
        · exact .inr (List.mem_filter.1 hmem).1
  exact (hfold pairs empty h).resolve_right List.not_mem_nil

end Substitution

end ExprLang
