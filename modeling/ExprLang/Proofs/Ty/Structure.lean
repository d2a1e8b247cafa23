import ExprLang.Ty.Substitution.Equations

namespace ExprLang

namespace Ty

theorem induction {motive : Ty → Prop} (bool : motive .bool) (int : motive .int)
    (list : ∀ t, motive t → motive (.list t))
    (tuple : ∀ ts, (∀ t ∈ ts, motive t) → motive (.tuple ts))
    (fn : ∀ ret params names generics, motive ret → (∀ t ∈ params, motive t) →
      motive (.fn ret params names generics))
    (generic : ∀ a, motive (.generic a)) (t : Ty) : motive t := by
  refine @Ty.rec motive (fun ts => ∀ t ∈ ts, motive t) bool int list tuple fn generic ?_ ?_ t
  · intro t ht
    cases ht
  · intro t ts ih ihs
    exact List.forall_mem_cons.2 ⟨ih, ihs⟩

mutual

/-- A type without names of parameters and without declared generics. -/
def erase : Ty → Ty
  | bool => bool
  | int => int
  | list t => list t.erase
  | tuple ts => tuple (eraseAll ts)
  | fn ret params _ _ => fn ret.erase (eraseAll params) [] []
  | generic a => generic a

def eraseAll : List Ty → List Ty
  | [] => []
  | t :: ts => t.erase :: eraseAll ts

end

theorem eraseAll_eq_map (ts : List Ty) : eraseAll ts = ts.map erase := by
  induction ts with
  | nil => rfl
  | cons t ts ih => rw [eraseAll, ih, List.map_cons]

theorem equivAll_iff_of_forall {ss : List Ty}
    (h : ∀ s ∈ ss, ∀ t, s.equiv t = true ↔ s.erase = t.erase) (ts : List Ty) :
    equivAll ss ts = true ↔ eraseAll ss = eraseAll ts := by
  induction ss generalizing ts with
  | nil => cases ts <;> simp [equivAll, eraseAll]
  | cons s ss ih =>
    obtain ⟨hs, hss⟩ := List.forall_mem_cons.1 h
    cases ts with
    | nil => simp [equivAll, eraseAll]
    | cons t ts =>
      rw [equivAll, Bool.and_eq_true, hs t, ih hss ts, eraseAll, eraseAll, List.cons.injEq]

theorem equiv_iff_erase_eq (s t : Ty) : s.equiv t = true ↔ s.erase = t.erase := by
  induction s using Ty.induction generalizing t with
  | bool => cases t <;> simp [equiv, erase]
  | int => cases t <;> simp [equiv, erase]
  | list s ih => cases t <;> simp [equiv, erase, ih]
  | tuple ss ih =>
    cases t with
    | tuple ts => rw [equiv, equivAll_iff_of_forall ih, erase, erase, tuple.injEq]
    | _ => simp [equiv, erase]
  | fn ret params names generics ihRet ihParams =>
    cases t with
    | fn ret' params' names' generics' =>
      rw [equiv, Bool.and_eq_true, ihRet, equivAll_iff_of_forall ihParams]
      simp [erase]
    | _ => simp [equiv, erase]
  | generic a => cases t <;> simp [equiv, erase]

theorem equiv_symm {s t : Ty} (h : s.equiv t = true) : t.equiv s = true := by
  rw [equiv_iff_erase_eq] at h ⊢
  exact h.symm

mutual

/-- No generic stands in the type, though some may be declared. -/
def Ground : Ty → Prop
  | bool | int => True
  | list t => t.Ground
  | tuple ts => AllGround ts
  | fn ret params _ _ => ret.Ground ∧ AllGround params
  | generic _ => False

def AllGround : List Ty → Prop
  | [] => True
  | t :: ts => t.Ground ∧ AllGround ts

end

theorem allGround_iff (ts : List Ty) : AllGround ts ↔ ∀ t ∈ ts, t.Ground := by
  induction ts with
  | nil => simp [AllGround]
  | cons t ts ih => rw [AllGround, ih, List.forall_mem_cons]

theorem ground_erase_iff (t : Ty) : t.erase.Ground ↔ t.Ground := by
  have hall {ts : List Ty} (h : ∀ t ∈ ts, t.erase.Ground ↔ t.Ground) :
      AllGround (eraseAll ts) ↔ AllGround ts := by
    rw [allGround_iff, allGround_iff, eraseAll_eq_map, List.forall_mem_map]
    exact forall₂_congr h
  induction t using Ty.induction with
  | bool => rfl
  | int => rfl
  | list t ih => exact ih
  | tuple ts ih => exact hall ih
  | fn ret params names generics ihRet ihParams => exact and_congr ihRet (hall ihParams)
  | generic a => rfl

theorem Ground.of_equiv {s t : Ty} (hs : s.Ground) (h : s.equiv t = true) : t.Ground := by
  rw [← ground_erase_iff, ← (equiv_iff_erase_eq s t).1 h, ground_erase_iff]
  exact hs

end Ty

namespace Substitution

theorem freshen_erase (s : Substitution) (within : Ty) {rename : Substitution → Ty → Ty}
    {P : Ty → Prop} (hP : ∀ a b t, P t → P (rename ⟨[(a, .generic b)]⟩ t))
    (herase : ∀ a b t, P t → (rename ⟨[(a, .generic b)]⟩ t).erase = t.erase) (gs : List String)
    {ret : Ty} {params : List Ty} (hret : P ret) (hparams : ∀ t ∈ params, P t) :
    P (freshen s within rename gs ret params).2.1 ∧
      (∀ t ∈ (freshen s within rename gs ret params).2.2, P t) ∧
      (freshen s within rename gs ret params).2.1.erase = ret.erase ∧
      (freshen s within rename gs ret params).2.2.map Ty.erase = params.map Ty.erase := by
  induction gs generalizing ret params with
  | nil => exact ⟨hret, hparams, rfl, rfl⟩
  | cons g gs ih =>
    rw [freshen]
    split
    · exact ih hret hparams
    split
    · have hparams' : ∀ t ∈ params.map (rename ⟨[(g, .generic (s.freshName g within))]⟩), P t :=
        List.forall_mem_map.2 fun t ht => hP _ _ t (hparams t ht)
      obtain ⟨h₁, h₂, h₃, h₄⟩ := ih (hP _ _ ret hret) hparams'
      refine ⟨h₁, h₂, h₃.trans (herase _ _ ret hret), h₄.trans ?_⟩
      rw [List.map_map]
      exact List.map_congr_left fun t ht => herase _ _ t (hparams t ht)
    · exact ih hret hparams

/-- A renaming goes into the parts of a function type before the substitution does, so the induction
is on the number of levels, which a renaming does not raise. -/
theorem apply_erase (s : Substitution) {t : Ty} (ht : t.Ground) :
    (s.apply t).erase = t.erase := by
  induction hn : t.depth using Nat.strongRecOn generalizing s t with
  | _ n ih =>
    have hmap {ts : List Ty} (hts : ∀ t ∈ ts, t.Ground ∧ t.depth < n) :
        Ty.eraseAll (ts.map s.apply) = Ty.eraseAll ts := by
      rw [Ty.eraseAll_eq_map, Ty.eraseAll_eq_map, List.map_map]
      exact List.map_congr_left fun t h => ih _ (hts t h).2 s (hts t h).1 rfl
    cases t with
    | bool => rfl
    | int => rfl
    | generic a => cases ht
    | list t =>
      have hlt : t.depth < n := by rw [← hn, Ty.depth]; exact Nat.lt_succ_self _
      have hground : t.Ground := ht
      rw [apply_list, Ty.erase, Ty.erase, ih _ hlt s hground rfl]
    | tuple ts =>
      have hlt : ∀ t ∈ ts, t.Ground ∧ t.depth < n := by
        intro t h
        refine ⟨(Ty.allGround_iff ts).1 ht t h, ?_⟩
        rw [← hn, Ty.depth]
        exact Nat.lt_succ_of_le (Ty.depth_le_depthAll h)
      rw [apply_tuple, Ty.erase, Ty.erase, hmap hlt]
    | fn ret params names generics =>
      obtain ⟨hret, hparams⟩ := ht
      have hret : ret.Ground ∧ ret.depth < n := by
        refine ⟨hret, ?_⟩
        rw [← hn, Ty.depth]
        exact Nat.lt_succ_of_le (Nat.le_max_left _ _)
      have hparams : ∀ t ∈ params, t.Ground ∧ t.depth < n := by
        intro t h
        refine ⟨(Ty.allGround_iff params).1 hparams t h, ?_⟩
        rw [← hn, Ty.depth]
        exact Nat.lt_succ_of_le (Nat.le_trans (Ty.depth_le_depthAll h) (Nat.le_max_right _ _))
      have herase : ∀ a b t, t.Ground ∧ t.depth < n →
          (apply ⟨[(a, .generic b)]⟩ t).erase = t.erase := by
        intro a b t ht
        exact ih _ ht.2 _ ht.1 rfl
      have hkeep : ∀ a b t, t.Ground ∧ t.depth < n →
          (apply ⟨[(a, .generic b)]⟩ t).Ground ∧ (apply ⟨[(a, .generic b)]⟩ t).depth < n := by
        intro a b t ht
        refine ⟨?_, Nat.lt_of_le_of_lt (apply_depth (isRenaming_single a b) t) ht.2⟩
        rw [← Ty.ground_erase_iff, herase a b t ht, Ty.ground_erase_iff]
        exact ht.1
      obtain ⟨hret', hparams', heret, heparams⟩ := freshen_erase s
        (.fn ret params names generics) hkeep herase generics hret hparams
      rw [apply_fn, Ty.erase, Ty.erase, ih _ hret'.2 s hret'.1 rfl, hmap hparams', heret,
        Ty.eraseAll_eq_map, heparams, Ty.eraseAll_eq_map]

end Substitution

end ExprLang
