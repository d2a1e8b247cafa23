import ExprLang.Ty.Substitution

namespace ExprLang

namespace Ty

theorem depth_pos (t : Ty) : 0 < t.depth := by
  cases t <;> simp [depth]

theorem depthAll_le_iff (ts : List Ty) (n : Nat) :
    depthAll ts ≤ n ↔ ∀ t ∈ ts, t.depth ≤ n := by
  induction ts with
  | nil => simp [depthAll]
  | cons t ts ih => rw [depthAll, Nat.max_le, ih, List.forall_mem_cons]

theorem depth_le_depthAll {t : Ty} {ts : List Ty} (h : t ∈ ts) : t.depth ≤ depthAll ts :=
  (depthAll_le_iff ts _).1 (Nat.le_refl _) t h

theorem depthAll_map_le {f : Ty → Ty} {ts : List Ty} (h : ∀ t ∈ ts, (f t).depth ≤ t.depth) :
    depthAll (ts.map f) ≤ depthAll ts := by
  rw [depthAll_le_iff]
  intro u hu
  obtain ⟨t, ht, rfl⟩ := List.mem_map.1 hu
  exact Nat.le_trans (h t ht) (depth_le_depthAll ht)

end Ty

namespace Substitution

def IsRenaming (s : Substitution) : Prop := ∀ e ∈ s.entries, ∃ a, e.2 = .generic a

theorem isRenaming_single (a b : String) : IsRenaming ⟨[(a, .generic b)]⟩ := by
  intro e he
  rw [List.mem_singleton.1 he]
  exact ⟨b, rfl⟩

theorem mem_of_lookup {a : String} {t : Ty} {l : List (String × Ty)} (h : l.lookup a = some t) :
    (a, t) ∈ l := by
  induction l with
  | nil => simp at h
  | cons e l ih =>
    rw [List.lookup_cons] at h
    split at h
    · rename_i hae
      cases h
      rw [beq_iff_eq.1 hae]
      exact List.mem_cons_self
    · exact List.mem_cons_of_mem _ (ih h)

theorem IsRenaming.get?_depth {s : Substitution} (h : s.IsRenaming) (a : String) :
    ((s.get? a).getD (.generic a)).depth = 1 := by
  cases hs : s.get? a with
  | none => rfl
  | some t =>
    obtain ⟨b, hb⟩ := h _ (mem_of_lookup hs)
    simp only at hb
    rw [hb]
    rfl

theorem freshen_depth (s : Substitution) (within : Ty) {rename : Substitution → Ty → Ty} {n : Nat}
    (hr : ∀ a b t, t.depth ≤ n → (rename ⟨[(a, .generic b)]⟩ t).depth ≤ t.depth)
    (gs : List String) {ret : Ty} {params : List Ty} (hret : ret.depth ≤ n)
    (hparams : Ty.depthAll params ≤ n) :
    (freshen s within rename gs ret params).2.1.depth ≤ ret.depth ∧
      Ty.depthAll (freshen s within rename gs ret params).2.2 ≤ Ty.depthAll params := by
  induction gs generalizing ret params with
  | nil => exact ⟨Nat.le_refl _, Nat.le_refl _⟩
  | cons g gs ih =>
    rw [freshen]
    split
    · exact ih hret hparams
    split
    · have hret' := hr g (s.freshName g within) ret hret
      have hparams' : Ty.depthAll (params.map (rename ⟨[(g, .generic (s.freshName g within))]⟩)) ≤
          Ty.depthAll params :=
        Ty.depthAll_map_le fun t ht =>
          hr g _ t (Nat.le_trans (Ty.depth_le_depthAll ht) hparams)
      have h := ih (Nat.le_trans hret' hret) (Nat.le_trans hparams' hparams)
      exact ⟨Nat.le_trans h.1 hret', Nat.le_trans h.2 hparams'⟩
    · exact ih hret hparams

theorem applyUpTo_depth (n : Nat) {s : Substitution} (hs : s.IsRenaming) {t : Ty}
    (ht : t.depth ≤ n) : (applyUpTo n s t).depth ≤ t.depth := by
  induction n generalizing s t with
  | zero => exact absurd ht (Nat.not_le_of_gt t.depth_pos)
  | succ n ih =>
    cases t with
    | bool => exact Nat.le_refl _
    | int => exact Nat.le_refl _
    | generic a => exact Nat.le_of_eq (hs.get?_depth a)
    | list t =>
      simp only [Ty.depth, Nat.add_le_add_iff_right] at ht
      exact Nat.succ_le_succ (ih hs ht)
    | tuple ts =>
      simp only [Ty.depth, Nat.add_le_add_iff_right] at ht
      refine Nat.succ_le_succ (Ty.depthAll_map_le fun t h => ih hs ?_)
      exact Nat.le_trans (Ty.depth_le_depthAll h) ht
    | fn ret params names generics =>
      simp only [Ty.depth, Nat.add_le_add_iff_right, Nat.max_le] at ht
      obtain ⟨hret, hparams⟩ := ht
      have h := freshen_depth s (.fn ret params names generics)
        (fun a b _ => ih (isRenaming_single a b)) generics hret hparams
      simp only [applyUpTo, Ty.depth, Nat.add_le_add_iff_right, Nat.max_le]
      constructor
      · refine Nat.le_trans (ih hs (Nat.le_trans h.1 hret)) ?_
        exact Nat.le_trans h.1 (Nat.le_max_left _ _)
      · refine Nat.le_trans (Ty.depthAll_map_le fun t ht => ih hs ?_) ?_
        · exact Nat.le_trans (Ty.depth_le_depthAll ht) (Nat.le_trans h.2 hparams)
        · exact Nat.le_trans h.2 (Nat.le_max_right _ _)

theorem freshen_congr (s : Substitution) (within : Ty) {f g : Substitution → Ty → Ty} {n : Nat}
    (hf : ∀ a b t, t.depth ≤ n → (f ⟨[(a, .generic b)]⟩ t).depth ≤ t.depth)
    (hfg : ∀ a b t, t.depth ≤ n → f ⟨[(a, .generic b)]⟩ t = g ⟨[(a, .generic b)]⟩ t)
    (gs : List String) {ret : Ty} {params : List Ty} (hret : ret.depth ≤ n)
    (hparams : Ty.depthAll params ≤ n) :
    freshen s within f gs ret params = freshen s within g gs ret params := by
  induction gs generalizing ret params with
  | nil => rfl
  | cons a gs ih =>
    rw [freshen, freshen]
    split
    · exact ih hret hparams
    split
    · have hmap : params.map (f ⟨[(a, .generic (s.freshName a within))]⟩) =
          params.map (g ⟨[(a, .generic (s.freshName a within))]⟩) :=
        List.map_congr_left fun t ht => hfg a _ t (Nat.le_trans (Ty.depth_le_depthAll ht) hparams)
      have hret' := hf a (s.freshName a within) ret hret
      have hparams' : Ty.depthAll (params.map (f ⟨[(a, .generic (s.freshName a within))]⟩)) ≤
          Ty.depthAll params :=
        Ty.depthAll_map_le fun t ht =>
          hf a _ t (Nat.le_trans (Ty.depth_le_depthAll ht) hparams)
      have h := ih (Nat.le_trans hret' hret) (Nat.le_trans hparams' hparams)
      rw [hmap, hfg a _ ret hret] at h
      simp only [hmap, hfg a _ ret hret, h]
    · rw [ih hret hparams]

/-- Any two bounds that the type keeps to give the same result. -/
theorem applyUpTo_congr {n m : Nat} {s : Substitution} {t : Ty} (hn : t.depth ≤ n)
    (hm : t.depth ≤ m) : applyUpTo n s t = applyUpTo m s t := by
  induction n generalizing m s t with
  | zero => exact absurd hn (Nat.not_le_of_gt t.depth_pos)
  | succ n ih =>
    cases m with
    | zero => exact absurd hm (Nat.not_le_of_gt t.depth_pos)
    | succ m =>
      cases t with
      | bool => rfl
      | int => rfl
      | generic a => rfl
      | list t =>
        simp only [Ty.depth, Nat.add_le_add_iff_right] at hn hm
        simp only [applyUpTo, ih hn hm]
      | tuple ts =>
        simp only [Ty.depth, Nat.add_le_add_iff_right] at hn hm
        simp only [applyUpTo, Ty.tuple.injEq]
        exact List.map_congr_left fun t ht =>
          ih (Nat.le_trans (Ty.depth_le_depthAll ht) hn)
            (Nat.le_trans (Ty.depth_le_depthAll ht) hm)
      | fn ret params names generics =>
        simp only [Ty.depth, Nat.add_le_add_iff_right, Nat.max_le] at hn hm
        have hret : ret.depth ≤ min n m := Nat.le_min.2 ⟨hn.1, hm.1⟩
        have hparams : Ty.depthAll params ≤ min n m := Nat.le_min.2 ⟨hn.2, hm.2⟩
        have hdepth : ∀ a b t, t.depth ≤ min n m →
            (applyUpTo n ⟨[(a, .generic b)]⟩ t).depth ≤ t.depth := fun a b t ht =>
          applyUpTo_depth n (isRenaming_single a b) (Nat.le_min.1 ht).1
        have hfresh := freshen_congr s (.fn ret params names generics) hdepth
          (fun a b t ht => ih (m := m) (Nat.le_min.1 ht).1 (Nat.le_min.1 ht).2) generics hret
          hparams
        have h := freshen_depth s (.fn ret params names generics) hdepth generics
          hret hparams
        simp only [applyUpTo, ← hfresh, Ty.fn.injEq, and_true]
        constructor
        · have hr := Nat.le_min.1 (Nat.le_trans h.1 hret)
          exact ih hr.1 hr.2
        · refine List.map_congr_left fun t ht => ?_
          have hle := Nat.le_trans (Ty.depth_le_depthAll ht) (Nat.le_trans h.2 hparams)
          have ht := Nat.le_min.1 hle
          exact ih ht.1 ht.2

variable (s : Substitution)

theorem applyUpTo_eq_apply {n : Nat} {t : Ty} (h : t.depth ≤ n) : applyUpTo n s t = s.apply t :=
  applyUpTo_congr h (Nat.le_refl _)

theorem apply_depth {r : Substitution} (h : r.IsRenaming) (t : Ty) :
    (r.apply t).depth ≤ t.depth :=
  applyUpTo_depth _ h (Nat.le_refl _)

@[simp] theorem apply_bool : s.apply .bool = .bool := rfl

@[simp] theorem apply_int : s.apply .int = .int := rfl

@[simp] theorem apply_generic (a : String) :
    s.apply (.generic a) = (s.get? a).getD (.generic a) := rfl

@[simp] theorem apply_list (t : Ty) : s.apply (.list t) = .list (s.apply t) := rfl

@[simp] theorem apply_tuple (ts : List Ty) : s.apply (.tuple ts) = .tuple (ts.map s.apply) := by
  simp only [apply, Ty.depth, applyUpTo, Ty.tuple.injEq]
  exact List.map_congr_left fun t ht => applyUpTo_eq_apply s (Ty.depth_le_depthAll ht)

/-- A function type is first freshened, then the map goes into its result and its parameters. -/
theorem apply_fn (ret : Ty) (params : List Ty) (names generics : List String) :
    s.apply (.fn ret params names generics) =
      let fresh := s.freshen (.fn ret params names generics) apply generics ret params
      .fn (s.apply fresh.2.1) (fresh.2.2.map s.apply) names fresh.1 := by
  have hret : ret.depth ≤ max ret.depth (Ty.depthAll params) := Nat.le_max_left _ _
  have hparams : Ty.depthAll params ≤ max ret.depth (Ty.depthAll params) := Nat.le_max_right _ _
  have hdepth : ∀ a b t, t.depth ≤ max ret.depth (Ty.depthAll params) →
      (applyUpTo (max ret.depth (Ty.depthAll params)) ⟨[(a, .generic b)]⟩ t).depth ≤ t.depth :=
    fun a b t ht => applyUpTo_depth _ (isRenaming_single a b) ht
  have hfresh := freshen_congr s (.fn ret params names generics) hdepth
    (fun a b t ht => applyUpTo_eq_apply _ ht) generics hret hparams
  have h := freshen_depth s (.fn ret params names generics) hdepth generics
    hret hparams
  simp only [apply, Ty.depth, applyUpTo, Ty.fn.injEq]
  rw [← hfresh]
  refine ⟨?_, ?_, trivial, rfl⟩
  · exact applyUpTo_eq_apply s (Nat.le_trans h.1 hret)
  · refine List.map_congr_left fun t ht => ?_
    exact applyUpTo_eq_apply s (Nat.le_trans (Ty.depth_le_depthAll ht) (Nat.le_trans h.2 hparams))

end Substitution

end ExprLang
