namespace ExprLang

variable {α : Type}

theorem lookup_cons_eq_ite (key : String) (a : α) (table : List (String × α)) (name : String) :
    ((key, a) :: table).lookup name = if name = key then some a else table.lookup name := by
  rw [List.lookup_cons]
  split
  · rename_i h
    rw [if_pos (beq_iff_eq.1 h)]
  · rename_i h
    rw [if_neg (beq_eq_false_iff_ne.1 h)]

theorem lookup_filter_ne (table : List (String × α)) (name other : String) :
    (table.filter fun e => e.1 != name).lookup other =
      if other = name then none else table.lookup other := by
  induction table with
  | nil => simp
  | cons e table ih =>
    obtain ⟨key, a⟩ := e
    by_cases hkey : key = name
    · rw [List.filter_cons_of_neg (by simpa using hkey), ih, lookup_cons_eq_ite, hkey]
      split <;> rfl
    · rw [List.filter_cons_of_pos (by simpa using hkey), lookup_cons_eq_ite, lookup_cons_eq_ite, ih]
      by_cases hother : other = key
      · rw [if_pos hother, if_pos hother, hother, if_neg hkey]
      · rw [if_neg hother, if_neg hother]

theorem lookup_eq_none_iff (table : List (String × α)) (name : String) :
    table.lookup name = none ↔ name ∉ table.map Prod.fst := by
  induction table with
  | nil => simp
  | cons e table ih =>
    rw [lookup_cons_eq_ite, List.map_cons, List.mem_cons, not_or, ← ih]
    by_cases h : name = e.1 <;> simp [h]

theorem lookup_eq_some_iff {table : List (String × α)} (h : (table.map Prod.fst).Nodup)
    {name : String} {a : α} : table.lookup name = some a ↔ (name, a) ∈ table := by
  induction table with
  | nil => simp
  | cons e table ih =>
    obtain ⟨hnew, h⟩ := List.nodup_cons.1 h
    rw [lookup_cons_eq_ite, List.mem_cons]
    by_cases hname : name = e.1
    · have hother : (name, a) ∉ table := by
        intro hmem
        rw [hname] at hmem
        exact hnew (List.mem_map.2 ⟨_, hmem, rfl⟩)
      rw [if_pos hname, or_iff_left hother, hname, Option.some.injEq]
      constructor
      · rintro rfl
        rfl
      · intro he
        rw [← he]
    · have hhead : (name, a) ≠ e := fun he => hname (congrArg Prod.fst he)
      rw [if_neg hname, ih h, or_iff_right hhead]

theorem find?_eq_some_iff_of_nodup {β : Type} (key : β → String) {l : List β}
    (h : (l.map key).Nodup) {name : String} {b : β} :
    l.find? (fun b => key b == name) = some b ↔ b ∈ l ∧ key b = name := by
  induction l with
  | nil => simp
  | cons c l ih =>
    obtain ⟨hnew, h⟩ := List.nodup_cons.1 h
    rw [List.find?_cons]
    by_cases hkey : key c = name
    · rw [beq_iff_eq.2 hkey, Option.some.injEq, List.mem_cons]
      constructor
      · rintro rfl
        exact ⟨.inl rfl, hkey⟩
      · rintro ⟨rfl | hmem, hname⟩
        · rfl
        · rw [hkey, ← hname] at hnew
          exact absurd (List.mem_map_of_mem hmem) hnew
    · rw [beq_false_of_ne hkey, ih h, List.mem_cons]
      constructor
      · rintro ⟨hmem, hname⟩
        exact ⟨.inr hmem, hname⟩
      · rintro ⟨rfl | hmem, hname⟩
        · exact absurd hname hkey
        · exact ⟨hmem, hname⟩

theorem find?_reverse_of_nodup {β : Type} (key : β → String) {l : List β}
    (h : (l.map key).Nodup) (name : String) :
    (l.reverse.find? fun b => key b == name) = l.find? fun b => key b == name := by
  have hreverse : (l.reverse.map key).Nodup := by
    rw [List.map_reverse]
    exact List.pairwise_reverse.2 (h.imp Ne.symm)
  ext b
  rw [find?_eq_some_iff_of_nodup key hreverse, find?_eq_some_iff_of_nodup key h, List.mem_reverse]

end ExprLang
