import ExprLang.Proofs.Printing.Lexemes

namespace ExprLang

open Lexeme

/-- In front of rests that begin as `f` allows, the texts make the same whole only if `P` holds and
the rests are the same. -/
def Separable (f : Char → Bool) (a b : String) (P : Prop) : Prop :=
  ∀ u v : List Char, u.head?.all f = true → v.head?.all f = true →
    a.toList ++ u = b.toList ++ v → P ∧ u = v

theorem Begins.weaken {f g : Char → Bool} {a : String} (h : Begins f a)
    (hfg : ∀ c, f c = true → g c = true) : Begins g a := by
  obtain ⟨c, cs, ha, hc⟩ := h
  exact ⟨c, cs, ha, hfg c hc⟩

theorem Begins.allows {f : Char → Bool} {a : String} (h : Begins f a) (u : List Char) :
    (a.toList ++ u).head?.all f = true := by
  obtain ⟨c, cs, ha, hc⟩ := h
  rw [ha]
  exact hc

theorem head?_all_imp {f g : Char → Bool} {u : List Char} (h : u.head?.all f = true)
    (hfg : ∀ c, f c = true → g c = true) : u.head?.all g = true := by
  cases u with
  | nil => rfl
  | cons c u => exact hfg c h

namespace Text

def concat : List String → String
  | [] => ""
  | a :: as => a ++ concat as

theorem concat_append (as bs : List String) : concat (as ++ bs) = concat as ++ concat bs := by
  induction as with
  | nil => rw [concat, List.nil_append, String.empty_append]
  | cons a as ih => rw [List.cons_append, concat, concat, ih, String.append_assoc]

theorem commaSeries_cons (a : String) (as : List String) :
    commaSeries (a :: as) = a ++ concat (as.map (", " ++ ·)) := by
  induction as generalizing a with
  | nil => rw [commaSeries, List.map_nil, concat, String.append_empty]
  | cons b as ih =>
    rw [commaSeries, ih b, List.map_cons, concat, String.append_assoc, String.append_assoc]
    intro h
    cases h

def tupleEnd (as : List String) : String :=
  if as.isEmpty then ",)" else concat (as.map (", " ++ ·)) ++ ")"

theorem tuple_cons (a : String) (as : List String) :
    tuple (a :: as) = "(" ++ (a ++ tupleEnd as) := by
  cases as with
  | nil => exact String.append_assoc ..
  | cons b as =>
    rw [tuple, commaSeries_cons, String.append_assoc, String.append_assoc]
    · rfl
    · intro _ h
      cases h

theorem tupleEnd_cons (a : String) (as : List String) :
    tupleEnd (a :: as) = ", " ++ (a ++ (concat (as.map (", " ++ ·)) ++ ")")) := by
  rw [← String.append_assoc, ← String.append_assoc]
  rfl

theorem begins_comma (a : String) : Begins (· == ',') (", " ++ a) :=
  Begins.append ⟨',', [' '], rfl, rfl⟩ a

theorem tupleEnd_begins (as : List String) : Begins (· == ',') (tupleEnd as) := by
  cases as with
  | nil => exact ⟨',', [')'], rfl, rfl⟩
  | cons a as => exact ((begins_comma a).append _).append ")"

theorem concat_allows {f g : Char → Bool} {c : Char} (hg : g c = true)
    (hfg : ∀ d, f d = true → g d = true) {as : List String} (has : ∀ a ∈ as, Begins (· == c) a)
    (u : List Char) (hu : u.head?.all f = true) : ((concat as).toList ++ u).head?.all g = true := by
  cases as with
  | nil => exact head?_all_imp hu hfg
  | cons a as =>
    apply head?_all_imp (((has a List.mem_cons_self).append _).allows u)
    intro d hd
    rw [beq_iff_eq.1 hd, hg]

theorem mem_concat {c : Char} {as : List String} (h : c ∈ (concat as).toList) :
    ∃ a ∈ as, c ∈ a.toList := by
  induction as with
  | nil => cases h
  | cons a as ih =>
    rw [concat, String.toList_append, List.mem_append] at h
    rcases h with h | h
    · exact ⟨a, List.mem_cons_self, h⟩
    · obtain ⟨b, hb, hc⟩ := ih h
      exact ⟨b, List.mem_cons_of_mem _ hb, hc⟩

theorem mem_commaSeries {c : Char} {as : List String} (h : c ∈ (commaSeries as).toList) :
    c ∈ [',', ' '] ∨ ∃ a ∈ as, c ∈ a.toList := by
  cases as with
  | nil => cases h
  | cons a as =>
    rw [commaSeries_cons, String.toList_append, List.mem_append] at h
    rcases h with h | h
    · exact .inr ⟨a, List.mem_cons_self, h⟩
    · obtain ⟨_, hmem, hc⟩ := mem_concat h
      obtain ⟨b, hb, rfl⟩ := List.mem_map.1 hmem
      rw [String.toList_append, List.mem_append] at hc
      exact hc.imp id fun hc => ⟨b, List.mem_cons_of_mem _ hb, hc⟩

end Text

namespace Separable

variable {f g : Char → Bool} {a b a' b' : String} {P Q : Prop}

theorem imp (h : Separable f a b P) (hPQ : P → Q) : Separable f a b Q := by
  intro u v hu hv heq
  obtain ⟨hP, huv⟩ := h u v hu hv heq
  exact ⟨hPQ hP, huv⟩

theorem weaken (h : Separable f a b P) (hfg : ∀ c, g c = true → f c = true) :
    Separable g a b P := by
  intro u v hu hv
  exact h u v (head?_all_imp hu hfg) (head?_all_imp hv hfg)

theorem of_run {p : Char → Bool} (ha : ∀ c ∈ a.toList, p c = true)
    (hb : ∀ c ∈ b.toList, p c = true) (hf : ∀ c, f c = true → (!p c) = true) :
    Separable f a b (a = b) := by
  intro u v hu hv heq
  obtain ⟨htake, hdrop⟩ := run_append ha (head?_all_imp hu hf)
  obtain ⟨htake', hdrop'⟩ := run_append hb (head?_all_imp hv hf)
  rw [heq] at htake hdrop
  exact ⟨String.toList_injective (htake.symm.trans htake'), hdrop.symm.trans hdrop'⟩

/-- Texts that begin differently make different wholes. -/
theorem of_begins {p q : Char → Bool} (ha : Begins p a) (hb : Begins q b)
    (hpq : ∀ c, p c = true → q c = false) : Separable f a b P := by
  obtain ⟨c, cs, ha, hc⟩ := ha
  obtain ⟨d, ds, hb, hd⟩ := hb
  intro u v _ _ heq
  rw [ha, hb] at heq
  obtain ⟨rfl, -⟩ := List.cons.inj heq
  exact absurd hd (ne_true_of_eq_false (hpq c hc))

theorem symm (h : Separable f a b P) : Separable f b a P := by
  intro u v hu hv heq
  obtain ⟨hP, hvu⟩ := h v u hv hu heq.symm
  exact ⟨hP, hvu.symm⟩

theorem empty {p : Char → Bool} (hb : Begins p b) (hpf : ∀ c, p c = true → f c = false) :
    Separable f "" b P := by
  obtain ⟨c, cs, hb, hc⟩ := hb
  intro u v hu _ heq
  have hu' : u = b.toList ++ v := heq
  rw [hu', hb] at hu
  exact absurd hu (ne_true_of_eq_false (hpf c hc))

theorem append (h : Separable f a b P) (h' : Separable g a' b' Q)
    (ha : ∀ u, u.head?.all g = true → (a'.toList ++ u).head?.all f = true)
    (hb : ∀ v, v.head?.all g = true → (b'.toList ++ v).head?.all f = true) :
    Separable g (a ++ a') (b ++ b') (P ∧ Q) := by
  intro u v hu hv heq
  rw [String.toList_append, String.toList_append, List.append_assoc, List.append_assoc] at heq
  obtain ⟨hP, hrest⟩ := h _ _ (ha u hu) (hb v hv) heq
  obtain ⟨hQ, huv⟩ := h' u v hu hv hrest
  exact ⟨⟨hP, hQ⟩, huv⟩

theorem opening (c : String) (h : Separable f a b P) : Separable f (c ++ a) (c ++ b) P := by
  intro u v hu hv heq
  rw [String.toList_append, String.toList_append, List.append_assoc, List.append_assoc] at heq
  exact h u v hu hv (List.append_cancel_left heq)

theorem closing (c : String) (h : Separable f a b P) (hc : Begins f c) :
    Separable anything (a ++ c) (b ++ c) P := by
  obtain ⟨d, ds, hd, hf⟩ := hc
  intro u v _ _ heq
  rw [String.toList_append, String.toList_append, List.append_assoc, List.append_assoc, hd] at heq
  obtain ⟨hP, hrest⟩ := h (d :: (ds ++ u)) (d :: (ds ++ v)) hf hf heq
  exact ⟨hP, List.append_cancel_left (List.cons.inj hrest).2⟩

theorem refl {α : Type} (a : String) {p : α} : Separable f a a (p = p) :=
  fun _ _ _ _ heq => ⟨rfl, List.append_cancel_left heq⟩

section Series

variable {α β : Type} {text : α → String} {key : α → β} {xs ys : List α}

theorem cons {x y : α} {ks ls : List β} (h : Separable f a b (key x = key y))
    (h' : Separable g a' b' (ks = ls))
    (ha : ∀ u, u.head?.all g = true → (a'.toList ++ u).head?.all f = true)
    (hb : ∀ v, v.head?.all g = true → (b'.toList ++ v).head?.all f = true) :
    Separable g (a ++ a') (b ++ b') (key x :: ks = key y :: ls) := by
  apply (h.append h' ha hb).imp
  intro hkeys
  rw [hkeys.1, hkeys.2]

/-- Texts one after the other that all begin with a character that does not follow the last one. -/
theorem concat (c : Char) (hf : f c = false) (hg : g c = true) (hfg : ∀ d, f d = true → g d = true)
    (hxs : ∀ x ∈ xs, Begins (· == c) (text x)) (hys : ∀ y ∈ ys, Begins (· == c) (text y))
    (h : ∀ x ∈ xs, ∀ y ∈ ys, Separable g (text x) (text y) (key x = key y)) :
    Separable f (Text.concat (xs.map text)) (Text.concat (ys.map text))
      (xs.map key = ys.map key) := by
  have hstop (d : Char) (hd : (d == c) = true) : f d = false := by rw [beq_iff_eq.1 hd, hf]
  induction xs generalizing ys with
  | nil =>
    cases ys with
    | nil => exact refl ""
    | cons y ys =>
      rw [List.map_cons, Text.concat]
      exact empty ((hys y List.mem_cons_self).append _) hstop
  | cons x xs ih =>
    cases ys with
    | nil =>
      rw [List.map_cons, Text.concat]
      exact (empty ((hxs x List.mem_cons_self).append _) hstop).symm
    | cons y ys =>
      obtain ⟨-, hxs⟩ := List.forall_mem_cons.1 hxs
      obtain ⟨-, hys⟩ := List.forall_mem_cons.1 hys
      have htail := ih hxs hys fun x hx y hy =>
        h x (List.mem_cons_of_mem _ hx) y (List.mem_cons_of_mem _ hy)
      apply (h x List.mem_cons_self y List.mem_cons_self).cons htail
      · exact Text.concat_allows hg hfg (List.forall_mem_map.2 hxs)
      · exact Text.concat_allows hg hfg (List.forall_mem_map.2 hys)

variable (hcomma : g ',' = true) (hclosing : ∀ c, (c == ')') = true → g c = true)
  (h : ∀ x ∈ xs, ∀ y ∈ ys, Separable g (text x) (text y) (key x = key y))
include hcomma hclosing h

theorem trail :
    Separable (· == ')') (Text.concat ((xs.map text).map (", " ++ ·)))
      (Text.concat ((ys.map text).map (", " ++ ·))) (xs.map key = ys.map key) := by
  rw [List.map_map, List.map_map]
  apply concat ',' rfl hcomma hclosing
  · exact fun x _ => Text.begins_comma (text x)
  · exact fun y _ => Text.begins_comma (text y)
  · exact fun x hx y hy => (h x hx y hy).opening ", "

theorem tupleEnd :
    Separable anything (Text.tupleEnd (xs.map text)) (Text.tupleEnd (ys.map text))
      (xs.map key = ys.map key) := by
  -- behind the comma stands a bracket if there is no other item, and else a blank
  have hlast (z : α) (zs : List α) :
      Separable anything (Text.tupleEnd []) (Text.tupleEnd ((z :: zs).map text)) False := by
    intro u v _ _ heq
    rw [List.map_cons, Text.tupleEnd_cons, String.toList_append] at heq
    have hmarks : [',', ')'] ++ u = [',', ' '] ++ _ ++ v := heq
    cases hmarks
  cases xs with
  | nil =>
    cases ys with
    | nil => exact refl ",)"
    | cons y ys => exact (hlast y ys).imp False.elim
  | cons x xs =>
    cases ys with
    | nil => exact (hlast x xs).symm.imp False.elim
    | cons y ys => exact (trail hcomma hclosing h).closing ")" ⟨')', [], rfl, rfl⟩

variable (hxs : ∀ x ∈ xs, Begins (· != ')') (text x)) (hys : ∀ y ∈ ys, Begins (· != ')') (text y))
include hxs hys

theorem commaSeries :
    Separable (· == ')') (Text.commaSeries (xs.map text)) (Text.commaSeries (ys.map text))
      (xs.map key = ys.map key) := by
  have hstop (c : Char) (hc : (c != ')') = true) : (c == ')') = false := by simpa using hc
  cases xs with
  | nil =>
    cases ys with
    | nil => exact refl ""
    | cons y ys =>
      rw [List.map_cons, Text.commaSeries_cons]
      exact empty ((hys y List.mem_cons_self).append _) hstop
  | cons x xs =>
    cases ys with
    | nil =>
      rw [List.map_cons, Text.commaSeries_cons]
      exact (empty ((hxs x List.mem_cons_self).append _) hstop).symm
    | cons y ys =>
      rw [List.map_cons, List.map_cons, Text.commaSeries_cons, Text.commaSeries_cons]
      have htrail := trail hcomma hclosing fun x hx y hy =>
        h x (List.mem_cons_of_mem _ hx) y (List.mem_cons_of_mem _ hy)
      have hcommas (zs : List String) : ∀ a ∈ zs.map (", " ++ ·), Begins (· == ',') a :=
        List.forall_mem_map.2 fun z _ => Text.begins_comma z
      apply (h x List.mem_cons_self y List.mem_cons_self).cons htrail
      · exact Text.concat_allows hcomma hclosing (hcommas _)
      · exact Text.concat_allows hcomma hclosing (hcommas _)

/-- A tuple with one item has a comma after it. -/
theorem tuple :
    Separable anything (Text.tuple (xs.map text)) (Text.tuple (ys.map text))
      (xs.map key = ys.map key) := by
  have hstop (c : Char) (hc : (c != ')') = true) : (c == ')') = false := by simpa using hc
  have hbracket : Begins (· == ')') ")" := ⟨')', [], rfl, rfl⟩
  cases xs with
  | nil =>
    cases ys with
    | nil => exact refl "()"
    | cons y ys =>
      rw [List.map_cons, Text.tuple_cons]
      exact (of_begins ((hys y List.mem_cons_self).append _) hbracket hstop).symm.opening "("
  | cons x xs =>
    cases ys with
    | nil =>
      rw [List.map_cons, Text.tuple_cons]
      exact (of_begins ((hxs x List.mem_cons_self).append _) hbracket hstop).opening "("
    | cons y ys =>
      rw [List.map_cons, List.map_cons, Text.tuple_cons, Text.tuple_cons]
      have hend := tupleEnd hcomma hclosing fun x hx y hy =>
        h x (List.mem_cons_of_mem _ hx) y (List.mem_cons_of_mem _ hy)
      have hallows (zs : List String) (u : List Char) :
          ((Text.tupleEnd zs).toList ++ u).head?.all g = true := by
        apply head?_all_imp ((Text.tupleEnd_begins zs).allows u)
        intro c hc
        rw [beq_iff_eq.1 hc, hcomma]
      apply ((h x List.mem_cons_self y List.mem_cons_self).cons hend _ _).opening
      · exact fun u _ => hallows _ u
      · exact fun v _ => hallows _ v

end Series

end Separable

end ExprLang
