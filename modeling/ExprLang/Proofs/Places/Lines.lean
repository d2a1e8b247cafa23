import ExprLang.Proofs.Scanning.Leading

namespace ExprLang

namespace Lexeme

/-- A lexeme that stands at a place of a text whose first character is at `pos`. -/
structure StandsAt (pos place : Position) (cs : List Char) (lexeme : List Char) : Prop where
  text : ∃ before after, cs = before ++ lexeme ++ after ∧ place = pos.after before
  first : ∃ c, lexeme.head? = some c ∧ isBlank c = false

theorem StandsAt.prepend {pos place : Position} {skipped cs lexeme : List Char}
    (h : StandsAt (pos.after skipped) place cs lexeme) :
    StandsAt pos place (skipped ++ cs) lexeme := by
  obtain ⟨⟨before, after, rfl, rfl⟩, hfirst⟩ := h
  refine ⟨⟨skipped ++ before, after, ?_, ?_⟩, hfirst⟩
  · simp only [List.append_assoc]
  · rw [Position.after_append]

theorem head?_leading (c : Char) (cs : List Char) : (leading c cs).1.text.head? = some c := by
  have happend := leading_append c cs
  cases htext : (leading c cs).1.text with
  | nil => exact absurd htext (leading_text_ne_nil c cs)
  | cons d ds =>
    rw [htext, List.cons_append] at happend
    rw [List.head?_cons, (List.cons.inj happend).1]

theorem leading_standsAt {c : Char} (hc : isBlank c = false) (pos : Position) (cs : List Char) :
    StandsAt pos pos (c :: cs) (leading c cs).1.text := by
  refine ⟨⟨[], (leading c cs).2, ?_, rfl⟩, c, head?_leading c cs, hc⟩
  rw [List.nil_append, leading_append]

end Lexeme

namespace Token

open Lexeme

theorem scan_ok_standsAt {pos : Position} {cs : List Char} {ts : List Token}
    (h : scan pos cs = .ok ts) : ∀ t ∈ ts, StandsAt pos t.pos cs t.text.toList := by
  induction pos, cs using scan_induction generalizing ts with
  | nil pos =>
    rw [scan_nil] at h
    cases h
    exact fun t ht => absurd ht List.not_mem_nil
  | blank pos c cs hc ih =>
    rw [scan_blank hc] at h
    intro t ht
    have hstands : StandsAt (pos.after [c]) t.pos cs t.text.toList := ih h t ht
    exact hstands.prepend
  | lexeme pos c cs hc ih =>
    rw [scan_cons hc] at h
    split at h
    · cases h
    split at h
    · cases h
    · rename_i rest hrest
      cases h
      refine List.forall_mem_cons.2 ⟨?_, fun t ht => ?_⟩
      · rw [String.toList_ofList]
        exact leading_standsAt hc pos cs
      · have hstands := (ih hrest t ht).prepend
        rwa [leading_append] at hstands

theorem scan_ne_nil {pos : Position} {cs : List Char} {ts : List Token} (h : scan pos cs = .ok ts)
    {c : Char} (hmem : c ∈ cs) (hc : isBlank c = false) : ts ≠ [] := by
  induction cs generalizing pos with
  | nil => cases hmem
  | cons d cs ih =>
    cases hd : isBlank d with
    | true =>
      rw [scan_blank hd] at h
      obtain rfl | hmem := List.mem_cons.1 hmem
      · rw [hd] at hc
        cases hc
      · exact ih h hmem
    | false =>
      rw [scan_cons hd] at h
      split at h
      · cases h
      split at h <;> cases h
      exact List.cons_ne_nil _ _

end Token

namespace Report

/-- The place of a character within lines, for a text whose first character stands at `pos`: in the
line of `pos` columns count on from there, and in a later one from the start. -/
structure ShowsAt (pos place : Position) (ls : List (List Char)) (c : Char) : Prop where
  below : pos.line ≤ place.line
  right : place.line = pos.line → pos.column ≤ place.column
  counted : pos.line < place.line → 1 ≤ place.column
  char : ∃ l, ls[place.line - pos.line]? = some l ∧
    l[place.column - if place.line = pos.line then pos.column else 1]? = some c

/-- Any character goes to the line that follows it, but for a line feed and a carriage return before
one. -/
theorem lines_cons {c : Char} {cs : List Char} (hfeed : c ≠ '\n')
    (hreturn : c = '\r' → cs.head? ≠ some '\n') :
    lines (c :: cs) =
      match lines cs with
      | [] => [[c]]
      | l :: ls => (c :: l) :: ls := by
  refine lines.eq_4 c cs ?_ hfeed
  rintro rest rfl rfl
  exact hreturn rfl rfl

/-- Characters before a line feed shift nothing in the lines after it. -/
theorem ShowsAt.newline {pos place : Position} {ls : List (List Char)} {c : Char} {column : Nat}
    (h : ShowsAt ⟨pos.line + 1, 1⟩ place ls c) : ShowsAt ⟨pos.line, column⟩ place ([] :: ls) c := by
  obtain ⟨hbelow, hright, hcounted, l, hl, hc⟩ := h
  dsimp only at hbelow hright hcounted hl hc
  have hline : place.line - pos.line = place.line - (pos.line + 1) + 1 := by omega
  refine ⟨by dsimp only; omega, fun heq => by dsimp only at heq; omega, fun _ => ?_, l, ?_, ?_⟩
  · by_cases hsame : place.line = pos.line + 1
    · exact hright hsame
    · exact hcounted (by omega)
  · dsimp only
    rw [hline]
    exact hl
  · dsimp only
    rw [if_neg (by omega)]
    split at hc <;> exact hc

theorem ShowsAt.cons {pos place : Position} {l : List Char} {ls : List (List Char)} {c d : Char}
    (h : ShowsAt ⟨pos.line, pos.column + 1⟩ place (l :: ls) c) :
    ShowsAt pos place ((d :: l) :: ls) c := by
  obtain ⟨hbelow, hright, hcounted, l', hl, hc⟩ := h
  dsimp only at hbelow hright hcounted hl hc
  by_cases hsame : place.line = pos.line
  · have hcolumn := hright hsame
    refine ⟨hbelow, fun _ => by omega, hcounted, d :: l, ?_, ?_⟩
    · rw [hsame, Nat.sub_self]
      rfl
    · rw [hsame, Nat.sub_self, List.getElem?_cons_zero] at hl
      cases hl
      have hshift : place.column - pos.column = place.column - (pos.column + 1) + 1 := by omega
      rw [if_pos hsame, hshift, List.getElem?_cons_succ]
      rwa [if_pos hsame] at hc
  · have hline : place.line - pos.line = place.line - pos.line - 1 + 1 := by omega
    refine ⟨hbelow, fun heq => absurd heq hsame, hcounted, l', ?_, ?_⟩
    · rw [hline, List.getElem?_cons_succ] at hl ⊢
      exact hl
    · rw [if_neg hsame] at hc ⊢
      exact hc

theorem lines_ne_nil {cs : List Char} (h : cs ≠ []) : lines cs ≠ [] := by
  fun_cases lines cs <;> simp_all

theorem ShowsAt.lines_cons {pos place : Position} {c d : Char} {cs : List Char} (hcs : cs ≠ [])
    (hfeed : d ≠ '\n') (hreturn : d = '\r' → cs.head? ≠ some '\n')
    (h : ShowsAt (pos.next d) place (lines cs) c) : ShowsAt pos place (lines (d :: cs)) c := by
  have hnext : pos.next d = ⟨pos.line, pos.column + 1⟩ := if_neg hfeed
  rw [hnext] at h
  rw [Report.lines_cons hfeed hreturn]
  split
  · rename_i hnil
    exact absurd hnil (lines_ne_nil hcs)
  · rename_i l ls hlines
    rw [hlines] at h
    exact h.cons

theorem lines_showsAt {c : Char} (hfeed : c ≠ '\n') (hreturn : c ≠ '\r') (pos : Position)
    (before after : List Char) :
    ShowsAt pos (pos.after before) (lines (before ++ c :: after)) c := by
  -- a line feed that follows a carriage return at the end of `before` would be `c`
  have hhead (d : Char) (before : List Char)
      (hpair : ∀ rest, d = '\r' → before = '\n' :: rest → False) :
      d = '\r' → (before ++ c :: after).head? ≠ some '\n' := by
    intro hd hhead
    cases before with
    | nil => exact hfeed (by simpa using hhead)
    | cons b before =>
      obtain rfl : b = '\n' := by simpa using hhead
      exact hpair before hd rfl
  induction before using lines.induct generalizing pos with
  | case1 =>
    refine ⟨Nat.le_refl _, fun _ => Nat.le_refl _, fun h => absurd h (Nat.lt_irrefl _), ?_⟩
    rw [List.nil_append, lines_cons hfeed fun h => absurd h hreturn, Position.after_nil,
      Nat.sub_self, if_pos rfl, Nat.sub_self]
    split
    · exact ⟨_, rfl, rfl⟩
    · exact ⟨_, rfl, rfl⟩
  | case2 before ih => exact (ih ⟨pos.line + 1, 1⟩).newline
  | case3 before ih => exact (ih ⟨pos.line + 1, 1⟩).newline
  | case4 d before hpair hd _ ih =>
    exact (ih (pos.next d)).lines_cons (by simp) hd (hhead d before hpair)
  | case5 d before hpair hd _ _ _ ih =>
    exact (ih (pos.next d)).lines_cons (by simp) hd (hhead d before hpair)

end Report

end ExprLang
