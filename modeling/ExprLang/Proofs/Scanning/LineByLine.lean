import ExprLang.Proofs.Printing.Lexemes

namespace ExprLang

namespace Text.Quoted

/-- A literal that does not close before a line feed does not close. -/
theorem body?_append_newline (cs below : List Char) :
    body? (cs ++ '\n' :: below) =
      (body? cs).map fun (body, rest) => (body, rest ++ '\n' :: below) := by
  fun_induction body? cs with
  | case1 => simp [body?]
  | case2 => rfl
  | case3 c rest hc ih =>
    rw [List.cons_append, List.cons_append, body?, if_pos hc, ih, Option.map_map, Option.map_map]
    rfl
  | case4 c rest hc =>
    rw [List.cons_append, List.cons_append, body?, if_neg hc]
    rfl
  | case5 c rest hquote hescape hc =>
    -- A backslash at the end of the upper text finds a line feed, which no escape has.
    rcases hc with rfl | rfl
    · cases rest with
      | nil => rfl
      | cons d rest => exact (hescape d rest rfl rfl).elim
    · simp [body?]
  | case6 c rest hquote hescape hc ih =>
    obtain ⟨hbackslash, hnewline⟩ := not_or.1 hc
    rw [List.cons_append, body?_cons hquote hbackslash hnewline, ih, Option.map_map, Option.map_map]
    rfl

end Text.Quoted

namespace Lexeme

theorem run_append_newline {p : Char → Bool} (hp : p '\n' = false) (cs below : List Char) :
    (cs ++ '\n' :: below).takeWhile p = cs.takeWhile p ∧
      (cs ++ '\n' :: below).dropWhile p = cs.dropWhile p ++ '\n' :: below := by
  induction cs with
  | nil => simp [hp]
  | cons c cs ih =>
    by_cases hc : p c = true
    · simp [hc, ih]
    · simp [hc]

theorem startsDouble_append_newline (c : Char) (cs below : List Char) :
    startsDouble c (cs ++ '\n' :: below) = startsDouble c cs := by
  cases cs with
  | nil => simp [startsDouble, doubles]
  | cons d cs => rfl

theorem leading_append_newline (c : Char) (cs below : List Char) :
    leading c (cs ++ '\n' :: below) = ((leading c cs).1, (leading c cs).2 ++ '\n' :: below) := by
  have hdigits := run_append_newline (p := Char.isDigit) rfl cs below
  have hquoted := run_append_newline (p := (· != '\n')) rfl cs below
  have hparts := run_append_newline (p := isWordPart) rfl cs below
  rw [leading, leading, hdigits.1, hdigits.2, hquoted.1, hquoted.2, hparts.1, hparts.2,
    Text.Quoted.body?_append_newline, startsDouble_append_newline]
  split
  · rfl
  split
  · rfl
  split
  · cases Text.Quoted.body? cs <;> rfl
  split
  · rfl
  split
  · rename_i hdouble
    cases cs with
    | nil => cases hdouble
    | cons d cs => rfl
  split
  · rfl
  split <;> rfl

end Lexeme

/-- The place so many lines further down, in the same column. -/
def Position.lower (n : Nat) (p : Position) : Position := { p with line := p.line + n }

theorem Position.after_lower (n : Nat) (p : Position) (cs : List Char) :
    (p.lower n).after cs = (p.after cs).lower n := by
  induction cs generalizing p with
  | nil => rfl
  | cons c cs ih =>
    have hnext : (p.lower n).next c = (p.next c).lower n := by
      by_cases hc : c = '\n'
      · simp [next, lower, hc]
        omega
      · simp [next, lower, hc]
    rw [after_cons, after_cons, hnext, ih]

theorem Position.line_after (p : Position) (cs : List Char) :
    (p.after cs).line = p.line + cs.count '\n' := by
  induction cs generalizing p with
  | nil => rfl
  | cons c cs ih =>
    rw [after_cons, ih, next]
    by_cases hc : c = '\n'
    · rw [if_pos hc, hc, List.count_cons_self, Nat.add_assoc, Nat.add_comm 1]
    · rw [if_neg hc, List.count_cons_of_ne hc]

theorem Position.start_after_newline (cs : List Char) :
    start.after (cs ++ ['\n']) = start.lower (cs.count '\n' + 1) := by
  have hline := line_after start cs
  rw [after_append, after_cons, after_nil, next, if_pos rfl, hline]
  rfl

namespace Token

open Lexeme

def lowered (n : Nat) : Except LexicalError (List Token) → Except LexicalError (List Token)
  | .ok ts => .ok (ts.map (move (.lower n)))
  | .error e => .error (e.move (.lower n))

theorem scan_lower (n : Nat) (pos : Position) (cs : List Char) :
    scan (pos.lower n) cs = lowered n (scan pos cs) := by
  induction pos, cs using scan_induction with
  | nil pos =>
    rw [scan_nil, scan_nil]
    rfl
  | blank pos c cs hc ih =>
    rw [scan_blank hc, scan_blank hc, ← ih]
    exact congrArg (scan · cs) (Position.after_lower n pos [c])
  | lexeme pos c cs hc ih =>
    rw [scan_cons hc, scan_cons hc, Position.after_lower, ih]
    cases (leading c cs).1.tokenKind with
    | error fault => rfl
    | ok kind =>
      dsimp only
      cases scan (pos.after (leading c cs).1.text) (leading c cs).2 <;> rfl

theorem scan_append_newline (pos : Position) (cs below : List Char) :
    scan pos (cs ++ '\n' :: below) = (do
      let ts ← scan pos cs
      let us ← scan (pos.after (cs ++ ['\n'])) below
      return ts ++ us) := by
  induction pos, cs using scan_induction with
  | nil pos =>
    rw [List.nil_append, scan_blank rfl, scan_nil]
    exact (bind_pure _).symm
  | blank pos c cs hc ih =>
    rw [List.cons_append, scan_blank hc, scan_blank hc, ih]
    rfl
  | lexeme pos c cs hc ih =>
    have hpos : pos.after (c :: cs ++ ['\n']) =
        (pos.after (leading c cs).1.text).after ((leading c cs).2 ++ ['\n']) := by
      rw [← Position.after_append, ← List.append_assoc, leading_append]
    rw [List.cons_append, scan_cons hc, scan_cons hc, leading_append_newline, hpos, ih]
    cases (leading c cs).1.tokenKind with
    | error fault => rfl
    | ok kind =>
      dsimp only
      cases scan (pos.after (leading c cs).1.text) (leading c cs).2 with
      | error e => rfl
      | ok ts =>
        cases scan ((pos.after (leading c cs).1.text).after ((leading c cs).2 ++ ['\n'])) below <;>
          rfl

/-- Two texts with a line feed between them: the error of the upper one, if it has one; else that of
the lower one, and else the tokens of both. What comes from the lower one stands one line further
down for each line feed above it, in the same column. -/
theorem ofSource_append_newline (above below : String) :
    ofSource (above ++ "\n" ++ below) = (do
      let ts ← ofSource above
      let us ← lowered (above.toList.count '\n' + 1) (ofSource below)
      return ts ++ us) := by
  have htext : (above ++ "\n" ++ below).toList = above.toList ++ '\n' :: below.toList := by
    rw [String.toList_append, String.toList_append, List.append_assoc]
    rfl
  rw [ofSource_eq_scan, ofSource_eq_scan, ofSource_eq_scan, htext, scan_append_newline,
    Position.start_after_newline, scan_lower]

end Token

end ExprLang
