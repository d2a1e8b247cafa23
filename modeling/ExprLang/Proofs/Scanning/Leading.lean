import ExprLang.Token.Scanner

namespace ExprLang

namespace Lexeme

def startsDouble (c : Char) (cs : List Char) : Bool :=
  cs.head?.any fun d => doubles.contains (c, d)

/-- What the rules make of the nonempty text `c :: cs`, by its first character. -/
def leading (c : Char) (cs : List Char) : Lexeme × List Char :=
  if c = '0' then (⟨.integer, [c]⟩, cs)
  else if c.isDigit then
    (⟨.integer, c :: cs.takeWhile Char.isDigit⟩, cs.dropWhile Char.isDigit)
  else if c = '"' then
    match Text.Quoted.body? cs with
    | some (body, rest) => (⟨.string, c :: (body ++ ['"'])⟩, rest)
    | none => (⟨.brokenString, c :: cs.takeWhile (· != '\n')⟩, cs.dropWhile (· != '\n'))
  else if isWordStart c then
    (⟨.word, c :: cs.takeWhile isWordPart⟩, cs.dropWhile isWordPart)
  else if startsDouble c cs then (⟨.operator, c :: cs.take 1⟩, cs.drop 1)
  else if singles.contains c then (⟨.operator, [c]⟩, cs)
  else if punctuationMarks.contains c then (⟨.punctuation, [c]⟩, cs)
  else (⟨.unknown, [c]⟩, cs)

theorem pair_split (c : Char) (cs : List Char) :
    (Rule.pair doubles).split (c :: cs) =
      if startsDouble c cs then some (c :: cs.take 1, cs.drop 1) else none := by
  cases cs <;> rfl

/-- Some rule applies to every character. -/
theorem first?_cons (c : Char) (cs : List Char) : first? (c :: cs) = some (leading c cs) := by
  simp only [first?, rules, List.findSome?_cons, Rule.orElse, pair_split]
  simp only [Rule.single, Rule.run, Rule.quoted, leading, beq_iff_eq]
  by_cases hzero : c = '0'
  · simp only [if_pos hzero]
    rfl
  by_cases hdigit : c.isDigit = true
  · simp only [if_neg hzero, if_pos hdigit]
    rfl
  by_cases hquote : c = '"'
  · simp only [if_neg hzero, if_neg hdigit, if_pos hquote]
    cases Text.Quoted.body? cs <;> rfl
  simp only [if_neg hzero, if_neg hdigit, if_neg hquote]
  by_cases hword : isWordStart c = true
  · simp only [if_pos hword]
    rfl
  simp only [if_neg hword]
  by_cases hdouble : startsDouble c cs = true
  · simp only [if_pos hdouble]
    rfl
  simp only [if_neg hdouble]
  by_cases hsingle : singles.contains c = true
  · simp only [if_pos hsingle]
    rfl
  simp only [if_neg hsingle]
  by_cases hmark : punctuationMarks.contains c = true
  · simp only [if_pos hmark]
    rfl
  · simp only [if_neg hmark]
    rfl

theorem leading_append (c : Char) (cs : List Char) :
    (leading c cs).1.text ++ (leading c cs).2 = c :: cs :=
  (first?_append (first?_cons c cs)).1

theorem leading_text_ne_nil (c : Char) (cs : List Char) : (leading c cs).1.text ≠ [] :=
  (first?_append (first?_cons c cs)).2

theorem takeAll_nil (pos : Position) : takeAll pos [] = ([], pos, []) := by rw [takeAll]

theorem takeAll_blank {c : Char} (hc : isBlank c = true) (pos : Position) (cs : List Char) :
    takeAll pos (c :: cs) = takeAll (pos.next c) cs := by
  rw [takeAll, if_pos hc]

theorem takeAll_cons {c : Char} (hc : isBlank c = false) (pos : Position) (cs : List Char) :
    takeAll pos (c :: cs) =
      ((pos, (leading c cs).1) ::
          (takeAll (pos.after (leading c cs).1.text) (leading c cs).2).1,
        (takeAll (pos.after (leading c cs).1.text) (leading c cs).2).2) := by
  rw [takeAll, if_neg (Bool.eq_false_iff.1 hc)]
  split
  · rename_i hnone
    cases (first?_cons c cs).symm.trans hnone
  · rename_i hsome
    rw [Option.some.inj ((first?_cons c cs).symm.trans hsome)]

end Lexeme

namespace Token

open Lexeme

theorem scan_induction {motive : Position → List Char → Prop} (nil : ∀ pos, motive pos [])
    (blank : ∀ pos c cs, isBlank c = true → motive (pos.next c) cs → motive pos (c :: cs))
    (lexeme : ∀ pos c cs, isBlank c = false →
      motive (pos.after (leading c cs).1.text) (leading c cs).2 → motive pos (c :: cs))
    (pos : Position) (cs : List Char) : motive pos cs := by
  induction hn : cs.length using Nat.strongRecOn generalizing pos cs with
  | ind n ih =>
    cases cs with
    | nil => exact nil pos
    | cons c cs =>
      have hrest : (leading c cs).2.length < (c :: cs).length :=
        length_first?_rest (first?_cons c cs)
      rw [List.length_cons] at hn hrest
      cases hc : isBlank c with
      | true => exact blank pos c cs hc (ih cs.length (by omega) _ cs rfl)
      | false => exact lexeme pos c cs hc (ih _ (by omega) _ _ rfl)

/-- The lexemes of a text end where the text does. -/
theorem takeAll_stop (pos : Position) (cs : List Char) :
    (takeAll pos cs).2 = (pos.after cs, []) := by
  induction pos, cs using scan_induction with
  | nil pos => rw [takeAll_nil, Position.after_nil]
  | blank pos c cs hc ih => rw [takeAll_blank hc, ih, Position.after_cons]
  | lexeme pos c cs hc ih => rw [takeAll_cons hc, ih, ← Position.after_append, leading_append]

/-- The tokens of a text whose first character stands at `pos`. -/
def scan (pos : Position) (cs : List Char) : Except LexicalError (List Token) :=
  ofLexemes (takeAll pos cs).1

theorem scan_nil (pos : Position) : scan pos [] = .ok [] := by
  rw [scan, takeAll_nil]
  rfl

theorem scan_blank {pos : Position} {c : Char} (hc : isBlank c = true) (cs : List Char) :
    scan pos (c :: cs) = scan (pos.next c) cs := by
  rw [scan, takeAll_blank hc, scan]

theorem scan_cons {pos : Position} {c : Char} (hc : isBlank c = false) (cs : List Char) :
    scan pos (c :: cs) =
      match (leading c cs).1.tokenKind with
      | .error fault => .error ⟨fault, pos⟩
      | .ok kind =>
        match scan (pos.after (leading c cs).1.text) (leading c cs).2 with
        | .error e => .error e
        | .ok ts => .ok (⟨kind, String.ofList (leading c cs).1.text, pos⟩ :: ts) := by
  rw [scan, takeAll_cons hc, ofLexemes, ofLexeme, ← scan]
  cases (leading c cs).1.tokenKind with
  | error fault => rfl
  | ok kind => cases scan (pos.after (leading c cs).1.text) (leading c cs).2 <;> rfl

theorem lexemes_ofSource (source : String) :
    Lexeme.ofSource source = .ok (takeAll .start source.toList).1 := by
  have hstop := takeAll_stop .start source.toList
  rw [Lexeme.ofSource]
  generalize takeAll .start source.toList = taken at hstop
  obtain ⟨lexemes, stop⟩ := taken
  dsimp only at hstop
  rw [hstop]

theorem ofSource_eq_scan (source : String) : ofSource source = scan .start source.toList := by
  rw [ofSource, lexemes_ofSource]
  rfl

end Token

end ExprLang
