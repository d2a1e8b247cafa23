import ExprLang.Position
import ExprLang.Text.Quoted

namespace ExprLang

/-- The classes of lexemes. A broken string is a quote whose literal does not close on its line. -/
inductive Lexeme.Class where
  | integer | string | word | operator | punctuation | brokenString | unknown
deriving DecidableEq

structure Lexeme where
  kind : Lexeme.Class
  text : List Char

namespace Lexeme

def isBlank (c : Char) : Bool := c == ' ' || c == '\t' || c == '\r' || c == '\n'

def isWordStart (c : Char) : Bool := c.isAlpha || c == '_'

def isWordPart (c : Char) : Bool := c.isAlphanum || c == '_'

def doubles : List (Char × Char) :=
  [('*', '*'), ('=', '='), ('!', '='), ('<', '='), ('>', '='), ('!', '^'), ('<', '-')]

def singles : List Char := ['+', '-', '*', '/', '%', '<', '>', '&', '|', '^', '!', '~']

def punctuationMarks : List Char := [':', ',', '=', '(', ')', '[', ']', '\x7b', '\x7d']

theorem body?_append {cs body rest : List Char} (h : Text.Quoted.body? cs = some (body, rest)) :
    body ++ '"' :: rest = cs := by
  fun_induction Text.Quoted.body? cs generalizing body rest with
  | case1 => simp at h
  | case2 => simp_all
  | case3 c r hc ih =>
    simp only [Option.map_eq_some_iff, Prod.mk.injEq, Prod.exists] at h
    obtain ⟨b, r', hb, rfl, rfl⟩ := h
    simp [ih hb]
  | case4 => simp at h
  | case5 => simp at h
  | case6 c r _ _ hc ih =>
    simp only [Option.map_eq_some_iff, Prod.mk.injEq, Prod.exists] at h
    obtain ⟨b, r', hb, rfl, rfl⟩ := h
    simp [ih hb]

/-- A rule splits a text into what it takes from its head, which is never nothing, and the rest. -/
structure Rule where
  split : List Char → Option (List Char × List Char)
  append : ∀ {cs text rest}, split cs = some (text, rest) → text ++ rest = cs ∧ text ≠ []

namespace Rule

def single (p : Char → Bool) : Rule where
  split
    | [] => none
    | c :: cs => if p c then some ([c], cs) else none
  append {cs _ _} h := by
    cases cs with
    | nil => cases h
    | cons c cs =>
      dsimp only at h
      split at h <;> cases h
      exact ⟨rfl, List.cons_ne_nil _ _⟩

/-- One of these pairs of characters. -/
def pair (pairs : List (Char × Char)) : Rule where
  split
    | c :: d :: cs => if pairs.contains (c, d) then some ([c, d], cs) else none
    | _ => none
  append {cs _ _} h := by
    split at h
    · split at h <;> cases h
      exact ⟨rfl, List.cons_ne_nil _ _⟩
    · cases h

/-- A character of one class, with all characters of another class that follow it. -/
def run (start part : Char → Bool) : Rule where
  split
    | [] => none
    | c :: cs => if start c then some (c :: cs.takeWhile part, cs.dropWhile part) else none
  append {cs _ _} h := by
    cases cs with
    | nil => cases h
    | cons c cs =>
      dsimp only at h
      split at h <;> cases h
      rw [List.cons_append, List.takeWhile_append_dropWhile]
      exact ⟨rfl, List.cons_ne_nil _ _⟩

/-- A string that is closed on its line. -/
def quoted : Rule where
  split
    | [] => none
    | c :: cs =>
      if c = '"' then (Text.Quoted.body? cs).map fun (body, rest) => (c :: (body ++ ['"']), rest)
      else none
  append {cs _ _} h := by
    cases cs with
    | nil => cases h
    | cons c cs =>
      dsimp only at h
      split at h
      · obtain ⟨⟨body, rest⟩, hbody, heq⟩ := Option.map_eq_some_iff.1 h
        cases heq
        rw [List.cons_append, List.append_assoc, List.singleton_append, body?_append hbody]
        exact ⟨rfl, List.cons_ne_nil _ _⟩
      · cases h

/-- The second rule is tried where the first one does not apply. -/
def orElse (r s : Rule) : Rule where
  split cs := (r.split cs).or (s.split cs)
  append h := by
    obtain h | ⟨_, h⟩ := Option.or_eq_some_iff.1 h
    · exact r.append h
    · exact s.append h

end Rule

open Rule in
/-- The rules for each class in the order in which they are tried. An integer has no leading zero,
and an operator of two characters goes before one of one. -/
def rules : List (Class × Rule) :=
  [(.integer, (single (· == '0')).orElse (run Char.isDigit Char.isDigit)),
    (.string, quoted),
    (.brokenString, run (· == '"') (· != '\n')),
    (.word, run isWordStart isWordPart),
    (.operator, (pair doubles).orElse (single singles.contains)),
    (.punctuation, single punctuationMarks.contains),
    (.unknown, single fun _ => true)]

/-- The lexeme that the first rule to apply takes, and the rest. -/
def first? (cs : List Char) : Option (Lexeme × List Char) :=
  rules.findSome? fun (cls, rule) => (rule.split cs).map fun (text, rest) => (⟨cls, text⟩, rest)

theorem first?_append {cs rest : List Char} {lexeme : Lexeme}
    (h : first? cs = some (lexeme, rest)) : lexeme.text ++ rest = cs ∧ lexeme.text ≠ [] := by
  obtain ⟨r, _, hfirst⟩ := List.exists_of_findSome?_eq_some h
  obtain ⟨⟨text, rest⟩, htaken, heq⟩ := Option.map_eq_some_iff.1 hfirst
  cases heq
  exact r.2.append htaken

theorem length_first?_rest {cs rest : List Char} {lexeme : Lexeme}
    (h : first? cs = some (lexeme, rest)) : rest.length < cs.length := by
  obtain ⟨rfl, hne⟩ := first?_append h
  have hpos := List.length_pos_iff.2 hne
  rw [List.length_append]
  omega

/-- Lexemes for as long as a rule applies after the blanks, each with its place, and the place and
the text where they end. -/
def takeAll (pos : Position) : List Char → List (Position × Lexeme) × Position × List Char
  | [] => ([], pos, [])
  | c :: cs =>
    if isBlank c then takeAll (pos.next c) cs
    else
      match _h : first? (c :: cs) with
      | none => ([], pos, c :: cs)
      | some (lexeme, rest) =>
        let (lexemes, stop) := takeAll (pos.after lexeme.text) rest
        ((pos, lexeme) :: lexemes, stop)
termination_by cs => cs.length
decreasing_by
  · exact Nat.lt_succ_self _
  · exact length_first?_rest _h

end Lexeme

end ExprLang
