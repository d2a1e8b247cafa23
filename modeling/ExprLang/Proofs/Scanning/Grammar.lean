import ExprLang.Proofs.Printing.Lexemes
import Mathlib.Data.List.TakeWhile

namespace ExprLang

namespace Text.Quoted

/-- The letters of the escapes, each with the character that it stands for. -/
def escapes : List (Char × Char) :=
  [('t', '\t'), ('r', '\r'), ('n', '\n'), ('\\', '\\'), ('"', '"')]

/-- The written body of a literal, and the characters that it stands for. -/
inductive StandsFor : List Char → List Char → Prop
  | nil : StandsFor [] []
  | plain {c : Char} {body cs : List Char} (hquote : c ≠ '"') (hbackslash : c ≠ '\\')
    (hnewline : c ≠ '\n') (h : StandsFor body cs) : StandsFor (c :: body) (c :: cs)
  | escape {letter c : Char} {body cs : List Char} (hletter : (letter, c) ∈ escapes)
    (h : StandsFor body cs) : StandsFor ('\\' :: letter :: body) (c :: cs)

theorem unescape?_eq_some_iff {letter c : Char} :
    unescape? letter = some c ↔ (letter, c) ∈ escapes := by
  unfold unescape?
  split <;> simp_all [escapes, eq_comm]

theorem StandsFor.body? {body cs : List Char} (h : StandsFor body cs) (rest : List Char) :
    body? (body ++ '"' :: rest) = some (body, rest) := by
  induction h with
  | nil => rfl
  | plain hquote hbackslash hnewline _ ih =>
    rw [List.cons_append, body?_cons hquote hbackslash hnewline, ih]
    rfl
  | escape hletter _ ih =>
    rw [List.cons_append, List.cons_append, body?_escape (unescape?_eq_some_iff.2 hletter), ih]
    rfl

theorem StandsFor.decode? {body cs : List Char} (h : StandsFor body cs) :
    decode? body = some cs := by
  induction h with
  | nil => rfl
  | plain _ hbackslash _ _ ih =>
    rw [decode?_cons hbackslash, ih]
    rfl
  | escape hletter _ ih =>
    rw [decode?_escape (unescape?_eq_some_iff.2 hletter), ih]
    rfl

theorem exists_standsFor {text body rest : List Char} (h : body? text = some (body, rest)) :
    ∃ cs, StandsFor body cs := by
  fun_induction Quoted.body? text generalizing body rest with
  | case1 => cases h
  | case2 =>
    cases h
    exact ⟨[], .nil⟩
  | case3 letter text hletter ih =>
    obtain ⟨⟨inner, _⟩, hinner, heq⟩ := Option.map_eq_some_iff.1 h
    cases heq
    obtain ⟨c, hc⟩ := Option.isSome_iff_exists.1 hletter
    obtain ⟨cs, hcs⟩ := ih hinner
    exact ⟨c :: cs, .escape (unescape?_eq_some_iff.1 hc) hcs⟩
  | case4 => cases h
  | case5 => cases h
  | case6 c text hquote _ hplain ih =>
    obtain ⟨⟨inner, _⟩, hinner, heq⟩ := Option.map_eq_some_iff.1 h
    cases heq
    obtain ⟨hbackslash, hnewline⟩ := not_or.1 hplain
    obtain ⟨cs, hcs⟩ := ih hinner
    exact ⟨c :: cs, .plain hquote hbackslash hnewline hcs⟩

end Text.Quoted

open Text.Quoted

namespace Lexeme

def operators : List String :=
  ["**", "==", "!=", "<=", ">=", "!^", "<-",
    "+", "-", "*", "/", "%", "<", ">", "&", "|", "^", "!", "~"]

def marks : List String := [":", ",", "=", "(", ")", "[", "]", "\x7b", "\x7d"]

/-- The lexemes of each class. Nothing is one of the classes that are no tokens. -/
inductive Spelled : Class → List Char → Prop
  | word {c : Char} {cs : List Char} (hc : c.isAlpha = true ∨ c = '_')
    (hcs : ∀ d ∈ cs, d.isAlphanum = true ∨ d = '_') : Spelled .word (c :: cs)
  | zero : Spelled .integer ['0']
  | positive {c : Char} {cs : List Char} (hc : c.isDigit = true) (hzero : c ≠ '0')
    (hcs : ∀ d ∈ cs, d.isDigit = true) : Spelled .integer (c :: cs)
  | string {body cs : List Char} (h : StandsFor body cs) :
    Spelled .string ('"' :: (body ++ ['"']))
  | operator {cs : List Char} (h : String.ofList cs ∈ operators) : Spelled .operator cs
  | punctuation {cs : List Char} (h : String.ofList cs ∈ marks) : Spelled .punctuation cs

/-- The words that are no identifiers. -/
def reserved : List String := ["true", "false", "if", "then", "else", "let", "in", "of"]

/-- The kind of token that a lexeme denotes: an integer denotes the number that its digits write,
and a string the code points of the characters that its body stands for. -/
inductive Denotes : List Char → Token.Kind → Prop
  | identifier {cs : List Char} (h : Spelled .word cs) (hfree : String.ofList cs ∉ reserved) :
    Denotes cs .identifier
  | bool (b : Bool) : Denotes (if b then "true" else "false").toList (.bool b)
  | keyword (k : Keyword) : Denotes k.spelling.toList (.keyword k)
  | int {n : Int64} {k : Nat} (hk : n.toInt = k) : Denotes (Nat.toDigits 10 k) (.int n)
  | str {body cs : List Char} {codes : List Int64} (h : StandsFor body cs)
    (hcodes : codes.map Int64.toInt = cs.map fun c => (c.toNat : Int)) :
    Denotes ('"' :: (body ++ ['"'])) (.str codes)
  | operator {cs : List Char} (h : String.ofList cs ∈ operators) :
    Denotes cs (.symbol .operator)
  | punctuation {cs : List Char} (h : String.ofList cs ∈ marks) :
    Denotes cs (.symbol .punctuation)

/-- The classes of lexemes that make no token. -/
def Class.isFaulty : Class → Bool
  | brokenString | unknown => true
  | _ => false

theorem isWordStart_iff {c : Char} : isWordStart c = true ↔ c.isAlpha = true ∨ c = '_' := by
  rw [isWordStart, Bool.or_eq_true, beq_iff_eq]

theorem isWordPart_iff {c : Char} : isWordPart c = true ↔ c.isAlphanum = true ∨ c = '_' := by
  rw [isWordPart, Bool.or_eq_true, beq_iff_eq]

theorem Spelled.word_of_all {c : Char} {cs : List Char} (hc : isWordStart c = true)
    (hcs : cs.all isWordPart = true) : Spelled .word (c :: cs) :=
  .word (isWordStart_iff.1 hc) fun d hd => isWordPart_iff.1 (List.all_eq_true.1 hcs d hd)

section Symbols

variable {text : List Char} {c d : Char}

theorem operators_cases (h : String.ofList text ∈ operators) :
    (∃ c ∈ singles, text = [c]) ∨ ∃ p ∈ doubles, text = [p.1, p.2] := by
  have hall : operators.all (fun text => singles.any (fun c => text.toList == [c]) ||
      doubles.any fun p => text.toList == [p.1, p.2]) = true := by decide
  have htext := List.all_eq_true.1 hall _ h
  simpa only [Bool.or_eq_true, List.any_eq_true, beq_iff_eq, String.toList_ofList] using htext

theorem marks_cases (h : String.ofList text ∈ marks) : ∃ c ∈ punctuationMarks, text = [c] := by
  have hall : marks.all (fun text => punctuationMarks.any fun c => text.toList == [c]) = true := by
    decide
  have htext := List.all_eq_true.1 hall _ h
  simpa only [List.any_eq_true, beq_iff_eq, String.toList_ofList] using htext

theorem Spelled.single (h : c ∈ singles) : Spelled .operator [c] := by
  have hall : singles.all (fun c => operators.contains (String.ofList [c])) = true := by decide
  exact .operator (List.contains_iff_mem.1 (List.all_eq_true.1 hall c h))

theorem Spelled.double (h : (c, d) ∈ doubles) : Spelled .operator [c, d] := by
  have hall : doubles.all (fun p => operators.contains (String.ofList [p.1, p.2])) = true := by
    decide
  exact .operator (List.contains_iff_mem.1 (List.all_eq_true.1 hall (c, d) h))

theorem Spelled.mark (h : c ∈ punctuationMarks) : Spelled .punctuation [c] := by
  have hall : punctuationMarks.all (fun c => marks.contains (String.ofList [c])) = true := by
    decide
  exact .punctuation (List.contains_iff_mem.1 (List.all_eq_true.1 hall c h))

end Symbols

section Leading

variable {c : Char} {cs rest : List Char} {lexeme : Lexeme}

theorem spelled_of_leading (h : leading c cs = (lexeme, rest))
    (hclass : lexeme.kind.isFaulty = false) : Spelled lexeme.kind lexeme.text := by
  unfold leading at h
  split at h
  · rename_i hzero
    cases h
    rw [hzero]
    exact .zero
  rename_i hzero
  split at h
  · rename_i hdigit
    cases h
    exact .positive hdigit hzero fun d hd => List.mem_takeWhile_imp hd
  split at h
  · rename_i hquote
    split at h
    · rename_i hbody
      cases h
      obtain ⟨chars, hchars⟩ := exists_standsFor hbody
      rw [hquote]
      exact .string hchars
    · cases h
      cases hclass
  split at h
  · rename_i hword
    cases h
    have hparts (d : Char) (hd : d ∈ cs.takeWhile isWordPart) : isWordPart d = true :=
      List.mem_takeWhile_imp hd
    exact .word (isWordStart_iff.1 hword) fun d hd => isWordPart_iff.1 (hparts d hd)
  split at h
  · rename_i hdouble
    cases h
    cases cs with
    | nil => cases hdouble
    | cons d cs => exact .double (List.contains_iff_mem.1 hdouble)
  split at h
  · rename_i hsingle
    cases h
    exact .single (List.contains_iff_mem.1 hsingle)
  split at h
  · rename_i hmark
    cases h
    exact .mark (List.contains_iff_mem.1 hmark)
  · cases h
    cases hclass

theorem length_le_takeWhile {p : Char → Bool} {run : List Char} (hrun : ∀ d ∈ run, p d = true)
    (h : run <+: cs) : run.length ≤ (cs.takeWhile p).length := by
  obtain ⟨rest, rfl⟩ := h
  rw [List.takeWhile_append_of_pos hrun, List.length_append]
  exact Nat.le_add_right _ _

theorem leading_of_isWordStart (hc : isWordStart c = true) :
    (leading c cs).1 = ⟨.word, c :: cs.takeWhile isWordPart⟩ := by
  have hend : (cs.dropWhile isWordPart).head?.all endsWord = true := by
    have hhead := List.head?_dropWhile_not isWordPart cs
    cases hd : (cs.dropWhile isWordPart).head? with
    | none => rfl
    | some d =>
      rw [hd] at hhead
      exact congrArg not hhead
  have hparts : ∀ d ∈ cs.takeWhile isWordPart, isWordPart d = true :=
    fun d => List.mem_takeWhile_imp
  have hleading := leading_word hc hparts hend
  rw [List.takeWhile_append_dropWhile] at hleading
  rw [hleading]

/-- A sign and the next character make an operator of two characters, or the sign stands alone. -/
theorem doubles_or_endsOperator (c : Char) (cs : List Char) :
    (∃ d rest, cs = d :: rest ∧ (c, d) ∈ doubles) ∨ cs.head?.all (endsOperator c) = true := by
  cases cs with
  | nil => exact .inr rfl
  | cons d rest =>
    by_cases h : (c, d) ∈ doubles
    · exact .inl ⟨d, rest, rfl, h⟩
    · simp [endsOperator, h]

/-- Where a text begins with a lexeme, the scanner takes one of the same class that is no shorter,
unless the lexeme is a sign that makes an operator with the next character. -/
theorem Spelled.taken {cls : Class} {text : List Char} (h : Spelled cls (c :: text))
    (htext : text <+: cs) :
    ((leading c cs).1.kind = cls ∧ text.length < (leading c cs).1.text.length) ∨
      (text = [] ∧ ∃ d rest, cs = d :: rest ∧ (c, d) ∈ doubles) := by
  cases h with
  | word hc hcs =>
    rw [leading_of_isWordStart (isWordStart_iff.2 hc)]
    have hlength := length_le_takeWhile (fun d hd => isWordPart_iff.2 (hcs d hd)) htext
    exact .inl ⟨rfl, Nat.lt_succ_of_le hlength⟩
  | zero => exact .inl ⟨rfl, Nat.zero_lt_one⟩
  | positive hc hzero hcs =>
    rw [leading, if_neg hzero, if_pos hc]
    exact .inl ⟨rfl, Nat.lt_succ_of_le (length_le_takeWhile hcs htext)⟩
  | @string body _ h =>
    obtain ⟨rest, rfl⟩ := htext
    have hbody : Text.Quoted.body? (body ++ ['"'] ++ rest) = some (body, rest) := by
      rw [List.append_assoc]
      exact h.body? rest
    rw [leading, if_neg (by decide), if_neg (by decide), if_pos rfl, hbody]
    exact .inl ⟨rfl, Nat.lt_succ_self _⟩
  | operator h =>
    rcases operators_cases h with ⟨d, hd, heq⟩ | ⟨⟨d, e⟩, hd, heq⟩
    · obtain ⟨rfl, rfl⟩ := List.cons.inj heq
      rcases doubles_or_endsOperator c cs with hdouble | hend
      · exact .inr ⟨rfl, hdouble⟩
      · rw [leading_single hd hend]
        exact .inl ⟨rfl, Nat.zero_lt_one⟩
    · obtain ⟨rfl, rfl⟩ := List.cons.inj heq
      obtain ⟨rest, rfl⟩ := htext
      rw [List.singleton_append, leading_double hd]
      exact .inl ⟨rfl, Nat.one_lt_two⟩
  | punctuation h =>
    -- A mark may begin an operator, as `=` begins `==`.
    obtain ⟨d, hd, heq⟩ := marks_cases h
    obtain ⟨rfl, rfl⟩ := List.cons.inj heq
    rcases doubles_or_endsOperator c cs with hdouble | hend
    · exact .inr ⟨rfl, hdouble⟩
    · rw [leading_mark hd hend]
      exact .inl ⟨rfl, Nat.zero_lt_one⟩

theorem Spelled.ne_nil {cls : Class} {text : List Char} (h : Spelled cls text) : text ≠ [] := by
  cases h with
  | operator h =>
    rintro rfl
    exact absurd h (by decide)
  | punctuation h =>
    rintro rfl
    exact absurd h (by decide)
  | _ => exact List.cons_ne_nil _ _

theorem Spelled.not_isFaulty {cls : Class} {text : List Char} (h : Spelled cls text) :
    cls.isFaulty = false := by
  cases h <;> rfl

theorem Spelled.not_isBlank {cls : Class} {text : List Char} (h : Spelled cls (c :: text)) :
    isBlank c = false := by
  cases h with
  | word hc _ => exact not_isBlank_of (isWordStart_iff.2 hc) rfl
  | zero => rfl
  | positive hc _ _ => exact not_isBlank_of hc rfl
  | string _ => rfl
  | operator h =>
    have hdoubles : doubles.all (fun p => !isBlank p.1) = true := rfl
    rcases operators_cases h with ⟨d, hd, heq⟩ | ⟨⟨d, e⟩, hd, heq⟩
    · cases heq
      exact not_isBlank_of (List.contains_iff_mem.2 hd) rfl
    · cases heq
      exact (Bool.not_eq_true' _).mp (List.all_eq_true.1 hdoubles _ hd)
  | punctuation h =>
    obtain ⟨d, hd, heq⟩ := marks_cases h
    cases heq
    exact not_isBlank_of (List.contains_iff_mem.2 hd) rfl

theorem Spelled.lt_leading {cls : Class} {text : List Char} (h : Spelled cls (c :: text))
    (htext : text <+: cs) :
    (leading c cs).1.kind.isFaulty = false ∧ text.length < (leading c cs).1.text.length := by
  rcases h.taken htext with ⟨hkind, hlength⟩ | ⟨rfl, d, rest, rfl, hdouble⟩
  · rw [hkind]
    exact ⟨h.not_isFaulty, hlength⟩
  · rw [leading_double hdouble]
    exact ⟨rfl, Nat.zero_lt_two⟩

theorem Spelled.unique {cls cls' : Class} {text : List Char} (h : Spelled cls text)
    (h' : Spelled cls' text) : cls = cls' := by
  have hclass {cls : Class} {c : Char} {cs : List Char} (h : Spelled cls (c :: cs)) :
      (leading c cs).1.kind = cls := by
    rcases h.taken (List.prefix_refl cs) with ⟨hkind, _⟩ | ⟨rfl, _, _, hcons, _⟩
    · exact hkind
    · cases hcons
  cases text with
  | nil => exact absurd rfl h.ne_nil
  | cons c cs => exact (hclass h).symm.trans (hclass h')

/-- A lexeme with a text after it, where no longer one begins. -/
structure Longest (lexeme rest : List Char) : Prop where
  spelled : ∃ cls, Spelled cls lexeme
  longest : ∀ cls other, Spelled cls other → other <+: lexeme ++ rest →
    other.length ≤ lexeme.length

theorem longest_of_leading (h : leading c cs = (lexeme, rest))
    (hclass : lexeme.kind.isFaulty = false) : Longest lexeme.text rest := by
  have happend := leading_append c cs
  rw [h] at happend
  constructor
  · exact ⟨_, spelled_of_leading h hclass⟩
  · intro cls other hother hprefix
    rw [happend] at hprefix
    cases other with
    | nil => exact Nat.zero_le _
    | cons d other =>
      obtain ⟨rfl, htail⟩ := List.cons_prefix_cons.1 hprefix
      have hlength := (hother.lt_leading htail).2
      rw [h] at hlength
      exact hlength

/-- The scanner takes the longest lexeme. -/
theorem Longest.taken {text : List Char} (h : Longest (c :: text) rest) :
    ∃ cls, Spelled cls (c :: text) ∧ leading c (text ++ rest) = (⟨cls, c :: text⟩, rest) := by
  obtain ⟨cls, hspelled⟩ := h.spelled
  obtain ⟨hclass, hlength⟩ := hspelled.lt_leading (List.prefix_append text rest)
  have htaken : Spelled (leading c (text ++ rest)).1.kind
      (leading c (text ++ rest)).1.text := spelled_of_leading rfl hclass
  have happend := leading_append c (text ++ rest)
  have hle := h.longest _ _ htaken ⟨_, happend⟩
  obtain ⟨htext, hrest⟩ := List.append_inj happend (Nat.le_antisymm hle hlength)
  refine ⟨_, htext ▸ htaken, Prod.ext ?_ hrest⟩
  rw [← htext]

end Leading

section Kinds

theorem digitChar_of_isDigit {d : Char} (hd : d.isDigit = true) :
    Nat.toDigits 10 (d.toNat - '0'.toNat) = [d] ∧ d.toNat - '0'.toNat < 10 := by
  obtain ⟨hge, hle⟩ := Char.isDigit_iff_toNat.1 hd
  have hzero : '0'.toNat = 48 := rfl
  have hnine : '9'.toNat = 57 := rfl
  have hlt : d.toNat - '0'.toNat < 10 := by omega
  have hchar : (d.toNat - '0'.toNat).digitChar = d := by
    apply Char.toNat_inj.1
    rw [Nat.toNat_digitChar_of_lt_ten hlt]
    omega
  rw [Nat.toDigits_of_lt_base hlt, hchar]
  exact ⟨rfl, hlt⟩

theorem toDigits_ofDigitChars {cs : List Char} (hcs : ∀ d ∈ cs, d.isDigit = true) {n : Nat}
    (hn : 0 < n) : Nat.toDigits 10 (Nat.ofDigitChars 10 cs n) = Nat.toDigits 10 n ++ cs := by
  induction cs generalizing n with
  | nil => rw [Nat.ofDigitChars_nil, List.append_nil]
  | cons d cs ih =>
    obtain ⟨hd, hcs⟩ := List.forall_mem_cons.1 hcs
    obtain ⟨hdigit, hlt⟩ := digitChar_of_isDigit hd
    rw [Nat.ofDigitChars_cons, ih hcs (by omega), ← Nat.toDigits_append_toDigits (by decide) hn hlt,
      hdigit, List.append_assoc, List.singleton_append]

theorem Spelled.toDigits_number {text : List Char} (h : Spelled .integer text) :
    Nat.toDigits 10 (number text) = text := by
  cases h with
  | zero => rfl
  | @positive c cs hc hzero hcs =>
    obtain ⟨hdigit, hlt⟩ := digitChar_of_isDigit hc
    have hpos : 0 < c.toNat - '0'.toNat := by
      by_contra hle
      rw [Nat.eq_zero_of_not_pos hle] at hdigit
      exact hzero (List.cons.inj hdigit).1.symm
    have hnumber : number (c :: cs) = Nat.ofDigitChars 10 cs (c.toNat - '0'.toNat) := by
      rw [number, List.foldl_cons, Nat.mul_zero, Nat.zero_add]
      rfl
    rw [hnumber, toDigits_ofDigitChars hcs hpos, hdigit, List.singleton_append]

theorem Spelled.toDigits (k : Nat) : Spelled .integer (Nat.toDigits 10 k) := by
  cases hdigits : Nat.toDigits 10 k with
  | nil => exact absurd hdigits Nat.toDigits_ne_nil
  | cons c cs =>
    have hall : ∀ d ∈ c :: cs, d.isDigit = true := by
      intro d hd
      rw [← hdigits] at hd
      exact Nat.isDigit_of_mem_toDigits (by decide) (by decide) hd
    obtain ⟨hc, hcs⟩ := List.forall_mem_cons.1 hall
    by_cases hzero : c = '0'
    · subst hzero
      obtain rfl := head_toDigits hdigits
      obtain rfl : [] = cs := (List.cons.inj hdigits).2
      exact .zero
    · exact .positive hc hzero hcs

theorem wordKind_of_not_mem_reserved {word : String} (h : word ∉ reserved) :
    wordKind word = .identifier := by
  unfold wordKind
  split
  · exact absurd (by decide) h
  · exact absurd (by decide) h
  · have hkeyword : Keyword.ofWord? word = none := by
      unfold Keyword.ofWord?
      split
      case h_7 => rfl
      all_goals exact absurd (by decide) h
    rw [hkeyword]

theorem Spelled.denotes_wordKind {cs : List Char} (h : Spelled .word cs) :
    Denotes cs (wordKind (String.ofList cs)) := by
  by_cases hmem : String.ofList cs ∈ reserved
  · have hcs : cs = (String.ofList cs).toList := String.toList_ofList.symm
    generalize String.ofList cs = word at hmem hcs
    subst hcs
    simp only [reserved, List.mem_cons, List.not_mem_nil, or_false] at hmem
    obtain rfl | rfl | rfl | rfl | rfl | rfl | rfl | rfl := hmem
    · exact .bool true
    · exact .bool false
    · exact .keyword .kwIf
    · exact .keyword .kwThen
    · exact .keyword .kwElse
    · exact .keyword .kwLet
    · exact .keyword .kwIn
    · exact .keyword .kwOf
  · rw [wordKind_of_not_mem_reserved hmem]
    exact .identifier h hmem

variable {cls : Class} {text : List Char} {kind : Token.Kind}

theorem not_isFaulty_of_tokenKind (h : tokenKind ⟨cls, text⟩ = .ok kind) :
    cls.isFaulty = false := by
  cases cls with
  | brokenString => cases h
  | unknown => cases h
  | _ => rfl

/-- A lexeme that makes a token denotes the kind of it. -/
theorem Spelled.denotes (h : Spelled cls text) (hkind : tokenKind ⟨cls, text⟩ = .ok kind) :
    Denotes text kind := by
  have hinteger {text : List Char} (h : Spelled .integer text)
      (hkind : tokenKind ⟨.integer, text⟩ = .ok kind) : Denotes text kind := by
    simp only [tokenKind] at hkind
    split at hkind <;> cases hkind
    rename_i hlt
    have hdenotes := Denotes.int (Int64.toInt_ofNat_of_lt hlt)
    rwa [h.toDigits_number] at hdenotes
  cases h with
  | word hc hcs =>
    cases hkind
    exact (Spelled.word hc hcs).denotes_wordKind
  | zero => exact hinteger .zero hkind
  | positive hc hzero hcs => exact hinteger (.positive hc hzero hcs) hkind
  | string h =>
    rw [tokenKind_quoted h.decode?] at hkind
    cases hkind
    refine .str h ?_
    rw [List.map_map]
    exact List.map_congr_left fun c _ => toInt_code c
  | operator h =>
    cases hkind
    exact .operator h
  | punctuation h =>
    cases hkind
    exact .punctuation h

theorem Denotes.tokenKind (h : Denotes text kind) :
    ∃ cls, Spelled cls text ∧ tokenKind ⟨cls, text⟩ = .ok kind := by
  cases h with
  | identifier h hfree =>
    refine ⟨.word, h, ?_⟩
    rw [Lexeme.tokenKind, wordKind_of_not_mem_reserved hfree]
  | bool b =>
    cases b with
    | true => exact ⟨.word, .word_of_all rfl (by decide), rfl⟩
    | false => exact ⟨.word, .word_of_all rfl (by decide), rfl⟩
  | keyword k => cases k <;> exact ⟨.word, .word_of_all rfl (by decide), rfl⟩
  | int hk => exact ⟨.integer, .toDigits _, tokenKind_toDigits hk⟩
  | @str _ cs codes h hcodes =>
    have hcode : codes = cs.map Text.code := by
      apply (List.map_inj_right fun n n' => Int64.toInt_inj.1).1
      rw [hcodes, List.map_map]
      exact List.map_congr_left fun c _ => (toInt_code c).symm
    rw [hcode]
    exact ⟨.string, .string h, tokenKind_quoted h.decode?⟩
  | operator h => exact ⟨.operator, .operator h, rfl⟩
  | punctuation h => exact ⟨.punctuation, .punctuation h, rfl⟩

theorem Denotes.unique {kind' : Token.Kind} (h : Denotes text kind) (h' : Denotes text kind') :
    kind = kind' := by
  obtain ⟨cls, hspelled, hkind⟩ := h.tokenKind
  obtain ⟨cls', hspelled', hkind'⟩ := h'.tokenKind
  rw [hspelled.unique hspelled', hkind'] at hkind
  exact (Except.ok.inj hkind).symm

end Kinds

end Lexeme

end ExprLang
