import ExprLang.Proofs.Parsing.Spelling
import ExprLang.Proofs.Places.Lines
import ExprLang.Proofs.Places.Move
import ExprLang.Proofs.Printing.Tokens

namespace ExprLang

open Lexeme

namespace Token

/-- The tokens of a scan without their places. -/
def unplace (r : Except LexicalError (List Token)) : Option (List Token) :=
  r.toOption.map (List.map (move .forget))

def unplaced (cs : List Char) : Option (List Token) := unplace (scan .start cs)

theorem unplace_scan_cons {pos : Position} {c : Char} (hc : isBlank c = false) (cs : List Char) :
    unplace (scan pos (c :: cs)) =
      (leading c cs).1.tokenKind.toOption.bind fun kind =>
        (unplace (scan (pos.after (leading c cs).1.text) (leading c cs).2)).map
          (⟨kind, String.ofList (leading c cs).1.text, .start⟩ :: ·) := by
  rw [scan_cons hc]
  cases (leading c cs).1.tokenKind with
  | error fault => rfl
  | ok kind =>
    dsimp only
    cases scan (pos.after (leading c cs).1.text) (leading c cs).2 <;> rfl

/-- Where a text stands does not matter for its tokens. -/
theorem unplace_scan (pos : Position) (cs : List Char) : unplace (scan pos cs) = unplaced cs := by
  have h : ∀ pos', unplace (scan pos cs) = unplace (scan pos' cs) := by
    induction pos, cs using scan_induction with
    | nil pos =>
      intro pos'
      rw [scan_nil, scan_nil]
    | blank pos c cs hc ih =>
      intro pos'
      rw [scan_blank hc, scan_blank hc]
      exact ih _
    | lexeme pos c cs hc ih =>
      intro pos'
      rw [unplace_scan_cons hc, unplace_scan_cons hc, ih]
  exact h .start

theorem unplaced_nil : unplaced [] = some [] := by
  rw [unplaced, scan_nil]
  rfl

theorem unplaced_blank {c : Char} (hc : isBlank c = true) (cs : List Char) :
    unplaced (c :: cs) = unplaced cs := by
  rw [unplaced, scan_blank hc, unplace_scan]

theorem unplaced_lexeme {c : Char} (hc : isBlank c = false) {cs rest : List Char} {lexeme : Lexeme}
    {kind : Token.Kind} (hleading : leading c cs = (lexeme, rest))
    (hkind : lexeme.tokenKind = .ok kind) :
    unplaced (c :: cs) = (unplaced rest).map (⟨kind, String.ofList lexeme.text, .start⟩ :: ·) := by
  rw [unplaced, unplace_scan_cons hc, hleading, hkind, unplace_scan]
  rfl

end Token

open Token

/-- The text has the given tokens wherever a character follows that `f` allows, or none. -/
def Scans (f : Char → Bool) (text : String) (ts : List Token) : Prop :=
  ∀ rest, rest.head?.all f = true →
    unplaced (text.toList ++ rest) = (unplaced rest).map (ts ++ ·)

def Begins (f : Char → Bool) (text : String) : Prop := ∃ c cs, text.toList = c :: cs ∧ f c = true

def anything (_ : Char) : Bool := true

def endsWord (c : Char) : Bool := !isWordPart c

theorem Begins.append {f : Char → Bool} {a : String} (h : Begins f a) (b : String) :
    Begins f (a ++ b) := by
  obtain ⟨c, cs, ha, hc⟩ := h
  refine ⟨c, cs ++ b.toList, ?_, hc⟩
  rw [String.toList_append, ha, List.cons_append]

namespace Scans

variable {f g : Char → Bool} {a b : String} {ts us : List Token}

theorem empty : Scans f "" [] := by
  intro rest _
  cases h : unplaced rest <;> simp [h]

theorem weaken (h : Scans f a ts) (hfg : ∀ c, g c = true → f c = true) : Scans g a ts := by
  intro rest hrest
  apply h
  cases rest with
  | nil => rfl
  | cons c rest => exact hfg c hrest

theorem free (h : Scans anything a ts) : Scans f a ts := h.weaken fun _ _ => rfl

theorem append_of (ha : Scans f a ts) (hb : Scans g b us)
    (h : ∀ rest, rest.head?.all g = true → (b.toList ++ rest).head?.all f = true) :
    Scans g (a ++ b) (ts ++ us) := by
  intro rest hrest
  rw [String.toList_append, List.append_assoc, ha _ (h rest hrest), hb rest hrest, Option.map_map]
  congr 1
  funext vs
  exact (List.append_assoc ..).symm

theorem append (ha : Scans f a ts) (hb : Scans g b us) (h : Begins f b) :
    Scans g (a ++ b) (ts ++ us) := by
  apply ha.append_of hb
  intro rest _
  obtain ⟨c, cs, hb, hc⟩ := h
  rw [hb]
  exact hc

theorem free_append (ha : Scans anything a ts) (hb : Scans g b us) :
    Scans g (a ++ b) (ts ++ us) := by
  apply ha.append_of hb
  intro rest _
  cases (b.toList ++ rest) <;> rfl

end Scans

/-- A character follows, if any, that makes no operator of two characters with this one. -/
def endsOperator (c d : Char) : Bool := !doubles.contains (c, d)

namespace Lexeme

theorem not_isDigit_of_isWordStart {c : Char} (hc : isWordStart c = true) : c.isDigit = false := by
  apply Bool.eq_false_iff.2
  intro hdigit
  obtain ⟨-, hle⟩ := Char.isDigit_iff_toNat.1 hdigit
  obtain halpha | hc := (Bool.or_eq_true _ _).mp hc
  · obtain hupper | hlower := (Bool.or_eq_true c.isUpper c.isLower).mp halpha
    · have hge : 65 ≤ c.toNat := (of_decide_eq_true hupper).1
      exact absurd (Nat.le_trans hge hle) (by decide)
    · have hge : 97 ≤ c.toNat := of_decide_eq_true ((Bool.and_eq_true _ _).mp hlower).1
      exact absurd (Nat.le_trans hge hle) (by decide)
  · rw [beq_iff_eq.1 hc] at hle
    exact absurd hle (by decide)

theorem not_isBlank_of {p : Char → Bool} {c : Char} (hc : p c = true)
    (hp : [' ', '\t', '\r', '\n'].all (fun d => !p d) = true) : isBlank c = false := by
  apply Bool.eq_false_iff.2
  intro hblank
  simp only [isBlank, Bool.or_eq_true, beq_iff_eq] at hblank
  have hmem : c ∈ [' ', '\t', '\r', '\n'] := by
    obtain ((rfl | rfl) | rfl) | rfl := hblank <;> decide
  have hnot := List.all_eq_true.1 hp c hmem
  rw [hc] at hnot
  cases hnot

theorem run_append {p : Char → Bool} {cs rest : List Char} (hcs : ∀ d ∈ cs, p d = true)
    (hrest : rest.head?.all (fun d => !p d) = true) :
    (cs ++ rest).takeWhile p = cs ∧ (cs ++ rest).dropWhile p = rest := by
  rw [List.takeWhile_append_of_pos hcs, List.dropWhile_append_of_pos hcs]
  cases rest with
  | nil => exact ⟨List.append_nil cs, rfl⟩
  | cons d rest =>
    have hd : ¬ p d = true := by simpa using hrest
    rw [List.takeWhile_cons_of_neg hd, List.dropWhile_cons_of_neg hd, List.append_nil]
    exact ⟨rfl, rfl⟩

theorem leading_word {c : Char} {cs rest : List Char} (hc : isWordStart c = true)
    (hcs : ∀ d ∈ cs, isWordPart d = true) (hrest : rest.head?.all endsWord = true) :
    leading c (cs ++ rest) = (⟨.word, c :: cs⟩, rest) := by
  have hzero : c ≠ '0' := by
    rintro rfl
    exact absurd hc (by decide)
  have hquote : c ≠ '"' := by
    rintro rfl
    exact absurd hc (by decide)
  have hdigit := ne_true_of_eq_false (not_isDigit_of_isWordStart hc)
  obtain ⟨htake, hdrop⟩ := run_append hcs hrest
  rw [leading, if_neg hzero, if_neg hdigit, if_neg hquote, if_pos hc, htake, hdrop]

/-- What begins no number, string or word. -/
def isSign (c : Char) : Bool :=
  c != '0' && !c.isDigit && c != '"' && !isWordStart c

theorem leading_sign {c : Char} (hc : isSign c = true) (cs : List Char) :
    leading c cs =
      if startsDouble c cs then (⟨.operator, c :: cs.take 1⟩, cs.drop 1)
      else if singles.contains c then (⟨.operator, [c]⟩, cs)
      else if punctuationMarks.contains c then (⟨.punctuation, [c]⟩, cs)
      else (⟨.unknown, [c]⟩, cs) := by
  simp only [isSign, Bool.and_eq_true, bne_iff_ne, ne_eq, Bool.not_eq_true'] at hc
  obtain ⟨⟨⟨hzero, hdigit⟩, hquote⟩, hword⟩ := hc
  rw [leading, if_neg hzero, if_neg (ne_true_of_eq_false hdigit), if_neg hquote,
    if_neg (ne_true_of_eq_false hword)]

theorem not_startsDouble {c : Char} {cs : List Char}
    (hcs : cs.head?.all (endsOperator c) = true) : ¬ startsDouble c cs = true := by
  rw [startsDouble]
  cases cs with
  | nil => exact nofun
  | cons d cs => simpa [endsOperator] using hcs

theorem leading_single {c : Char} (hc : c ∈ singles) {cs : List Char}
    (hcs : cs.head?.all (endsOperator c) = true) : leading c cs = (⟨.operator, [c]⟩, cs) := by
  have hsigns : singles.all isSign = true := rfl
  rw [leading_sign (List.all_eq_true.1 hsigns c hc), if_neg (not_startsDouble hcs),
    if_pos (List.contains_iff_mem.2 hc)]

theorem leading_mark {c : Char} (hc : c ∈ punctuationMarks) {cs : List Char}
    (hcs : cs.head?.all (endsOperator c) = true) : leading c cs = (⟨.punctuation, [c]⟩, cs) := by
  have hsigns : punctuationMarks.all (fun c => isSign c && !singles.contains c) = true := rfl
  obtain ⟨hsign, hsingle⟩ := Bool.and_eq_true_iff.1 (List.all_eq_true.1 hsigns c hc)
  rw [leading_sign hsign, if_neg (not_startsDouble hcs), if_neg (by simpa using hsingle),
    if_pos (List.contains_iff_mem.2 hc)]

theorem leading_double {c d : Char} (h : (c, d) ∈ doubles) (cs : List Char) :
    leading c (d :: cs) = (⟨.operator, [c, d]⟩, cs) := by
  have hsigns : doubles.all (fun p => isSign p.1) = true := rfl
  have hdouble : startsDouble c (d :: cs) = true := List.contains_iff_mem.2 h
  rw [leading_sign (List.all_eq_true.1 hsigns (c, d) h), if_pos hdouble]
  rfl

end Lexeme

theorem head_toDigits {n : Nat} {cs : List Char} (h : Nat.toDigits 10 n = '0' :: cs) : n = 0 := by
  induction n using Nat.strongRecOn generalizing cs with
  | ind n ih =>
    by_cases hn : n < 10
    · have hdigits : ∀ n < 10, Nat.digitChar n = '0' → n = 0 := by decide
      rw [Nat.toDigits_of_lt_base hn] at h
      exact hdigits n hn (List.cons.inj h).1
    · rw [Nat.toDigits_of_base_le (by decide) (Nat.not_lt.1 hn)] at h
      cases hdigits : Nat.toDigits 10 (n / 10) with
      | nil => exact absurd hdigits Nat.toDigits_ne_nil
      | cons d ds =>
        rw [hdigits, List.cons_append] at h
        rw [(List.cons.inj h).1] at hdigits
        have hzero := ih (n / 10) (by omega) hdigits
        omega

theorem toList_true : (Text.ofBool true).toList = ['t', 'r', 'u', 'e'] := by decide

theorem toList_false : (Text.ofBool false).toList = ['f', 'a', 'l', 's', 'e'] := by decide

theorem toList_ofInt {n : Int64} (hn : 0 ≤ n.toInt) :
    ∃ k : Nat, n.toInt = k ∧ (Text.ofInt n).toList = Nat.toDigits 10 k := by
  obtain ⟨k, hk⟩ := Int.eq_ofNat_of_zero_le hn
  have hstring : Text.ofInt n = toString k := by
    rw [Text.ofInt, hk]
    rfl
  exact ⟨k, hk, by rw [hstring, Nat.toString_eq_ofList_toDigits, String.toList_ofList]⟩

theorem leading_toDigits {n : Nat} {c : Char} {cs rest : List Char}
    (hdigits : Nat.toDigits 10 n = c :: cs) (hrest : rest.head?.all endsWord = true) :
    leading c (cs ++ rest) = (⟨.integer, c :: cs⟩, rest) := by
  have hall : ∀ d ∈ c :: cs, d.isDigit = true := by
    intro d hd
    rw [← hdigits] at hd
    exact Nat.isDigit_of_mem_toDigits (by decide) (by decide) hd
  by_cases hc : c = '0'
  · rw [hc] at hdigits
    obtain rfl := head_toDigits hdigits
    obtain rfl : [] = cs := (List.cons.inj hdigits).2
    rw [leading, if_pos hc, List.nil_append]
  · obtain ⟨hdigit, hcs⟩ := List.forall_mem_cons.1 hall
    have hend : rest.head?.all (fun d => !d.isDigit) = true := by
      cases rest with
      | nil => rfl
      | cons d rest =>
        have hd : isWordPart d = false := by simpa [endsWord] using hrest
        simp only [isWordPart, Char.isAlphanum, Bool.or_eq_false_iff] at hd
        simpa using hd.1.2
    obtain ⟨htake, hdrop⟩ := run_append hcs hend
    rw [leading, if_neg hc, if_pos hdigit, htake, hdrop]

theorem Lexeme.tokenKind_toDigits {n : Int64} {k : Nat} (hk : n.toInt = k) :
    tokenKind ⟨.integer, Nat.toDigits 10 k⟩ = .ok (.int n) := by
  have hnumber : number (Nat.toDigits 10 k) = k := Nat.ofDigitChars_ten_toDigits
  have hlt : k < Nat.pow 2 63 := by
    have hmax : n.toInt < 9223372036854775808 := n.toInt_lt
    have hpow : Nat.pow 2 63 = 9223372036854775808 := rfl
    omega
  have hvalue : Int64.ofNat k = n := by
    apply Int64.toInt_inj.1
    rw [hk]
    exact Int64.toInt_ofNat_of_lt hlt
  simp only [tokenKind, hnumber, if_pos hlt, hvalue]

namespace Text.Quoted

theorem toInt_code (c : Char) : (code c).toInt = c.toNat := by
  have hlt : c.toNat < 1114112 := by
    obtain h | h := c.valid
    · exact Nat.lt_trans h (by decide)
    · exact h.2
  exact Int64.toInt_ofNat_of_lt (Nat.lt_trans hlt (by decide))

theorem scalar?_code (c : Char) : scalar? (code c) = some c := by
  have hvalid : c.toNat.isValidChar := c.valid
  rw [scalar?, toInt_code, Int.toNat_natCast, if_pos ⟨Int.natCast_nonneg _, hvalid⟩,
    Char.ofNat_toNat]

def written (c : Char) : List Char := (escape (code c)).toList

theorem written_cases (c : Char) :
    (∃ letter, written c = ['\\', letter] ∧ unescape? letter = some c) ∨
      (written c = [c] ∧ c ≠ '"' ∧ c ≠ '\\' ∧ c ≠ '\n') := by
  rw [written, escape, scalar?_code]
  split
  case h_6 hquote hbackslash hnewline _ _ hc =>
    cases hc
    exact .inr ⟨String.toList_singleton c, hquote, hbackslash, hnewline⟩
  case h_7 hc => cases hc
  all_goals
    rename_i hc
    cases hc
    exact .inl ⟨_, rfl, rfl⟩

theorem body?_escape {letter c : Char} (h : unescape? letter = some c) (cs : List Char) :
    body? ('\\' :: letter :: cs) =
      (body? cs).map fun (body, rest) => ('\\' :: letter :: body, rest) := by
  rw [body?, if_pos (by rw [h]; rfl)]

theorem body?_cons {c : Char} (hquote : c ≠ '"') (hbackslash : c ≠ '\\') (hnewline : c ≠ '\n')
    (cs : List Char) : body? (c :: cs) = (body? cs).map fun (body, rest) => (c :: body, rest) := by
  rw [body?, if_neg (not_or.2 ⟨hbackslash, hnewline⟩)]
  · exact hquote
  · intro _ _ hc
    exact absurd hc hbackslash

theorem decode?_escape {letter c : Char} (h : unescape? letter = some c) (cs : List Char) :
    decode? ('\\' :: letter :: cs) = (decode? cs).map (c :: ·) := by
  rw [decode?, h]
  cases decode? cs <;> rfl

theorem decode?_cons {c : Char} (hbackslash : c ≠ '\\') (cs : List Char) :
    decode? (c :: cs) = (decode? cs).map (c :: ·) := by
  rw [decode?, if_neg hbackslash]
  intro _ _ hc
  exact absurd hc hbackslash

theorem body?_written (cs rest : List Char) :
    body? (cs.flatMap written ++ '"' :: rest) = some (cs.flatMap written, rest) := by
  induction cs with
  | nil => rfl
  | cons c cs ih =>
    rw [List.flatMap_cons, List.append_assoc]
    obtain ⟨letter, hc, hletter⟩ | ⟨hc, hquote, hbackslash, hnewline⟩ := written_cases c
    · rw [hc, List.cons_append, List.singleton_append, body?_escape hletter, ih]
      rfl
    · rw [hc, List.singleton_append, body?_cons hquote hbackslash hnewline, ih]
      rfl

theorem decode?_written (cs : List Char) : decode? (cs.flatMap written) = some cs := by
  induction cs with
  | nil => rfl
  | cons c cs ih =>
    rw [List.flatMap_cons]
    obtain ⟨letter, hc, hletter⟩ | ⟨hc, -, hbackslash, -⟩ := written_cases c
    · rw [hc, List.cons_append, List.singleton_append, decode?_escape hletter, ih]
      rfl
    · rw [hc, List.singleton_append, decode?_cons hbackslash, ih]
      rfl

theorem toList_encode (cs : List Char) :
    (encode (cs.map code)).toList = '"' :: (cs.flatMap written ++ ['"']) := by
  have hquote : "\"".toList = ['"'] := rfl
  rw [encode, String.toList_append, String.toList_append, String.toList_join, hquote, List.map_map,
    List.flatMap_map]
  rfl

end Text.Quoted

theorem Lexeme.tokenKind_quoted {body cs : List Char} (h : Text.Quoted.decode? body = some cs) :
    tokenKind ⟨.string, '"' :: (body ++ ['"'])⟩ = .ok (.str (cs.map Text.code)) := by
  have hbody : quotedBody ⟨.string, '"' :: (body ++ ['"'])⟩ = body := List.dropLast_concat
  simp only [tokenKind, hbody, h]

namespace Scans

theorem blank : Scans anything " " [] := by
  intro rest _
  have htext : " ".toList = [' '] := rfl
  rw [htext, List.singleton_append, unplaced_blank rfl]
  cases unplaced rest <;> rfl

theorem lexeme {f : Char → Bool} {text : String} {c : Char} {cs : List Char} {cls : Lexeme.Class}
    {kind : Token.Kind} (htext : text.toList = c :: cs) (hc : isBlank c = false)
    (hleading : ∀ rest, rest.head?.all f = true →
      leading c (cs ++ rest) = (⟨cls, c :: cs⟩, rest))
    (hkind : Lexeme.tokenKind ⟨cls, c :: cs⟩ = .ok kind) :
    Scans f text [⟨kind, text, .start⟩] := by
  intro rest hrest
  rw [htext, List.cons_append, unplaced_lexeme hc (hleading rest hrest) hkind]
  simp only [← htext, String.ofList_toList]
  rfl

theorem word {text : String} {c : Char} {cs : List Char} (htext : text.toList = c :: cs)
    (hc : isWordStart c = true) (hcs : ∀ d ∈ cs, isWordPart d = true) :
    Scans endsWord text [⟨wordKind text, text, .start⟩] := by
  apply lexeme htext (not_isBlank_of hc rfl) fun rest => leading_word hc hcs
  rw [tokenKind, ← htext, String.ofList_toList]

theorem bool (b : Bool) : Scans endsWord (Text.ofBool b) [⟨.bool b, Text.ofBool b, .start⟩] := by
  cases b with
  | true => exact word toList_true rfl (List.all_eq_true.1 rfl)
  | false => exact word toList_false rfl (List.all_eq_true.1 rfl)

theorem name {text : String} (h : IsName text) : Scans endsWord text [.name text] := by
  obtain ⟨c, cs, htext, hc, hcs⟩ := h.spelling
  have hscans := word htext hc hcs
  rw [h.kind] at hscans
  exact hscans

theorem keyword (k : Keyword) : Scans endsWord k.spelling [.keyword k] := by
  have hkind : wordKind k.spelling = .keyword k := by cases k <;> rfl
  have hword : ∃ c cs, k.spelling.toList = c :: cs ∧ isWordStart c = true ∧
      cs.all isWordPart = true := by
    cases k <;> exact ⟨_, _, rfl, rfl, rfl⟩
  obtain ⟨c, cs, htext, hc, hcs⟩ := hword
  have hscans := word htext hc (List.all_eq_true.1 hcs)
  rw [hkind] at hscans
  exact hscans

theorem int {n : Int64} (hn : 0 ≤ n.toInt) :
    Scans endsWord (Text.ofInt n) [⟨.int n, Text.ofInt n, .start⟩] := by
  obtain ⟨k, hk, htext⟩ := toList_ofInt hn
  have hkind := tokenKind_toDigits hk
  cases hdigits : Nat.toDigits 10 k with
  | nil => exact absurd hdigits Nat.toDigits_ne_nil
  | cons c cs =>
    rw [hdigits] at htext hkind
    have hc : c ∈ Nat.toDigits 10 k := by
      rw [hdigits]
      exact List.mem_cons_self
    have hdigit := Nat.isDigit_of_mem_toDigits (by decide) (by decide) hc
    exact lexeme htext (not_isBlank_of hdigit rfl) (fun rest => leading_toDigits hdigits) hkind

theorem str (cs : List Char) : Scans anything (Text.Quoted.encode (cs.map Text.code))
    [⟨.str (cs.map Text.code), Text.Quoted.encode (cs.map Text.code), .start⟩] := by
  apply lexeme (Text.Quoted.toList_encode cs) rfl
  · intro rest _
    rw [leading, if_neg (by decide), if_neg (by decide), if_pos rfl, List.append_assoc,
      List.singleton_append, Text.Quoted.body?_written]
  · exact tokenKind_quoted (Text.Quoted.decode?_written cs)

theorem mark {text : String} (c : Char) (htext : text.toList = [c]) (hc : c ∈ punctuationMarks) :
    Scans (endsOperator c) text [.mark text] := by
  have hblanks : punctuationMarks.all (fun c => !isBlank c) = true := rfl
  have hblank := (Bool.not_eq_true' _).mp (List.all_eq_true.1 hblanks c hc)
  exact lexeme htext hblank (fun _ => leading_mark hc) rfl

theorem operator {text : String} (c : Char) (htext : text.toList = [c]) (hc : c ∈ singles) :
    Scans (endsOperator c) text [.operator text] := by
  have hblanks : singles.all (fun c => !isBlank c) = true := rfl
  have hblank := (Bool.not_eq_true' _).mp (List.all_eq_true.1 hblanks c hc)
  exact lexeme htext hblank (fun _ => leading_single hc) rfl

theorem doubleOperator {text : String} (c d : Char) (htext : text.toList = [c, d])
    (hc : (c, d) ∈ doubles) : Scans anything text [.operator text] := by
  have hblanks : doubles.all (fun p => !isBlank p.1) = true := rfl
  have hblank := (Bool.not_eq_true' _).mp (List.all_eq_true.1 hblanks (c, d) hc)
  exact lexeme htext hblank (fun rest _ => leading_double hc rest) rfl

end Scans

end ExprLang
