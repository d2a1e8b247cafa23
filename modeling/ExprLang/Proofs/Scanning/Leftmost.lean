import ExprLang.Proofs.Scanning.LongestMatch

namespace ExprLang

open Text.Quoted

namespace Lexeme

/-- No lexeme begins with the character, and it is no blank. -/
structure Unknown (c : Char) : Prop where
  notBlank : c ∉ [' ', '\t', '\r', '\n']
  notSpelled : ∀ cls text, ¬ Spelled cls (c :: text)

/-- After a quote, no text with legal escapes only is closed by a quote on the same line. -/
def Unclosed (rest : List Char) : Prop :=
  ∀ body cs after, StandsFor body cs → rest ≠ body ++ '"' :: after

/-- The texts whose head is no token, with the reason. -/
inductive Faulty : List Char → LexicalFault → Prop
  | unknown {c : Char} (hc : Unknown c) (rest : List Char) :
    Faulty (c :: rest) (.unrecognizedCharacter c)
  | unclosed {rest : List Char} (h : Unclosed rest) : Faulty ('"' :: rest) .malformedString
  | outOfRange {k : Nat} {rest : List Char} (h : Longest (Nat.toDigits 10 k) rest)
    (hk : Nat.pow 2 63 ≤ k) :
    Faulty (Nat.toDigits 10 k ++ rest) (.integerOutOfRange (String.ofList (Nat.toDigits 10 k)))

/-- What a scan takes from the head of a text: the longest lexeme, or what makes no token. -/
inductive Taken : List Char → List Char → Prop
  | lexeme {piece rest : List Char} (h : Longest piece rest) : Taken piece rest
  | unknown {c : Char} (hc : Unknown c) (rest : List Char) : Taken [c] rest
  | line {line rest : List Char} (h : Unclosed (line ++ rest)) (hline : '\n' ∉ line)
    (hrest : ∀ c ∈ rest.head?, c = '\n') : Taken ('"' :: line) rest

/-- A scan of the text passes a part of it and comes to the rest. -/
inductive Reaches : List Char → List Char → List Char → Prop
  | refl (text : List Char) : Reaches text [] text
  | blank {c : Char} {text passed rest : List Char} (hc : c ∈ [' ', '\t', '\r', '\n'])
    (h : Reaches text passed rest) : Reaches (c :: text) (c :: passed) rest
  | piece {piece text passed rest : List Char} (hpiece : Taken piece text)
    (h : Reaches text passed rest) : Reaches (piece ++ text) (piece ++ passed) rest

section Leading

variable {c : Char} {cs rest : List Char}

theorem unclosed_iff : Unclosed cs ↔ Text.Quoted.body? cs = none := by
  constructor
  · intro h
    cases hbody : Text.Quoted.body? cs with
    | none => rfl
    | some r =>
      obtain ⟨body, after⟩ := r
      obtain ⟨chars, hchars⟩ := exists_standsFor hbody
      exact absurd (body?_append hbody).symm (h body chars after hchars)
  · rintro h body chars after hchars rfl
    rw [hchars.body?] at h
    cases h

theorem leading_of_unclosed (h : Unclosed cs) :
    leading '"' cs =
      (⟨.brokenString, '"' :: cs.takeWhile (· != '\n')⟩, cs.dropWhile (· != '\n')) := by
  rw [leading, if_neg (by decide), if_neg (by decide), if_pos rfl, unclosed_iff.1 h]

theorem leading_of_unknown (h : Unknown c) : leading c cs = (⟨.unknown, [c]⟩, cs) := by
  have hnone {cls : Class} {text : List Char} (hspelled : Spelled cls (c :: text)) : False :=
    h.notSpelled cls text hspelled
  rw [leading]
  split
  · rename_i hzero
    subst hzero
    exact (hnone .zero).elim
  rename_i hzero
  split
  · rename_i hdigit
    exact (hnone (.positive hdigit hzero (List.forall_mem_nil _))).elim
  split
  · rename_i hquote
    subst hquote
    exact (hnone (.string .nil)).elim
  split
  · rename_i hword
    exact (hnone (.word_of_all hword (List.all_nil))).elim
  split
  · rename_i hdouble
    cases cs with
    | nil => cases hdouble
    | cons d cs => exact (hnone (.double (List.contains_iff_mem.1 hdouble))).elim
  split
  · rename_i hsingle
    exact (hnone (.single (List.contains_iff_mem.1 hsingle))).elim
  split
  · rename_i hmark
    exact (hnone (.mark (List.contains_iff_mem.1 hmark))).elim
  · rfl

theorem Spelled.head {cls : Class} {text : List Char} (h : Spelled cls (c :: text)) :
    c = '"' ∨ ∃ cls, Spelled cls [c] := by
  cases h with
  | word hc _ => exact .inr ⟨_, .word hc (List.forall_mem_nil _)⟩
  | zero => exact .inr ⟨_, .zero⟩
  | positive hc hzero _ => exact .inr ⟨_, .positive hc hzero (List.forall_mem_nil _)⟩
  | string _ => exact .inl rfl
  | operator h =>
    have hdoubles : doubles.all (fun p => singles.contains p.1 || punctuationMarks.contains p.1) =
        true := by decide
    rcases operators_cases h with ⟨d, hd, heq⟩ | ⟨p, hp, heq⟩
    · cases heq
      exact .inr ⟨_, .single hd⟩
    · cases heq
      rcases Bool.or_eq_true_iff.1 (List.all_eq_true.1 hdoubles p hp) with hsingle | hmark
      · exact .inr ⟨_, .single (List.contains_iff_mem.1 hsingle)⟩
      · exact .inr ⟨_, .mark (List.contains_iff_mem.1 hmark)⟩
  | punctuation h =>
    obtain ⟨d, hd, heq⟩ := marks_cases h
    cases heq
    exact .inr ⟨_, .mark hd⟩

/-- What the scanner takes is a lexeme, a quote that is not closed, or a character that begins no
lexeme. -/
theorem leading_cases (hc : isBlank c = false) (cs : List Char) :
    (leading c cs).1.kind.isFaulty = false ∨ (c = '"' ∧ Unclosed cs) ∨ Unknown c := by
  by_cases hspelled : ∃ cls text, Spelled cls (c :: text)
  · obtain ⟨cls, text, h⟩ := hspelled
    rcases h.head with rfl | ⟨cls, h⟩
    · by_cases hclosed : Unclosed cs
      · exact .inr (.inl ⟨rfl, hclosed⟩)
      · obtain ⟨⟨body, after⟩, hbody⟩ := Option.ne_none_iff_exists'.1 (mt unclosed_iff.2 hclosed)
        rw [leading, if_neg (by decide), if_neg (by decide), if_pos rfl, hbody]
        exact .inl rfl
    · exact .inl (h.lt_leading (List.nil_prefix)).1
  · refine .inr (.inr ⟨fun hblank => ?_, fun cls text h => hspelled ⟨cls, text, h⟩⟩)
    have hblank : isBlank c = true := Token.isBlank_iff_mem.2 hblank
    rw [hc] at hblank
    cases hblank

theorem Unknown.not_isBlank (h : Unknown c) : isBlank c = false :=
  Bool.eq_false_iff.2 (mt Token.isBlank_iff_mem.1 h.notBlank)

theorem Taken.leading {piece : List Char} (h : Taken (c :: piece) rest) :
    isBlank c = false ∧ (leading c (piece ++ rest)).1.text = c :: piece ∧
      (leading c (piece ++ rest)).2 = rest := by
  cases h with
  | lexeme h =>
    obtain ⟨cls, hspelled, hleading⟩ := h.taken
    rw [hleading]
    exact ⟨hspelled.not_isBlank, rfl, rfl⟩
  | unknown hc =>
    rw [List.nil_append, leading_of_unknown hc]
    exact ⟨hc.not_isBlank, rfl, rfl⟩
  | line h hline hrest =>
    have hrun : ∀ d ∈ piece, (d != '\n') = true := by
      rintro d hd
      exact bne_iff_ne.2 fun hnewline => hline (hnewline ▸ hd)
    have hend : rest.takeWhile (· != '\n') = [] ∧ rest.dropWhile (· != '\n') = rest := by
      cases rest with
      | nil => exact ⟨rfl, rfl⟩
      | cons d rest =>
        obtain rfl := hrest d rfl
        exact ⟨rfl, rfl⟩
    rw [leading_of_unclosed h, List.takeWhile_append_of_pos hrun, List.dropWhile_append_of_pos hrun,
      hend.1, hend.2, List.append_nil]
    exact ⟨rfl, rfl, rfl⟩

theorem taken_leading (hc : isBlank c = false) (cs : List Char) :
    Taken (Lexeme.leading c cs).1.text (Lexeme.leading c cs).2 := by
  rcases leading_cases hc cs with hlexeme | ⟨rfl, hclosed⟩ | hunknown
  · exact .lexeme (longest_of_leading rfl hlexeme)
  · rw [leading_of_unclosed hclosed]
    apply Taken.line
    · rw [List.takeWhile_append_dropWhile]
      exact hclosed
    · intro hmem
      have hother := List.mem_takeWhile_imp hmem
      exact absurd rfl (bne_iff_ne.1 hother)
    · intro d hd
      have hhead := List.head?_dropWhile_not (· != '\n') cs
      rw [Option.mem_def.1 hd] at hhead
      exact of_not_not (mt bne_iff_ne.2 (Bool.eq_false_iff.1 hhead))
  · rw [leading_of_unknown hunknown]
    exact .unknown hunknown _

theorem Faulty.tokenKind {fault : LexicalFault} (h : Faulty (c :: cs) fault) :
    isBlank c = false ∧ (Lexeme.leading c cs).1.tokenKind = .error fault := by
  generalize htext : c :: cs = text at h
  cases h with
  | unknown hc rest =>
    cases htext
    rw [leading_of_unknown hc]
    exact ⟨hc.not_isBlank, rfl⟩
  | unclosed h =>
    cases htext
    rw [leading_of_unclosed h]
    exact ⟨rfl, rfl⟩
  | @outOfRange k rest h hk =>
    cases hdigits : Nat.toDigits 10 k with
    | nil => exact absurd hdigits Nat.toDigits_ne_nil
    | cons d ds =>
      rw [hdigits] at h htext
      rw [List.cons_append] at htext
      obtain ⟨rfl, rfl⟩ := List.cons.inj htext
      obtain ⟨cls, hspelled, hleading⟩ := h.taken
      have hnumber : number (Nat.toDigits 10 k) = k := Nat.ofDigitChars_ten_toDigits
      have hinteger : Spelled .integer (c :: ds) := hdigits ▸ Spelled.toDigits k
      rw [hleading, hspelled.unique hinteger]
      refine ⟨hspelled.not_isBlank, ?_⟩
      rw [hdigits] at hnumber
      simp only [Lexeme.tokenKind, hnumber, if_neg (Nat.not_lt.2 hk)]

theorem faulty_of_tokenKind {fault : LexicalFault} (hc : isBlank c = false)
    (h : (Lexeme.leading c cs).1.tokenKind = .error fault) : Faulty (c :: cs) fault := by
  rcases leading_cases hc cs with hlexeme | ⟨rfl, hclosed⟩ | hunknown
  · have happend := leading_append c cs
    generalize hleading : Lexeme.leading c cs = step at h hlexeme happend
    obtain ⟨⟨cls, text⟩, rest⟩ := step
    have hspelled := spelled_of_leading hleading hlexeme
    have hlongest := longest_of_leading hleading hlexeme
    dsimp only at hspelled hlongest happend
    cases cls with
    | integer =>
      simp only [Lexeme.tokenKind] at h
      split at h <;> cases h
      rename_i hlarge
      have htext := hspelled.toDigits_number
      rw [← htext] at hlongest
      have hfaulty := Faulty.outOfRange hlongest (Nat.not_lt.1 hlarge)
      rwa [htext, happend] at hfaulty
    | string =>
      cases hspelled with
      | string hbody =>
        rw [tokenKind_quoted hbody.decode?] at h
        cases h
    | word | operator | punctuation => cases h
    | brokenString | unknown => cases hlexeme
  · rw [leading_of_unclosed hclosed] at h
    cases h
    exact .unclosed hclosed
  · rw [leading_of_unknown hunknown] at h
    cases h
    exact .unknown hunknown cs

theorem Faulty.ne_nil {text : List Char} {fault : LexicalFault} (h : Faulty text fault) :
    text ≠ [] := by
  cases h with
  | unknown => exact List.cons_ne_nil _ _
  | unclosed => exact List.cons_ne_nil _ _
  | outOfRange h _ =>
    obtain ⟨cls, hspelled⟩ := h.spelled
    exact List.append_ne_nil_of_left_ne_nil hspelled.ne_nil _

theorem Faulty.unique {text : List Char} {fault fault' : LexicalFault} (h : Faulty text fault)
    (h' : Faulty text fault') : fault = fault' := by
  cases text with
  | nil => exact absurd rfl h.ne_nil
  | cons c cs => exact Except.error.inj (h.tokenKind.2.symm.trans h'.tokenKind.2)

theorem Faulty.ne_ungrammatical {text : List Char} {fault : LexicalFault} (h : Faulty text fault)
    (report : String) : fault ≠ .ungrammatical report := by
  cases h <;> exact LexicalFault.noConfusion

theorem isSome_decode?_of_quoted {text : List Char} (h : Rule.quoted.split cs = some (text, rest)) :
    (Text.Quoted.decode? (quotedBody ⟨.string, text⟩)).isSome = true := by
  cases cs with
  | nil => cases h
  | cons c cs =>
    dsimp only [Rule.quoted] at h
    split at h
    · obtain ⟨⟨body, after⟩, hbody, heq⟩ := Option.map_eq_some_iff.1 h
      cases heq
      obtain ⟨chars, hchars⟩ := exists_standsFor hbody
      have hquoted : quotedBody ⟨.string, c :: (body ++ ['"'])⟩ = body := List.dropLast_concat
      rw [hquoted, hchars.decode?]
      rfl
    · cases h

end Leading

/-- A shorter text after a lexeme offers no longer one. -/
theorem Longest.cut {lexeme rest after : List Char} (h : Longest lexeme (rest ++ after)) :
    Longest lexeme rest := by
  refine ⟨h.spelled, fun cls other hother hprefix => h.longest cls other hother ?_⟩
  rw [← List.append_assoc]
  exact hprefix.trans (List.prefix_append _ _)

theorem Taken.ne_nil {piece rest : List Char} (h : Taken piece rest) : piece ≠ [] := by
  cases h with
  | lexeme h =>
    obtain ⟨cls, hspelled⟩ := h.spelled
    exact hspelled.ne_nil
  | unknown => exact List.cons_ne_nil _ _
  | line => exact List.cons_ne_nil _ _

theorem Reaches.append {text passed rest : List Char} (h : Reaches text passed rest) :
    passed ++ rest = text := by
  induction h with
  | refl => rfl
  | blank _ _ ih => rw [List.cons_append, ih]
  | piece _ _ ih => rw [List.append_assoc, ih]

theorem Reaches.cons_cases {c : Char} {cs passed rest : List Char}
    (h : Reaches (c :: cs) passed rest) :
    (passed = [] ∧ rest = c :: cs) ∨
      (isBlank c = true ∧ ∃ passed', passed = c :: passed' ∧ Reaches cs passed' rest) ∨
      (isBlank c = false ∧ ∃ passed', passed = (leading c cs).1.text ++ passed' ∧
        Reaches (leading c cs).2 passed' rest) := by
  generalize htext : c :: cs = text at h
  cases h with
  | refl => exact .inl ⟨rfl, rfl⟩
  | blank hc h =>
    cases htext
    exact .inr (.inl ⟨Token.isBlank_iff_mem.2 hc, _, rfl, h⟩)
  | @piece piece text passed _ hpiece h =>
    cases piece with
    | nil => exact absurd rfl hpiece.ne_nil
    | cons d piece =>
      rw [List.cons_append] at htext
      obtain ⟨rfl, rfl⟩ := List.cons.inj htext
      obtain ⟨hblank, htaken, hleft⟩ := hpiece.leading
      rw [htaken, hleft]
      exact .inr (.inr ⟨hblank, passed, rfl, h⟩)

end Lexeme

namespace Token

open Lexeme

theorem StandsBetween.cut {before rest after : List Char} {t : Token}
    (h : t.StandsBetween before (rest ++ after)) : t.StandsBetween before rest :=
  ⟨h.longest.cut, h.kind, h.pos⟩

/-- A scan of the text passes a part of it, comes to a place with a fault, and comes to no such
place before. -/
structure FirstFault (text passed rest : List Char) (fault : LexicalFault) : Prop where
  reaches : Reaches text passed rest
  faulty : Faulty rest fault
  first : ∀ passed' rest' fault', Reaches text passed' rest' → Faulty rest' fault' →
    passed.length ≤ passed'.length

theorem FirstFault.unique {text passed passed' rest rest' : List Char}
    {fault fault' : LexicalFault} (h : FirstFault text passed rest fault)
    (h' : FirstFault text passed' rest' fault') : passed = passed' ∧ fault = fault' := by
  have hlength : passed.length = passed'.length :=
    Nat.le_antisymm (h.first _ _ _ h'.reaches h'.faulty) (h'.first _ _ _ h.reaches h.faulty)
  obtain ⟨hpassed, hrest⟩ :=
    List.append_inj (h.reaches.append.trans h'.reaches.append.symm) hlength
  exact ⟨hpassed, h.faulty.unique (hrest ▸ h'.faulty)⟩

/-- A scan fails at its first fault, after a part of the text that has tokens. -/
theorem firstFault_of_scan {pos : Position} {before cs : List Char} {e : LexicalError}
    (h : scan pos cs = .error e) (hpos : pos = .following before) :
    ∃ passed rest ts, FirstFault cs passed rest e.cause ∧ Tiles before passed ts ∧
      e.pos = .following (before ++ passed) := by
  induction pos, cs using scan_induction generalizing before with
  | nil pos =>
    rw [scan_nil] at h
    cases h
  | blank pos c cs hc ih =>
    rw [scan_blank hc] at h
    have hnext : pos.next c = .following (before ++ [c]) := by
      rw [hpos, Position.following_append, Position.after_cons, Position.after_nil]
    obtain ⟨passed, rest, ts, hfails, hts, hplace⟩ := ih h hnext
    have hreaches := Reaches.blank (isBlank_iff_mem.1 hc) hfails.reaches
    refine ⟨c :: passed, rest, ts, ⟨hreaches, hfails.faulty, ?_⟩, .blank hc hts, ?_⟩
    · intro passed' rest' fault' hreaches hfaulty
      rcases hreaches.cons_cases with ⟨_, rfl⟩ | ⟨_, passed', rfl, hbeyond⟩ | ⟨hblank, _⟩
      · cases hc.symm.trans hfaulty.tokenKind.1
      · exact Nat.succ_le_succ (hfails.first passed' rest' fault' hbeyond hfaulty)
      · cases hc.symm.trans hblank
    · rw [hplace, List.append_assoc, List.singleton_append]
  | lexeme pos c cs hc ih =>
    subst hpos
    rw [scan_cons hc] at h
    cases hkind : (leading c cs).1.tokenKind with
    | error fault =>
      rw [hkind] at h
      cases h
      have hfails : FirstFault (c :: cs) [] (c :: cs) fault :=
        ⟨.refl _, faulty_of_tokenKind hc hkind, fun _ _ _ _ _ => Nat.zero_le _⟩
      refine ⟨[], c :: cs, [], hfails, .nil (List.forall_mem_nil _), ?_⟩
      rw [List.append_nil]
    | ok kind =>
      rw [hkind] at h
      dsimp only at h
      split at h <;> cases h
      rename_i herror
      obtain ⟨passed, rest, ts, hfails, hts, hplace⟩ :=
        ih herror (Position.following_append _ _).symm
      have hreaches := Reaches.piece (taken_leading hc cs) hfails.reaches
      rw [leading_append] at hreaches
      have hleading : leading c cs = ((leading c cs).1, passed ++ rest) :=
        Prod.ext rfl hfails.reaches.append.symm
      -- The longest lexeme of the whole text is the longest one of the text before the fault.
      have ht := (standsBetween_of_leading hleading hkind before).cut
      have htiles := Tiles.lexeme ht (by rwa [String.toList_ofList])
      rw [String.toList_ofList] at htiles
      refine ⟨_, rest, _, ⟨hreaches, hfails.faulty, ?_⟩, htiles, ?_⟩
      · intro passed' rest' fault' hreaches hfaulty
        rcases hreaches.cons_cases with ⟨_, rfl⟩ | ⟨hblank, _⟩ | ⟨_, passed', rfl, hbeyond⟩
        · cases hkind.symm.trans hfaulty.tokenKind.2
        · cases hc.symm.trans hblank
        · rw [List.length_append, List.length_append]
          exact Nat.add_le_add_left (hfails.first passed' rest' fault' hbeyond hfaulty) _
      · rw [hplace, List.append_assoc]

/-- A scan that comes to a place with a fault fails, there or before. -/
theorem scan_error_of_reaches {text passed rest : List Char} {fault : LexicalFault}
    (h : Reaches text passed rest) (hfaulty : Faulty rest fault) (pos : Position) :
    ∃ e, scan pos text = .error e := by
  induction pos, text using scan_induction generalizing passed with
  | nil pos =>
    have hrest : rest = [] := (List.append_eq_nil_iff.1 h.append).2
    exact absurd hrest hfaulty.ne_nil
  | blank pos c cs hc ih =>
    rw [scan_blank hc]
    rcases h.cons_cases with ⟨_, rfl⟩ | ⟨_, passed, _, hbeyond⟩ | ⟨hblank, _⟩
    · cases hc.symm.trans hfaulty.tokenKind.1
    · exact ih hbeyond
    · cases hc.symm.trans hblank
  | lexeme pos c cs hc ih =>
    rw [scan_cons hc]
    cases hkind : (leading c cs).1.tokenKind with
    | error fault => exact ⟨_, rfl⟩
    | ok kind =>
      rcases h.cons_cases with ⟨_, rfl⟩ | ⟨hblank, _⟩ | ⟨_, passed, _, hbeyond⟩
      · cases hkind.symm.trans hfaulty.tokenKind.2
      · cases hc.symm.trans hblank
      · obtain ⟨e, he⟩ := ih hbeyond
        rw [he]
        exact ⟨e, rfl⟩

theorem firstFault_of_ofSource {source : String} {e : LexicalError}
    (h : ofSource source = .error e) :
    ∃ passed rest, FirstFault source.toList passed rest e.cause ∧ e.pos = .following passed := by
  rw [ofSource_eq_scan] at h
  have hstart : Position.start = .following [] := rfl
  obtain ⟨passed, rest, _, hfirst, _, hpos⟩ := firstFault_of_scan h hstart
  exact ⟨passed, rest, hfirst, hpos⟩

namespace FirstFault

variable {source : String} {passed rest : List Char} {fault : LexicalFault}

theorem scan_tiles (h : FirstFault source.toList passed rest fault) :
    scan .start source.toList = .error ⟨fault, .following passed⟩ ∧ ∃ ts, Tiles [] passed ts := by
  obtain ⟨⟨fault', pos⟩, he⟩ := scan_error_of_reaches h.reaches h.faulty .start
  have hstart : Position.start = .following [] := rfl
  obtain ⟨passed', rest', ts, hfirst, htiles, hpos⟩ := firstFault_of_scan he hstart
  obtain ⟨rfl, hfault⟩ := h.unique hfirst
  dsimp only at hfault hpos
  rw [hfault, he, hpos]
  exact ⟨rfl, ts, htiles⟩

theorem ofSource_eq_error (h : FirstFault source.toList passed rest fault) :
    ofSource source = .error ⟨fault, .following passed⟩ := by
  rw [ofSource_eq_scan]
  exact h.scan_tiles.1

theorem ofSource_passed (h : FirstFault source.toList passed rest fault) :
    ∃ ts, ofSource (String.ofList passed) = .ok ts := by
  obtain ⟨_, ts, htiles⟩ := h.scan_tiles
  refine ⟨ts, ?_⟩
  rw [ofSource_eq_scan, String.toList_ofList]
  exact htiles.scan

end FirstFault

/-- A source always has lexemes. It has no tokens exactly if its scan comes to a place where no
token begins, and then fails at the first such place, with the fault of that place. Up to there the
text has tokens. What the rule for strings takes can always be decoded. -/
theorem ofSource_error_leftmost (source : String) :
    (∃ lexemes, Lexeme.ofSource source = .ok lexemes) ∧
    (∀ e, ofSource source = .error e → ∀ report, e.cause ≠ .ungrammatical report) ∧
    (∀ e, ofSource source = .error e ↔
      ∃ passed rest, FirstFault source.toList passed rest e.cause ∧ e.pos = .following passed) ∧
    (∀ passed rest fault, FirstFault source.toList passed rest fault →
      ∃ ts, ofSource (String.ofList passed) = .ok ts) ∧
    (∀ passed rest fault, Reaches source.toList passed rest → Faulty rest fault →
      ∃ e, ofSource source = .error e) ∧
    ∀ cs text rest, Rule.quoted.split cs = some (text, rest) →
      (Text.Quoted.decode? (quotedBody ⟨.string, text⟩)).isSome = true := by
  refine ⟨⟨_, lexemes_ofSource source⟩, ?_, ?_, ?_, ?_, fun _ _ _ => isSome_decode?_of_quoted⟩
  · intro e h
    obtain ⟨passed, rest, hfirst, _⟩ := firstFault_of_ofSource h
    exact hfirst.faulty.ne_ungrammatical
  · intro e
    refine ⟨firstFault_of_ofSource, ?_⟩
    rintro ⟨passed, rest, hfirst, hpos⟩
    rw [hfirst.ofSource_eq_error, ← hpos]
  · intro passed rest fault hfirst
    exact hfirst.ofSource_passed
  · intro passed rest fault hreaches hfaulty
    rw [ofSource_eq_scan]
    exact scan_error_of_reaches hreaches hfaulty .start

/-- A quote that an illegal escape keeps from being closed, before a character that begins
nothing. -/
theorem ofSource_error_leftmost_quote :
    ∃ e passed rest, ofSource "x \"a\\q\" $" = .error e ∧
      e.cause.message = "invalid string literal" ∧ e.pos = ⟨1, 3⟩ ∧
      FirstFault "x \"a\\q\" $".toList passed rest e.cause ∧
      ∃ ts, ofSource (String.ofList passed) = .ok ts := by
  have hscan : (ofSource "x \"a\\q\" $").mapError (fun e => (e.cause.message, e.pos)) =
      .error ("invalid string literal", ⟨1, 3⟩) := by
    decide +kernel
  cases hsource : ofSource "x \"a\\q\" $" with
  | ok ts =>
    rw [hsource] at hscan
    cases hscan
  | error e =>
    rw [hsource] at hscan
    obtain ⟨hmessage, hpos⟩ := Prod.mk.inj (Except.error.inj hscan)
    obtain ⟨_, _, hfails, hpassed, _⟩ := ofSource_error_leftmost "x \"a\\q\" $"
    obtain ⟨passed, rest, hfirst, _⟩ := (hfails e).1 hsource
    exact ⟨e, passed, rest, rfl, hmessage, hpos, hfirst, hpassed passed rest _ hfirst⟩

end Token

end ExprLang
