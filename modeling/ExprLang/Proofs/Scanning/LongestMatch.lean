import ExprLang.Proofs.Scanning.Grammar
import Mathlib.Data.List.Induction

namespace ExprLang

/-- The place right after a text: its line follows one line feed for each line before, and its
column one character for each since the last line feed. -/
def Position.following (before : List Char) : Position where
  line := before.count '\n' + 1
  column := (before.reverse.takeWhile (· != '\n')).length + 1

theorem Position.start_after (before : List Char) : start.after before = following before := by
  induction before using List.reverseRecOn with
  | nil => rfl
  | append_singleton before c ih =>
    rw [after_append, ih, after_cons, after_nil, next, following]
    by_cases hc : c = '\n'
    · simp [hc, following]
    · simp [hc, following]

theorem Position.following_append (before cs : List Char) :
    following (before ++ cs) = (following before).after cs := by
  rw [← start_after, ← start_after, after_append]

namespace Token

open Lexeme

/-- A token made of the longest lexeme between two texts. -/
structure StandsBetween (before rest : List Char) (t : Token) : Prop where
  longest : Longest t.text.toList rest
  kind : ∀ kind, Denotes t.text.toList kind ↔ t.kind = kind
  pos : t.pos = .following before

/-- After the text `before`, a text is made up of the texts of the tokens with blanks before each
of them and after the last. -/
inductive Tiles : List Char → List Char → List Token → Prop
  | nil {before blanks : List Char} (hblanks : ∀ c ∈ blanks, c ∈ [' ', '\t', '\r', '\n']) :
    Tiles before blanks []
  | cons {before blanks rest : List Char} {t : Token} {ts : List Token}
    (hblanks : ∀ c ∈ blanks, c ∈ [' ', '\t', '\r', '\n'])
    (ht : t.StandsBetween (before ++ blanks) rest)
    (hts : Tiles (before ++ blanks ++ t.text.toList) rest ts) :
    Tiles before (blanks ++ t.text.toList ++ rest) (t :: ts)

theorem isBlank_iff_mem {c : Char} : isBlank c = true ↔ c ∈ [' ', '\t', '\r', '\n'] := by
  simp [isBlank, or_assoc]

theorem Tiles.blank {before cs : List Char} {c : Char} {ts : List Token} (hc : isBlank c = true)
    (h : Tiles (before ++ [c]) cs ts) : Tiles before (c :: cs) ts := by
  have hmem := isBlank_iff_mem.1 hc
  have hcons (blanks : List Char) : before ++ [c] ++ blanks = before ++ c :: blanks := by
    rw [List.append_assoc, List.singleton_append]
  cases h with
  | nil hblanks => exact .nil (List.forall_mem_cons.2 ⟨hmem, hblanks⟩)
  | cons hblanks ht hts =>
    rw [hcons] at ht hts
    exact .cons (List.forall_mem_cons.2 ⟨hmem, hblanks⟩) ht hts

theorem Tiles.lexeme {before rest : List Char} {t : Token} {ts : List Token}
    (ht : t.StandsBetween before rest) (hts : Tiles (before ++ t.text.toList) rest ts) :
    Tiles before (t.text.toList ++ rest) (t :: ts) := by
  rw [← List.append_nil before] at ht hts
  exact .cons (List.forall_mem_nil _) ht hts

theorem standsBetween_of_leading {c : Char} {cs rest : List Char} {lexeme : Lexeme}
    {kind : Token.Kind} (h : leading c cs = (lexeme, rest)) (hkind : lexeme.tokenKind = .ok kind)
    (before : List Char) :
    StandsBetween before rest ⟨kind, String.ofList lexeme.text, .following before⟩ := by
  have hclass := not_isFaulty_of_tokenKind hkind
  have hdenotes := (spelled_of_leading h hclass).denotes hkind
  constructor
  · rw [String.toList_ofList]
    exact longest_of_leading h hclass
  · intro kind'
    rw [String.toList_ofList]
    constructor
    · exact hdenotes.unique
    · rintro rfl
      exact hdenotes
  · rfl

theorem tiles_of_scan {pos : Position} {before cs : List Char} {ts : List Token}
    (h : scan pos cs = .ok ts) (hpos : pos = .following before) : Tiles before cs ts := by
  induction pos, cs using scan_induction generalizing before ts with
  | nil pos =>
    rw [scan_nil] at h
    cases h
    exact .nil (List.forall_mem_nil _)
  | blank pos c cs hc ih =>
    rw [scan_blank hc] at h
    apply Tiles.blank hc
    apply ih h
    rw [hpos, Position.following_append, Position.after_cons, Position.after_nil]
  | lexeme pos c cs hc ih =>
    subst hpos
    have happend := leading_append c cs
    rw [scan_cons hc] at h
    generalize hleading : leading c cs = step at happend h ih
    obtain ⟨lexeme, rest⟩ := step
    split at h
    · cases h
    rename_i kind hkind
    split at h
    · cases h
    rename_i ts hts
    cases h
    have ht := standsBetween_of_leading hleading hkind before
    have hrest := ih hts (Position.following_append before lexeme.text).symm
    have htiles := Tiles.lexeme ht (by rwa [String.toList_ofList])
    rwa [String.toList_ofList, happend] at htiles

theorem scan_blanks (pos : Position) {blanks : List Char}
    (hblanks : ∀ c ∈ blanks, c ∈ [' ', '\t', '\r', '\n']) (cs : List Char) :
    scan pos (blanks ++ cs) = scan (pos.after blanks) cs := by
  induction blanks generalizing pos with
  | nil => rfl
  | cons c blanks ih =>
    obtain ⟨hc, hblanks⟩ := List.forall_mem_cons.1 hblanks
    rw [List.cons_append, scan_blank (isBlank_iff_mem.2 hc), ih _ hblanks, Position.after_cons]

theorem StandsBetween.scan {before rest : List Char} {t : Token} {ts : List Token}
    (ht : t.StandsBetween before rest)
    (hts : scan ((Position.following before).after t.text.toList) rest = .ok ts) :
    scan (.following before) (t.text.toList ++ rest) = .ok (t :: ts) := by
  obtain ⟨kind, text, pos⟩ := t
  obtain ⟨hlongest, hdenotes, rfl⟩ := ht
  dsimp only at hlongest hdenotes hts ⊢
  cases htext : text.toList with
  | nil =>
    obtain ⟨cls, hspelled⟩ := hlongest.spelled
    exact absurd htext hspelled.ne_nil
  | cons c cs =>
    rw [htext] at hlongest hdenotes hts
    obtain ⟨cls, hspelled, hleading⟩ := hlongest.taken
    obtain ⟨cls', hspelled', hkind⟩ := ((hdenotes kind).2 rfl).tokenKind
    rw [hspelled'.unique hspelled] at hkind
    rw [List.cons_append, scan_cons hspelled.not_isBlank, hleading]
    dsimp only
    rw [hkind, hts, ← htext, String.ofList_toList]

theorem Tiles.scan {before cs : List Char} {ts : List Token} (h : Tiles before cs ts) :
    scan (.following before) cs = .ok ts := by
  induction h with
  | @nil before blanks hblanks =>
    rw [← List.append_nil blanks, scan_blanks _ hblanks, scan_nil]
  | cons hblanks ht _ ih =>
    rw [List.append_assoc, scan_blanks _ hblanks, ← Position.following_append]
    rw [Position.following_append] at ih
    exact ht.scan ih

/-- The tokens of a source are those that make it up by longest match. -/
theorem ofSource_eq_ok_iff_tiles {source : String} {ts : List Token} :
    ofSource source = .ok ts ↔ Tiles [] source.toList ts := by
  rw [ofSource_eq_scan]
  exact ⟨fun h => tiles_of_scan h rfl, fun h => h.scan⟩

end Token

end ExprLang
