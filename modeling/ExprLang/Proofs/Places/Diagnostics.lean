import ExprLang.Proofs.Evaluation.Ensures
import ExprLang.Proofs.Places.Layout
import ExprLang.Proofs.Places.Lines
import ExprLang.Proofs.Scanning.Leftmost

namespace ExprLang

namespace Position

/-- The relocation that moves exactly the places outside a list. -/
def keep (places : List Position) (pos : Position) : Position :=
  if pos ∈ places then pos else ⟨pos.line + 1, pos.column⟩

theorem keep_eq_self_iff {places : List Position} {pos : Position} :
    keep places pos = pos ↔ pos ∈ places := by
  unfold keep
  split
  · rename_i h
    exact iff_of_true rfl h
  · rename_i h
    refine iff_of_false (fun heq => ?_) h
    have hline : pos.line + 1 = pos.line := congrArg Position.line heq
    omega

theorem mem_of_move_keep {κ : Type} {places : List Position} {e : Located κ}
    (h : e.move (keep places) = e) : e.pos ∈ places :=
  keep_eq_self_iff.1 (congrArg Located.pos h)

end Position

theorem Dialogue.always_of_map_eq {α : Type} {f : α → α} {d : Dialogue α} (h : d.map f = d) :
    d.Always fun a => f a = a := by
  induction d with
  | done a => exact done.inj h
  | print text next ih => exact fun answer => ih answer (congrFun (print.inj h).2 answer)
  | readLine next ih => exact fun answer => ih answer (congrFun (readLine.inj h) answer)
  | rand bound next ih => exact fun answer => ih answer (congrFun (rand.inj h).2 answer)

theorem Token.map_move_keep {places : List Position} {ts : List Token}
    (h : ∀ t ∈ ts, t.pos ∈ places) : ts.map (move (Position.keep places)) = ts := by
  refine (List.map_congr_left fun t ht => ?_).trans ts.map_id
  rw [move, Position.keep_eq_self_iff.2 (h t ht)]
  rfl

namespace Decl

variable {ts : List Token} {ds : List Decl}

theorem ofTokens_error_pos {e : SyntaxError} (h : ofTokens ts = .error e) :
    e.pos ∈ ts.map Token.pos := by
  have hmove := ofTokens_move (φ := .keep (ts.map Token.pos)) ts
  rw [Token.map_move_keep fun t => List.mem_map_of_mem, h] at hmove
  exact Position.mem_of_move_keep (Except.error.inj hmove).symm

theorem ofTokens_move_keep (h : ofTokens ts = .ok ds) :
    ds.map (move (.keep (ts.map Token.pos))) = ds := by
  have hmove := ofTokens_move (φ := .keep (ts.map Token.pos)) ts
  rw [Token.map_move_keep fun t => List.mem_map_of_mem, h] at hmove
  exact (Except.ok.inj hmove).symm

theorem ofTokens_ne_nil (hts : ts ≠ []) (h : ofTokens ts = .ok ds) : ds ≠ [] := by
  obtain ⟨rest, hread⟩ := ofTokens_eq_ok h
  rw [readAll, parseAll, Parse.run_bind_eq_ok] at hread
  obtain ⟨head, left, hpeek, hread⟩ := hread
  cases hpeek
  cases ts with
  | nil => exact absurd rfl hts
  | cons t ts =>
    simp only [List.head?_cons, Parse.run_bind_eq_ok] at hread
    obtain ⟨d, _, _, ds', _, _, hread⟩ := hread
    cases hread
    exact List.cons_ne_nil d ds'

end Decl

namespace Program

variable {places : List Position} {ds : List Decl}

theorem check_error_pos (hne : ds ≠ []) (hds : ds.map (Decl.move (.keep places)) = ds)
    {e : TypingError} (h : check ds = .error e) : e.pos ∈ places := by
  have hmirrors : Typing.Mirrors _ _ (check ds) _ := check_mirrors (φ := .keep places) hne
  rw [hds, h] at hmirrors
  exact Position.mem_of_move_keep (Except.error.inj hmirrors).symm

theorem run_error_pos (hne : ds ≠ []) (hds : ds.map (Decl.move (.keep places)) = ds)
    {p : Program} (h : check ds = .ok p) (fuel : Nat) (args : List String) :
    (p.run fuel args).Always fun outcome =>
      ∀ error pos, outcome = .error error → error.pos? = some pos → pos ∈ places := by
  have hmirrors : Typing.Mirrors _ _ (check ds) _ := check_mirrors (φ := .keep places) hne
  rw [hds, h] at hmirrors
  have hp : p.move (.keep places) = p := (Except.ok.inj hmirrors).symm
  obtain ⟨d, hd⟩ := check_find_main h
  have hrun := run_move (φ := .keep places) p hd fuel args
  rw [hp] at hrun
  refine (Dialogue.always_of_map_eq hrun.symm).imp fun outcome houtcome => ?_
  rintro error pos rfl hpos
  cases error with
  | fault e =>
    cases hpos
    exact Position.mem_of_move_keep (RuntimeError.fault.inj (Outcome.error.inj houtcome))
  | host message => cases hpos

end Program

namespace Report

/-- The place is in line `l` of the source, where the character `c` stands, and a report at the
place shows this line and, after as many blanks as there are characters before `c`, a caret. -/
structure Marks (source : String) (pos : Position) (l : List Char) (c : Char) : Prop where
  counted : 1 ≤ pos.line ∧ 1 ≤ pos.column
  line : (lines source.toList)[pos.line - 1]? = some l
  char : l[pos.column - 1]? = some c
  caret : ∀ message, ∃ blanks rest,
    render source pos message =
      String.ofList l ++ "\n" ++ String.ofList blanks ++ "^\n" ++ rest ∧
    blanks.length = pos.column - 1 ∧ ∀ b ∈ blanks, b = ' ' ∨ b = '\t'

theorem marks {source : String} {pos : Position} {c : Char}
    (h : ShowsAt .start pos (lines source.toList) c) : ∃ l, Marks source pos l c := by
  obtain ⟨hbelow, hright, hcounted, l, hl, hc⟩ := h
  have hcolumn : 1 ≤ pos.column := by
    obtain hsame | hlater := Nat.eq_or_lt_of_le hbelow
    · exact hright hsame.symm
    · exact hcounted hlater
  have hc : l[pos.column - 1]? = some c := by
    split at hc <;> exact hc
  obtain ⟨hlength, _⟩ := List.getElem?_eq_some_iff.1 hc
  have hshown : line source pos.line = l := by
    have hl : (lines source.toList)[pos.line - 1]? = some l := hl
    rw [line, hl]
    rfl
  refine ⟨l, ⟨hbelow, hcolumn⟩, hl, hc, fun message => ?_⟩
  refine ⟨indent l (pos.column - 1), "(" ++ pos.text ++ ") " ++ message, ?_, ?_, ?_⟩
  · simp only [render, hshown, String.append_assoc]
  · rw [indent, List.length_map, List.length_take]
    omega
  · intro b hb
    obtain ⟨a, _, rfl⟩ := List.mem_map.1 hb
    split
    · exact .inr rfl
    · exact .inl rfl

theorem marks_of_standsAt {source : String} {pos : Position} {lexeme : List Char}
    (h : Lexeme.StandsAt .start pos source.toList lexeme) :
    ∃ c l, lexeme.head? = some c ∧ Marks source pos l c := by
  obtain ⟨⟨before, after, hsource, rfl⟩, c, hfirst, hblank⟩ := h
  obtain ⟨rest, rfl⟩ := List.head?_eq_some_iff.1 hfirst
  have hfeed : c ≠ '\n' := by
    rintro rfl
    cases hblank
  have hreturn : c ≠ '\r' := by
    rintro rfl
    cases hblank
  rw [List.append_assoc, List.cons_append] at hsource
  have hshows := lines_showsAt hfeed hreturn .start before (rest ++ after)
  rw [← hsource] at hshows
  obtain ⟨l, hmarks⟩ := marks hshows
  exact ⟨c, l, hfirst, hmarks⟩

/-- A place at the first character of a token of the source. -/
def PointsAtToken (source : String) (pos : Position) : Prop :=
  ∃ ts t c l, Token.ofSource source = .ok ts ∧ t ∈ ts ∧ t.pos = pos ∧
    t.text.toList.head? = some c ∧ Marks source pos l c

/-- A lexical error at the first character of the offending lexeme: of what a longest-match scan of
the source takes at the first place where no token begins, for the cause of the error. -/
def PointsAtLexeme (source : String) (e : LexicalError) : Prop :=
  ∃ passed lexeme rest c l, Token.FirstFault source.toList passed (lexeme ++ rest) e.cause ∧
    Lexeme.Taken lexeme rest ∧ e.pos = .following passed ∧ lexeme.head? = some c ∧
    Marks source e.pos l c

variable {source : String}

theorem pointsAtLexeme {e : LexicalError} (h : Token.ofSource source = .error e) :
    PointsAtLexeme source e := by
  obtain ⟨passed, rest, hfirst, hpos⟩ := Token.firstFault_of_ofSource h
  cases rest with
  | nil => exact absurd rfl hfirst.faulty.ne_nil
  | cons c cs =>
    have hblank := hfirst.faulty.tokenKind.1
    have happend := Lexeme.leading_append c cs
    have hstands : Lexeme.StandsAt .start e.pos source.toList (Lexeme.leading c cs).1.text := by
      refine ⟨⟨passed, (Lexeme.leading c cs).2, ?_, ?_⟩, c, Lexeme.head?_leading c cs, hblank⟩
      · rw [List.append_assoc, happend, hfirst.reaches.append]
      · rw [hpos, Position.start_after]
    obtain ⟨d, l, hhead, hmarks⟩ := marks_of_standsAt hstands
    rw [← happend] at hfirst
    exact ⟨passed, _, _, d, l, hfirst, Lexeme.taken_leading hblank cs, hpos, hhead, hmarks⟩

theorem pointsAtToken {ts : List Token} (hts : Token.ofSource source = .ok ts) {pos : Position}
    (hpos : pos ∈ ts.map Token.pos) : PointsAtToken source pos := by
  obtain ⟨t, ht, rfl⟩ := List.mem_map.1 hpos
  have hscan := (Token.ofSource_eq_scan source).symm.trans hts
  obtain ⟨c, l, hfirst, hmarks⟩ := marks_of_standsAt (Token.scan_ok_standsAt hscan t ht)
  exact ⟨ts, t, c, l, hts, ht, rfl, hfirst, hmarks⟩

end Report

open Report in
/-- Every error that has a place points into a source that is not blank: one of the scanner at the
lexeme that is no token, one of the parser, the checker or a run at a token. -/
theorem diagnostics_point_into_source {source : String} {c : Char} (hc : c ∈ source.toList)
    (hblank : Lexeme.isBlank c = false) :
    (∀ e, Token.ofSource source = .error e → PointsAtLexeme source e) ∧
    (∀ e, Decl.ofSource source = .error (.lexical e) → PointsAtLexeme source e) ∧
    (∀ e, Decl.ofSource source = .error (.syntactic e) → PointsAtToken source e.pos) ∧
    ∀ ds, Decl.ofSource source = .ok ds →
      (∀ e, Program.check ds = .error e → PointsAtToken source e.pos) ∧
      ∀ p, Program.check ds = .ok p → ∀ fuel args, (p.run fuel args).Always fun outcome =>
        ∀ error pos, outcome = .error error → error.pos? = some pos →
          PointsAtToken source pos := by
  refine ⟨fun e => pointsAtLexeme, fun e h => ?_, fun e h => ?_, fun ds h => ?_⟩
  · rw [Decl.ofSource] at h
    split at h
    · rename_i hts
      cases h
      exact pointsAtLexeme hts
    · split at h <;> cases h
  · rw [Decl.ofSource] at h
    split at h
    · cases h
    · rename_i ts hts
      split at h
      · rename_i hds
        cases h
        exact pointsAtToken hts (Decl.ofTokens_error_pos hds)
      · cases h
  · obtain ⟨ts, hts, hds⟩ := Decl.ofSource_eq_ok h
    have hscan := (Token.ofSource_eq_scan source).symm.trans hts
    have hne := Decl.ofTokens_ne_nil (Token.scan_ne_nil hscan hc hblank) hds
    have hkeep := Decl.ofTokens_move_keep hds
    refine ⟨fun e he => pointsAtToken hts (Program.check_error_pos hne hkeep he), ?_⟩
    intro p hp fuel args
    refine (Program.run_error_pos hne hkeep hp fuel args).imp fun outcome h => ?_
    exact fun error pos herror hpos => pointsAtToken hts (h error pos herror hpos)

open Report in
/-- A division by zero after a tab, on a line that follows a carriage return. -/
theorem diagnostics_point_into_source_division :
    ∃ ds p, Decl.ofSource "main(a:[[Int]]):Int=\r\n\t1/0" = .ok ds ∧
      Program.check ds = .ok p ∧
      p.run 4 [] = .done (.error (.fault ⟨.divisionByZero, ⟨2, 3⟩⟩)) ∧
      PointsAtToken "main(a:[[Int]]):Int=\r\n\t1/0" ⟨2, 3⟩ := by
  have hrun : ((Program.ofSource? "main(a:[[Int]]):Int=\r\n\t1/0").bind fun p =>
      (p.run 4 []).failure?) = some (.fault ⟨.divisionByZero, ⟨2, 3⟩⟩) := by
    decide +kernel
  obtain ⟨p, hp, hfailure⟩ := Option.bind_eq_some_iff.1 hrun
  obtain ⟨ds, hds, hcheck⟩ := Program.ofSource?_eq_some hp
  have hdone := Dialogue.eq_done_of_failure? hfailure
  have hmain : 'm' ∈ "main(a:[[Int]]):Int=\r\n\t1/0".toList := by decide
  obtain ⟨_, _, _, hpoints⟩ := diagnostics_point_into_source hmain rfl
  have hpos := (hpoints ds hds).2 p hcheck 4 []
  rw [hdone] at hpos
  exact ⟨ds, p, hds, hcheck, hdone, hpos _ _ rfl rfl⟩

end ExprLang
