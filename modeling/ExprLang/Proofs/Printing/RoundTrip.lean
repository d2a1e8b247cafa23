import ExprLang.Proofs.Places.Parsing
import ExprLang.Proofs.Printing.Reading
import ExprLang.Proofs.Printing.Scanning

namespace ExprLang

open Parse Reply Token

def Expr.Alike (e e' : Expr) : Prop := e.move .forget = e'.move .forget

theorem Token.exists_ofSource {source : String} {ts : List Token}
    (h : unplaced source.toList = some ts) :
    ∃ us, ofSource source = .ok us ∧ us.map (move .forget) = ts := by
  rw [unplaced] at h
  rw [ofSource_eq_scan]
  cases hscan : scan .start source.toList with
  | error e =>
    rw [hscan] at h
    cases h
  | ok us =>
    rw [hscan] at h
    exact ⟨us, rfl, Option.some.inj h⟩

namespace Decl

def headTokens : List Token := [.name "x", .mark ":", .name "Int", .mark "="]

theorem head_scans : Scans anything "x: Int = " headTokens := by
  have hname : IsName "x" := ⟨rfl, 'x', [], rfl, rfl, nofun⟩
  have hcolon : Scans anything ": " [.mark ":"] := (Scans.colon.thenBlank rfl).of_text rfl
  have hequals : Scans (endsOperator '=') "=" [.mark "="] := .mark '=' rfl (by decide)
  have hbody : Scans anything " = " [.mark "="] := (hequals.blankThen.thenBlank rfl).of_text rfl
  have hlabel := (Scans.name hname).append hcolon ⟨':', [' '], rfl, rfl⟩
  have htype := hlabel.free_append (Scans.name TypeExpr.isName_int)
  exact (htype.append hbody ⟨' ', ['=', ' '], rfl, rfl⟩).of_text rfl

theorem parse_headTokens {body : Expr} (h : body.ReadBack) (n : Nat) :
    (parse n).Reads (headTokens ++ body.tokens) []
      ⟨"x", .start, .int .start, body.move .forget⟩ := by
  intro last
  have htokens : headTokens ++ body.tokens ++ [] =
      [.name "x"] ++ ([.mark ":", .name "Int"] ++ .mark "=" :: (body.tokens ++ [])) := rfl
  have hsignature : (parseSignature n (.name "x")).Reads [.mark ":", .name "Int"]
      (.mark "=" :: (body.tokens ++ [])) (.int .start) := by
    intro last
    have hgenerics : (TypeExpr.optionalGenerics n).Reads []
        (.mark ":" :: .name "Int" :: .mark "=" :: (body.tokens ++ [])) [] :=
      fun _ => Gives.refuse (by rintro _ ⟨⟩; rfl) ⟨rfl, rfl⟩
    have hint : (TypeExpr.int .start).ReadBack := TypeExpr.readBack _ trivial trivial
    apply Gives.after hgenerics
    apply Gives.refuse (by rintro _ ⟨⟩; rfl)
    apply Gives.accept rfl
    exact hint.whole n _ (by rintro _ ⟨⟩; rfl) last
  rw [htokens]
  apply Gives.after (TypeExpr.identifier_reads _ ⟨"x", .start⟩ _)
  apply Gives.after hsignature
  apply Gives.expect rfl
  exact Gives.after (h.reads (by decide) .nil n) ⟨rfl, rfl⟩

theorem parseAll_single {d : Decl} {t : Token} {ts : List Token} {fuel : Nat}
    (h : (parse fuel).Reads (t :: ts) [] d) (n : Nat) :
    (parseAll fuel n).Reads (t :: ts) [] [d] := by
  have hend (n : Nat) : (parseAll fuel n).Reads [] [] [] := by
    intro last
    cases n with
    | zero => trivial
    | succ n =>
      rw [parseAll]
      exact ⟨rfl, rfl⟩
  intro last
  cases n with
  | zero => trivial
  | succ n =>
    rw [parseAll, run_bind]
    exact Gives.after h (Gives.after (hend n) ⟨rfl, rfl⟩)

/-- The tokens of a shown body, after the head of a declaration, have that declaration. -/
theorem ofTokens_headTokens {body : Expr} (h : body.ReadBack) :
    ofTokens (headTokens ++ body.tokens) =
      .ok [⟨"x", .start, .int .start, body.move .forget⟩] := by
  apply ofTokens_of_gives
  have hgives := parseAll_single (parse_headTokens h (fuelFor (headTokens ++ body.tokens)))
    ((headTokens ++ body.tokens).length + 1) (lastPos (headTokens ++ body.tokens))
  rw [List.append_nil] at hgives
  exact hgives.imp fun ds rest hds => hds.1

/-- A body that a source has is found again in its own text. -/
theorem ofSource_text {source : String} {ds : List Decl} (hsource : ofSource source = .ok ds)
    {d : Decl} (hd : d ∈ ds) (hbody : d.body.Unambiguous) :
    ∃ d', ofSource ("x: Int = " ++ d.body.text) = .ok [d'] ∧ d'.body.Alike d.body := by
  have hspelled := (ofSource_wellSpelled hsource d hd).body
  have hscans := (head_scans.free_append (d.body.scans hspelled)) [] rfl
  rw [List.append_nil, unplaced_nil, Option.map_some, List.append_nil] at hscans
  obtain ⟨ts, hts, hmove⟩ := Token.exists_ofSource hscans
  have hparse := ofTokens_move (φ := .forget) ts
  rw [hmove, ofTokens_headTokens (d.body.readBack hspelled hbody)] at hparse
  cases hds : ofTokens ts with
  | error e =>
    rw [hds] at hparse
    cases hparse
  | ok ds' =>
    rw [hds] at hparse
    have hmap : ds'.map (move .forget) = [⟨"x", .start, .int .start, d.body.move .forget⟩] :=
      (Except.ok.inj hparse).symm
    obtain ⟨d', rest, rfl, hd', hrest⟩ := List.map_eq_cons_iff.1 hmap
    obtain rfl := List.map_eq_nil_iff.1 hrest
    refine ⟨d', ?_, congrArg body hd'⟩
    rw [ofSource, hts]
    dsimp only
    rw [hds]

/-- Most forms of expressions, and a string of characters that have to be escaped. -/
def manyForms : String :=
  "f(p: Int): Int = if (h ~ t) <- \"\\\"\\n\" then let (x,) <- (p,) in" ++
    " -f\x7b(Int,), [Bool]\x7d(x ** 2 ~ t)(true) else [[] of \x7bB\x7d B(y: B, z: (Int))]"

theorem ofSource_text_manyForms :
    ∃ ds d, ofSource manyForms = .ok ds ∧ d ∈ ds ∧ d.body.Unambiguous ∧
      ∃ d', ofSource ("x: Int = " ++ d.body.text) = .ok [d'] ∧ d'.body.Alike d.body := by
  have hforms : ((ofSource manyForms).toOption.map fun ds =>
      ds.map fun d => decide d.body.Unambiguous) = some [true] := by
    decide +kernel
  cases hsource : ofSource manyForms with
  | error e =>
    rw [hsource] at hforms
    cases hforms
  | ok ds =>
    rw [hsource] at hforms
    obtain ⟨d, rest, rfl, hd, -⟩ := List.map_eq_cons_iff.1 (Option.some.inj hforms)
    have hbody := of_decide_eq_true hd
    exact ⟨_, d, rfl, List.mem_cons_self, hbody, ofSource_text hsource List.mem_cons_self hbody⟩

end Decl

end ExprLang
