import ExprLang.Proofs.Parsing.Continuation
import ExprLang.Proofs.Typing.Checked

namespace ExprLang

open Parse

/-- There are no tokens, or the first one is an identifier. -/
def Token.BeginsAnew (us : List Token) : Prop :=
  ∀ t, us.head? = some t → t.kind = .identifier

variable {us : List Token}

theorem Token.BeginsAnew.noneNext (hus : BeginsAnew us) (symbol : String) :
    NoneNext symbol us := by
  intro t ht
  rw [isSymbol, hus t ht]

theorem Token.BeginsAnew.atEnd (hus : BeginsAnew us) : Expr.AtEnd us := by
  intro t ht
  rw [Suffix.ofToken?, isKeyword, hus t ht]
  exact ⟨rfl, rfl⟩

variable (hus : Token.BeginsAnew us)

namespace Decl

include hus

theorem parseSignature_continues (n n' : Nat) (label : Token) :
    Continues us (parseSignature n label) (parseSignature n' label) := by
  have htype := TypeExpr.parse_continues hus.atEnd n n'
  apply (TypeExpr.optionalGenerics_continues (hus.noneNext _) n n').bind
  intro generics
  apply (Continues.accept (hus.noneNext _)).bind
  intro opened
  split
  · apply (TypeExpr.params_continues htype n n').bind
    intro ps
    apply (Continues.accept (hus.noneNext _)).bind
    intro typed
    split
    · apply htype.bind
      exact fun ret => .pure _
    · exact .failHere _
  · apply (Continues.accept (hus.noneNext _)).bind
    intro typed
    split
    · cases generics with
      | nil => exact htype
      | cons g gs => exact .fail _ _
    · exact .failHere _

theorem parse_continues (n n' : Nat) : Continues us (parse n) (parse n') := by
  apply (Continues.identifier _).bind
  intro label
  apply (parseSignature_continues hus n n' label).bind
  intro signature
  apply (Continues.expect _).bind
  intro _
  apply (Expr.parse_continues hus.atEnd n n' _).bind
  exact fun body => .pure _

omit hus in
theorem parseAll_cons {n m : Nat} {last : Position} {t : Token} {ts rest : List Token}
    {ds : List Decl} (h : (parseAll n (m + 1)).run last (t :: ts) = .ok ds rest) :
    ∃ d left ds', (parse n).run last (t :: ts) = .ok d left ∧
      (parseAll n m).run last left = .ok ds' rest ∧ ds = d :: ds' := by
  obtain ⟨t?, left, hpeek, h⟩ := run_bind_eq_ok.1 h
  cases hpeek
  obtain ⟨d, left, hd, h⟩ := run_bind_eq_ok.1 h
  obtain ⟨ds', left', hds', h⟩ := run_bind_eq_ok.1 h
  cases h
  exact ⟨d, left, ds', hd, hds', rfl⟩

/-- Where `us` spells the declarations `es`, what is read before them is read as without them. The
induction is on the rounds of the run without `us`. -/
theorem parseAll_append {n m : Nat} {last : Position} {ts rest : List Token} {ds es : List Decl}
    (hes : ∀ n m last, ((parseAll n m).run last us).Gives fun es' _ => es' = es)
    (h : (parseAll n m).run last ts = .ok ds rest) (n' m' : Nat) (last' : Position) :
    ((parseAll n' m').run last' (ts ++ us)).Gives fun ds' _ => ds' = ds ++ es := by
  induction m generalizing ts ds m' with
  | zero => cases h
  | succ m ih =>
    cases ts with
    | nil =>
      cases h
      exact hes n' m' last'
    | cons t ts =>
      cases m' with
      | zero => trivial
      | succ m' =>
        obtain ⟨d, left, ds', hd, hds', rfl⟩ := parseAll_cons h
        apply (parse_continues hus n n' last (t :: ts) d left hd last').bind
        rintro _ _ ⟨rfl, rfl⟩
        apply (ih hds' m').bind
        rintro _ _ rfl
        rfl

omit hus

/-- Tokens that spell declarations are read alike with any fuel and in any number of rounds. -/
theorem parseAll_gives {es : List Decl} (h : ofTokens us = .ok es) (n m : Nat) (last : Position) :
    ((parseAll n m).run last us).Gives fun es' _ => es' = es := by
  obtain ⟨rest, hread⟩ := ofTokens_eq_ok h
  have hnil : Token.BeginsAnew [] := nofun
  have hend (n m : Nat) (last : Position) :
      ((parseAll n m).run last []).Gives fun es' _ => es' = [] := by
    cases m with
    | zero => trivial
    | succ m => rfl
  have hgives := parseAll_append hnil hend hread n m last
  rw [List.append_nil, List.append_nil] at hgives
  exact hgives

theorem beginsAnew_of_ofTokens {es : List Decl} (h : ofTokens us = .ok es) :
    Token.BeginsAnew us := by
  intro u hu
  obtain ⟨rest, hread⟩ := ofTokens_eq_ok h
  cases us with
  | nil => cases hu
  | cons u' us =>
    cases hu
    obtain ⟨d, left, ds', hd, _⟩ := parseAll_cons hread
    obtain ⟨label, left, hlabel, _⟩ := run_bind_eq_ok.1 hd
    obtain ⟨_, _, hnext, hlabel⟩ := run_bind_eq_ok.1 hlabel
    cases hnext
    split at hlabel
    · assumption
    · cases hlabel

/-- Two lists of tokens that spell declarations spell, one after the other, the declarations of
both, at the same places. -/
theorem ofTokens_append {ts us : List Token} {ds es : List Decl} (hts : ofTokens ts = .ok ds)
    (hus : ofTokens us = .ok es) : ofTokens (ts ++ us) = .ok (ds ++ es) := by
  obtain ⟨rest, hread⟩ := ofTokens_eq_ok hts
  apply ofTokens_of_gives
  exact parseAll_append (beginsAnew_of_ofTokens hus) (parseAll_gives hus) hread _ _ _

/-- `f` ends with a type, which parameters could follow, and `g` with an operand, which arguments
could follow. -/
theorem ofTokens_append_labels :
    ∃ ts us ds es,
      Token.ofSource "f: [Int] = [] of Int g(n: Int): Int = if n == 0 then n else -n" = .ok ts ∧
      Token.ofSource "h(n: Int): Int = let (a, b) <- (n, g) in b(a)" = .ok us ∧
      ofTokens ts = .ok ds ∧ ofTokens us = .ok es ∧ ds.map label = ["f", "g"] ∧
      ofTokens (ts ++ us) = .ok (ds ++ es) := by
  have hts : ((Token.ofSource
      "f: [Int] = [] of Int g(n: Int): Int = if n == 0 then n else -n").toOption.bind
        fun ts => (ofTokens ts).toOption.map (List.map label)) = some ["f", "g"] := by
    decide +kernel
  have hus : ((Token.ofSource "h(n: Int): Int = let (a, b) <- (n, g) in b(a)").toOption.bind
      fun us => (ofTokens us).toOption).isSome = true := by
    decide +kernel
  obtain ⟨ts, hscan, hts⟩ := Option.bind_eq_some_iff.1 hts
  obtain ⟨ds, hds, hlabels⟩ := Option.map_eq_some_iff.1 hts
  obtain ⟨es, hus⟩ := Option.isSome_iff_exists.1 hus
  obtain ⟨us, hscan', hes⟩ := Option.bind_eq_some_iff.1 hus
  have hds := eq_ok_of_toOption hds
  have hes := eq_ok_of_toOption hes
  exact ⟨ts, us, ds, es, eq_ok_of_toOption hscan, eq_ok_of_toOption hscan', hds, hes, hlabels,
    ofTokens_append hds hes⟩

end Decl

end ExprLang
