import ExprLang.Proofs.Printing.Reading

namespace ExprLang

open Parse Reply

variable {opening closing : Token} {ts us : List Token} {e : Expr}

/-- With enough fuel a parser takes the tokens that it takes with any. -/
theorem Parse.Reads.run_eq_ok {α : Type} {p : Parse α} {a : α} {k : Nat} (h : p.Reads ts us a)
    (hends : p.Ends (ts ++ us).length k) (last : Position) :
    p.run last (ts ++ us) = .ok a us := by
  have hgives := h last
  have hfuel := (hends last (ts ++ us) (Nat.le_refl _)).ne_outOfFuel
  revert hgives hfuel
  cases p.run last (ts ++ us) with
  | ok b left =>
    rintro ⟨rfl, rfl⟩ _
    rfl
  | error e => exact fun hgives _ => hgives.elim
  | outOfFuel => exact fun _ hfuel => absurd rfl hfuel

namespace Expr

theorem AtEnd.of_isSymbol {t : Token} {symbol : String} (ht : t.isSymbol symbol = true)
    (hsymbol : ∀ c pos, Suffix.ofToken? ⟨.symbol c, symbol, pos⟩ = none) (rest : List Token) :
    AtEnd (t :: rest) := by
  obtain ⟨c, pos, rfl⟩ := Token.eq_symbol ht
  exact .cons (hsymbol c pos) rfl rest

theorem opens_of_parse {n floor : Nat} {last : Position} {rest : List Token}
    (h : (parse n floor).run last ts = .ok e rest) : Opens ts := by
  cases ts with
  | nil => exact absurd h (parse_needsToken n floor last e rest)
  | cons t ts =>
    refine ⟨t, ts, rfl, List.any_eq_false.2 fun close hclose ht => ?_⟩
    cases n with
    | zero => cases h
    | succ n =>
      obtain ⟨node, left, hnode, -⟩ := run_bind_eq_ok.1 h
      cases n with
      | zero => cases hnode
      | succ n =>
        obtain ⟨c, pos, rfl⟩ := Token.eq_symbol ht
        simp only [closers, List.mem_cons, List.not_mem_nil, or_false] at hclose
        obtain rfl | rfl | rfl := hclose <;> cases hnode

section Brackets

variable (hopening : opening.isSymbol "(" = true) (hclosing : closing.isSymbol ")" = true)
  {n : Nat} {last : Position} (h : (parse n lowest).run last ts = .ok e [])
include h

/-- What is an expression to its end is the same expression where none goes on. -/
theorem parse_reads (hus : AtEnd us) (n' : Nat) : (parse n' lowest).Reads ts us e :=
  parse_continues hus n n' lowest last ts e [] h

include hopening hclosing

theorem operand_grouped (n' : Nat) (last' : Position) :
    ((operand (n' + 1)).run last' (opening :: (ts ++ [closing]) ++ us)).Gives fun a left =>
      a = e ∧ left = us := by
  have hend : AtEnd (closing :: us) := .of_isSymbol hclosing (fun _ _ => rfl) us
  exact grouped_gives hopening hclosing (opens_of_parse h) (parse_reads h hend) n' last'

theorem operand_single {comma : Token} (hcomma : comma.isSymbol "," = true) (n' : Nat)
    (last' : Position) :
    ((operand (n' + 1)).run last' (opening :: (ts ++ [comma, closing]) ++ us)).Gives
      fun a left => a = tuple opening.pos [e] ∧ left = us := by
  have hend : AtEnd (comma :: closing :: us) := .of_isSymbol hcomma (fun _ _ => rfl) _
  rw [List.cons_append, operand_parenthesis n' last' _ hopening]
  have hseries := series_single_comma hclosing (opens_of_parse h) hcomma (parse_reads h hend n') n'
  exact Gives.after hseries ⟨rfl, rfl⟩

end Brackets

/-- Brackets around an expression leave it as it is, all its places with it, where no expression
goes on after them. Only a comma before the closing bracket makes a tuple of it. -/
theorem parse_grouped (hopening : opening.isSymbol "(" = true)
    (hclosing : closing.isSymbol ")" = true) {n : Nat} {last : Position}
    (h : (parse n lowest).run last ts = .ok e []) (hus : AtEnd us) (floor : Nat)
    (last' : Position) :
    (∀ fuel, 2 * (opening :: ts ++ closing :: us).length + 2 ≤ fuel →
      (parse fuel floor).run last' (opening :: ts ++ closing :: us) = .ok e us) ∧
    ∀ comma : Token, comma.isSymbol "," = true →
      ∀ fuel, 2 * (opening :: ts ++ comma :: closing :: us).length + 2 ≤ fuel →
        (parse fuel floor).run last' (opening :: ts ++ comma :: closing :: us) =
          .ok (tuple opening.pos [e]) us := by
  constructor
  · intro fuel hfuel
    have htokens : opening :: ts ++ closing :: us = opening :: (ts ++ [closing]) ++ us := by
      simp only [List.cons_append, List.append_assoc, List.nil_append]
    rw [htokens] at hfuel ⊢
    have hreads := parse_reads_of_operand hus (operand_grouped hopening hclosing h) fuel floor
    exact hreads.run_eq_ok (parse_ends hfuel floor) last'
  · intro comma hcomma fuel hfuel
    have htokens : opening :: ts ++ comma :: closing :: us =
        opening :: (ts ++ [comma, closing]) ++ us := by
      simp only [List.cons_append, List.append_assoc, List.nil_append]
    rw [htokens] at hfuel ⊢
    have hreads := parse_reads_of_operand hus (operand_single hopening hclosing h hcomma) fuel floor
    exact hreads.run_eq_ok (parse_ends hfuel floor) last'

/-- The last branch goes on as far as it can, and so does the type that it ends with. The context
keeps to a power that no suffix exceeds. -/
theorem parse_grouped_conditional :
    ∃ ts e, ts.map Token.text = ["if", "b", "then", "n", "else", "[", "]", "of", "Int"] ∧
      (parse 20 lowest).run .start ts = .ok e [] ∧
      (parse 60 Suffix.call.power).run .start
        (Token.mark "(" :: ts ++ Token.mark ")" :: [.keyword .kwThen]) =
          .ok e [.keyword .kwThen] ∧
      (parse 60 Suffix.call.power).run .start
        (Token.mark "(" :: ts ++ Token.mark "," :: Token.mark ")" :: [.keyword .kwThen]) =
          .ok (tuple .start [e]) [.keyword .kwThen] := by
  have hread : ∃ e, (parse 20 lowest).run .start
      [⟨.keyword .kwIf, "if", ⟨1, 2⟩⟩, ⟨.identifier, "b", ⟨1, 5⟩⟩,
        ⟨.keyword .kwThen, "then", ⟨1, 7⟩⟩, ⟨.identifier, "n", ⟨1, 12⟩⟩,
        ⟨.keyword .kwElse, "else", ⟨1, 14⟩⟩, ⟨.symbol .punctuation, "[", ⟨1, 19⟩⟩,
        ⟨.symbol .punctuation, "]", ⟨1, 20⟩⟩, ⟨.keyword .kwOf, "of", ⟨1, 22⟩⟩,
        ⟨.identifier, "Int", ⟨1, 25⟩⟩] =
      .ok e [] := ⟨_, rfl⟩
  obtain ⟨e, hread⟩ := hread
  have hus : AtEnd [.keyword .kwThen] := .cons rfl rfl []
  obtain ⟨hgrouped, htuple⟩ := parse_grouped (Token.isSymbol_mark "(") (Token.isSymbol_mark ")")
    hread hus Suffix.call.power .start
  refine ⟨_, e, rfl, hread, hgrouped 60 (by decide), ?_⟩
  exact htuple _ (Token.isSymbol_mark ",") 60 (by decide)

end Expr

end ExprLang
