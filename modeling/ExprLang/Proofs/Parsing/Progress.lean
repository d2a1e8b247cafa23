import ExprLang.Proofs.Parsing.Persistence
import ExprLang.Proofs.Parsing.Succession
import ExprLang.Proofs.Parsing.Yield
import ExprLang.Proofs.Places.Diagnostics
import Mathlib.Data.List.Forall2

namespace ExprLang

variable {α β : Type}

/-- From every index of every list of tokens the parser ends with enough fuel, its reply is the same
with all fuel with which it ends, and a value leaves it at least `k` tokens further on, not beyond
the end of the list. -/
structure Parse.Progresses (k : Nat) (p : Nat → Parse α) : Prop where
  ends : ∀ last (ts : List Token) i fuel, 2 * (ts.length - i) + 2 ≤ fuel →
    (p fuel).run last (ts.drop i) ≠ .outOfFuel
  settles : ∀ last (ts : List Token) i fuel fuel', fuel ≤ fuel' →
    (p fuel).run last (ts.drop i) ≠ .outOfFuel →
    (p fuel').run last (ts.drop i) = (p fuel).run last (ts.drop i)
  advances : ∀ last (ts : List Token) i fuel a rest, i ≤ ts.length →
    (p fuel).run last (ts.drop i) = .ok a rest →
    ∃ j, i + k ≤ j ∧ j ≤ ts.length ∧ rest = ts.drop j

def Parse.EndsAs (p q : Parse α) : Prop :=
  ∀ last ts, p.run last ts ≠ .outOfFuel → q.run last ts = p.run last ts

/-- What a parser leaves is the end of what it was given. -/
def Parse.Forward (p : Parse α) : Prop :=
  ∀ last ts a rest, p.run last ts = .ok a rest → rest <:+ ts

namespace Parse.EndsAs

theorem refl (p : Parse α) : EndsAs p p := fun _ _ _ => rfl

theorem bind {p q : Parse α} {k k' : α → Parse β} (hp : EndsAs p q)
    (hk : ∀ a, EndsAs (k a) (k' a)) : EndsAs (p >>= k) (q >>= k') := by
  intro last ts hends
  rw [run_bind] at hends ⊢
  rw [run_bind]
  cases hrun : p.run last ts with
  | ok a left =>
    rw [hrun] at hends
    have hq : q.run last ts = .ok a left := by rw [hp last ts (by rw [hrun]; nofun), hrun]
    rw [hq]
    exact hk a last left hends
  | error e =>
    have hq : q.run last ts = .error e := by rw [hp last ts (by rw [hrun]; nofun), hrun]
    rw [hq]
  | outOfFuel =>
    rw [hrun] at hends
    exact absurd rfl hends

theorem series {item item' : Parse α} (h : EndsAs item item') (close : String) (trailing : Bool)
    {n n' : Nat} (hn : n ≤ n') :
    EndsAs (Parse.series close item trailing n) (Parse.series close item' trailing n') := by
  induction n generalizing trailing n' with
  | zero => exact fun _ _ hends => absurd rfl hends
  | succ n ih =>
    cases n' with
    | zero => cases hn
    | succ n' =>
      apply (refl (accept close)).bind
      intro closed
      split
      · exact refl _
      · apply h.bind
        intro a
        apply (refl (accept ",")).bind
        intro more
        split
        · apply (ih true (Nat.le_of_succ_le_succ hn)).bind
          exact fun _ => refl _
        · exact refl _

end Parse.EndsAs

namespace Parse.Forward

theorem of_persists {p q : Parse α} (h : Persists p q) : p.Forward := by
  intro last ts a rest hrun
  obtain ⟨taken, rfl, -⟩ := h.exists_taken hrun
  exact List.suffix_append taken rest

theorem bind {p : Parse α} {k : α → Parse β} (hp : p.Forward) (hk : ∀ a, (k a).Forward) :
    (p >>= k).Forward := by
  intro last ts b rest hrun
  obtain ⟨a, left, hrun, hrun'⟩ := run_bind_eq_ok.1 hrun
  exact (hk a last left b rest hrun').trans (hp last ts a left hrun)

theorem pure (a : α) : (Pure.pure a : Parse α).Forward := of_persists (.pure a)

theorem series {item : Parse α} (h : item.Forward) (close : String) (trailing : Bool) (n : Nat) :
    (Parse.series close item trailing n).Forward := by
  induction n generalizing trailing with
  | zero => exact fun _ _ _ _ hrun => nomatch hrun
  | succ n ih =>
    apply (of_persists (.accept close)).bind
    intro closed
    split
    · exact pure _
    · apply h.bind
      intro a
      apply (of_persists (.accept ",")).bind
      intro more
      split
      · apply (ih true).bind
        exact fun _ => pure _
      · apply (of_persists (.expect close)).bind
        exact fun _ => pure _

end Parse.Forward

namespace Parse.Progresses

variable {k : Nat} {p : Nat → Parse α}

/-- A parser sees only the tokens that are left, so what holds from the first index holds from
each. -/
theorem of_ends (hends : ∀ n fuel, 2 * n + 2 ≤ fuel → (p fuel).Ends n k)
    (hsettles : ∀ fuel fuel', fuel ≤ fuel' → EndsAs (p fuel) (p fuel'))
    (hforward : ∀ fuel, (p fuel).Forward) : Progresses k p where
  ends last ts i fuel hfuel := by
    rw [← List.length_drop] at hfuel
    exact (hends _ fuel hfuel last _ (Nat.le_refl _)).ne_outOfFuel
  settles last ts i fuel fuel' hle hrun := hsettles fuel fuel' hle last _ hrun
  advances last ts i fuel a rest hi hrun := by
    -- With more fuel the same value is left, and enough of it bounds the number of tokens left.
    have hmore : (p (max fuel (2 * (ts.drop i).length + 2))).run last (ts.drop i) = .ok a rest := by
      rw [hsettles fuel _ (Nat.le_max_left ..) last _ (by rw [hrun]; nofun), hrun]
    have htakes := hends _ _ (Nat.le_max_right fuel _) last (ts.drop i) (Nat.le_refl _)
    rw [hmore] at htakes
    have hlength : rest.length + k ≤ (ts.drop i).length := htakes
    have hsuffix : rest <:+ ts := (hforward fuel last _ a rest hrun).trans (List.drop_suffix i ts)
    rw [List.length_drop] at hlength
    exact ⟨ts.length - rest.length, by omega, Nat.sub_le .., List.suffix_iff_eq_drop.1 hsuffix⟩

theorem of_persists (hends : ∀ n fuel, 2 * n + 2 ≤ fuel → (p fuel).Ends n k)
    (h : ∀ fuel fuel', fuel ≤ fuel' → Persists (p fuel) (p fuel')) : Progresses k p :=
  of_ends hends (fun fuel fuel' hle _ _ hrun => (h fuel fuel' hle).run_eq hrun)
    fun fuel => .of_persists (h fuel fuel (Nat.le_refl _))

theorem endsWithin (h : Progresses k p) {n fuel : Nat} (hfuel : 2 * n + 2 ≤ fuel) :
    (p fuel).Ends n k := by
  intro last ts hts
  have hends := h.ends last ts 0 fuel (by omega)
  rw [List.drop_zero] at hends
  cases hrun : (p fuel).run last ts with
  | ok a rest =>
    obtain ⟨j, hj, hlength, rfl⟩ := h.advances last ts 0 fuel a rest (Nat.zero_le _) hrun
    simp only [Reply.Takes, List.length_drop]
    omega
  | error e => trivial
  | outOfFuel => exact absurd hrun hends

theorem forward (h : Progresses k p) (fuel : Nat) : (p fuel).Forward := by
  intro last ts a rest hrun
  obtain ⟨j, -, -, rfl⟩ := h.advances last ts 0 fuel a rest (Nat.zero_le _) hrun
  exact List.drop_suffix j ts

/-- A series of items makes progress by its closing bracket and its commas, even where its items
take no token at all. -/
theorem series {item : Nat → Parse α} (h : Progresses 0 item) (close : String)
    (trailing : Bool) : Progresses 1 fun fuel => Parse.series close (item fuel) trailing fuel := by
  refine of_ends (fun n fuel hfuel => ?_) (fun fuel fuel' hle => ?_) fun fuel => ?_
  · exact .series close trailing (h.endsWithin hfuel) (by omega)
  · refine EndsAs.series (fun last ts => ?_) close trailing hle
    exact h.settles last ts 0 fuel fuel' hle
  · exact (h.forward fuel).series close trailing fuel

end Parse.Progresses

open Parse

namespace TypeExpr

def bracedNames (fuel : Nat) : Parse (List Name) := do
  expect "\x7b"
  genericNames fuel

theorem optionalGenerics_eq (fuel : Nat) :
    optionalGenerics fuel =
      (do if (← peek).any (Token.isSymbol · "\x7b") then bracedNames fuel else pure []) := by
  funext last ts
  cases ts with
  | nil => rfl
  | cons t ts =>
    change (optionalGenerics fuel).run last (t :: ts) =
      Parse.run (if t.isSymbol "\x7b" then bracedNames fuel else pure []) last (t :: ts)
    have haccept : (accept "\x7b").run last (t :: ts) =
        if t.isSymbol "\x7b" then .ok true ts else .ok false (t :: ts) := rfl
    have hexpect : (expect "\x7b").run last (t :: ts) =
        Parse.run (if t.isSymbol "\x7b" then pure () else
          if closers.contains "\x7b" && closers.any t.isSymbol then
            fail (.mismatchedDelimiter "\x7b" t.text) t.pos
          else unexpected (quote "\x7b") t) last ts := rfl
    rw [optionalGenerics, run_bind, haccept]
    cases ht : t.isSymbol "\x7b" with
    | true =>
      rw [ht] at hexpect
      rw [if_pos rfl, if_pos rfl, bracedNames, run_bind, hexpect]
      rfl
    | false => rfl

theorem parse_progresses : Progresses 1 parse :=
  .of_persists (fun _ _ => parse_ends) fun _ _ => parse_persists

theorem params_progresses : Progresses 1 fun fuel => params (parse fuel) fuel :=
  .of_persists (fun _ _ hfuel => params_ends (parse_ends hfuel) (by omega))
    fun _ _ hle => params_persists (parse_persists hle) hle

theorem bracedNames_progresses : Progresses 1 bracedNames := by
  refine .of_persists (fun n fuel hfuel => ?_) fun fuel fuel' hle => ?_
  · have hnames : (genericNames fuel).Ends n 1 := genericNames_ends (by omega)
    exact Ends.bind_zero (Ends.expect _).weaken fun _ => hnames
  · exact (Persists.expect _).bind fun _ => genericNames_persists hle

end TypeExpr

theorem Expr.parse_progresses (floor : Nat) : Progresses 1 (Expr.parse · floor) :=
  .of_persists (fun _ _ hfuel => Expr.parse_ends hfuel floor)
    fun _ _ hle => Expr.parse_persists hle floor

namespace Decl

variable {ts : List Token} {ds : List Decl}

theorem parse_progresses : Progresses 1 parse :=
  .of_persists (fun _ _ => parse_ends) fun _ _ => parse_persists

/-- The tokens fall into stretches, one after the other, each of which alone spells the declaration
at its place in the list. -/
def Cover (ts : List Token) (ds : List Decl) : Prop :=
  ∃ parts : List (List Token), ts = parts.flatten ∧
    List.Forall₂ (fun part d => ofTokens part = .ok [d]) parts ds

theorem parseAll_eq_readAll {fuel : Nat} (hfuel : fuelFor ts ≤ fuel) :
    (parseAll fuel fuel).run (lastPos ts) ts = readAll ts := by
  have hrounds : ts.length + 1 ≤ fuel := by
    rw [fuelFor] at hfuel
    omega
  exact (parseAll_persists hfuel hrounds).run_eq (readAll_ne_outOfFuel ts)

theorem ofTokens_eq_error {e : SyntaxError} (h : ofTokens ts = .error e) :
    readAll ts = .error e := by
  revert h
  unfold ofTokens
  generalize readAll_ne_outOfFuel ts = hfuel
  revert hfuel
  cases readAll ts with
  | ok ds rest => exact fun _ h => nomatch h
  | error e' =>
    intro _ h
    cases h
    rfl
  | outOfFuel => exact fun hfuel => absurd rfl hfuel

theorem ofTokens_of_run {fuel rounds : Nat} {last : Position} {rest : List Token}
    (h : (parseAll fuel rounds).run last ts = .ok ds rest) : ofTokens ts = .ok ds := by
  have hfuel := parseAll_persists (Nat.le_max_left fuel (fuelFor ts))
    (Nat.le_max_left rounds (ts.length + 1))
  have hfuel' := parseAll_persists (Nat.le_max_right fuel (fuelFor ts))
    (Nat.le_max_right rounds (ts.length + 1))
  have hread : readAll ts = .ok ds rest := by
    rw [← hfuel.run_eq_ok h (lastPos ts)]
    exact (hfuel'.run_eq (readAll_ne_outOfFuel ts)).symm
  apply ofTokens_of_gives
  rw [hread]
  rfl

theorem ofTokens_single {fuel : Nat} {last : Position} {d : Decl}
    (h : (parse fuel).run last ts = .ok d []) : ofTokens ts = .ok [d] := by
  cases ts with
  | nil =>
    have hneeds : (parse fuel).NeedsToken := (NeedsToken.identifier _).bind _
    exact absurd h (hneeds last d [])
  | cons t ts =>
    have hrun : (parseAll fuel 2).run last (t :: ts) = .ok [d] [] := by
      refine run_bind_eq_ok.2 ⟨some t, t :: ts, rfl, ?_⟩
      exact run_bind_eq_ok.2 ⟨d, [], h, rfl⟩
    exact ofTokens_of_run hrun

/-- The induction is on the rounds: each takes the stretch of one declaration. -/
theorem cover_of_run {fuel rounds : Nat} {last : Position} {rest : List Token}
    (h : (parseAll fuel rounds).run last ts = .ok ds rest) : Cover ts ds := by
  induction rounds generalizing ts ds with
  | zero => cases h
  | succ rounds ih =>
    cases ts with
    | nil =>
      cases h
      exact ⟨[], rfl, .nil⟩
    | cons t ts =>
      obtain ⟨d, left, ds', hd, hds', rfl⟩ := parseAll_cons h
      obtain ⟨part, hts, hpart⟩ := (parse_persists (Nat.le_refl fuel)).exists_taken hd
      obtain ⟨parts, rfl, hparts⟩ := ih hds'
      exact ⟨part :: parts, hts, .cons (ofTokens_single (hpart last)) hparts⟩

end Decl

/-- Each parser makes progress from every index of every list of tokens, and so does a series of any
items that end within the list. A list of tokens has declarations that cover it, or an error at one
of its tokens, and a run over it ends with the one or the other. -/
theorem parsers_progress :
    Progresses 1 Decl.parse ∧ (∀ floor, Progresses 1 (Expr.parse · floor)) ∧
    Progresses 1 TypeExpr.parse ∧
    (Progresses 1 fun fuel => TypeExpr.params (TypeExpr.parse fuel) fuel) ∧
    Progresses 1 TypeExpr.bracedNames ∧
    (∀ (α : Type) (item : Nat → Parse α) (close : String) (trailing : Bool),
      Progresses 0 item → Progresses 1 fun fuel => series close (item fuel) trailing fuel) ∧
    ∀ ts,
      (∃ ds, Decl.ofTokens ts = .ok ds ∧ Decl.Cover ts ds ∧ ∀ fuel, Decl.fuelFor ts ≤ fuel →
        (Decl.parseAll fuel fuel).run (Decl.lastPos ts) ts = .ok ds []) ∨
      ∃ e, Decl.ofTokens ts = .error e ∧ (∃ t ∈ ts, t.pos = e.pos) ∧
        ∀ fuel, Decl.fuelFor ts ≤ fuel →
          (Decl.parseAll fuel fuel).run (Decl.lastPos ts) ts = .error e := by
  refine ⟨Decl.parse_progresses, Expr.parse_progresses, TypeExpr.parse_progresses,
    TypeExpr.params_progresses, TypeExpr.bracedNames_progresses,
    fun α item close trailing h => h.series close trailing, fun ts => ?_⟩
  cases hts : Decl.ofTokens ts with
  | ok ds =>
    obtain ⟨rest, hread⟩ := Decl.ofTokens_eq_ok hts
    obtain rfl := Decl.parseAll_rest hread
    refine .inl ⟨ds, rfl, Decl.cover_of_run hread, fun fuel hfuel => ?_⟩
    rw [Decl.parseAll_eq_readAll hfuel, hread]
  | error e =>
    have hpos := List.mem_map.1 (Decl.ofTokens_error_pos hts)
    refine .inr ⟨e, rfl, hpos, fun fuel hfuel => ?_⟩
    rw [Decl.parseAll_eq_readAll hfuel, Decl.ofTokens_eq_error hts]

/-- Items that take no token, and a bracket that another one's closing bracket follows. -/
theorem parsers_progress_mismatched :
    (Progresses 0 fun _ => (pure () : Parse Unit)) ∧
    (Progresses 1 fun fuel => series ")" (pure () : Parse Unit) false fuel) ∧
    ∃ ts e, Token.ofSource "f: Int = 1 g: Int = (2, ]" = .ok ts ∧
      Decl.ofTokens ts = .error e ∧ ∃ t ∈ ts, t.pos = e.pos := by
  obtain ⟨-, -, -, -, -, hseries, hall⟩ := parsers_progress
  have hidle : Progresses 0 fun _ => (pure () : Parse Unit) :=
    .of_persists (fun _ _ _ => Ends.pure ()) fun _ _ _ => .pure ()
  have hscan : ((Token.ofSource "f: Int = 1 g: Int = (2, ]").toOption.map
      fun ts => (Decl.ofTokens ts).toOption.isNone) = some true := by
    decide +kernel
  obtain ⟨ts, hts, hnone⟩ := Option.map_eq_some_iff.1 hscan
  refine ⟨hidle, hseries Unit _ ")" false hidle, ts, ?_⟩
  obtain ⟨ds, hds, -⟩ | ⟨e, he, hpos, -⟩ := hall ts
  · rw [hds] at hnone
    cases hnone
  · exact ⟨e, eq_ok_of_toOption hts, he, hpos⟩

end ExprLang
