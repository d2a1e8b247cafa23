import ExprLang.Expr.Progress
import ExprLang.Token.Scanner

namespace ExprLang.Decl

open Parse

/-- The written type of a declaration after its label: parameters and a result, or a type. -/
def parseSignature (fuel : Nat) (label : Token) : Parse TypeExpr := do
  let generics ← TypeExpr.optionalGenerics fuel
  if ← accept "(" then
    let ps ← TypeExpr.params (TypeExpr.parse fuel) fuel
    if ← accept ":" then
      let ret ← TypeExpr.parse fuel
      pure (.fn label.pos generics ps ret)
    else fail (.missingSignature label.text) (← here)
  else if ← accept ":" then
    match generics with
    | [] => TypeExpr.parse fuel
    | g :: _ => fail .genericsWithoutParams g.pos
  else fail (.missingSignature label.text) (← here)

def parse (fuel : Nat) : Parse Decl := do
  let label ← identifier "a declaration name"
  let signature ← parseSignature fuel label
  expect "="
  let body ← Expr.parse fuel Expr.lowest
  pure ⟨label.text, label.pos, signature, body⟩

/-- Declarations until the tokens are used up, in fewer rounds than the last argument. -/
def parseAll (fuel : Nat) : Nat → Parse (List Decl)
  | 0 => outOfFuel
  | n + 1 => do
    match ← peek with
    | none => pure []
    | some _ =>
      let d ← parse fuel
      let ds ← parseAll fuel n
      pure (d :: ds)

theorem parseSignature_ends {fuel n : Nat} (h : 2 * n + 2 ≤ fuel) (label : Token) :
    (parseSignature fuel label).Ends n 0 := by
  have htype := TypeExpr.parse_ends h
  refine Ends.bind_zero (TypeExpr.optionalGenerics_ends (by omega)) fun generics => ?_
  refine Ends.bind_zero (Ends.accept _) fun b => ?_
  split
  · refine Ends.bind_zero (TypeExpr.params_ends htype (by omega)).weaken fun ps => ?_
    refine Ends.bind_zero (Ends.accept _) fun b => ?_
    split
    · exact Ends.bind_zero htype.weaken fun ret => Ends.pure _
    · exact Ends.bind_zero Ends.here fun pos => Ends.fail _ _
  · refine Ends.bind_zero (Ends.accept _) fun b => ?_
    split
    · split
      · exact htype.weaken
      · exact Ends.fail _ _
    · exact Ends.bind_zero Ends.here fun pos => Ends.fail _ _

theorem parse_ends {fuel n : Nat} (h : 2 * n + 2 ≤ fuel) : (parse fuel).Ends n 1 := by
  refine (Ends.identifier _).bind_one fun m hm label => ?_
  refine Ends.bind_zero (parseSignature_ends (by omega) label) fun signature => ?_
  refine Ends.bind_zero (Ends.expect _).weaken fun _ => ?_
  exact Ends.bind_zero (Expr.parse_ends (by omega) _).weaken fun body => Ends.pure _

theorem parseAll_ends {fuel n rounds : Nat} (h : 2 * n + 2 ≤ fuel) (hn : n < rounds) :
    (parseAll fuel rounds).Ends n 0 := by
  induction rounds generalizing n with
  | zero => omega
  | succ rounds ih =>
    rw [parseAll]
    refine Ends.bind_zero Ends.peek fun t? => ?_
    split
    · exact Ends.pure _
    · refine ((parse_ends h).bind_one (j := 0) fun m hm d => ?_).weaken
      exact Ends.bind_zero (ih (by omega) (by omega)) fun ds => Ends.pure _

/-- Fuel that suffices for a list of tokens. -/
def fuelFor (ts : List Token) : Nat := 2 * ts.length + 2

/-- The place to report when the tokens are used up: that of the last one. -/
def lastPos (ts : List Token) : Position := (ts.getLast?.map Token.pos).getD .start

def readAll (ts : List Token) : Reply (List Decl) :=
  (parseAll (fuelFor ts) (ts.length + 1)).run (lastPos ts) ts

theorem readAll_ne_outOfFuel (ts : List Token) : readAll ts ≠ .outOfFuel :=
  (parseAll_ends (Nat.le_refl _) (Nat.lt_succ_self _) _ ts (Nat.le_refl _)).ne_outOfFuel

def ofTokens (ts : List Token) : Except SyntaxError (List Decl) :=
  (readAll ts).result (readAll_ne_outOfFuel ts)

theorem ofTokens_eq_ok {ts : List Token} {ds : List Decl} (h : ofTokens ts = .ok ds) :
    ∃ rest, readAll ts = .ok ds rest := by
  revert h
  unfold ofTokens
  generalize readAll_ne_outOfFuel ts = hfuel
  revert hfuel
  cases readAll ts with
  | ok ds' rest =>
    intro _ h
    cases h
    exact ⟨rest, rfl⟩
  | error e => exact fun _ h => nomatch h
  | outOfFuel => exact fun hfuel => absurd rfl hfuel

end ExprLang.Decl
