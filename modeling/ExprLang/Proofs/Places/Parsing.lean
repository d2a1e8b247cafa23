import ExprLang.Decl.Parser
import ExprLang.Proofs.Places.Move

namespace ExprLang

variable {φ : Position → Position}

theorem Token.isSymbol_move (t : Token) (spelling : String) :
    (t.move φ).isSymbol spelling = t.isSymbol spelling := rfl

theorem Token.isKeyword_move (t : Token) (word : Keyword) :
    (t.move φ).isKeyword word = t.isKeyword word := rfl

/-- The reply with its value mapped and its places moved. -/
def Reply.move {α β : Type} (φ : Position → Position) (f : α → β) : Reply α → Reply β
  | ok a rest => ok (f a) (rest.map (Token.move φ))
  | error e => error (e.move φ)
  | outOfFuel => outOfFuel

/-- On moved tokens, `q` gives the moved reply of `p`. -/
def Parse.Mirrors {α β : Type} (φ : Position → Position) (f : α → β) (p : Parse α)
    (q : Parse β) : Prop :=
  ∀ last ts, q.run (φ last) (ts.map (Token.move φ)) = (p.run last ts).move φ f

namespace Parse.Mirrors

variable {α β γ δ : Type} {f : α → γ} {g : β → δ}

theorem pure (f : α → γ) (a : α) : Mirrors φ f (Pure.pure a) (Pure.pure (f a)) :=
  fun _ _ => rfl

theorem bind {p : Parse α} {q : Parse γ} {k : α → Parse β} {k' : γ → Parse δ}
    (hp : Mirrors φ f p q) (hk : ∀ a, Mirrors φ g (k a) (k' (f a))) :
    Mirrors φ g (p >>= k) (q >>= k') := by
  intro last ts
  rw [Parse.run_bind, Parse.run_bind, hp last ts]
  cases p.run last ts with
  | ok a rest => exact hk a last rest
  | error e => rfl
  | outOfFuel => rfl

theorem fail (fault : SyntaxFault) (pos : Position) :
    Mirrors φ f (Parse.fail fault pos) (Parse.fail fault (φ pos)) :=
  fun _ _ => rfl

theorem outOfFuel : Mirrors φ f Parse.outOfFuel Parse.outOfFuel := fun _ _ => rfl

theorem peek : Mirrors φ (Option.map (Token.move φ)) Parse.peek Parse.peek := by
  intro last ts
  cases ts <;> rfl

theorem here : Mirrors φ φ Parse.here Parse.here := by
  intro last ts
  cases ts <;> rfl

theorem next (expected : String) :
    Mirrors φ (Token.move φ) (Parse.next expected) (Parse.next expected) := by
  intro last ts
  cases ts <;> rfl

theorem accept (symbol : String) : Mirrors φ id (Parse.accept symbol) (Parse.accept symbol) := by
  intro last ts
  cases ts with
  | nil => rfl
  | cons t ts =>
    rw [List.map_cons, Parse.run, Parse.run, Parse.accept, Parse.accept, Token.isSymbol_move]
    split <;> rfl

theorem acceptKeyword (word : Keyword) :
    Mirrors φ (Option.map φ) (Parse.acceptKeyword word) (Parse.acceptKeyword word) := by
  intro last ts
  cases ts with
  | nil => rfl
  | cons t ts =>
    rw [List.map_cons, Parse.run, Parse.run, Parse.acceptKeyword, Parse.acceptKeyword,
      Token.isKeyword_move]
    split <;> rfl

theorem unexpected (expected : String) (t : Token) :
    Mirrors φ f (Parse.unexpected expected t) (Parse.unexpected expected (t.move φ)) :=
  fail _ _

theorem expect (symbol : String) : Mirrors φ id (Parse.expect symbol) (Parse.expect symbol) := by
  refine (next _).bind fun t => ?_
  have hclosers : closers.any (t.move φ).isSymbol = closers.any t.isSymbol := rfl
  rw [Token.isSymbol_move, hclosers]
  split
  · exact pure id ()
  split
  · exact fail _ _
  · exact unexpected _ _

theorem expectKeyword (word : Keyword) :
    Mirrors φ id (Parse.expectKeyword word) (Parse.expectKeyword word) := by
  refine (next _).bind fun t => ?_
  rw [Token.isKeyword_move]
  split
  · exact pure id ()
  · exact unexpected _ _

theorem identifier (expected : String) :
    Mirrors φ (Token.move φ) (Parse.identifier expected) (Parse.identifier expected) := by
  refine (next _).bind fun t => ?_
  have hkind : (t.move φ).kind = t.kind := rfl
  rw [hkind]
  split
  · exact pure _ t
  · exact unexpected _ _

theorem series {item : Parse α} {item' : Parse γ} (h : Mirrors φ f item item') (close : String)
    (trailing : Bool) (n : Nat) :
    Mirrors φ (Prod.map (List.map f) id) (Parse.series close item trailing n)
      (Parse.series close item' trailing n) := by
  induction n generalizing trailing with
  | zero => exact outOfFuel
  | succ n ih =>
    refine (accept close).bind fun closed => ?_
    cases closed with
    | true => exact pure _ ([], trailing)
    | false =>
      refine h.bind fun a => ?_
      refine (accept ",").bind fun more => ?_
      cases more with
      | true => exact (ih true).bind fun (as, trailing) => pure _ (a :: as, trailing)
      | false => exact (expect close).bind fun _ => pure _ ([a], false)

end Parse.Mirrors

open Parse

namespace TypeExpr

theorem map_ofToken_move (ts : List Token) :
    (ts.map (Token.move φ)).map Name.ofToken = (ts.map Name.ofToken).map (Name.move φ) := by
  rw [List.map_map, List.map_map]
  rfl

theorem genericNames_mirrors (n : Nat) :
    Mirrors φ (List.map (Name.move φ)) (genericNames n) (genericNames n) := by
  refine (Mirrors.series (.identifier _) _ _ n).bind fun (names, _) => ?_
  dsimp only [Prod.map]
  rw [map_ofToken_move]
  exact .pure _ _

theorem optionalGenerics_mirrors (n : Nat) :
    Mirrors φ (List.map (Name.move φ)) (optionalGenerics n) (optionalGenerics n) := by
  refine (Mirrors.accept _).bind fun open_ => ?_
  cases open_ with
  | true => exact genericNames_mirrors n
  | false => exact .pure _ []

variable {type type' : Parse TypeExpr}

theorem param_mirrors (h : Mirrors φ (move φ) type type') :
    Mirrors φ (moveParam φ) (param type) (param type') := by
  refine (Mirrors.identifier _).bind fun name => ?_
  refine (Mirrors.expect _).bind fun _ => ?_
  exact h.bind fun t => .pure (moveParam φ) (Name.ofToken name, t)

theorem params_mirrors (h : Mirrors φ (move φ) type type') (n : Nat) :
    Mirrors φ (List.map (moveParam φ)) (params type n) (params type' n) :=
  (Mirrors.series (param_mirrors h) _ _ n).bind fun (ps, _) => .pure _ ps

theorem ofWord_move (t : Token) : ofWord (t.move φ) = (ofWord t).move φ := by
  have htext : (t.move φ).text = t.text := rfl
  rw [ofWord, ofWord, htext]
  split <;> rfl

theorem ofSeries_move (pos : Position) (items : List TypeExpr × Bool) :
    ofSeries (φ pos) (items.map (List.map (move φ)) id) = (ofSeries pos items).move φ := by
  obtain ⟨ts, trailing⟩ := items
  match ts, trailing with
  | [], _ => rfl
  | [t], false => rfl
  | [t], true => rfl
  | t :: u :: ts, _ =>
    simp only [ofSeries, Prod.map, List.map_cons, move, moveAll, moveAll_eq_map]

mutual

theorem parse_mirrors : (n : Nat) → Mirrors φ (move φ) (parse n) (parse n)
  | 0 => .outOfFuel
  | n + 1 => by
    rw [parse]
    refine (optionalGenerics_mirrors n).bind fun generics => ?_
    refine (atom_mirrors n).bind fun ret => ?_
    refine (Mirrors.accept _).bind fun called => ?_
    cases called with
    | true =>
      refine (params_mirrors (parse_mirrors n) n).bind fun ps => ?_
      have hmove : (fn ((generics.head?.map Name.pos).getD ret.pos) generics ps ret).move φ =
          fn ((((generics.map (Name.move φ)).head?).map Name.pos).getD (ret.move φ).pos)
            (generics.map (Name.move φ)) (ps.map (moveParam φ)) (ret.move φ) := by
        rw [move, moveParams_eq_map, pos_move]
        cases generics <;> rfl
      rw [← hmove]
      exact .pure _ _
    | false =>
      cases generics with
      | nil => exact .pure _ ret
      | cons g _ => exact .fail _ g.pos

theorem atom_mirrors : (n : Nat) → Mirrors φ (move φ) (atom n) (atom n)
  | 0 => .outOfFuel
  | n + 1 => by
    rw [atom]
    refine (Mirrors.next _).bind fun t => ?_
    have hkind : (t.move φ).kind = t.kind := rfl
    have htext : (t.move φ).text = t.text := rfl
    rw [hkind, htext]
    split
    · rw [ofWord_move]
      exact .pure _ _
    · split
      · refine (parse_mirrors n).bind fun element => ?_
        exact (Mirrors.expect _).bind fun _ => .pure (move φ) (list t.pos element)
      · refine (Mirrors.series (parse_mirrors n) _ _ n).bind fun items => ?_
        have hmove := ofSeries_move (φ := φ) t.pos items
        rw [show (t.move φ).pos = φ t.pos from rfl, hmove]
        exact .pure _ _
      · exact .unexpected _ _
    · exact .unexpected _ _

end

end TypeExpr

namespace Expr

variable {expr expr' : Parse Expr} {type type' : Parse TypeExpr}

theorem bindingName_mirrors (e : Expr) :
    Mirrors φ (Name.move φ) (bindingName e) (bindingName (e.move φ)) := by
  have hfail : Mirrors φ (Name.move φ) (Parse.fail (.invalidPattern e.text) e.pos)
      (Parse.fail (.invalidPattern (e.move φ).text) (e.move φ).pos) := by
    rw [text_move, pos_move]
    exact .fail _ _
  cases e with
  | ident pos name => exact .pure (Name.move φ) ⟨name, pos⟩
  | _ => exact hfail

theorem bindingNames_mirrors (es : List Expr) :
    Mirrors φ (List.map (Name.move φ)) (bindingNames es) (bindingNames (moveAll φ es)) := by
  induction es with
  | nil => exact .pure _ []
  | cons e es ih =>
    refine (bindingName_mirrors e).bind fun name => ?_
    exact ih.bind fun names => .pure _ (name :: names)

theorem ofSeries_move (pos : Position) (items : List Expr × Bool) :
    ofSeries (φ pos) (items.map (List.map (move φ)) id) = (ofSeries pos items).move φ := by
  obtain ⟨es, trailing⟩ := items
  match es, trailing with
  | [], _ => rfl
  | [e], false => rfl
  | [e], true => rfl
  | e :: e' :: es, _ =>
    simp only [ofSeries, Prod.map, List.map_cons, move, moveAll, moveAll_eq_map]

theorem branches_mirrors (h : Mirrors φ (move φ) expr expr') :
    Mirrors φ (Prod.map (move φ) (move φ)) (branches expr) (branches expr') := by
  refine (Mirrors.expectKeyword _).bind fun _ => ?_
  refine h.bind fun yes => ?_
  refine (Mirrors.expectKeyword _).bind fun _ => ?_
  exact h.bind fun no => .pure _ (yes, no)

theorem conditional_mirrors (h : Mirrors φ (move φ) expr expr') (pos : Position) :
    Mirrors φ (move φ) (conditional expr pos) (conditional expr' (φ pos)) := by
  refine h.bind fun test => ?_
  have hfail : Mirrors φ (move φ) (Parse.fail (.invalidUnpack test.text) test.pos)
      (Parse.fail (.invalidUnpack (test.move φ).text) (test.move φ).pos) := by
    rw [text_move, pos_move]
    exact .fail _ _
  refine (Mirrors.accept _).bind fun arrow => ?_
  cases arrow with
  | true =>
    cases test with
    | cons _ h' t' =>
      refine (bindingName_mirrors h').bind fun head => ?_
      refine (bindingName_mirrors t').bind fun tail => ?_
      refine h.bind fun whole => ?_
      refine (branches_mirrors h).bind fun (yes, no) => ?_
      exact .pure (move φ) (unpack pos head tail whole yes no)
    | _ => exact hfail
  | false =>
    exact (branches_mirrors h).bind fun (yes, no) => .pure (move φ) (cond pos test yes no)

theorem bound_mirrors (h : Mirrors φ (move φ) expr expr') :
    Mirrors φ (Prod.map (move φ) (move φ)) (bound expr) (bound expr') := by
  refine (Mirrors.expect _).bind fun _ => ?_
  refine h.bind fun value => ?_
  refine (Mirrors.expectKeyword _).bind fun _ => ?_
  exact h.bind fun body => .pure _ (value, body)

theorem binding_mirrors (h : Mirrors φ (move φ) expr expr') (pos : Position) :
    Mirrors φ (move φ) (binding expr pos) (binding expr' (φ pos)) := by
  refine h.bind fun pattern => ?_
  have hfail : Mirrors φ (move φ) (Parse.fail (.invalidPattern pattern.text) pattern.pos)
      (Parse.fail (.invalidPattern (pattern.move φ).text) (pattern.move φ).pos) := by
    rw [text_move, pos_move]
    exact .fail _ _
  cases pattern with
  | ident p name =>
    refine (bound_mirrors h).bind fun (value, body) => ?_
    exact .pure (move φ) (letName pos ⟨name, p⟩ value body)
  | tuple _ es =>
    refine (bindingNames_mirrors es).bind fun names => ?_
    refine (bound_mirrors h).bind fun (value, body) => ?_
    exact .pure (move φ) (letTuple pos names value body)
  | _ => exact hfail

theorem listLiteral_mirrors (h : Mirrors φ (move φ) expr expr')
    (htype : Mirrors φ (TypeExpr.move φ) type type') (n : Nat) (pos : Position) :
    Mirrors φ (move φ) (listLiteral expr type n pos) (listLiteral expr' type' n (φ pos)) := by
  refine (Mirrors.series h _ _ n).bind fun (items, _) => ?_
  refine (Mirrors.acceptKeyword _).bind fun annotated => ?_
  cases annotated with
  | none =>
    have hmove : (list pos items).move φ = list (φ pos) (items.map (move φ)) := by
      rw [move, moveAll_eq_map]
    dsimp only [Option.map, Prod.map]
    rw [← hmove]
    exact .pure _ _
  | some ofPos =>
    cases items with
    | nil => exact htype.bind fun element => .pure (move φ) (emptyOf pos element)
    | cons _ _ => exact .fail _ ofPos

theorem callArgs_mirrors (h : Mirrors φ (move φ) expr expr') (n : Nat) (callee : Expr)
    (typeArgs : Option (List TypeExpr)) :
    Mirrors φ (move φ) (callArgs expr n callee typeArgs)
      (callArgs expr' n (callee.move φ) (typeArgs.map (TypeExpr.moveAll φ))) := by
  refine (Mirrors.series h _ _ n).bind fun (args, _) => ?_
  have hmove : (call callee.pos callee typeArgs args).move φ =
      call (callee.move φ).pos (callee.move φ) (typeArgs.map (TypeExpr.moveAll φ))
        (args.map (move φ)) := by
    rw [move, moveAll_eq_map, pos_move]
  dsimp only [Prod.map]
  rw [← hmove]
  exact .pure _ _

theorem genericCall_mirrors (h : Mirrors φ (move φ) expr expr')
    (htype : Mirrors φ (TypeExpr.move φ) type type') (n : Nat) (callee : Expr) :
    Mirrors φ (move φ) (genericCall expr type n callee)
      (genericCall expr' type' n (callee.move φ)) := by
  refine (Mirrors.series htype _ _ n).bind fun (types, _) => ?_
  refine (Mirrors.accept _).bind fun called => ?_
  cases called with
  | true =>
    have hargs := callArgs_mirrors h n callee (some types)
    rw [Option.map_some, TypeExpr.moveAll_eq_map] at hargs
    exact hargs
  | false => exact Mirrors.here.bind fun pos => .fail _ pos

theorem extend_mirrors {exprAt exprAt' : Nat → Parse Expr}
    (h : ∀ floor, Mirrors φ (move φ) (exprAt floor) (exprAt' floor))
    (htype : Mirrors φ (TypeExpr.move φ) type type') (n : Nat) (node : Expr) (pos : Position)
    (s : Suffix) :
    Mirrors φ (move φ) (extend exprAt type n node pos s)
      (extend exprAt' type' n (node.move φ) (φ pos) s) := by
  cases s with
  | generics => exact genericCall_mirrors (h lowest) htype n node
  | call => exact callArgs_mirrors (h lowest) n node none
  | cons => exact (h _).bind fun tail => .pure (move φ) (cons pos node tail)
  | binary op => exact (h _).bind fun right => .pure (move φ) (binary pos op node right)

mutual

theorem parse_mirrors : (n floor : Nat) → Mirrors φ (move φ) (parse n floor) (parse n floor)
  | 0, _ => .outOfFuel
  | n + 1, floor => by
    rw [parse]
    exact (operand_mirrors n).bind fun node => suffixes_mirrors n floor node

theorem operand_mirrors : (n : Nat) → Mirrors φ (move φ) (operand n) (operand n)
  | 0 => .outOfFuel
  | n + 1 => by
    rw [operand]
    refine (Mirrors.next _).bind fun t => ?_
    have hkind : (t.move φ).kind = t.kind := rfl
    have htext : (t.move φ).text = t.text := rfl
    have hpos : (t.move φ).pos = φ t.pos := rfl
    rw [hkind, htext, hpos]
    split
    · exact .pure (move φ) (int _ _)
    · exact .pure (move φ) (bool _ _)
    · exact .pure (move φ) (str _ _)
    · exact .pure (move φ) (ident _ _)
    · exact conditional_mirrors (parse_mirrors n _) _
    · exact binding_mirrors (parse_mirrors n _) _
    · exact .unexpected _ _
    · split
      · exact (parse_mirrors n _).bind fun e => .pure (move φ) (unary _ _ e)
      · exact (parse_mirrors n _).bind fun e => .pure (move φ) (unary _ _ e)
      · refine (Mirrors.series (parse_mirrors n _) _ _ n).bind fun items => ?_
        rw [ofSeries_move]
        exact .pure _ _
      · exact listLiteral_mirrors (parse_mirrors n _) (TypeExpr.parse_mirrors n) n _
      · exact .unexpected _ _

theorem suffixes_mirrors : (n floor : Nat) → (node : Expr) →
    Mirrors φ (move φ) (suffixes n floor node) (suffixes n floor (node.move φ))
  | 0, _, _ => .outOfFuel
  | n + 1, floor, node => by
    rw [suffixes, suffixes]
    refine Mirrors.peek.bind fun t? => ?_
    cases t? with
    | none => exact .pure _ node
    | some t =>
      have hsuffix : Suffix.ofToken? (t.move φ) = Suffix.ofToken? t := rfl
      dsimp only [Option.map]
      rw [hsuffix]
      split
      · exact .pure _ node
      split
      · exact .pure _ node
      · refine (Mirrors.next _).bind fun _ => ?_
        refine (extend_mirrors (parse_mirrors n) (TypeExpr.parse_mirrors n) n node _ _).bind
          fun longer => ?_
        exact suffixes_mirrors n floor longer

end

end Expr

namespace Decl

theorem parseSignature_mirrors (n : Nat) (label : Token) :
    Mirrors φ (TypeExpr.move φ) (parseSignature n label) (parseSignature n (label.move φ)) := by
  have hmissing : Mirrors φ (TypeExpr.move φ)
      (do Parse.fail (.missingSignature label.text) (← Parse.here))
      (do Parse.fail (.missingSignature (label.move φ).text) (← Parse.here)) :=
    Mirrors.here.bind fun pos => .fail _ pos
  refine (TypeExpr.optionalGenerics_mirrors n).bind fun generics => ?_
  refine (Mirrors.accept _).bind fun hasParams => ?_
  cases hasParams with
  | true =>
    refine (TypeExpr.params_mirrors (TypeExpr.parse_mirrors n) n).bind fun ps => ?_
    refine (Mirrors.accept _).bind fun typed => ?_
    cases typed with
    | true =>
      refine (TypeExpr.parse_mirrors n).bind fun ret => ?_
      have hmove : (TypeExpr.fn label.pos generics ps ret).move φ =
          .fn (label.move φ).pos (generics.map (Name.move φ)) (ps.map (TypeExpr.moveParam φ))
            (ret.move φ) := by
        rw [TypeExpr.move, TypeExpr.moveParams_eq_map]
        rfl
      rw [← hmove]
      exact .pure _ _
    | false => exact hmissing
  | false =>
    refine (Mirrors.accept _).bind fun typed => ?_
    cases typed with
    | true =>
      cases generics with
      | nil => exact TypeExpr.parse_mirrors n
      | cons g _ => exact .fail _ g.pos
    | false => exact hmissing

theorem parse_mirrors (n : Nat) : Mirrors φ (move φ) (parse n) (parse n) := by
  refine (Mirrors.identifier _).bind fun label => ?_
  refine (parseSignature_mirrors n label).bind fun signature => ?_
  refine (Mirrors.expect _).bind fun _ => ?_
  refine (Expr.parse_mirrors n _).bind fun body => ?_
  exact .pure (move φ) ⟨label.text, label.pos, signature, body⟩

theorem parseAll_mirrors (fuel n : Nat) :
    Mirrors φ (List.map (move φ)) (parseAll fuel n) (parseAll fuel n) := by
  induction n with
  | zero => exact .outOfFuel
  | succ n ih =>
    rw [parseAll]
    refine Mirrors.peek.bind fun t? => ?_
    cases t? with
    | none => exact .pure _ []
    | some t =>
      refine (parse_mirrors fuel).bind fun d => ?_
      exact ih.bind fun ds => .pure _ (d :: ds)

theorem lastPos_move {ts : List Token} (h : ts ≠ []) :
    lastPos (ts.map (Token.move φ)) = φ (lastPos ts) := by
  obtain ⟨t, ht⟩ := Option.isSome_iff_exists.1 (List.getLast?_isSome.2 h)
  rw [lastPos, lastPos, List.getLast?_map, ht]
  rfl

theorem readAll_move (ts : List Token) :
    readAll (ts.map (Token.move φ)) = (readAll ts).move φ (List.map (move φ)) := by
  by_cases hts : ts = []
  · subst hts
    rfl
  · rw [readAll, fuelFor, List.length_map, lastPos_move hts]
    exact parseAll_mirrors _ _ _ _

theorem ofTokens_move (ts : List Token) :
    ofTokens (ts.map (Token.move φ)) =
      match ofTokens ts with
      | .ok ds => .ok (ds.map (move φ))
      | .error e => .error (e.move φ) := by
  have hresult (r r' : Reply (List Decl)) (h : r ≠ .outOfFuel) (h' : r' ≠ .outOfFuel)
      (hr : r' = r.move φ (List.map (move φ))) :
      r'.result h' =
        match r.result h with
        | .ok ds => .ok (ds.map (move φ))
        | .error e => .error (e.move φ) := by
    subst hr
    cases r with
    | ok ds rest => rfl
    | error e => rfl
    | outOfFuel => exact absurd rfl h
  exact hresult _ _ _ _ (readAll_move ts)

end Decl

end ExprLang
