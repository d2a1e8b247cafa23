import ExprLang.Proofs.Parsing.Gives

namespace ExprLang

open Parse

/-- What may stand after an expression that ends there. -/
def Expr.AtEnd (rest : List Token) : Prop :=
  ∀ t, rest.head? = some t → Suffix.ofToken? t = none ∧ t.isKeyword .kwOf = false

theorem Expr.AtEnd.cons {t : Token} (hsuffix : Suffix.ofToken? t = none)
    (hkeyword : t.isKeyword .kwOf = false) (rest : List Token) : AtEnd (t :: rest) := by
  rintro _ ⟨⟩
  exact ⟨hsuffix, hkeyword⟩

theorem Expr.AtEnd.nil : AtEnd [] := nofun

theorem Expr.AtEnd.noneNext {rest : List Token} (h : AtEnd rest) (symbol : String)
    (hsymbol : ∀ c pos, (Suffix.ofToken? ⟨.symbol c, symbol, pos⟩).isSome = true) :
    NoneNext symbol rest := by
  intro t ht
  obtain ⟨hsuffix, -⟩ := h t ht
  obtain ⟨kind, text, pos⟩ := t
  cases kind with
  | symbol c =>
    apply Bool.eq_false_iff.2
    intro heq
    cases beq_iff_eq.1 heq
    have hsome := hsymbol c pos
    rw [hsuffix] at hsome
    cases hsome
  | identifier | bool | int | str | keyword => rfl

variable {α β : Type} {us : List Token}

/-- The parser makes nothing of no tokens. -/
def Parse.NeedsToken (p : Parse α) : Prop := ∀ last a rest, p.run last [] ≠ .ok a rest

namespace Parse.NeedsToken

theorem failHere (fault : SyntaxFault) :
    (do Parse.fail fault (← Parse.here) : Parse α).NeedsToken := nofun

theorem outOfFuel : (Parse.outOfFuel : Parse α).NeedsToken := nofun

theorem next (expected : String) : (Parse.next expected).NeedsToken := nofun

theorem bind {p : Parse α} (hp : p.NeedsToken) (k : α → Parse β) : (p >>= k).NeedsToken := by
  intro last b rest h
  obtain ⟨a, left, ha, _⟩ := run_bind_eq_ok.1 h
  exact hp last a left ha

theorem after {p : Parse α} {a : α} {k : α → Parse β} (hp : ∀ last, p.run last [] = .ok a [])
    (hk : (k a).NeedsToken) : (p >>= k).NeedsToken := by
  intro last b rest h
  rw [run_bind, hp] at h
  exact hk last b rest h

theorem identifier (expected : String) : (Parse.identifier expected).NeedsToken :=
  (next expected).bind _

theorem expect (symbol : String) : (Parse.expect symbol).NeedsToken := (next _).bind _

theorem expectKeyword (word : Keyword) : (Parse.expectKeyword word).NeedsToken := (next _).bind _

end Parse.NeedsToken

/-- What `p` makes of some tokens, `q` makes of them where the tokens `us` follow, and leaves `us`
besides what `p` leaves. -/
def Parse.Continues (us : List Token) (p q : Parse α) : Prop :=
  ∀ last ts a rest, p.run last ts = .ok a rest →
    ∀ last', (q.run last' (ts ++ us)).Gives fun b left => b = a ∧ left = rest ++ us

namespace Parse.Continues

theorem pure (a : α) : Continues us (Pure.pure a) (Pure.pure a) := by
  rintro last ts _ _ ⟨⟩ last'
  exact ⟨rfl, rfl⟩

theorem fail {q : Parse α} (fault : SyntaxFault) (pos : Position) :
    Continues us (Parse.fail fault pos) q := by
  rintro last ts _ _ ⟨⟩

theorem unexpected {q : Parse α} (expected : String) (found : Token) :
    Continues us (Parse.unexpected expected found) q := fail _ _

theorem outOfFuel {q : Parse α} : Continues us Parse.outOfFuel q := by
  rintro last ts _ _ ⟨⟩

theorem exhausted (p : Parse α) : Continues us p Parse.outOfFuel := by
  intro last ts _ _ _ last'
  trivial

theorem bind {p q : Parse α} {k k' : α → Parse β} (hp : Continues us p q)
    (hk : ∀ a, Continues us (k a) (k' a)) : Continues us (p >>= k) (q >>= k') := by
  intro last ts b rest h last'
  obtain ⟨a, left, ha, hb⟩ := run_bind_eq_ok.1 h
  apply (hp last ts a left ha last').bind
  rintro _ _ ⟨rfl, rfl⟩
  exact hk _ last left b rest hb last'

theorem next (expected : String) : Continues us (Parse.next expected) (Parse.next expected) := by
  intro last ts t rest h last'
  cases ts with
  | nil => cases h
  | cons t ts =>
    cases h
    exact ⟨rfl, rfl⟩

/-- A parser that takes the head if it passes a test, which the head of `us` does not. -/
theorem lookahead {p : Parse α} (test : Token → Bool) (yes : Token → α) (no : α)
    (hus : ∀ t, us.head? = some t → test t = false) (hnil : ∀ last, p.run last [] = .ok no [])
    (hcons : ∀ last t ts,
      p.run last (t :: ts) = if test t then .ok (yes t) ts else .ok no (t :: ts)) :
    Continues us p p := by
  intro last ts a rest h last'
  cases ts with
  | nil =>
    rw [hnil] at h
    cases h
    cases us with
    | nil =>
      rw [List.nil_append, hnil]
      exact ⟨rfl, rfl⟩
    | cons u us =>
      rw [List.nil_append, hcons, hus u rfl]
      exact ⟨rfl, rfl⟩
  | cons t ts =>
    rw [hcons] at h
    rw [List.cons_append, hcons]
    by_cases ht : test t = true
    · rw [if_pos ht] at h ⊢
      cases h
      exact ⟨rfl, rfl⟩
    · rw [if_neg ht] at h ⊢
      cases h
      exact ⟨rfl, rfl⟩

theorem accept {symbol : String} (hus : NoneNext symbol us) :
    Continues us (Parse.accept symbol) (Parse.accept symbol) := by
  apply lookahead (fun t => t.isSymbol symbol) (fun _ => true) false
  · exact hus
  · exact fun last => rfl
  · exact fun last t ts => rfl

/-- Where a token is needed after a symbol that does not come next, the first token of `us` never
decides whether it does. -/
theorem acceptOr {symbol : String} {k k' : Bool → Parse α} (hneeds : (k false).NeedsToken)
    (hk : ∀ taken, Continues us (k taken) (k' taken)) :
    Continues us (Parse.accept symbol >>= k) (Parse.accept symbol >>= k') := by
  intro last ts a rest h last'
  cases ts with
  | nil => exact absurd h (hneeds.after (fun _ => rfl) last a rest)
  | cons t ts =>
    have haccept (last : Position) (ts : List Token) : (Parse.accept symbol).run last (t :: ts) =
        if t.isSymbol symbol then .ok true ts else .ok false (t :: ts) := rfl
    rw [run_bind, haccept] at h
    rw [List.cons_append, run_bind, haccept]
    cases ht : t.isSymbol symbol with
    | true =>
      rw [ht] at h
      exact hk true last ts a rest h last'
    | false =>
      rw [ht] at h
      exact hk false last (t :: ts) a rest h last'

theorem acceptKeyword {word : Keyword}
    (hus : ∀ t, us.head? = some t → t.isKeyword word = false) :
    Continues us (Parse.acceptKeyword word) (Parse.acceptKeyword word) := by
  apply lookahead (fun t => t.isKeyword word) (fun t => some t.pos) none
  · exact hus
  · exact fun last => rfl
  · exact fun last t ts => rfl

theorem expect (symbol : String) : Continues us (Parse.expect symbol) (Parse.expect symbol) := by
  apply (next _).bind
  intro t
  split
  · exact pure ()
  split
  · exact fail _ _
  · exact unexpected _ _

theorem expectKeyword (word : Keyword) :
    Continues us (Parse.expectKeyword word) (Parse.expectKeyword word) := by
  apply (next _).bind
  intro t
  split
  · exact pure ()
  · exact unexpected _ _

theorem identifier (expected : String) :
    Continues us (Parse.identifier expected) (Parse.identifier expected) := by
  apply (next _).bind
  intro t
  split
  · exact pure t
  · exact unexpected _ _

theorem series {item item' : Parse α} (hneeds : item.NeedsToken) (h : Continues us item item')
    (close : String) (trailing : Bool) (n n' : Nat) :
    Continues us (Parse.series close item trailing n) (Parse.series close item' trailing n') := by
  induction n generalizing trailing n' with
  | zero => exact outOfFuel
  | succ n ih =>
    cases n' with
    | zero => exact exhausted _
    | succ n' =>
      apply acceptOr (hneeds.bind _)
      intro closed
      split
      · exact pure _
      · apply h.bind
        intro a
        apply acceptOr ((NeedsToken.expect close).bind _)
        intro more
        split
        · apply (ih true n').bind
          exact fun (as, trailing) => pure _
        · apply (expect close).bind
          exact fun _ => pure _

theorem peek {k k' : Option Token → Parse α} (hnone : Continues us (k none) (k' us.head?))
    (hsome : ∀ t, Continues us (k (some t)) (k' (some t))) :
    Continues us (Parse.peek >>= k) (Parse.peek >>= k') := by
  intro last ts a rest h last'
  cases ts with
  | nil => exact hnone last [] a rest h last'
  | cons t ts => exact hsome t last (t :: ts) a rest h last'

theorem failHere {q : Parse α} (fault : SyntaxFault) :
    Continues us (do Parse.fail fault (← Parse.here)) q := by
  rintro last ts _ _ ⟨⟩

end Parse.Continues

namespace TypeExpr

theorem atom_needsToken (n : Nat) : (atom n).NeedsToken := by
  cases n with
  | zero => exact .outOfFuel
  | succ n => exact (NeedsToken.next _).bind _

theorem parse_needsToken (n : Nat) : (parse n).NeedsToken := by
  cases n with
  | zero => exact .outOfFuel
  | succ n => exact ((atom_needsToken n).bind _).after fun _ => rfl

theorem genericNames_continues (n n' : Nat) :
    Continues us (genericNames n) (genericNames n') := by
  apply (Continues.series (.identifier _) (.identifier _) _ _ n n').bind
  exact fun (names, _) => .pure _

theorem optionalGenerics_continues (hus : NoneNext "\x7b" us) (n n' : Nat) :
    Continues us (optionalGenerics n) (optionalGenerics n') := by
  apply (Continues.accept hus).bind
  intro opened
  split
  · exact genericNames_continues n n'
  · exact .pure _

theorem param_continues {type type' : Parse TypeExpr} (h : Continues us type type') :
    Continues us (param type) (param type') := by
  apply (Continues.identifier _).bind
  intro name
  apply (Continues.expect _).bind
  intro _
  apply h.bind
  exact fun t => .pure _

theorem params_continues {type type' : Parse TypeExpr} (h : Continues us type type')
    (n n' : Nat) : Continues us (params type n) (params type' n') := by
  have hneeds : (param type).NeedsToken := (NeedsToken.identifier _).bind _
  apply (Continues.series hneeds (param_continues h) _ _ n n').bind
  exact fun (ps, _) => .pure _

mutual

theorem parse_continues (hus : Expr.AtEnd us) :
    (n n' : Nat) → Continues us (parse n) (parse n')
  | 0, _ => .outOfFuel
  | _ + 1, 0 => .exhausted _
  | n + 1, n' + 1 => by
    rw [parse, parse]
    apply (optionalGenerics_continues (hus.noneNext "\x7b" fun _ _ => rfl) n n').bind
    intro generics
    apply (atom_continues hus n n').bind
    intro ret
    apply (Continues.accept (hus.noneNext "(" fun _ _ => rfl)).bind
    intro called
    split
    · apply (params_continues (parse_continues hus n n') n n').bind
      exact fun ps => .pure _
    · cases generics with
      | nil => exact .pure ret
      | cons g _ => exact .fail _ g.pos

theorem atom_continues (hus : Expr.AtEnd us) : (n n' : Nat) → Continues us (atom n) (atom n')
  | 0, _ => .outOfFuel
  | _ + 1, 0 => .exhausted _
  | n + 1, n' + 1 => by
    rw [atom, atom]
    apply (Continues.next _).bind
    intro t
    split
    · exact .pure _
    · split
      · apply (parse_continues hus n n').bind
        intro element
        apply (Continues.expect _).bind
        exact fun _ => .pure _
      · apply (Continues.series (parse_needsToken n) (parse_continues hus n n') _ _ n n').bind
        exact fun items => .pure _
      · exact .unexpected _ _
    · exact .unexpected _ _

end

end TypeExpr

namespace Expr

theorem operand_needsToken (n : Nat) : (operand n).NeedsToken := by
  cases n with
  | zero => exact .outOfFuel
  | succ n => exact (NeedsToken.next _).bind _

theorem parse_needsToken (n floor : Nat) : (parse n floor).NeedsToken := by
  cases n with
  | zero => exact .outOfFuel
  | succ n => exact (operand_needsToken n).bind _

theorem bindingName_continues (e : Expr) : Continues us (bindingName e) (bindingName e) := by
  cases e with
  | ident pos name => exact .pure _
  | _ => exact .fail _ _

theorem bindingNames_continues (es : List Expr) :
    Continues us (bindingNames es) (bindingNames es) := by
  induction es with
  | nil => exact .pure _
  | cons e es ih =>
    apply (bindingName_continues e).bind
    intro name
    apply ih.bind
    exact fun names => .pure _

section Forms

variable {expr expr' : Parse Expr} (h : Continues us expr expr')
include h

theorem branches_continues : Continues us (branches expr) (branches expr') := by
  apply (Continues.expectKeyword _).bind
  intro _
  apply h.bind
  intro yes
  apply (Continues.expectKeyword _).bind
  intro _
  apply h.bind
  exact fun no => .pure _

theorem conditional_continues (pos : Position) :
    Continues us (conditional expr pos) (conditional expr' pos) := by
  apply h.bind
  intro test
  apply Continues.acceptOr (((NeedsToken.expectKeyword _).bind _).bind _)
  intro arrow
  split
  · cases test with
    | cons _ head tail =>
      apply (bindingName_continues head).bind
      intro head
      apply (bindingName_continues tail).bind
      intro tail
      apply h.bind
      intro whole
      apply (branches_continues h).bind
      exact fun (yes, no) => .pure _
    | _ => exact .fail _ _
  · apply (branches_continues h).bind
    exact fun (yes, no) => .pure _

theorem bound_continues : Continues us (bound expr) (bound expr') := by
  apply (Continues.expect _).bind
  intro _
  apply h.bind
  intro value
  apply (Continues.expectKeyword _).bind
  intro _
  apply h.bind
  exact fun body => .pure _

theorem binding_continues (pos : Position) :
    Continues us (binding expr pos) (binding expr' pos) := by
  apply h.bind
  intro pattern
  cases pattern with
  | ident p name =>
    apply (bound_continues h).bind
    exact fun (value, body) => .pure _
  | tuple _ es =>
    apply (bindingNames_continues es).bind
    intro names
    apply (bound_continues h).bind
    exact fun (value, body) => .pure _
  | _ => exact .fail _ _

variable (hexpr : expr.NeedsToken)
include hexpr

theorem callArgs_continues (n n' : Nat) (callee : Expr) (generics : Option (List TypeExpr)) :
    Continues us (callArgs expr n callee generics) (callArgs expr' n' callee generics) := by
  apply (Continues.series hexpr h _ _ n n').bind
  exact fun (args, _) => .pure _

variable {type type' : Parse TypeExpr} (htype : Continues us type type')
include htype

theorem listLiteral_continues (hus : AtEnd us) (n n' : Nat) (pos : Position) :
    Continues us (listLiteral expr type n pos) (listLiteral expr' type' n' pos) := by
  apply (Continues.series hexpr h _ _ n n').bind
  intro (items, _)
  apply (Continues.acceptKeyword fun t ht => (hus t ht).2).bind
  intro annotated
  cases annotated with
  | none => exact .pure _
  | some ofPos =>
    cases items with
    | nil =>
      apply htype.bind
      exact fun element => .pure _
    | cons _ _ => exact .fail _ _

theorem genericCall_continues (hneeds : type.NeedsToken) (n n' : Nat) (callee : Expr) :
    Continues us (genericCall expr type n callee) (genericCall expr' type' n' callee) := by
  apply (Continues.series hneeds htype _ _ n n').bind
  intro (types, _)
  apply Continues.acceptOr (.failHere _)
  intro called
  split
  · exact callArgs_continues h hexpr n n' callee _
  · exact .failHere _

end Forms

theorem extend_continues {n n' : Nat}
    (h : ∀ floor, Continues us (parse n floor) (parse n' floor))
    (htype : Continues us (TypeExpr.parse n) (TypeExpr.parse n')) (node : Expr) (pos : Position)
    (s : Suffix) : Continues us (extend (parse n) (TypeExpr.parse n) n node pos s)
      (extend (parse n') (TypeExpr.parse n') n' node pos s) := by
  have hneeds := parse_needsToken n lowest
  cases s with
  | generics =>
    exact genericCall_continues (h _) hneeds htype (TypeExpr.parse_needsToken n) n n' node
  | call => exact callArgs_continues (h _) hneeds n n' node none
  | cons =>
    apply (h _).bind
    exact fun tail => .pure _
  | binary op =>
    apply (h _).bind
    exact fun right => .pure _

mutual

theorem parse_continues (hus : AtEnd us) :
    (n n' floor : Nat) → Continues us (parse n floor) (parse n' floor)
  | 0, _, _ => .outOfFuel
  | _ + 1, 0, _ => .exhausted _
  | n + 1, n' + 1, floor => by
    rw [parse, parse]
    apply (operand_continues hus n n').bind
    exact fun node => suffixes_continues hus n n' floor node

theorem operand_continues (hus : AtEnd us) : (n n' : Nat) → Continues us (operand n) (operand n')
  | 0, _ => .outOfFuel
  | _ + 1, 0 => .exhausted _
  | n + 1, n' + 1 => by
    have hexpr (floor : Nat) := parse_continues hus n n' floor
    have hneeds := parse_needsToken n lowest
    rw [operand, operand]
    apply (Continues.next _).bind
    intro t
    split
    · exact .pure _
    · exact .pure _
    · exact .pure _
    · exact .pure _
    · exact conditional_continues (hexpr _) _
    · exact binding_continues (hexpr _) _
    · exact .unexpected _ _
    · split
      · apply (hexpr _).bind
        exact fun e => .pure _
      · apply (hexpr _).bind
        exact fun e => .pure _
      · apply (Continues.series hneeds (hexpr _) _ _ n n').bind
        exact fun items => .pure _
      · have htype := TypeExpr.parse_continues hus n n'
        exact listLiteral_continues (hexpr _) hneeds htype hus n n' _
      · exact .unexpected _ _

theorem suffixes_continues (hus : AtEnd us) : (n n' floor : Nat) →
    (node : Expr) → Continues us (suffixes n floor node) (suffixes n' floor node)
  | 0, _, _, _ => .outOfFuel
  | _ + 1, 0, _, _ => .exhausted _
  | n + 1, n' + 1, floor, node => by
    rw [suffixes, suffixes]
    apply Continues.peek
    · -- The tokens end with an operand: what comes next, if anything, is no suffix.
      cases hu : us.head? with
      | none => exact .pure _
      | some u =>
        dsimp only
        rw [(hus u hu).1]
        exact .pure _
    · intro t
      dsimp only
      split
      · exact .pure _
      · split
        · exact .pure _
        · apply (Continues.next _).bind
          intro _
          apply (extend_continues (fun floor => parse_continues hus n n' floor)
            (TypeExpr.parse_continues hus n n') node t.pos _).bind
          exact fun longer => suffixes_continues hus n n' floor longer

end

end Expr

end ExprLang
