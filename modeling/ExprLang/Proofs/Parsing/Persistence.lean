import ExprLang.Proofs.Parsing.Continuation

namespace ExprLang

variable {α β : Type}

/-- The reply to the tokens `ts` is one of `q` too. A value is one that `q` makes of the tokens
taken and any that come right after them. -/
def Reply.KeptBy (q : Parse α) (last : Position) (ts : List Token) : Reply α → Prop
  | ok a left => ∃ taken, ts = taken ++ left ∧
      ∀ kept, kept <+: left → ∀ last', q.run last' (taken ++ kept) = .ok a kept
  | error e => q.run last ts = .error e
  | outOfFuel => True

def Parse.Persists (p q : Parse α) : Prop :=
  ∀ last ts, (p.run last ts).KeptBy q last ts

namespace Parse.Persists

variable {p q : Parse α}

theorem run_eq (h : Persists p q) {last : Position} {ts : List Token}
    (hends : p.run last ts ≠ .outOfFuel) : q.run last ts = p.run last ts := by
  have hkept := h last ts
  revert hkept hends
  cases p.run last ts with
  | ok a left =>
    rintro - ⟨taken, rfl, hcut⟩
    exact hcut left (List.prefix_refl left) last
  | error e => exact fun _ hkept => hkept
  | outOfFuel => exact fun hends => absurd rfl hends

/-- A value does not depend on the place to report at the end. -/
theorem run_eq_ok (h : Persists p q) {last : Position} {ts left : List Token} {a : α}
    (hrun : p.run last ts = .ok a left) (last' : Position) : q.run last' ts = .ok a left := by
  have hkept := h last ts
  rw [hrun] at hkept
  obtain ⟨taken, rfl, hcut⟩ := hkept
  exact hcut left (List.prefix_refl left) last'

theorem exists_taken (h : Persists p q) {last : Position} {ts left : List Token} {a : α}
    (hrun : p.run last ts = .ok a left) :
    ∃ taken, ts = taken ++ left ∧ ∀ last', q.run last' taken = .ok a [] := by
  have hkept := h last ts
  rw [hrun] at hkept
  obtain ⟨taken, hts, hcut⟩ := hkept
  refine ⟨taken, hts, fun last' => ?_⟩
  have hnone := hcut [] List.nil_prefix last'
  rwa [List.append_nil] at hnone

theorem pure (a : α) : Persists (Pure.pure a) (Pure.pure a) :=
  fun _ _ => ⟨[], rfl, fun _ _ _ => rfl⟩

theorem fail (fault : SyntaxFault) (pos : Position) :
    Persists (Parse.fail fault pos : Parse α) (Parse.fail fault pos) := fun _ _ => rfl

theorem unexpected (expected : String) (found : Token) :
    Persists (Parse.unexpected expected found : Parse α) (Parse.unexpected expected found) :=
  fail _ _

theorem outOfFuel : Persists Parse.outOfFuel q := fun _ _ => trivial

theorem failHere (fault : SyntaxFault) :
    Persists (do Parse.fail fault (← Parse.here) : Parse α) (do Parse.fail fault (← Parse.here)) :=
  fun _ _ => rfl

theorem bind {k k' : α → Parse β} (hp : Persists p q) (hk : ∀ a, Persists (k a) (k' a)) :
    Persists (p >>= k) (q >>= k') := by
  intro last ts
  have hkept := hp last ts
  rw [run_bind]
  cases hrun : p.run last ts with
  | ok a left =>
    rw [hrun] at hkept
    obtain ⟨taken, rfl, hcut⟩ := hkept
    have hkept' := hk a last left
    dsimp only
    cases hrun' : (k a).run last left with
    | ok b left' =>
      rw [hrun'] at hkept'
      obtain ⟨taken', rfl, hcut'⟩ := hkept'
      refine ⟨taken ++ taken', (List.append_assoc ..).symm, fun kept hkept last' => ?_⟩
      have hprefix : taken' ++ kept <+: taken' ++ left' := (List.prefix_append_right_inj _).2 hkept
      rw [run_bind, List.append_assoc, hcut _ hprefix last']
      exact hcut' kept hkept last'
    | error e =>
      rw [hrun'] at hkept'
      have hq : q.run last (taken ++ left) = .ok a left := hcut left (List.prefix_refl left) last
      rw [Reply.KeptBy, run_bind, hq]
      exact hkept'
    | outOfFuel => trivial
  | error e =>
    rw [hrun] at hkept
    have hq : q.run last ts = .error e := hkept
    dsimp only
    rw [Reply.KeptBy, run_bind, hq]
  | outOfFuel => trivial

theorem next (expected : String) : Persists (Parse.next expected) (Parse.next expected) := by
  intro last ts
  cases ts with
  | nil => rfl
  | cons t ts => exact ⟨[t], rfl, fun _ _ _ => rfl⟩

theorem lookahead {p : Parse α} (test : Token → Bool) (yes : Token → α) (no : α)
    (hnil : ∀ last, p.run last [] = .ok no [])
    (hcons : ∀ last t ts,
      p.run last (t :: ts) = if test t then .ok (yes t) ts else .ok no (t :: ts)) :
    Persists p p := by
  intro last ts
  cases ts with
  | nil =>
    rw [hnil]
    refine ⟨[], rfl, fun kept hkept last' => ?_⟩
    obtain rfl := List.prefix_nil.1 hkept
    exact hnil last'
  | cons t ts =>
    rw [hcons]
    by_cases ht : test t = true
    · rw [if_pos ht]
      refine ⟨[t], rfl, fun kept _ last' => ?_⟩
      rw [List.singleton_append, hcons, if_pos ht]
    · rw [if_neg ht]
      refine ⟨[], rfl, fun kept hkept last' => ?_⟩
      rw [List.nil_append]
      obtain rfl | ⟨kept', rfl, -⟩ := List.prefix_cons_iff.1 hkept
      · exact hnil last'
      · rw [hcons, if_neg ht]

theorem accept (symbol : String) : Persists (Parse.accept symbol) (Parse.accept symbol) := by
  apply lookahead (fun t => t.isSymbol symbol) (fun _ => true) false
  · exact fun last => rfl
  · exact fun last t ts => rfl

theorem acceptKeyword (word : Keyword) :
    Persists (Parse.acceptKeyword word) (Parse.acceptKeyword word) := by
  apply lookahead (fun t => t.isKeyword word) (fun t => some t.pos) none
  · exact fun last => rfl
  · exact fun last t ts => rfl

theorem expect (symbol : String) : Persists (Parse.expect symbol) (Parse.expect symbol) := by
  apply (next _).bind
  intro t
  split
  · exact pure ()
  split
  · exact fail _ _
  · exact unexpected _ _

theorem expectKeyword (word : Keyword) :
    Persists (Parse.expectKeyword word) (Parse.expectKeyword word) := by
  apply (next _).bind
  intro t
  split
  · exact pure ()
  · exact unexpected _ _

theorem identifier (expected : String) :
    Persists (Parse.identifier expected) (Parse.identifier expected) := by
  apply (next _).bind
  intro t
  split
  · exact pure t
  · exact unexpected _ _

theorem series {item item' : Parse α} (h : Persists item item') (close : String)
    (trailing : Bool) {n n' : Nat} (hn : n ≤ n') :
    Persists (Parse.series close item trailing n) (Parse.series close item' trailing n') := by
  induction n generalizing trailing n' with
  | zero => exact outOfFuel
  | succ n ih =>
    cases n' with
    | zero => cases hn
    | succ n' =>
      apply (accept close).bind
      intro closed
      split
      · exact pure _
      · apply h.bind
        intro a
        apply (accept ",").bind
        intro more
        split
        · apply (ih true (Nat.le_of_succ_le_succ hn)).bind
          exact fun (as, trailing) => pure _
        · apply (expect close).bind
          exact fun _ => pure _

/-- A look at the head that decides between the answer for no tokens and a parser that needs one:
cutting off the head only ever leaves the first. -/
theorem peek (a : α) {k k' : Option Token → Parse α} (hnone : k none = Pure.pure a)
    (hnone' : k' none = Pure.pure a)
    (hsome : ∀ t, (k (some t) = Pure.pure a ∧ k' (some t) = Pure.pure a) ∨
      (Persists (k (some t)) (k' (some t)) ∧ (k' (some t)).NeedsToken)) :
    Persists (Parse.peek >>= k) (Parse.peek >>= k') := by
  have hrun (k : Option Token → Parse α) (last : Position) (ts : List Token) :
      (Parse.peek >>= k).run last ts = (k ts.head?).run last ts := rfl
  have hend (last : Position) : (Parse.peek >>= k').run last [] = .ok a [] := by
    rw [hrun, List.head?_nil, hnone']
    rfl
  intro last ts
  rw [hrun]
  cases ts with
  | nil =>
    rw [List.head?_nil, hnone]
    refine ⟨[], rfl, fun kept hkept last' => ?_⟩
    obtain rfl := List.prefix_nil.1 hkept
    exact hend last'
  | cons t ts =>
    rw [List.head?_cons]
    obtain ⟨hidle, hidle'⟩ | ⟨hkeeps, hneeds⟩ := hsome t
    · rw [hidle]
      refine ⟨[], rfl, fun kept hkept last' => ?_⟩
      rw [List.nil_append]
      obtain rfl | ⟨kept', rfl, -⟩ := List.prefix_cons_iff.1 hkept
      · exact hend last'
      · rw [hrun, List.head?_cons, hidle']
        rfl
    · have hkept := hkeeps last (t :: ts)
      revert hkept
      cases (k (some t)).run last (t :: ts) with
      | ok b left =>
        rintro ⟨taken, hts, hcut⟩
        cases taken with
        | nil => exact absurd (hcut [] List.nil_prefix last) (hneeds last b [])
        | cons t' taken =>
          obtain ⟨rfl, -⟩ := List.cons.inj hts
          refine ⟨t :: taken, hts, fun kept hkept last' => ?_⟩
          rw [hrun, List.cons_append, List.head?_cons, ← List.cons_append]
          exact hcut kept hkept last'
      | error e => exact id
      | outOfFuel => exact id

end Parse.Persists

open Parse

namespace TypeExpr

variable {n n' : Nat}

theorem genericNames_persists (hn : n ≤ n') : Persists (genericNames n) (genericNames n') := by
  apply (Persists.series (.identifier _) _ _ hn).bind
  exact fun (names, _) => .pure _

theorem optionalGenerics_persists (hn : n ≤ n') :
    Persists (optionalGenerics n) (optionalGenerics n') := by
  apply (Persists.accept _).bind
  intro opened
  split
  · exact genericNames_persists hn
  · exact .pure _

theorem param_persists {type type' : Parse TypeExpr} (h : Persists type type') :
    Persists (param type) (param type') := by
  apply (Persists.identifier _).bind
  intro name
  apply (Persists.expect _).bind
  intro _
  apply h.bind
  exact fun t => .pure _

theorem params_persists {type type' : Parse TypeExpr} (h : Persists type type') (hn : n ≤ n') :
    Persists (params type n) (params type' n') := by
  apply (Persists.series (param_persists h) _ _ hn).bind
  exact fun (ps, _) => .pure _

theorem parse_atom_persist (hn : n ≤ n') :
    Persists (parse n) (parse n') ∧ Persists (atom n) (atom n') := by
  induction n generalizing n' with
  | zero => exact ⟨.outOfFuel, .outOfFuel⟩
  | succ n ih =>
    cases n' with
    | zero => cases hn
    | succ n' =>
      have hn := Nat.le_of_succ_le_succ hn
      obtain ⟨ihParse, ihAtom⟩ := ih hn
      constructor
      · rw [parse, parse]
        apply (optionalGenerics_persists hn).bind
        intro generics
        apply ihAtom.bind
        intro ret
        apply (Persists.accept _).bind
        intro called
        split
        · apply (params_persists ihParse hn).bind
          exact fun ps => .pure _
        · cases generics with
          | nil => exact .pure ret
          | cons g _ => exact .fail _ g.pos
      · rw [atom, atom]
        apply (Persists.next _).bind
        intro t
        split
        · exact .pure _
        · split
          · apply ihParse.bind
            intro element
            apply (Persists.expect _).bind
            exact fun _ => .pure _
          · apply (Persists.series ihParse _ _ hn).bind
            exact fun items => .pure _
          · exact .unexpected _ _
        · exact .unexpected _ _

theorem parse_persists (hn : n ≤ n') : Persists (parse n) (parse n') := (parse_atom_persist hn).1

end TypeExpr

namespace Expr

variable {n n' : Nat}

theorem bindingName_persists (e : Expr) : Persists (bindingName e) (bindingName e) := by
  cases e with
  | ident pos name => exact .pure _
  | _ => exact .fail _ _

theorem bindingNames_persists (es : List Expr) :
    Persists (bindingNames es) (bindingNames es) := by
  induction es with
  | nil => exact .pure _
  | cons e es ih =>
    apply (bindingName_persists e).bind
    intro name
    apply ih.bind
    exact fun names => .pure _

section Forms

variable {expr expr' : Parse Expr} (h : Persists expr expr')
include h

theorem branches_persists : Persists (branches expr) (branches expr') := by
  apply (Persists.expectKeyword _).bind
  intro _
  apply h.bind
  intro yes
  apply (Persists.expectKeyword _).bind
  intro _
  apply h.bind
  exact fun no => .pure _

theorem conditional_persists (pos : Position) :
    Persists (conditional expr pos) (conditional expr' pos) := by
  apply h.bind
  intro test
  apply (Persists.accept _).bind
  intro arrow
  split
  · cases test with
    | cons _ head tail =>
      apply (bindingName_persists head).bind
      intro head
      apply (bindingName_persists tail).bind
      intro tail
      apply h.bind
      intro whole
      apply (branches_persists h).bind
      exact fun (yes, no) => .pure _
    | _ => exact .fail _ _
  · apply (branches_persists h).bind
    exact fun (yes, no) => .pure _

theorem bound_persists : Persists (bound expr) (bound expr') := by
  apply (Persists.expect _).bind
  intro _
  apply h.bind
  intro value
  apply (Persists.expectKeyword _).bind
  intro _
  apply h.bind
  exact fun body => .pure _

theorem binding_persists (pos : Position) :
    Persists (binding expr pos) (binding expr' pos) := by
  apply h.bind
  intro pattern
  cases pattern with
  | ident p name =>
    apply (bound_persists h).bind
    exact fun (value, body) => .pure _
  | tuple _ es =>
    apply (bindingNames_persists es).bind
    intro names
    apply (bound_persists h).bind
    exact fun (value, body) => .pure _
  | _ => exact .fail _ _

variable (hn : n ≤ n')
include hn

theorem callArgs_persists (callee : Expr) (generics : Option (List TypeExpr)) :
    Persists (callArgs expr n callee generics) (callArgs expr' n' callee generics) := by
  apply (Persists.series h _ _ hn).bind
  exact fun (args, _) => .pure _

variable {type type' : Parse TypeExpr} (htype : Persists type type')
include htype

theorem listLiteral_persists (pos : Position) :
    Persists (listLiteral expr type n pos) (listLiteral expr' type' n' pos) := by
  apply (Persists.series h _ _ hn).bind
  intro (items, _)
  apply (Persists.acceptKeyword _).bind
  intro annotated
  cases annotated with
  | none => exact .pure _
  | some ofPos =>
    cases items with
    | nil =>
      apply htype.bind
      exact fun element => .pure _
    | cons _ _ => exact .fail _ _

theorem genericCall_persists (callee : Expr) :
    Persists (genericCall expr type n callee) (genericCall expr' type' n' callee) := by
  apply (Persists.series htype _ _ hn).bind
  intro (types, _)
  apply (Persists.accept _).bind
  intro called
  split
  · exact callArgs_persists h hn callee _
  · exact .failHere _

end Forms

theorem extend_persists {expr expr' : Nat → Parse Expr} {type type' : Parse TypeExpr}
    (h : ∀ floor, Persists (expr floor) (expr' floor)) (htype : Persists type type')
    (hn : n ≤ n') (node : Expr) (pos : Position) (s : Suffix) :
    Persists (extend expr type n node pos s) (extend expr' type' n' node pos s) := by
  cases s with
  | generics => exact genericCall_persists (h _) hn htype node
  | call => exact callArgs_persists (h _) hn node none
  | cons =>
    apply (h _).bind
    exact fun tail => .pure _
  | binary op =>
    apply (h _).bind
    exact fun right => .pure _

theorem parse_operand_suffixes_persist (hn : n ≤ n') :
    (∀ floor, Persists (parse n floor) (parse n' floor)) ∧
      Persists (operand n) (operand n') ∧
      ∀ floor node, Persists (suffixes n floor node) (suffixes n' floor node) := by
  induction n generalizing n' with
  | zero => exact ⟨fun _ => .outOfFuel, .outOfFuel, fun _ _ => .outOfFuel⟩
  | succ n ih =>
    cases n' with
    | zero => cases hn
    | succ n' =>
      have hn := Nat.le_of_succ_le_succ hn
      have htype := TypeExpr.parse_persists hn
      obtain ⟨ihParse, ihOperand, ihSuffixes⟩ := ih hn
      refine ⟨fun floor => ?_, ?_, fun floor node => ?_⟩
      · rw [parse, parse]
        apply ihOperand.bind
        exact fun node => ihSuffixes floor node
      · rw [operand, operand]
        apply (Persists.next _).bind
        intro t
        split
        · exact .pure _
        · exact .pure _
        · exact .pure _
        · exact .pure _
        · exact conditional_persists (ihParse _) _
        · exact binding_persists (ihParse _) _
        · exact .unexpected _ _
        · split
          · apply (ihParse _).bind
            exact fun e => .pure _
          · apply (ihParse _).bind
            exact fun e => .pure _
          · apply (Persists.series (ihParse _) _ _ hn).bind
            exact fun items => .pure _
          · exact listLiteral_persists (ihParse _) hn htype _
          · exact .unexpected _ _
      · rw [suffixes, suffixes]
        refine Persists.peek node rfl rfl fun t => ?_
        dsimp only
        split
        · exact .inl ⟨rfl, rfl⟩
        · split
          · exact .inl ⟨rfl, rfl⟩
          · refine .inr ⟨?_, (NeedsToken.next _).bind _⟩
            apply (Persists.next _).bind
            intro _
            apply (extend_persists ihParse htype hn node t.pos _).bind
            exact fun longer => ihSuffixes floor longer

theorem parse_persists (hn : n ≤ n') (floor : Nat) :
    Persists (parse n floor) (parse n' floor) :=
  (parse_operand_suffixes_persist hn).1 floor

end Expr

namespace Decl

variable {n n' : Nat} (hn : n ≤ n')
include hn

theorem parseSignature_persists (label : Token) :
    Persists (parseSignature n label) (parseSignature n' label) := by
  have htype := TypeExpr.parse_persists hn
  apply (TypeExpr.optionalGenerics_persists hn).bind
  intro generics
  apply (Persists.accept _).bind
  intro opened
  split
  · apply (TypeExpr.params_persists htype hn).bind
    intro ps
    apply (Persists.accept _).bind
    intro typed
    split
    · apply htype.bind
      exact fun ret => .pure _
    · exact .failHere _
  · apply (Persists.accept _).bind
    intro typed
    split
    · cases generics with
      | nil => exact htype
      | cons g gs => exact .fail _ _
    · exact .failHere _

theorem parse_persists : Persists (parse n) (parse n') := by
  apply (Persists.identifier _).bind
  intro label
  apply (parseSignature_persists hn label).bind
  intro signature
  apply (Persists.expect _).bind
  intro _
  apply (Expr.parse_persists hn _).bind
  exact fun body => .pure _

theorem parseAll_persists {rounds rounds' : Nat} (hrounds : rounds ≤ rounds') :
    Persists (parseAll n rounds) (parseAll n' rounds') := by
  induction rounds generalizing rounds' with
  | zero => exact .outOfFuel
  | succ rounds ih =>
    cases rounds' with
    | zero => cases hrounds
    | succ rounds' =>
      rw [parseAll, parseAll]
      refine Persists.peek [] rfl rfl fun t => ?_
      refine .inr ⟨?_, ((NeedsToken.identifier _).bind _).bind _⟩
      apply (parse_persists hn).bind
      intro d
      apply (ih (Nat.le_of_succ_le_succ hrounds)).bind
      exact fun ds => .pure _

end Decl

end ExprLang
