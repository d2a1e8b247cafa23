import ExprLang.Expr.Parser
import ExprLang.Proofs.Parsing.Continuation
import ExprLang.Proofs.Parsing.Precedence
import ExprLang.Proofs.Printing.TypeReading

namespace ExprLang

open Parse Reply Token

namespace Expr

def isEmptyOf : Expr → Bool
  | emptyOf _ _ => true
  | _ => false

def TypeArgsUnambiguous : Option (List TypeExpr) → Prop
  | none => True
  | some ts => TypeExpr.AllUnambiguous ts

mutual

/-- No call whose callee is a list that names its element type: the bracket of the call would be
read as part of that type. No function type returns a function type. -/
def Unambiguous : Expr → Prop
  | int _ _ | bool _ _ | str _ _ | ident _ _ => True
  | list _ items | tuple _ items => AllUnambiguous items
  | emptyOf _ element => element.Unambiguous
  | call _ callee generics args =>
    callee.isEmptyOf = false ∧ callee.Unambiguous ∧ TypeArgsUnambiguous generics ∧
      AllUnambiguous args
  | cond _ test yes no => test.Unambiguous ∧ yes.Unambiguous ∧ no.Unambiguous
  | unpack _ _ _ whole yes no => whole.Unambiguous ∧ yes.Unambiguous ∧ no.Unambiguous
  | letName _ _ value body | letTuple _ _ value body => value.Unambiguous ∧ body.Unambiguous
  | cons _ head tail => head.Unambiguous ∧ tail.Unambiguous
  | binary _ _ left right => left.Unambiguous ∧ right.Unambiguous
  | unary _ _ operand => operand.Unambiguous

def AllUnambiguous : List Expr → Prop
  | [] => True
  | e :: es => e.Unambiguous ∧ AllUnambiguous es

end

instance (generics : Option (List TypeExpr)) : Decidable (TypeArgsUnambiguous generics) :=
  match generics with
  | none => .isTrue trivial
  | some ts => inferInstanceAs (Decidable (TypeExpr.AllUnambiguous ts))

mutual

def decideUnambiguous : (e : Expr) → Decidable e.Unambiguous
  | int _ _ | bool _ _ | str _ _ | ident _ _ => .isTrue trivial
  | list _ items | tuple _ items => decideAllUnambiguous items
  | emptyOf _ element => inferInstanceAs (Decidable element.Unambiguous)
  | call _ callee _ args =>
    have := decideUnambiguous callee
    have := decideAllUnambiguous args
    inferInstanceAs (Decidable (_ ∧ _ ∧ _ ∧ _))
  | cond _ first yes no | unpack _ _ _ first yes no =>
    have := decideUnambiguous first
    have := decideUnambiguous yes
    have := decideUnambiguous no
    inferInstanceAs (Decidable (_ ∧ _ ∧ _))
  | letName _ _ left right | letTuple _ _ left right | cons _ left right | binary _ _ left right =>
    have := decideUnambiguous left
    have := decideUnambiguous right
    inferInstanceAs (Decidable (_ ∧ _))
  | unary _ _ operand => decideUnambiguous operand

def decideAllUnambiguous : (es : List Expr) → Decidable (AllUnambiguous es)
  | [] => .isTrue trivial
  | e :: es =>
    have := decideUnambiguous e
    have := decideAllUnambiguous es
    inferInstanceAs (Decidable (_ ∧ _))

end

instance (e : Expr) : Decidable e.Unambiguous := decideUnambiguous e

/-- What may stand after an expression for it to be read so far: not the keyword that would name an
element type, and no bracket that would be read as part of one. -/
def Allows (e : Expr) (rest : List Token) : Prop :=
  (∀ t, rest.head? = some t → t.isKeyword .kwOf = false) ∧
    (e.isEmptyOf = true → NoneNext "(" rest)

theorem AtEnd.allows {rest : List Token} (h : AtEnd rest) (e : Expr) : e.Allows rest :=
  ⟨fun t ht => (h t ht).2, fun _ => h.noneNext "(" fun _ _ => rfl⟩

theorem suffixes_stop {rest : List Token} (h : AtEnd rest) (n floor : Nat) (node : Expr) :
    (suffixes n floor node).Reads [] rest node := by
  intro last
  cases n with
  | zero => trivial
  | succ n =>
    rw [suffixes, List.nil_append, run_bind]
    cases rest with
    | nil => exact ⟨rfl, rfl⟩
    | cons t rest =>
      obtain ⟨hsuffix, -⟩ := h t rfl
      simp only [Parse.run, peek, List.head?_cons, hsuffix]
      exact ⟨rfl, rfl⟩

variable {Q : Expr → List Token → Prop}

theorem suffixes_extend {t : Token} {s : Suffix} {floor : Nat} {node : Expr} {last : Position}
    {rest : List Token} (hs : Suffix.ofToken? t = some s) (hfloor : floor < s.power)
    (h : ∀ n, ((extend (parse n) (TypeExpr.parse n) n node t.pos s >>= suffixes n floor).run last
      rest).Gives Q) (n : Nat) : ((suffixes n floor node).run last (t :: rest)).Gives Q := by
  cases n with
  | zero => trivial
  | succ n =>
    rw [suffixes, run_bind]
    simp only [Parse.run, peek, List.head?_cons, hs]
    rw [if_neg (Nat.not_le.2 hfloor)]
    exact h n

/-- The parser comes past the expression, whatever it makes of what follows, if calls bind tighter
than the power it keeps to. -/
def ReadBack (e : Expr) : Prop :=
  ∀ (Q : Expr → List Token → Prop) (floor : Nat) (last : Position) (rest : List Token),
    floor < Suffix.call.power → e.Allows rest →
      (∀ n, ((suffixes n floor (e.move .forget)).run last rest).Gives Q) →
        ∀ n, ((parse n floor).run last (e.tokens ++ rest)).Gives Q

theorem parse_gives {ts rest : List Token} {e : Expr} {floor : Nat} {last : Position}
    (hoperand : ∀ n last, ((operand (n + 1)).run last (ts ++ rest)).Gives fun a left =>
      a = e ∧ left = rest)
    (hrest : ∀ n, ((suffixes n floor e).run last rest).Gives Q) (n : Nat) :
    ((parse n floor).run last (ts ++ rest)).Gives Q := by
  have hreads (n : Nat) : (operand n).Reads ts rest e := by
    intro last
    cases n with
    | zero => trivial
    | succ n => exact hoperand n last
  cases n with
  | zero => trivial
  | succ n =>
    rw [parse]
    exact Gives.after (hreads n) (hrest n)

theorem ReadBack.of_operand {e : Expr} (h : ∀ n rest last, e.Allows rest →
    ((operand (n + 1)).run last (e.tokens ++ rest)).Gives fun a left =>
      a = e.move .forget ∧ left = rest) : e.ReadBack :=
  fun _ _ _ rest _ hallows hrest => parse_gives (fun n last => h n rest last hallows) hrest

/-- An expression that ends is read as a whole. -/
theorem ReadBack.reads {e : Expr} (h : e.ReadBack) {floor : Nat}
    (hfloor : floor < Suffix.call.power) {rest : List Token} (hrest : AtEnd rest) (n : Nat) :
    (parse n floor).Reads e.tokens rest (e.move .forget) :=
  fun last => h _ floor last rest hfloor (hrest.allows e)
    (fun n => suffixes_stop hrest n floor _ last) n

theorem parse_reads_of_operand {ts rest : List Token} {e : Expr} (hrest : AtEnd rest)
    (h : ∀ n last, ((operand (n + 1)).run last (ts ++ rest)).Gives fun a left =>
      a = e ∧ left = rest) (n floor : Nat) : (parse n floor).Reads ts rest e :=
  fun last => parse_gives h (fun n => suffixes_stop hrest n floor e last) n

section Operands

variable (n : Nat) (last : Position) (rest : List Token)

theorem operand_if : (operand (n + 1)).run last (.keyword .kwIf :: rest) =
    (conditional (parse n lowest) .start).run last rest := by
  rw [operand]
  rfl

theorem operand_let : (operand (n + 1)).run last (.keyword .kwLet :: rest) =
    (binding (parse n lowest) .start).run last rest := by
  rw [operand]
  rfl

theorem operand_operator (op : UnaryOp) : (operand (n + 1)).run last (.operator op.symbol :: rest) =
    (parse n unaryPower >>= fun e => pure (unary .start op e)).run last rest := by
  cases op <;> rw [operand] <;> rfl

theorem operand_parenthesis {opening : Token} (h : opening.isSymbol "(" = true) :
    (operand (n + 1)).run last (opening :: rest) =
      (series ")" (parse n lowest) false n >>= fun items => pure (ofSeries opening.pos items)).run
        last rest := by
  obtain ⟨c, pos, rfl⟩ := eq_symbol h
  rw [operand]
  rfl

theorem operand_bracket : (operand (n + 1)).run last (mark "[" :: rest) =
    (listLiteral (parse n lowest) (TypeExpr.parse n) n .start).run last rest := by
  rw [operand]
  rfl

end Operands

theorem grouped_gives {opening closing : Token} (hopening : opening.isSymbol "(" = true)
    (hclosing : closing.isSymbol ")" = true) {inner rest : List Token} {e : Expr}
    (hopens : Opens inner) (h : ∀ n, (parse n lowest).Reads inner (closing :: rest) e) (n : Nat)
    (last : Position) :
    ((operand (n + 1)).run last (opening :: (inner ++ [closing]) ++ rest)).Gives fun a left =>
      a = e ∧ left = rest := by
  rw [List.cons_append, operand_parenthesis n last _ hopening]
  exact Gives.after (series_single hclosing hopens (h n) n) ⟨rfl, rfl⟩

theorem ReadBack.of_parenthesized {e : Expr} (inner : List Token)
    (htokens : e.tokens = parenthesized inner) (hopens : Opens inner)
    (h : ∀ n rest, (parse n lowest).Reads inner (mark ")" :: rest) (e.move .forget)) :
    e.ReadBack := by
  apply ReadBack.of_operand
  intro n rest last _
  rw [htokens]
  exact grouped_gives (isSymbol_mark "(") (isSymbol_mark ")") hopens (fun n => h n rest) n last

theorem ident_readBack (pos : Position) (name : String) : (ident pos name).ReadBack := by
  apply ReadBack.of_operand
  intro n rest last _
  rw [operand]
  exact ⟨rfl, rfl⟩

theorem branches_reads {yes no : Expr} (hyes : yes.ReadBack) (hno : no.ReadBack) (n : Nat)
    {rest : List Token} (hrest : AtEnd rest) :
    (branches (parse n lowest)).Reads
      (Token.branches yes.tokens no.tokens) rest (yes.move .forget, no.move .forget) := by
  intro last
  rw [Token.branches, List.cons_append, List.append_assoc, List.cons_append]
  apply Gives.expectKeyword rfl
  apply Gives.after (hyes.reads (by decide) (.cons rfl rfl _) n)
  apply Gives.expectKeyword rfl
  exact Gives.after (hno.reads (by decide) hrest n) ⟨rfl, rfl⟩

theorem bound_reads {value body : Expr} (hvalue : value.ReadBack) (hbody : body.ReadBack) (n : Nat)
    {rest : List Token} (hrest : AtEnd rest) :
    (bound (parse n lowest)).Reads
      (Token.bound value.tokens body.tokens) rest (value.move .forget, body.move .forget) := by
  intro last
  rw [Token.bound, List.cons_append, List.append_assoc, List.cons_append]
  apply Gives.expect rfl
  apply Gives.after (hvalue.reads (by decide) (.cons rfl rfl _) n)
  apply Gives.expectKeyword rfl
  exact Gives.after (hbody.reads (by decide) hrest n) ⟨rfl, rfl⟩

theorem atEnd_parenthesis (rest : List Token) : AtEnd (mark ")" :: rest) := .cons rfl rfl rest

theorem cond_readBack {test yes no : Expr} (htest : test.ReadBack) (hyes : yes.ReadBack)
    (hno : no.ReadBack) (pos : Position) : (cond pos test yes no).ReadBack := by
  apply ReadBack.of_parenthesized
    (.keyword .kwIf :: (test.tokens ++ Token.branches yes.tokens no.tokens)) rfl ⟨_, _, rfl, rfl⟩
  intro n rest
  apply parse_reads_of_operand (atEnd_parenthesis rest)
  intro n last
  rw [List.cons_append, List.append_assoc, operand_if, conditional]
  apply Gives.after (htest.reads (by decide) (.cons rfl rfl _) n)
  apply Gives.refuse (by rintro _ ⟨⟩; rfl)
  exact Gives.after (branches_reads hyes hno n (atEnd_parenthesis rest)) ⟨rfl, rfl⟩

theorem connective_reads (c : Connective) {left right : Expr} (hleft : left.ReadBack)
    (hright : right.ReadBack) {rest : List Token} (hrest : AtEnd rest) (n : Nat) :
    (parse n lowest).Reads (left.tokens ++ .operator c.symbol :: right.tokens) rest
      (c.node .start (left.move .forget) (right.move .forget)) := by
  intro last
  rw [List.append_assoc, List.cons_append]
  have hc : (Token.operator c.symbol).Spells c.symbol := ⟨⟨_, rfl⟩, rfl⟩
  have hallows : left.Allows (.operator c.symbol :: (right.tokens ++ rest)) := by
    refine ⟨by rintro _ ⟨⟩; rfl, fun _ => ?_⟩
    rintro _ ⟨⟩
    cases c with
    | cons => rfl
    | binary op => cases op <;> rfl
  have hpos := c.power_pos
  rw [← c.power_suffix] at hpos
  apply hleft _ lowest last _ (by decide) hallows
  apply suffixes_extend hc.suffix hpos
  intro n
  have hpower : c.suffix.operandPower < Suffix.call.power := by
    have hle : c.operandPower ≤ c.power := by
      rw [Connective.operandPower]
      split
      · exact Nat.sub_le _ _
      · exact Nat.le_refl _
    have hlt := c.power_lt_unaryPower
    rw [c.operandPower_suffix]
    exact Nat.lt_of_le_of_lt hle (Nat.lt_trans hlt (by decide))
  have hextend : (extend (parse n) (TypeExpr.parse n) n (left.move .forget) .start c.suffix).Reads
      right.tokens rest (c.node .start (left.move .forget) (right.move .forget)) := by
    intro last
    cases c with
    | cons => exact Gives.after (hright.reads hpower hrest n) ⟨rfl, rfl⟩
    | binary op => exact Gives.after (hright.reads hpower hrest n) ⟨rfl, rfl⟩
  exact Gives.after hextend (suffixes_stop hrest n lowest _ last)

theorem tokens_opens : (e : Expr) → Opens e.tokens
  | int _ _ | bool _ _ | str _ _ | ident _ _ => ⟨_, _, rfl, rfl⟩
  | list _ _ | tuple _ _ | emptyOf _ _ | cond _ _ _ _ | unpack _ _ _ _ _ _ => ⟨_, _, rfl, rfl⟩
  | letName _ _ _ _ | letTuple _ _ _ _ | cons _ _ _ | binary _ _ _ _ | unary _ _ _ =>
    ⟨_, _, rfl, rfl⟩
  | call _ callee generics args => by
    rw [tokens, List.append_assoc]
    exact (tokens_opens callee).append _

theorem cons_readBack {head tail : Expr} (hhead : head.ReadBack) (htail : tail.ReadBack)
    (pos : Position) : (cons pos head tail).ReadBack := by
  apply ReadBack.of_parenthesized (head.tokens ++ .operator "~" :: tail.tokens) rfl
    ((tokens_opens head).append _)
  intro n rest
  exact connective_reads .cons hhead htail (atEnd_parenthesis rest) n

theorem binary_readBack {left right : Expr} (hleft : left.ReadBack) (hright : right.ReadBack)
    (pos : Position) (op : BinaryOp) : (binary pos op left right).ReadBack := by
  apply ReadBack.of_parenthesized (left.tokens ++ .operator op.symbol :: right.tokens) rfl
    ((tokens_opens left).append _)
  intro n rest
  exact connective_reads (.binary op) hleft hright (atEnd_parenthesis rest) n

theorem unary_readBack {operand : Expr} (h : operand.ReadBack) (pos : Position) (op : UnaryOp) :
    (unary pos op operand).ReadBack := by
  apply ReadBack.of_parenthesized (.operator op.symbol :: operand.tokens) rfl
    ⟨_, _, rfl, by cases op <;> rfl⟩
  intro n rest
  apply parse_reads_of_operand (atEnd_parenthesis rest)
  intro n last
  rw [List.cons_append, operand_operator]
  exact Gives.after (h.reads (by decide) (atEnd_parenthesis rest) n) ⟨rfl, rfl⟩

theorem unpack_readBack {whole yes no : Expr} (hwhole : whole.ReadBack) (hyes : yes.ReadBack)
    (hno : no.ReadBack) (pos : Position) (head tail : Name) :
    (unpack pos head tail whole yes no).ReadBack := by
  let pattern : Expr := cons .start (ident .start head.text) (ident .start tail.text)
  have hpattern : pattern.ReadBack := cons_readBack (ident_readBack _ _) (ident_readBack _ _) _
  apply ReadBack.of_parenthesized (.keyword .kwIf :: (pattern.tokens ++
    .operator "<-" :: (whole.tokens ++ Token.branches yes.tokens no.tokens))) rfl ⟨_, _, rfl, rfl⟩
  intro n rest
  apply parse_reads_of_operand (atEnd_parenthesis rest)
  intro n last
  rw [List.cons_append, List.append_assoc, List.cons_append, List.append_assoc, operand_if,
    conditional]
  apply Gives.after (hpattern.reads (by decide) (.cons rfl rfl _) n)
  apply Gives.accept rfl
  apply Gives.after (hwhole.reads (by decide) (.cons rfl rfl _) n)
  exact Gives.after (branches_reads hyes hno n (atEnd_parenthesis rest)) ⟨rfl, rfl⟩

theorem letName_readBack {value body : Expr} (hvalue : value.ReadBack) (hbody : body.ReadBack)
    (pos : Position) (name : Name) : (letName pos name value body).ReadBack := by
  apply ReadBack.of_parenthesized
    (.keyword .kwLet :: (name.tokens ++ Token.bound value.tokens body.tokens)) rfl ⟨_, _, rfl, rfl⟩
  intro n rest
  apply parse_reads_of_operand (atEnd_parenthesis rest)
  intro n last
  have hname : (ident .start name.text).tokens = name.tokens := rfl
  rw [List.cons_append, List.append_assoc, operand_let, binding, ← hname]
  apply Gives.after ((ident_readBack _ _).reads (by decide) (.cons rfl rfl _) n)
  exact Gives.after (bound_reads hvalue hbody n (atEnd_parenthesis rest)) ⟨rfl, rfl⟩

theorem tuple_ofSeries {pos : Position} {r : List Expr × Bool} (h : r.1.length = 1 → r.2 = true) :
    ofSeries pos r = tuple pos r.1 := by
  obtain ⟨es, trailing⟩ := r
  cases es with
  | nil => rfl
  | cons e es =>
    cases es with
    | nil =>
      obtain rfl : trailing = true := h rfl
      rfl
    | cons e' es => rfl

theorem item_reads {items : List Expr} (h : ∀ e ∈ items, e.ReadBack) {close : String}
    (hclose : close ∈ closers) (n : Nat) :
    ∀ e ∈ items, ∀ t rest, t = mark "," ∨ t = mark close →
      (parse n lowest).Reads e.tokens (t :: rest) (e.move .forget) := by
  intro e he t rest ht
  refine (h e he).reads (by decide) ?_ n
  simp only [closers, List.mem_cons, List.not_mem_nil, or_false] at hclose
  obtain rfl | rfl := ht
  · exact .cons rfl rfl rest
  · obtain rfl | rfl | rfl := hclose <;> exact .cons rfl rfl rest

theorem tuple_readBack {items : List Expr} (h : ∀ e ∈ items, e.ReadBack) (pos : Position) :
    (tuple pos items).ReadBack := by
  apply ReadBack.of_operand
  intro n rest last _
  have htokens : (tuple pos items).tokens ++ rest =
      mark "(" :: (tupleItems (items.map tokens) ++ mark ")" :: rest) := by
    simp only [tokens, Token.tuple, tokensAll_eq_map, List.cons_append, List.append_assoc,
      List.nil_append]
  rw [htokens, operand_parenthesis n last _ (isSymbol_mark "(")]
  have hitems := tuple_gives (item_reads h (by decide) n) (fun e _ => tokens_opens e) n last rest
  refine hitems.bind fun r left hr => ?_
  obtain ⟨hr, hsingle, rfl⟩ := hr
  refine ⟨?_, rfl⟩
  rw [tuple_ofSeries hsingle, hr, move, moveAll_eq_map]
  rfl

theorem list_readBack {items : List Expr} (h : ∀ e ∈ items, e.ReadBack) (pos : Position) :
    (list pos items).ReadBack := by
  apply ReadBack.of_operand
  intro n rest last hallows
  have htokens : (list pos items).tokens ++ rest =
      mark "[" :: (commaSeries (items.map tokens) ++ mark "]" :: rest) := by
    simp only [tokens, Token.bracketed, tokensAll_eq_map, List.cons_append, List.append_assoc,
      List.nil_append]
  have hclose : "]" ∈ closers := by decide
  have hitems := series_gives hclose (item_reads h hclose n) (fun e _ => tokens_opens e) false n
    last rest
  rw [htokens, operand_bracket, listLiteral]
  refine hitems.bind fun r left hr => ?_
  obtain ⟨items', trailing⟩ := r
  obtain ⟨rfl, rfl⟩ := hr
  apply Gives.refuseKeyword hallows.1
  rw [move, moveAll_eq_map]
  exact ⟨rfl, rfl⟩

theorem emptyOf_readBack {element : TypeExpr} (h : element.ReadBack) (pos : Position) :
    (emptyOf pos element).ReadBack := by
  apply ReadBack.of_operand
  intro n rest last hallows
  rw [tokens, List.cons_append, operand_bracket, listLiteral]
  apply Gives.after
    (series_end (isSymbol_mark "]") false n (.keyword .kwOf :: (element.tokens ++ rest)))
  apply Gives.acceptKeyword rfl
  exact Gives.after (h.whole n rest (hallows.2 rfl)) ⟨rfl, rfl⟩

theorem bindingNames_reads (names : List Name) (rest : List Token) :
    (bindingNames (names.map fun name => ident .start name.text)).Reads [] rest
      (names.map (Name.move .forget)) := by
  induction names with
  | nil => exact fun _ => ⟨rfl, rfl⟩
  | cons name names ih =>
    intro last
    have hname : (bindingName (ident .start name.text)).Reads [] ([] ++ rest)
      (name.move .forget) := fun _ => ⟨rfl, rfl⟩
    apply Gives.after hname
    exact Gives.after ih ⟨rfl, rfl⟩

theorem letTuple_readBack {value body : Expr} (hvalue : value.ReadBack) (hbody : body.ReadBack)
    (pos : Position) (names : List Name) : (letTuple pos names value body).ReadBack := by
  let pattern : Expr := tuple .start (names.map fun name => ident .start name.text)
  have hpattern : pattern.ReadBack := by
    apply tuple_readBack
    intro e he
    obtain ⟨name, -, rfl⟩ := List.mem_map.1 he
    exact ident_readBack _ _
  have htokens : pattern.tokens = Token.tuple (names.map Name.tokens) := by
    simp only [pattern, tokens, tokensAll_eq_map, List.map_map]
    rfl
  have hmove : pattern.move .forget = pattern := by
    simp only [pattern, move, moveAll_eq_map, List.map_map]
    rfl
  apply ReadBack.of_parenthesized
    (.keyword .kwLet :: (pattern.tokens ++ Token.bound value.tokens body.tokens))
    (by rw [htokens]; rfl) ⟨_, _, rfl, rfl⟩
  intro n rest
  apply parse_reads_of_operand (atEnd_parenthesis rest)
  intro n last
  have hreads {rest : List Token} (hrest : AtEnd rest) :
      (parse n lowest).Reads pattern.tokens rest pattern := by
    have hlowest : lowest < Suffix.call.power := by decide
    have hreads := hpattern.reads hlowest hrest n
    rwa [hmove] at hreads
  rw [List.cons_append, List.append_assoc, operand_let, binding]
  apply Gives.after (hreads (.cons rfl rfl _))
  apply Gives.after (bindingNames_reads names _)
  exact Gives.after (bound_reads hvalue hbody n (atEnd_parenthesis rest)) ⟨rfl, rfl⟩

theorem callArgs_reads {args : List Expr} (h : ∀ e ∈ args, e.ReadBack) (n : Nat) (callee : Expr)
    (generics : Option (List TypeExpr)) (rest : List Token) :
    (callArgs (parse n lowest) n callee generics).Reads
      (commaSeries (args.map tokens) ++ [mark ")"]) rest
      (call callee.pos callee generics (args.map (move .forget))) := by
  intro last
  have hclose : ")" ∈ closers := by decide
  have hargs := series_gives hclose (item_reads h hclose n) (fun e _ => tokens_opens e) false n
    last rest
  rw [List.append_assoc, callArgs]
  refine hargs.bind fun r left hr => ?_
  obtain ⟨args', trailing⟩ := r
  obtain ⟨rfl, rfl⟩ := hr
  exact ⟨rfl, rfl⟩

theorem genericCall_reads {args : List Expr} (hargs : ∀ e ∈ args, e.ReadBack)
    {types : List TypeExpr} (htypes : ∀ t ∈ types, t.ReadBack) (n : Nat) (callee : Expr)
    (rest : List Token) :
    (genericCall (parse n lowest) (TypeExpr.parse n) n callee).Reads
      (commaSeries (types.map TypeExpr.tokens) ++
        mark "\x7d" :: parenthesized (commaSeries (args.map tokens))) rest
      (call callee.pos callee (some (types.map (TypeExpr.move .forget)))
        (args.map (move .forget))) := by
  intro last
  have htype : ∀ t ∈ types, ∀ u rest, u = mark "," ∨ u = mark "\x7d" →
      (TypeExpr.parse n).Reads t.tokens (u :: rest) (t.move .forget) := fun t ht u rest hu =>
    (htypes t ht).whole n _ (TypeExpr.noneNext_open (by decide) hu rest)
  have hseries := series_gives (by decide) htype (fun t _ => (TypeExpr.tokens_opens t).1) false n
    last (parenthesized (commaSeries (args.map tokens)) ++ rest)
  rw [List.append_assoc, List.cons_append, genericCall]
  refine hseries.bind fun r left hr => ?_
  obtain ⟨types', trailing⟩ := r
  obtain ⟨rfl, rfl⟩ := hr
  rw [parenthesized, List.cons_append]
  apply Gives.accept rfl
  exact callArgs_reads hargs n callee _ rest last

theorem call_readBack {callee : Expr} (hcallee : callee.ReadBack)
    (hempty : callee.isEmptyOf = false) {generics : Option (List TypeExpr)}
    (hgenerics : ∀ ts, generics = some ts → ∀ t ∈ ts, t.ReadBack) {args : List Expr}
    (hargs : ∀ e ∈ args, e.ReadBack) (pos : Position) :
    (call pos callee generics args).ReadBack := by
  intro Q floor last rest hfloor hallows hrest
  have hplain (t : Token) (ts : List Token) (ht : t.isKeyword .kwOf = false) :
      callee.Allows (t :: ts) := by
    refine ⟨by rintro _ ⟨⟩; exact ht, fun h => ?_⟩
    rw [hempty] at h
    cases h
  rw [move, moveAll_eq_map] at hrest
  rw [tokens, tokensAll_eq_map, List.append_assoc, List.append_assoc]
  cases generics with
  | none =>
    rw [typeArgTokens, parenthesized, List.nil_append, List.cons_append]
    apply hcallee Q floor last _ hfloor (hplain _ _ rfl)
    have hs : Suffix.ofToken? (mark "(") = some .call := rfl
    apply suffixes_extend hs hfloor
    intro n
    have hcall := callArgs_reads hargs n (callee.move .forget) none rest
    rw [pos_move] at hcall
    exact Gives.after hcall (hrest n)
  | some types =>
    rw [typeArgTokens, Token.braced, List.cons_append, List.append_assoc, List.singleton_append]
    apply hcallee Q floor last _ hfloor (hplain _ _ rfl)
    have hs : Suffix.ofToken? (mark "\x7b") = some .generics := rfl
    apply suffixes_extend hs hfloor
    intro n
    have hcall := genericCall_reads hargs (hgenerics types rfl) n (callee.move .forget) rest
    rw [pos_move, ← TypeExpr.moveAll_eq_map] at hcall
    rw [← List.cons_append, ← List.append_assoc]
    exact Gives.after hcall (hrest n)

mutual

theorem readBack : (e : Expr) → e.WellSpelled → e.Unambiguous → e.ReadBack
  | int _ _, _, _ => .of_operand fun n rest last _ => by
    rw [operand]
    exact ⟨rfl, rfl⟩
  | bool _ _, _, _ => .of_operand fun n rest last _ => by
    rw [operand]
    exact ⟨rfl, rfl⟩
  | str _ _, _, _ => .of_operand fun n rest last _ => by
    rw [operand]
    exact ⟨rfl, rfl⟩
  | ident pos name, _, _ => ident_readBack pos name
  | list pos items, hw, hu => list_readBack (readBackAll items hw hu) pos
  | emptyOf pos element, hw, hu => emptyOf_readBack (element.readBack hw hu) pos
  | tuple pos items, hw, hu => tuple_readBack (readBackAll items hw hu) pos
  | call pos callee generics args, hw, hu =>
    have hgenerics (ts : List TypeExpr) (hts : generics = some ts) : ∀ t ∈ ts, t.ReadBack := by
      obtain ⟨-, hspelled, -⟩ := hw
      obtain ⟨-, -, hunambiguous, -⟩ := hu
      subst hts
      exact TypeExpr.readBackAll ts (hspelled ts rfl) hunambiguous
    call_readBack (readBack callee hw.1 hu.2.1) hu.1 hgenerics
      (readBackAll args hw.2.2 hu.2.2.2) pos
  | cond pos test yes no, hw, hu =>
    cond_readBack (readBack test hw.1 hu.1) (readBack yes hw.2.1 hu.2.1)
      (readBack no hw.2.2 hu.2.2) pos
  | unpack pos head tail whole yes no, ⟨_, _, hwhole, hyes, hno⟩, hu =>
    unpack_readBack (readBack whole hwhole hu.1) (readBack yes hyes hu.2.1)
      (readBack no hno hu.2.2) pos head tail
  | letName pos name value body, ⟨_, hvalue, hbody⟩, hu =>
    letName_readBack (readBack value hvalue hu.1) (readBack body hbody hu.2) pos name
  | letTuple pos names value body, ⟨_, hvalue, hbody⟩, hu =>
    letTuple_readBack (readBack value hvalue hu.1) (readBack body hbody hu.2) pos names
  | cons pos head tail, hw, hu =>
    cons_readBack (readBack head hw.1 hu.1) (readBack tail hw.2 hu.2) pos
  | binary pos op left right, hw, hu =>
    binary_readBack (readBack left hw.1 hu.1) (readBack right hw.2 hu.2) pos op
  | unary pos op operand, hw, hu => unary_readBack (readBack operand hw hu) pos op

theorem readBackAll : (es : List Expr) → AllWellSpelled es → AllUnambiguous es →
    ∀ e ∈ es, e.ReadBack
  | [], _, _ => nofun
  | e :: es, hw, hu => List.forall_mem_cons.2 ⟨readBack e hw.1 hu.1, readBackAll es hw.2 hu.2⟩

end

end Expr

end ExprLang
