import ExprLang.Expr.Progress
import ExprLang.Proofs.Parsing.Gives

namespace ExprLang

/-- What stands between two operands: the list operator or a binary operator. -/
inductive Connective where
  | cons
  | binary (op : BinaryOp)

namespace Connective

def symbol : Connective → String
  | cons => "~"
  | binary op => op.symbol

/-- The symbols of the connectives, in rows from those that bind loosest to the tightest one. -/
def levels : List (List String) :=
  [["&", "|", "^", "!^"], ["==", "!=", "<", ">", "<=", ">="], ["~"], ["+", "-", "%"], ["*", "/"],
    ["**"]]

/-- The rows are counted from one. -/
def power (c : Connective) : Nat := levels.findIdx (·.contains c.symbol) + 1

/-- All other connectives group to the left. -/
def GroupsRight (c : Connective) : Prop := c.symbol = "~" ∨ c.symbol = "**"

instance (c : Connective) : Decidable c.GroupsRight := inferInstanceAs (Decidable (_ ∨ _))

def node (pos : Position) (left right : Expr) : Connective → Expr
  | cons => .cons pos left right
  | binary op => .binary pos op left right

def suffix : Connective → Suffix
  | cons => .cons
  | binary op => .binary op

def operandPower (c : Connective) : Nat := if c.GroupsRight then c.power - 1 else c.power

theorem suffix_injective {c d : Connective} (h : c.suffix = d.suffix) : c = d := by
  cases c <;> cases d <;> cases h <;> rfl

theorem power_suffix (c : Connective) : c.suffix.power = c.power := by
  cases c with
  | cons => rfl
  | binary op => cases op <;> rfl

theorem rightAssociative_suffix (c : Connective) :
    c.suffix.rightAssociative = true ↔ c.GroupsRight := by
  cases c with
  | cons => decide
  | binary op => cases op <;> decide

theorem operandPower_suffix (c : Connective) : c.suffix.operandPower = c.operandPower := by
  simp only [Suffix.operandPower, rightAssociative_suffix, power_suffix, operandPower]

theorem power_pos (c : Connective) : 0 < c.power := Nat.succ_pos _

theorem power_lt_unaryPower (c : Connective) : c.power < Expr.unaryPower := by
  cases c with
  | cons => decide
  | binary op => cases op <;> decide

theorem groupsRight_iff (c : Connective) : c.GroupsRight ↔ c.power = 3 ∨ c.power = 6 := by
  cases c with
  | cons => decide
  | binary op => cases op <;> decide

theorem groupsRight_congr {c d : Connective} (h : c.power = d.power) :
    c.GroupsRight ↔ d.GroupsRight := by
  rw [groupsRight_iff, groupsRight_iff, h]

end Connective

namespace Token

def atom? (t : Token) : Option Expr :=
  match t.kind with
  | .int value => some (.int t.pos value)
  | .bool value => some (.bool t.pos value)
  | .str codes => some (.str t.pos codes)
  | .identifier => some (.ident t.pos t.text)
  | _ => none

/-- An operator or a punctuation mark with this spelling. -/
structure Spells (t : Token) (symbol : String) : Prop where
  kind : ∃ cls, t.kind = .symbol cls
  text : t.text = symbol

theorem Spells.suffix {t : Token} {c : Connective} (h : t.Spells c.symbol) :
    Suffix.ofToken? t = some c.suffix := by
  obtain ⟨kind, text, pos⟩ := t
  obtain ⟨⟨cls, hkind⟩, htext⟩ := h
  dsimp only at hkind htext
  subst hkind htext
  cases c with
  | cons => rfl
  | binary op => cases op <;> rfl

theorem Spells.connective_unique {t : Token} {c d : Connective} (hc : t.Spells c.symbol)
    (hd : t.Spells d.symbol) : c = d :=
  Connective.suffix_injective (Option.some.inj (hc.suffix.symm.trans hd.suffix))

theorem Spells.unary_unique {t : Token} {op op' : UnaryOp} (h : t.Spells op.symbol)
    (h' : t.Spells op'.symbol) : op = op' := by
  have hsymbol := h.text.symm.trans h'.text
  revert hsymbol
  cases op <;> cases op' <;> decide

end Token

/-- Unary operators and the literal or identifier that they apply to. -/
inductive OperandTokens : List Token → Prop where
  | atom {t : Token} {e : Expr} : t.atom? = some e → OperandTokens [t]
  | unary {t : Token} {op : UnaryOp} {ts : List Token} :
    t.Spells op.symbol → OperandTokens ts → OperandTokens (t :: ts)

inductive OperandSequence : List Token → Prop where
  | single {ts : List Token} : OperandTokens ts → OperandSequence ts
  | more {ts us : List Token} {t : Token} {c : Connective} :
    OperandTokens ts → t.Spells c.symbol → OperandSequence us → OperandSequence (ts ++ t :: us)

namespace Expr

/-- An expression that reads, from left to right, as the tokens stand. -/
inductive Reads : Expr → List Token → Prop where
  | atom {t : Token} {e : Expr} : t.atom? = some e → Reads e [t]
  | unary {t : Token} {op : UnaryOp} {e : Expr} {ts : List Token} :
    t.Spells op.symbol → Reads e ts → Reads (.unary t.pos op e) (t :: ts)
  | node {t : Token} {c : Connective} {left right : Expr} {ts us : List Token} :
    t.Spells c.symbol → Reads left ts → Reads right us →
      Reads (c.node t.pos left right) (ts ++ t :: us)

/-- The connective at the root. -/
def root? : Expr → Option Connective
  | cons _ _ _ => some .cons
  | binary _ op _ _ => some (.binary op)
  | _ => none

end Expr

/-- Which expressions a connective may have on its left and on its right. -/
def Connective.Holds (c : Connective) (left right : Expr) : Prop :=
  (∀ d, left.root? = some d →
    c.power < d.power ∨ d.power = c.power ∧ ¬ c.GroupsRight) ∧
  ∀ d, right.root? = some d → c.power < d.power ∨ d.power = c.power ∧ c.GroupsRight

/-- The connectives group by their powers, and unary operators apply to one operand. -/
def Expr.Grouped : Expr → Prop
  | unary _ _ operand => operand.root? = none ∧ operand.Grouped
  | cons _ left right => Connective.cons.Holds left right ∧ left.Grouped ∧ right.Grouped
  | binary _ op left right =>
    (Connective.binary op).Holds left right ∧ left.Grouped ∧ right.Grouped
  | _ => True

/-- An operand at the head of the tokens, and what is left. -/
inductive OperandAt : List Token → Expr → List Token → Prop where
  | atom {t : Token} {e : Expr} {ts : List Token} : t.atom? = some e → OperandAt (t :: ts) e ts
  | unary {t : Token} {op : UnaryOp} {e : Expr} {ts rest : List Token} :
    t.Spells op.symbol → OperandAt ts e rest → OperandAt (t :: ts) (.unary t.pos op e) rest

/-- No connective whose power exceeds `floor` comes next. -/
def StopsAt (floor : Nat) (ts : List Token) : Prop :=
  ∀ (t : Token) (c : Connective), ts.head? = some t → t.Spells c.symbol → c.power ≤ floor

/-- The loop of the parser: as long as a connective comes next whose power exceeds `floor`, it takes
the expression so far as its left side, and as its right side what the loop makes of the next
operand with a floor of its own. -/
inductive Climbs : Nat → Expr → List Token → Expr → List Token → Prop where
  | stop {floor : Nat} {node : Expr} {ts : List Token} :
    StopsAt floor ts → Climbs floor node ts node ts
  | step {floor : Nat} {node operand right e : Expr} {t : Token} {c : Connective}
      {ts left left' rest : List Token} :
    t.Spells c.symbol → floor < c.power → OperandAt ts operand left →
      Climbs c.operandPower operand left right left' →
      Climbs floor (c.node t.pos node right) left' e rest → Climbs floor node (t :: ts) e rest

theorem Token.Spells.atom? {t : Token} {symbol : String} (h : t.Spells symbol) :
    t.atom? = none := by
  obtain ⟨cls, hkind⟩ := h.kind
  rw [Token.atom?, hkind]

theorem OperandAt.unique {ts rest rest' : List Token} {e e' : Expr} (h : OperandAt ts e rest)
    (h' : OperandAt ts e' rest') : e = e' ∧ rest = rest' := by
  induction h generalizing e' with
  | atom ht =>
    cases h' with
    | atom ht' => exact ⟨Option.some.inj (ht.symm.trans ht'), rfl⟩
    | unary ht' _ => cases ht'.atom?.symm.trans ht
  | unary ht _ ih =>
    cases h' with
    | atom ht' => cases ht.atom?.symm.trans ht'
    | unary ht' hrest =>
      obtain ⟨rfl, rfl⟩ := ih hrest
      obtain rfl := ht.unary_unique ht'
      exact ⟨rfl, rfl⟩

namespace Climbs

variable {floor : Nat} {node e : Expr} {ts rest : List Token}

theorem stopsAt (h : Climbs floor node ts e rest) : StopsAt floor rest := by
  induction h with
  | stop hstops => exact hstops
  | step _ _ _ _ _ _ ih => exact ih

theorem unique {e' : Expr} {rest' : List Token} (h : Climbs floor node ts e rest)
    (h' : Climbs floor node ts e' rest') : e = e' ∧ rest = rest' := by
  induction h generalizing e' rest' with
  | stop hstops =>
    cases h' with
    | stop _ => exact ⟨rfl, rfl⟩
    | step hc hfloor _ _ _ => exact absurd (hstops _ _ rfl hc) (Nat.not_le.2 hfloor)
  | step hc hfloor hoperand _ _ ihRight ihRest =>
    cases h' with
    | stop hstops => exact absurd (hstops _ _ rfl hc) (Nat.not_le.2 hfloor)
    | step hc' _ hoperand' hright' hrest' =>
      obtain rfl := hc.connective_unique hc'
      obtain ⟨rfl, rfl⟩ := hoperand.unique hoperand'
      obtain ⟨rfl, rfl⟩ := ihRight hright'
      exact ihRest hrest'

end Climbs

namespace Connective

variable {c d : Connective}

/-- Where a connective follows the right side of another, it may have that one on its left. -/
theorem left_of_le_operandPower (h : c.power ≤ d.operandPower) :
    c.power < d.power ∨ d.power = c.power ∧ ¬ c.GroupsRight := by
  rw [operandPower] at h
  have hpos := d.power_pos
  split at h
  · exact .inl (by omega)
  · rename_i hleft
    obtain hlt | heq := Nat.lt_or_eq_of_le h
    · exact .inl hlt
    · exact .inr ⟨heq.symm, mt (groupsRight_congr heq).1 hleft⟩

theorem right_of_operandPower_lt (h : c.operandPower < d.power) :
    c.power < d.power ∨ d.power = c.power ∧ c.GroupsRight := by
  rw [operandPower] at h
  split at h
  · rename_i hright
    have hle : c.power ≤ d.power := by omega
    obtain hlt | heq := Nat.lt_or_eq_of_le hle
    · exact .inl hlt
    · exact .inr ⟨heq.symm, hright⟩
  · exact .inl h

theorem le_operandPower_of_left
    (h : c.power < d.power ∨ d.power = c.power ∧ ¬ c.GroupsRight) : c.power ≤ d.operandPower := by
  rw [operandPower]
  obtain hlt | ⟨heq, hleft⟩ := h
  · split <;> omega
  · rw [if_neg (mt (groupsRight_congr heq).1 hleft)]
    exact Nat.le_of_eq heq.symm

theorem operandPower_lt_of_right
    (h : c.power < d.power ∨ d.power = c.power ∧ c.GroupsRight) : c.operandPower < d.power := by
  have hpos := c.power_pos
  rw [operandPower]
  obtain hlt | ⟨heq, hright⟩ := h
  · split <;> omega
  · rw [if_pos hright, heq]
    exact Nat.sub_lt hpos Nat.one_pos

theorem operandPower_le_operandPower (h : c.operandPower < d.power) :
    c.operandPower ≤ d.operandPower := by
  rw [operandPower.eq_def d]
  split <;> omega

theorem root?_node (c : Connective) (pos : Position) (left right : Expr) :
    (c.node pos left right).root? = some c := by
  cases c <;> rfl

theorem grouped_node (c : Connective) (pos : Position) (left right : Expr) :
    (c.node pos left right).Grouped ↔ c.Holds left right ∧ left.Grouped ∧ right.Grouped := by
  cases c <;> rfl

end Connective

theorem Expr.root?_of_atom? {t : Token} {e : Expr} (h : t.atom? = some e) :
    e.root? = none ∧ e.Grouped := by
  rw [Token.atom?] at h
  cases hkind : t.kind with
  | identifier | bool | int | str =>
    rw [hkind] at h
    cases h
    exact ⟨rfl, trivial⟩
  | keyword | symbol =>
    rw [hkind] at h
    cases h

theorem OperandAt.grouped {ts rest : List Token} {e : Expr} (h : OperandAt ts e rest) :
    e.root? = none ∧ e.Grouped ∧ ∃ taken, ts = taken ++ rest ∧ e.Reads taken := by
  induction h with
  | atom ht =>
    obtain ⟨hroot, hgrouped⟩ := Expr.root?_of_atom? ht
    exact ⟨hroot, hgrouped, [_], rfl, .atom ht⟩
  | unary ht _ ih =>
    obtain ⟨hroot, hgrouped, taken, rfl, hreads⟩ := ih
    exact ⟨rfl, ⟨hroot, hgrouped⟩, _ :: taken, rfl, .unary ht hreads⟩

/-- What the loop makes of a grouped expression is grouped, and reads as the tokens it took. -/
theorem Climbs.grouped {floor : Nat} {node e : Expr} {ts rest : List Token}
    (h : Climbs floor node ts e rest) {before : List Token} (hreads : node.Reads before)
    (hgrouped : node.Grouped)
    (hroot : ∀ d, node.root? = some d → floor < d.power ∧ StopsAt d.operandPower ts) :
    e.Grouped ∧ (∀ d, e.root? = some d → floor < d.power) ∧
      ∃ taken, ts = taken ++ rest ∧ e.Reads (before ++ taken) := by
  induction h generalizing before with
  | stop _ =>
    refine ⟨hgrouped, fun d hd => (hroot d hd).1, [], rfl, ?_⟩
    rw [List.append_nil]
    exact hreads
  | @step floor node operand right e t c ts left left' rest hc hfloor hoperand hright _ ihRight
      ihRest =>
    obtain ⟨hnone, hgroupedOperand, taken, rfl, hreadsOperand⟩ := hoperand.grouped
    obtain ⟨hgroupedRight, hrootRight, taken', rfl, hreadsRight⟩ :=
      ihRight hreadsOperand hgroupedOperand fun d hd => by rw [hnone] at hd; cases hd
    have hholds : c.Holds node right :=
      ⟨fun d hd => Connective.left_of_le_operandPower ((hroot d hd).2 t c rfl hc),
        fun d hd => Connective.right_of_operandPower_lt (hrootRight d hd)⟩
    have hrootNode : ∀ d, (c.node t.pos node right).root? = some d →
        floor < d.power ∧ StopsAt d.operandPower left' := by
      intro d hd
      rw [Connective.root?_node] at hd
      cases hd
      exact ⟨hfloor, hright.stopsAt⟩
    have hgroupedNode := (c.grouped_node t.pos node right).2 ⟨hholds, hgrouped, hgroupedRight⟩
    obtain ⟨hgroupedRest, hrootRest, taken'', rfl, hreadsRest⟩ :=
      ihRest (.node hc hreads hreadsRight) hgroupedNode hrootNode
    refine ⟨hgroupedRest, hrootRest, t :: (taken ++ taken' ++ taken''), ?_, ?_⟩
    · simp only [List.cons_append, List.append_assoc]
    · simpa only [List.cons_append, List.append_assoc] using hreadsRest

theorem Expr.Reads.operandAt {e : Expr} {ts : List Token} (hreads : e.Reads ts)
    (hgrouped : e.Grouped) (hroot : e.root? = none) (rest : List Token) :
    OperandAt (ts ++ rest) e rest := by
  induction hreads with
  | atom ht => exact .atom ht
  | unary ht _ ih => exact .unary ht (ih hgrouped.2 hgrouped.1)
  | node _ _ _ _ _ =>
    rw [Connective.root?_node] at hroot
    cases hroot

/-- The loop comes past every grouped expression: it can read the first operand of the expression
and go on to the whole of it. -/
theorem Expr.Reads.climbs {e : Expr} {ts : List Token} (hreads : e.Reads ts) (hgrouped : e.Grouped)
    {floor : Nat} {rest last : List Token} {e' : Expr}
    (hroot : ∀ d, e.root? = some d → floor < d.power ∧ StopsAt d.operandPower rest)
    (hrest : Climbs floor e rest e' last) :
    ∃ operand left, OperandAt (ts ++ rest) operand left ∧ Climbs floor operand left e' last := by
  induction hreads generalizing floor rest e' last with
  | atom ht => exact ⟨_, rest, .atom ht, hrest⟩
  | unary ht hreads _ =>
    have hoperand := hreads.operandAt hgrouped.2 hgrouped.1 rest
    exact ⟨_, rest, .unary ht hoperand, hrest⟩
  | @node t c l r ts us hc hl hr ihLeft ihRight =>
    obtain ⟨⟨hholdsLeft, hholdsRight⟩, hgroupedLeft, hgroupedRight⟩ :=
      (c.grouped_node t.pos l r).1 hgrouped
    obtain ⟨hfloor, hstops⟩ := hroot c (c.root?_node t.pos l r)
    have hrootRight : ∀ d, r.root? = some d →
        c.operandPower < d.power ∧ StopsAt d.operandPower rest := by
      intro d hd
      have hpower := Connective.operandPower_lt_of_right (hholdsRight d hd)
      refine ⟨hpower, fun t' c' ht' hc' => ?_⟩
      exact Nat.le_trans (hstops t' c' ht' hc') (Connective.operandPower_le_operandPower hpower)
    obtain ⟨operand, left, hoperand, hright⟩ := ihRight hgroupedRight hrootRight (.stop hstops)
    have hrootLeft : ∀ d, l.root? = some d →
        floor < d.power ∧ StopsAt d.operandPower (t :: (us ++ rest)) := by
      intro d hd
      refine ⟨?_, fun t' c' ht' hc' => ?_⟩
      · obtain hlt | ⟨heq, _⟩ := hholdsLeft d hd
        · exact Nat.lt_trans hfloor hlt
        · rwa [heq]
      · cases ht'
        obtain rfl := hc.connective_unique hc'
        exact Connective.le_operandPower_of_left (hholdsLeft d hd)
    rw [List.append_assoc, List.cons_append]
    exact ihLeft hgroupedLeft hrootLeft (.step hc hfloor hoperand hright hrest)

theorem StopsAt.nil (floor : Nat) : StopsAt floor [] := nofun

/-- Tokens have at most one grouped expression that reads as they stand. -/
theorem Expr.Reads.unique {e e' : Expr} {ts : List Token} (h : e.Reads ts) (h' : e'.Reads ts)
    (hgrouped : e.Grouped) (hgrouped' : e'.Grouped) : e = e' := by
  obtain ⟨operand, left, hoperand, hclimbs⟩ := h.climbs hgrouped
    (fun d _ => ⟨d.power_pos, .nil _⟩) (.stop (.nil 0))
  obtain ⟨operand', left', hoperand', hclimbs'⟩ := h'.climbs hgrouped'
    (fun d _ => ⟨d.power_pos, .nil _⟩) (.stop (.nil 0))
  obtain ⟨rfl, rfl⟩ := hoperand.unique hoperand'
  exact (hclimbs.unique hclimbs').1

inductive SequenceRest : List Token → Prop where
  | nil : SequenceRest []
  | cons {t : Token} {c : Connective} {ts : List Token} :
    t.Spells c.symbol → OperandSequence ts → SequenceRest (t :: ts)

theorem OperandSequence.split {ts : List Token} (h : OperandSequence ts) :
    ∃ operand rest, ts = operand ++ rest ∧ OperandTokens operand ∧ SequenceRest rest := by
  cases h with
  | single h => exact ⟨ts, [], (List.append_nil ts).symm, h, .nil⟩
  | more h hc hrest => exact ⟨_, _, rfl, h, .cons hc hrest⟩

theorem OperandTokens.append {ts rest : List Token} (h : OperandTokens ts)
    (hrest : SequenceRest rest) : OperandSequence (ts ++ rest) := by
  cases hrest with
  | nil =>
    rw [List.append_nil]
    exact .single h
  | cons hc hrest => exact .more h hc hrest

theorem OperandTokens.operandAt {ts : List Token} (h : OperandTokens ts) (rest : List Token) :
    ∃ e, OperandAt (ts ++ rest) e rest := by
  induction h with
  | atom ht => exact ⟨_, .atom ht⟩
  | unary ht _ ih =>
    obtain ⟨e, he⟩ := ih
    exact ⟨_, .unary ht he⟩

namespace Expr

/-- What the parser finds at the head of a sequence of operands. -/
def ClimbsTo (floor : Nat) (ts : List Token) (e : Expr) (rest : List Token) : Prop :=
  SequenceRest rest ∧
    ∃ operand left, OperandAt ts operand left ∧ Climbs floor operand left e rest

variable (last : Position)

theorem extend_climbs {exprAt : Nat → Parse Expr} {ts : List Token}
    (h : ∀ floor, ((exprAt floor).run last ts).Gives (ClimbsTo floor ts)) (type : Parse TypeExpr)
    (n : Nat) (node : Expr) (pos : Position) (c : Connective) :
    ((extend exprAt type n node pos c.suffix).run last ts).Gives fun e rest =>
      ∃ right, e = c.node pos node right ∧ ClimbsTo c.operandPower ts right rest := by
  rw [← c.operandPower_suffix]
  cases c with
  | cons => exact (h _).bind fun right rest hright => ⟨right, rfl, hright⟩
  | binary op => exact (h _).bind fun right rest hright => ⟨right, rfl, hright⟩

theorem operand_of_atom? {t : Token} {e : Expr} (h : t.atom? = some e) (n : Nat)
    (rest : List Token) : (operand (n + 1)).run last (t :: rest) = .ok e rest := by
  obtain ⟨kind, text, pos⟩ := t
  cases kind with
  | identifier | bool | int | str =>
    cases h
    rw [operand]
    rfl
  | keyword | symbol => cases h

theorem operand_of_unary {t : Token} {op : UnaryOp} (h : t.Spells op.symbol) (n : Nat)
    (rest : List Token) :
    (operand (n + 1)).run last (t :: rest) =
      (parse n unaryPower >>= fun e => pure (unary t.pos op e)).run last rest := by
  obtain ⟨kind, text, pos⟩ := t
  obtain ⟨⟨cls, hkind⟩, htext⟩ := h
  dsimp only at hkind htext
  subst hkind htext
  rw [operand]
  cases op <;> rfl

mutual

theorem parse_climbs : (n floor : Nat) → {ts : List Token} → OperandSequence ts →
    ((parse n floor).run last ts).Gives (ClimbsTo floor ts)
  | 0, _, _, _ => trivial
  | n + 1, floor, ts, hts => by
    obtain ⟨tokens, rest, rfl, htokens, hrest⟩ := hts.split
    rw [parse]
    refine (operand_climbs n htokens hrest).bind fun operand left hoperand => ?_
    obtain ⟨rfl, hoperand⟩ := hoperand
    refine (suffixes_climbs n floor operand hrest).imp fun e rest he => ?_
    exact ⟨he.1, operand, left, hoperand, he.2⟩

theorem operand_climbs : (n : Nat) → {ts rest : List Token} → OperandTokens ts →
    SequenceRest rest →
    ((operand n).run last (ts ++ rest)).Gives fun e left =>
      left = rest ∧ OperandAt (ts ++ rest) e rest
  | 0, _, _, _, _ => trivial
  | n + 1, _, rest, @OperandTokens.atom t _ ht, hrest => by
    rw [List.cons_append, List.nil_append, operand_of_atom? last ht]
    exact ⟨rfl, .atom ht⟩
  | n + 1, _, rest, @OperandTokens.unary t _ ts ht hts, hrest => by
    -- no connective binds as tightly as a unary operator, so its operand ends where the tokens do
    have hoperand : ((parse n unaryPower).run last (ts ++ rest)).Gives fun e left =>
        left = rest ∧ OperandAt (ts ++ rest) e rest := by
      refine (parse_climbs n unaryPower (hts.append hrest)).imp fun e left he => ?_
      obtain ⟨_, operand, left', hat, hclimbs⟩ := he
      obtain ⟨operand', hat'⟩ := hts.operandAt rest
      obtain ⟨rfl, rfl⟩ := hat.unique hat'
      have hstops : StopsAt unaryPower left' := fun _ c _ _ => Nat.le_of_lt c.power_lt_unaryPower
      obtain ⟨rfl, rfl⟩ := hclimbs.unique (.stop hstops)
      exact ⟨rfl, hat⟩
    rw [List.cons_append, operand_of_unary last ht]
    exact hoperand.bind fun e left ⟨hleft, hat⟩ => ⟨hleft, .unary ht hat⟩

theorem suffixes_climbs : (n floor : Nat) → (node : Expr) → {ts : List Token} → SequenceRest ts →
    ((suffixes n floor node).run last ts).Gives fun e rest =>
      SequenceRest rest ∧ Climbs floor node ts e rest
  | 0, _, _, _, _ => trivial
  | n + 1, floor, node, _, .nil => by
    rw [suffixes]
    exact ⟨.nil, .stop (.nil floor)⟩
  | n + 1, floor, node, _, @SequenceRest.cons t c ts hc hts => by
    rw [suffixes, Parse.run_bind]
    simp only [Parse.run, Parse.peek, List.head?_cons, hc.suffix, c.power_suffix]
    split
    · rename_i hpower
      refine ⟨.cons hc hts, .stop fun t' c' ht' hc' => ?_⟩
      cases ht'
      obtain rfl := hc.connective_unique hc'
      exact hpower
    · rename_i hpower
      have hextend := extend_climbs last (fun floor => parse_climbs n floor hts) (TypeExpr.parse n)
        n node t.pos c
      refine hextend.bind fun longer rest hlonger => ?_
      obtain ⟨right, rfl, hrest, operand, left, hoperand, hright⟩ := hlonger
      refine (suffixes_climbs n floor _ hrest).imp fun e rest' he => ?_
      exact ⟨he.1, .step hc (Nat.not_le.1 hpower) hoperand hright he.2⟩

end

/-- A sequence of operands has exactly one grouped expression that reads as it stands, and the
parser finds it and takes the whole sequence. -/
theorem parse_sequence {ts : List Token} (hts : OperandSequence ts) {fuel : Nat}
    (hfuel : 2 * ts.length + 2 ≤ fuel) (last : Position) :
    ∃ e, (parse fuel lowest).run last ts = .ok e [] ∧ e.Reads ts ∧ e.Grouped ∧
      ∀ e', e'.Reads ts → e'.Grouped → e' = e := by
  have hends := parse_ends hfuel lowest last ts (Nat.le_refl _)
  have hclimbs := parse_climbs last fuel lowest hts
  cases hr : (parse fuel lowest).run last ts with
  | ok e rest =>
    rw [hr] at hclimbs
    obtain ⟨hrest, operand, left, hoperand, hclimbs⟩ := hclimbs
    have hnil : rest = [] := by
      cases hrest with
      | nil => rfl
      | cons hc _ =>
        have hstops := hclimbs.stopsAt _ _ rfl hc
        exact absurd hstops (Nat.not_le.2 (Connective.power_pos _))
    subst hnil
    obtain ⟨hnone, hgrouped, taken, rfl, hreads⟩ := hoperand.grouped
    obtain ⟨hgrouped, _, taken', rfl, hreads⟩ :=
      hclimbs.grouped hreads hgrouped fun d hd => by rw [hnone] at hd; cases hd
    simp only [List.append_nil]
    refine ⟨e, rfl, hreads, hgrouped, fun e' hreads' hgrouped' => ?_⟩
    exact hreads'.unique hreads hgrouped' hgrouped
  | error e =>
    rw [hr] at hclimbs
    exact hclimbs.elim
  | outOfFuel =>
    rw [hr] at hends
    exact hends.elim

/-- `- a ** 2 ** b ~ c` -/
def signedPowers : List Token :=
  [⟨.symbol .operator, "-", ⟨1, 1⟩⟩, ⟨.identifier, "a", ⟨1, 3⟩⟩] ++
    ⟨.symbol .operator, "**", ⟨1, 5⟩⟩ :: ([⟨.int 2, "2", ⟨1, 8⟩⟩] ++
      ⟨.symbol .operator, "**", ⟨1, 10⟩⟩ :: ([⟨.identifier, "b", ⟨1, 13⟩⟩] ++
        ⟨.symbol .operator, "~", ⟨1, 15⟩⟩ :: [⟨.identifier, "c", ⟨1, 17⟩⟩]))

theorem parse_sequence_signedPowers :
    OperandSequence signedPowers ∧
      ∃ e, (parse 18 lowest).run .start signedPowers = .ok e [] ∧ e.Reads signedPowers ∧
        e.Grouped ∧ ∀ e', e'.Reads signedPowers → e'.Grouped → e' = e := by
  have hneg : Token.Spells ⟨.symbol .operator, "-", ⟨1, 1⟩⟩ UnaryOp.neg.symbol := ⟨⟨_, rfl⟩, rfl⟩
  have hpow (pos : Position) :
      Token.Spells ⟨.symbol .operator, "**", pos⟩ (Connective.binary .pow).symbol :=
    ⟨⟨_, rfl⟩, rfl⟩
  have hcons : Token.Spells ⟨.symbol .operator, "~", ⟨1, 15⟩⟩ Connective.cons.symbol :=
    ⟨⟨_, rfl⟩, rfl⟩
  have hts : OperandSequence signedPowers :=
    .more (.unary hneg (.atom rfl)) (hpow _)
      (.more (.atom rfl) (hpow _) (.more (.atom rfl) hcons (.single (.atom rfl))))
  exact ⟨hts, parse_sequence hts (by decide) .start⟩

end Expr

end ExprLang
