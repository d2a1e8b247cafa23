import ExprLang.Decl.Parser
import ExprLang.Proofs.Parsing.Leaves
import Mathlib.Data.List.Forall2

namespace ExprLang

def Token.leaves (t : Token) : List Leaf :=
  match t.content? with
  | some content => [⟨content, some t.pos⟩]
  | none => []

/-- The leaves come from the tokens that make leaves, one by one. -/
def Spells (leaves : List Leaf) (ts : List Token) : Prop :=
  List.Forall₂ Leaf.ComesFrom leaves (ts.filter Token.isLeaf)

namespace Spells

variable {leaves leaves' : List Leaf} {ts ts' : List Token} {t : Token}

theorem nil : Spells [] [] := List.Forall₂.nil

theorem append (h : Spells leaves ts) (h' : Spells leaves' ts') :
    Spells (leaves ++ leaves') (ts ++ ts') := by
  rw [Spells, List.filter_append]
  exact List.rel_append h h'

theorem token (t : Token) : Spells t.leaves [t] := by
  rw [Spells, List.filter_cons, Token.isLeaf, Token.leaves]
  cases hcontent : t.content? with
  | none => exact .nil
  | some content => exact .cons ⟨hcontent, fun _ h => (Option.some.inj h).symm⟩ .nil

end Spells

theorem Token.leaves_of_isSymbol {t : Token} {symbol : String} (h : t.isSymbol symbol = true)
    (hsymbol : spellsOperator symbol = false) : t.leaves = [] := by
  unfold isSymbol at h
  split at h
  · rename_i hkind
    rw [leaves, content?, hkind, beq_iff_eq.1 h, hsymbol]
    rfl
  · cases h

theorem Token.leaves_of_isKeyword {t : Token} {word : Keyword} (h : t.isKeyword word = true) :
    t.leaves = [] := by
  unfold isKeyword at h
  split at h
  · rename_i hkind
    rw [leaves, content?, hkind]
  · cases h

/-- A parse takes tokens from the head that spell leaves, and the leaves are as `R` says. -/
def Parse.Yields {α : Type} (p : Parse α) (R : α → List Leaf → Prop) : Prop :=
  ∀ last ts a rest, p.run last ts = .ok a rest →
    ∃ taken leaves, ts = taken ++ rest ∧ Spells leaves taken ∧ R a leaves

namespace Parse.Yields

variable {α β : Type} {p : Parse α} {R : α → List Leaf → Prop} {S : β → List Leaf → Prop}

theorem pure {a : α} (h : R a []) : (Pure.pure a : Parse α).Yields R := by
  rintro last ts _ _ ⟨⟩
  exact ⟨[], [], rfl, .nil, h⟩

theorem fail (fault : SyntaxFault) (pos : Position) : (Parse.fail fault pos : Parse α).Yields R :=
  nofun

theorem unexpected (expected : String) (t : Token) :
    (Parse.unexpected expected t : Parse α).Yields R :=
  nofun

theorem outOfFuel : (Parse.outOfFuel : Parse α).Yields R := nofun

theorem imp {R' : α → List Leaf → Prop} (hp : p.Yields R)
    (h : ∀ a leaves, R a leaves → R' a leaves) : p.Yields R' := by
  intro last ts a rest hrun
  obtain ⟨taken, leaves, hts, hspells, hR⟩ := hp last ts a rest hrun
  exact ⟨taken, leaves, hts, hspells, h a leaves hR⟩

theorem bind {k : α → Parse β} (hp : p.Yields R)
    (hk : ∀ a leaves, R a leaves → (k a).Yields fun b leaves' => S b (leaves ++ leaves')) :
    (p >>= k).Yields S := by
  intro last ts b rest hrun
  obtain ⟨a, left, hrun, hrun'⟩ := run_bind_eq_ok.1 hrun
  obtain ⟨taken, leaves, rfl, hspells, hR⟩ := hp last ts a left hrun
  obtain ⟨taken', leaves', rfl, hspells', hS⟩ := hk a leaves hR last left b rest hrun'
  exact ⟨taken ++ taken', leaves ++ leaves', (List.append_assoc ..).symm,
    hspells.append hspells', hS⟩

theorem bind_nil {k : α → Parse β} (hp : p.Yields fun _ leaves => leaves = [])
    (hk : ∀ a, (k a).Yields S) : (p >>= k).Yields S := by
  refine hp.bind fun a leaves hnil => ?_
  subst hnil
  exact hk a

theorem here : Parse.here.Yields fun _ leaves => leaves = [] := by
  rintro last ts _ _ ⟨⟩
  exact ⟨[], [], rfl, .nil, rfl⟩

theorem next (expected : String) :
    (Parse.next expected).Yields fun t leaves => leaves = t.leaves := by
  intro last ts t rest hrun
  cases ts with
  | nil => cases hrun
  | cons head ts =>
    cases hrun
    exact ⟨[t], t.leaves, rfl, .token t, rfl⟩

theorem accept {symbol : String} (h : Token.spellsOperator symbol = false) :
    (Parse.accept symbol).Yields fun _ leaves => leaves = [] := by
  intro last ts b rest hrun
  cases ts with
  | nil =>
    cases hrun
    exact ⟨[], [], rfl, .nil, rfl⟩
  | cons t ts =>
    rw [Parse.run, Parse.accept] at hrun
    split at hrun
    · rename_i ht
      cases hrun
      exact ⟨[t], t.leaves, rfl, .token t, t.leaves_of_isSymbol ht h⟩
    · cases hrun
      exact ⟨[], [], rfl, .nil, rfl⟩

theorem acceptKeyword (word : Keyword) :
    (Parse.acceptKeyword word).Yields fun _ leaves => leaves = [] := by
  intro last ts b rest hrun
  cases ts with
  | nil =>
    cases hrun
    exact ⟨[], [], rfl, .nil, rfl⟩
  | cons t ts =>
    rw [Parse.run, Parse.acceptKeyword] at hrun
    split at hrun
    · rename_i ht
      cases hrun
      exact ⟨[t], t.leaves, rfl, .token t, t.leaves_of_isKeyword ht⟩
    · cases hrun
      exact ⟨[], [], rfl, .nil, rfl⟩

theorem expect {symbol : String} (h : Token.spellsOperator symbol = false) :
    (Parse.expect symbol).Yields fun _ leaves => leaves = [] := by
  refine (next _).bind fun t leaves hleaves => ?_
  split
  · rename_i ht
    exact pure (by rw [hleaves, t.leaves_of_isSymbol ht h, List.append_nil])
  split
  · exact fail _ _
  · exact unexpected _ _

theorem expectKeyword (word : Keyword) :
    (Parse.expectKeyword word).Yields fun _ leaves => leaves = [] := by
  refine (next _).bind fun t leaves hleaves => ?_
  split
  · rename_i ht
    exact pure (by rw [hleaves, t.leaves_of_isKeyword ht, List.append_nil])
  · exact unexpected _ _

theorem identifier (expected : String) :
    (Parse.identifier expected).Yields fun t leaves => leaves = [⟨.name t.text, some t.pos⟩] := by
  refine (next _).bind fun t leaves hleaves => ?_
  split
  · rename_i hkind
    refine pure ?_
    rw [hleaves, List.append_nil, Token.leaves, Token.content?, hkind]
  · exact unexpected _ _

theorem series {f : α → List Leaf} (h : p.Yields fun a leaves => leaves = f a) {close : String}
    (hclose : Token.spellsOperator close = false) (trailing : Bool) (n : Nat) :
    (Parse.series close p trailing n).Yields fun r leaves => leaves = r.1.flatMap f := by
  induction n generalizing trailing with
  | zero => exact outOfFuel
  | succ n ih =>
    rw [Parse.series]
    refine (accept hclose).bind_nil fun closed => ?_
    split
    · exact pure rfl
    · refine h.bind fun a leaves hleaves => ?_
      subst hleaves
      refine (accept rfl).bind_nil fun more => ?_
      split
      · refine (ih true).bind fun r leaves hleaves => ?_
        exact pure (by simp [hleaves])
      · exact (expect hclose).bind_nil fun _ => pure (by simp)

/-- Leaves that are spelled whenever the yielded ones are may take their place. -/
theorem of_spells {f : α → List Leaf}
    (h : p.Yields fun a leaves => ∀ ts, Spells leaves ts → Spells (f a) ts) :
    p.Yields fun a leaves => leaves = f a := by
  intro last ts a rest hrun
  obtain ⟨taken, leaves, hts, hspells, himp⟩ := h last ts a rest hrun
  exact ⟨taken, f a, hts, himp taken hspells, rfl⟩

end Parse.Yields

def Parse.YieldsAt {α : Type} (t : Token) (p : Parse α) (R : α → List Leaf → Prop) : Prop :=
  ∀ last ts a rest, p.run last (t :: ts) = .ok a rest →
    ∃ taken leaves, t :: ts = taken ++ rest ∧ Spells leaves taken ∧ R a leaves

namespace Parse

variable {α : Type} {p : Parse α} {R : α → List Leaf → Prop} {t : Token}

theorem Yields.known (h : p.Yields R) : p.YieldsAt t R := fun last ts => h last (t :: ts)

theorem YieldsAt.next {expected : String} {k : Token → Parse α}
    (h : (k t).Yields fun a leaves => R a (t.leaves ++ leaves)) :
    (Parse.next expected >>= k).YieldsAt t R := by
  intro last ts a rest hrun
  obtain ⟨t', left, hnext, hrun⟩ := run_bind_eq_ok.1 hrun
  cases hnext
  obtain ⟨taken, leaves, rfl, hspells, hR⟩ := h last _ a rest hrun
  exact ⟨t :: taken, t.leaves ++ leaves, rfl, (Spells.token t).append hspells, hR⟩

theorem Yields.peek {k : Option Token → Parse α} (hnone : (k none).Yields R)
    (hsome : ∀ t, (k (some t)).YieldsAt t R) : (Parse.peek >>= k).Yields R := by
  intro last ts a rest hrun
  obtain ⟨t?, left, hpeek, hrun⟩ := run_bind_eq_ok.1 hrun
  cases hpeek
  cases ts with
  | nil => exact hnone last [] a rest hrun
  | cons t ts => exact hsome t last ts a rest hrun

end Parse

open Parse

namespace TypeExpr

variable {type : Parse TypeExpr}

theorem genericNames_yields (n : Nat) :
    (genericNames n).Yields fun names leaves => leaves = names.map Name.leaf := by
  refine (Yields.series (.identifier _) rfl _ n).bind fun (ts, _) leaves hleaves => ?_
  refine .pure ?_
  rw [hleaves, List.append_nil, List.map_map, List.map_eq_flatMap]
  rfl

theorem optionalGenerics_yields (n : Nat) :
    (optionalGenerics n).Yields fun names leaves => leaves = names.map Name.leaf := by
  refine (Yields.accept rfl).bind_nil fun opened => ?_
  split
  · exact genericNames_yields n
  · exact .pure rfl

theorem param_yields (h : type.Yields fun t leaves => leaves = t.leaves) :
    (param type).Yields fun p leaves => leaves = p.1.leaf :: p.2.leaves := by
  refine (Yields.identifier _).bind fun name leaves hname => ?_
  refine (Yields.expect rfl).bind_nil fun _ => ?_
  refine h.bind fun t leaves' ht => ?_
  refine .pure ?_
  rw [hname, ht, List.append_nil]
  rfl

theorem params_yields (h : type.Yields fun t leaves => leaves = t.leaves) (n : Nat) :
    (params type n).Yields fun ps leaves => leaves = paramLeaves ps := by
  refine (Yields.series (param_yields h) rfl _ n).bind fun (ps, _) leaves hleaves => ?_
  exact .pure (by rw [hleaves, List.append_nil, paramLeaves_eq_flatMap])

theorem leaves_ofWord {t : Token} (h : t.kind = .identifier) : (ofWord t).leaves = t.leaves := by
  rw [Token.leaves, Token.content?, h, ofWord]
  split
  · rename_i htext
    rw [leaves, htext]
  · rename_i htext
    rw [leaves, htext]
  · rw [leaves]

theorem leaves_ofSeries (pos : Position) (items : List TypeExpr × Bool) :
    (ofSeries pos items).leaves = items.1.flatMap leaves := by
  rw [ofSeries.eq_def]
  split
  · simp
  · rw [leaves, leavesAll_eq_flatMap]

mutual

theorem parse_yields : (n : Nat) → (parse n).Yields fun t leaves => leaves = t.leaves
  | 0 => .outOfFuel
  | n + 1 => by
    rw [parse]
    refine (optionalGenerics_yields n).bind fun generics _ hgenerics => ?_
    refine (atom_yields n).bind fun ret _ hret => ?_
    subst hgenerics hret
    refine (Yields.accept rfl).bind_nil fun called => ?_
    split
    · refine (params_yields (parse_yields n) n).bind fun ps _ hps => ?_
      refine .pure ?_
      rw [hps, leaves, List.append_nil, List.append_assoc]
    · split
      · exact .pure (by simp)
      · exact .fail _ _

theorem atom_yields : (n : Nat) → (atom n).Yields fun t leaves => leaves = t.leaves
  | 0 => .outOfFuel
  | n + 1 => by
    rw [atom]
    refine (Yields.next _).bind fun t leaves ht => ?_
    split
    · rename_i hkind
      exact .pure (by rw [ht, List.append_nil, leaves_ofWord hkind])
    · rename_i hkind
      split
      · rename_i htext
        have hnil : leaves = [] := by rw [ht, Token.leaves, Token.content?, hkind, htext]; rfl
        refine (parse_yields n).bind fun element leaves' helement => ?_
        refine (Yields.expect rfl).bind_nil fun _ => ?_
        exact .pure (by rw [hnil, helement, List.append_nil]; rfl)
      · rename_i htext
        have hnil : leaves = [] := by rw [ht, Token.leaves, Token.content?, hkind, htext]; rfl
        refine (Yields.series (parse_yields n) rfl _ n).bind fun items leaves' hitems => ?_
        exact .pure (by rw [hnil, hitems, List.append_nil, leaves_ofSeries]; rfl)
      · exact .unexpected _ _
    · exact .unexpected _ _

end

end TypeExpr

theorem BinaryOp.symbol_of_ofSymbol? {spelling : String} {op : BinaryOp}
    (h : ofSymbol? spelling = some op) : op.symbol = spelling := by
  unfold ofSymbol? at h
  split at h <;> cases h <;> rfl

def Suffix.leaves (pos : Position) : Suffix → List Leaf
  | generics | call => []
  | cons => [⟨.operator "~", some pos⟩]
  | binary op => [⟨.operator op.symbol, some pos⟩]

theorem Suffix.leaves_ofToken? {t : Token} {s : Suffix} (h : ofToken? t = some s) :
    t.leaves = s.leaves t.pos := by
  unfold ofToken? at h
  split at h
  · rename_i hkind
    rw [Token.leaves, Token.content?, hkind]
    split at h
    · rename_i htext
      cases h
      rw [htext]
      rfl
    · rename_i htext
      cases h
      rw [htext]
      rfl
    · rename_i htext
      cases h
      rw [htext]
      rfl
    · obtain ⟨op, hop, rfl⟩ := Option.map_eq_some_iff.1 h
      rw [Token.spellsOperator, hop, leaves, BinaryOp.symbol_of_ofSymbol? hop]
      rfl
  · cases h

theorem Spells.forget {before after : List Leaf} {content : Leaf.Content} {pos : Position}
    {ts : List Token} (h : Spells (before ++ ⟨content, some pos⟩ :: after) ts) :
    Spells (before ++ ⟨content, none⟩ :: after) ts := by
  unfold Spells at h ⊢
  generalize ts.filter Token.isLeaf = us at h
  induction before generalizing us with
  | nil =>
    obtain ⟨t, us, hleaf, hafter, rfl⟩ := List.forall₂_cons_left_iff.1 h
    exact .cons ⟨hleaf.1, nofun⟩ hafter
  | cons leaf before ih =>
    obtain ⟨t, us, hleaf, hafter, rfl⟩ := List.forall₂_cons_left_iff.1 h
    exact .cons hleaf (ih us hafter)

namespace Expr

variable {expr : Parse Expr} {type : Parse TypeExpr}

theorem bindingName_yields (e : Expr) :
    (bindingName e).Yields fun name leaves => leaves = [] ∧ e.leaves = [name.leaf] := by
  rw [bindingName.eq_def]
  split
  · exact .pure ⟨rfl, rfl⟩
  · exact .fail _ _

theorem bindingNames_yields (es : List Expr) :
    (bindingNames es).Yields fun names leaves =>
      leaves = [] ∧ leavesAll es = names.map Name.leaf := by
  induction es with
  | nil => exact .pure ⟨rfl, rfl⟩
  | cons e es ih =>
    refine (bindingName_yields e).bind fun name leaves ⟨hnil, hname⟩ => ?_
    refine ih.bind fun names leaves' ⟨hnil', hnames⟩ => ?_
    refine .pure ⟨by rw [hnil, hnil']; rfl, ?_⟩
    rw [leavesAll, hname, hnames]
    rfl

theorem leaves_ofSeries (pos : Position) (items : List Expr × Bool) :
    (ofSeries pos items).leaves = items.1.flatMap leaves := by
  rw [ofSeries.eq_def]
  split
  · simp
  · rw [leaves, leavesAll_eq_flatMap]

variable (h : expr.Yields fun e leaves => leaves = e.leaves)
include h

theorem branches_yields :
    (branches expr).Yields fun r leaves => leaves = r.1.leaves ++ r.2.leaves := by
  refine (Yields.expectKeyword _).bind_nil fun _ => ?_
  refine h.bind fun yes _ hyes => ?_
  refine (Yields.expectKeyword _).bind_nil fun _ => ?_
  refine h.bind fun no _ hno => ?_
  exact .pure (by rw [hyes, hno, List.append_nil])

theorem conditional_yields (pos : Position) :
    (conditional expr pos).Yields fun e leaves => leaves = e.leaves := by
  refine .of_spells ?_
  refine h.bind fun test _ htest => ?_
  subst htest
  refine (Yields.accept rfl).bind_nil fun arrow => ?_
  split
  · split
    · refine (bindingName_yields _).bind fun head _ ⟨hnil, hhead⟩ => ?_
      subst hnil
      refine (bindingName_yields _).bind fun tail _ ⟨hnil, htail⟩ => ?_
      subst hnil
      refine h.bind fun whole _ hwhole => ?_
      refine (branches_yields h).bind fun (yes, no) _ hbranches => ?_
      refine .pure fun ts hspells => ?_
      subst hwhole hbranches
      rw [leaves, hhead, htail, List.append_assoc] at hspells
      have hforget : Spells ([head.leaf] ++ ⟨.operator "~", none⟩ :: _) ts := hspells.forget
      simpa [leaves] using hforget
    · exact .fail _ _
  · refine (branches_yields h).bind fun (yes, no) _ hbranches => ?_
    refine .pure fun ts hspells => ?_
    subst hbranches
    simpa [leaves] using hspells

theorem bound_yields :
    (bound expr).Yields fun r leaves => leaves = r.1.leaves ++ r.2.leaves := by
  refine (Yields.expect rfl).bind_nil fun _ => ?_
  refine h.bind fun value _ hvalue => ?_
  refine (Yields.expectKeyword _).bind_nil fun _ => ?_
  refine h.bind fun body _ hbody => ?_
  exact .pure (by rw [hvalue, hbody, List.append_nil])

theorem binding_yields (pos : Position) :
    (binding expr pos).Yields fun e leaves => leaves = e.leaves := by
  refine h.bind fun pattern _ hpattern => ?_
  subst hpattern
  split
  · refine (bound_yields h).bind fun (value, body) _ hbound => ?_
    exact .pure (by rw [hbound, List.append_nil]; rfl)
  · rename_i es
    refine (bindingNames_yields es).bind fun names _ ⟨hnil, hnames⟩ => ?_
    refine (bound_yields h).bind fun (value, body) _ hbound => ?_
    refine .pure ?_
    rw [hnil, hbound, leaves, hnames, leaves, List.append_nil, List.nil_append, List.append_assoc]
  · exact .fail _ _

theorem callArgs_yields (n : Nat) (callee : Expr) (typeArgs : Option (List TypeExpr)) :
    (callArgs expr n callee typeArgs).Yields fun e leaves =>
      callee.leaves ++ typeArgLeaves typeArgs ++ leaves = e.leaves := by
  refine (Yields.series h rfl _ n).bind fun (args, _) _ hargs => ?_
  exact .pure (by rw [hargs, leaves, leavesAll_eq_flatMap, List.append_nil])

variable (htype : type.Yields fun t leaves => leaves = t.leaves)
include htype

theorem listLiteral_yields (n : Nat) (pos : Position) :
    (listLiteral expr type n pos).Yields fun e leaves => leaves = e.leaves := by
  refine (Yields.series h rfl _ n).bind fun (items, _) _ hitems => ?_
  subst hitems
  refine (Yields.acceptKeyword _).bind_nil fun annotated => ?_
  split
  · exact .pure (by rw [leaves, leavesAll_eq_flatMap, List.append_nil])
  · split
    · refine htype.bind fun element _ helement => ?_
      exact .pure (by rw [helement, List.append_nil]; rfl)
    · exact .fail _ _

theorem genericCall_yields (n : Nat) (callee : Expr) :
    (genericCall expr type n callee).Yields fun e leaves => callee.leaves ++ leaves = e.leaves := by
  refine (Yields.series htype rfl _ n).bind fun (types, _) _ htypes => ?_
  refine (Yields.accept rfl).bind_nil fun called => ?_
  split
  · refine (callArgs_yields h n callee (some types)).imp fun e leaves he => ?_
    rw [← he, htypes, typeArgLeaves, TypeExpr.leavesAll_eq_flatMap, List.append_assoc]
  · exact Yields.here.bind_nil fun pos => .fail _ _

omit h in
theorem extend_yields {exprAt : Nat → Parse Expr}
    (h : ∀ floor, (exprAt floor).Yields fun e leaves => leaves = e.leaves) (n : Nat) (node : Expr)
    (pos : Position) (s : Suffix) :
    (extend exprAt type n node pos s).Yields fun e leaves =>
      node.leaves ++ (s.leaves pos ++ leaves) = e.leaves := by
  cases s with
  | generics => exact genericCall_yields (h _) htype n node
  | call =>
    refine (callArgs_yields (h _) n node none).imp fun e leaves he => ?_
    rw [← he, typeArgLeaves, List.append_nil]
    rfl
  | cons =>
    refine (h _).bind fun tail _ htail => ?_
    exact .pure (by rw [htail, List.append_nil]; rfl)
  | binary op =>
    refine (h _).bind fun right _ hright => ?_
    exact .pure (by rw [hright, List.append_nil]; rfl)

omit h htype

theorem leaves_of_unary {t : Token} {kind : Token.SymbolClass} {op : UnaryOp}
    (hkind : t.kind = .symbol kind) (htext : t.text = op.symbol) :
    t.leaves = [⟨.operator op.symbol, some t.pos⟩] := by
  rw [Token.leaves, Token.content?, hkind, htext]
  cases op <;> rfl

mutual

theorem parse_yields : (n floor : Nat) → (parse n floor).Yields fun e leaves => leaves = e.leaves
  | 0, _ => .outOfFuel
  | n + 1, floor => by
    rw [parse]
    refine (operand_yields n).bind fun node _ hnode => ?_
    refine (suffixes_yields n floor node).imp fun e leaves he => ?_
    rw [hnode, he]

theorem operand_yields : (n : Nat) → (operand n).Yields fun e leaves => leaves = e.leaves
  | 0 => .outOfFuel
  | n + 1 => by
    have hexpr := parse_yields n
    rw [operand]
    refine (Yields.next _).bind fun t _ ht => ?_
    subst ht
    have hskip {p : Parse Expr} (hnil : t.leaves = [])
        (hp : p.Yields fun e leaves => leaves = e.leaves) :
        p.Yields fun e leaves => t.leaves ++ leaves = e.leaves := by
      rw [hnil]
      exact hp
    split
    · rename_i hkind
      exact .pure (by rw [Token.leaves, Token.content?, hkind]; rfl)
    · rename_i hkind
      exact .pure (by rw [Token.leaves, Token.content?, hkind]; rfl)
    · rename_i hkind
      exact .pure (by rw [Token.leaves, Token.content?, hkind]; rfl)
    · rename_i hkind
      exact .pure (by rw [Token.leaves, Token.content?, hkind]; rfl)
    · rename_i hkind
      have hnil : t.leaves = [] := by rw [Token.leaves, Token.content?, hkind]
      exact hskip hnil (conditional_yields (hexpr _) _)
    · rename_i hkind
      have hnil : t.leaves = [] := by rw [Token.leaves, Token.content?, hkind]
      exact hskip hnil (binding_yields (hexpr _) _)
    · exact .unexpected _ _
    · rename_i hkind
      split
      · rename_i htext
        have hleaf : t.leaves = [⟨.operator UnaryOp.neg.symbol, some t.pos⟩] :=
          leaves_of_unary hkind htext
        refine (hexpr _).bind fun e _ he => ?_
        exact .pure (by rw [he, hleaf, List.append_nil]; rfl)
      · rename_i htext
        have hleaf : t.leaves = [⟨.operator UnaryOp.not.symbol, some t.pos⟩] :=
          leaves_of_unary hkind htext
        refine (hexpr _).bind fun e _ he => ?_
        exact .pure (by rw [he, hleaf, List.append_nil]; rfl)
      · rename_i htext
        have hnil : t.leaves = [] := by rw [Token.leaves, Token.content?, hkind, htext]; rfl
        refine (Yields.series (hexpr _) rfl _ n).bind fun items _ hitems => ?_
        exact .pure (by rw [hnil, hitems, leaves_ofSeries, List.append_nil]; rfl)
      · rename_i htext
        have hnil : t.leaves = [] := by rw [Token.leaves, Token.content?, hkind, htext]; rfl
        exact hskip hnil (listLiteral_yields (hexpr _) (TypeExpr.parse_yields n) n _)
      · exact .unexpected _ _

theorem suffixes_yields : (n floor : Nat) → (node : Expr) →
    (suffixes n floor node).Yields fun e leaves => node.leaves ++ leaves = e.leaves
  | 0, _, _ => .outOfFuel
  | n + 1, floor, node => by
    have hstop : (Pure.pure node : Parse Expr).Yields fun e leaves =>
        node.leaves ++ leaves = e.leaves := .pure (List.append_nil _)
    rw [suffixes]
    refine .peek hstop fun t => ?_
    dsimp only
    split
    · exact hstop.known
    split
    · exact hstop.known
    · rename_i s hs _
      refine .next ?_
      refine (extend_yields (TypeExpr.parse_yields n) (parse_yields n) n node t.pos s).bind
        fun longer _ hlonger => ?_
      refine (suffixes_yields n floor longer).imp fun e leaves he => ?_
      rw [← he, ← hlonger, Suffix.leaves_ofToken? hs]
      simp only [List.append_assoc]

end

end Expr

namespace Decl

theorem parseSignature_yields (n : Nat) (label : Token) :
    (parseSignature n label).Yields fun signature leaves =>
      leaves = signature.leaves ∨ leaves = signature.declaredLeaves := by
  refine (TypeExpr.optionalGenerics_yields n).bind fun generics _ hgenerics => ?_
  subst hgenerics
  refine (Yields.accept rfl).bind_nil fun hasParams => ?_
  split
  · refine (TypeExpr.params_yields (TypeExpr.parse_yields n) n).bind fun ps _ hps => ?_
    refine (Yields.accept rfl).bind_nil fun typed => ?_
    split
    · refine (TypeExpr.parse_yields n).bind fun ret _ hret => ?_
      refine .pure (.inr ?_)
      rw [hps, hret, TypeExpr.declaredLeaves, List.append_nil, List.append_assoc]
    · exact Yields.here.bind_nil fun pos => .fail _ _
  · refine (Yields.accept rfl).bind_nil fun typed => ?_
    split
    · split
      · exact (TypeExpr.parse_yields n).imp fun t leaves ht => .inl ht
      · exact .fail _ _
    · exact Yields.here.bind_nil fun pos => .fail _ _

theorem parse_yields (n : Nat) : (parse n).Yields HasLeaves := by
  refine (Yields.identifier _).bind fun label _ hlabel => ?_
  refine (parseSignature_yields n label).bind fun signature written hsignature => ?_
  refine (Yields.expect rfl).bind_nil fun _ => ?_
  refine (Expr.parse_yields n _).bind fun body _ hbody => ?_
  refine .pure ⟨written, hsignature, ?_⟩
  rw [hlabel, hbody, List.append_nil]
  rfl

theorem parseAll_yields (fuel n : Nat) :
    (parseAll fuel n).Yields fun ds leaves =>
      ∃ parts, List.Forall₂ HasLeaves ds parts ∧ leaves = parts.flatten := by
  induction n with
  | zero => exact .outOfFuel
  | succ n ih =>
    rw [parseAll]
    refine .peek (.pure ⟨[], .nil, rfl⟩) fun t => ?_
    refine Yields.known ?_
    refine (parse_yields fuel).bind fun d part hd => ?_
    refine ih.bind fun ds _ hrest => ?_
    obtain ⟨parts, hds, hparts⟩ := hrest
    refine .pure ⟨part :: parts, .cons hd hds, ?_⟩
    rw [hparts, List.append_nil, List.flatten_cons]

theorem parseAll_rest {fuel n : Nat} {last : Position} {ts rest : List Token} {ds : List Decl}
    (h : (parseAll fuel n).run last ts = .ok ds rest) : rest = [] := by
  induction n generalizing ts ds with
  | zero => cases h
  | succ n ih =>
    rw [parseAll] at h
    obtain ⟨t?, left, hpeek, h⟩ := run_bind_eq_ok.1 h
    cases hpeek
    cases ts with
    | nil =>
      cases h
      rfl
    | cons t ts =>
      simp only [List.head?_cons, run_bind_eq_ok] at h
      obtain ⟨_, _, _, ds', left, hrest, h⟩ := h
      cases h
      exact ih hrest

/-- The leaves of the declarations, in order, are the tokens that make leaves, in order. -/
theorem ofTokens_yields {ts : List Token} {ds : List Decl} (h : ofTokens ts = .ok ds) :
    ∃ parts, List.Forall₂ HasLeaves ds parts ∧
      List.Forall₂ Leaf.ComesFrom parts.flatten (ts.filter Token.isLeaf) := by
  obtain ⟨rest, hread⟩ := ofTokens_eq_ok h
  obtain ⟨taken, leaves, hts, hspells, parts, hds, rfl⟩ := parseAll_yields _ _ _ _ _ _ hread
  obtain rfl := parseAll_rest hread
  rw [List.append_nil] at hts
  subst hts
  exact ⟨parts, hds, hspells⟩

/-- `f{A}(g: A(x: A)): Int = if (h ~ t) <- [1] then -h ** 2 else 0` has 16 leaves. -/
theorem ofTokens_yields_unpack :
    ∃ ts ds, Token.ofSource ("f\x7bA\x7d(g: A(x: A)): Int =" ++
        " if (h ~ t) <- [1] then -h ** 2 else 0") = .ok ts ∧ ofTokens ts = .ok ds ∧
      (ts.filter Token.isLeaf).length = 16 ∧
      ∃ parts, List.Forall₂ HasLeaves ds parts ∧
        List.Forall₂ Leaf.ComesFrom parts.flatten (ts.filter Token.isLeaf) := by
  have hparse :
      (match Token.ofSource ("f\x7bA\x7d(g: A(x: A)): Int =" ++
          " if (h ~ t) <- [1] then -h ** 2 else 0") with
        | .ok ts =>
          match ofTokens ts with
          | .ok _ => decide ((ts.filter Token.isLeaf).length = 16)
          | .error _ => false
        | .error _ => false) = true := by
    decide +kernel
  split at hparse
  · rename_i ts hts
    split at hparse
    · rename_i ds hds
      exact ⟨ts, ds, hts, hds, of_decide_eq_true hparse, ofTokens_yields hds⟩
    · cases hparse
  · cases hparse

end Decl

end ExprLang
