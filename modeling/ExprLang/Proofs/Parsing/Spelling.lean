import ExprLang.Decl.Source
import ExprLang.Proofs.Places.Lines

namespace ExprLang

open Lexeme

/-- A word that is neither a keyword nor a truth value. -/
structure IsName (name : String) : Prop where
  kind : wordKind name = .identifier
  spelling : ∃ c cs, name.toList = c :: cs ∧ isWordStart c = true ∧ ∀ d ∈ cs, isWordPart d = true

namespace TypeExpr

mutual

/-- Every name of a type can be spelled, and no reference to a generic spells a basic type. -/
def WellSpelled : TypeExpr → Prop
  | int _ | bool _ => True
  | list _ element => element.WellSpelled
  | tuple _ items => AllWellSpelled items
  | generic _ name => IsName name ∧ name ≠ "Int" ∧ name ≠ "Bool"
  | fn _ generics params ret =>
    (∀ g ∈ generics, IsName g.text) ∧ ParamsWellSpelled params ∧ ret.WellSpelled

def AllWellSpelled : List TypeExpr → Prop
  | [] => True
  | t :: ts => t.WellSpelled ∧ AllWellSpelled ts

def ParamsWellSpelled : List (Name × TypeExpr) → Prop
  | [] => True
  | (name, t) :: params => (IsName name.text ∧ t.WellSpelled) ∧ ParamsWellSpelled params

end

theorem allWellSpelled_iff {ts : List TypeExpr} :
    AllWellSpelled ts ↔ ∀ t ∈ ts, t.WellSpelled := by
  induction ts with
  | nil => simp [AllWellSpelled]
  | cons t ts ih => rw [AllWellSpelled, ih, List.forall_mem_cons]

theorem paramsWellSpelled_iff {params : List (Name × TypeExpr)} :
    ParamsWellSpelled params ↔ ∀ param ∈ params, IsName param.1.text ∧ param.2.WellSpelled := by
  induction params with
  | nil => simp [ParamsWellSpelled]
  | cons param params ih => rw [ParamsWellSpelled, ih, List.forall_mem_cons]

end TypeExpr

namespace Expr

mutual

/-- Every name of an expression can be spelled, and so can every literal: an integer that is not
negative, and the code points of a text. -/
def WellSpelled : Expr → Prop
  | int _ n => 0 ≤ n.toInt
  | bool _ _ => True
  | str _ codes => ∃ cs : List Char, codes = cs.map Text.code
  | ident _ name => IsName name
  | list _ items | tuple _ items => AllWellSpelled items
  | emptyOf _ element => element.WellSpelled
  | call _ callee generics args =>
    callee.WellSpelled ∧ (∀ ts, generics = some ts → TypeExpr.AllWellSpelled ts) ∧
      AllWellSpelled args
  | cond _ test yes no => test.WellSpelled ∧ yes.WellSpelled ∧ no.WellSpelled
  | unpack _ head tail whole yes no =>
    IsName head.text ∧ IsName tail.text ∧ whole.WellSpelled ∧ yes.WellSpelled ∧ no.WellSpelled
  | letName _ name value body => IsName name.text ∧ value.WellSpelled ∧ body.WellSpelled
  | letTuple _ names value body =>
    (∀ name ∈ names, IsName name.text) ∧ value.WellSpelled ∧ body.WellSpelled
  | cons _ head tail => head.WellSpelled ∧ tail.WellSpelled
  | binary _ _ left right => left.WellSpelled ∧ right.WellSpelled
  | unary _ _ operand => operand.WellSpelled

def AllWellSpelled : List Expr → Prop
  | [] => True
  | e :: es => e.WellSpelled ∧ AllWellSpelled es

end

theorem allWellSpelled_iff {es : List Expr} : AllWellSpelled es ↔ ∀ e ∈ es, e.WellSpelled := by
  induction es with
  | nil => simp [AllWellSpelled]
  | cons e es ih => rw [AllWellSpelled, ih, List.forall_mem_cons]

end Expr

structure Decl.WellSpelled (d : Decl) : Prop where
  signature : d.signature.WellSpelled
  body : d.body.WellSpelled

def Token.WellSpelled (t : Token) : Prop :=
  match t.kind with
  | .identifier => IsName t.text
  | .int n => 0 ≤ n.toInt
  | .str codes => ∃ cs : List Char, codes = cs.map Text.code
  | _ => True

def Parse.Makes {α : Type} (p : Parse α) (Q : α → Prop) : Prop :=
  ∀ last ts a rest, (∀ t ∈ ts, t.WellSpelled) → p.run last ts = .ok a rest →
    Q a ∧ ∀ t ∈ rest, t.WellSpelled

namespace Parse.Makes

variable {α β : Type} {p : Parse α} {Q : α → Prop} {R : β → Prop}

theorem pure {a : α} (h : Q a) : (Pure.pure a : Parse α).Makes Q := by
  rintro last ts _ _ hts ⟨⟩
  exact ⟨h, hts⟩

theorem fail (fault : SyntaxFault) (pos : Position) : (Parse.fail fault pos : Parse α).Makes Q :=
  nofun

theorem unexpected (expected : String) (t : Token) :
    (Parse.unexpected expected t : Parse α).Makes Q :=
  nofun

theorem outOfFuel : (Parse.outOfFuel : Parse α).Makes Q := nofun

theorem bind {k : α → Parse β} (hp : p.Makes Q) (hk : ∀ a, Q a → (k a).Makes R) :
    (p >>= k).Makes R := by
  intro last ts b rest hts hrun
  obtain ⟨a, left, hrun, hrun'⟩ := run_bind_eq_ok.1 hrun
  obtain ⟨ha, hleft⟩ := hp last ts a left hts hrun
  exact hk a ha last left b rest hleft hrun'

theorem here : Parse.here.Makes fun _ => True := by
  rintro last ts _ _ hts ⟨⟩
  exact ⟨trivial, hts⟩

theorem peek : Parse.peek.Makes fun _ => True := by
  rintro last ts _ _ hts ⟨⟩
  exact ⟨trivial, hts⟩

theorem next (expected : String) : (Parse.next expected).Makes Token.WellSpelled := by
  intro last ts t rest hts hrun
  cases ts with
  | nil => cases hrun
  | cons head ts =>
    cases hrun
    exact List.forall_mem_cons.1 hts

theorem accept (symbol : String) : (Parse.accept symbol).Makes fun _ => True := by
  intro last ts b rest hts hrun
  cases ts with
  | nil =>
    cases hrun
    exact ⟨trivial, hts⟩
  | cons t ts =>
    rw [Parse.run, Parse.accept] at hrun
    split at hrun
    · cases hrun
      exact ⟨trivial, (List.forall_mem_cons.1 hts).2⟩
    · cases hrun
      exact ⟨trivial, hts⟩

theorem acceptKeyword (word : Keyword) : (Parse.acceptKeyword word).Makes fun _ => True := by
  intro last ts b rest hts hrun
  cases ts with
  | nil =>
    cases hrun
    exact ⟨trivial, hts⟩
  | cons t ts =>
    rw [Parse.run, Parse.acceptKeyword] at hrun
    split at hrun
    · cases hrun
      exact ⟨trivial, (List.forall_mem_cons.1 hts).2⟩
    · cases hrun
      exact ⟨trivial, hts⟩

theorem expect (symbol : String) : (Parse.expect symbol).Makes fun _ => True := by
  apply (next _).bind
  intro t _
  split
  · exact pure trivial
  split
  · exact fail _ _
  · exact unexpected _ _

theorem expectKeyword (word : Keyword) : (Parse.expectKeyword word).Makes fun _ => True := by
  apply (next _).bind
  intro t _
  split
  · exact pure trivial
  · exact unexpected _ _

theorem identifier (expected : String) :
    (Parse.identifier expected).Makes fun t => IsName t.text := by
  apply (next _).bind
  intro t ht
  split
  · rename_i hkind
    rw [Token.WellSpelled, hkind] at ht
    exact pure ht
  · exact unexpected _ _

theorem series (h : p.Makes Q) (close : String) (trailing : Bool) (n : Nat) :
    (Parse.series close p trailing n).Makes fun r => ∀ a ∈ r.1, Q a := by
  induction n generalizing trailing with
  | zero => exact outOfFuel
  | succ n ih =>
    rw [Parse.series]
    apply (accept close).bind
    intro closed _
    split
    · exact pure (List.forall_mem_nil _)
    · apply h.bind
      intro a ha
      apply (accept ",").bind
      intro more _
      split
      · apply (ih true).bind
        intro r hr
        exact pure (List.forall_mem_cons.2 ⟨ha, hr⟩)
      · apply (expect close).bind
        intro _ _
        exact pure (List.forall_mem_singleton.2 ha)

end Parse.Makes

open Parse

namespace TypeExpr

variable {type : Parse TypeExpr}

theorem genericNames_makes (n : Nat) :
    (genericNames n).Makes fun names => ∀ g ∈ names, IsName g.text := by
  apply (Makes.series (.identifier _) _ _ n).bind
  intro (ts, _) hts
  exact .pure (List.forall_mem_map.2 hts)

theorem optionalGenerics_makes (n : Nat) :
    (optionalGenerics n).Makes fun names => ∀ g ∈ names, IsName g.text := by
  apply (Makes.accept _).bind
  intro opened _
  split
  · exact genericNames_makes n
  · exact .pure (List.forall_mem_nil _)

theorem param_makes (h : type.Makes WellSpelled) :
    (param type).Makes fun p => IsName p.1.text ∧ p.2.WellSpelled := by
  apply (Makes.identifier _).bind
  intro name hname
  apply (Makes.expect _).bind
  intro _ _
  apply h.bind
  intro t ht
  exact .pure ⟨hname, ht⟩

theorem params_makes (h : type.Makes WellSpelled) (n : Nat) :
    (params type n).Makes ParamsWellSpelled := by
  apply (Makes.series (param_makes h) _ _ n).bind
  intro (ps, _) hps
  exact .pure (paramsWellSpelled_iff.2 hps)

theorem wellSpelled_ofWord {t : Token} (h : IsName t.text) : (ofWord t).WellSpelled := by
  unfold ofWord
  split
  · trivial
  · trivial
  · exact ⟨h, ‹_›, ‹_›⟩

theorem wellSpelled_ofSeries {items : List TypeExpr × Bool} (h : ∀ t ∈ items.1, t.WellSpelled)
    (pos : Position) : (ofSeries pos items).WellSpelled := by
  unfold ofSeries
  split
  · exact h _ List.mem_cons_self
  · exact allWellSpelled_iff.2 h

mutual

theorem parse_makes : (n : Nat) → (parse n).Makes WellSpelled
  | 0 => .outOfFuel
  | n + 1 => by
    rw [parse]
    apply (optionalGenerics_makes n).bind
    intro generics hgenerics
    apply (atom_makes n).bind
    intro ret hret
    apply (Makes.accept _).bind
    intro called _
    split
    · apply (params_makes (parse_makes n) n).bind
      intro ps hps
      exact .pure ⟨hgenerics, hps, hret⟩
    · split
      · exact .pure hret
      · exact .fail _ _

theorem atom_makes : (n : Nat) → (atom n).Makes WellSpelled
  | 0 => .outOfFuel
  | n + 1 => by
    rw [atom]
    apply (Makes.next _).bind
    intro t ht
    split
    · rename_i hkind
      rw [Token.WellSpelled, hkind] at ht
      exact .pure (wellSpelled_ofWord ht)
    · split
      · apply (parse_makes n).bind
        intro element helement
        apply (Makes.expect _).bind
        intro _ _
        exact .pure helement
      · apply (Makes.series (parse_makes n) _ _ n).bind
        intro items hitems
        exact .pure (wellSpelled_ofSeries hitems _)
      · exact .unexpected _ _
    · exact .unexpected _ _

end

end TypeExpr

namespace Expr

variable {expr : Parse Expr} {type : Parse TypeExpr}

theorem bindingName_makes {e : Expr} (h : e.WellSpelled) :
    (bindingName e).Makes fun name => IsName name.text := by
  rw [bindingName.eq_def]
  split
  · exact .pure h
  · exact .fail _ _

theorem bindingNames_makes {es : List Expr} (h : AllWellSpelled es) :
    (bindingNames es).Makes fun names => ∀ name ∈ names, IsName name.text := by
  induction es with
  | nil => exact .pure (List.forall_mem_nil _)
  | cons e es ih =>
    apply (bindingName_makes h.1).bind
    intro name hname
    apply (ih h.2).bind
    intro names hnames
    exact .pure (List.forall_mem_cons.2 ⟨hname, hnames⟩)

theorem wellSpelled_ofSeries {items : List Expr × Bool} (h : ∀ e ∈ items.1, e.WellSpelled)
    (pos : Position) : (ofSeries pos items).WellSpelled := by
  unfold ofSeries
  split
  · exact h _ List.mem_cons_self
  · exact allWellSpelled_iff.2 h

variable (h : expr.Makes WellSpelled)
include h

theorem branches_makes : (branches expr).Makes fun r => r.1.WellSpelled ∧ r.2.WellSpelled := by
  apply (Makes.expectKeyword _).bind
  intro _ _
  apply h.bind
  intro yes hyes
  apply (Makes.expectKeyword _).bind
  intro _ _
  apply h.bind
  intro no hno
  exact .pure ⟨hyes, hno⟩

theorem conditional_makes (pos : Position) : (conditional expr pos).Makes WellSpelled := by
  apply h.bind
  intro test htest
  apply (Makes.accept _).bind
  intro arrow _
  split
  · split
    · apply (bindingName_makes htest.1).bind
      intro head hhead
      apply (bindingName_makes htest.2).bind
      intro tail htail
      apply h.bind
      intro whole hwhole
      apply (branches_makes h).bind
      intro (yes, no) hbranches
      exact .pure ⟨hhead, htail, hwhole, hbranches⟩
    · exact .fail _ _
  · apply (branches_makes h).bind
    intro (yes, no) hbranches
    exact .pure ⟨htest, hbranches⟩

theorem bound_makes : (bound expr).Makes fun r => r.1.WellSpelled ∧ r.2.WellSpelled := by
  apply (Makes.expect _).bind
  intro _ _
  apply h.bind
  intro value hvalue
  apply (Makes.expectKeyword _).bind
  intro _ _
  apply h.bind
  intro body hbody
  exact .pure ⟨hvalue, hbody⟩

theorem binding_makes (pos : Position) : (binding expr pos).Makes WellSpelled := by
  apply h.bind
  intro pattern hpattern
  split
  · apply (bound_makes h).bind
    intro (value, body) hbound
    exact .pure ⟨hpattern, hbound⟩
  · apply (bindingNames_makes hpattern).bind
    intro names hnames
    apply (bound_makes h).bind
    intro (value, body) hbound
    exact .pure ⟨hnames, hbound⟩
  · exact .fail _ _

theorem callArgs_makes (n : Nat) {callee : Expr} (hcallee : callee.WellSpelled)
    {generics : Option (List TypeExpr)}
    (hgenerics : ∀ ts, generics = some ts → TypeExpr.AllWellSpelled ts) :
    (callArgs expr n callee generics).Makes WellSpelled := by
  apply (Makes.series h _ _ n).bind
  intro (args, _) hargs
  exact .pure ⟨hcallee, hgenerics, allWellSpelled_iff.2 hargs⟩

variable (htype : type.Makes TypeExpr.WellSpelled)
include htype

theorem listLiteral_makes (n : Nat) (pos : Position) :
    (listLiteral expr type n pos).Makes WellSpelled := by
  apply (Makes.series h _ _ n).bind
  intro (items, _) hitems
  apply (Makes.acceptKeyword _).bind
  intro annotated _
  split
  · exact .pure (allWellSpelled_iff.2 hitems)
  · split
    · apply htype.bind
      intro element helement
      exact .pure helement
    · exact .fail _ _

theorem genericCall_makes (n : Nat) {callee : Expr} (hcallee : callee.WellSpelled) :
    (genericCall expr type n callee).Makes WellSpelled := by
  apply (Makes.series htype _ _ n).bind
  intro (types, _) htypes
  apply (Makes.accept _).bind
  intro called _
  split
  · apply callArgs_makes h n hcallee
    rintro _ ⟨⟩
    exact TypeExpr.allWellSpelled_iff.2 htypes
  · apply Makes.here.bind
    exact fun _ _ => .fail _ _

omit h in
theorem extend_makes {exprAt : Nat → Parse Expr} (h : ∀ floor, (exprAt floor).Makes WellSpelled)
    (n : Nat) {node : Expr} (hnode : node.WellSpelled) (pos : Position) (s : Suffix) :
    (extend exprAt type n node pos s).Makes WellSpelled := by
  cases s with
  | generics => exact genericCall_makes (h _) htype n hnode
  | call => exact callArgs_makes (h _) n hnode nofun
  | cons =>
    apply (h _).bind
    intro tail htail
    exact .pure ⟨hnode, htail⟩
  | binary op =>
    apply (h _).bind
    intro right hright
    exact .pure ⟨hnode, hright⟩

omit h htype

mutual

theorem parse_makes : (n floor : Nat) → (parse n floor).Makes WellSpelled
  | 0, _ => .outOfFuel
  | n + 1, floor => by
    rw [parse]
    apply (operand_makes n).bind
    intro node hnode
    exact suffixes_makes n floor hnode

theorem operand_makes : (n : Nat) → (operand n).Makes WellSpelled
  | 0 => .outOfFuel
  | n + 1 => by
    have hexpr := parse_makes n
    rw [operand]
    apply (Makes.next _).bind
    intro t ht
    rw [Token.WellSpelled] at ht
    split
    · rename_i hkind
      rw [hkind] at ht
      exact .pure ht
    · exact .pure trivial
    · rename_i hkind
      rw [hkind] at ht
      exact .pure ht
    · rename_i hkind
      rw [hkind] at ht
      exact .pure ht
    · exact conditional_makes (hexpr _) _
    · exact binding_makes (hexpr _) _
    · exact .unexpected _ _
    · split
      · apply (hexpr _).bind
        intro e he
        exact .pure he
      · apply (hexpr _).bind
        intro e he
        exact .pure he
      · apply (Makes.series (hexpr _) _ _ n).bind
        intro items hitems
        exact .pure (wellSpelled_ofSeries hitems _)
      · exact listLiteral_makes (hexpr _) (TypeExpr.parse_makes n) n _
      · exact .unexpected _ _

theorem suffixes_makes : (n floor : Nat) → {node : Expr} → node.WellSpelled →
    (suffixes n floor node).Makes WellSpelled
  | 0, _, _, _ => .outOfFuel
  | n + 1, floor, node, hnode => by
    rw [suffixes]
    apply Makes.peek.bind
    intro t? _
    split
    · exact .pure hnode
    split
    · exact .pure hnode
    split
    · exact .pure hnode
    · apply (Makes.next _).bind
      intro _ _
      apply (extend_makes (TypeExpr.parse_makes n) (parse_makes n) n hnode _ _).bind
      intro longer hlonger
      exact suffixes_makes n floor hlonger

end

end Expr

namespace Decl

theorem parseSignature_makes (n : Nat) (label : Token) :
    (parseSignature n label).Makes TypeExpr.WellSpelled := by
  have htype := TypeExpr.parse_makes n
  have hmissing : (do fail (.missingSignature label.text) (← here) : Parse TypeExpr).Makes
      TypeExpr.WellSpelled := Makes.here.bind fun _ _ => .fail _ _
  apply (TypeExpr.optionalGenerics_makes n).bind
  intro generics hgenerics
  apply (Makes.accept _).bind
  intro hasParams _
  split
  · apply (TypeExpr.params_makes htype n).bind
    intro ps hps
    apply (Makes.accept _).bind
    intro typed _
    split
    · apply htype.bind
      intro ret hret
      exact .pure ⟨hgenerics, hps, hret⟩
    · exact hmissing
  · apply (Makes.accept _).bind
    intro typed _
    split
    · split
      · exact htype
      · exact .fail _ _
    · exact hmissing

theorem parse_makes (n : Nat) : (parse n).Makes WellSpelled := by
  apply (Makes.identifier _).bind
  intro label _
  apply (parseSignature_makes n label).bind
  intro signature hsignature
  apply (Makes.expect _).bind
  intro _ _
  apply (Expr.parse_makes n _).bind
  intro body hbody
  exact .pure ⟨hsignature, hbody⟩

theorem parseAll_makes (fuel n : Nat) :
    (parseAll fuel n).Makes fun ds => ∀ d ∈ ds, d.WellSpelled := by
  induction n with
  | zero => exact .outOfFuel
  | succ n ih =>
    rw [parseAll]
    apply Makes.peek.bind
    intro t? _
    split
    · exact .pure (List.forall_mem_nil _)
    · apply (parse_makes fuel).bind
      intro d hd
      apply ih.bind
      intro ds hds
      exact .pure (List.forall_mem_cons.2 ⟨hd, hds⟩)

end Decl

namespace Lexeme

theorem leading_of_word {c : Char} {cs : List Char} (h : (leading c cs).1.kind = .word) :
    isWordStart c = true ∧ (leading c cs).1.text = c :: cs.takeWhile isWordPart := by
  unfold leading at h ⊢
  split at h
  · cases h
  split at h
  · cases h
  split at h
  · split at h <;> cases h
  split at h
  · rename_i hzero hdigit hquote hword
    rw [if_neg hzero, if_neg hdigit, if_neg hquote, if_pos hword]
    exact ⟨hword, rfl⟩
  split at h
  · cases h
  split at h
  · cases h
  split at h <;> cases h

theorem wordKind_cases (word : String) : wordKind word = .identifier ∨
    (∃ b, wordKind word = .bool b) ∨ ∃ k, wordKind word = .keyword k := by
  unfold wordKind
  split
  · exact .inr (.inl ⟨true, rfl⟩)
  · exact .inr (.inl ⟨false, rfl⟩)
  · split
    · exact .inr (.inr ⟨_, rfl⟩)
    · exact .inl rfl

theorem leading_wellSpelled {c : Char} {cs : List Char} {kind : Token.Kind}
    (h : (leading c cs).1.tokenKind = .ok kind) (pos : Position) :
    Token.WellSpelled ⟨kind, String.ofList (leading c cs).1.text, pos⟩ := by
  unfold tokenKind at h
  split at h
  · dsimp only at h
    split at h <;> cases h
    rename_i hlt
    have hint : (Int64.ofNat (number (leading c cs).1.text)).toInt = number (leading c cs).1.text :=
      Int64.toInt_ofNat_of_lt hlt
    change 0 ≤ (Int64.ofNat (number (leading c cs).1.text)).toInt
    rw [hint]
    exact Int.natCast_nonneg _
  · split at h <;> cases h
    exact ⟨_, rfl⟩
  · rename_i hclass
    obtain ⟨hc, htext⟩ := leading_of_word hclass
    cases h
    obtain hkind | ⟨b, hkind⟩ | ⟨k, hkind⟩ := wordKind_cases (String.ofList (leading c cs).1.text)
    · rw [hkind]
      refine ⟨hkind, c, cs.takeWhile isWordPart, ?_, hc, fun d hd => ?_⟩
      · rw [String.toList_ofList, htext]
      · exact List.all_eq_true.1 List.all_takeWhile d hd
    · rw [hkind]
      trivial
    · rw [hkind]
      trivial
  · cases h
    trivial
  · cases h
    trivial
  · cases h
  · cases h

end Lexeme

theorem Token.scan_wellSpelled {pos : Position} {cs : List Char} {ts : List Token}
    (h : scan pos cs = .ok ts) : ∀ t ∈ ts, t.WellSpelled := by
  induction pos, cs using scan_induction generalizing ts with
  | nil pos =>
    rw [scan_nil] at h
    cases h
    exact List.forall_mem_nil _
  | blank pos c cs hc ih =>
    rw [scan_blank hc] at h
    exact ih h
  | lexeme pos c cs hc ih =>
    rw [scan_cons hc] at h
    split at h
    · cases h
    rename_i kind hkind
    split at h
    · cases h
    · rename_i rest hrest
      cases h
      exact List.forall_mem_cons.2 ⟨leading_wellSpelled hkind pos, ih hrest⟩

theorem Decl.ofSource_wellSpelled {source : String} {ds : List Decl}
    (h : ofSource source = .ok ds) : ∀ d ∈ ds, d.WellSpelled := by
  obtain ⟨ts, hscan, hparse⟩ := ofSource_eq_ok h
  obtain ⟨rest, hread⟩ := ofTokens_eq_ok hparse
  rw [Token.ofSource_eq_scan] at hscan
  exact (parseAll_makes _ _ _ ts ds rest (Token.scan_wellSpelled hscan) hread).1

end ExprLang
