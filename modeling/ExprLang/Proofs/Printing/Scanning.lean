import ExprLang.Proofs.Printing.Lexemes

namespace ExprLang

open Lexeme Token

namespace Scans

variable {f : Char → Bool} {a : String} {ts us : List Token}

theorem of_eq (h : Scans f a ts) (hts : ts = us) : Scans f a us := hts ▸ h

theorem of_text {b : String} (h : Scans f a ts) (hab : a = b) : Scans f b ts := hab ▸ h

theorem freeMark (c : Char) (ha : a.toList = [c]) (hc : c ∈ punctuationMarks)
    (hdoubles : doubles.all (fun p => p.1 != c) = true) : Scans anything a [.mark a] := by
  apply (mark c ha hc).weaken
  intro d _
  rw [endsOperator, Bool.not_eq_true', ← Bool.not_eq_true, List.contains_iff_mem]
  intro hd
  exact absurd rfl (bne_iff_ne.1 (List.all_eq_true.1 hdoubles (c, d) hd))

theorem opening : Scans anything "(" [.mark "("] := freeMark '(' rfl (by decide) rfl

theorem closing : Scans anything ")" [.mark ")"] := freeMark ')' rfl (by decide) rfl

theorem openingBracket : Scans anything "[" [.mark "["] := freeMark '[' rfl (by decide) rfl

theorem closingBracket : Scans anything "]" [.mark "]"] := freeMark ']' rfl (by decide) rfl

theorem openingBrace : Scans anything "\x7b" [.mark "\x7b"] := freeMark '\x7b' rfl (by decide) rfl

theorem closingBrace : Scans anything "\x7d" [.mark "\x7d"] := freeMark '\x7d' rfl (by decide) rfl

theorem comma : Scans anything "," [.mark ","] := freeMark ',' rfl (by decide) rfl

theorem colon : Scans anything ":" [.mark ":"] := freeMark ':' rfl (by decide) rfl

theorem thenBlank (h : Scans f a ts) (hf : f ' ' = true) : Scans anything (a ++ " ") ts :=
  (h.append blank ⟨' ', [], rfl, hf⟩).of_eq (List.append_nil ts)

theorem blankThen (h : Scans f a ts) : Scans f (" " ++ a) ts := blank.free_append h

theorem keywordText (k : Keyword) : Scans anything (" " ++ k.spelling ++ " ") [.keyword k] :=
  (keyword k).blankThen.thenBlank rfl

theorem close (h : Scans endsWord a ts) : Scans anything (a ++ ")") (ts ++ [.mark ")"]) :=
  h.append closing ⟨')', [], rfl, rfl⟩

theorem parenthesized {inner : List Token} (h : Scans endsWord a ts)
    (hts : ts = .mark "(" :: inner) : Scans endsWord (a ++ ")") (Token.parenthesized inner) := by
  rw [hts] at h
  exact h.close.free

variable {α : Type} {text : α → String} {tokens : α → List Token} {xs : List α}

theorem commaSeries (h : ∀ x ∈ xs, Scans endsWord (text x) (tokens x)) :
    Scans endsWord (Text.commaSeries (xs.map text)) (Token.commaSeries (xs.map tokens)) := by
  induction xs with
  | nil => exact empty
  | cons x xs ih =>
    obtain ⟨hx, hxs⟩ := List.forall_mem_cons.1 h
    cases xs with
    | nil => exact hx
    | cons y ys =>
      have hcomma : Scans anything ", " [.mark ","] := (comma.thenBlank rfl).of_text rfl
      have hseries := (hx.append hcomma ⟨',', [' '], rfl, rfl⟩).free_append (ih hxs)
      exact hseries.of_eq (List.append_assoc ..)

theorem tuple (h : ∀ x ∈ xs, Scans endsWord (text x) (tokens x)) :
    Scans anything (Text.tuple (xs.map text)) (Token.tuple (xs.map tokens)) := by
  have hplural := (opening.free_append (commaSeries h)).close
  cases xs with
  | nil => exact hplural
  | cons x xs =>
    cases xs with
    | cons y ys => exact hplural
    | nil =>
      obtain ⟨hx, -⟩ := List.forall_mem_cons.1 h
      have hend : Scans anything ",)" [.mark ",", .mark ")"] :=
        (comma.free_append closing).of_text rfl
      have htuple := (opening.free_append hx).append hend ⟨',', [')'], rfl, rfl⟩
      apply htuple.of_eq
      simp [Token.tuple, tupleItems]

theorem bracketed (h : ∀ x ∈ xs, Scans endsWord (text x) (tokens x)) :
    Scans anything (Text.bracketed (xs.map text)) (Token.bracketed (xs.map tokens)) :=
  (openingBracket.free_append (commaSeries h)).append closingBracket ⟨']', [], rfl, rfl⟩

theorem braced (h : ∀ x ∈ xs, Scans endsWord (text x) (tokens x)) :
    Scans anything (Text.braced (xs.map text)) (Token.braced (xs.map tokens)) :=
  (openingBrace.free_append (commaSeries h)).append closingBrace ⟨'\x7d', [], rfl, rfl⟩

end Scans

namespace TypeExpr

theorem isName_int : IsName "Int" := ⟨rfl, 'I', ['n', 't'], rfl, rfl, List.all_eq_true.1 rfl⟩

theorem isName_bool : IsName "Bool" :=
  ⟨rfl, 'B', ['o', 'o', 'l'], rfl, rfl, List.all_eq_true.1 rfl⟩

theorem genericTokens_scans {generics : List Name} (h : ∀ g ∈ generics, IsName g.text) :
    Scans anything
      (if generics.isEmpty then "" else Text.braced (generics.map Name.text) ++ " ")
      (genericTokens generics) := by
  cases generics with
  | nil => exact .empty
  | cons g gs =>
    have hnames : ∀ name ∈ g :: gs, Scans endsWord name.text name.tokens :=
      fun name hname => .name (h name hname)
    exact (Scans.braced hnames).thenBlank rfl

theorem param_scans {param : Name × TypeExpr} (hname : IsName param.1.text)
    (ht : Scans endsWord param.2.text param.2.tokens) :
    Scans endsWord (param.1.text ++ ": " ++ param.2.text) (tokensOfParam param) := by
  have hcolon : Scans anything ": " [.mark ":"] := (Scans.colon.thenBlank rfl).of_text rfl
  exact ((Scans.name hname).append hcolon ⟨':', [' '], rfl, rfl⟩).free_append ht

theorem fn_scans {generics : List Name} {params : List (Name × TypeExpr)} {ret : TypeExpr}
    (hgenerics : ∀ g ∈ generics, IsName g.text) (hret : Scans endsWord ret.text ret.tokens)
    (hparams : ∀ param ∈ params,
      Scans endsWord (param.1.text ++ ": " ++ param.2.text) (tokensOfParam param))
    (pos : Position) :
    Scans endsWord (fn pos generics params ret).text (fn pos generics params ret).tokens := by
  have hseries := Scans.commaSeries hparams
  rw [← paramTexts_eq_map, ← paramTokens_eq_map] at hseries
  have hhead := (genericTokens_scans hgenerics).free_append hret
  have hopen := hhead.append Scans.opening ⟨'(', [], rfl, rfl⟩
  have hclose := (hopen.free_append hseries).close
  rw [text, tokens]
  apply hclose.free.of_eq
  simp only [parenthesized, List.append_assoc, List.cons_append, List.nil_append]

mutual

theorem scans : (t : TypeExpr) → t.WellSpelled → Scans endsWord t.text t.tokens
  | int _, _ => .name isName_int
  | bool _, _ => .name isName_bool
  | generic _ name, h => .name h.1
  | list _ element, h => by
    rw [text, tokens]
    exact ((Scans.openingBracket.free_append (scans element h)).append Scans.closingBracket
      ⟨']', [], rfl, rfl⟩).free
  | tuple _ items, h => by
    rw [text, tokens, texts_eq_map, tokensAll_eq_map]
    exact (Scans.tuple (scansAll items h)).free
  | fn pos generics params ret, h =>
    fn_scans h.1 (scans ret h.2.2) (scansParams params h.2.1) pos

theorem scansAll : (ts : List TypeExpr) → AllWellSpelled ts →
    ∀ t ∈ ts, Scans endsWord t.text t.tokens
  | [], _ => nofun
  | t :: ts, h => List.forall_mem_cons.2 ⟨scans t h.1, scansAll ts h.2⟩

theorem scansParams : (params : List (Name × TypeExpr)) → ParamsWellSpelled params →
    ∀ param ∈ params, Scans endsWord (param.1.text ++ ": " ++ param.2.text) (tokensOfParam param)
  | [], _ => nofun
  | (_, t) :: params, h =>
    List.forall_mem_cons.2 ⟨param_scans h.1.1 (scans t h.1.2), scansParams params h.2⟩

end

end TypeExpr

/-- What makes no operator of two characters with a unary operator before it. -/
def endsUnary (c : Char) : Bool := c != '=' && c != '^'

namespace Scans

variable {a : String} {ts : List Token}

theorem unaryOp (op : UnaryOp) :
    Scans endsUnary op.symbol [.operator op.symbol] := by
  cases op with
  | neg => exact (operator '-' rfl (by decide)).weaken fun c _ => rfl
  | not =>
    apply (operator '!' rfl (by decide)).weaken
    intro c hc
    simp only [endsUnary, Bool.and_eq_true, bne_iff_ne] at hc
    simp [endsOperator, doubles, hc.1, hc.2]

theorem singleOperator (c : Char) (ha : a.toList = [c]) (hc : c ∈ singles) :
    Scans (· == ' ') a [.operator a] := by
  have hblank : singles.all (endsOperator · ' ') = true := rfl
  apply (operator c ha hc).weaken
  intro d hd
  rw [beq_iff_eq.1 hd]
  exact List.all_eq_true.1 hblank c hc

theorem binaryOp (op : BinaryOp) : Scans (· == ' ') op.symbol [.operator op.symbol] := by
  cases op with
  | add => exact singleOperator '+' rfl (by decide)
  | sub => exact singleOperator '-' rfl (by decide)
  | mul => exact singleOperator '*' rfl (by decide)
  | div => exact singleOperator '/' rfl (by decide)
  | mod => exact singleOperator '%' rfl (by decide)
  | pow => exact (doubleOperator '*' '*' rfl (by decide)).free
  | eq => exact (doubleOperator '=' '=' rfl (by decide)).free
  | neq => exact (doubleOperator '!' '=' rfl (by decide)).free
  | lt => exact singleOperator '<' rfl (by decide)
  | gt => exact singleOperator '>' rfl (by decide)
  | le => exact (doubleOperator '<' '=' rfl (by decide)).free
  | ge => exact (doubleOperator '>' '=' rfl (by decide)).free
  | and => exact singleOperator '&' rfl (by decide)
  | or => exact singleOperator '|' rfl (by decide)
  | xor => exact singleOperator '^' rfl (by decide)
  | xnor => exact (doubleOperator '!' '^' rfl (by decide)).free

theorem tilde : Scans anything " ~ " [.operator "~"] := by
  have h : Scans (endsOperator '~') "~" [.operator "~"] := operator '~' rfl (by decide)
  exact (h.blankThen.thenBlank rfl).of_text rfl

theorem arrow : Scans anything " <- " [.operator "<-"] := by
  have h : Scans anything "<-" [.operator "<-"] := doubleOperator '<' '-' rfl (by decide)
  exact (h.blankThen.thenBlank rfl).of_text rfl

theorem branches (h : Scans endsWord a ts) {yes no : String} {us vs : List Token}
    (hyes : Scans endsWord yes us) (hno : Scans endsWord no vs) :
    Scans endsWord (a ++ " then " ++ yes ++ " else " ++ no) (ts ++ Token.branches us vs) := by
  have hthen : Scans anything " then " [.keyword .kwThen] :=
    (keywordText .kwThen).of_text rfl
  have helse : Scans anything " else " [.keyword .kwElse] :=
    (keywordText .kwElse).of_text rfl
  have hyes := (h.append hthen ⟨' ', "then ".toList, rfl, rfl⟩).free_append hyes
  apply ((hyes.append helse ⟨' ', "else ".toList, rfl, rfl⟩).free_append hno).of_eq
  simp only [Token.branches, List.append_assoc, List.cons_append, List.nil_append]

theorem bound (h : Scans endsWord a ts) {value body : String} {us vs : List Token}
    (hvalue : Scans endsWord value us) (hbody : Scans endsWord body vs) :
    Scans endsWord (a ++ " <- " ++ value ++ " in " ++ body) (ts ++ Token.bound us vs) := by
  have hin : Scans anything " in " [.keyword .kwIn] :=
    (keywordText .kwIn).of_text rfl
  have hvalue := (h.append arrow ⟨' ', "<- ".toList, rfl, rfl⟩).free_append hvalue
  apply ((hvalue.append hin ⟨' ', "in ".toList, rfl, rfl⟩).free_append hbody).of_eq
  simp only [Token.bound, List.append_assoc, List.cons_append, List.nil_append]

end Scans

namespace Expr

theorem typeArg_scans {callee : Expr} (hcallee : Scans endsWord callee.text callee.tokens)
    {generics : Option (List TypeExpr)}
    (hgenerics : ∀ ts, generics = some ts → ∀ t ∈ ts, Scans endsWord t.text t.tokens) :
    Scans endsWord (callee.text ++ typeArgsText generics)
      (callee.tokens ++ typeArgTokens generics) := by
  cases generics with
  | none =>
    rw [typeArgsText, typeArgTokens, String.append_empty, List.append_nil]
    exact hcallee
  | some ts =>
    have hbrace : Begins endsWord "\x7b" := ⟨'\x7b', [], rfl, rfl⟩
    have hbegins : Begins endsWord (Text.braced (ts.map TypeExpr.text)) :=
      (hbrace.append _).append _
    exact (hcallee.append (Scans.braced (hgenerics ts rfl)) hbegins).free

theorem call_scans {callee : Expr} (hcallee : Scans endsWord callee.text callee.tokens)
    {generics : Option (List TypeExpr)}
    (hgenerics : ∀ ts, generics = some ts → ∀ t ∈ ts, Scans endsWord t.text t.tokens)
    {args : List Expr} (hargs : ∀ e ∈ args, Scans endsWord e.text e.tokens) (pos : Position) :
    Scans endsWord (call pos callee generics args).text (call pos callee generics args).tokens := by
  have hopen := (typeArg_scans hcallee hgenerics).append Scans.opening ⟨'(', [], rfl, rfl⟩
  have hclose := (hopen.free_append (.commaSeries hargs)).close
  rw [text, tokens, texts_eq_map, tokensAll_eq_map]
  apply hclose.free.of_eq
  simp only [parenthesized, List.append_assoc, List.cons_append, List.nil_append]

theorem cond_scans {test yes no : Expr} (htest : Scans endsWord test.text test.tokens)
    (hyes : Scans endsWord yes.text yes.tokens) (hno : Scans endsWord no.text no.tokens)
    (pos : Position) :
    Scans endsWord (cond pos test yes no).text (cond pos test yes no).tokens := by
  have hif : Scans anything "(if " [.mark "(", .keyword .kwIf] :=
    (Scans.opening.free_append ((Scans.keyword .kwIf).thenBlank rfl)).of_text rfl
  exact ((hif.free_append htest).branches hyes hno).parenthesized rfl

theorem unpack_scans {head tail : Name} {whole yes no : Expr} (hhead : IsName head.text)
    (htail : IsName tail.text) (hwhole : Scans endsWord whole.text whole.tokens)
    (hyes : Scans endsWord yes.text yes.tokens) (hno : Scans endsWord no.text no.tokens)
    (pos : Position) :
    Scans endsWord (unpack pos head tail whole yes no).text
      (unpack pos head tail whole yes no).tokens := by
  have hif : Scans anything "(if (" [.mark "(", .keyword .kwIf, .mark "("] :=
    (Scans.opening.free_append
      (((Scans.keyword .kwIf).thenBlank rfl).free_append Scans.opening)).of_text rfl
  have harrow : Scans anything ") <- " [.mark ")", .operator "<-"] :=
    (Scans.closing.free_append Scans.arrow).of_text rfl
  have hhead := (hif.free_append (.name hhead)).append Scans.tilde ⟨' ', "~ ".toList, rfl, rfl⟩
  have htail := (hhead.free_append (.name htail)).append harrow ⟨')', " <- ".toList, rfl, rfl⟩
  exact ((htail.free_append hwhole).branches hyes hno).parenthesized rfl

theorem let_scans : Scans anything "(let " [.mark "(", .keyword .kwLet] :=
  (Scans.opening.free_append ((Scans.keyword .kwLet).thenBlank rfl)).of_text rfl

theorem letName_scans {name : Name} {value body : Expr} (hname : IsName name.text)
    (hvalue : Scans endsWord value.text value.tokens)
    (hbody : Scans endsWord body.text body.tokens) (pos : Position) :
    Scans endsWord (letName pos name value body).text (letName pos name value body).tokens :=
  ((let_scans.free_append (.name hname)).bound hvalue hbody).parenthesized rfl

theorem letTuple_scans {names : List Name} {value body : Expr}
    (hnames : ∀ name ∈ names, IsName name.text)
    (hvalue : Scans endsWord value.text value.tokens)
    (hbody : Scans endsWord body.text body.tokens) (pos : Position) :
    Scans endsWord (letTuple pos names value body).text
      (letTuple pos names value body).tokens := by
  have hnames : ∀ name ∈ names, Scans endsWord name.text name.tokens :=
    fun name hname => .name (hnames name hname)
  exact ((let_scans.free_append (.tuple hnames)).free.bound hvalue hbody).parenthesized rfl

theorem cons_scans {head tail : Expr} (hhead : Scans endsWord head.text head.tokens)
    (htail : Scans endsWord tail.text tail.tokens) (pos : Position) :
    Scans endsWord (cons pos head tail).text (cons pos head tail).tokens := by
  have hhead := (Scans.opening.free_append hhead).append Scans.tilde ⟨' ', "~ ".toList, rfl, rfl⟩
  apply (hhead.free_append htail).parenthesized
  rw [List.append_assoc, List.append_assoc]
  rfl

theorem binary_scans {left right : Expr} (hleft : Scans endsWord left.text left.tokens)
    (hright : Scans endsWord right.text right.tokens) (pos : Position) (op : BinaryOp) :
    Scans endsWord (binary pos op left right).text (binary pos op left right).tokens := by
  have hleft := (Scans.opening.free_append hleft).thenBlank rfl
  have hop := (hleft.free_append (.binaryOp op)).thenBlank rfl
  apply (hop.free_append hright).parenthesized
  rw [List.append_assoc, List.append_assoc]
  rfl

theorem endsUnary_of {p : Char → Bool} {c : Char} (hc : p c = true) (heq : p '=' = false)
    (hxor : p '^' = false) : endsUnary c = true := by
  rw [endsUnary, Bool.and_eq_true, bne_iff_ne, bne_iff_ne]
  constructor
  · rintro rfl
    exact absurd hc (ne_true_of_eq_false heq)
  · rintro rfl
    exact absurd hc (ne_true_of_eq_false hxor)

theorem text_begins : (e : Expr) → e.WellSpelled → Begins endsUnary e.text
  | int _ n, h => by
    obtain ⟨k, -, htext⟩ := toList_ofInt h
    cases hdigits : Nat.toDigits 10 k with
    | nil => exact absurd hdigits Nat.toDigits_ne_nil
    | cons c cs =>
      have hc : c ∈ Nat.toDigits 10 k := by
        rw [hdigits]
        exact List.mem_cons_self
      have hdigit := Nat.isDigit_of_mem_toDigits (by decide) (by decide) hc
      exact ⟨c, cs, htext.trans hdigits, endsUnary_of hdigit rfl rfl⟩
  | bool _ b, _ => by
    cases b with
    | true => exact ⟨'t', _, toList_true, rfl⟩
    | false => exact ⟨'f', _, toList_false, rfl⟩
  | str _ codes, h => by
    obtain ⟨cs, rfl⟩ := h
    exact ⟨'"', _, Text.Quoted.toList_encode cs, rfl⟩
  | ident _ name, h => by
    obtain ⟨c, cs, htext, hc, -⟩ := h.spelling
    exact ⟨c, cs, htext, endsUnary_of hc rfl rfl⟩
  | tuple _ items, _ => by
    rw [text, Text.tuple.eq_def]
    split
    · simp only [Begins, String.toList_append]
      exact ⟨'(', _, rfl, rfl⟩
    · simp only [Begins, String.toList_append]
      exact ⟨'(', _, rfl, rfl⟩
  | call _ callee generics args, h => by
    rw [text]
    exact ((((text_begins callee h.1).append _).append _).append _).append _
  | list _ _, _ | emptyOf _ _, _ => by
    simp only [text, Text.bracketed, Begins, String.toList_append]
    exact ⟨'[', _, rfl, rfl⟩
  | cond _ _ _ _, _ | unpack _ _ _ _ _ _, _ | letName _ _ _ _, _ | letTuple _ _ _ _, _
  | cons _ _ _, _ | binary _ _ _ _, _ | unary _ _ _, _ => by
    simp only [text, Begins, String.toList_append]
    exact ⟨'(', _, rfl, rfl⟩

theorem unary_scans {operand : Expr} (h : Scans endsWord operand.text operand.tokens)
    (hbegins : Begins endsUnary operand.text) (pos : Position)
    (op : UnaryOp) :
    Scans endsWord (unary pos op operand).text (unary pos op operand).tokens :=
  ((Scans.opening.free_append (Scans.unaryOp op)).append h hbegins).parenthesized rfl

theorem emptyOf_scans {element : TypeExpr} (h : Scans endsWord element.text element.tokens)
    (pos : Position) :
    Scans endsWord (emptyOf pos element).text (emptyOf pos element).tokens := by
  have hhead : Scans anything "[] of " [.mark "[", .mark "]", .keyword .kwOf] :=
    (Scans.openingBracket.free_append
      (Scans.closingBracket.free_append (.keywordText .kwOf))).of_text rfl
  exact hhead.free_append h

mutual

theorem scans : (e : Expr) → e.WellSpelled → Scans endsWord e.text e.tokens
  | int _ n, h => .int h
  | bool _ b, _ => .bool b
  | str _ codes, h => by
    obtain ⟨cs, rfl⟩ := h
    exact (Scans.str cs).free
  | ident _ name, h => .name h
  | list _ items, h => by
    rw [text, tokens, texts_eq_map, tokensAll_eq_map]
    exact (Scans.bracketed (scansAll items h)).free
  | emptyOf pos element, h => emptyOf_scans (element.scans h) pos
  | tuple _ items, h => by
    rw [text, tokens, texts_eq_map, tokensAll_eq_map]
    exact (Scans.tuple (scansAll items h)).free
  | call pos callee generics args, ⟨hcallee, hgenerics, hargs⟩ =>
    call_scans (scans callee hcallee) (fun ts hts => TypeExpr.scansAll ts (hgenerics ts hts))
      (scansAll args hargs) pos
  | cond pos test yes no, h =>
    cond_scans (scans test h.1) (scans yes h.2.1) (scans no h.2.2) pos
  | unpack pos _ _ whole yes no, ⟨hhead, htail, hwhole, hyes, hno⟩ =>
    unpack_scans hhead htail (scans whole hwhole) (scans yes hyes) (scans no hno) pos
  | letName pos _ value body, h => letName_scans h.1 (scans value h.2.1) (scans body h.2.2) pos
  | letTuple pos _ value body, h => letTuple_scans h.1 (scans value h.2.1) (scans body h.2.2) pos
  | cons pos head tail, h => cons_scans (scans head h.1) (scans tail h.2) pos
  | binary pos op left right, h => binary_scans (scans left h.1) (scans right h.2) pos op
  | unary pos op operand, h => unary_scans (scans operand h) (text_begins operand h) pos op

theorem scansAll : (es : List Expr) → AllWellSpelled es →
    ∀ e ∈ es, Scans endsWord e.text e.tokens
  | [], _ => nofun
  | e :: es, h => List.forall_mem_cons.2 ⟨scans e h.1, scansAll es h.2⟩

end

end Expr

end ExprLang
