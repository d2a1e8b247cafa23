import ExprLang.Expr.Printer
import ExprLang.Program
import ExprLang.Token

namespace ExprLang

def Position.forget (_ : Position) : Position := .start

def Token.move (φ : Position → Position) (t : Token) : Token := { t with pos := φ t.pos }

def Name.move (φ : Position → Position) (name : Name) : Name := { name with pos := φ name.pos }

def Located.move {κ : Type} (φ : Position → Position) (e : Located κ) : Located κ :=
  { e with pos := φ e.pos }

variable (φ : Position → Position)

namespace TypeExpr

mutual

def move (φ : Position → Position) : TypeExpr → TypeExpr
  | int pos => int (φ pos)
  | bool pos => bool (φ pos)
  | list pos element => list (φ pos) (element.move φ)
  | tuple pos items => tuple (φ pos) (moveAll φ items)
  | generic pos name => generic (φ pos) name
  | fn pos generics params ret =>
    fn (φ pos) (generics.map (Name.move φ)) (moveParams φ params) (ret.move φ)

def moveAll (φ : Position → Position) : List TypeExpr → List TypeExpr
  | [] => []
  | t :: ts => t.move φ :: moveAll φ ts

def moveParams (φ : Position → Position) : List (Name × TypeExpr) → List (Name × TypeExpr)
  | [] => []
  | (name, t) :: params => (name.move φ, t.move φ) :: moveParams φ params

end

def moveParam (φ : Position → Position) (param : Name × TypeExpr) : Name × TypeExpr :=
  (param.1.move φ, param.2.move φ)

theorem moveAll_eq_map (ts : List TypeExpr) : moveAll φ ts = ts.map (move φ) := by
  induction ts with
  | nil => rfl
  | cons t ts ih => rw [moveAll, ih, List.map_cons]

theorem moveParams_eq_map (params : List (Name × TypeExpr)) :
    moveParams φ params = params.map (moveParam φ) := by
  induction params with
  | nil => rfl
  | cons param params ih => rw [moveParams, ih, List.map_cons, moveParam]

@[simp] theorem pos_move (t : TypeExpr) : (t.move φ).pos = φ t.pos := by
  cases t <;> rfl

theorem map_text_move (names : List Name) :
    (names.map (Name.move φ)).map Name.text = names.map Name.text :=
  List.map_map

mutual

@[simp] theorem text_move : (t : TypeExpr) → (t.move φ).text = t.text
  | int _ | bool _ | generic _ _ => rfl
  | list _ element => by rw [move, text, text, text_move element]
  | tuple _ items => by rw [move, text, text, texts_moveAll items]
  | fn _ generics params ret => by
    rw [move, text, text, text_move ret, paramTexts_moveParams params, map_text_move,
      List.isEmpty_map]

theorem texts_moveAll : (ts : List TypeExpr) → texts (moveAll φ ts) = texts ts
  | [] => rfl
  | t :: ts => by rw [moveAll, texts, texts, text_move t, texts_moveAll ts]

theorem paramTexts_moveParams : (params : List (Name × TypeExpr)) →
    paramTexts (moveParams φ params) = paramTexts params
  | [] => rfl
  | (name, t) :: params => by
    rw [moveParams, paramTexts, paramTexts, text_move t, paramTexts_moveParams params, Name.move]

end

end TypeExpr

namespace Expr

mutual

def move (φ : Position → Position) : Expr → Expr
  | int pos value => int (φ pos) value
  | bool pos value => bool (φ pos) value
  | str pos codes => str (φ pos) codes
  | ident pos name => ident (φ pos) name
  | list pos items => list (φ pos) (moveAll φ items)
  | emptyOf pos element => emptyOf (φ pos) (element.move φ)
  | tuple pos items => tuple (φ pos) (moveAll φ items)
  | call pos callee generics args =>
    call (φ pos) (callee.move φ) (generics.map (TypeExpr.moveAll φ)) (moveAll φ args)
  | cond pos test yes no => cond (φ pos) (test.move φ) (yes.move φ) (no.move φ)
  | unpack pos head tail whole yes no =>
    unpack (φ pos) (head.move φ) (tail.move φ) (whole.move φ) (yes.move φ) (no.move φ)
  | letName pos name value body => letName (φ pos) (name.move φ) (value.move φ) (body.move φ)
  | letTuple pos names value body =>
    letTuple (φ pos) (names.map (Name.move φ)) (value.move φ) (body.move φ)
  | cons pos head tail => cons (φ pos) (head.move φ) (tail.move φ)
  | binary pos op left right => binary (φ pos) op (left.move φ) (right.move φ)
  | unary pos op operand => unary (φ pos) op (operand.move φ)

def moveAll (φ : Position → Position) : List Expr → List Expr
  | [] => []
  | e :: es => e.move φ :: moveAll φ es

end

theorem moveAll_eq_map (es : List Expr) : moveAll φ es = es.map (move φ) := by
  induction es with
  | nil => rfl
  | cons e es ih => rw [moveAll, ih, List.map_cons]

@[simp] theorem length_moveAll (es : List Expr) : (moveAll φ es).length = es.length := by
  rw [moveAll_eq_map, List.length_map]

@[simp] theorem pos_move (e : Expr) : (e.move φ).pos = φ e.pos := by
  cases e <;> rfl

theorem typeArgsText_moveAll (typeArgs : Option (List TypeExpr)) :
    typeArgsText (typeArgs.map (TypeExpr.moveAll φ)) = typeArgsText typeArgs := by
  cases typeArgs with
  | none => rfl
  | some ts =>
    have htexts : (ts.map (TypeExpr.move φ)).map TypeExpr.text = ts.map TypeExpr.text := by
      rw [List.map_map]
      exact List.map_congr_left fun t _ => TypeExpr.text_move φ t
    rw [Option.map_some, typeArgsText, typeArgsText, TypeExpr.moveAll_eq_map, htexts]

mutual

@[simp] theorem text_move : (e : Expr) → (e.move φ).text = e.text
  | int _ _ | bool _ _ | str _ _ | ident _ _ => rfl
  | list _ items => by rw [move, text, text, texts_moveAll items]
  | emptyOf _ element => by rw [move, text, text, TypeExpr.text_move]
  | tuple _ items => by rw [move, text, text, texts_moveAll items]
  | call _ callee typeArgs args => by
    rw [move, text, text, text_move callee, texts_moveAll args, typeArgsText_moveAll]
  | cond _ test yes no => by
    rw [move, text, text, text_move test, text_move yes, text_move no]
  | unpack _ head tail whole yes no => by
    rw [move, text, text, text_move whole, text_move yes, text_move no, Name.move, Name.move]
  | letName _ name value body => by
    rw [move, text, text, text_move value, text_move body, Name.move]
  | letTuple _ names value body => by
    rw [move, text, text, text_move value, text_move body, TypeExpr.map_text_move]
  | cons _ head tail => by rw [move, text, text, text_move head, text_move tail]
  | binary _ op left right => by rw [move, text, text, text_move left, text_move right]
  | unary _ op operand => by rw [move, text, text, text_move operand]

theorem texts_moveAll : (es : List Expr) → texts (moveAll φ es) = texts es
  | [] => rfl
  | e :: es => by rw [moveAll, texts, texts, text_move e, texts_moveAll es]

end

end Expr

def Decl.move (φ : Position → Position) (d : Decl) : Decl where
  label := d.label
  pos := φ d.pos
  signature := d.signature.move φ
  body := d.body.move φ

def CheckedDecl.move (φ : Position → Position) (d : CheckedDecl) : CheckedDecl :=
  { d with pos := φ d.pos, body := d.body.move φ }

def Program.move (φ : Position → Position) (p : Program) : Program :=
  { p with decls := p.decls.map (CheckedDecl.move φ) }

end ExprLang
