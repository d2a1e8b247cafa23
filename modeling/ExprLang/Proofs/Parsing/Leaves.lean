import ExprLang.Expr
import ExprLang.Token

namespace ExprLang

/-- What a leaf is: as a token it is an identifier, a literal, or an operator. -/
inductive Leaf.Content where
  | name (text : String)
  | bool (value : Bool)
  | int (value : Int64)
  | str (codes : List Int64)
  | operator (symbol : String)
deriving DecidableEq

/-- A leaf with its place, if the tree has it. -/
structure Leaf where
  content : Leaf.Content
  pos? : Option Position

namespace Token

/-- The spellings of the binary operators, of the unary ones and of the list operator. -/
def spellsOperator (spelling : String) : Bool :=
  (BinaryOp.ofSymbol? spelling).isSome || spelling == "!" || spelling == "~"

/-- The leaf that a token makes. Keywords, and the symbols that are no operators, make none. -/
def content? (t : Token) : Option Leaf.Content :=
  match t.kind with
  | .identifier => some (.name t.text)
  | .bool value => some (.bool value)
  | .int value => some (.int value)
  | .str codes => some (.str codes)
  | .keyword _ => none
  | .symbol _ => if spellsOperator t.text then some (.operator t.text) else none

def isLeaf (t : Token) : Bool := t.content?.isSome

end Token

/-- A leaf comes from a token: it has its content, and its place if it has one. -/
def Leaf.ComesFrom (leaf : Leaf) (t : Token) : Prop :=
  t.content? = some leaf.content ∧ ∀ pos, leaf.pos? = some pos → pos = t.pos

def Name.leaf (name : Name) : Leaf := ⟨.name name.text, some name.pos⟩

namespace TypeExpr

mutual

/-- The leaves of a written type. A function type has its generics first, then its result. -/
def leaves : TypeExpr → List Leaf
  | int pos => [⟨.name "Int", some pos⟩]
  | bool pos => [⟨.name "Bool", some pos⟩]
  | list _ element => element.leaves
  | tuple _ items => leavesAll items
  | generic pos name => [⟨.name name, some pos⟩]
  | fn _ generics params ret => generics.map Name.leaf ++ ret.leaves ++ paramLeaves params

def leavesAll : List TypeExpr → List Leaf
  | [] => []
  | t :: ts => t.leaves ++ leavesAll ts

def paramLeaves : List (Name × TypeExpr) → List Leaf
  | [] => []
  | (name, t) :: params => name.leaf :: t.leaves ++ paramLeaves params

end

/-- The leaves of a written function type with its result last, as a declaration writes it. -/
def declaredLeaves : TypeExpr → List Leaf
  | fn _ generics params ret => generics.map Name.leaf ++ paramLeaves params ++ ret.leaves
  | t => t.leaves

theorem leavesAll_eq_flatMap (ts : List TypeExpr) : leavesAll ts = ts.flatMap leaves := by
  induction ts with
  | nil => rfl
  | cons t ts ih => rw [leavesAll, ih, List.flatMap_cons]

theorem paramLeaves_eq_flatMap (params : List (Name × TypeExpr)) :
    paramLeaves params = params.flatMap fun param => param.1.leaf :: param.2.leaves := by
  induction params with
  | nil => rfl
  | cons param params ih => rw [paramLeaves, ih, List.flatMap_cons]

end TypeExpr

namespace Expr

def typeArgLeaves : Option (List TypeExpr) → List Leaf
  | none => []
  | some ts => TypeExpr.leavesAll ts

mutual

/-- The leaves of an expression. The list operator of a pattern is the only one without a place. -/
def leaves : Expr → List Leaf
  | int pos value => [⟨.int value, some pos⟩]
  | bool pos value => [⟨.bool value, some pos⟩]
  | str pos codes => [⟨.str codes, some pos⟩]
  | ident pos name => [⟨.name name, some pos⟩]
  | list _ items => leavesAll items
  | emptyOf _ element => element.leaves
  | tuple _ items => leavesAll items
  | call _ callee generics args => callee.leaves ++ typeArgLeaves generics ++ leavesAll args
  | cond _ test yes no => test.leaves ++ yes.leaves ++ no.leaves
  | unpack _ head tail whole yes no =>
    [head.leaf, ⟨.operator "~", none⟩, tail.leaf] ++ whole.leaves ++ yes.leaves ++ no.leaves
  | letName _ name value body => name.leaf :: value.leaves ++ body.leaves
  | letTuple _ names value body => names.map Name.leaf ++ value.leaves ++ body.leaves
  | cons pos head tail => head.leaves ++ ⟨.operator "~", some pos⟩ :: tail.leaves
  | binary pos op left right => left.leaves ++ ⟨.operator op.symbol, some pos⟩ :: right.leaves
  | unary pos op operand => ⟨.operator op.symbol, some pos⟩ :: operand.leaves

def leavesAll : List Expr → List Leaf
  | [] => []
  | e :: es => e.leaves ++ leavesAll es

end

theorem leavesAll_eq_flatMap (es : List Expr) : leavesAll es = es.flatMap leaves := by
  induction es with
  | nil => rfl
  | cons e es ih => rw [leavesAll, ih, List.flatMap_cons]

end Expr

/-- Leaves of a declaration: its label, its written type in one of the two orders, and its body. -/
def Decl.HasLeaves (d : Decl) (leaves : List Leaf) : Prop :=
  ∃ signature, (signature = d.signature.leaves ∨ signature = d.signature.declaredLeaves) ∧
    leaves = ⟨.name d.label, some d.pos⟩ :: signature ++ d.body.leaves

end ExprLang
