import ExprLang.Token

namespace ExprLang

inductive SyntaxFault where
  | unexpectedToken (expected found : String)
  | unexpectedEnd (expected : String)
  | mismatchedDelimiter (expected found : String)
  | missingSignature (label : String)
  | invalidPattern (found : String)
  | invalidUnpack (found : String)
  | genericsWithoutParams
  | annotatedNonEmptyList
  | danglingGenerics

def SyntaxFault.message : SyntaxFault → String
  | unexpectedToken expected found => "expected " ++ expected ++ ", found " ++ found
  | unexpectedEnd expected => "expected " ++ expected ++ ", found end of input"
  | mismatchedDelimiter expected found =>
    "mismatched delimiter: expected '" ++ expected ++ "', found '" ++ found ++ "'"
  | missingSignature label => "declaration '" ++ label ++ "' is missing its type annotation"
  | invalidPattern found => "only identifiers may be bound by a pattern, found '" ++ found ++ "'"
  | invalidUnpack found =>
    "expected an unpacking pattern '(head ~ tail)', found '" ++ found ++ "'"
  | genericsWithoutParams => "generic parameters can only be declared on a function type"
  | annotatedNonEmptyList => "only an empty list literal can carry an element type"
  | danglingGenerics => "explicit generic arguments must be followed by call arguments"

abbrev SyntaxError := Located SyntaxFault

/-- What a parser answers: a value and the tokens it left, an error, or that its fuel is used up. -/
inductive Reply (α : Type) where
  | ok (value : α) (rest : List Token)
  | error (e : SyntaxError)
  | outOfFuel

/-- A parser reads from the head of a token list. The position is the one to report once all tokens
are used up. -/
def Parse (α : Type) : Type := Position → List Token → Reply α

namespace Parse

@[inline] def run {α : Type} (p : Parse α) (last : Position) (ts : List Token) : Reply α :=
  p last ts

instance : Monad Parse where
  pure a := fun _ ts => .ok a ts
  bind p f := fun last ts =>
    match p last ts with
    | .ok a rest => f a last rest
    | .error e => .error e
    | .outOfFuel => .outOfFuel

theorem run_bind {α β : Type} (p : Parse α) (f : α → Parse β) (last : Position)
    (ts : List Token) :
    (p >>= f).run last ts =
      match p.run last ts with
      | .ok a rest => (f a).run last rest
      | .error e => .error e
      | .outOfFuel => .outOfFuel := rfl

theorem run_bind_eq_ok {α β : Type} {p : Parse α} {f : α → Parse β} {last : Position}
    {ts rest : List Token} {b : β} :
    (p >>= f).run last ts = .ok b rest ↔
      ∃ a left, p.run last ts = .ok a left ∧ (f a).run last left = .ok b rest := by
  rw [run_bind]
  constructor
  · intro h
    cases hp : p.run last ts with
    | ok a left =>
      rw [hp] at h
      exact ⟨a, left, rfl, h⟩
    | error e =>
      rw [hp] at h
      cases h
    | outOfFuel =>
      rw [hp] at h
      cases h
  · rintro ⟨a, left, hp, h⟩
    rw [hp]
    exact h

def fail {α : Type} (fault : SyntaxFault) (pos : Position) : Parse α := fun _ _ =>
  .error ⟨fault, pos⟩

def outOfFuel {α : Type} : Parse α := fun _ _ => .outOfFuel

def peek : Parse (Option Token) := fun _ ts => .ok ts.head? ts

/-- The place of the head, or of the last token once all are used up. -/
def here : Parse Position := fun last ts => .ok ((ts.head?.map Token.pos).getD last) ts

def next (expected : String) : Parse Token := fun last ts =>
  match ts with
  | [] => .error ⟨.unexpectedEnd expected, last⟩
  | t :: ts => .ok t ts

/-- Takes the head if it is the given symbol, and tells whether it did. -/
def accept (symbol : String) : Parse Bool := fun _ ts =>
  match ts with
  | [] => .ok false []
  | t :: ts => if t.isSymbol symbol then .ok true ts else .ok false (t :: ts)

/-- Takes the head if it is the given keyword, and answers its place if so. -/
def acceptKeyword (word : Keyword) : Parse (Option Position) := fun _ ts =>
  match ts with
  | [] => .ok none []
  | t :: ts => if t.isKeyword word then .ok (some t.pos) ts else .ok none (t :: ts)

def quote (spelling : String) : String := "'" ++ spelling ++ "'"

def unexpected {α : Type} (expected : String) (found : Token) : Parse α :=
  fail (.unexpectedToken expected found.describe) found.pos

def closers : List String := [")", "]", "\x7d"]

/-- Takes the given symbol. One closing bracket in place of another is an error of its own. -/
def expect (symbol : String) : Parse Unit := do
  let t ← next (quote symbol)
  if t.isSymbol symbol then pure ()
  else if closers.contains symbol && closers.any t.isSymbol then
    fail (.mismatchedDelimiter symbol t.text) t.pos
  else unexpected (quote symbol) t

def expectKeyword (word : Keyword) : Parse Unit := do
  let t ← next (quote word.spelling)
  if t.isKeyword word then pure () else unexpected (quote word.spelling) t

/-- Takes an identifier, which the error text calls `expected`. -/
def identifier (expected : String) : Parse Token := do
  let t ← next expected
  match t.kind with
  | .identifier => pure t
  | _ => unexpected expected t

/-- Items with commas between them, up to and including a closing bracket. A comma may follow the
last item; the second component tells whether one did. `trailing` is the answer for a series that is
closed at once. -/
def series {α : Type} (close : String) (item : Parse α) (trailing : Bool) :
    Nat → Parse (List α × Bool)
  | 0 => outOfFuel
  | n + 1 => do
    if ← accept close then pure ([], trailing)
    else
      let a ← item
      if ← accept "," then
        let (as, trailing) ← series close item true n
        pure (a :: as, trailing)
      else
        expect close
        pure ([a], false)

end Parse

end ExprLang
