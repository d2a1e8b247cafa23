import ExprLang.Decl.Parser

namespace ExprLang

inductive SourceError where
  | lexical (e : LexicalError)
  | syntactic (e : SyntaxError)

namespace SourceError

def pos : SourceError → Position
  | lexical e => e.pos
  | syntactic e => e.pos

def kind : SourceError → String
  | lexical _ => "LexicalError"
  | syntactic _ => "SyntaxError"

def message : SourceError → String
  | lexical e => e.cause.message
  | syntactic e => e.cause.message

end SourceError

def Decl.ofSource (source : String) : Except SourceError (List Decl) :=
  match Token.ofSource source with
  | .error e => .error (.lexical e)
  | .ok ts =>
    match ofTokens ts with
    | .error e => .error (.syntactic e)
    | .ok ds => .ok ds

theorem Decl.ofSource_eq_ok {source : String} {ds : List Decl} (h : ofSource source = .ok ds) :
    ∃ ts, Token.ofSource source = .ok ts ∧ ofTokens ts = .ok ds := by
  rw [ofSource] at h
  split at h
  · cases h
  · rename_i ts hts
    split at h
    · cases h
    · rename_i ds' hds
      cases h
      exact ⟨ts, hts, hds⟩

end ExprLang
