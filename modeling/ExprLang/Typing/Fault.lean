import ExprLang.Position
import ExprLang.Ty

namespace ExprLang

inductive TypingFault where
  | unknownIdentifier (name : String)
  | unknownType (name : String)
  | multipleDefinitions (name : String)
  | shadowsGlobal (name : String)
  | duplicateBinding (name : String)
  | redeclaredGeneric (name : String)
  | noMain
  | invalidMain (expected found : Ty)
  | typeMismatch (expected found : Ty)
  | branchMismatch (yes no : Ty)
  | notCallable (found : Ty)
  | expectedList (found : Ty)
  | argumentCount (expected found : Nat)
  | genericArgumentCount (expected found : Nat)
  | missingGenericArguments (callee : Ty)
  | unexpectedGenericArguments (callee : Ty)
  | untypedEmptyList
  | patternMismatch (expected : Nat) (found : Ty)

abbrev TypingError := Located TypingFault

namespace TypingFault

def message : TypingFault → String
  | unknownIdentifier name => "unknown identifier '" ++ name ++ "'"
  | unknownType name => "unknown type '" ++ name ++ "'"
  | multipleDefinitions name => "found multiple definitions of '" ++ name ++ "'"
  | shadowsGlobal name => "'" ++ name ++ "' shadows a global of the same name"
  | duplicateBinding name => "'" ++ name ++ "' is already bound in this scope"
  | redeclaredGeneric name => "generic '" ++ name ++ "' is already declared"
  | noMain => "no main function defined"
  | invalidMain expected found =>
    "main must have type '" ++ expected.text ++ "', found '" ++ found.text ++ "'"
  | typeMismatch expected found =>
    "couldn't match expected type '" ++ expected.text ++ "' with actual type '" ++ found.text ++ "'"
  | branchMismatch yes no =>
    "then branch has type '" ++ yes.text ++ "' but else branch has type '" ++ no.text ++ "'"
  | notCallable found => "expected a function, found a value of type '" ++ found.text ++ "'"
  | expectedList found => "expected a list, found a value of type '" ++ found.text ++ "'"
  | argumentCount expected found => s!"expected {expected} arguments, found {found}"
  | genericArgumentCount expected found => s!"expected {expected} generic arguments, found {found}"
  | missingGenericArguments callee =>
    "calling '" ++ callee.text ++ "' needs explicit generic arguments"
  | unexpectedGenericArguments callee => "'" ++ callee.text ++ "' takes no generic arguments"
  | untypedEmptyList =>
    "cannot infer the element type of an empty list, annotate it with 'of'"
  | patternMismatch expected found =>
    s!"pattern binds {expected} names but the value has type '" ++ found.text ++ "'"

def isNameFault : TypingFault → Bool
  | unknownIdentifier _ | unknownType _ | multipleDefinitions _ | shadowsGlobal _
  | duplicateBinding _ | redeclaredGeneric _ | noMain => true
  | _ => false

def kind (fault : TypingFault) : String := if fault.isNameFault then "NameError" else "TypeError"

end TypingFault

end ExprLang
