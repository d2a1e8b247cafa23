import ExprLang.Position

namespace ExprLang.Report

/-- The lines of a text. A line ends at a line feed, which takes a carriage return right before it
along; after the last line feed there is a line only if some text is left. -/
def lines : List Char → List (List Char)
  | [] => []
  | '\r' :: '\n' :: cs => [] :: lines cs
  | '\n' :: cs => [] :: lines cs
  | c :: cs =>
    match lines cs with
    | [] => [[c]]
    | l :: ls => (c :: l) :: ls

/-- The characters of a line, empty if the text has no such line. Line 0 counts as line 1. -/
def line (source : String) (number : Nat) : List Char :=
  (lines source.toList)[number - 1]?.getD []

/-- Blanks as wide as the first characters of a line: a tab stays a tab. -/
def indent (line : List Char) (width : Nat) : List Char :=
  (line.take width).map fun c => if c = '\t' then '\t' else ' '

/-- The source line, the caret line, and the message after its place. -/
def render (source : String) (pos : Position) (message : String) : String :=
  let shown := line source pos.line
  String.ofList shown ++ "\n" ++ String.ofList (indent shown (pos.column - 1)) ++ "^\n" ++
    "(" ++ pos.text ++ ") " ++ message

end ExprLang.Report
