import ExprLang.Dialogue
import ExprLang.Text.Line

namespace ExprLang

/-- The bytes still to read and the text printed so far. -/
structure Console where
  input : List UInt8
  output : String := ""

namespace Console

def print (c : Console) (text : String) : Console := { c with output := c.output ++ text }

/-- The next line without its end, nothing at the end of the input. A line that is no text is a
failure. -/
def readLine (c : Console) : Except String (Option String) × Console :=
  match c.input with
  | [] => (.ok none, c)
  | bytes =>
    let (line, rest) := Text.splitLine bytes
    ((Text.decodeUtf8 line).map fun s => some (Text.stripTerminator s), { c with input := rest })

end Console

/-- Holds a dialogue with a console, drawing numbers by a given rule. -/
def Dialogue.converse {α : Type} (draw : Int64 → Int64) (c : Console) : Dialogue α → α × Console
  | done a => (a, c)
  | print text next => (next (.ok ())).converse draw (c.print text)
  | readLine next =>
    let (answer, c) := c.readLine
    (next answer).converse draw c
  | rand bound next => (next (draw bound)).converse draw c

end ExprLang
