import ExprLang.Decl.Source
import ExprLang.Dialogue.Console
import ExprLang.Evaluation
import ExprLang.Report

namespace ExprLang.CommandLine

/-- How the command ends: its exit status and its text on the error stream. -/
structure Verdict where
  status : Nat
  complaint : String

def failed (message : String) : Verdict := ⟨1, message ++ "\n"⟩

def usage : Verdict := failed "Usage: azor <file> [args...]"

def unreadable (path message : String) : Verdict :=
  failed ("Ran into error while trying to open " ++ path ++ ".\n" ++ message)

def reported (source kind : String) (pos : Position) (message : String) : Verdict :=
  failed (Report.render source pos (kind ++ ": " ++ message))

def exitStatus (result : Int64) : Nat := (result.toInt % 256).toNat

def concluded (source : String) : Outcome Int64 → Verdict
  | .value result => ⟨exitStatus result, ""⟩
  | .error (.fault e) => reported source RuntimeError.kind e.pos e.cause.message
  | .error (.host message) => failed (RuntimeError.kind ++ ": " ++ message)
  | .outOfFuel => failed (RuntimeError.kind ++ ": evaluation is nested too deeply")

def runSource (fuel : Nat) (source : String) (args : List String) : Dialogue Verdict :=
  match Decl.ofSource source with
  | .error e => .done (reported source e.kind e.pos e.message)
  | .ok ds =>
    match Program.check ds with
    | .error e => .done (reported source e.cause.kind e.pos e.cause.message)
    | .ok p => (p.run fuel args).bind fun outcome => .done (concluded source outcome)

/-- Runs what was read from a path: the bytes of the file, or why it cannot be read. -/
def runFile (fuel : Nat) (path : String) (content : Except String (List UInt8))
    (args : List String) : Dialogue Verdict :=
  match content.bind Text.decodeUtf8 with
  | .error message => .done (unreadable path message)
  | .ok source => runSource fuel source args

/-- A nesting depth that no run reaches. -/
def unbounded : Nat := Nat.pow 2 62

/-- The command with its arguments. The first one is the path whose content is given. -/
def session (args : List String) (content : Except String (List UInt8)) : Dialogue Verdict :=
  match args with
  | [] => .done usage
  | path :: rest => runFile unbounded path content rest

def run (readFile : String → Except String (List UInt8)) (draw : Int64 → Int64)
    (input : List UInt8) (args : List String) : Verdict × Console :=
  (session args (readFile (args.headD ""))).converse draw ⟨input, ""⟩

end ExprLang.CommandLine
