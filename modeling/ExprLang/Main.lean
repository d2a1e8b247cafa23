import ExprLang.CommandLine

namespace ExprLang

def describeFailure : IO.Error → String
  | .noFileOrDirectory .. => "No such file or directory (os error 2)"
  | .inappropriateType .. => "Is a directory (os error 21)"
  | e => toString e

def attempt {α : Type} (action : IO α) : IO (Except String α) :=
  try
    let a ← action
    return .ok a
  catch e => return .error (describeFailure e)

/-- The bytes up to and including the next line feed, or up to the end of the input. -/
partial def readLineBytes (input : IO.FS.Stream) (read : List UInt8) : IO (List UInt8) := do
  let bytes ← input.read 1
  match bytes.toList with
  | [] => return read.reverse
  | b :: _ => if b = 10 then return (b :: read).reverse else readLineBytes input (b :: read)

/-- The next line of the input without its end, nothing at the end of the input. -/
def readConsoleLine : IO (Except String (Option String)) := do
  let input ← IO.getStdin
  let bytes ← attempt (readLineBytes input [])
  return bytes.bind fun
    | [] => .ok none
    | bytes => (Text.decodeUtf8 bytes).map fun s => some (Text.stripTerminator s)

def printConsole (text : String) : IO Unit := do
  let out ← IO.getStdout
  out.putStr text
  out.flush

def drawBelow (bound : Int64) : IO Int64 := do
  let n ← IO.rand 0 (bound.toInt.toNat - 1)
  return Int64.ofNat n

def Dialogue.perform {α : Type} : Dialogue α → IO α
  | done a => pure a
  | print text next => do
    let answer ← attempt (printConsole text)
    (next answer).perform
  | readLine next => do
    let answer ← readConsoleLine
    (next answer).perform
  | rand bound next => do
    let n ← drawBelow bound
    (next n).perform

def readSource (path : String) : IO (Except String (List UInt8)) := do
  let content ← attempt (IO.FS.readBinFile path)
  return content.map fun bytes => bytes.toList

end ExprLang

open ExprLang

def main (args : List String) : IO UInt32 := do
  let content ← readSource (args.headD "")
  let verdict ← (CommandLine.session args content).perform
  IO.eprint verdict.complaint
  return UInt32.ofNat verdict.status
