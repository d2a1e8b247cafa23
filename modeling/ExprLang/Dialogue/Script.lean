import ExprLang.Dialogue

namespace ExprLang

inductive Event where
  | print (text : String)
  | input (line : Option String)
  | rand (bound drawn : Int64)
  | failure

/-- The answers still to give and the requests so far. -/
structure Script where
  /-- The lines to answer, then the input ends. -/
  inputs : List String := []
  /-- The numbers to draw, each reduced to its bound; then zeros. -/
  rands : List Int64 := []
  /-- Which of the print and read requests fails, counted from one. -/
  failAt : Option Nat := none
  /-- How many print and read requests there were. -/
  calls : Nat := 0
  trace : Array Event := #[]

namespace Script

def failureMessage : String := "host failure"

def count (s : Script) : Script := { s with calls := s.calls + 1 }

def record (s : Script) (e : Event) : Script := { s with trace := s.trace.push e }

/-- Whether the request just counted is the one to fail. -/
def failsNow (s : Script) : Bool := s.failAt == some s.calls

def print (s : Script) (text : String) : Except String Unit × Script :=
  let s := s.count
  if s.failsNow then (.error failureMessage, s.record .failure)
  else (.ok (), s.record (.print text))

def readLine (s : Script) : Except String (Option String) × Script :=
  let s := s.count
  if s.failsNow then (.error failureMessage, s.record .failure)
  else
    match s.inputs with
    | [] => (.ok none, s.record (.input none))
    | line :: rest => (.ok (some line), { s with inputs := rest }.record (.input (some line)))

/-- Takes the next number, reduced to be at least zero and below the bound. -/
def rand (s : Script) (bound : Int64) : Int64 × Script :=
  let drawn := Int64.ofInt ((s.rands.headD 0).toInt % bound.toInt)
  (drawn, { s with rands := s.rands.tail }.record (.rand bound drawn))

end Script

def Dialogue.play {α : Type} (s : Script) : Dialogue α → α × Script
  | done a => (a, s)
  | print text next =>
    let (answer, s) := s.print text
    (next answer).play s
  | readLine next =>
    let (answer, s) := s.readLine
    (next answer).play s
  | rand bound next =>
    let (answer, s) := s.rand bound
    (next answer).play s

end ExprLang
