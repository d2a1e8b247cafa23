namespace ExprLang.Text

def notUtf8 : String := "stream did not contain valid UTF-8"

def decodeUtf8 (bytes : List UInt8) : Except String String :=
  match String.fromUTF8? ⟨bytes.toArray⟩ with
  | some s => .ok s
  | none => .error notUtf8

/-- The bytes up to and including the first line feed, and the bytes after it. -/
def splitLine : List UInt8 → List UInt8 × List UInt8
  | [] => ([], [])
  | b :: bs =>
    if b = 10 then ([b], bs)
    else
      let (line, rest) := splitLine bs
      (b :: line, rest)

/-- Removes the end of a line: a line feed, and then one carriage return right before it. -/
def stripTerminator (line : String) : String :=
  match line.toList.reverse with
  | '\n' :: '\r' :: cs => String.ofList cs.reverse
  | '\n' :: cs => String.ofList cs.reverse
  | _ => line

end ExprLang.Text
