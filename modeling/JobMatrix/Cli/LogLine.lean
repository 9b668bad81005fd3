import JobMatrix.Log
import JobMatrix.Text.Quoted

/-!
# Log lines

An event is written as its level, its message, and its fields as `name=value`.  In the message,
characters that would steer a terminal are replaced by escapes.
-/

set_option autoImplicit false

namespace JobMatrix

/-- A character of a message. -/
def shownInMessage (c : Char) : List Char :=
  let n := c.toNat
  if ['\x1b', '\x07', '\x08', '\x0c', '\x7f'].contains c then
    '\\' :: 'x' :: Text.padded 2 (Text.hexDigits n)
  else if 0x80 ≤ n && n ≤ 0x9F then '\\' :: 'u' :: '\x7b' :: Text.hexDigits n ++ ['\x7d']
  else [c]

def FieldValue.logged : FieldValue → String
  | text s => Text.quoted s
  | shown s => s

/-- The line of an event. -/
def LogEvent.line (e : LogEvent) : String :=
  e.level.name ++ " " ++ String.ofList (e.message.toList.flatMap shownInMessage)
    ++ String.join (e.fields.map fun (name, value) => " " ++ name ++ "=" ++ value.logged)

end JobMatrix
