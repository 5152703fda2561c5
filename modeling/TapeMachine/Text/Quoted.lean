import TapeMachine.Text.Invisible

/-! Text between double quotes on one line, every character of it visible: quotes and backslashes
are escaped, and a character without a visible form is written by its escape or its code point. -/

namespace TapeMachine.Text

/-- An escape by code point: lowercase hexadecimal digits between braces. -/
def codePointEscape (c : Char) : String :=
  "\\u\x7b" ++ String.ofList (Nat.toDigits 16 c.toNat) ++ "\x7d"

def quotedChar (c : Char) : String :=
  if c = '"' then "\\\""
  else if c = '\\' then "\\\\"
  else if c = '\t' then "\\t"
  else if c = '\n' then "\\n"
  else if c = '\r' then "\\r"
  else if c = '\x00' then "\\0"
  else if isInvisible c then codePointEscape c
  else c.toString

def quoted (text : String) : String :=
  "\"" ++ String.join (text.toList.map quotedChar) ++ "\""

end TapeMachine.Text
