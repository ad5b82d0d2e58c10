import ExprCode.Text.Hex
import ExprCode.Text.Unprintable

/-! # Quoted strings

A string between double quotes, on one line, with every character that would not be seen as itself
written as an escape: `\"`, `\\`, `\n`, `\r`, `\t`, `\0`, and otherwise the code point in braces. -/

namespace ExprCode.Text

/-- One character inside the quotes. -/
def quotedChar (c : Char) : String :=
  if c = '"' then "\\\""
  else if c = '\\' then "\\\\"
  else if c = '\n' then "\\n"
  else if c = '\r' then "\\r"
  else if c = '\t' then "\\t"
  else if c = '\x00' then "\\0"
  else if isUnprintable c then "\\u\x7b" ++ hexDigits c.toNat ++ "\x7d"
  else c.toString

/-- A string between double quotes with its escapes. -/
def quoted (s : String) : String :=
  "\"" ++ String.join (s.toList.map quotedChar) ++ "\""

end ExprCode.Text
