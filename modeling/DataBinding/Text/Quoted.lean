import DataBinding.Text.Graphic

set_option autoImplicit false

/-! # Quoted text

A text in quotes, for inspection: the quote and the backslash are escaped by a backslash, the
commonest controls have an escape of one letter, and every other character that is not graphic
is written by its code point.
-/

namespace DataBinding.Text

/-- One character inside quotes. -/
def escape (c : Char) : String :=
  if c = '"' then "\\\""
  else if c = '\\' then "\\\\"
  else if c = '\n' then "\\n"
  else if c = '\t' then "\\t"
  else if c = '\r' then "\\r"
  else if c.toNat = 0 then "\\0"
  else if isGraphic c then c.toString
  else "\\u\x7b" ++ String.ofList (Nat.toDigits 16 c.toNat) ++ "\x7d"

/-- A text in quotes. -/
def quote (s : String) : String := "\"" ++ String.join (s.toList.map escape) ++ "\""

example : quote "a\"b\\\n\x01é" = "\"a\\\"b\\\\\\n\\u\x7b1\x7dé\"" := by decide +kernel

end DataBinding.Text
