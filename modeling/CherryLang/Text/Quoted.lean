import CherryLang.Text.Printable

namespace CherryLang.Text

/-- A character between quotes of the kind `quote`: five have an escape of their own, the quote is
escaped, and one that does not show is written by its code point. -/
def escape (quote : Char) (c : Char) : String :=
  if c = '\x00' then "\\0"
  else if c = '\t' then "\\t"
  else if c = '\n' then "\\n"
  else if c = '\r' then "\\r"
  else if c = '\\' then "\\\\"
  else if c = quote then "\\" ++ toString c
  else if isPrintable c then toString c
  else "\\u\x7b" ++ String.ofList (Nat.toDigits 16 c.toNat) ++ "\x7d"

def quoteChar (c : Char) : String := "'" ++ escape '\'' c ++ "'"

def quoteString (text : String) : String :=
  "\"" ++ String.join (text.toList.map (escape '"')) ++ "\""

end CherryLang.Text
