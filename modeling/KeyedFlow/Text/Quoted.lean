import KeyedFlow.Text.Printable

/-!
Quoted text. A text is shown between double quotes; quotes and backslashes are escaped, tabs, line
ends and the zero character have short escapes, and what would not show as a character of its own
is written by its number in hexadecimal digits.
-/

set_option autoImplicit false

namespace KeyedFlow.Text.Quoted

def hexDigits (n : Nat) : String := String.ofList (Nat.toDigits 16 n)

def quoteChar (c : Char) : String :=
  if c = '"' then "\\\""
  else if c = '\\' then "\\\\"
  else if c = '\n' then "\\n"
  else if c = '\r' then "\\r"
  else if c = '\t' then "\\t"
  else if c.toNat = 0 then "\\0"
  else if showsAlone c then c.toString
  else "\\u\x7b" ++ hexDigits c.toNat ++ "\x7d"

def quote (s : String) : String := "\"" ++ String.join (s.toList.map quoteChar) ++ "\""

end KeyedFlow.Text.Quoted
