/-!
Bytes as hexadecimal text, two lower-case digits for each. Reading admits upper case as well.
-/

set_option autoImplicit false

namespace KeyedFlow.Text.Hex

def digit? (c : Char) : Option Nat :=
  if c.isDigit then some (c.toNat - '0'.toNat)
  else if 'a' ≤ c ∧ c ≤ 'f' then some (c.toNat - 'a'.toNat + 10)
  else if 'A' ≤ c ∧ c ≤ 'F' then some (c.toNat - 'A'.toNat + 10)
  else none

def encode (bytes : List UInt8) : String :=
  String.ofList (bytes.flatMap fun b => [Nat.digitChar (b.toNat / 16), Nat.digitChar (b.toNat % 16)])

def decodeChars? : List Char → Option (List UInt8)
  | [] => some []
  | [_] => none
  | a :: b :: rest => do
    let high ← digit? a
    let low ← digit? b
    let bytes ← decodeChars? rest
    some (UInt8.ofNat (high * 16 + low) :: bytes)

def decode? (text : String) : Option (List UInt8) := decodeChars? text.toList

end KeyedFlow.Text.Hex
