import KeyedFlow.Coder.Stream

/-!
Variable-length integers: seven bits a byte, the lowest first, with the high bit set on every byte
but the last. A reader gives up when an eleventh byte comes; of the tenth byte only the lowest bit
has a place in the result, and its other bits are dropped.
-/

set_option autoImplicit false

namespace KeyedFlow.Varint

def encode (n : Nat) : List UInt8 :=
  if n < 128 then [UInt8.ofNat n]
  else UInt8.ofNat (n % 128 + 128) :: encode (n / 128)
termination_by n
decreasing_by omega

theorem shiftRight_seven (n : UInt64) : (n >>> 7).toNat = n.toNat / 128 := by
  rw [UInt64.toNat_shiftRight, Nat.shiftRight_eq_div_pow]
  rfl

theorem shiftRight_seven_eq_zero_iff {n : UInt64} : n >>> 7 = 0 ↔ n.toNat < 128 := by
  rw [← UInt64.toNat_inj, shiftRight_seven, UInt64.toNat_zero, Nat.div_eq_zero_iff_lt (by decide)]

/-- Each byte is written by itself, so a sink may run full between two of them. -/
def write (n : UInt64) : Encoding Unit :=
  let byte := (n &&& 0x7f).toUInt8
  if n >>> 7 = 0 then Sink.write [byte]
  else do
    Sink.write [byte ||| 0x80]
    write (n >>> 7)
termination_by n.toNat
decreasing_by
  rename_i h
  rw [shiftRight_seven_eq_zero_iff] at h
  rw [shiftRight_seven]
  omega

/-- Read on when `left` more bytes may follow and `acc` holds the bits below `shift`. -/
def readFrom (coder : String) : Nat → UInt64 → UInt64 → Decoding UInt64
  | 0, _, _ => do
    let _ ← Source.readByte coder
    throw (.malformed coder "varint is too long")
  | left + 1, shift, acc => do
    let b ← Source.readByte coder
    let acc := acc ||| ((b &&& 0x7f).toUInt64 <<< shift)
    if b < 0x80 then pure acc else readFrom coder left (shift + 7) acc

def read (coder : String) : Decoding UInt64 := readFrom coder 10 0 0

/-- A length and then that many bytes. -/
def readBytes (coder : String) : Decoding (List UInt8) := do
  let n ← read coder
  let bytes ← Source.readUpTo n.toNat
  if bytes.length = n.toNat then pure bytes
  else throw (.malformed coder s!"declared {n.toNat} bytes, stream held {bytes.length}")

end KeyedFlow.Varint
