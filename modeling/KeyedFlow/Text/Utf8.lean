/-!
Reading text from UTF-8. Bytes that are not well formed are described by the length of the longest
well-formed beginning and by what follows it: an ill-formed sequence of one to three bytes, or a
sequence that the end of the input cuts short.
-/

set_option autoImplicit false

namespace KeyedFlow.Utf8

structure Invalid where
  /-- The number of bytes of the longest well-formed beginning. -/
  validUpTo : Nat
  /-- The length of the ill-formed sequence; nothing when the input ends inside a sequence. -/
  errorLength : Option Nat
deriving DecidableEq, Repr

def Invalid.message (e : Invalid) : String :=
  match e.errorLength with
  | some n => s!"invalid utf-8 sequence of {n} bytes from index {e.validUpTo}"
  | none => s!"incomplete utf-8 byte sequence from index {e.validUpTo}"

def encode (s : String) : List UInt8 := s.toUTF8.data.toList

def isContinuation (b : UInt8) : Bool := b &&& 0xc0 == 0x80

/-- How the bytes of a sequence may go on after its first byte: the range of the second byte and
the number of further continuation bytes. -/
structure Lead where
  low : UInt8
  high : UInt8
  more : Nat

def lead? (b : UInt8) : Option Lead :=
  if 0xc2 ≤ b && b ≤ 0xdf then some ⟨0x80, 0xbf, 0⟩
  else if b == 0xe0 then some ⟨0xa0, 0xbf, 1⟩
  else if b == 0xed then some ⟨0x80, 0x9f, 1⟩
  else if 0xe1 ≤ b && b ≤ 0xef then some ⟨0x80, 0xbf, 1⟩
  else if b == 0xf0 then some ⟨0x90, 0xbf, 2⟩
  else if 0xf1 ≤ b && b ≤ 0xf3 then some ⟨0x80, 0xbf, 2⟩
  else if b == 0xf4 then some ⟨0x80, 0x8f, 2⟩
  else none

inductive Sequence where
  | wellFormed (length : Nat)
  | illFormed (length : Nat)
  | cutShort

/-- `n` continuation bytes, after `seen` bytes of the sequence. -/
def continuations : Nat → Nat → List UInt8 → Sequence
  | 0, seen, _ => .wellFormed seen
  | _ + 1, _, [] => .cutShort
  | n + 1, seen, b :: bs =>
    if isContinuation b then continuations n (seen + 1) bs else .illFormed seen

def sequence (b : UInt8) (rest : List UInt8) : Sequence :=
  if b < 0x80 then .wellFormed 1
  else
    match lead? b with
    | none => .illFormed 1
    | some l =>
      match rest with
      | [] => .cutShort
      | c :: rest => if l.low ≤ c && c ≤ l.high then continuations l.more 2 rest else .illFormed 1

/-- Where the bytes stop being well formed, `done` bytes having been passed. -/
def scan (done : Nat) : List UInt8 → Option Invalid
  | [] => none
  | b :: rest =>
    match sequence b rest with
    | .illFormed n => some ⟨done, some n⟩
    | .cutShort => some ⟨done, none⟩
    | .wellFormed n => scan (done + n) (rest.drop (n - 1))
termination_by bs => bs.length
decreasing_by simp only [List.length_drop, List.length_cons]; omega

/-- The text that the bytes spell, or where they stop being well formed. -/
def decode (bytes : List UInt8) : Except Invalid String :=
  match String.fromUTF8? ⟨bytes.toArray⟩ with
  | some s => .ok s
  | none => .error ((scan 0 bytes).getD ⟨0, none⟩)

theorem decode_encode (s : String) : decode (encode s) = .ok s := by
  have h : (⟨(encode s).toArray⟩ : ByteArray) = s.toByteArray := by
    simp [encode, String.toUTF8]
  simp [decode, h, String.fromUTF8?, s.isValidUTF8, String.fromUTF8]

end KeyedFlow.Utf8
