import KeyedFlow.Coder.FixedWidth
import KeyedFlow.Text.Utf8

/-!
Hashing of keys. The groups of a flow are spread over bundles by the hash of their key: the bytes
of the key under SipHash with one compression round, three finalisation rounds and a zero key.
-/

set_option autoImplicit false

namespace KeyedFlow

namespace SipHash

structure State where
  v0 : UInt64
  v1 : UInt64
  v2 : UInt64
  v3 : UInt64

def start : State :=
  ⟨0x736f6d6570736575, 0x646f72616e646f6d, 0x6c7967656e657261, 0x7465646279746573⟩

def rotate (x : UInt64) (n : UInt64) : UInt64 := (x <<< n) ||| (x >>> (64 - n))

def round (s : State) : State :=
  let v0 := s.v0 + s.v1
  let v1 := rotate s.v1 13 ^^^ v0
  let v0 := rotate v0 32
  let v2 := s.v2 + s.v3
  let v3 := rotate s.v3 16 ^^^ v2
  let v0 := v0 + v3
  let v3 := rotate v3 21 ^^^ v0
  let v2 := v2 + v1
  let v1 := rotate v1 17 ^^^ v2
  ⟨v0, v1, rotate v2 32, v3⟩

def absorb (s : State) (m : UInt64) : State :=
  let s := round { s with v3 := s.v3 ^^^ m }
  { s with v0 := s.v0 ^^^ m }

def word (bs : List UInt8) : UInt64 := UInt64.ofNat (FixedWidth.ofLittleEndian bs)

/-- Absorb full words, then the rest of fewer than eight bytes together with the length. -/
def absorbAll (length : Nat) (s : State) (bs : List UInt8) : State :=
  if 8 ≤ bs.length then absorbAll length (absorb s (word (bs.take 8))) (bs.drop 8)
  else absorb s ((UInt64.ofNat length <<< 56) ||| word bs)
termination_by bs.length
decreasing_by simp only [List.length_drop]; omega

def hash (bs : List UInt8) : UInt64 :=
  let s := absorbAll bs.length start bs
  let s := round (round (round { s with v2 := s.v2 ^^^ 0xff }))
  s.v0 ^^^ s.v1 ^^^ s.v2 ^^^ s.v3

end SipHash

/-- The bytes by which a key is hashed; equal keys have equal bytes. -/
class KeyBytes (κ : Type) where
  bytes : κ → List UInt8

instance : KeyBytes Unit := ⟨fun _ => []⟩
instance : KeyBytes Bool := ⟨fun b => [if b then 1 else 0]⟩
instance : KeyBytes Int32 := ⟨fun a => FixedWidth.littleEndian 4 a.toBitVec.toNat⟩
instance : KeyBytes Int64 := ⟨fun a => FixedWidth.littleEndian 8 a.toBitVec.toNat⟩
instance : KeyBytes UInt32 := ⟨fun a => FixedWidth.littleEndian 4 a.toNat⟩
instance : KeyBytes UInt64 := ⟨fun a => FixedWidth.littleEndian 8 a.toNat⟩

/-- A text ends in a byte that no text contains. -/
instance : KeyBytes String := ⟨fun s => Utf8.encode s ++ [0xff]⟩

instance {α β : Type} [KeyBytes α] [KeyBytes β] : KeyBytes (α × β) :=
  ⟨fun p => KeyBytes.bytes p.1 ++ KeyBytes.bytes p.2⟩

/-- The bundle out of `n` that the groups of a key go to. -/
def bucketOf {κ : Type} [KeyBytes κ] (k : κ) (n : Nat) : Nat :=
  (SipHash.hash (KeyBytes.bytes k)).toNat % n

theorem bucketOf_lt {κ : Type} [KeyBytes κ] (k : κ) {n : Nat} (h : 0 < n) : bucketOf k n < n :=
  Nat.mod_lt _ h

end KeyedFlow
