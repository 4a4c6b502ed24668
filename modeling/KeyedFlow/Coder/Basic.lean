import KeyedFlow.Coder.FixedWidth
import KeyedFlow.Coder.Varint
import KeyedFlow.ElemType.Basic
import KeyedFlow.Serial

/-!
Coders turn elements into bytes and back. They are self-delimiting: a value read from the middle
of a stream takes exactly the bytes that writing it produced. A coder is a nesting of composite
coders over leaves, so its name, its component coders and whether it is deterministic can be read
off it; `custom` admits any other coder as a leaf.
-/

set_option autoImplicit false

namespace KeyedFlow

structure CustomCoder (α : Type) where
  describe : String
  encode : α → Encoding Unit
  decode : Decoding α
  verify : Except CoderError Unit := .ok ()

inductive Coder {B : Type} [TypeFamily B] : ElemType B → Type where
  | int32 : Coder .int32
  | int64 : Coder .int64
  | uint32 : Coder .uint32
  | uint64 : Coder .uint64
  | binary64 : Coder .binary64
  /-- Small numbers in few bytes; used for the shards of hot keys. -/
  | varint : Coder .uint32
  | bool : Coder .bool
  | string : Coder .string
  | unit : Coder .unit
  | pair {σ τ : ElemType B} (key : Coder σ) (value : Coder τ) : Coder (.pair σ τ)
  | list {τ : ElemType B} (elem : Coder τ) : Coder (.list τ)
  | option {τ : ElemType B} (value : Coder τ) : Coder (.option τ)
  | holder {τ : ElemType B} (value : Coder τ) : Coder (.holder τ)
  | inputOrAccum {ι α : ElemType B} (input : Coder ι) (accum : Coder α) :
      Coder (.inputOrAccum ι α)
  /-- The serial form of a value after its length. -/
  | serial {τ : ElemType B} (form : SerialForm τ.Carrier) (deterministic : Bool) : Coder τ
  | custom {τ : ElemType B} (c : CustomCoder τ.Carrier) : Coder τ

namespace Coder
variable {B : Type} [TypeFamily B]

def describe : {τ : ElemType B} → Coder τ → String
  | _, int32 => "I32Coder"
  | _, int64 => "I64Coder"
  | _, uint32 => "U32Coder"
  | _, uint64 => "U64Coder"
  | _, binary64 => "F64Coder"
  | _, varint => "VarIntCoder"
  | _, bool => "BoolCoder"
  | _, string => "StringUtf8Coder"
  | _, unit => "UnitCoder"
  | _, pair k v => s!"KvCoder({k.describe}, {v.describe})"
  | _, list c => s!"IterableCoder({c.describe})"
  | _, option c => s!"NullableCoder({c.describe})"
  | _, holder c => s!"HolderCoder({c.describe})"
  | _, inputOrAccum i a => s!"InputOrAccumCoder({i.describe}, {a.describe})"
  | τ, serial _ _ => s!"SerdeCoder<{τ.typeName}>"
  | _, custom c => c.describe

/-- Fails when equal values may be written as different bytes. -/
def verify : {τ : ElemType B} → Coder τ → Except CoderError Unit
  | _, binary64 =>
    .error (.nonDeterministic "F64Coder" "floating point equality does not match byte equality")
  | _, pair k v => do
    k.verify
    v.verify
  | _, list c => c.verify
  | _, option c => c.verify
  | _, holder c => c.verify
  | _, inputOrAccum i a => do
    i.verify
    a.verify
  | τ, serial f d =>
    if d then .ok ()
    else .error (.nonDeterministic (serial (τ := τ) f d).describe
      "serde encodings are not guaranteed to be deterministic")
  | _, custom c => c.verify
  | _, _ => .ok ()

def encodeMany {α : Type} (encode : α → Encoding Unit) : List α → Encoding Unit
  | [] => pure ()
  | a :: as => do
    encode a
    encodeMany encode as

def encode : {τ : ElemType B} → Coder τ → τ.Carrier → Encoding Unit
  | _, int32, a => Sink.write (FixedWidth.bigEndian 4 a.toBitVec.toNat)
  | _, int64, a => Sink.write (FixedWidth.bigEndian 8 a.toBitVec.toNat)
  | _, uint32, a => Sink.write (FixedWidth.bigEndian 4 a.toNat)
  | _, uint64, a => Sink.write (FixedWidth.bigEndian 8 a.toNat)
  | _, binary64, a => Sink.write (FixedWidth.bigEndian 8 a.bits.toNat)
  | _, varint, a => Varint.write a.toUInt64
  | _, bool, b => Sink.write [if b then 1 else 0]
  | _, string, s => do
    Varint.write (UInt64.ofNat (Utf8.encode s).length)
    Sink.write (Utf8.encode s)
  | _, unit, _ => pure ()
  | _, pair k v, p => do
    k.encode p.1
    v.encode p.2
  | _, list c, as => do
    Varint.write (UInt64.ofNat as.length)
    encodeMany c.encode as
  | _, option c, o =>
    match o with
    | none => Sink.write [0]
    | some a => do
      Sink.write [1]
      c.encode a
  | _, holder c, h =>
    match h.value? with
    | none => Sink.write [0]
    | some a => do
      Sink.write [1]
      c.encode a
  | _, inputOrAccum i a, x =>
    match x with
    | .input v => do
      Sink.write [0]
      i.encode v
    | .accum v => do
      Sink.write [1]
      a.encode v
  | _, serial f _, v => do
    Varint.write (UInt64.ofNat (f.write v).length)
    Sink.write (f.write v)
  | _, custom c, v => c.encode v

def decodeMany {α : Type} (decode : Decoding α) : Nat → Decoding (List α)
  | 0 => pure []
  | n + 1 => do
    let a ← decode
    let as ← decodeMany decode n
    pure (a :: as)

/-- An optional value after its presence byte, for the coder called `name`. -/
def decodeOption {α : Type} (name : String) (decode : Decoding α) : Decoding (Option α) := do
  let b ← Source.readByte "NullableCoder"
  if b = 0 then pure none
  else if b = 1 then do
    let a ← decode
    pure (some a)
  else throw (.malformed name s!"unexpected presence byte {b.toNat}")

def decode : {τ : ElemType B} → Coder τ → Decoding τ.Carrier
  | _, int32 => do
    let bs ← Source.readExactly "I32Coder" 4
    pure (Int32.ofBitVec (BitVec.ofNat 32 (FixedWidth.ofBigEndian bs)))
  | _, int64 => do
    let bs ← Source.readExactly "I64Coder" 8
    pure (Int64.ofBitVec (BitVec.ofNat 64 (FixedWidth.ofBigEndian bs)))
  | _, uint32 => do
    let bs ← Source.readExactly "U32Coder" 4
    pure (UInt32.ofNat (FixedWidth.ofBigEndian bs))
  | _, uint64 => do
    let bs ← Source.readExactly "U64Coder" 8
    pure (UInt64.ofNat (FixedWidth.ofBigEndian bs))
  | _, binary64 => do
    let bs ← Source.readExactly "F64Coder" 8
    pure ⟨UInt64.ofNat (FixedWidth.ofBigEndian bs)⟩
  | _, varint => do
    let n ← Varint.read "VarIntCoder"
    if n.toNat < UInt32.size then pure n.toUInt32
    else throw (.malformed "VarIntCoder" "value exceeds u32")
  | _, bool => do
    let b ← Source.readByte "BoolCoder"
    if b = 0 then pure false
    else if b = 1 then pure true
    else throw (.malformed "BoolCoder" s!"unexpected byte {b.toNat}")
  | _, string => do
    let bs ← Varint.readBytes "StringUtf8Coder"
    match Utf8.decode bs with
    | .ok s => pure s
    | .error e => throw (.malformed "StringUtf8Coder" e.message)
  | _, unit => pure ()
  | _, pair k v => do
    let a ← k.decode
    let b ← v.decode
    pure (a, b)
  | _, list c => do
    let n ← Varint.read "IterableCoder"
    decodeMany c.decode n.toNat
  | _, option c => decodeOption c.option.describe c.decode
  | _, holder c => do
    let o ← decodeOption c.option.describe c.decode
    pure ⟨o⟩
  | _, inputOrAccum i a => do
    let b ← Source.readByte "InputOrAccumCoder"
    if b = 0 then do
      let v ← i.decode
      pure (.input v)
    else if b = 1 then do
      let v ← a.decode
      pure (.accum v)
    else throw (.malformed (i.inputOrAccum a).describe s!"unexpected tag byte {b.toNat}")
  | τ, serial f d => do
    let bs ← Varint.readBytes "SerdeCoder"
    match f.read bs with
    | .ok (v, _) => pure v
    | .error e => throw (.malformed (serial (τ := τ) f d).describe e.message)
  | _, custom c => c.decode

variable {σ τ : ElemType B}

def encodeBytes (c : Coder τ) (a : τ.Carrier) : Except CoderError (List UInt8) :=
  match c.encode a Sink.unbounded with
  | (.ok _, s) => .ok s.written
  | (.error e, _) => .error e

/-- The one value that `bytes` hold; bytes left over are malformed. -/
def decodeBytes (c : Coder τ) (bytes : List UInt8) : Except CoderError τ.Carrier := do
  let (a, rest) ← c.decode (Source.ofBytes bytes)
  if rest.bytes.isEmpty then .ok a
  else .error (.malformed c.describe s!"{rest.bytes.length} trailing bytes")

def components : Coder τ → List String
  | pair k v => [k.describe, v.describe]
  | list c => [c.describe]
  | option c => [c.describe]
  | holder c => [c.describe]
  | inputOrAccum i _ => [i.describe]
  | _ => []

def parts? : Coder (.pair σ τ) → Option (Coder σ × Coder τ)
  | pair k v => some (k, v)
  | _ => none

def elem? : Coder (.list τ) → Option (Coder τ)
  | list c => some c
  | _ => none

def input? : Coder (.inputOrAccum σ τ) → Option (Coder σ)
  | inputOrAccum i _ => some i
  | _ => none

end Coder
end KeyedFlow
