/-!
Byte streams that coders write to and read from. A sink may have room for only so many bytes and
keeps what it took before it ran full; a source ends either well or in a failure of its own.
How many bytes a single read returns never shows, since every reader here asks again until it has
what it needs, so a source is the bytes it will yield and the way it ends.
-/

set_option autoImplicit false

namespace KeyedFlow

inductive CoderError where
  | cannotProvide (typeName reason : String)
  | nonDeterministic (coder reason : String)
  | malformed (coder reason : String)
  | io (reason : String)
deriving DecidableEq, Repr

namespace CoderError

def kind : CoderError → String
  | cannotProvide _ _ => "CannotProvide"
  | nonDeterministic _ _ => "NonDeterministic"
  | malformed _ _ => "Malformed"
  | io _ => "Io"

def message : CoderError → String
  | cannotProvide t r => s!"cannot provide a coder for {t}: {r}"
  | nonDeterministic c r => s!"{c} is not deterministic: {r}"
  | malformed c r => s!"malformed {c} encoding: {r}"
  | io r => s!"coder i/o failure: {r}"

def isCannotProvide : CoderError → Bool
  | cannotProvide _ _ => true
  | _ => false

end CoderError

/-- How many more bytes a sink takes, and what it reports once it is full. -/
structure SinkLimit where
  room : Nat
  failure : String
deriving DecidableEq, Repr

structure Sink where
  written : List UInt8
  limit : Option SinkLimit
deriving DecidableEq, Repr

/-- Writing to a sink; bytes taken before an error stay taken. -/
abbrev Encoding (α : Type) := ExceptT CoderError (StateM Sink) α

namespace Sink

def unbounded : Sink := ⟨[], none⟩

def bounded (room : Nat) (failure : String) : Sink := ⟨[], some ⟨room, failure⟩⟩

/-- Write all of `bytes`, or as many as there is room for. -/
def write (bytes : List UInt8) : Encoding Unit := fun s =>
  match s.limit with
  | none => (.ok (), ⟨s.written ++ bytes, none⟩)
  | some l =>
    if bytes.length ≤ l.room then
      (.ok (), ⟨s.written ++ bytes, some ⟨l.room - bytes.length, l.failure⟩⟩)
    else
      (.error (.io l.failure), ⟨s.written ++ bytes.take l.room, some ⟨0, l.failure⟩⟩)

end Sink

structure Source where
  bytes : List UInt8
  /-- What the source reports after its last byte, when it does not simply end there. -/
  failure : Option String
deriving DecidableEq, Repr

abbrev Decoding (α : Type) := StateT Source (Except CoderError) α

namespace Source

def ofBytes (bytes : List UInt8) : Source := ⟨bytes, none⟩

/-- The next `n` bytes; a stream that ends before them is malformed for `coder`. -/
def readExactly (coder : String) (n : Nat) : Decoding (List UInt8) := fun s =>
  if n ≤ s.bytes.length then
    .ok (s.bytes.take n, ⟨s.bytes.drop n, s.failure⟩)
  else
    match s.failure with
    | none => .error (.malformed coder "unexpected end of stream")
    | some f => .error (.io f)

/-- The next `n` bytes, or all there are when the stream ends before. -/
def readUpTo (n : Nat) : Decoding (List UInt8) := fun s =>
  if n ≤ s.bytes.length then
    .ok (s.bytes.take n, ⟨s.bytes.drop n, s.failure⟩)
  else
    match s.failure with
    | none => .ok (s.bytes, ⟨[], none⟩)
    | some f => .error (.io f)

def readByte (coder : String) : Decoding UInt8 := fun s =>
  match s.bytes with
  | b :: rest => .ok (b, ⟨rest, s.failure⟩)
  | [] =>
    match s.failure with
    | none => .error (.malformed coder "unexpected end of stream")
    | some f => .error (.io f)

end Source
end KeyedFlow
