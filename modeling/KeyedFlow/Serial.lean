import KeyedFlow.Binary64
import KeyedFlow.Coder.FixedWidth
import KeyedFlow.Coder.Varint
import KeyedFlow.Holder
import KeyedFlow.InputOrAccum
import KeyedFlow.Text.Utf8
import KeyedFlow.Window.Basic

/-!
The compact serial form of values. Unsigned integers are variable-length, signed ones are first
folded onto the unsigned ones with the sign in the lowest bit; a list starts with its count, an
optional value with a byte that says whether it is there, and a choice with the number of the
alternative. Readers take what they need from the front and leave the rest.
-/

set_option autoImplicit false

namespace KeyedFlow

inductive SerialError where
  | endOfBuffer
  | varint
  | bool
  | option
  | text
  /-- An alternative that does not exist, or a value that its type refuses. -/
  | refused
deriving DecidableEq, Repr

def SerialError.message : SerialError → String
  | endOfBuffer => "Hit the end of buffer, expected more data"
  | varint => "Found a varint that didn't terminate. Is the usize too big for this platform?"
  | bool => "Found a bool that wasn't 0 or 1"
  | option => "Found an Option discriminant that wasn't 0 or 1"
  | text => "Tried to parse invalid utf-8"
  | refused => "Serde Deserialization Error"

abbrev SerialReader (α : Type) := StateT (List UInt8) (Except SerialError) α

structure SerialForm (α : Type) where
  write : α → List UInt8
  read : SerialReader α

namespace SerialForm
variable {α β : Type}

def takeByte : SerialReader UInt8 := fun bs =>
  match bs with
  | [] => .error .endOfBuffer
  | b :: rest => .ok (b, rest)

def takeBytes (n : Nat) : SerialReader (List UInt8) := fun bs =>
  if n ≤ bs.length then .ok (bs.take n, bs.drop n) else .error .endOfBuffer

/-- Read on when `left` more bytes may follow, the last of them being at most `last`. -/
def readVarintFrom (last : Nat) : Nat → Nat → Nat → SerialReader Nat
  | 0, _, _ => throw .varint
  | left + 1, scale, acc => do
    let b ← takeByte
    let acc := acc + b.toNat % 128 * scale
    if b < 0x80 then
      if left = 0 ∧ last < b.toNat then throw .varint else pure acc
    else readVarintFrom last left (scale * 128) acc

def readVarint (bits : Nat) : SerialReader Nat :=
  readVarintFrom ((1 <<< (bits % 7)) - 1) ((bits + 6) / 7) 1 0

/-- The integers in the order 0, -1, 1, -2, 2 and so on. -/
def fold (n : Int) : Nat := if 0 ≤ n then (2 * n).toNat else (-2 * n - 1).toNat

def unfold (n : Nat) : Int := if n % 2 = 0 then ↑(n / 2) else -↑(n / 2) - 1

theorem unfold_fold (n : Int) : unfold (fold n) = n := by
  unfold unfold fold
  split <;> split <;> omega

/-- The form of a type whose values are packed from those of another. -/
def through (f : SerialForm α) (pack : α → β) (unpack : β → α) : SerialForm β where
  write b := f.write (unpack b)
  read := do
    let a ← f.read
    pure (pack a)

def unsigned (bits : Nat) : SerialForm Nat where
  write := Varint.encode
  read := readVarint bits

def uint32 : SerialForm UInt32 := (unsigned 32).through UInt32.ofNat UInt32.toNat
def uint64 : SerialForm UInt64 := (unsigned 64).through UInt64.ofNat UInt64.toNat

def int32 : SerialForm Int32 :=
  (unsigned 32).through (fun n => Int32.ofInt (unfold n)) (fun a => fold a.toInt)

def int64 : SerialForm Int64 :=
  (unsigned 64).through (fun n => Int64.ofInt (unfold n)) (fun a => fold a.toInt)

def binary64 : SerialForm Binary64 where
  write a := FixedWidth.littleEndian 8 a.bits.toNat
  read := do
    let bs ← takeBytes 8
    pure ⟨UInt64.ofNat (FixedWidth.ofLittleEndian bs)⟩

def bool : SerialForm Bool where
  write b := [if b then 1 else 0]
  read := do
    match ← takeByte with
    | 0 => pure false
    | 1 => pure true
    | _ => throw .bool

def string : SerialForm String where
  write s := Varint.encode (Utf8.encode s).length ++ Utf8.encode s
  read := do
    let n ← readVarint 64
    let bs ← takeBytes n
    match Utf8.decode bs with
    | .ok s => pure s
    | .error _ => throw .text

def readMany (read : SerialReader α) : Nat → SerialReader (List α)
  | 0 => pure []
  | n + 1 => do
    let a ← read
    let as ← readMany read n
    pure (a :: as)

def list (f : SerialForm α) : SerialForm (List α) where
  write as := Varint.encode as.length ++ as.flatMap f.write
  read := do
    let n ← readVarint 64
    readMany f.read n

def option (f : SerialForm α) : SerialForm (Option α) where
  write
    | none => [0]
    | some a => 1 :: f.write a
  read := do
    match ← takeByte with
    | 0 => pure none
    | 1 =>
      let a ← f.read
      pure (some a)
    | _ => throw .option

def holder (f : SerialForm α) : SerialForm (Holder α) := f.option.through Holder.mk Holder.value?

def pair (f : SerialForm α) (g : SerialForm β) : SerialForm (α × β) where
  write p := f.write p.1 ++ g.write p.2
  read := do
    let a ← f.read
    let b ← g.read
    pure (a, b)

def inputOrAccum (f : SerialForm α) (g : SerialForm β) : SerialForm (InputOrAccum α β) where
  write
    | .input a => 0 :: f.write a
    | .accum b => 1 :: g.write b
  read := do
    match ← readVarint 32 with
    | 0 =>
      let a ← f.read
      pure (.input a)
    | 1 =>
      let b ← g.read
      pure (.accum b)
    | _ => throw .refused

def interval : SerialForm Interval :=
  (int64.pair int64).through (fun p => ⟨p.1, p.2⟩) (fun i => (i.start, i.stop))

def window : SerialForm Window where
  write
    | .global => [0]
    | .interval i => 1 :: interval.write i
  read := do
    match ← readVarint 32 with
    | 0 => pure .global
    | 1 =>
      let i ← interval.read
      pure (.interval i)
    | _ => throw .refused

def fixedWindows : SerialForm FixedWindows where
  write w := int64.write w.size ++ int64.write w.offset
  read := FixedWindows.reading (fun _ => .refused) (int64.pair int64).read

def windowFn : SerialForm WindowFn where
  write
    | .global => [0]
    | .fixed w => 1 :: fixedWindows.write w
  read := do
    match ← readVarint 32 with
    | 0 => pure .global
    | 1 =>
      let w ← fixedWindows.read
      pure (.fixed w)
    | _ => throw .refused

def accumulationMode : SerialForm AccumulationMode where
  write
    | .discarding => [0]
    | .accumulating => [1]
  read := do
    match ← readVarint 32 with
    | 0 => pure .discarding
    | 1 => pure .accumulating
    | _ => throw .refused

def strategy : SerialForm WindowingStrategy :=
  (windowFn.pair accumulationMode).through (fun p => ⟨p.1, p.2⟩) (fun s => (s.windowFn, s.mode))

def windowed (f : SerialForm α) : SerialForm (Windowed α) :=
  (f.pair (int64.pair window)).through (fun p => ⟨p.1, p.2.1, p.2.2⟩)
    (fun w => (w.value, w.timestamp, w.window))

def timestamped (f : SerialForm α) : SerialForm (Timestamped α) :=
  (int64.pair f).through (fun p => ⟨p.1, p.2⟩) (fun t => (t.timestamp, t.value))

end SerialForm
end KeyedFlow
