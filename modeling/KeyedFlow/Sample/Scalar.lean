import KeyedFlow.ElemType.Equality
import KeyedFlow.KeyHash
import KeyedFlow.Serial
import KeyedFlow.Text.Hex

/-!
Sample element types for trying flows out: the primitive types, a sealed integer that no registry
knows a coder for, and the bags that one of the sample combiners accumulates. Scalars come with
just enough arithmetic to tell values apart; it wraps around, so that no sample faults by itself.
-/

set_option autoImplicit false

namespace KeyedFlow.Sample

inductive Scalar where
  | int32
  | int64
  | uint32
  | uint64
  | binary64
  | string
  | sealedInt
deriving DecidableEq, Repr

/-- The types of the samples that are not the library's own. -/
inductive Own where
  | sealedInt
  | bag (s : Scalar)
deriving DecidableEq, Repr

structure SealedInt where
  value : Int64
deriving DecidableEq, Repr

/-- Values, and how many other bags were merged into this one. -/
structure Bag (α : Type) where
  values : List α
  merges : UInt32
deriving DecidableEq, Repr

namespace Scalar

@[reducible] def Val : Scalar → Type
  | int32 => Int32
  | int64 => Int64
  | uint32 => UInt32
  | uint64 => UInt64
  | binary64 => Binary64
  | string => String
  | sealedInt => SealedInt

def typeName : Scalar → String
  | int32 => "i32"
  | int64 => "i64"
  | uint32 => "u32"
  | uint64 => "u64"
  | binary64 => "f64"
  | string => "alloc::string::String"
  | sealedInt => "Opaque"

def same : (s : Scalar) → s.Val → s.Val → Bool
  | int32, a, b => decide (a = b)
  | int64, a, b => decide (a = b)
  | uint32, a, b => decide (a = b)
  | uint64, a, b => decide (a = b)
  | binary64, a, b => a.numEq b
  | string, a, b => decide (a = b)
  | sealedInt, a, b => decide (a = b)

end Scalar

instance : TypeFamily Own where
  decEq := inferInstance
  Carrier
    | .sealedInt => SealedInt
    | .bag s => Bag s.Val
  typeName
    | .sealedInt => "Opaque"
    | .bag s => s!"Bag<{s.typeName}>"

instance : EqFamily Own where
  same
    | .sealedInt, a, b => Scalar.same .sealedInt a b
    | .bag s, a, b => ElemType.sameAll s.same a.values b.values && a.merges == b.merges

abbrev Ty := ElemType Own

structure ScalarOps (α : Type) where
  zero : α
  /-- The integer by which samples measure the value. -/
  num : α → Int64
  ofNum : Int64 → α
  plus : α → α → α
  times : α → α → α
  text : α → String
  compare : α → α → Ordering
  form : SerialForm α

namespace ScalarOps

def ofWord {α : Type} [Word α] (form : SerialForm α) : ScalarOps α where
  zero := Word.ofInt 0
  num a := Int64.ofInt (Word.toInt a)
  ofNum n := Word.ofInt n.toInt
  plus := Word.wrappingAdd
  times := Word.wrappingMul
  text a := toString (Word.toInt a)
  compare a b := Ord.compare (Word.toInt a) (Word.toInt b)
  form := form

def binary64Text (a : Binary64) : String :=
  if a.isNaN then "nan" else Text.Hex.encode (FixedWidth.bigEndian 8 a.bits.toNat)

def binary64OfText? (text : String) : Option Binary64 :=
  if text = "nan" then some ⟨0x7ff8000000000000⟩
  else (Text.Hex.decode? text).map fun bs => ⟨UInt64.ofNat (FixedWidth.ofBigEndian bs)⟩

def binary64 : ScalarOps Binary64 where
  zero := Binary64.zero
  num := Binary64.truncate
  ofNum n := Binary64.ofInt n.toInt
  plus := Binary64.add
  times := Binary64.mul
  text := binary64Text
  compare a b := Ord.compare a.rank b.rank
  form := SerialForm.binary64

def string : ScalarOps String where
  zero := ""
  num s := Int64.ofNat s.utf8ByteSize
  ofNum n := toString n.toInt
  plus a b := a ++ b
  times a b := s!"[{a}*{b}]"
  text s := s
  compare := Ord.compare
  form := SerialForm.string

def sealedInt : ScalarOps SealedInt where
  zero := ⟨0⟩
  num a := a.value
  ofNum n := ⟨n⟩
  plus a b := ⟨Word.wrappingAdd a.value b.value⟩
  times a b := ⟨Word.wrappingMul a.value b.value⟩
  text a := s!"#{a.value.toInt}"
  compare a b := Ord.compare a.value.toInt b.value.toInt
  form := SerialForm.int64.through SealedInt.mk SealedInt.value

end ScalarOps

namespace Scalar

@[reducible] def type : Scalar → Ty
  | int32 => .int32
  | int64 => .int64
  | uint32 => .uint32
  | uint64 => .uint64
  | binary64 => .binary64
  | string => .string
  | sealedInt => .own .sealedInt

def ops : (s : Scalar) → ScalarOps s.type.Carrier
  | int32 => .ofWord SerialForm.int32
  | int64 => .ofWord SerialForm.int64
  | uint32 => .ofWord SerialForm.uint32
  | uint64 => .ofWord SerialForm.uint64
  | binary64 => .binary64
  | string => .string
  | sealedInt => .sealedInt

/-- A value moved on by `n`. -/
def bump (s : Scalar) (n : Int64) (a : s.type.Carrier) : s.type.Carrier :=
  s.ops.plus a (s.ops.ofNum n)

def le (s : Scalar) (a b : s.type.Carrier) : Bool := s.ops.compare a b != .gt

/-- The remainder of a value's number, never negative; zero by zero is left alone. -/
def remainder (s : Scalar) (m : Int64) (a : s.type.Carrier) : Int64 :=
  Int64.ofInt ((s.ops.num a).toInt % m.toInt)

def textOf : (s : Scalar) → s.Val → String
  | int32 => int32.ops.text
  | int64 => int64.ops.text
  | uint32 => uint32.ops.text
  | uint64 => uint64.ops.text
  | binary64 => binary64.ops.text
  | string => string.ops.text
  | sealedInt => sealedInt.ops.text

end Scalar
end KeyedFlow.Sample
