import KeyedFlow.Coder.Registry
import KeyedFlow.Sample.Scalar

/-!
Sample coders: the standard coder of a scalar, its serial form, and coders that go wrong on
purpose. One reads back another value than was written, one refuses negative values, and one
leaves a byte behind that it never reads.
-/

set_option autoImplicit false

namespace KeyedFlow.Sample

inductive CoderName where
  | standard
  | serial (deterministic : Bool)
  | bump (n : Int64)
  | picky
  | trailing
deriving DecidableEq, Repr

namespace Scalar

def serialCoder (s : Scalar) (deterministic : Bool) : Coder s.type :=
  .serial s.ops.form deterministic

def standardCoder : (s : Scalar) → Coder s.type
  | int32 => .int32
  | int64 => .int64
  | uint32 => .uint32
  | uint64 => .uint64
  | binary64 => .binary64
  | string => .string
  | sealedInt => serialCoder .sealedInt false

/-- Reads `v` back as `v` moved on by `n`. -/
def bumpCoder (s : Scalar) (n : Int64) : CustomCoder s.type.Carrier where
  describe := s!"BumpCoder({n.toInt})"
  encode := s.standardCoder.encode
  decode := do
    let v ← s.standardCoder.decode
    pure (s.bump n v)

def pickyCoder (s : Scalar) : CustomCoder s.type.Carrier where
  describe := "PickyCoder"
  encode v :=
    if s.ops.num v < 0 then throw (.malformed "PickyCoder" "negative value")
    else s.standardCoder.encode v
  decode := s.standardCoder.decode

def trailingCoder (s : Scalar) : CustomCoder s.type.Carrier where
  describe := "TrailingCoder"
  encode v := do
    s.standardCoder.encode v
    Sink.write [0xff]
  decode := s.standardCoder.decode

def coder (s : Scalar) : CoderName → Coder s.type
  | .standard => s.standardCoder
  | .serial d => s.serialCoder d
  | .bump n => .custom (s.bumpCoder n)
  | .picky => .custom s.pickyCoder
  | .trailing => .custom s.trailingCoder

end Scalar

def serialPairCoder (k v : Scalar) : Coder (.pair k.type v.type) :=
  .serial (k.ops.form.pair v.ops.form) false

end KeyedFlow.Sample
