import KeyedFlow.Sample.Scalar

/-!
Sample functions on scalars, by name: operators, functions of a batch, and what element-wise
transforms need.
-/

set_option autoImplicit false

namespace KeyedFlow.Sample

inductive Operator where
  | add
  | mul
  | min
  | max
  | left
  | right
  /-- Adds its second operand to twice the first, and so is not associative. -/
  | affine
deriving DecidableEq, Repr

def Operator.apply (op : Operator) (s : Scalar) (a b : s.type.Carrier) : s.type.Carrier :=
  match op with
  | add => s.ops.plus a b
  | mul => s.ops.times a b
  | min => if s.le a b then a else b
  | max => if s.le b a then a else b
  | left => a
  | right => b
  | affine => s.ops.plus (s.ops.plus a a) b

inductive BatchFn where
  | sum
  | max
  | length
  | lengthAndSum
  | parens
  | sortedChars
deriving DecidableEq, Repr

namespace BatchFn

def sumFrom (s : Scalar) (a : s.type.Carrier) (xs : List s.type.Carrier) : s.type.Carrier :=
  xs.foldl s.ops.plus a

def lengthOf (s : Scalar) (xs : List s.type.Carrier) : s.type.Carrier :=
  s.ops.ofNum (Int64.ofNat xs.length)

/-- The greatest value, of equal ones the last. -/
def greatest (s : Scalar) : List s.type.Carrier → s.type.Carrier
  | [] => s.ops.zero
  | x :: xs => xs.foldl (fun a b => if s.le a b then b else a) x

def ofText (s : Scalar) (f : List String → String) (xs : List s.type.Carrier) : s.type.Carrier :=
  match s with
  | .string => f xs
  | s => s.ops.zero

def apply (f : BatchFn) (s : Scalar) (xs : List s.type.Carrier) : s.type.Carrier :=
  match f with
  | sum => sumFrom s s.ops.zero xs
  | max => greatest s xs
  | length => lengthOf s xs
  | lengthAndSum => sumFrom s (lengthOf s xs) xs
  | parens => ofText s (fun xs => "(" ++ String.intercalate "," xs ++ ")") xs
  | sortedChars =>
    ofText s (fun xs => String.ofList ((String.join xs).toList.mergeSort fun a b => a ≤ b)) xs

end BatchFn

inductive MapFn where
  | increment
  | double
  | remainder (m : Int64)
deriving DecidableEq, Repr

def MapFn.apply (f : MapFn) (s : Scalar) (a : s.type.Carrier) : s.type.Carrier :=
  match f with
  | increment => s.bump 1 a
  | double => s.ops.plus a a
  | remainder m => s.ops.ofNum (s.remainder m a)

inductive FilterFn where
  | even
  | nothing
  | everything
  | greaterThan (n : Int64)
deriving DecidableEq, Repr

def FilterFn.apply (f : FilterFn) (s : Scalar) (a : s.type.Carrier) : Bool :=
  match f with
  | even => s.remainder 2 a == 0
  | nothing => false
  | everything => true
  | greaterThan n => n < s.ops.num a

inductive FlatMapFn where
  | nothing
  | twice
  | repeated
deriving DecidableEq, Repr

def FlatMapFn.apply (f : FlatMapFn) (s : Scalar) (a : s.type.Carrier) : List s.type.Carrier :=
  match f with
  | nothing => []
  | twice => [a, s.bump 1 a]
  | repeated => List.replicate (s.remainder 4 a).toInt.toNat a

inductive KeyKind where
  | string
  | int64
  | sealedInt
deriving DecidableEq, Repr

namespace KeyKind

@[reducible] def scalar : KeyKind → Scalar
  | string => .string
  | int64 => .int64
  | sealedInt => .sealedInt

@[reducible] def type (k : KeyKind) : Ty := k.scalar.type

instance : KeyBytes SealedInt := ⟨fun a => KeyBytes.bytes a.value⟩

instance : (k : KeyKind) → DecidableEq k.type.Carrier
  | string => inferInstanceAs (DecidableEq String)
  | int64 => inferInstanceAs (DecidableEq Int64)
  | sealedInt => inferInstanceAs (DecidableEq SealedInt)

instance : (k : KeyKind) → KeyBytes k.type.Carrier
  | string => inferInstanceAs (KeyBytes String)
  | int64 => inferInstanceAs (KeyBytes Int64)
  | sealedInt => inferInstanceAs (KeyBytes SealedInt)

def ofNum (n : Int64) : (k : KeyKind) → k.type.Carrier
  | string => s!"k{n.toInt}"
  | int64 => n
  | sealedInt => ⟨n⟩

end KeyKind
end KeyedFlow.Sample
