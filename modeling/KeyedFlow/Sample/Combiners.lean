import KeyedFlow.Combiner.Accumulating
import KeyedFlow.Combiner.Arithmetic
import KeyedFlow.Combiner.Buffered
import KeyedFlow.Combiner.Operator
import KeyedFlow.Sample.Functions

/-!
Sample combiners: those of the library over scalars, one that writes down every operation it is
asked for, bags, and counts that break one law of the algebra each or lack a coder. Keyed samples
look at the key, the window or a side input.
-/

set_option autoImplicit false

namespace KeyedFlow.Sample

def combinerName : String := "<combiner>"

namespace Combiners

def checkedAdd : (s : Scalar) → s.type.Carrier → s.type.Carrier → Checked s.type.Carrier
  | .int32 => fun a b => Word.add (α := Int32) a b
  | .int64 => fun a b => Word.add (α := Int64) a b
  | .uint32 => fun a b => Word.add (α := UInt32) a b
  | .uint64 => fun a b => Word.add (α := UInt64) a b
  | s => fun a b => .ok (s.ops.plus a b)

def toNumber : (s : Scalar) → s.type.Carrier → Binary64
  | .uint32 => fun a => Binary64.ofNat a.toNat
  | .uint64 => fun a => Binary64.ofNat a.toNat
  | .binary64 => fun a => a
  | s => fun a => Binary64.ofInt (s.ops.num a).toInt

/-- Writes down what was done to its accumulators. -/
def trace (s : Scalar) : Combiner s.type .string .string where
  name := combinerName
  create := ""
  add a v := .ok (a ++ "+" ++ s.ops.text v)
  merge as := .ok (if as.isEmpty then "" else "m(" ++ String.intercalate "|" as ++ ")")
  extract a := .ok ("x(" ++ a ++ ")")
  compact a := .ok ("k(" ++ a ++ ")")

def bagAccumulator (α : Type) : Combiner.Accumulator α (Bag α) (List α × UInt32) where
  empty := ⟨[], 0⟩
  absorb b v := { b with values := b.values ++ [v] }
  mergeWith a b := ⟨a.values ++ b.values, a.merges + b.merges + 1⟩
  output b := (b.values, b.merges)

def bag : (s : Scalar) → Combiner s.type (.own (.bag s)) (.pair (.list s.type) .uint32)
  | .int32 => .accumulating _ _ _ (bagAccumulator Int32)
  | .int64 => .accumulating _ _ _ (bagAccumulator Int64)
  | .uint32 => .accumulating _ _ _ (bagAccumulator UInt32)
  | .uint64 => .accumulating _ _ _ (bagAccumulator UInt64)
  | .binary64 => .accumulating _ _ _ (bagAccumulator Binary64)
  | .string => .accumulating _ _ _ (bagAccumulator String)
  | .sealedInt => .accumulating _ _ _ (bagAccumulator SealedInt)

def tally (ι : Ty) : Combiner ι .uint64 .uint64 where
  name := combinerName
  create := (0 : UInt64)
  add a _ := Word.add a 1
  merge as := as.foldlM Word.add (0 : UInt64)
  extract := .ok

/-- Merging forgets all accumulators but the first. -/
def forgetful (ι : Ty) : Combiner ι .uint64 .uint64 :=
  { tally ι with merge := fun as => .ok (as.head?.getD 0) }

def brokenCoder {τ : Ty} : Except CoderError (Coder τ) := .error (.nonDeterministic "Broken" "test")

def brokenOutput (ι : Ty) : Combiner ι .uint64 .uint64 :=
  { tally ι with outputCoder := fun _ _ => brokenCoder }

def brokenAccumulator (ι : Ty) : Combiner ι .uint64 .uint64 :=
  { tally ι with accumulatorCoder := fun _ _ => brokenCoder }

def ownMessage (ι : Ty) : Combiner ι .uint64 .uint64 :=
  { tally ι with advice? := some "tally needs the global window" }

def lossyCompact (ι : Ty) : Combiner ι .uint64 .uint64 :=
  { tally ι with compact := fun _ => .ok 0 }

/-- The merge of nothing is not a fresh accumulator. -/
def oddEmpty (ι : Ty) : Combiner ι .uint64 .uint64 :=
  { tally ι with
    merge := fun as => if as.isEmpty then .ok 7 else as.foldlM Word.add (0 : UInt64) }

/-- Only the first two accumulators are merged. -/
def twoMerge (ι : Ty) : Combiner ι .uint64 .uint64 :=
  { tally ι with merge := fun as => (as.take 2).foldlM Word.add (0 : UInt64) }

/-- The merge of three accumulators goes wrong when the last of them is empty. -/
def oddPadding (ι : Ty) : Combiner ι .uint64 .uint64 :=
  { tally ι with
    merge := fun as =>
      match as with
      | [_, _, 0] => .ok 99
      | as => as.foldlM Word.add (0 : UInt64) }

end Combiners

inductive CombinerName (s : Scalar) where
  | sum
  | min
  | max
  | count
  | mean
  | operator (op : Operator) (identity : Option s.type.Carrier)
  | scalar (op : Operator) (identity : s.type.Carrier)
  | buffered (f : BatchFn) (bufferSize : Option Nat)
  | trace
  | bag
  | forgetful
  | brokenOutput
  | brokenAccumulator
  | ownMessage
  | lossyCompact
  | oddEmpty
  | twoMerge
  | oddPadding

structure AnyCombiner (ι : Ty) where
  accumulator : Ty
  output : Ty
  combiner : Combiner ι accumulator output

namespace CombinerName
open Combiners

def build {s : Scalar} (n : CombinerName s) : AnyCombiner s.type :=
  let any {α ω : Ty} (c : Combiner s.type α ω) : AnyCombiner s.type := ⟨α, ω, c.named combinerName⟩
  match n with
  | sum => any (.sum s.type s.ops.zero (checkedAdd s))
  | min => any (.min s.type s.le)
  | max => any (.max s.type s.le)
  | count => any (.count s.type)
  | mean => any (.mean s.type (toNumber s))
  | operator op identity => any (.operator s.type (op.apply s) identity)
  | scalar op identity => any (.scalar s.type (op.apply s) identity)
  | buffered f size =>
    any (.buffered s.type (fun xs => .ok (f.apply s xs)) (size.getD Combiner.defaultBufferSize))
  | trace => any (Combiners.trace s)
  | bag => any (Combiners.bag s)
  | forgetful => any (Combiners.forgetful s.type)
  | brokenOutput => any (Combiners.brokenOutput s.type)
  | brokenAccumulator => any (Combiners.brokenAccumulator s.type)
  | ownMessage => any (Combiners.ownMessage s.type)
  | lossyCompact => any (Combiners.lossyCompact s.type)
  | oddEmpty => any (Combiners.oddEmpty s.type)
  | twoMerge => any (Combiners.twoMerge s.type)
  | oddPadding => any (Combiners.oddPadding s.type)

end CombinerName

namespace KeyedCombiners
variable (k : KeyKind) (s : Scalar)

/-- Every value counts as often as the number of the key says. -/
def weighted : KeyedCombiner k.type s.type .int64 .int64 where
  name := combinerName
  create _ _ := (0 : Int64)
  add key _ a v := .ok (Word.wrappingAdd a (Word.wrappingMul (k.scalar.ops.num key) (s.ops.num v)))
  merge _ _ as := .ok (as.foldl Word.wrappingAdd (0 : Int64))
  extract _ _ := .ok

/-- The sum of the values that reach a threshold, which is the first value of a side input. -/
def sumAbove (side : SideInput (B := Own) .int64) : KeyedCombiner k.type s.type .int64 .int64 where
  name := combinerName
  create _ _ := (0 : Int64)
  add _ ctx a v :=
    let threshold := ((ctx.sideInput? side).getD []).head?.getD (0 : Int64)
    .ok (if threshold ≤ s.ops.num v then Word.wrappingAdd a (s.ops.num v) else a)
  merge _ _ as := .ok (as.foldl Word.wrappingAdd (0 : Int64))
  extract _ _ := .ok

def labelled : KeyedCombiner k.type s.type (.list .string) .string where
  name := combinerName
  create _ _ := []
  add _ _ a v := .ok (a ++ [s.ops.text v])
  merge _ _ as := .ok as.flatten
  extract key ctx a :=
    .ok (s!"{k.scalar.ops.text key}@{ctx.window.text}:" ++ String.intercalate "," a)

/-- Writes down what was done to its accumulators, with the key in every step. -/
def trace : KeyedCombiner k.type s.type .string .string where
  name := combinerName
  create key _ := k.scalar.ops.text key
  add key _ a v := .ok (a ++ "+" ++ k.scalar.ops.text key ++ "." ++ s.ops.text v)
  merge key _ as :=
    let key := k.scalar.ops.text key
    .ok (if as.isEmpty then key else "m" ++ key ++ "(" ++ String.intercalate "|" as ++ ")")
  extract key ctx a := .ok s!"x{k.scalar.ops.text key}@{ctx.window.text}({a})"
  compact key _ a := .ok s!"k{k.scalar.ops.text key}({a})"

end KeyedCombiners

inductive KeyedCombinerName (s : Scalar) where
  | weighted
  | sumAbove (side : SideInput (B := Own) .int64)
  | labelled
  | trace
  | unkeyed (n : CombinerName s)

structure AnyKeyedCombiner (κ ι : Ty) where
  accumulator : Ty
  output : Ty
  combiner : KeyedCombiner κ ι accumulator output

def KeyedCombinerName.build {s : Scalar} (n : KeyedCombinerName s) (k : KeyKind) :
    AnyKeyedCombiner k.type s.type :=
  match n with
  | weighted => ⟨_, _, KeyedCombiners.weighted k s⟩
  | sumAbove side => ⟨_, _, KeyedCombiners.sumAbove k s side⟩
  | labelled => ⟨_, _, KeyedCombiners.labelled k s⟩
  | trace => ⟨_, _, KeyedCombiners.trace k s⟩
  | unkeyed n => ⟨_, _, n.build.combiner.keyed k.type⟩

end KeyedFlow.Sample
