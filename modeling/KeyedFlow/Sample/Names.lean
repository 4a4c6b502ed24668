import KeyedFlow.Sample.Coders
import KeyedFlow.Sample.Combiners

/-!
The names by which samples can be asked for. Some take a number after a colon.
-/

set_option autoImplicit false

namespace KeyedFlow.Sample

def argument? (name text : String) : Option Int64 :=
  match text.splitOn ":" with
  | [a, n] => if a = name then n.toInt?.map Int64.ofInt else none
  | _ => none

def Scalar.ofName? : String → Option Scalar
  | "i32" => some .int32
  | "i64" => some .int64
  | "u32" => some .uint32
  | "u64" => some .uint64
  | "f64" => some .binary64
  | "string" => some .string
  | "opaque" => some .sealedInt
  | _ => none

def KeyKind.ofName? : String → Option KeyKind
  | "string" => some .string
  | "i64" => some .int64
  | "opaque" => some .sealedInt
  | _ => none

/-- The types of the keys and values of a sample flow, not all of which go together. -/
def flowTypes? (key value : String) : Option (KeyKind × Scalar) := do
  let k ← KeyKind.ofName? key
  let v ← Scalar.ofName? value
  match k, v with
  | .string, .uint32 => none
  | .string, _ | .int64, .int64 | .sealedInt, .int64 | .sealedInt, .sealedInt => some (k, v)
  | _, _ => none

def CoderName.ofName? : String → Option CoderName
  | "std" => some .standard
  | "serde" => some (.serial false)
  | "serde_det" => some (.serial true)
  | "picky" => some .picky
  | "trailing" => some .trailing
  | text => (argument? "bump" text).map .bump

def Operator.ofName? : String → Option Operator
  | "add" => some .add
  | "mul" => some .mul
  | "min" => some .min
  | "max" => some .max
  | "left" => some .left
  | "right" => some .right
  | "affine" => some .affine
  | _ => none

def BatchFn.ofName? : String → Option BatchFn
  | "sum" => some .sum
  | "max" => some .max
  | "len" => some .length
  | "len_sum" => some .lengthAndSum
  | "paren" => some .parens
  | "sorted" => some .sortedChars
  | _ => none

def MapFn.ofName? : String → Option MapFn
  | "inc" => some .increment
  | "dbl" => some .double
  | text => (argument? "mod" text).map .remainder

def FilterFn.ofName? : String → Option FilterFn
  | "even" => some .even
  | "none" => some .nothing
  | "all" => some .everything
  | text => (argument? "gt" text).map .greaterThan

def FlatMapFn.ofName? : String → Option FlatMapFn
  | "none" => some .nothing
  | "twice" => some .twice
  | "rep" => some .repeated
  | _ => none

def CombinerName.ofName? {s : Scalar} : String → Option (CombinerName s)
  | "sum" => some .sum
  | "min" => some .min
  | "max" => some .max
  | "count" => some .count
  | "mean" => some .mean
  | "trace" => some .trace
  | "bag" => some .bag
  | "forgetful" => some .forgetful
  | "broken_out" => some .brokenOutput
  | "broken_acc" => some .brokenAccumulator
  | "own_message" => some .ownMessage
  | "lossy_compact" => some .lossyCompact
  | "odd_empty" => some .oddEmpty
  | "two_merge" => some .twoMerge
  | "odd_padding" => some .oddPadding
  | _ => none

def KeyedCombinerName.ofName? {s : Scalar} : String → Option (KeyedCombinerName s)
  | "weighted" => some .weighted
  | "labelled" => some .labelled
  | "ktrace" => some .trace
  | _ => none

structure AnyCoder where
  type : Ty
  coder : Coder type

structure AnyForm where
  type : Ty
  form : SerialForm type.Carrier

def AnyCoder.ofName? : String → Option AnyCoder
  | "varint" => some ⟨.uint32, .varint⟩
  | "bool" => some ⟨.bool, .bool⟩
  | "unit" => some ⟨.unit, .unit⟩
  | text => (Scalar.ofName? text).map fun s => ⟨s.type, s.standardCoder⟩

def AnyForm.ofName? : String → Option AnyForm
  | "bool" => some ⟨.bool, .bool⟩
  | "strings" => some ⟨.list .string, SerialForm.string.list⟩
  | "pair" => some ⟨.pair .string .uint64, SerialForm.string.pair SerialForm.uint64⟩
  | "option" => some ⟨.option .int64, SerialForm.int64.option⟩
  | "holder" => some ⟨.holder .int64, SerialForm.int64.holder⟩
  | "input_or_accum" =>
    some ⟨.inputOrAccum .int64 .string, SerialForm.int64.inputOrAccum SerialForm.string⟩
  | "window" => some ⟨.window, SerialForm.window⟩
  | "window_fn" => some ⟨.windowFn, SerialForm.windowFn⟩
  | "strategy" => some ⟨.strategy, SerialForm.strategy⟩
  | "windowed" => some ⟨.windowed .string, SerialForm.string.windowed⟩
  | "timestamped" => some ⟨.timestamped .int64, SerialForm.int64.timestamped⟩
  | text => (Scalar.ofName? text).map fun s => ⟨s.type, s.ops.form⟩

end KeyedFlow.Sample
