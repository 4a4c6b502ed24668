import KeyedFlow.Sample.Scalar

/-!
The order by which results are sorted when the order of their arrival means nothing: components
from left to right, a beginning of a list before the list, and what is absent before what is
present. Elements in flight are ordered by window first. Types that are never results have no
order, and sorting leaves them as they are.
-/

set_option autoImplicit false

namespace KeyedFlow.Sample

def compareOption {α : Type} (compare : α → α → Ordering) : Option α → Option α → Ordering
  | none, none => .eq
  | none, some _ => .lt
  | some _, none => .gt
  | some a, some b => compare a b

def compareWindowed {α : Type} (compare : α → α → Ordering) (a b : Windowed α) : Ordering :=
  ((a.window.compare b.window).then (compare a.value b.value)).then
    (Ord.compare a.timestamp.toInt b.timestamp.toInt)

def compareElems : (τ : Ty) → τ.Carrier → τ.Carrier → Ordering
  | .int32 => Scalar.int32.ops.compare
  | .int64 => Scalar.int64.ops.compare
  | .uint32 => Scalar.uint32.ops.compare
  | .uint64 => Scalar.uint64.ops.compare
  | .binary64 => Scalar.binary64.ops.compare
  | .string => Scalar.string.ops.compare
  | .own .sealedInt => Scalar.sealedInt.ops.compare
  | .own (.bag s) => fun a b =>
    (List.compareLex (bagValues s) a.values b.values).then (Ord.compare a.merges b.merges)
  | .bool => fun a b => Ord.compare a b
  | .unit => fun _ _ => .eq
  | .pair σ τ => fun a b => (compareElems σ a.1 b.1).then (compareElems τ a.2 b.2)
  | .list τ => List.compareLex (compareElems τ)
  | .option τ => compareOption (compareElems τ)
  | .holder τ => fun a b => compareOption (compareElems τ) a.value? b.value?
  | .inputOrAccum ι α => fun a b =>
    match a, b with
    | .input i, .input j => compareElems ι i j
    | .input _, .accum _ => .lt
    | .accum _, .input _ => .gt
    | .accum x, .accum y => compareElems α x y
  | .window => Window.compare
  | .windowed τ => compareWindowed (compareElems τ)
  | .timestamped τ => fun a b =>
    (Ord.compare a.timestamp.toInt b.timestamp.toInt).then (compareElems τ a.value b.value)
  | .windowFn | .strategy | .routed _ _ | .slot _ => fun _ _ => .eq
where
  bagValues : (s : Scalar) → s.Val → s.Val → Ordering
    | .int32 => Scalar.int32.ops.compare
    | .int64 => Scalar.int64.ops.compare
    | .uint32 => Scalar.uint32.ops.compare
    | .uint64 => Scalar.uint64.ops.compare
    | .binary64 => Scalar.binary64.ops.compare
    | .string => Scalar.string.ops.compare
    | .sealedInt => Scalar.sealedInt.ops.compare

def sortedElems (τ : Ty) (xs : List τ.Carrier) : List τ.Carrier :=
  xs.mergeSort fun a b => compareElems τ a b != .gt

end KeyedFlow.Sample
