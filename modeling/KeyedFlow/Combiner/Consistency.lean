import KeyedFlow.Combiner.Basic

/-!
Consistency of combiners. A combiner is consistent on some inputs when it gives the same output
however they are split, merged and compacted, and its default value for the merge of nothing.
-/

set_option autoImplicit false

namespace KeyedFlow

/-- What a combiner's outputs were found to depend on. -/
inductive Inconsistency where
  | split (place : Nat)
  | singles
  | compaction
  | emptyAccumulators
  | noAccumulators
  | fault (f : Fault)
deriving DecidableEq, Repr

def Inconsistency.message : Inconsistency → String
  | split n => s!"merge of a split at {n} differs from a single pass"
  | singles => "merge of one accumulator per input differs"
  | compaction => "compaction changed the output"
  | emptyAccumulators => "merging empty accumulators changed the output"
  | noAccumulators => "merging no accumulators differs from the default value"
  | fault f => f.message

namespace Combiner
variable {B : Type} [TypeFamily B] {ι α ω : ElemType B}

def sameOutput (eq : ω.Carrier → ω.Carrier → Bool) (why : Inconsistency) (expected : ω.Carrier)
    (got : Checked ω.Carrier) : Except Inconsistency Unit :=
  match got with
  | .error f => .error (.fault f)
  | .ok o => if eq o expected then .ok () else .error why

/-- The merge of the two halves of `xs` that meet at `n`. -/
def splitOutput (c : Combiner ι α ω) (xs : List ι.Carrier) (n : Nat) : Checked ω.Carrier := do
  let l ← c.fold (xs.take n)
  let r ← c.fold (xs.drop n)
  let a ← c.merge [l, r]
  c.extract a

def singlesOutput (c : Combiner ι α ω) (xs : List ι.Carrier) : Checked ω.Carrier := do
  let as ← xs.mapM fun x => c.fold [x]
  let a ← c.merge as
  c.extract a

def compactedOutput (c : Combiner ι α ω) (xs : List ι.Carrier) : Checked ω.Carrier := do
  let a ← xs.foldlM
    (fun a x => do
      let a ← c.compact a
      let a ← c.add a x
      c.compact a)
    c.create
  c.extract a

def paddedOutput (c : Combiner ι α ω) (xs : List ι.Carrier) : Checked ω.Carrier := do
  let m ← c.fold xs
  let a ← c.merge [c.create, m, c.create]
  c.extract a

def emptyMergeOutput (c : Combiner ι α ω) : Checked ω.Carrier := do
  let a ← c.merge []
  c.extract a

/-- The same output for a single pass over `xs`, for every split of it in two, for one accumulator
per input, with compaction at every step and with empty accumulators mixed in; and the default
value for the merge of nothing. -/
def checkConsistent (c : Combiner ι α ω) (eq : ω.Carrier → ω.Carrier → Bool)
    (xs : List ι.Carrier) : Except Inconsistency Unit :=
  match c.apply xs with
  | .error f => .error (.fault f)
  | .ok expected => do
    (List.range (xs.length + 1)).forM fun n =>
      sameOutput eq (.split n) expected (c.splitOutput xs n)
    sameOutput eq .singles expected (c.singlesOutput xs)
    sameOutput eq .compaction expected (c.compactedOutput xs)
    sameOutput eq .emptyAccumulators expected (c.paddedOutput xs)
    match c.emptyMergeOutput, c.default with
    | .error f, _ => .error (.fault f)
    | .ok _, .error f => .error (.fault f)
    | .ok o, .ok d => if eq o d then .ok () else .error .noAccumulators

end Combiner
end KeyedFlow
