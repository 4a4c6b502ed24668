import KeyedFlow.Combiner.Basic

/-!
Arithmetic combiners: the sum of values, the least and the greatest value, the number of inputs
and their mean. Sums and counts of machine integers are checked at every step.
-/

set_option autoImplicit false

namespace KeyedFlow.Combiner
variable {B : Type} [TypeFamily B]

def sum (τ : ElemType B) (zero : τ.Carrier) (add : τ.Carrier → τ.Carrier → Checked τ.Carrier) :
    Combiner τ τ τ where
  name := s!"Sum<{τ.typeName}>"
  create := zero
  add := add
  merge as := as.foldlM add zero
  extract := .ok
  accumulatorCoder r i := inputOrRegistered r τ i
  outputCoder r i := inputOrRegistered r τ i

/-- Of two present values the one that is preferred, else the one that is present. -/
def preferred {α : Type} (keepLeft : α → α → Bool) : Option α → Option α → Option α
  | some a, some b => some (if keepLeft a b then a else b)
  | a, none => a
  | none, b => b

/-- The value preferred over all others, nothing when there are no inputs. -/
def extreme (name : String) (τ : ElemType B) (keepLeft : τ.Carrier → τ.Carrier → Bool) :
    Combiner τ (.option τ) (.option τ) where
  name := name
  create := none
  add a v := .ok (preferred keepLeft a (some v))
  merge as := .ok (as.foldl (preferred keepLeft) none)
  extract := .ok
  accumulatorCoder r i := do
    let c ← inputOrRegistered r τ i
    .ok c.option
  outputCoder r i := do
    let c ← inputOrRegistered r τ i
    .ok c.option

/-- The least value; of equal ones the first. -/
def min (τ : ElemType B) (le : τ.Carrier → τ.Carrier → Bool) : Combiner τ (.option τ) (.option τ) :=
  extreme s!"Min<{τ.typeName}>" τ le

/-- The greatest value; of equal ones the first. -/
def max (τ : ElemType B) (le : τ.Carrier → τ.Carrier → Bool) : Combiner τ (.option τ) (.option τ) :=
  extreme s!"Max<{τ.typeName}>" τ fun a b => le b a

def count (ι : ElemType B) : Combiner ι .uint64 .uint64 where
  name := "Count"
  create := (0 : UInt64)
  add a _ := Word.add a 1
  merge as := as.foldlM Word.add (0 : UInt64)
  extract := .ok
  accumulatorCoder _ _ := .ok .uint64
  outputCoder _ _ := .ok .uint64

/-- The mean of the numbers that `toNumber` gives, zero when there are no inputs. -/
def mean (ι : ElemType B) (toNumber : ι.Carrier → Binary64) :
    Combiner ι (.pair .binary64 .uint64) .binary64 where
  name := "Mean"
  create := (Binary64.zero, (0 : UInt64))
  add a v := do
    let n ← Word.add a.2 1
    .ok (a.1.add (toNumber v), n)
  merge as := as.foldlM
    (fun a b => do
      let n ← Word.add a.2 b.2
      .ok (a.1.add b.1, n))
    (Binary64.zero, (0 : UInt64))
  extract a := .ok (if a.2 = 0 then Binary64.zero else a.1.div (Binary64.ofNat a.2.toNat))
  accumulatorCoder _ _ := .ok (.pair .binary64 .uint64)
  outputCoder _ _ := .ok .binary64

end KeyedFlow.Combiner
