import KeyedFlow.Collection.Grouping
import KeyedFlow.Transform.GroupedValues

/-!
Combining in two stages. Partial accumulators made elsewhere are finished by a combiner that takes
raw inputs and partials alike: an input is added, a partial is merged. Two transforms make
partials. The shard stage of hot keys combines the records of one shard and emits the compacted
accumulator; lifting combines every bundle before the grouping, to one compacted accumulator per
key and window.
-/

set_option autoImplicit false

namespace KeyedFlow
variable {B : Type} [TypeFamily B]

namespace KeyedCombiner
variable {κ ι α ω : ElemType B}

/-- The combiner of one shard of a key, whose output is the accumulator itself. -/
def shard (c : KeyedCombiner κ ι α ω) : KeyedCombiner (.pair κ .uint32) ι α α where
  name := s!"PreCombine({c.name})"
  create k ctx := c.create k.1 ctx
  add k ctx := c.add k.1 ctx
  merge k ctx := c.merge k.1 ctx
  extract k ctx := c.compact k.1 ctx
  compact k ctx := c.compact k.1 ctx

/-- The combiner over raw inputs and partial accumulators of the same key. -/
def finish (c : KeyedCombiner κ ι α ω) : KeyedCombiner κ (.inputOrAccum ι α) α ω where
  name := s!"PostCombine({c.name})"
  create := c.create
  add k ctx a x :=
    match x with
    | .input i => c.add k ctx a i
    | .accum b => c.merge k ctx [a, b]
  merge := c.merge
  extract := c.extract
  compact := c.compact
  accumulatorCoder r k u := c.accumulatorCoder r k (u.bind Coder.input?)
  outputCoder r k u := c.outputCoder r k (u.bind Coder.input?)

end KeyedCombiner

/-- Accumulators by key, each key occurring once, in order of first arrival. -/
abbrev Partials (κ α : Type) := List (κ × α)

namespace Partials
variable {κ α : Type} [DecidableEq κ]

def update (k : κ) (fresh : α) (f : α → Checked α) : Partials κ α → Checked (Partials κ α)
  | [] => do
    let a ← f fresh
    .ok [(k, a)]
  | (j, a) :: rest =>
    if j = k then do
      let b ← f a
      .ok ((j, b) :: rest)
    else do
      let rest ← update k fresh f rest
      .ok ((j, a) :: rest)

end Partials

namespace Lifting
variable {κ ι α ω : ElemType B} [DecidableEq κ.Carrier]

def absorb (c : KeyedCombiner κ ι α ω) (sides : SideInputs B)
    (accs : Partials (κ.Carrier × Window) α.Carrier) (w : Windowed (κ.Carrier × ι.Carrier)) :
    Checked (Partials (κ.Carrier × Window) α.Carrier) :=
  let ctx := sides.resolve w.window
  accs.update (w.value.1, w.window) (c.create w.value.1 ctx) fun a =>
    c.add w.value.1 ctx a w.value.2

/-- The compacted accumulator of one key and window, as a record at the end of the window. -/
def emit (c : KeyedCombiner κ ι α ω) (sides : SideInputs B)
    (e : (κ.Carrier × Window) × α.Carrier) :
    Checked (Windowed (κ.Carrier × InputOrAccum ι.Carrier α.Carrier)) := do
  let a ← c.compact e.1.1 (sides.resolve e.1.2) e.2
  let ts ← e.1.2.maxTimestamp
  .ok ⟨(e.1.1, .accum a), ts, e.1.2⟩

def combineBundle (c : KeyedCombiner κ ι α ω) (sides : SideInputs B)
    (bundle : List (Windowed (κ.Carrier × ι.Carrier))) :
    Checked (List (Windowed (κ.Carrier × InputOrAccum ι.Carrier α.Carrier))) := do
  let accs ← bundle.foldlM (absorb c sides) []
  accs.mapM (emit c sides)

end Lifting
end KeyedFlow
