import KeyedFlow.Transform.Basic

/-!
The combine of values that are already grouped. For every record the side inputs are resolved for
its window, all values are added to a fresh accumulator, and the output takes the place of the
values, at the end of the window.
-/

set_option autoImplicit false

namespace KeyedFlow
variable {B : Type} [TypeFamily B]

structure GroupedValues {B : Type} [TypeFamily B] (κ ι α ω : ElemType B) where
  combiner : KeyedCombiner κ ι α ω
  sides : SideInputs B := SideInputs.none

namespace GroupedValues
variable {κ ι α ω : ElemType B}

def withSideInput (g : GroupedValues κ ι α ω) {τ : ElemType B} (i : SideInput τ) :
    GroupedValues κ ι α ω := { g with sides := g.sides.and i }

def record (g : GroupedValues κ ι α ω) (w : Windowed (κ.Carrier × List ι.Carrier)) :
    Checked (Windowed (κ.Carrier × ω.Carrier)) := do
  let ctx := g.sides.resolve w.window
  let out ← g.combiner.apply w.value.1 ctx w.value.2
  let ts ← w.window.maxTimestamp
  .ok ⟨(w.value.1, out), ts, w.window⟩

def expand (g : GroupedValues κ ι α ω) (c : Collection (.pair κ (.list ι))) :
    Build B (Collection (.pair κ ω)) := do
  let p ← get
  let inputCoder := c.valueCoder?.bind Coder.elem?
  let outputCoder := g.combiner.outputCoder p.coders c.keyCoder? inputCoder
  let keyCoder := inputOrRegistered p.coders κ c.keyCoder?
  let out ← Build.extend (c.mapWindowed (.pair κ ω) g.record)
  Build.ofExcept (bindPairCoder out keyCoder outputCoder)

def transform (g : GroupedValues κ ι α ω) : Transform (.pair κ (.list ι)) (.pair κ ω) where
  name := s!"Combine.GroupedValues({g.combiner.name})"
  details := [("combine_fn", .text g.combiner.name), ("side_inputs", .count g.sides.size)]
  expand := g.expand

end GroupedValues
end KeyedFlow
