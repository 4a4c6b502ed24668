import KeyedFlow.Combiner.Basic

/-!
Combiners whose accumulators carry the combining logic themselves: an accumulator absorbs inputs
and other accumulators one at a time, starting from an empty one.
-/

set_option autoImplicit false

namespace KeyedFlow.Combiner
variable {B : Type} [TypeFamily B]

structure Accumulator (ι α ω : Type) where
  empty : α
  absorb : α → ι → α
  mergeWith : α → α → α
  output : α → ω

def accumulating (ι α ω : ElemType B) (acc : Accumulator ι.Carrier α.Carrier ω.Carrier) :
    Combiner ι α ω where
  name := s!"AccumulatingCombineFn<{α.typeName}>"
  create := acc.empty
  add a v := .ok (acc.absorb a v)
  merge as := .ok (as.foldl acc.mergeWith acc.empty)
  extract a := .ok (acc.output a)

end KeyedFlow.Combiner
