import KeyedFlow.Transform.Globally

/-!
The usual combines as operations of collections.
-/

set_option autoImplicit false

namespace KeyedFlow.Collection
variable {B : Type} [TypeFamily B] {κ ι α ω : ElemType B}

/-- Combine the values of each key. -/
def combineValues [DecidableEq κ.Carrier] [KeyBytes κ.Carrier] (c : Collection (.pair κ ι))
    (comb : Combiner ι α ω) : Build B (Collection (.pair κ ω)) :=
  c.apply (PerKey.transform { combiner := comb.keyed κ })

/-- Combine the values of each key, every bundle in advance. -/
def combineValuesLifted [DecidableEq κ.Carrier] [KeyBytes κ.Carrier] (c : Collection (.pair κ ι))
    (comb : Combiner ι α ω) : Build B (Collection (.pair κ ω)) :=
  c.apply (PerKey.transform { combiner := comb.keyed κ, lifting := true })

/-- Combine values that are grouped already. -/
def combineGrouped (c : Collection (.pair κ (.list ι))) (comb : Combiner ι α ω) :
    Build B (Collection (.pair κ ω)) :=
  c.apply (GroupedValues.transform { combiner := comb.keyed κ })

/-- Combine all elements, over some shards first when their number is given. -/
def combineGlobally (c : Collection ι) (comb : Combiner ι α ω) (fanout : Option Nat) :
    Build B (Collection ω) :=
  c.apply (Globally.transform { combiner := comb, fanout := fanout.getD 0 })

end KeyedFlow.Collection
