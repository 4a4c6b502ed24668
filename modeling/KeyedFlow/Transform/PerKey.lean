import KeyedFlow.Transform.FanOut

/-!
The combine of each key: a grouping followed by the combine of grouped values. Two options spread
the load differently. Lifting combines every bundle before the grouping; a spread of keys combines
the shards of hot keys first, and takes precedence over lifting.
-/

set_option autoImplicit false

namespace KeyedFlow
variable {B : Type} [TypeFamily B]

structure PerKey {B : Type} [TypeFamily B] (κ ι α ω : ElemType B) where
  combiner : KeyedCombiner κ ι α ω
  sides : SideInputs B := SideInputs.none
  /-- A hint that there are few distinct keys. -/
  fewKeys : Bool := false
  lifting : Bool := false
  spread : Option (Spread κ.Carrier) := none
  seed : ShardSeed := fun _ => 0

namespace PerKey
variable {κ ι α ω : ElemType B}

def hasFanout (t : PerKey κ ι α ω) : Bool := t.spread.isSome

def withSideInput (t : PerKey κ ι α ω) {τ : ElemType B} (i : SideInput τ) : PerKey κ ι α ω :=
  { t with sides := t.sides.and i }

variable [DecidableEq κ.Carrier] [KeyBytes κ.Carrier]

def expandDirect (t : PerKey κ ι α ω) (c : Collection (.pair κ ι)) :
    Build B (Collection (.pair κ ω)) := do
  let grouped ← Build.extend <| c.groupByKey ⟨t.fewKeys, none⟩
  GroupedValues.expand ⟨t.combiner, t.sides⟩ grouped

def expandLifted (t : PerKey κ ι α ω) (c : Collection (.pair κ ι)) :
    Build B (Collection (.pair κ ω)) := do
  let p ← get
  let inputCoder := c.valueCoder?.orElse fun _ => p.coders.find? ι
  let accumCoder := t.combiner.accumulatorCoder p.coders c.keyCoder? inputCoder
  let unionCoder := do
    let i ← inputCoder
    let a ← accumCoder.toOption
    some (Coder.inputOrAccum i a)
  let partials ← Build.extend <|
    c.mapBundle (.pair κ (.inputOrAccum ι α)) fun _ xs => Lifting.combineBundle t.combiner t.sides xs
  let grouped ← Build.extend <| partials.groupByKey ⟨t.fewKeys, unionCoder⟩
  GroupedValues.expand ⟨t.combiner.finish, t.sides⟩ grouped

def expand (t : PerKey κ ι α ω) (c : Collection (.pair κ ι)) : Build B (Collection (.pair κ ω)) :=
  match t.spread with
  | some spread => FanOut.expand t.combiner spread t.seed t.sides t.fewKeys c
  | none => if t.lifting then t.expandLifted c else t.expandDirect c

def transform (t : PerKey κ ι α ω) : Transform (.pair κ ι) (.pair κ ω) where
  name := s!"Combine.PerKey({t.combiner.name})"
  details := [
    ("combine_fn", .text t.combiner.name),
    ("few_keys", .flag t.fewKeys),
    ("combiner_lifting", .flag t.lifting),
    ("hot_key_fanout", .flag t.hasFanout),
    ("side_inputs", .count t.sides.size)]
  expand := t.expand

end PerKey
end KeyedFlow
