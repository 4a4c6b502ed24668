import KeyedFlow.Transform.Partials

/-!
Hot-key fan-out. A key whose spread is two or more has its records numbered into shards, which are
grouped and combined on their own; the partial accumulators are then flattened with the untouched
records of all other keys and finished together. Shards are numbered by a counter that every
bundle starts at a seed of its own and that wraps around, taken modulo the spread of the key. The
shard stage never accumulates fired panes, whatever the mode of the input.
-/

set_option autoImplicit false

namespace KeyedFlow
variable {B : Type} [TypeFamily B]

/-- The number of shards of each key; keys with fewer than two are not hot. -/
abbrev Spread (κ : Type) := κ → Nat

/-- The spread given for some keys, the first entry of a key counting, and that of all others. -/
def Spread.ofList {κ : Type} [DecidableEq κ] (entries : List (κ × Nat)) (other : Nat) : Spread κ :=
  fun k => ((entries.find? fun e => e.1 = k).map Prod.snd).getD other

/-- Where the counter of each bundle starts, by the place of the bundle. -/
abbrev ShardSeed := Nat → UInt64

namespace FanOut
variable {κ ι α ω : ElemType B}

/-- Split one bundle into hot and cold records, in order, the counter standing at `counter`. -/
def split {κ ι : Type} (spread : Spread κ) :
    UInt64 → List (Windowed (κ × ι)) → List (Windowed (Routed κ ι))
  | _, [] => []
  | counter, w :: ws =>
    let n := spread w.value.1
    if n ≤ 1 then
      w.withValue (.cold w.value.1 w.value.2) :: split spread counter ws
    else
      let shard := UInt32.ofNat (counter.toNat % n)
      w.withValue (.hot w.value.1 shard w.value.2) :: split spread (counter + 1) ws

def hotRecord {κ ι : Type} : Routed κ ι → List ((κ × UInt32) × ι)
  | .hot k s v => [((k, s), v)]
  | .cold _ _ => []

def coldRecord {κ ι : Type} (α : Type) : Routed κ ι → List (κ × InputOrAccum ι α)
  | .hot _ _ _ => []
  | .cold k v => [(k, .input v)]

/-- The combiner is run through the shards of hot keys. The accumulator coder has to be known
before any node is added. -/
def expand [DecidableEq κ.Carrier] [KeyBytes κ.Carrier] (comb : KeyedCombiner κ ι α ω)
    (spread : Spread κ.Carrier) (seed : ShardSeed) (sides : SideInputs B) (fewKeys : Bool)
    (c : Collection (.pair κ ι)) : Build B (Collection (.pair κ ω)) := do
  let p ← get
  let keyCoder := c.keyCoder?.orElse fun _ => p.coders.find? κ
  let inputCoder := c.valueCoder?.orElse fun _ => p.coders.find? ι
  let accumCoder ←
    match comb.accumulatorCoder p.coders keyCoder inputCoder with
    | .ok a => pure a
    | .error e => throw (.combine (.accumulatorCoder e))
  let routed ← Build.extend <|
    c.mapBundle (.routed κ ι) fun i xs => .ok (split spread (seed i) xs)
  let hot ← Build.extend <| routed.flatMap (.pair (.pair κ .uint32) ι) fun r => .ok (hotRecord r)
  let hotCoder := do
    let k ← keyCoder
    let i ← inputCoder
    some (Coder.pair (k.pair .varint) i)
  let hot := (hot.withAccumulationMode .discarding).setCoder? hotCoder
  let grouped ← Build.extend <| hot.groupByKey ⟨false, inputCoder⟩
  let combined ← GroupedValues.expand ⟨comb.shard, sides⟩ grouped
  let partials ← Build.extend <|
    combined.map (.pair κ (.inputOrAccum ι α)) fun e => .ok (e.1.1, .accum e.2)
  let cold ← Build.extend <|
    routed.flatMap (.pair κ (.inputOrAccum ι α)) fun r => .ok (coldRecord α.Carrier r)
  let all ← Collection.flatten [partials.withStrategy c.strategy, cold]
  let unionCoder := inputCoder.map fun i => i.inputOrAccum accumCoder
  let grouped ← Build.extend <| all.groupByKey ⟨fewKeys, unionCoder⟩
  GroupedValues.expand ⟨comb.finish, sides⟩ grouped

end FanOut
end KeyedFlow
