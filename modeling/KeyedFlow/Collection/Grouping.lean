import KeyedFlow.Collection.Keyed
import KeyedFlow.Groups
import KeyedFlow.KeyHash

/-!
Grouping pairs by key and window. Every bundle is grouped on its own; the groups of all bundles are
then joined and spread over new bundles by the hash of their keys, and each group is emitted at the
end of its window. When a value coder is known, values cross the barrier as bytes.
-/

set_option autoImplicit false

namespace KeyedFlow
variable {B : Type} [TypeFamily B]

structure Shipping (ν χ : Type) where
  ship : ν → Except RunError χ
  receive : χ → Except RunError ν

namespace Shipping

def direct (ν : Type) : Shipping ν ν := ⟨.ok, .ok⟩

/-- Values cross as the bytes that `c` writes, each read back as one whole. -/
def encoded {ν : ElemType B} (c : Coder ν) : Shipping ν.Carrier (List UInt8) where
  ship v := (c.encodeBytes v).mapError .encoding
  receive bytes := (c.decodeBytes bytes).mapError .decoding

end Shipping

namespace Grouping
variable {κ ν χ : Type} [DecidableEq κ]

def localGroups (s : Shipping ν χ) (bundle : List (Windowed (κ × ν))) :
    Except RunError (Groups (κ × Window) χ) := do
  let shipped ← bundle.mapM fun w => do
    let x ← s.ship w.value.2
    .ok ((w.value.1, w.window), x)
  .ok (Groups.ofList shipped)

/-- The record of one group, at the end of its window. -/
def record (s : Shipping ν χ) (g : (κ × Window) × List χ) :
    Except RunError (Windowed (κ × List ν)) := do
  let vs ← g.2.mapM s.receive
  let ts ← g.1.2.maxTimestamp.inRun
  .ok ⟨(g.1.1, vs), ts, g.1.2⟩

/-- Spread records over `n` bundles by the hash of their keys. Left out are counts so large that no
vector of `n` bundles can be allocated, at which a run would be aborted. -/
def spread [KeyBytes κ] {β : Type} (n : Nat) (records : List (Windowed (κ × β))) :
    List (List (Windowed (κ × β))) :=
  if n = 1 then [records]
  else
    let placed := records.map fun w => (bucketOf w.value.1 n, w)
    (List.range n).map fun i => (placed.filter fun p => p.1 == i).map Prod.snd

/-- Join the groups of all bundles and spread them over `n` bundles, or one for few keys. -/
def joinGroups [KeyBytes κ] (s : Shipping ν χ) (fewKeys : Bool) (n : Nat)
    (locals : List (Groups (κ × Window) χ)) :
    Except RunError (List (List (Windowed (κ × List ν)))) := do
  let records ← (Groups.join locals).mapM (record s)
  .ok (spread (if fewKeys then 1 else max n 1) records)

def groupBundles [KeyBytes κ] (s : Shipping ν χ) (fewKeys : Bool) (n : Nat)
    (bundles : List (List (Windowed (κ × ν)))) :
    Except RunError (List (List (Windowed (κ × List ν)))) := do
  let locals ← bundles.mapM (localGroups s)
  joinGroups s fewKeys n locals

end Grouping

/-- Options of a grouping: a hint that there are few distinct keys, so that one bundle holds all
groups, and the coder for values crossing the barrier. -/
structure GroupingOptions {B : Type} [TypeFamily B] (ν : ElemType B) where
  fewKeys : Bool := false
  valueCoder : Option (Coder ν) := none

namespace Collection
variable {κ ν : ElemType B}

/-- The grouping of bundles whose types are only known when the flow runs. -/
def groupTyped (κ ν : ElemType B) {χ : Type} [DecidableEq κ.Carrier] [KeyBytes κ.Carrier]
    (s : Shipping ν.Carrier χ) (fewKeys : Bool) (n : Nat) (bundles : List (Bundle B)) :
    Except RunError (List (Bundle B)) := do
  let locals ← bundles.mapM fun b =>
    match b.as? (.pair κ ν) with
    | none => .error .groupingInput
    | some xs => Grouping.localGroups s xs
  let grouped ← Grouping.joinGroups s fewKeys n locals
  .ok (grouped.map (Bundle.of (.pair κ (.list ν))))

def groupingOp (κ ν : ElemType B) [DecidableEq κ.Carrier] [KeyBytes κ.Carrier]
    (coder : Option (Coder ν)) (fewKeys : Bool) :
    Nat → List (Bundle B) → Except RunError (List (Bundle B)) :=
  match coder with
  | some c => groupTyped κ ν (Shipping.encoded c) fewKeys
  | none => groupTyped κ ν (Shipping.direct ν.Carrier) fewKeys

/-- Group values by key and window. The coder of the values is the one asked for, else that of the
collection, else the registered one. -/
def groupByKey (c : Collection (.pair κ ν)) [DecidableEq κ.Carrier] [KeyBytes κ.Carrier]
    (opts : GroupingOptions ν) : Extend B (Collection (.pair κ (.list ν))) := do
  let p ← get
  let keyCoder := c.keyCoder?.orElse fun _ => p.coders.find? κ
  let valueCoder :=
    (opts.valueCoder.orElse fun _ => c.valueCoder?).orElse fun _ => p.coders.find? ν
  let coder := do
    let k ← keyCoder
    let v ← valueCoder
    some (Coder.pair k v.list)
  let id ← Pipeline.insertNode (.grouping c.node (groupingOp κ ν valueCoder opts.fewKeys))
  pure ⟨id, c.strategy, coder⟩

end Collection
end KeyedFlow
