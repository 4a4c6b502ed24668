import KeyedFlow.Coder.Registry
import KeyedFlow.SideInput

/-!
The combiner algebra. A combiner reduces many inputs to one output through an accumulator: batches
of inputs are folded into fresh accumulators, accumulators are merged in a tree of any shape, and
the result is read off the last one. `Combiner` knows nothing of keys; `KeyedCombiner` is also
given the key and the context of the group in every operation. A combiner also derives coders for
its accumulators and outputs from the coder of its inputs, where one is known.
-/

set_option autoImplicit false

namespace KeyedFlow
variable {B : Type} [TypeFamily B]

/-- How a combiner that says nothing of its own refuses windows other than the global one. -/
def globalWindowAdvice (name : String) : String :=
  "Default values are not supported in Combine::globally() if the output collection is not " ++
  "windowed by GlobalWindows. Instead, use Combine::globally(..).without_defaults() to output an " ++
  "empty collection if the input is empty, or Combine::globally(..).as_singleton_view() to get " ++
  "the default output of " ++ name ++ " when a window is empty."

structure Combiner {B : Type} [TypeFamily B] (ι α ω : ElemType B) where
  name : String
  create : α.Carrier
  add : α.Carrier → ι.Carrier → Checked α.Carrier
  merge : List α.Carrier → Checked α.Carrier
  extract : α.Carrier → Checked ω.Carrier
  /-- A denser accumulator of the same value. -/
  compact : α.Carrier → Checked α.Carrier := .ok
  default : Checked ω.Carrier := extract create
  accumulatorCoder : CoderRegistry B → Option (Coder ι) → Except CoderError (Coder α) :=
    fun r _ => r.coderFor α
  outputCoder : CoderRegistry B → Option (Coder ι) → Except CoderError (Coder ω) :=
    fun r _ => r.coderFor ω
  /-- A message of its own for default values on a collection that is not globally windowed. -/
  advice? : Option String := none

structure KeyedCombiner {B : Type} [TypeFamily B] (κ ι α ω : ElemType B) where
  name : String
  create : κ.Carrier → CombineContext B → α.Carrier
  add : κ.Carrier → CombineContext B → α.Carrier → ι.Carrier → Checked α.Carrier
  merge : κ.Carrier → CombineContext B → List α.Carrier → Checked α.Carrier
  extract : κ.Carrier → CombineContext B → α.Carrier → Checked ω.Carrier
  compact : κ.Carrier → CombineContext B → α.Carrier → Checked α.Carrier := fun _ _ => .ok
  accumulatorCoder : CoderRegistry B → Option (Coder κ) → Option (Coder ι) →
      Except CoderError (Coder α) := fun r _ _ => r.coderFor α
  outputCoder : CoderRegistry B → Option (Coder κ) → Option (Coder ι) →
      Except CoderError (Coder ω) := fun r _ _ => r.coderFor ω

/-- The coder of the inputs when known, else the registered one. -/
def inputOrRegistered (r : CoderRegistry B) (τ : ElemType B) (input : Option (Coder τ)) :
    Except CoderError (Coder τ) :=
  match input with
  | some c => .ok c
  | none => r.coderFor τ

namespace Combiner
variable {ι α ω : ElemType B}

def advice (c : Combiner ι α ω) : String := c.advice?.getD (globalWindowAdvice c.name)

def named (c : Combiner ι α ω) (name : String) : Combiner ι α ω := { c with name }

def addAll (c : Combiner ι α ω) (a : α.Carrier) (xs : List ι.Carrier) : Checked α.Carrier :=
  xs.foldlM c.add a

def fold (c : Combiner ι α ω) (xs : List ι.Carrier) : Checked α.Carrier := c.addAll c.create xs

/-- Combine `xs` in a single batch. -/
def apply (c : Combiner ι α ω) (xs : List ι.Carrier) : Checked ω.Carrier := do
  let a ← c.fold xs
  c.extract a

def keyed (c : Combiner ι α ω) (κ : ElemType B) : KeyedCombiner κ ι α ω where
  name := c.name
  create _ _ := c.create
  add _ _ := c.add
  merge _ _ := c.merge
  extract _ _ := c.extract
  compact _ _ := c.compact
  accumulatorCoder r _ i := c.accumulatorCoder r i
  outputCoder r _ i := c.outputCoder r i

end Combiner

namespace KeyedCombiner
variable {κ ι α ω : ElemType B}

def addAll (c : KeyedCombiner κ ι α ω) (k : κ.Carrier) (ctx : CombineContext B) (a : α.Carrier)
    (xs : List ι.Carrier) : Checked α.Carrier :=
  xs.foldlM (c.add k ctx) a

def fold (c : KeyedCombiner κ ι α ω) (k : κ.Carrier) (ctx : CombineContext B)
    (xs : List ι.Carrier) : Checked α.Carrier :=
  c.addAll k ctx (c.create k ctx) xs

def apply (c : KeyedCombiner κ ι α ω) (k : κ.Carrier) (ctx : CombineContext B)
    (xs : List ι.Carrier) : Checked ω.Carrier := do
  let a ← c.fold k ctx xs
  c.extract k ctx a

def bind (c : KeyedCombiner κ ι α ω) (keyCoder : Option (Coder κ)) (k : κ.Carrier)
    (ctx : CombineContext B) : Combiner ι α ω where
  name := c.name
  create := c.create k ctx
  add := c.add k ctx
  merge := c.merge k ctx
  extract := c.extract k ctx
  compact := c.compact k ctx
  accumulatorCoder r i := c.accumulatorCoder r keyCoder i
  outputCoder r i := c.outputCoder r keyCoder i

/-- The combiner for one key, in the global window and without side inputs. -/
def forKey (c : KeyedCombiner κ ι α ω) (k : κ.Carrier) : Combiner ι α ω := c.bind none k .global

end KeyedCombiner
end KeyedFlow
