import KeyedFlow.Graph.Evaluate

/-!
Collections. A collection is an immutable handle to one node of a pipeline together with what
later transforms need to know of its elements: the windowing strategy and, where known, the coder.
A transform adds nodes to the pipeline and returns a new handle. Element-wise transforms drop the
coder, unless the elements stay what they are.
-/

set_option autoImplicit false

namespace KeyedFlow
variable {B : Type} [TypeFamily B]

structure Collection {B : Type} [TypeFamily B] (τ : ElemType B) where
  node : NodeId
  strategy : WindowingStrategy
  coder : Option (Coder τ)

/-- Adding to a pipeline; what was added before a failure stays. -/
abbrev Build (B : Type) [TypeFamily B] (α : Type) := ExceptT FlowError (StateM (Pipeline B)) α

abbrev Extend (B : Type) [TypeFamily B] (α : Type) := StateM (Pipeline B) α

namespace Build
variable {α : Type}

def ofExcept : Except FlowError α → Build B α
  | .ok a => pure a
  | .error e => throw e

def extend (x : Extend B α) : Build B α := liftM x

end Build

namespace Collection
variable {σ τ : ElemType B}

def ofWindowed (τ : ElemType B) (elems : List (Windowed τ.Carrier)) : Extend B (Collection τ) := do
  let p ← get
  let id ← Pipeline.insertNode (.source (Bundle.of τ elems))
  pure ⟨id, .global, p.coders.find? τ⟩

def ofList (τ : ElemType B) (elems : List τ.Carrier) : Extend B (Collection τ) :=
  ofWindowed τ (elems.map Windowed.inGlobalWindow)

/-- Elements with timestamps, in the global window until they are windowed anew. -/
def ofTimestamped (τ : ElemType B) (elems : List (Timestamped τ.Carrier)) :
    Extend B (Collection τ) :=
  ofWindowed τ (elems.map fun e => ⟨e.value, e.timestamp, .global⟩)

def setCoder (c : Collection τ) (coder : Coder τ) : Collection τ := { c with coder := some coder }

def setCoder? (c : Collection τ) (coder : Option (Coder τ)) : Collection τ :=
  match coder with
  | some k => c.setCoder k
  | none => c

def withStrategy (c : Collection τ) (s : WindowingStrategy) : Collection τ :=
  { c with strategy := s }

def withAccumulationMode (c : Collection τ) (m : AccumulationMode) : Collection τ :=
  c.withStrategy (c.strategy.withMode m)

/-- Lift a function of typed elements to bundles, which it is only given in the right type. -/
def onBundle (kind : StageKind) (σ τ : ElemType B)
    (f : Nat → List (Windowed σ.Carrier) → Checked (List (Windowed τ.Carrier)))
    (i : Nat) (b : Bundle B) : Except RunError (Bundle B) :=
  match b.as? σ with
  | none => .error (.stageInput kind σ.typeName)
  | some xs => do
    let ys ← (f i xs).inRun
    .ok (Bundle.of τ ys)

/-- Add an element-wise stage; the result has no coder yet. -/
def chain (c : Collection σ) (τ : ElemType B) (kind : StageKind)
    (f : Nat → List (Windowed σ.Carrier) → Checked (List (Windowed τ.Carrier))) :
    Extend B (Collection τ) := do
  let id ← Pipeline.insertNode (.stage c.node (onBundle kind σ τ f))
  pure ⟨id, c.strategy, none⟩

/-- Put in the place of each element what `f` makes of it, at its time and in its window. -/
def expandEach {α β : Type} (f : α → Checked (List β)) (xs : List (Windowed α)) :
    Checked (List (Windowed β)) := do
  let yss ← xs.mapM fun w => do
    let vs ← f w.value
    .ok (vs.map w.withValue)
  .ok yss.flatten

def map (c : Collection σ) (τ : ElemType B) (f : σ.Carrier → Checked τ.Carrier) :
    Extend B (Collection τ) :=
  c.chain τ .map fun _ => expandEach fun a => do
    let b ← f a
    .ok [b]

def filter (c : Collection σ) (keep : σ.Carrier → Checked Bool) : Extend B (Collection σ) := do
  let out ← c.chain σ .filter fun _ => expandEach fun a => do
    let kept ← keep a
    .ok (if kept then [a] else [])
  pure (out.setCoder? c.coder)

def flatMap (c : Collection σ) (τ : ElemType B) (f : σ.Carrier → Checked (List τ.Carrier)) :
    Extend B (Collection τ) :=
  c.chain τ .flatMap fun _ => expandEach f

def mapWindowed (c : Collection σ) (τ : ElemType B)
    (f : Windowed σ.Carrier → Checked (Windowed τ.Carrier)) : Extend B (Collection τ) :=
  c.chain τ .windowed fun _ xs => xs.mapM f

def mapBundle (c : Collection σ) (τ : ElemType B)
    (f : Nat → List (Windowed σ.Carrier) → Checked (List (Windowed τ.Carrier))) :
    Extend B (Collection τ) :=
  c.chain τ .bundle f

def windowInto (c : Collection σ) (f : WindowFn) : Extend B (Collection σ) := do
  let out ← c.mapWindowed σ fun w => do
    let win ← f.assign w.timestamp
    .ok { w with window := win }
  pure ((out.withStrategy ⟨f, c.strategy.mode⟩).setCoder? c.coder)

def incompatibleWith? (first : Collection τ) (cs : List (Collection τ)) : Option (Collection τ) :=
  cs.find? fun c => !c.strategy.windowFn.compatible first.strategy.windowFn

/-- Concatenate collections of one type and windowing; strategy and coder are those of the first. -/
def flatten (cs : List (Collection τ)) : Build B (Collection τ) :=
  match cs with
  | [] => throw .emptyFlatten
  | first :: rest =>
    match first.incompatibleWith? rest with
    | some c => throw (.incompatibleWindows first.strategy.windowFn c.strategy.windowFn)
    | none => do
      let id ← Build.extend (Pipeline.insertNode (.flatten (cs.map node)))
      pure ⟨id, first.strategy, first.coder⟩

def collect (c : Collection τ) (mode : ExecMode) : Build B (List (Windowed τ.Carrier)) := do
  let p ← get
  match p.collect mode τ c.node with
  | .ok xs => pure xs
  | .error e => throw (.run e)

end Collection
end KeyedFlow
