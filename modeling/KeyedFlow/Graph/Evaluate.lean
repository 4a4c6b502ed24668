import KeyedFlow.Graph.Basic

/-!
Running a graph. A node is evaluated after its inputs, from the node asked for down to the
sources. `evaluate` keeps the output of every node it has run, so a node that feeds several others
runs once, and logs each node when it runs it; `recompute` is the plain recursion that keeps
nothing. Both stop at a node that lies behind more nodes than the graph has, which only happens when
nodes form a cycle.
-/

set_option autoImplicit false

namespace KeyedFlow.Pipeline
variable {B : Type} [TypeFamily B]

abbrev Memo (B : Type) [TypeFamily B] := List (NodeId × List (Bundle B))

/-- The outputs kept so far, and the log of the nodes that were run, the last one first. -/
structure Progress (B : Type) [TypeFamily B] where
  memo : Memo B
  ran : List NodeId

/-- Evaluating nodes; what was kept and logged before a failure stays. -/
abbrev Evaluation (B : Type) [TypeFamily B] (α : Type) := ExceptT RunError (StateM (Progress B)) α

def forEach {m : Type → Type} [Monad m] {α : Type} (f : NodeId → m α) : List NodeId → m (List α)
  | [] => pure []
  | i :: is => do
    let a ← f i
    let as ← forEach f is
    pure (a :: as)

/-- Log a node, run it on the outputs of its inputs, and keep what it gives. -/
def runNode (mode : ExecMode) (id : NodeId) (n : Node B) (ins : List (List (Bundle B))) :
    Evaluation B (List (Bundle B)) := do
  modify fun s => { s with ran := id :: s.ran }
  let out ← n.run mode ins
  modify fun s => { s with memo := (id, out) :: s.memo }
  pure out

/-- Evaluate a node behind which at most `depth` nodes lie in a row. -/
def evaluateWithin (p : Pipeline B) (mode : ExecMode) :
    Nat → NodeId → Evaluation B (List (Bundle B))
  | 0, id => throw (.cyclicNode id)
  | depth + 1, id => do
    match (← get).memo.find? (·.1 = id) with
    | some done => pure done.2
    | none =>
      match p.nodes[id]? with
      | none => throw (.missingNode id)
      | some n => do
        let ins ← forEach (evaluateWithin p mode depth) n.inputs
        runNode mode id n ins

def evaluation (p : Pipeline B) (mode : ExecMode) (id : NodeId) :
    Except RunError (List (Bundle B)) × Progress B :=
  (evaluateWithin p mode (p.nodes.size + 1) id).run.run ⟨[], []⟩

/-- The output of a node, each node being run at most once. -/
def evaluate (p : Pipeline B) (mode : ExecMode) (id : NodeId) :
    Except RunError (List (Bundle B)) :=
  (p.evaluation mode id).1

/-- The nodes that are run to evaluate a node, also when the last of them fails. -/
def runLog (p : Pipeline B) (mode : ExecMode) (id : NodeId) : List NodeId :=
  (p.evaluation mode id).2.ran

/-- The output of a node, its inputs being run anew for every use. -/
def recomputeWithin (p : Pipeline B) (mode : ExecMode) :
    Nat → NodeId → Except RunError (List (Bundle B))
  | 0, id => .error (.cyclicNode id)
  | depth + 1, id =>
    match p.nodes[id]? with
    | none => .error (.missingNode id)
    | some n => do
      let ins ← forEach (recomputeWithin p mode depth) n.inputs
      n.run mode ins

def recompute (p : Pipeline B) (mode : ExecMode) (id : NodeId) :
    Except RunError (List (Bundle B)) :=
  recomputeWithin p mode (p.nodes.size + 1) id

def elements (τ : ElemType B) : List (Bundle B) → Except RunError (List (Windowed τ.Carrier))
  | [] => .ok []
  | b :: bs =>
    match b.as? τ with
    | none => .error (.terminalType τ.typeName)
    | some xs => do
      let rest ← elements τ bs
      .ok (xs ++ rest)

def collect (p : Pipeline B) (mode : ExecMode) (τ : ElemType B) (id : NodeId) :
    Except RunError (List (Windowed τ.Carrier)) := do
  let bundles ← p.evaluate mode id
  elements τ bundles

end KeyedFlow.Pipeline
