import KeyedFlow.Coder.Registry
import KeyedFlow.FlowError

/-!
The graph of a flow. Nodes are numbered in the order in which they are built, and each reads and
writes a list of bundles. A bundle says which type its elements have, since a node's inputs are
only known by their numbers. Nothing runs while a graph is built.
-/

set_option autoImplicit false

namespace KeyedFlow

structure Bundle (B : Type) [TypeFamily B] where
  type : ElemType B
  elems : List (Windowed type.Carrier)

namespace Bundle
variable {B : Type} [TypeFamily B]

def of (τ : ElemType B) (elems : List (Windowed τ.Carrier)) : Bundle B := ⟨τ, elems⟩

def as? (b : Bundle B) (τ : ElemType B) : Option (List (Windowed τ.Carrier)) :=
  if h : b.type = τ then some (h ▸ b.elems) else none

@[simp] theorem as?_of (τ : ElemType B) (elems : List (Windowed τ.Carrier)) :
    (of τ elems).as? τ = some elems := by
  simp [as?, of]

end Bundle

/-- Cut a list into pieces of `n`, the last one being the rest. -/
def chunks {α : Type} (n : Nat) (xs : List α) : List (List α) :=
  if _h : 0 < n ∧ n < xs.length then xs.take n :: chunks n (xs.drop n) else [xs]
termination_by xs.length
decreasing_by simp only [List.length_drop]; omega

@[simp] theorem flatten_chunks {α : Type} (n : Nat) (xs : List α) :
    (chunks n xs).flatten = xs := by
  fun_induction chunks n xs with
  | case1 xs h ih => simp [ih]
  | case2 xs h => simp

/-- Split into at most `n` contiguous pieces of one length, the last being no longer. -/
def splitInto {α : Type} (n : Nat) (xs : List α) : List (List α) :=
  if n ≤ 1 ∨ xs.length ≤ 1 then [xs] else chunks ((xs.length + n - 1) / n) xs

@[simp] theorem flatten_splitInto {α : Type} (n : Nat) (xs : List α) :
    (splitInto n xs).flatten = xs := by
  unfold splitInto
  split <;> simp

/-- How the bundles of one run are made: one of everything, or up to so many in parallel. Left out
are counts so large that no vector of that many bundles can be allocated. -/
inductive ExecMode where
  | sequential
  | parallel (partitions : Nat)
deriving DecidableEq, Repr

def ExecMode.parts : ExecMode → Nat
  | sequential => 1
  | parallel n => max n 1

abbrev NodeId := Nat

inductive Node (B : Type) [TypeFamily B] where
  /-- Elements in memory, split into bundles when the flow runs. -/
  | source (elems : Bundle B)
  /-- A stage that treats each bundle on its own; it is told the place of the bundle. -/
  | stage (input : NodeId) (op : Nat → Bundle B → Except RunError (Bundle B))
  /-- A barrier that sees all bundles, and the number of bundles asked for. -/
  | grouping (input : NodeId) (op : Nat → List (Bundle B) → Except RunError (List (Bundle B)))
  | flatten (inputs : List NodeId)

namespace Node
variable {B : Type} [TypeFamily B]

def inputs : Node B → List NodeId
  | source _ => []
  | stage i _ => [i]
  | grouping i _ => [i]
  | flatten is => is

/-- Run a stage on the bundles from place `i` on. -/
def runStage (op : Nat → Bundle B → Except RunError (Bundle B)) :
    Nat → List (Bundle B) → Except RunError (List (Bundle B))
  | _, [] => .ok []
  | i, b :: bs => do
    let out ← op i b
    let outs ← runStage op (i + 1) bs
    .ok (out :: outs)

def run (mode : ExecMode) : Node B → List (List (Bundle B)) → Except RunError (List (Bundle B))
  | source b, _ =>
    .ok ((splitInto (min mode.parts (max b.elems.length 1)) b.elems).map (Bundle.of b.type))
  | stage _ op, ins => runStage op 0 ins.flatten
  | grouping _ op, ins => op mode.parts ins.flatten
  | flatten _, ins => .ok ins.flatten

end Node

structure Pipeline (B : Type) [TypeFamily B] where
  nodes : Array (Node B)
  coders : CoderRegistry B

namespace Pipeline
variable {B : Type} [TypeFamily B]

def new : Pipeline B := ⟨#[], .standard⟩

def nodeCount (p : Pipeline B) : Nat := p.nodes.size

def insertNode (n : Node B) : StateM (Pipeline B) NodeId := fun p =>
  (p.nodes.size, { p with nodes := p.nodes.push n })

def registerCoder {τ : ElemType B} (c : Coder τ) (p : Pipeline B) : Pipeline B :=
  { p with coders := p.coders.register c }

end Pipeline
end KeyedFlow
