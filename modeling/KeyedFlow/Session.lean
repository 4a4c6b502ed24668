import KeyedFlow.Transform.Globally
import Mathlib.Logic.Relation

/-!
Building a flow step by step. An operation is given collections that exist already and makes at most
one more; two of the operations only touch the pipeline. A session is a pipeline together with the
collections made on it so far. An operation that fails makes no collection, but the nodes it added
before it failed stay.
-/

set_option autoImplicit false

namespace KeyedFlow
variable {B : Type} [TypeFamily B]

abbrev AnyCollection (B : Type) [TypeFamily B] := (τ : ElemType B) × Collection τ

inductive Operation (B : Type) [TypeFamily B] where
  | ofList (τ : ElemType B) (elems : List τ.Carrier)
  | ofTimestamped (τ : ElemType B) (elems : List (Timestamped τ.Carrier))
  | map {σ : ElemType B} (c : Collection σ) (τ : ElemType B) (f : σ.Carrier → Checked τ.Carrier)
  | filter {τ : ElemType B} (c : Collection τ) (keep : τ.Carrier → Checked Bool)
  | flatMap {σ : ElemType B} (c : Collection σ) (τ : ElemType B)
      (f : σ.Carrier → Checked (List τ.Carrier))
  | keyBy {τ : ElemType B} (c : Collection τ) (κ : ElemType B) (key : τ.Carrier → Checked κ.Carrier)
  | withKey {τ : ElemType B} (c : Collection τ) (κ : ElemType B) (key : κ.Carrier)
  | keys {κ ν : ElemType B} (c : Collection (.pair κ ν))
  | values {κ ν : ElemType B} (c : Collection (.pair κ ν))
  | mapValues {κ ν : ElemType B} (c : Collection (.pair κ ν)) (τ : ElemType B)
      (f : ν.Carrier → Checked τ.Carrier)
  | setCoder {τ : ElemType B} (c : Collection τ) (coder : Coder τ)
  | withAccumulationMode {τ : ElemType B} (c : Collection τ) (m : AccumulationMode)
  | windowInto {τ : ElemType B} (c : Collection τ) (f : WindowFn)
  | flatten {τ : ElemType B} (cs : List (Collection τ))
  | groupByKey {κ ν : ElemType B} [DecidableEq κ.Carrier] [KeyBytes κ.Carrier]
      (c : Collection (.pair κ ν)) (opts : GroupingOptions ν)
  | combineGrouped {κ ι α ω : ElemType B} (c : Collection (.pair κ (.list ι)))
      (t : GroupedValues κ ι α ω)
  | combinePerKey {κ ι α ω : ElemType B} [DecidableEq κ.Carrier] [KeyBytes κ.Carrier]
      (c : Collection (.pair κ ι)) (t : PerKey κ ι α ω)
  | combineGlobally {ι α ω : ElemType B} (c : Collection ι) (t : Globally ι α ω)
  /-- The view itself is of no use to later operations, but the nodes it is computed from stay. -/
  | viewGlobally {ι α ω : ElemType B} (c : Collection ι) (t : Globally ι α ω)
  | registerCoder {τ : ElemType B} (coder : Coder τ)

namespace Operation

def inputs : Operation B → List (AnyCollection B)
  | ofList _ _ | ofTimestamped _ _ | registerCoder _ => []
  | map c _ _ | filter c _ | flatMap c _ _ | keyBy c _ _ | withKey c _ _ | keys c | values c
  | mapValues c _ _ | setCoder c _ | withAccumulationMode c _ | windowInto c _ | groupByKey c _
  | combineGrouped c _ | combinePerKey c _ | combineGlobally c _ | viewGlobally c _ => [⟨_, c⟩]
  | flatten cs => cs.map fun c => ⟨_, c⟩

def making {τ : ElemType B} (m : Build B (Collection τ)) : Build B (List (AnyCollection B)) := do
  let c ← m
  pure [⟨τ, c⟩]

def run : Operation B → Build B (List (AnyCollection B))
  | ofList τ elems => making (Build.extend (Collection.ofList τ elems))
  | ofTimestamped τ elems => making (Build.extend (Collection.ofTimestamped τ elems))
  | map c τ f => making (Build.extend (c.map τ f))
  | filter c keep => making (Build.extend (c.filter keep))
  | flatMap c τ f => making (Build.extend (c.flatMap τ f))
  | keyBy c κ key => making (Build.extend (c.keyBy κ key))
  | withKey c κ key => making (Build.extend (c.withKey κ key))
  | keys c => making (Build.extend c.keys)
  | values c => making (Build.extend c.values)
  | mapValues c τ f => making (Build.extend (c.mapValues τ f))
  | setCoder c coder => making (pure (c.setCoder coder))
  | withAccumulationMode c m => making (pure (c.withAccumulationMode m))
  | windowInto c f => making (Build.extend (c.windowInto f))
  | flatten cs => making (Collection.flatten cs)
  | groupByKey c opts => making (Build.extend (c.groupByKey opts))
  | combineGrouped c t => making (c.apply t.transform)
  | combinePerKey c t => making (c.apply t.transform)
  | combineGlobally c t => making (c.apply t.transform)
  | viewGlobally c t => do
    let _ ← t.asSingletonView c
    pure []
  | registerCoder coder => do
    modify (Pipeline.registerCoder coder)
    pure []

end Operation

structure Session (B : Type) [TypeFamily B] where
  pipeline : Pipeline B
  collections : List (AnyCollection B)

namespace Session

def new : Session B := ⟨.new, []⟩

/-- The session after an operation, which may have failed. -/
def after (s : Session B) (op : Operation B) : Session B :=
  match op.run.run.run s.pipeline with
  | (.ok made, p) => ⟨p, made ++ s.collections⟩
  | (.error _, p) => ⟨p, s.collections⟩

/-- The operation is only given collections of this session. -/
def Owns (s : Session B) (op : Operation B) : Prop := ∀ c ∈ op.inputs, c ∈ s.collections

def Step (allowed : Session B → Operation B → Prop) (s t : Session B) : Prop :=
  ∃ op, allowed s op ∧ t = s.after op

/-- Any number of operations, each of them allowed where it is done, lead from `s` to `t`. -/
def Leads (allowed : Session B → Operation B → Prop) : Session B → Session B → Prop :=
  Relation.ReflTransGen (Step allowed)

end Session
end KeyedFlow
