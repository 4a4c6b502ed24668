import KeyedFlow.Collection.Keyed
import KeyedFlow.Combiner.Basic

/-!
Transforms: immutable configurations that can be applied to a collection any number of times, each
time adding the nodes that implement them. A transform can be asked for its name and for a
description of its configuration.
-/

set_option autoImplicit false

namespace KeyedFlow
variable {B : Type} [TypeFamily B]

inductive Detail where
  | text (s : String)
  | flag (b : Bool)
  | count (n : Nat)
deriving DecidableEq, Repr

structure Transform {B : Type} [TypeFamily B] (σ τ : ElemType B) where
  name : String
  details : List (String × Detail) := []
  expand : Collection σ → Build B (Collection τ)

def Collection.apply {σ τ : ElemType B} (c : Collection σ) (t : Transform σ τ) :
    Build B (Collection τ) := t.expand c

/-- Give a combine output the coder of its components, when both are known. A coder that is merely
unavailable leaves the output without one; any other failure is a configuration error. -/
def bindPairCoder {κ ω : ElemType B} (out : Collection (.pair κ ω))
    (key : Except CoderError (Coder κ)) (output : Except CoderError (Coder ω)) :
    Except FlowError (Collection (.pair κ ω)) :=
  match key, output with
  | .ok k, .ok o => .ok (out.setCoder (.pair k o))
  | .ok _, .error e => if e.isCannotProvide then .ok out else .error (.coder e)
  | .error e, .ok _ => if e.isCannotProvide then .ok out else .error (.coder e)
  | .error e, .error f =>
    if e.isCannotProvide || f.isCannotProvide then .ok out else .error (.coder e)

end KeyedFlow
