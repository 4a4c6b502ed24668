import KeyedFlow.Coder.Basic

/-!
The table of coders by element type. Looking up a type without a coder is a recoverable error, so
that callers may go on without one. Types that only the transforms use among themselves never have
a coder.
-/

set_option autoImplicit false

namespace KeyedFlow

structure CoderRegistry (B : Type) [TypeFamily B] where
  entries : (τ : ElemType B) → Option (Coder τ)

namespace CoderRegistry
variable {B : Type} [TypeFamily B]

def empty : CoderRegistry B := ⟨fun _ => none⟩

def standard : CoderRegistry B where
  entries
    | .int32 => some .int32
    | .int64 => some .int64
    | .uint32 => some .uint32
    | .uint64 => some .uint64
    | .binary64 => some .binary64
    | .bool => some .bool
    | .string => some .string
    | .unit => some .unit
    | _ => none

def register (r : CoderRegistry B) {τ : ElemType B} (c : Coder τ) : CoderRegistry B where
  entries σ := if h : τ = σ then some (h ▸ c) else r.entries σ

def find? (r : CoderRegistry B) (τ : ElemType B) : Option (Coder τ) :=
  if τ.isInternal then none else r.entries τ

def coderFor (r : CoderRegistry B) (τ : ElemType B) : Except CoderError (Coder τ) :=
  match r.find? τ with
  | some c => .ok c
  | none => .error (.cannotProvide τ.typeName "no coder registered for this type")

/-- The coder of a pair of registered types; the key is looked up first. -/
def pairCoderFor (r : CoderRegistry B) (κ ν : ElemType B) :
    Except CoderError (Coder (.pair κ ν)) := do
  let k ← r.coderFor κ
  let v ← r.coderFor ν
  .ok (.pair k v)

end CoderRegistry
end KeyedFlow
