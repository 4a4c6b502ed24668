import KeyedFlow.ElemType.Basic
import KeyedFlow.Groups

/-!
Side inputs: read-only values that every combine invocation may look at. A side input holds a list
of values per window; a window that it does not name falls back to the global one. The executor
resolves the side inputs registered on a transform once per group, and the combiner finds its
values in the resulting context by the identity of the side input.
-/

set_option autoImplicit false

namespace KeyedFlow
variable {B : Type} [TypeFamily B]

structure SideInput (τ : ElemType B) where
  id : Nat
  byWindow : Groups Window τ.Carrier

namespace SideInput
variable {τ : ElemType B}

/-- Distinct values per window; a window named several times has all the values given for it. -/
def windowed (id : Nat) (perWindow : List (Window × List τ.Carrier)) : SideInput τ :=
  ⟨id, Groups.join [perWindow]⟩

def everywhere (id : Nat) (vs : List τ.Carrier) : SideInput τ := windowed id [(.global, vs)]

def valuesFor (s : SideInput τ) (w : Window) : List τ.Carrier :=
  ((Groups.find? s.byWindow w).orElse fun _ => Groups.find? s.byWindow .global).getD []

end SideInput

structure SideInputs (B : Type) [TypeFamily B] where
  registered : List ((τ : ElemType B) × SideInput τ)

/-- Values of a side input whose type is only known when they are read. -/
structure ResolvedSide (B : Type) [TypeFamily B] where
  id : Nat
  type : ElemType B
  values : List type.Carrier

/-- The ambient context of one group: its window and what the side inputs show there. -/
structure CombineContext (B : Type) [TypeFamily B] where
  window : Window
  resolved : List (ResolvedSide B)

namespace SideInputs

def none : SideInputs B := ⟨[]⟩

def and (s : SideInputs B) {τ : ElemType B} (i : SideInput τ) : SideInputs B :=
  ⟨s.registered ++ [⟨τ, i⟩]⟩

def size (s : SideInputs B) : Nat := s.registered.length
def isEmpty (s : SideInputs B) : Bool := s.registered.isEmpty

def resolve (s : SideInputs B) (w : Window) : CombineContext B :=
  ⟨w, s.registered.map fun r => ⟨r.2.id, r.1, r.2.valuesFor w⟩⟩

end SideInputs

namespace CombineContext

def forWindow (w : Window) : CombineContext B := ⟨w, []⟩

def global : CombineContext B := forWindow .global

/-- The values of a side input, unless it was not registered on the transform. -/
def sideInput? (c : CombineContext B) {τ : ElemType B} (i : SideInput τ) :
    Option (List τ.Carrier) :=
  match c.resolved.find? (·.id = i.id) with
  | some r => if h : r.type = τ then some (h ▸ r.values) else Option.none
  | Option.none => Option.none

end CombineContext
end KeyedFlow
