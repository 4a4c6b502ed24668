import KeyedFlow.Binary64
import KeyedFlow.Holder
import KeyedFlow.InputOrAccum
import KeyedFlow.Window.Basic

/-!
Element types. The types that values of a flow may have are named by codes: the primitive types,
any types the user brings along, and the shapes that the transforms build from them. A code says
which type it stands for, and codes can be compared, so a bundle whose type is only known when
the flow runs can be checked against the type a stage expects.
-/

set_option autoImplicit false

namespace KeyedFlow

/-- Element types of the user, named by the elements of `B`. -/
class TypeFamily (B : Type) where
  decEq : DecidableEq B
  Carrier : B → Type
  typeName : B → String

instance {B : Type} [TypeFamily B] : DecidableEq B := TypeFamily.decEq

/-- A record after the split of hot keys: a hot one carries the shard it goes to. -/
inductive Routed (κ ι : Type) where
  | hot (key : κ) (shard : UInt32) (value : ι)
  | cold (key : κ) (value : ι)
deriving DecidableEq

/-- The two sides of the grouping that finds windows without output. -/
inductive Slot (ω : Type) where
  | guard
  | output (o : ω)
deriving DecidableEq

inductive ElemType (B : Type) where
  | int32
  | int64
  | uint32
  | uint64
  | binary64
  | bool
  | string
  | unit
  | own (b : B)
  | pair (σ τ : ElemType B)
  | list (τ : ElemType B)
  | option (τ : ElemType B)
  | holder (τ : ElemType B)
  | inputOrAccum (ι α : ElemType B)
  | window
  | windowFn
  | strategy
  | windowed (τ : ElemType B)
  | timestamped (τ : ElemType B)
  | routed (κ ι : ElemType B)
  | slot (ω : ElemType B)
deriving DecidableEq

namespace ElemType
variable {B : Type} [TypeFamily B]

@[reducible] def Carrier : ElemType B → Type
  | int32 => Int32
  | int64 => Int64
  | uint32 => UInt32
  | uint64 => UInt64
  | binary64 => Binary64
  | bool => Bool
  | string => String
  | unit => Unit
  | own b => TypeFamily.Carrier b
  | pair σ τ => σ.Carrier × τ.Carrier
  | list τ => List τ.Carrier
  | option τ => Option τ.Carrier
  | holder τ => Holder τ.Carrier
  | inputOrAccum ι α => InputOrAccum ι.Carrier α.Carrier
  | window => Window
  | windowFn => WindowFn
  | strategy => WindowingStrategy
  | windowed τ => Windowed τ.Carrier
  | timestamped τ => Timestamped τ.Carrier
  | routed κ ι => Routed κ.Carrier ι.Carrier
  | slot ω => Slot ω.Carrier

/-- Types that only the transforms use among themselves. -/
def isInternal : ElemType B → Bool
  | routed _ _ => true
  | slot _ => true
  | _ => false

def home : String := "ironbeam_combine::"

def typeName : ElemType B → String
  | int32 => "i32"
  | int64 => "i64"
  | uint32 => "u32"
  | uint64 => "u64"
  | binary64 => "f64"
  | bool => "bool"
  | string => "alloc::string::String"
  | unit => "()"
  | own b => TypeFamily.typeName b
  | pair σ τ => s!"({σ.typeName}, {τ.typeName})"
  | list τ => s!"alloc::vec::Vec<{τ.typeName}>"
  | option τ => s!"core::option::Option<{τ.typeName}>"
  | holder τ => s!"{home}accumulator::Holder<{τ.typeName}>"
  | inputOrAccum ι α => s!"{home}accumulator::InputOrAccum<{ι.typeName}, {α.typeName}>"
  | window => s!"{home}window::BoundedWindow"
  | windowFn => s!"{home}window::WindowFn"
  | strategy => s!"{home}window::WindowingStrategy"
  | windowed τ => s!"{home}window::WindowedValue<{τ.typeName}>"
  | timestamped τ => s!"{home}window::Timestamped<{τ.typeName}>"
  | routed κ ι => s!"{home}combine::fanout::Routed<{κ.typeName}, {ι.typeName}>"
  | slot ω => s!"{home}combine::globally::Slot<{ω.typeName}>"

end ElemType
end KeyedFlow
