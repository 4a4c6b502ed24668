import KeyedFlow.ElemType.Basic

/-!
When two elements compare equal: component by component, numbers by the numbers they stand for.
So the two floating-point zeros are equal, and what is not a number does not equal itself.
-/

set_option autoImplicit false

namespace KeyedFlow

class EqFamily (B : Type) [TypeFamily B] where
  same : (b : B) → TypeFamily.Carrier b → TypeFamily.Carrier b → Bool

namespace ElemType
variable {B : Type} [TypeFamily B] [EqFamily B]

def sameAll {α : Type} (same : α → α → Bool) : List α → List α → Bool
  | [], [] => true
  | a :: as, b :: bs => same a b && sameAll same as bs
  | _, _ => false

def sameOption {α : Type} (same : α → α → Bool) : Option α → Option α → Bool
  | none, none => true
  | some a, some b => same a b
  | _, _ => false

def same : (τ : ElemType B) → τ.Carrier → τ.Carrier → Bool
  | int32, a, b => decide (a = b)
  | int64, a, b => decide (a = b)
  | uint32, a, b => decide (a = b)
  | uint64, a, b => decide (a = b)
  | binary64, a, b => a.numEq b
  | bool, a, b => decide (a = b)
  | string, a, b => decide (a = b)
  | unit, _, _ => true
  | own b, x, y => EqFamily.same b x y
  | pair σ τ, a, b => σ.same a.1 b.1 && τ.same a.2 b.2
  | list τ, as, bs => sameAll τ.same as bs
  | option τ, a, b => sameOption τ.same a b
  | holder τ, a, b => sameOption τ.same a.value? b.value?
  | inputOrAccum ι α, x, y =>
    match x, y with
    | .input a, .input b => ι.same a b
    | .accum a, .accum b => α.same a b
    | _, _ => false
  | window, a, b => decide (a = b)
  | windowFn, a, b => decide (a = b)
  | strategy, a, b => decide (a = b)
  | windowed τ, a, b => τ.same a.value b.value && a.timestamp == b.timestamp && a.window == b.window
  | timestamped τ, a, b => τ.same a.value b.value && a.timestamp == b.timestamp
  | routed κ ι, x, y =>
    match x, y with
    | .hot k s v, .hot j t w => κ.same k j && s == t && ι.same v w
    | .cold k v, .cold j w => κ.same k j && ι.same v w
    | _, _ => false
  | slot ω, x, y =>
    match x, y with
    | .guard, .guard => true
    | .output a, .output b => ω.same a b
    | _, _ => false

end ElemType
end KeyedFlow
