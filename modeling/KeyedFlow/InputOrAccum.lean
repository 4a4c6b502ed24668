/-!
The union of raw inputs with partial accumulators, which lets one stage finish what other stages
began.
-/

set_option autoImplicit false

namespace KeyedFlow

inductive InputOrAccum (ι α : Type) where
  | input (i : ι)
  | accum (a : α)
deriving DecidableEq, Repr

namespace InputOrAccum
variable {ι α : Type}

def isInput : InputOrAccum ι α → Bool
  | input _ => true
  | accum _ => false

def isAccum (x : InputOrAccum ι α) : Bool := !x.isInput

end InputOrAccum
end KeyedFlow
