/-!
Faults: the ways in which an operation on elements can break off instead of giving a result.
Integers of the library never wrap silently, so a sum that does not fit is a fault, and so is an
interval that would end before it starts; functions that the library is given may raise faults of
their own. A fault ends the run it happens in.
-/

set_option autoImplicit false

namespace KeyedFlow

inductive Fault where
  | addOverflow
  | subOverflow
  | mulOverflow
  | reversedInterval
  | raised (message : String)
deriving DecidableEq, Repr

namespace Fault

def message : Fault → String
  | addOverflow => "attempt to add with overflow"
  | subOverflow => "attempt to subtract with overflow"
  | mulOverflow => "attempt to multiply with overflow"
  | reversedInterval => "assertion failed: end >= start"
  | raised message => message

end Fault

/-- A result, or the fault that prevented it. -/
abbrev Checked (α : Type) := Except Fault α

end KeyedFlow
