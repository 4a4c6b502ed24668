/-!
Holders: a value that may not have been set yet, as an accumulator that starts from nothing.
-/

set_option autoImplicit false

namespace KeyedFlow

structure Holder (α : Type) where
  value? : Option α
deriving DecidableEq, Repr

namespace Holder
variable {α : Type}

def empty : Holder α := ⟨none⟩
def of (a : α) : Holder α := ⟨some a⟩
def isPresent (h : Holder α) : Bool := h.value?.isSome
def set (_ : Holder α) (a : α) : Holder α := of a

def take (h : Holder α) : Option α × Holder α := (h.value?, empty)

end Holder
end KeyedFlow
