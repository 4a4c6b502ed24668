import KeyedFlow.Word

/-!
Binary floating-point numbers as their 64 bits. Keeping the bits makes every value writable and
readable without loss, the many spellings of "not a number" included. Arithmetic rounds to
nearest; a result that is not a number repeats the first operand that is not a number, made quiet,
or is the default one when the operation itself is invalid.
-/

set_option autoImplicit false

namespace KeyedFlow

structure Binary64 where
  bits : UInt64
deriving DecidableEq, Repr

namespace Binary64

def zero : Binary64 := ⟨0⟩

def toFloat (a : Binary64) : Float := Float.ofBits a.bits

/-- Sign and exponent aside, the digits of the number. -/
def magnitude (a : Binary64) : UInt64 := a.bits &&& 0x7fffffffffffffff

def isNaN (a : Binary64) : Bool := 0x7ff0000000000000 < a.magnitude

def quiet (a : Binary64) : Binary64 := ⟨a.bits ||| 0x0008000000000000⟩

def invalid : Binary64 := ⟨0xfff8000000000000⟩

def ofFloat (x : Float) : Binary64 := if x.isNaN then invalid else ⟨x.toBits⟩

def lift (op : Float → Float → Float) (a b : Binary64) : Binary64 :=
  if a.isNaN then a.quiet
  else if b.isNaN then b.quiet
  else ofFloat (op a.toFloat b.toFloat)

def add : Binary64 → Binary64 → Binary64 := lift (· + ·)
def mul : Binary64 → Binary64 → Binary64 := lift (· * ·)
def div : Binary64 → Binary64 → Binary64 := lift (· / ·)

/-- Equality of the numbers: the two zeros are equal, and what is not a number equals nothing. -/
def numEq (a b : Binary64) : Bool :=
  !a.isNaN && !b.isNaN && (a.bits == b.bits || (a.magnitude == 0 && b.magnitude == 0))

def ofNat (n : Nat) : Binary64 := ofFloat (Float.ofNat n)

def ofInt (n : Int) : Binary64 := ofFloat (Float.ofInt n)

/-- The place of a number in the total order of all bit patterns, negative ones reversed. -/
def rank (a : Binary64) : Int :=
  if a.bits < 0x8000000000000000 then a.bits.toNat else -(a.magnitude.toNat : Int) - 1

def le (a b : Binary64) : Bool := a.rank ≤ b.rank

/-- The integer part, held to the range of 64-bit integers; zero for what is not a number. -/
def truncate (a : Binary64) : Int64 := if a.isNaN then 0 else a.toFloat.toInt64

end Binary64
end KeyedFlow
