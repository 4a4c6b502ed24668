import KeyedFlow.Fault

/-!
Machine integers by the integers they stand for. A checked operation computes the exact integer
and succeeds exactly when that integer is in the range of the type.
-/

set_option autoImplicit false

namespace KeyedFlow

/-- A type of machine integers: a contiguous range of integers. -/
class Word (α : Type) where
  least : Int
  greatest : Int
  toInt : α → Int
  /-- The word congruent to an integer modulo the size of the type. -/
  ofInt : Int → α
  least_le : ∀ a, least ≤ toInt a
  le_greatest : ∀ a, toInt a ≤ greatest
  toInt_ofInt : ∀ n, least ≤ n → n ≤ greatest → toInt (ofInt n) = n
  ofInt_toInt : ∀ a, ofInt (toInt a) = a

namespace Word
variable {α : Type} [Word α]

def InRange (α : Type) [Word α] (n : Int) : Prop := least α ≤ n ∧ n ≤ greatest α

instance (n : Int) : Decidable (InRange α n) := inferInstanceAs (Decidable (_ ∧ _))

def exact (f : Fault) (n : Int) : Checked α :=
  if InRange α n then .ok (ofInt n) else .error f

def add (a b : α) : Checked α := exact .addOverflow (toInt a + toInt b)
def sub (a b : α) : Checked α := exact .subOverflow (toInt a - toInt b)
def mul (a b : α) : Checked α := exact .mulOverflow (toInt a * toInt b)

/-- Addition, sums out of range being reduced modulo the size of the type. -/
def wrappingAdd (a b : α) : α := ofInt (toInt a + toInt b)
def wrappingMul (a b : α) : α := ofInt (toInt a * toInt b)

theorem toInt_inRange (a : α) : InRange α (toInt a) := ⟨least_le a, le_greatest a⟩

theorem toInt_injective {a b : α} (h : toInt a = toInt b) : a = b := by
  rw [← ofInt_toInt a, ← ofInt_toInt b, h]

theorem exact_eq_ok_iff {f : Fault} {n : Int} {a : α} :
    exact f n = .ok a ↔ InRange α n ∧ toInt a = n := by
  unfold exact
  split
  · rename_i h
    constructor
    · intro e
      cases e
      exact ⟨h, toInt_ofInt n h.1 h.2⟩
    · rintro ⟨_, e⟩
      rw [← e, ofInt_toInt]
  · rename_i h
    simp [h]

theorem exact_eq_error_iff {f g : Fault} {n : Int} :
    exact (α := α) f n = .error g ↔ ¬ InRange α n ∧ g = f := by
  unfold exact
  split
  · rename_i h
    simp [h]
  · rename_i h
    simp [h, eq_comm]

theorem exact_of_inRange {f : Fault} {n : Int} (h : InRange α n) :
    exact (α := α) f n = .ok (ofInt n) := by
  simp [exact, h]

theorem add_eq_ok_iff {a b c : α} :
    add a b = .ok c ↔ InRange α (toInt a + toInt b) ∧ toInt c = toInt a + toInt b :=
  exact_eq_ok_iff

end Word

instance : Word Int32 where
  least := -2147483648
  greatest := 2147483647
  toInt := Int32.toInt
  ofInt := Int32.ofInt
  least_le a := Int32.le_toInt a
  le_greatest a := by have := Int32.toInt_lt a; omega
  toInt_ofInt n h h' := Int32.toInt_ofInt_of_le h (by omega)
  ofInt_toInt := Int32.ofInt_toInt

instance : Word Int64 where
  least := -9223372036854775808
  greatest := 9223372036854775807
  toInt := Int64.toInt
  ofInt := Int64.ofInt
  least_le a := Int64.le_toInt a
  le_greatest a := by have := Int64.toInt_lt a; omega
  toInt_ofInt n h h' := Int64.toInt_ofInt_of_le h (by omega)
  ofInt_toInt := Int64.ofInt_toInt

instance : Word UInt32 where
  least := 0
  greatest := 4294967295
  toInt a := a.toNat
  ofInt n := UInt32.ofNat (n % 4294967296).toNat
  least_le a := by omega
  le_greatest a := by have := a.toNat_lt; omega
  toInt_ofInt n h h' := by
    rw [UInt32.toNat_ofNat']
    omega
  ofInt_toInt a := by
    have := a.toNat_lt
    rw [← UInt32.toNat_inj, UInt32.toNat_ofNat']
    omega

instance : Word UInt64 where
  least := 0
  greatest := 18446744073709551615
  toInt a := a.toNat
  ofInt n := UInt64.ofNat (n % 18446744073709551616).toNat
  least_le a := by omega
  le_greatest a := by have := a.toNat_lt; omega
  toInt_ofInt n h h' := by
    rw [UInt64.toNat_ofNat']
    omega
  ofInt_toInt a := by
    have := a.toNat_lt
    rw [← UInt64.toNat_inj, UInt64.toNat_ofNat']
    omega

end KeyedFlow
