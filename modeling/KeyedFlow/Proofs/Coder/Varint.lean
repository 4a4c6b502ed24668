import KeyedFlow.Coder.Varint
import KeyedFlow.Proofs.Coder.Streams
import Mathlib.Algebra.BigOperators.Ring.List
import Mathlib.Algebra.Ring.Nat

/-!
Variable-length integers by the numbers that their bytes denote. A reader that has taken in the bits
below some shift goes on with the bytes of a number and adds the number above those bits, modulo
2 ^ 64; ten bytes are the most it takes. What writing a 64-bit number produces, byte by byte, denotes
that number and is no longer than that, so it reads back.
-/

set_option autoImplicit false

namespace KeyedFlow.Varint

/-- What a byte adds to a number by its seven low bits, when `d.2` bytes stand before it. -/
def share (d : UInt8 × Nat) : Nat := d.1.toNat % 128 * 2 ^ (7 * d.2)

/-- The number that bytes denote, the lowest seven bits first. -/
def value (p : List UInt8) : Nat := (p.zipIdx.map share).sum

theorem value_cons (b : UInt8) (bs : List UInt8) :
    value (b :: bs) = b.toNat % 128 + 128 * value bs := by
  have hscaled : (bs.zipIdx 1).map share = bs.zipIdx.map fun d => 128 * share d := by
    rw [List.zipIdx_succ, List.map_map]
    apply List.map_congr_left
    intro d _
    change d.1.toNat % 128 * 2 ^ (7 * (d.2 + 1)) = 128 * (d.1.toNat % 128 * 2 ^ (7 * d.2))
    rw [Nat.mul_succ, Nat.pow_add, ← Nat.mul_assoc, Nat.mul_comm]
  rw [value, List.zipIdx_cons, List.map_cons, List.sum_cons, hscaled, List.sum_map_mul_left]
  exact congrArg (· + 128 * value bs) (Nat.mul_one _)

theorem value_singleton (b : UInt8) : value [b] = b.toNat % 128 := value_cons b []

/-- The bytes of one number, which goes on up to the first byte below 0x80. -/
inductive Numeral : List UInt8 → Prop where
  | last {b : UInt8} (hb : b < 0x80) : Numeral [b]
  | more {b : UInt8} {bs : List UInt8} (hb : ¬ b < 0x80) (h : Numeral bs) : Numeral (b :: bs)

theorem Numeral.length_pos {p : List UInt8} (h : Numeral p) : 0 < p.length := by
  cases h <;> exact Nat.succ_pos _

/-- Bits put above all others are added to them; those above the 64th are lost. -/
theorem or_shiftLeft {acc shift : Nat} {b : UInt8} (hshift : shift < 64) (hacc : acc < 2 ^ shift) :
    UInt64.ofNat acc ||| ((b &&& 0x7f).toUInt64 <<< UInt64.ofNat shift) =
      UInt64.ofNat (acc + b.toNat % 128 * 2 ^ shift) := by
  have hpow : 2 ^ shift < 2 ^ 64 := Nat.pow_lt_pow_right (by decide) hshift
  have hlow : (b &&& 0x7f).toNat = b.toNat % 128 := by
    rw [UInt8.toNat_and]
    exact Nat.and_two_pow_sub_one_eq_mod b.toNat 7
  have hkept : b.toNat % 128 * 2 ^ shift % 2 ^ 64 =
      2 ^ shift * (b.toNat % 128 % 2 ^ (64 - shift)) := by
    have hsplit : 2 ^ 64 = 2 ^ shift * 2 ^ (64 - shift) := by
      rw [← Nat.pow_add, Nat.add_sub_cancel' (Nat.le_of_lt hshift)]
    rw [hsplit, Nat.mul_comm, Nat.mul_mod_mul_left]
  have hor : acc ||| b.toNat % 128 * 2 ^ shift % 2 ^ 64 =
      acc + b.toNat % 128 * 2 ^ shift % 2 ^ 64 := by
    rw [hkept, Nat.or_comm, ← Nat.two_pow_add_eq_or_of_lt hacc, Nat.add_comm]
  have hsum : acc + b.toNat % 128 * 2 ^ shift % 2 ^ 64 < 2 ^ 64 := by
    rw [← hor]
    exact Nat.or_lt_two_pow (Nat.lt_trans hacc hpow) (Nat.mod_lt _ (Nat.two_pow_pos 64))
  apply UInt64.toNat_inj.mp
  rw [UInt64.toNat_or, UInt64.toNat_shiftLeft, UInt8.toNat_toUInt64, hlow,
    UInt64.toNat_ofNat_of_lt' (Nat.lt_trans hacc hpow),
    UInt64.toNat_ofNat_of_lt' (show shift < 2 ^ 64 by omega), UInt64.toNat_ofNat',
    Nat.mod_eq_of_lt hshift, Nat.shiftLeft_eq, hor, ← Nat.add_mod_mod, Nat.mod_eq_of_lt hsum]

section Reading
variable {coder : String} {left shift acc : Nat} {b : UInt8}

theorem readFrom_last (hb : b < 0x80) (hshift : shift < 64) (hacc : acc < 2 ^ shift) :
    Source.Reads (readFrom coder (left + 1) (UInt64.ofNat shift) (UInt64.ofNat acc)) [b]
      (UInt64.ofNat (acc + b.toNat % 128 * 2 ^ shift)) := by
  rw [← or_shiftLeft hshift hacc]
  intro rest failure
  rw [readFrom]
  change (if b < 0x80 then pure _ else _ : Decoding UInt64) _ = _
  rw [if_pos hb]
  rfl

theorem readFrom_more {bs : List UInt8} {result : UInt64} (hb : ¬ b < 0x80) (hshift : shift < 64)
    (hacc : acc < 2 ^ shift)
    (h : Source.Reads (readFrom coder left (UInt64.ofNat (shift + 7))
      (UInt64.ofNat (acc + b.toNat % 128 * 2 ^ shift))) bs result) :
    Source.Reads (readFrom coder (left + 1) (UInt64.ofNat shift) (UInt64.ofNat acc)) (b :: bs)
      result := by
  rw [← or_shiftLeft hshift hacc, UInt64.ofNat_add] at h
  intro rest failure
  rw [readFrom]
  change (if b < 0x80 then _ else readFrom _ _ _ _ : Decoding UInt64) _ = _
  rw [if_neg hb]
  exact h rest failure

/-- On the bytes of the number: each takes in seven bits and leaves room for one byte less. -/
theorem reads_readFrom {p : List UInt8} (hp : Numeral p) (hlen : p.length ≤ left)
    (hshift : shift + 7 * left = 70) (hacc : acc < 2 ^ shift) :
    Source.Reads (readFrom coder left (UInt64.ofNat shift) (UInt64.ofNat acc)) p
      (UInt64.ofNat (acc + value p * 2 ^ shift)) := by
  induction hp generalizing left shift acc with
  | last hb =>
    cases left with
    | zero => cases hlen
    | succ left =>
      rw [value_singleton]
      exact readFrom_last hb (by omega) hacc
  | @more b bs hb h ih =>
    cases left with
    | zero => cases hlen
    | succ left =>
      have hbs : bs.length ≤ left := Nat.le_of_succ_le_succ hlen
      have hpos := h.length_pos
      have hpow : 2 ^ (shift + 7) = 128 * 2 ^ shift := by rw [Nat.pow_add, Nat.mul_comm]
      have hlow : b.toNat % 128 * 2 ^ shift ≤ 127 * 2 ^ shift :=
        Nat.mul_le_mul_right _ (by omega)
      have hacc' : acc + b.toNat % 128 * 2 ^ shift < 2 ^ (shift + 7) := by omega
      have hrest := ih hbs (by omega) hacc'
      have hvalue : acc + b.toNat % 128 * 2 ^ shift + value bs * 2 ^ (shift + 7) =
          acc + value (b :: bs) * 2 ^ shift := by
        rw [value_cons, hpow, ← Nat.mul_assoc, Nat.add_assoc, ← Nat.add_mul,
          Nat.mul_comm (value bs)]
      rw [hvalue] at hrest
      exact readFrom_more hb (by omega) hacc hrest

theorem reads_numeral (coder : String) {p : List UInt8} (hp : Numeral p) (hlen : p.length ≤ 10) :
    Source.Reads (read coder) p (UInt64.ofNat (value p)) := by
  have h : Source.Reads (readFrom coder 10 (UInt64.ofNat 0) (UInt64.ofNat 0)) p
      (UInt64.ofNat (0 + value p * 2 ^ 0)) :=
    reads_readFrom hp hlen rfl Nat.one_pos
  rwa [Nat.zero_add, Nat.pow_zero, Nat.mul_one] at h

end Reading

section Encoding

theorem encode_of_lt {n : Nat} (h : n < 128) : encode n = [UInt8.ofNat n] := by
  rw [encode, if_pos h]

theorem encode_of_le {n : Nat} (h : 128 ≤ n) :
    encode n = UInt8.ofNat (n % 128 + 128) :: encode (n / 128) := by
  rw [encode, if_neg (Nat.not_lt.mpr h)]

theorem low_byte (n : UInt64) : (n &&& 0x7f).toUInt8 = UInt8.ofNat (n.toNat % 128) := by
  apply UInt8.toNat_inj.mp
  rw [UInt64.toNat_toUInt8, UInt64.toNat_and, UInt8.toNat_ofNat']
  exact congrArg (· % 256) (Nat.and_two_pow_sub_one_eq_mod n.toNat 7)

theorem or_high_bit {k : Nat} (h : k < 128) : UInt8.ofNat k ||| 0x80 = UInt8.ofNat (k + 128) := by
  have hor : 128 ||| k = 128 + k := (Nat.two_pow_add_eq_or_of_lt (i := 7) h 1).symm
  apply UInt8.toNat_inj.mp
  rw [UInt8.toNat_or, UInt8.toNat_ofNat', UInt8.toNat_ofNat', Nat.mod_eq_of_lt (by omega),
    Nat.mod_eq_of_lt (by omega), Nat.or_comm, Nat.add_comm]
  exact hor

/-- A sink fares alike whether the bytes of a number come one by one or in one piece. -/
theorem write_eq (n : UInt64) : write n = Sink.write (encode n.toNat) := by
  induction h : n.toNat using Nat.strongRecOn generalizing n with
  | ind m ih =>
    subst h
    rw [write]
    by_cases hsmall : n.toNat < 128
    · rw [if_pos (shiftRight_seven_eq_zero_iff.mpr hsmall), low_byte, Nat.mod_eq_of_lt hsmall,
        encode_of_lt hsmall]
    · have hrest : write (n >>> 7) = Sink.write (encode (n.toNat / 128)) :=
        ih _ (by omega) _ (shiftRight_seven n)
      rw [if_neg (mt shiftRight_seven_eq_zero_iff.mp hsmall), low_byte,
        or_high_bit (Nat.mod_lt _ (by decide)), encode_of_le (Nat.not_lt.mp hsmall)]
      exact Sink.seq_eq_write rfl hrest

theorem numeral_encode (n : Nat) : Numeral (encode n) := by
  induction n using Nat.strongRecOn with
  | ind n ih =>
    by_cases hsmall : n < 128
    · rw [encode_of_lt hsmall]
      apply Numeral.last
      rw [UInt8.lt_iff_toNat_lt, UInt8.toNat_ofNat']
      change n % 2 ^ 8 < 128
      omega
    · rw [encode_of_le (Nat.not_lt.mp hsmall)]
      refine .more ?_ (ih (n / 128) (by omega))
      rw [UInt8.lt_iff_toNat_lt, UInt8.toNat_ofNat']
      change ¬ (n % 128 + 128) % 2 ^ 8 < 128
      omega

theorem value_encode (n : Nat) : value (encode n) = n := by
  induction n using Nat.strongRecOn with
  | ind n ih =>
    by_cases hsmall : n < 128
    · rw [encode_of_lt hsmall, value_singleton, UInt8.toNat_ofNat']
      omega
    · rw [encode_of_le (Nat.not_lt.mp hsmall), value_cons, ih (n / 128) (by omega),
        UInt8.toNat_ofNat']
      omega

theorem length_encode_le {n k : Nat} (hn : n < 128 ^ (k + 1)) : (encode n).length ≤ k + 1 := by
  induction k generalizing n with
  | zero =>
    rw [encode_of_lt hn]
    exact Nat.le_refl 1
  | succ k ih =>
    by_cases hsmall : n < 128
    · rw [encode_of_lt hsmall]
      exact Nat.succ_le_succ (Nat.zero_le _)
    · rw [encode_of_le (Nat.not_lt.mp hsmall)]
      exact Nat.succ_le_succ (ih (Nat.div_lt_of_lt_mul (Nat.pow_succ' ▸ hn)))

theorem reads_read (coder : String) {n : Nat} (hn : n < 2 ^ 64) :
    Source.Reads (read coder) (encode n) (UInt64.ofNat n) := by
  have h := reads_numeral coder (numeral_encode n)
    (length_encode_le (k := 9) (Nat.lt_trans hn (by decide)))
  rwa [value_encode] at h

end Encoding
end KeyedFlow.Varint
