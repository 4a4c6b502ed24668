import KeyedFlow.Proofs.Coder.Crossing
import KeyedFlow.Proofs.Coder.Varint
import Mathlib.Algebra.Group.Nat.Defs

/-!
Coders of the primitive types. The digits of a number to the base 256 give back the number, as far
as they reach, so an integer of a fixed width reads back as it was written; and the number gives back
its digits. Whatever a coder writes after its length it reads back by that length.
-/

set_option autoImplicit false

namespace KeyedFlow

namespace FixedWidth

theorem ofLittleEndian_littleEndian (k n : Nat) :
    ofLittleEndian (littleEndian k n) = n % 256 ^ k := by
  induction k generalizing n with
  | zero => simp [littleEndian, ofLittleEndian, Nat.mod_one]
  | succ k ih =>
    have h : n % (256 * 256 ^ k) = n % 256 + 256 * (n / 256 % 256 ^ k) := Nat.mod_mul
    simp only [littleEndian, ofLittleEndian, ih, UInt8.toNat_ofNat', Nat.pow_succ', h]

theorem ofBigEndian_bigEndian (k n : Nat) : ofBigEndian (bigEndian k n) = n % 256 ^ k := by
  simp [ofBigEndian, bigEndian, ofLittleEndian_littleEndian]

theorem littleEndian_ofLittleEndian (bs : List UInt8) :
    littleEndian bs.length (ofLittleEndian bs) = bs := by
  induction bs with
  | nil => rfl
  | cons b bs ih =>
    have hb : b.toNat < 256 := b.toNat_lt
    have hlow : UInt8.ofNat (b.toNat + 256 * ofLittleEndian bs) = b := by
      rw [← UInt8.toNat_inj, UInt8.toNat_ofNat']
      omega
    have hhigh : (b.toNat + 256 * ofLittleEndian bs) / 256 = ofLittleEndian bs := by omega
    rw [List.length_cons, ofLittleEndian, littleEndian, hlow, hhigh, ih]

theorem ofLittleEndian_lt (bs : List UInt8) : ofLittleEndian bs < 256 ^ bs.length := by
  induction bs with
  | nil => exact Nat.one_pos
  | cons b bs ih =>
    have hb : b.toNat < 256 := b.toNat_lt
    rw [ofLittleEndian, List.length_cons, Nat.pow_succ']
    omega

theorem bigEndian_ofBigEndian {bs : List UInt8} {k : Nat} (h : bs.length = k) :
    bigEndian k (ofBigEndian bs) = bs := by
  have hback := littleEndian_ofLittleEndian bs.reverse
  rw [List.length_reverse, h] at hback
  rw [bigEndian, ofBigEndian, hback, List.reverse_reverse]

theorem ofBigEndian_lt {bs : List UInt8} {k : Nat} (h : bs.length = k) :
    ofBigEndian bs < 256 ^ k := by
  have hlt := ofLittleEndian_lt bs.reverse
  rwa [List.length_reverse, h] at hlt

theorem reads_bigEndian {α : Type} (coder : String) {k n : Nat} (g : Nat → α) (h : n < 256 ^ k) :
    Source.Reads (do let bs ← Source.readExactly coder k; return g (ofBigEndian bs))
      (bigEndian k n) (g n) := by
  refine (Source.reads_exactly coder (length_bigEndian k n)).bind_pure ?_
  rw [ofBigEndian_bigEndian, Nat.mod_eq_of_lt h]

end FixedWidth

namespace Varint

theorem reads_readBytes (coder : String) {bytes : List UInt8} (h : bytes.length < 2 ^ 64) :
    Source.Reads (readBytes coder) (encode bytes.length ++ bytes) bytes := by
  have hlen : (UInt64.ofNat bytes.length).toNat = bytes.length := UInt64.toNat_ofNat_of_lt' h
  refine (reads_read coder h).bind ?_
  rw [hlen]
  refine (Source.reads_upTo rfl).bind_pure ?_
  rw [if_pos rfl]

theorem write_bytes {bytes : List UInt8} (h : bytes.length < 2 ^ 64) :
    (do write (UInt64.ofNat bytes.length); Sink.write bytes) =
      Sink.write (encode bytes.length ++ bytes) := by
  refine Sink.seq_eq_write ?_ rfl
  rw [write_eq, UInt64.toNat_ofNat_of_lt' h]

end Varint

namespace Coder
variable {B : Type} [TypeFamily B]

theorem delimits_int32 (a : Int32) :
    (int32 : Coder (B := B) .int32).Delimits a (FixedWidth.bigEndian 4 a.toBitVec.toNat) where
  encode := rfl
  decode := by
    have h := FixedWidth.reads_bigEndian "I32Coder"
      (fun n => Int32.ofBitVec (BitVec.ofNat 32 n)) (k := 4) a.toBitVec.isLt
    rwa [BitVec.ofNat_toNat, BitVec.setWidth_eq] at h

theorem delimits_int64 (a : Int64) :
    (int64 : Coder (B := B) .int64).Delimits a (FixedWidth.bigEndian 8 a.toBitVec.toNat) where
  encode := rfl
  decode := by
    have h := FixedWidth.reads_bigEndian "I64Coder"
      (fun n => Int64.ofBitVec (BitVec.ofNat 64 n)) (k := 8) a.toBitVec.isLt
    rwa [BitVec.ofNat_toNat, BitVec.setWidth_eq] at h

theorem delimits_uint32 (a : UInt32) :
    (uint32 : Coder (B := B) .uint32).Delimits a (FixedWidth.bigEndian 4 a.toNat) where
  encode := rfl
  decode := by
    have h := FixedWidth.reads_bigEndian "U32Coder" UInt32.ofNat (k := 4) a.toNat_lt
    rwa [UInt32.ofNat_toNat] at h

theorem delimits_uint64 (a : UInt64) :
    (uint64 : Coder (B := B) .uint64).Delimits a (FixedWidth.bigEndian 8 a.toNat) where
  encode := rfl
  decode := by
    have h := FixedWidth.reads_bigEndian "U64Coder" UInt64.ofNat (k := 8) a.toNat_lt
    rwa [UInt64.ofNat_toNat] at h

theorem delimits_binary64 (a : Binary64) :
    (binary64 : Coder (B := B) .binary64).Delimits a (FixedWidth.bigEndian 8 a.bits.toNat) where
  encode := rfl
  decode := by
    have h := FixedWidth.reads_bigEndian "F64Coder" (fun n => Binary64.mk (UInt64.ofNat n))
      (k := 8) a.bits.toNat_lt
    rwa [UInt64.ofNat_toNat] at h

theorem delimits_varint (a : UInt32) :
    (varint : Coder (B := B) .uint32).Delimits a (Varint.encode a.toNat) where
  encode := by
    change Varint.write a.toUInt64 = _
    rw [Varint.write_eq, UInt32.toNat_toUInt64]
  decode := by
    have hsmall : a.toNat < UInt32.size := a.toNat_lt
    have hwide : a.toNat < 2 ^ 64 := Nat.lt_trans hsmall (by decide)
    have hnat : (UInt64.ofNat a.toNat).toNat = a.toNat := UInt64.toNat_ofNat_of_lt' hwide
    have hback : (UInt64.ofNat a.toNat).toUInt32 = a := by
      rw [← UInt32.toNat_inj, UInt64.toNat_toUInt32, hnat]
      exact Nat.mod_eq_of_lt hsmall
    refine (Varint.reads_read "VarIntCoder" hwide).bind_pure ?_
    rw [hnat, if_pos hsmall, hback]

theorem delimits_bool (b : Bool) :
    (bool : Coder (B := B) .bool).Delimits b [if b then 1 else 0] where
  encode := rfl
  decode := by
    cases b with
    | false => exact (Source.reads_byte "BoolCoder" 0).bind_pure rfl
    | true => exact (Source.reads_byte "BoolCoder" 1).bind_pure rfl

theorem delimits_string {s : String} (h : (Utf8.encode s).length < 2 ^ 64) :
    (string : Coder (B := B) .string).Delimits s
      (Varint.encode (Utf8.encode s).length ++ Utf8.encode s) where
  encode := Varint.write_bytes h
  decode := by
    refine (Varint.reads_readBytes "StringUtf8Coder" h).bind_pure ?_
    rw [Utf8.decode_encode]

theorem delimits_unit (u : Unit) : (unit : Coder (B := B) .unit).Delimits u [] where
  encode := Sink.write_nil.symm
  decode := .pure u

theorem uint32_readsBack (a : UInt32) : (uint32 : Coder (B := B) .uint32).ReadsBack a a :=
  (delimits_uint32 a).readsBack

end Coder
end KeyedFlow
