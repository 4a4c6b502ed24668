import KeyedFlow.Proofs.Coder.Varint
import KeyedFlow.Serial

/-!
Numbers in serial form. Readers in a row take their bytes off the front in a row. A number of at
most 64 bits is read as it was written, since it fits into ten bytes of which the last holds a
single bit; so a 64-bit integer is, and a window function of fixed windows is read as the size and
the offset that are there, as far as these make fixed windows.
-/

set_option autoImplicit false

namespace KeyedFlow.SerialForm
open Outcome Varint
variable {α β : Type} {r : SerialReader α} {bs cs : List UInt8} {a : α} {b : β}

/-- `bytes` in front are read as `a`, whatever follows them. -/
def Takes (r : SerialReader α) (bytes : List UInt8) (a : α) : Prop :=
  ∀ rest, r (bytes ++ rest) = .ok (a, rest)

namespace Takes

theorem pure (a : α) : Takes (pure a) [] a := fun _ => rfl

theorem bind {k : α → SerialReader β} (h : Takes r bs a) (h' : Takes (k a) cs b) :
    Takes (r >>= k) (bs ++ cs) b := by
  intro rest
  rw [List.append_assoc, run_bind (h (cs ++ rest))]
  exact h' rest

theorem bind_pure {k : α → SerialReader β} (h : Takes r bs a) (hk : k a = Pure.pure b) :
    Takes (r >>= k) bs b := by
  have hrest : Takes (k a) [] b := hk ▸ Takes.pure b
  have hbind := h.bind hrest
  rwa [List.append_nil] at hbind

end Takes

theorem takes_readVarintFrom {p : List UInt8} (hp : Numeral p) {last left scale acc : Nat}
    (hlen : p.length ≤ left + 1) (hfit : value p < (last + 1) * 128 ^ left) :
    Takes (readVarintFrom last (left + 1) scale acc) p (acc + value p * scale) := by
  -- each byte but the last takes seven bits off what has to fit
  induction hp generalizing left scale acc with
  | @last b hb =>
    have hsmall : b.toNat < 128 := hb
    rw [value_singleton] at hfit ⊢
    have hfits : ¬ (left = 0 ∧ last < b.toNat) := by
      rintro ⟨rfl, hlast⟩
      omega
    intro rest
    rw [readVarintFrom, run_bind (s := [b] ++ rest) (t := rest) rfl, if_pos hb, if_neg hfits]
    rfl
  | @more b bs hb h ih =>
    cases left with
    | zero =>
      have hpos := h.length_pos
      rw [List.length_cons] at hlen
      omega
    | succ left =>
      rw [value_cons] at hfit ⊢
      have hbs : value bs < (last + 1) * 128 ^ left := by
        rw [Nat.pow_succ, ← Nat.mul_assoc] at hfit
        omega
      have hvalue : acc + b.toNat % 128 * scale + value bs * (scale * 128) =
          acc + (b.toNat % 128 + 128 * value bs) * scale := by
        rw [Nat.add_mul, Nat.add_assoc, Nat.mul_assoc 128, Nat.mul_comm 128, Nat.mul_assoc]
      intro rest
      rw [readVarintFrom, run_bind (s := b :: bs ++ rest) (t := bs ++ rest) rfl, if_neg hb,
        ih (Nat.le_of_succ_le_succ hlen) hbs, hvalue]

theorem takes_readVarint {n : Nat} (hn : n < 2 ^ 64) : Takes (readVarint 64) (encode n) n := by
  have hlen := length_encode_le (k := 9) (Nat.lt_trans hn (by decide))
  have hfit : value (encode n) < (1 + 1) * 128 ^ 9 := by
    rw [value_encode]
    exact hn
  have htakes : Takes (readVarint 64) (encode n) (0 + value (encode n) * 1) :=
    takes_readVarintFrom (numeral_encode n) hlen hfit
  rwa [value_encode, Nat.mul_one, Nat.zero_add] at htakes

theorem fold_lt (a : Int64) : fold a.toInt < 2 ^ 64 := by
  have hlow := Int64.le_toInt a
  have hhigh := Int64.toInt_lt a
  unfold fold
  split <;> omega

theorem takes_int64 (a : Int64) : Takes int64.read (int64.write a) a := by
  refine (takes_readVarint (fold_lt a)).bind_pure ?_
  change pure (Int64.ofInt (unfold (fold a.toInt))) = _
  rw [unfold_fold, Int64.ofInt_toInt]

theorem length_int64_write_le (a : Int64) : (int64.write a).length ≤ 10 :=
  length_encode_le (k := 9) (Nat.lt_trans (fold_lt a) (by decide))

/-- What stands for fixed windows of that size and offset, whether there are such windows or not. -/
def fixedBytes (size offset : Int64) : List UInt8 :=
  1 :: (int64.write size ++ int64.write offset)

theorem length_fixedBytes_lt (size offset : Int64) : (fixedBytes size offset).length < 2 ^ 64 := by
  have hsize := length_int64_write_le size
  have hoffset := length_int64_write_le offset
  rw [fixedBytes, List.length_cons, List.length_append]
  omega

theorem windowFn_read_fixedBytes (size offset : Int64) :
    windowFn.read (fixedBytes size offset) =
      match FixedWindows.of? size offset with
      | some w => .ok (.fixed w, [])
      | none => .error .refused := by
  have hpair : Takes (int64.pair int64).read (int64.write size ++ int64.write offset)
      (size, offset) := (takes_int64 size).bind ((takes_int64 offset).bind_pure rfl)
  have hread := hpair []
  rw [List.append_nil] at hread
  have hfixed : fixedWindows.read (int64.write size ++ int64.write offset) =
      match FixedWindows.of? size offset with
      | some w => .ok (w, [])
      | none => .error .refused :=
    FixedWindows.reading_of_ok (fun _ => SerialError.refused) hread
  change (fixedWindows.read (int64.write size ++ int64.write offset) >>= fun d => _) = _
  rw [hfixed]
  cases FixedWindows.of? size offset <;> rfl

end KeyedFlow.SerialForm
