import KeyedFlow.Coder.Basic
import KeyedFlow.Proofs.Coder.Varint
import KeyedFlow.Proofs.Outcome
import KeyedFlow.Sample.Scalar

/-!
Which numbers are read from a stream. Reading takes the bytes of one number off the front and gives
the number they denote, modulo 2 ^ 64; a number of more than ten bytes is malformed. So numbers are
exact or refused, except for those of ten bytes whose last byte has bits above the 64th.
-/

set_option autoImplicit false

namespace KeyedFlow
open Source

namespace Varint
variable {coder : String} {p rest : List UInt8} {s t : Source} {n : UInt64}

theorem value_lt (p : List UInt8) : value p < 128 ^ p.length := by
  induction p with
  | nil => exact Nat.one_pos
  | cons b bs ih =>
    rw [value_cons, List.length_cons, Nat.pow_succ]
    omega

theorem numeral_append {init : List UInt8} {last : UInt8} (hinit : ∀ b ∈ init, ¬ b < 0x80)
    (hlast : last < 0x80) : Numeral (init ++ [last]) := by
  induction init with
  | nil => exact .last hlast
  | cons b bs ih =>
    exact .more (hinit b List.mem_cons_self) (ih fun c hc => hinit c (List.mem_cons_of_mem b hc))

theorem Numeral.eq_of_prefix {q bytes : List UInt8} (hp : Numeral p) (hq : Numeral q)
    (hpb : p <+: bytes) (hqb : q <+: bytes) : p = q := by
  -- both start with the first byte, which says whether they end there
  induction hp generalizing q bytes with
  | last hb =>
    obtain ⟨rest, rfl⟩ := hpb
    cases hq with
    | last hc => rw [(List.cons_prefix_cons.mp hqb).1]
    | more hc h => exact absurd hb ((List.cons_prefix_cons.mp hqb).1 ▸ hc)
  | more hb h ih =>
    obtain ⟨rest, rfl⟩ := hpb
    cases hq with
    | last hc => exact absurd hc ((List.cons_prefix_cons.mp hqb).1 ▸ hb)
    | more hc h' =>
      obtain ⟨rfl, hqs⟩ := List.cons_prefix_cons.mp hqb
      rw [ih h' (List.prefix_append _ rest) hqs]

/-- The numeral fills ten bytes and has bits above the 64th. -/
def Overfull (p : List UInt8) : Prop := p.length = 10 ∧ 2 ^ 64 ≤ value p

theorem value_lt_of_length_le (hlen : p.length ≤ 10) (hfull : ¬ Overfull p) :
    value p < 2 ^ 64 := by
  rcases Nat.lt_or_eq_of_le hlen with hshort | hten
  · have hnine : 128 ^ p.length ≤ 128 ^ 9 :=
      Nat.pow_le_pow_right (by decide) (Nat.le_of_lt_succ hshort)
    exact Nat.lt_of_lt_of_le (value_lt p) (Nat.le_trans hnine (by decide))
  · exact Nat.not_le.mp fun hle => hfull ⟨hten, hle⟩

theorem readFrom_cons (coder : String) (left : Nat) (shift acc : UInt64) (b : UInt8)
    (bs : List UInt8) (failure : Option String) :
    readFrom coder (left + 1) shift acc ⟨b :: bs, failure⟩ =
      if b < 0x80 then .ok (acc ||| ((b &&& 0x7f).toUInt64 <<< shift), ⟨bs, failure⟩)
      else readFrom coder left (shift + 7) (acc ||| ((b &&& 0x7f).toUInt64 <<< shift))
        ⟨bs, failure⟩ := by
  rw [readFrom]
  change (if b < 0x80 then pure _ else readFrom _ _ _ _ : Decoding UInt64) _ = _
  split <;> rfl

theorem readFrom_refuses (hp : Numeral p) {left : Nat} (hlen : left < p.length)
    (shift acc : UInt64) (rest : List UInt8) (failure : Option String) :
    Refuses (readFrom coder left shift acc) ⟨p ++ rest, failure⟩ := by
  -- one more byte is always there, so giving up comes before running out
  induction hp generalizing left shift acc with
  | last hb =>
    obtain rfl : left = 0 := Nat.lt_one_iff.mp hlen
    exact ⟨coder, _, rfl⟩
  | more hb h ih =>
    cases left with
    | zero => exact ⟨coder, _, rfl⟩
    | succ left =>
      rw [Refuses, List.cons_append, readFrom_cons, if_neg hb]
      exact ih (Nat.lt_of_succ_lt_succ hlen) _ _

theorem not_readFrom_nil {left : Nat} {shift acc : UInt64} {failure : Option String} :
    readFrom coder left shift acc ⟨[], failure⟩ ≠ .ok (n, t) := by
  intro h
  cases left <;> cases failure <;> cases h

theorem numeral_of_readFrom {left : Nat} {shift acc : UInt64}
    (h : readFrom coder left shift acc s = .ok (n, t)) :
    ∃ p, Numeral p ∧ p.length ≤ left ∧ s = ⟨p ++ t.bytes, t.failure⟩ := by
  induction left generalizing shift acc s with
  | zero =>
    obtain ⟨_ | ⟨b, bs⟩, failure⟩ := s
    · exact absurd h not_readFrom_nil
    · cases h
  | succ left ih =>
    obtain ⟨_ | ⟨b, bs⟩, failure⟩ := s
    · exact absurd h not_readFrom_nil
    · rw [readFrom_cons] at h
      by_cases hb : b < 0x80
      · rw [if_pos hb] at h
        cases h
        exact ⟨[b], .last hb, Nat.succ_le_succ (Nat.zero_le left), rfl⟩
      · rw [if_neg hb] at h
        obtain ⟨p, hp, hlen, hs⟩ := ih h
        cases hs
        exact ⟨b :: p, .more hb hp, Nat.succ_le_succ hlen, rfl⟩

theorem read_eq_ok_iff : read coder s = .ok (n, t) ↔
    ∃ p, Numeral p ∧ p.length ≤ 10 ∧ s = ⟨p ++ t.bytes, t.failure⟩ ∧
      n = UInt64.ofNat (value p) := by
  constructor
  · intro h
    obtain ⟨p, hp, hlen, rfl⟩ := numeral_of_readFrom h
    have hread := reads_numeral coder hp hlen t.bytes t.failure
    cases h.symm.trans hread
    exact ⟨p, hp, hlen, rfl, rfl⟩
  · rintro ⟨p, hp, hlen, rfl, rfl⟩
    exact reads_numeral coder hp hlen t.bytes t.failure

theorem read_refuses (coder : String) (hp : Numeral p) (hs : p <+: s.bytes)
    (hfull : ¬ Overfull p) (hbig : 2 ^ 64 ≤ value p) : Refuses (read coder) s := by
  have hlong : 10 < p.length := by
    by_contra hlen
    exact absurd (value_lt_of_length_le (Nat.not_lt.mp hlen) hfull) (Nat.not_lt.mpr hbig)
  obtain ⟨bytes, failure⟩ := s
  obtain ⟨rest, rfl⟩ := hs
  exact readFrom_refuses hp hlong 0 0 rest failure

end Varint

namespace Coder
open Varint
variable {B : Type} [TypeFamily B] {s t : Source}

theorem varint_decode_eq_ok {a : UInt32}
    (h : (varint : Coder (B := B) .uint32).decode s = .ok (a, t)) :
    ∃ n, Varint.read "VarIntCoder" s = .ok (n, t) ∧ a.toNat = n.toNat := by
  obtain ⟨n, u, hn, hu⟩ := exists_of_bind h
  by_cases hsmall : n.toNat < UInt32.size
  · rw [if_pos hsmall] at hu
    cases hu
    exact ⟨n, hn, by rw [UInt64.toNat_toUInt32, Nat.mod_eq_of_lt hsmall]⟩
  · rw [if_neg hsmall] at hu
    cases hu

/-- What the coder writes starts with a number: the value itself, a length or a count. -/
def LeadsWithNumber : {τ : ElemType B} → Coder τ → Prop
  | _, varint | _, string | _, list _ | _, serial _ _ => True
  | _, _ => False

theorem LeadsWithNumber.refuses {τ : ElemType B} {c : Coder τ} (hc : c.LeadsWithNumber)
    (h : ∀ coder, Refuses (Varint.read coder) s) : Refuses c.decode s := by
  cases c with
  | varint => exact (h _).bind _
  | string => exact ((h _).bind _).bind _
  | list c => exact (h _).bind _
  | serial f d => exact ((h _).bind _).bind _
  | _ => exact hc.elim

/-- What is read is the number that the bytes taken off the front denote, modulo 2 ^ 64. Unless the
numeral is overfull, it is that number itself, and one of 2 ^ 64 or more is malformed wherever a
value, a length or a count is read. -/
theorem read_exact_or_refused (coder : String) (s : Source) :
    (∀ n t, Varint.read coder s = .ok (n, t) ↔ ∃ p, Numeral p ∧ p.length ≤ 10 ∧
      s = ⟨p ++ t.bytes, t.failure⟩ ∧ n = UInt64.ofNat (value p)) ∧
    ((∀ p, Numeral p → p <+: s.bytes → ¬ Overfull p) →
      (∀ n t, Varint.read coder s = .ok (n, t) →
        ∃ p, Numeral p ∧ s = ⟨p ++ t.bytes, t.failure⟩ ∧ n.toNat = value p) ∧
      (∀ a t, (varint : Coder (B := B) .uint32).decode s = .ok (a, t) →
        ∃ p, Numeral p ∧ s = ⟨p ++ t.bytes, t.failure⟩ ∧ a.toNat = value p ∧ value p < 2 ^ 32) ∧
      ∀ p, Numeral p → p <+: s.bytes → 2 ^ 64 ≤ value p → Refuses (Varint.read coder) s ∧
        ∀ {τ : ElemType B} (c : Coder τ), c.LeadsWithNumber → Refuses c.decode s) := by
  have hread {coder : String} (hfull : ∀ p, Numeral p → p <+: s.bytes → ¬ Overfull p) {n t}
      (h : Varint.read coder s = .ok (n, t)) :
      ∃ p, Numeral p ∧ s = ⟨p ++ t.bytes, t.failure⟩ ∧ n.toNat = value p := by
    obtain ⟨p, hp, hlen, rfl, rfl⟩ := read_eq_ok_iff.mp h
    have hlt := value_lt_of_length_le hlen (hfull p hp (List.prefix_append p t.bytes))
    exact ⟨p, hp, rfl, UInt64.toNat_ofNat_of_lt' hlt⟩
  refine ⟨fun n t => read_eq_ok_iff, fun hfull => ⟨fun n t => hread hfull, ?_, ?_⟩⟩
  · intro a t h
    obtain ⟨n, hn, ha⟩ := varint_decode_eq_ok h
    obtain ⟨p, hp, hs, hvalue⟩ := hread hfull hn
    exact ⟨p, hp, hs, ha.trans hvalue, hvalue ▸ ha ▸ a.toNat_lt⟩
  · intro p hp hs hbig
    have hrefuses (coder : String) : Refuses (Varint.read coder) s :=
      read_refuses coder hp hs (hfull p hp hs) hbig
    exact ⟨hrefuses coder, fun c hc => hc.refuses hrefuses⟩

/-- The number 2 ^ 70, which takes eleven bytes. -/
def eleven : List UInt8 := List.replicate 10 0x80 ++ [1]

theorem read_exact_or_refused_of_eleven :
    (∃ p, Numeral p ∧ [0xac, 2, 7] = p ++ [7] ∧ value p = 300) ∧
      Refuses (list (B := Sample.Own) varint).decode ⟨eleven ++ [7], none⟩ := by
  refine ⟨?_, ?_⟩
  · have hshort : ∀ p, Numeral p → p <+: [0xac, 2, 7] → ¬ Overfull p := fun p _ hp hfull =>
      absurd (hfull.1 ▸ hp.length_le) (by decide)
    obtain ⟨p, hp, hs, hvalue⟩ := ((read_exact_or_refused (B := Sample.Own) "VarIntCoder"
      ⟨[0xac, 2, 7], none⟩).2 hshort).1 300 ⟨[7], none⟩ rfl
    exact ⟨p, hp, congrArg Source.bytes hs, hvalue.symm⟩
  · have hmore : ∀ b ∈ List.replicate 10 (0x80 : UInt8), ¬ b < 0x80 := by
      intro b hb
      rw [List.eq_of_mem_replicate hb]
      decide
    have heleven : Numeral eleven := numeral_append hmore (by decide)
    have hprefix : eleven <+: eleven ++ [7] := List.prefix_append _ _
    have hlong : ∀ p, Numeral p → p <+: eleven ++ [7] → ¬ Overfull p := by
      intro p hp hs hfull
      rw [hp.eq_of_prefix heleven hs hprefix] at hfull
      exact absurd hfull.1 (by decide)
    exact (((read_exact_or_refused "IterableCoder" ⟨eleven ++ [7], none⟩).2 hlong).2.2 eleven
      heleven hprefix (by decide)).2 _ trivial

/-- The number 2 ^ 64, which has no bit below those that are lost. -/
def overfull : List UInt8 := List.replicate 9 0x80 ++ [2]

/-- An overfull numeral is taken for a small number, and for the length of a text. -/
theorem not_read_exact_of_overfull :
    value overfull = 2 ^ 64 ∧
      (varint : Coder (B := Sample.Own) .uint32).decodeBytes overfull = .ok 0 ∧
      (string : Coder (B := Sample.Own) .string).decodeBytes overfull = .ok "" ∧
      ¬ ∀ coder s n t, Varint.read coder s = .ok (n, t) →
        ∃ p, Numeral p ∧ s = ⟨p ++ t.bytes, t.failure⟩ ∧ n.toNat = value p := by
  refine ⟨rfl, rfl, rfl, fun h => ?_⟩
  obtain ⟨p, -, hs, hvalue⟩ := h "VarIntCoder" ⟨overfull, none⟩ 0 ⟨[], none⟩ rfl
  have hs : overfull = p := (congrArg Source.bytes hs).trans (List.append_nil p)
  rw [← hs] at hvalue
  cases hvalue

end Coder
end KeyedFlow
