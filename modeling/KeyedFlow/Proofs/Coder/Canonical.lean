import KeyedFlow.Proofs.Coder.RoundTrip

/-!
One spelling for each value. A coder built without variable-length numbers reads a value from
exactly the bytes that it writes for it. So it accepts a byte string just when that is the encoding
of a value, and then of one only; and wherever in the string a presence, tag or truth byte is
neither 0 nor 1, the whole string is malformed.
-/

set_option autoImplicit false

namespace KeyedFlow
open Outcome

namespace Source
variable {α β : Type} {d : Decoding α} {P : α → List UInt8 → Prop}

/-- Whatever is read is taken from the front, and the bytes taken are as `P` says. -/
def Consumes (d : Decoding α) (P : α → List UInt8 → Prop) : Prop :=
  ∀ s a t, d s = .ok (a, t) → ∃ taken, s.bytes = taken ++ t.bytes ∧ P a taken

namespace Consumes
variable {Q : β → List UInt8 → Prop}

theorem pure {a : α} (h : P a []) : Consumes (Pure.pure a) P := by
  intro s b t hread
  cases hread
  exact ⟨[], rfl, h⟩

theorem throw (e : CoderError) : Consumes (throw e : Decoding α) P := fun _ _ _ => nofun

theorem bind {f : α → Decoding β} (h : Consumes d P)
    (hf : ∀ a p, P a p → Consumes (f a) fun b q => Q b (p ++ q)) : Consumes (d >>= f) Q := by
  intro s b t hread
  obtain ⟨a, u, ha, hb⟩ := exists_of_bind hread
  obtain ⟨p, hp, hap⟩ := h s a u ha
  obtain ⟨q, hq, hbq⟩ := hf a p hap u b t hb
  exact ⟨p ++ q, by rw [hp, hq, List.append_assoc], hbq⟩

theorem ite {p : Prop} [Decidable p] {d' : Decoding α} (h : p → Consumes d P)
    (h' : ¬ p → Consumes d' P) : Consumes (if p then d else d') P := by
  split
  · exact h ‹_›
  · exact h' ‹_›

theorem readByte (coder : String) : Consumes (Source.readByte coder) fun b p => p = [b] := by
  rintro ⟨bytes, failure⟩ a t hread
  cases bytes with
  | cons b bs =>
    cases hread
    exact ⟨[a], rfl, rfl⟩
  | nil =>
    cases failure with
    | none => cases hread
    | some f => cases hread

theorem readExactly (coder : String) (n : Nat) :
    Consumes (Source.readExactly coder n) fun bs p => p = bs ∧ bs.length = n := by
  rintro ⟨bytes, failure⟩ a t hread
  unfold Source.readExactly at hread
  by_cases hn : n ≤ bytes.length
  · rw [if_pos hn] at hread
    cases hread
    exact ⟨_, (List.take_append_drop n bytes).symm, rfl, List.length_take_of_le hn⟩
  · rw [if_neg hn] at hread
    cases failure with
    | none => cases hread
    | some f => cases hread

end Consumes
end Source

open Source

namespace Coder
variable {B : Type} [TypeFamily B]

/-- What is read was taken from the bytes that are written for it. -/
def Retraces {τ : ElemType B} (c : Coder τ) : Prop :=
  Consumes c.decode fun a bytes => c.encode a = Sink.write bytes

/-- Built from coders of fixed-width numbers, truth values and units, and never by one that writes
a number of variable length. -/
def VarintFree : {τ : ElemType B} → Coder τ → Prop
  | _, int32 => True
  | _, int64 => True
  | _, uint32 => True
  | _, uint64 => True
  | _, binary64 => True
  | _, bool => True
  | _, unit => True
  | _, pair k v => k.VarintFree ∧ v.VarintFree
  | _, option c => c.VarintFree
  | _, holder c => c.VarintFree
  | _, inputOrAccum i a => i.VarintFree ∧ a.VarintFree
  | _, _ => False

namespace VarintFree
variable {τ : ElemType B} {c : Coder τ}

theorem standard (h : c.VarintFree) : c.Standard := by
  induction c with
  | int32 | int64 | uint32 | uint64 | binary64 | bool | unit => trivial
  | pair k v ihk ihv => exact ⟨ihk h.1, ihv h.2⟩
  | option c ih => exact ih h
  | holder c ih => exact ih h
  | inputOrAccum i c ihi ihc => exact ⟨ihi h.1, ihc h.2⟩
  | varint | string | list | serial | custom => exact h.elim

theorem fits (h : c.VarintFree) (a : τ.Carrier) : c.Fits a := by
  induction c with
  | int32 | int64 | uint32 | uint64 | binary64 | bool | unit => trivial
  | pair k v ihk ihv => exact ⟨ihk h.1 a.1, ihv h.2 a.2⟩
  | option c ih => exact fun b _ => ih h b
  | holder c ih => exact fun b _ => ih h b
  | inputOrAccum i c ihi ihc =>
    cases a with
    | input v => exact ihi h.1 v
    | accum v => exact ihc h.2 v
  | varint | string | list | serial | custom => exact h.elim

theorem exists_delimits (h : c.VarintFree) (a : τ.Carrier) : ∃ bytes, c.Delimits a bytes :=
  Coder.exists_delimits c h.standard a (h.fits a)

end VarintFree

section Leaves

theorem consumes_bigEndian {α : Type} (coder : String) {k : Nat} {g : Nat → α}
    {e : α → Encoding Unit}
    (h : ∀ n, n < 256 ^ k → e (g n) = Sink.write (FixedWidth.bigEndian k n)) :
    Consumes (do let bs ← Source.readExactly coder k; return g (FixedWidth.ofBigEndian bs))
      fun a bytes => e a = Sink.write bytes := by
  refine (Consumes.readExactly coder k).bind ?_
  rintro bs _ ⟨rfl, hlen⟩
  refine .pure ?_
  rw [List.append_nil, h _ (FixedWidth.ofBigEndian_lt hlen), FixedWidth.bigEndian_ofBigEndian hlen]

theorem retraces_int32 : (int32 : Coder (B := B) .int32).Retraces := by
  refine consumes_bigEndian "I32Coder" (g := fun n => Int32.ofBitVec (BitVec.ofNat 32 n))
    fun n hn => ?_
  change Sink.write (FixedWidth.bigEndian 4 (BitVec.ofNat 32 n).toNat) = _
  rw [BitVec.toNat_ofNat, Nat.mod_eq_of_lt (show n < 2 ^ 32 from hn)]

theorem retraces_int64 : (int64 : Coder (B := B) .int64).Retraces := by
  refine consumes_bigEndian "I64Coder" (g := fun n => Int64.ofBitVec (BitVec.ofNat 64 n))
    fun n hn => ?_
  change Sink.write (FixedWidth.bigEndian 8 (BitVec.ofNat 64 n).toNat) = _
  rw [BitVec.toNat_ofNat, Nat.mod_eq_of_lt (show n < 2 ^ 64 from hn)]

theorem retraces_uint32 : (uint32 : Coder (B := B) .uint32).Retraces := by
  refine consumes_bigEndian "U32Coder" fun n hn => ?_
  change Sink.write (FixedWidth.bigEndian 4 (UInt32.ofNat n).toNat) = _
  rw [UInt32.toNat_ofNat_of_lt' hn]

theorem retraces_uint64 : (uint64 : Coder (B := B) .uint64).Retraces := by
  refine consumes_bigEndian "U64Coder" fun n hn => ?_
  change Sink.write (FixedWidth.bigEndian 8 (UInt64.ofNat n).toNat) = _
  rw [UInt64.toNat_ofNat_of_lt' hn]

theorem retraces_binary64 : (binary64 : Coder (B := B) .binary64).Retraces := by
  refine consumes_bigEndian "F64Coder" (g := fun n => Binary64.mk (UInt64.ofNat n)) fun n hn => ?_
  change Sink.write (FixedWidth.bigEndian 8 (UInt64.ofNat n).toNat) = _
  rw [UInt64.toNat_ofNat_of_lt' hn]

theorem retraces_bool : (bool : Coder (B := B) .bool).Retraces := by
  refine (Consumes.readByte "BoolCoder").bind ?_
  rintro b _ rfl
  refine .ite (fun hb => .pure ?_) fun _ => .ite (fun hb => .pure ?_) fun _ => .throw _
  · subst hb
    rfl
  · subst hb
    rfl

end Leaves

section Composite
variable {σ τ : ElemType B} {c : Coder τ}

theorem Retraces.pair {k : Coder σ} (hk : k.Retraces) (hc : c.Retraces) :
    (k.pair c).Retraces := by
  refine hk.bind fun x p hx => ?_
  refine hc.bind fun y q hy => .pure ?_
  rw [List.append_nil]
  exact Sink.seq_eq_write hx hy

theorem Retraces.option (hc : c.Retraces) : c.option.Retraces := by
  refine (Consumes.readByte "NullableCoder").bind ?_
  rintro b _ rfl
  refine .ite (fun hb => .pure ?_) fun _ => .ite (fun hb => ?_) fun _ => .throw _
  · subst hb
    rfl
  · subst hb
    refine hc.bind fun a p ha => .pure ?_
    rw [List.append_nil]
    exact Sink.seq_eq_write rfl ha

theorem Retraces.holder (hc : c.option.Retraces) : c.holder.Retraces := by
  refine hc.bind fun o p ho => .pure ?_
  rw [List.append_nil]
  exact (holder_encode c o).trans ho

theorem Retraces.inputOrAccum {i : Coder σ} (hi : i.Retraces) (hc : c.Retraces) :
    (i.inputOrAccum c).Retraces := by
  refine (Consumes.readByte "InputOrAccumCoder").bind ?_
  rintro b _ rfl
  refine .ite (fun hb => ?_) fun _ => .ite (fun hb => ?_) fun _ => .throw _
  · subst hb
    refine hi.bind fun v p hv => .pure ?_
    rw [List.append_nil]
    exact Sink.seq_eq_write rfl hv
  · subst hb
    refine hc.bind fun v p hv => .pure ?_
    rw [List.append_nil]
    exact Sink.seq_eq_write rfl hv

end Composite

theorem VarintFree.retraces {τ : ElemType B} {c : Coder τ} (h : c.VarintFree) : c.Retraces := by
  induction c with
  | int32 => exact retraces_int32
  | int64 => exact retraces_int64
  | uint32 => exact retraces_uint32
  | uint64 => exact retraces_uint64
  | binary64 => exact retraces_binary64
  | bool => exact retraces_bool
  | unit => exact .pure Sink.write_nil.symm
  | pair k v ihk ihv => exact (ihk h.1).pair (ihv h.2)
  | option c ih => exact (ih h).option
  | holder c ih => exact (ih h).option.holder
  | inputOrAccum i c ihi ihc => exact (ihi h.1).inputOrAccum (ihc h.2)
  | varint | string | list | serial | custom => exact h.elim

theorem Retraces.encodeBytes {τ : ElemType B} {c : Coder τ} (h : c.Retraces) {a : τ.Carrier}
    {bytes : List UInt8} (hread : c.decodeBytes bytes = .ok a) : c.encodeBytes a = .ok bytes := by
  obtain ⟨rest, hdecode, hrest⟩ := decodeBytes_eq_ok_iff.mp hread
  obtain ⟨taken, htaken, hwrite⟩ := h _ a rest hdecode
  rw [hrest, List.append_nil] at htaken
  subst htaken
  exact encodeBytes_eq_ok_iff.mpr ⟨⟨bytes, none⟩, by rw [hwrite]; rfl, rfl⟩

/-- Reading `bytes` by a coder comes upon a presence, tag or truth byte that is neither 0 nor 1, at
any depth; the coder whose byte it is goes by `name` and refuses it for `reason`. -/
inductive Strays : {τ : ElemType B} → Coder τ → List UInt8 → (name reason : String) → Prop where
  | truth {b : UInt8} {rest : List UInt8} (h : b ≠ 0) (h' : b ≠ 1) :
      Strays (bool : Coder (B := B) .bool) (b :: rest) "BoolCoder" s!"unexpected byte {b.toNat}"
  | presence {τ : ElemType B} (c : Coder τ) {b : UInt8} {rest : List UInt8} (h : b ≠ 0)
      (h' : b ≠ 1) :
      Strays c.option (b :: rest) c.option.describe s!"unexpected presence byte {b.toNat}"
  | present {τ : ElemType B} {c : Coder τ} {bytes : List UInt8} {name reason : String}
      (h : Strays c bytes name reason) : Strays c.option (1 :: bytes) name reason
  | held {τ : ElemType B} {c : Coder τ} {bytes : List UInt8} {name reason : String}
      (h : Strays c.option bytes name reason) : Strays c.holder bytes name reason
  | tag {ι α : ElemType B} (i : Coder ι) (c : Coder α) {b : UInt8} {rest : List UInt8} (h : b ≠ 0)
      (h' : b ≠ 1) :
      Strays (i.inputOrAccum c) (b :: rest) (i.inputOrAccum c).describe
        s!"unexpected tag byte {b.toNat}"
  | input {ι α : ElemType B} {i : Coder ι} (c : Coder α) {bytes : List UInt8}
      {name reason : String} (h : Strays i bytes name reason) :
      Strays (i.inputOrAccum c) (0 :: bytes) name reason
  | accum {ι α : ElemType B} (i : Coder ι) {c : Coder α} {bytes : List UInt8}
      {name reason : String} (h : Strays c bytes name reason) :
      Strays (i.inputOrAccum c) (1 :: bytes) name reason
  | key {σ τ : ElemType B} {k : Coder σ} (v : Coder τ) {bytes : List UInt8}
      {name reason : String} (h : Strays k bytes name reason) :
      Strays (k.pair v) bytes name reason
  | value {σ τ : ElemType B} {k : Coder σ} {v : Coder τ} {x : σ.Carrier}
      {taken bytes : List UInt8} {name reason : String} (hkey : k.encodeBytes x = .ok taken)
      (h : Strays v bytes name reason) : Strays (k.pair v) (taken ++ bytes) name reason

/-- The readers before a stray byte read what they would write, so its coder comes upon it. -/
theorem Strays.decode_eq {τ : ElemType B} {c : Coder τ} {bytes : List UInt8}
    {name reason : String} (h : c.Strays bytes name reason) (hc : c.VarintFree)
    (failure : Option String) :
    c.decode ⟨bytes, failure⟩ = .error (.malformed name reason) := by
  have hbyte (coder : String) (b : UInt8) (rest : List UInt8) :
      Source.readByte coder ⟨b :: rest, failure⟩ = .ok (b, ⟨rest, failure⟩) := rfl
  induction h with
  | truth h h' =>
    rw [decode, run_bind (hbyte _ _ _), if_neg h, if_neg h']
    rfl
  | presence c h h' =>
    rw [decode, decodeOption, run_bind (hbyte _ _ _), if_neg h, if_neg h']
    rfl
  | present _ ih =>
    rw [decode, decodeOption, run_bind (hbyte _ _ _)]
    exact run_bind_error (ih hc)
  | held _ ih => exact run_bind_error (ih hc)
  | tag i c h h' =>
    rw [decode, run_bind (hbyte _ _ _), if_neg h, if_neg h']
    rfl
  | input c _ ih =>
    rw [decode, run_bind (hbyte _ _ _)]
    exact run_bind_error (ih hc.1)
  | accum i _ ih =>
    rw [decode, run_bind (hbyte _ _ _)]
    exact run_bind_error (ih hc.2)
  | key v _ ih => exact run_bind_error (ih hc.1)
  | @value σ τ k v x taken bytes name reason hkey _ ih =>
    obtain ⟨p, hdelimits⟩ := hc.1.exists_delimits x
    cases hkey.symm.trans hdelimits.encodeBytes
    rw [decode, run_bind (hdelimits.decode bytes failure)]
    exact run_bind_error (ih hc.2)

/-- A byte string is read as a value exactly when it is what is written for that value; so it is
accepted when some value is written so, and then no other one is. A byte out of place at any depth
makes the whole string malformed. -/
theorem decodeBytes_accepts_encodings {τ : ElemType B} {c : Coder τ} (hc : c.VarintFree) :
    (∀ bytes a, c.decodeBytes bytes = .ok a ↔ c.encodeBytes a = .ok bytes) ∧
    (∀ bytes, (∃ a, c.decodeBytes bytes = .ok a) ↔ ∃! a, c.encodeBytes a = .ok bytes) ∧
    ∀ bytes name reason, c.Strays bytes name reason →
      c.decodeBytes bytes = .error (.malformed name reason) := by
  have hiff (bytes : List UInt8) (a : τ.Carrier) :
      c.decodeBytes bytes = .ok a ↔ c.encodeBytes a = .ok bytes := by
    refine ⟨hc.retraces.encodeBytes, fun hwrite => ?_⟩
    obtain ⟨p, hdelimits⟩ := hc.exists_delimits a
    cases hwrite.symm.trans hdelimits.encodeBytes
    exact hdelimits.decodeBytes
  refine ⟨hiff, fun bytes => ⟨?_, ?_⟩, fun bytes name reason h => ?_⟩
  · rintro ⟨a, ha⟩
    refine ⟨a, (hiff bytes a).mp ha, fun b hb => ?_⟩
    cases ha.symm.trans ((hiff bytes b).mpr hb)
    rfl
  · rintro ⟨a, ha, _⟩
    exact ⟨a, (hiff bytes a).mpr ha⟩
  · rw [decodeBytes, Source.ofBytes, h.decode_eq hc none]
    rfl

/-- Readings, each a small number or a large one, and whether it is certain if that is known. -/
def certainReading : Coder (.pair (.inputOrAccum .uint32 .uint64) (.holder .bool) : Sample.Ty) :=
  .pair (.inputOrAccum .uint32 .uint64) (.holder .bool)

theorem decodeBytes_accepts_encodings_of_certainReading :
    certainReading.decodeBytes [0, 0, 0, 1, 2, 1, 1] = .ok (.input 258, ⟨some true⟩) ∧
    certainReading.decodeBytes [0, 0, 0, 1, 2, 3, 1] =
      .error (.malformed "NullableCoder(BoolCoder)" "unexpected presence byte 3") := by
  have hfree : certainReading.VarintFree := ⟨⟨trivial, trivial⟩, trivial⟩
  obtain ⟨hiff, _, hstray⟩ := decodeBytes_accepts_encodings hfree
  have hkey : (Coder.inputOrAccum .uint32 .uint64 : Coder (.inputOrAccum .uint32 .uint64 :
      Sample.Ty)).encodeBytes (.input 258) = .ok [0, 0, 0, 1, 2] := by decide +kernel
  refine ⟨(hiff _ _).mpr (by decide +kernel), hstray _ _ _ (.value hkey (.held ?_))⟩
  exact .presence .bool (by decide) (by decide)

end Coder
end KeyedFlow
