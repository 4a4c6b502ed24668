import KeyedFlow.Proofs.Coder.Streams
import KeyedFlow.Coder.Basic
import KeyedFlow.Proofs.Outcome

/-!
Values that cross a barrier as bytes. A value crosses a coder when it can be written and what was
written reads back as one value with no byte left over; the value read may be another one. A coder
delimits a value when the value is all that is read from its bytes, whatever bytes follow them.
-/

set_option autoImplicit false

namespace KeyedFlow.Coder
open Outcome
variable {B : Type} [TypeFamily B] {τ : ElemType B}

/-- `a` is written, and read back as `b` with no trailing byte. Without a coder values stay what
they are. -/
def Crosses (c : Option (Coder τ)) (a b : τ.Carrier) : Prop :=
  match c with
  | none => b = a
  | some c => ∃ s rest, c.encode a Sink.unbounded = (.ok (), s) ∧
      c.decode (Source.ofBytes s.written) = .ok (b, rest) ∧ rest.bytes = []

theorem encodeBytes_eq_ok_iff {c : Coder τ} {a : τ.Carrier} {bytes : List UInt8} :
    c.encodeBytes a = .ok bytes ↔
      ∃ s, c.encode a Sink.unbounded = (.ok (), s) ∧ s.written = bytes := by
  unfold encodeBytes
  split
  · rename_i s h
    constructor
    · intro hb
      cases hb
      exact ⟨s, h, rfl⟩
    · rintro ⟨s', hs, rfl⟩
      cases h.symm.trans hs
      rfl
  · rename_i e s h
    constructor
    · intro hb
      cases hb
    · rintro ⟨s', hs, _⟩
      cases h.symm.trans hs

theorem decodeBytes_eq_ok_iff {c : Coder τ} {bytes : List UInt8} {a : τ.Carrier} :
    c.decodeBytes bytes = .ok a ↔
      ∃ rest, c.decode (Source.ofBytes bytes) = .ok (a, rest) ∧ rest.bytes = [] := by
  rw [decodeBytes, bind_eq_ok_iff]
  constructor
  · rintro ⟨⟨b, rest⟩, hd, hb⟩
    by_cases hr : rest.bytes = []
    · simp [hr] at hb
      subst b
      exact ⟨rest, hd, hr⟩
    · simp [hr] at hb
  · rintro ⟨rest, hd, hr⟩
    exact ⟨(a, rest), hd, by simp [hr]⟩

theorem crosses_some_iff {c : Coder τ} {a b : τ.Carrier} :
    Crosses (some c) a b ↔ ∃ bytes, c.encodeBytes a = .ok bytes ∧ c.decodeBytes bytes = .ok b := by
  simp only [Crosses, encodeBytes_eq_ok_iff, decodeBytes_eq_ok_iff]
  constructor
  · rintro ⟨s, rest, he, hd, hr⟩
    exact ⟨_, ⟨s, he, rfl⟩, rest, hd, hr⟩
  · rintro ⟨_, ⟨s, he, rfl⟩, rest, hd, hr⟩
    exact ⟨s, rest, he, hd, hr⟩

/-- Whatever was written before, `a` is written as the same bytes after it, and these read back as
`b` with none left over. -/
def ReadsBack (c : Coder τ) (a b : τ.Carrier) : Prop :=
  ∃ bytes rest, (∀ written, c.encode a ⟨written, none⟩ = (.ok (), ⟨written ++ bytes, none⟩)) ∧
    c.decode (Source.ofBytes bytes) = .ok (b, rest) ∧ rest.bytes = []

theorem ReadsBack.crosses {c : Coder τ} {a b : τ.Carrier} (h : c.ReadsBack a b) :
    Crosses (some c) a b := by
  obtain ⟨bytes, rest, hwrite, hread, hrest⟩ := h
  exact ⟨_, rest, hwrite [], hread, hrest⟩

/-- `a` is written as `bytes`, and `bytes` at the front of a source are read as `b`. -/
structure Sends (c : Coder τ) (a b : τ.Carrier) (bytes : List UInt8) : Prop where
  encode : c.encode a = Sink.write bytes
  decode : Source.Reads c.decode bytes b

theorem Sends.encodeBytes {c : Coder τ} {a b : τ.Carrier} {bytes : List UInt8}
    (h : c.Sends a b bytes) : c.encodeBytes a = .ok bytes :=
  encodeBytes_eq_ok_iff.mpr ⟨⟨bytes, none⟩, by rw [h.encode]; rfl, rfl⟩

/-- `a` is written as `bytes`, and `bytes` at the front of a source are read as `a`. -/
structure Delimits (c : Coder τ) (a : τ.Carrier) (bytes : List UInt8) : Prop where
  encode : c.encode a = Sink.write bytes
  decode : Source.Reads c.decode bytes a

theorem Sends.delimits {c : Coder τ} {a : τ.Carrier} {bytes : List UInt8}
    (h : c.Sends a a bytes) : c.Delimits a bytes := ⟨h.encode, h.decode⟩

namespace Delimits
variable {c : Coder τ} {a : τ.Carrier} {bytes : List UInt8}

theorem sends (h : c.Delimits a bytes) : c.Sends a a bytes := ⟨h.encode, h.decode⟩

theorem readsBack (h : c.Delimits a bytes) : c.ReadsBack a a := by
  refine ⟨bytes, ⟨[], none⟩, fun written => by rw [h.encode]; rfl, ?_, rfl⟩
  have hread := h.decode [] none
  rwa [List.append_nil] at hread

theorem encodeBytes (h : c.Delimits a bytes) : c.encodeBytes a = .ok bytes :=
  h.sends.encodeBytes

theorem decodeBytes (h : c.Delimits a bytes) : c.decodeBytes bytes = .ok a := by
  have hread := h.decode [] none
  rw [List.append_nil] at hread
  exact decodeBytes_eq_ok_iff.mpr ⟨⟨[], none⟩, hread, rfl⟩

end Delimits

section Holder
variable (c : Coder τ) {o p : Option τ.Carrier}

theorem holder_encode (o : Option τ.Carrier) : c.holder.encode ⟨o⟩ = c.option.encode o := by
  cases o with
  | none => rfl
  | some a => rfl

theorem holder_decode : c.holder.decode = (do let o ← c.option.decode; return ⟨o⟩) := rfl

variable {c}

theorem ReadsBack.option (h : ∀ v, o = some v → c.ReadsBack v v) : c.option.ReadsBack o o := by
  cases o with
  | none => exact ⟨[0], ⟨[], none⟩, fun _ => rfl, rfl, rfl⟩
  | some v =>
    obtain ⟨bytes, rest, hwrite, hread, hrest⟩ := h v rfl
    refine ⟨1 :: bytes, rest, ?_, ?_, hrest⟩
    · intro written
      change c.encode v ⟨written ++ [1], none⟩ = _
      rw [hwrite, List.append_assoc]
      rfl
    · exact run_bind (f := fun v => pure (some v)) hread

theorem ReadsBack.holder (h : c.option.ReadsBack o p) : c.holder.ReadsBack ⟨o⟩ ⟨p⟩ := by
  obtain ⟨bytes, rest, hwrite, hread, hrest⟩ := h
  refine ⟨bytes, rest, fun written => ?_, ?_, hrest⟩
  · rw [holder_encode, hwrite]
  · rw [holder_decode]
    exact run_bind (f := fun o => pure (Holder.mk o)) hread

end Holder

section Union
variable {ι α : ElemType B} {i : Coder ι} {c : Coder α}

theorem ReadsBack.input {a b : ι.Carrier} (h : i.ReadsBack a b) :
    (i.inputOrAccum c).ReadsBack (.input a) (.input b) := by
  obtain ⟨bytes, rest, hwrite, hread, hrest⟩ := h
  refine ⟨0 :: bytes, rest, ?_, ?_, hrest⟩
  · intro written
    change i.encode a ⟨written ++ [0], none⟩ = _
    rw [hwrite, List.append_assoc]
    rfl
  · exact run_bind (f := fun v => pure (InputOrAccum.input v)) hread

theorem ReadsBack.accum {a b : α.Carrier} (h : c.ReadsBack a b) :
    (i.inputOrAccum c).ReadsBack (.accum a) (.accum b) := by
  obtain ⟨bytes, rest, hwrite, hread, hrest⟩ := h
  refine ⟨1 :: bytes, rest, ?_, ?_, hrest⟩
  · intro written
    change c.encode a ⟨written ++ [1], none⟩ = _
    rw [hwrite, List.append_assoc]
    rfl
  · exact run_bind (f := fun v => pure (InputOrAccum.accum v)) hread

end Union
end KeyedFlow.Coder
