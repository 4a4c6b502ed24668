import KeyedFlow.Proofs.Coder.RoundTrip

/-!
Sinks that run full. A coder of the library writes a value part by part, and yet any sink fares as
if all bytes came in one piece: the parts that fit are there, of the first one that does not its
beginning, and nothing of those after it. So what a full sink holds is the front of the bytes of the
value, and the sink is at fault exactly when they do not all fit, wherever among the parts the room
ends.
-/

set_option autoImplicit false

namespace KeyedFlow

theorem Sink.write_limited (bs written : List UInt8) (l : SinkLimit) :
    write bs ⟨written, some l⟩ =
      (if bs.length ≤ l.room then .ok () else .error (.io l.failure),
        ⟨written ++ bs.take l.room, some ⟨l.room - bs.length, l.failure⟩⟩) := by
  by_cases h : bs.length ≤ l.room
  · rw [write_of_le h, if_pos h, List.take_of_length_le h]
  · have hlt : l.room < bs.length := Nat.not_le.mp h
    rw [write_of_lt hlt, if_neg h, Nat.sub_eq_zero_of_le hlt.le]

namespace Coder
variable {B : Type} [TypeFamily B]

theorem exists_encodeMany_eq_write {α : Type} {e : α → Encoding Unit} {as : List α}
    (h : ∀ a ∈ as, ∃ bytes, e a = Sink.write bytes) :
    ∃ bytes, encodeMany e as = Sink.write bytes := by
  obtain ⟨parts, hparts⟩ := Outcome.exists_forall₂_iff.mpr h
  exact ⟨parts.flatten, encodeMany_eq_write hparts⟩

/-- By recursion on the coder. What is written need not be read back, so no length is bounded. -/
theorem exists_encode_eq_write {τ : ElemType B} (c : Coder τ) (hc : c.Standard) (a : τ.Carrier) :
    ∃ bytes, c.encode a = Sink.write bytes := by
  induction c with
  | int32 | int64 | uint32 | uint64 | binary64 | bool => exact ⟨_, rfl⟩
  | varint => exact ⟨_, Varint.write_eq _⟩
  | string => exact ⟨_, Sink.seq_eq_write (Varint.write_eq _) rfl⟩
  | unit => exact ⟨[], Sink.write_nil.symm⟩
  | pair k v ihk ihv =>
    obtain ⟨bs, hbs⟩ := ihk hc.1 a.1
    obtain ⟨cs, hcs⟩ := ihv hc.2 a.2
    exact ⟨bs ++ cs, Sink.seq_eq_write hbs hcs⟩
  | list c ih =>
    obtain ⟨bs, hbs⟩ := exists_encodeMany_eq_write fun b (_ : b ∈ a) => ih hc b
    exact ⟨_, Sink.seq_eq_write (Varint.write_eq _) hbs⟩
  | option c ih =>
    cases a with
    | none => exact ⟨_, rfl⟩
    | some a =>
      obtain ⟨bs, hbs⟩ := ih hc a
      exact ⟨1 :: bs, Sink.seq_eq_write rfl hbs⟩
  | holder c ih =>
    obtain ⟨o⟩ := a
    cases o with
    | none => exact ⟨_, rfl⟩
    | some a =>
      obtain ⟨bs, hbs⟩ := ih hc a
      exact ⟨1 :: bs, Sink.seq_eq_write rfl hbs⟩
  | inputOrAccum i c ihi ihc =>
    cases a with
    | input v =>
      obtain ⟨bs, hbs⟩ := ihi hc.1 v
      exact ⟨0 :: bs, Sink.seq_eq_write rfl hbs⟩
    | accum v =>
      obtain ⟨bs, hbs⟩ := ihc hc.2 v
      exact ⟨1 :: bs, Sink.seq_eq_write rfl hbs⟩
  | serial f deterministic => exact ⟨_, Sink.seq_eq_write (Varint.write_eq _) rfl⟩
  | custom c => exact hc.elim

/-- A sink with room for `n` more bytes takes the first `n` bytes of a value, or all of them, after
what it holds; writing succeeds exactly when they all fit, and else reports the sink's failure. -/
theorem encode_fills_sink {τ : ElemType B} {c : Coder τ} (hc : c.Standard) (a : τ.Carrier) :
    ∃ bytes, c.encodeBytes a = .ok bytes ∧ ∀ written n failure, ∃ outcome,
      c.encode a ⟨written, some ⟨n, failure⟩⟩ =
        (outcome, ⟨written ++ bytes.take n, some ⟨n - bytes.length, failure⟩⟩) ∧
      (outcome = .ok () ↔ bytes.length ≤ n) ∧
      (outcome = .error (.io failure) ↔ n < bytes.length) := by
  obtain ⟨bytes, hencode⟩ := exists_encode_eq_write c hc a
  refine ⟨bytes, encodeBytes_eq_ok_iff.mpr ⟨⟨bytes, none⟩, by rw [hencode]; rfl, rfl⟩, ?_⟩
  intro written n failure
  refine ⟨_, by rw [hencode, Sink.write_limited], Outcome.ite_eq_ok_iff, ?_⟩
  by_cases h : bytes.length ≤ n
  · simp [h]
  · simp [h, Nat.not_le.mp h]

def namedUnits : Coder (.list (.pair (.option .string) .unit) : Sample.Ty) :=
  .list (.pair (.option .string) .unit)

/-- The room ends within the name, and just before the last unit. -/
theorem encode_fills_sink_of_namedUnits :
    namedUnits.encode [(some "ab", ()), (none, ())] (Sink.bounded 4 "full") =
      (.error (.io "full"), ⟨[2, 1, 2, 97], some ⟨0, "full"⟩⟩) ∧
    namedUnits.encode [(some "ab", ()), (none, ())] (Sink.bounded 6 "full") =
      (.ok (), ⟨[2, 1, 2, 97, 98, 0], some ⟨0, "full"⟩⟩) := by
  have hstandard : namedUnits.Standard := ⟨trivial, trivial⟩
  have hwritten : namedUnits.encodeBytes [(some "ab", ()), (none, ())] =
      .ok [2, 1, 2, 97, 98, 0] := by decide +kernel
  obtain ⟨bytes, hbytes, hfills⟩ := encode_fills_sink hstandard [(some "ab", ()), (none, ())]
  cases hbytes.symm.trans hwritten
  obtain ⟨short, hshort, _, hfull⟩ := hfills [] 4 "full"
  obtain ⟨long, hlong, hok, _⟩ := hfills [] 6 "full"
  rw [hfull.mpr (by decide)] at hshort
  rw [hok.mpr (by decide)] at hlong
  exact ⟨hshort, hlong⟩

end Coder
end KeyedFlow
