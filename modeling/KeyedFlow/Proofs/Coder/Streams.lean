import KeyedFlow.Proofs.Outcome

/-!
Writing and reading, by the bytes that go over. Writing one part after another is writing all bytes
at once, also where a sink runs full in between. A reader that takes its bytes from the front takes
them whatever follows, and readers in a row take their bytes in a row. Where one of them finds the
bytes malformed, the whole row does.
-/

set_option autoImplicit false

namespace KeyedFlow

namespace Sink
variable {bs cs : List UInt8} {written : List UInt8} {l : SinkLimit} {s t : Sink}

theorem write_of_le (h : bs.length ≤ l.room) :
    write bs ⟨written, some l⟩ =
      (.ok (), ⟨written ++ bs, some ⟨l.room - bs.length, l.failure⟩⟩) :=
  if_pos h

theorem write_of_lt (h : l.room < bs.length) :
    write bs ⟨written, some l⟩ =
      (.error (.io l.failure), ⟨written ++ bs.take l.room, some ⟨0, l.failure⟩⟩) :=
  if_neg (Nat.not_le.mpr h)

theorem bind_of_ok {e : Encoding Unit} {f : Unit → Encoding Unit} (h : e s = (.ok (), t)) :
    (e >>= f) s = f () t := by
  change (match e s with | (r, t) => ExceptT.bindCont f r t) = _
  rw [h]
  rfl

theorem bind_of_error {e : Encoding Unit} {f : Unit → Encoding Unit} {err : CoderError}
    (h : e s = (.error err, t)) : (e >>= f) s = (.error err, t) := by
  change (match e s with | (r, t) => ExceptT.bindCont f r t) = _
  rw [h]
  rfl

theorem write_nil : write [] = pure () := by
  funext s
  obtain ⟨written, limit⟩ := s
  cases limit with
  | none =>
    change (Except.ok (), Sink.mk (written ++ []) none) = _
    rw [List.append_nil]
    rfl
  | some l =>
    rw [write_of_le (Nat.zero_le _), List.append_nil]
    rfl

/-- A sink that runs full within the second part keeps what fits of both. -/
theorem write_append (bs cs : List UInt8) : (do write bs; write cs) = write (bs ++ cs) := by
  funext s
  obtain ⟨written, limit⟩ := s
  cases limit with
  | none =>
    change write cs ⟨written ++ bs, none⟩ = write (bs ++ cs) ⟨written, none⟩
    simp [write]
  | some l =>
    by_cases hbs : bs.length ≤ l.room
    · rw [bind_of_ok (write_of_le hbs)]
      by_cases hcs : (bs ++ cs).length ≤ l.room
      · rw [write_of_le hcs]
        rw [List.length_append] at hcs
        rw [write_of_le (show cs.length ≤ l.room - bs.length by omega)]
        simp [Nat.sub_sub]
      · rw [write_of_lt (Nat.not_le.mp hcs)]
        rw [List.length_append] at hcs
        rw [write_of_lt (show l.room - bs.length < cs.length by omega)]
        simp [List.take_append, List.take_of_length_le hbs]
    · have hall : l.room < (bs ++ cs).length := by
        rw [List.length_append]
        omega
      have htake : (bs ++ cs).take l.room = bs.take l.room :=
        List.take_append_of_le_length (Nat.le_of_not_le hbs)
      rw [bind_of_error (write_of_lt (Nat.not_le.mp hbs)), write_of_lt hall, htake]

theorem seq_eq_write {e e' : Encoding Unit} (h : e = write bs) (h' : e' = write cs) :
    (do e; e') = write (bs ++ cs) := by
  rw [h, h', write_append]

end Sink

namespace Source
variable {α β : Type} {bs cs : List UInt8} {a : α} {b : β} {d : Decoding α}

/-- `bytes` at the front of a source are read as `a`, whatever follows them. -/
def Reads (d : Decoding α) (bytes : List UInt8) (a : α) : Prop :=
  ∀ rest failure, d ⟨bytes ++ rest, failure⟩ = .ok (a, ⟨rest, failure⟩)

theorem Reads.pure (a : α) : Reads (pure a) [] a := fun _ _ => rfl

theorem Reads.bind {f : α → Decoding β} (h : Reads d bs a) (h' : Reads (f a) cs b) :
    Reads (d >>= f) (bs ++ cs) b := by
  intro rest failure
  rw [List.append_assoc, Outcome.run_bind (h (cs ++ rest) failure)]
  exact h' rest failure

theorem Reads.bind_pure {f : α → Decoding β} (h : Reads d bs a) (hf : f a = Pure.pure b) :
    Reads (d >>= f) bs b := by
  have hrest : Reads (f a) [] b := hf ▸ Reads.pure b
  have hbind := h.bind hrest
  rwa [List.append_nil] at hbind

theorem reads_byte (coder : String) (b : UInt8) : Reads (readByte coder) [b] b := fun _ _ => rfl

theorem reads_exactly (coder : String) {n : Nat} (hn : bs.length = n) :
    Reads (readExactly coder n) bs bs := by
  intro rest failure
  simp [readExactly, ← hn]

theorem reads_upTo {n : Nat} (hn : bs.length = n) : Reads (readUpTo n) bs bs := by
  intro rest failure
  simp [readUpTo, ← hn]

theorem exists_of_bind {f : α → Decoding β} {s t : Source} (h : (d >>= f) s = .ok (b, t)) :
    ∃ a u, d s = .ok (a, u) ∧ f a u = .ok (b, t) := by
  change (d s >>= fun r => f r.1 r.2) = _ at h
  cases hd : d s with
  | ok r =>
    rw [hd] at h
    exact ⟨r.1, r.2, rfl, h⟩
  | error e =>
    rw [hd] at h
    cases h

/-- What is left of a source is malformed for the reader. -/
def Refuses (d : Decoding α) (s : Source) : Prop :=
  ∃ coder reason, d s = .error (.malformed coder reason)

theorem Refuses.bind {s : Source} (h : Refuses d s) (f : α → Decoding β) :
    Refuses (d >>= f) s := by
  obtain ⟨coder, reason, hd⟩ := h
  exact ⟨coder, reason, Outcome.run_bind_error hd⟩

end Source
end KeyedFlow
