import KeyedFlow.Proofs.Coder.RoundTrip

/-!
Streams that break off. From the bytes at the front of a source a reader either reads a value, or
refuses them whatever follows, or asks for more; readers in a row do so as each of them does. What
was written of a value is read, so each proper beginning of it makes the reader ask for more: where
the source ends there it is malformed, and where it fails there the failure is what is reported.
-/

set_option autoImplicit false

namespace KeyedFlow
open Outcome

namespace Source
variable {α β : Type} {d : Decoding α} {bytes : List UInt8}

/-- The reader asks for more than `bytes`. -/
structure Starves (d : Decoding α) (bytes : List UInt8) : Prop where
  ended : Refuses d ⟨bytes, none⟩
  failed : ∀ failure, d ⟨bytes, some failure⟩ = .error (.io failure)

/-- What a reader makes of bytes at the front of a source. -/
inductive Verdict (d : Decoding α) (bytes : List UInt8) : Prop where
  | reads {taken rest : List UInt8} {a : α} (hb : bytes = taken ++ rest) (h : Reads d taken a)
  | refuses (h : ∀ rest failure, Refuses d ⟨bytes ++ rest, failure⟩)
  | starves (h : Starves d bytes)

/-- How a reader takes the bytes it has does not depend on what follows them. -/
def Steady (d : Decoding α) : Prop := ∀ bytes, Verdict d bytes

theorem Starves.bind (h : Starves d bytes) (f : α → Decoding β) : Starves (d >>= f) bytes where
  ended := h.ended.bind f
  failed failure := run_bind_error (h.failed failure)

namespace Steady

theorem pure (a : α) : Steady (Pure.pure a : Decoding α) := fun bytes =>
  .reads (List.nil_append bytes).symm (.pure a)

theorem malformed (coder reason : String) : Steady (throw (.malformed coder reason) : Decoding α) :=
  fun _ => .refuses fun _ _ => ⟨coder, reason, rfl⟩

theorem bind {f : α → Decoding β} (hd : Steady d) (hf : ∀ a, Steady (f a)) :
    Steady (d >>= f) := by
  intro bytes
  cases hd bytes with
  | @reads taken rest a hb h =>
    subst hb
    cases hf a rest with
    | @reads taken' rest' b hb' h' =>
      subst hb'
      exact .reads (List.append_assoc taken taken' rest').symm (h.bind h')
    | refuses h' =>
      refine .refuses fun more failure => ?_
      rw [Refuses, List.append_assoc, run_bind (h _ _)]
      exact h' more failure
    | starves h' =>
      refine .starves ⟨?_, fun failure => ?_⟩
      · rw [Refuses, run_bind (h _ _)]
        exact h'.ended
      · rw [run_bind (h _ _)]
        exact h'.failed failure
  | refuses h => exact .refuses fun rest failure => (h rest failure).bind f
  | starves h => exact .starves (h.bind f)

theorem ite {p : Prop} [Decidable p] {d' : Decoding α} (hd : Steady d) (hd' : Steady d') :
    Steady (if p then d else d') := by
  split
  · exact hd
  · exact hd'

theorem readByte (coder : String) : Steady (Source.readByte coder) := by
  intro bytes
  cases bytes with
  | nil => exact .starves ⟨⟨coder, _, rfl⟩, fun _ => rfl⟩
  | cons b bs => exact .reads rfl (reads_byte coder b)

theorem readExactly (coder : String) (n : Nat) : Steady (Source.readExactly coder n) := by
  intro bytes
  by_cases hn : n ≤ bytes.length
  · exact .reads (List.take_append_drop n bytes).symm
      (reads_exactly coder (List.length_take_of_le hn))
  · refine .starves ⟨⟨coder, "unexpected end of stream", ?_⟩, fun failure => ?_⟩
    · exact if_neg hn
    · exact if_neg hn

theorem readUpTo (coder : String) (n : Nat) (reason : List UInt8 → String) :
    Steady (do
      let bs ← Source.readUpTo n
      if bs.length = n then Pure.pure bs else throw (.malformed coder (reason bs))) := by
  intro bytes
  by_cases hn : n ≤ bytes.length
  · have hlen : (bytes.take n).length = n := List.length_take_of_le hn
    exact .reads (List.take_append_drop n bytes).symm ((reads_upTo hlen).bind_pure (if_pos hlen))
  · -- the reader itself takes what there is, so the check after it has to refuse
    have hshort : bytes.length ≠ n := fun h => hn (Nat.le_of_eq h.symm)
    have hended : Source.readUpTo n ⟨bytes, none⟩ = .ok (bytes, ⟨[], none⟩) := if_neg hn
    have hfailed (f : String) : Source.readUpTo n ⟨bytes, some f⟩ = .error (.io f) := if_neg hn
    refine .starves ⟨⟨coder, reason bytes, ?_⟩, fun failure => ?_⟩
    · rw [run_bind hended, if_neg hshort]
      rfl
    · exact run_bind_error (hfailed failure)

theorem starves (hd : Steady d) {a : α} (h : Reads d bytes a) {p : List UInt8}
    (hp : p <+: bytes) (hne : p ≠ bytes) : Starves d p := by
  obtain ⟨q, rfl⟩ := hp
  have hread : d ⟨p ++ q, none⟩ = .ok (a, ⟨[], none⟩) := by
    have := h [] none
    rwa [List.append_nil] at this
  cases hd p with
  | @reads taken rest b hb h' =>
    -- the value read would be the same, and leave `q` unread
    subst hb
    rw [List.append_assoc, h'] at hread
    have hrest : rest ++ q = [] := congrArg (fun r => r.2.bytes) (Except.ok.inj hread)
    rw [(List.append_eq_nil_iff.mp hrest).2, List.append_nil] at hne
    exact absurd rfl hne
  | refuses h' =>
    obtain ⟨coder, reason, hrefused⟩ := h' q none
    cases hread.symm.trans hrefused
  | starves h' => exact h'

end Steady
end Source

open Source

namespace Varint

theorem steady_readFrom (coder : String) (left : Nat) (shift acc : UInt64) :
    Steady (readFrom coder left shift acc) := by
  induction left generalizing shift acc with
  | zero => exact (Steady.readByte coder).bind fun _ => .malformed _ _
  | succ left ih => exact (Steady.readByte coder).bind fun b => (Steady.pure _).ite (ih _ _)

theorem steady_read (coder : String) : Steady (read coder) := steady_readFrom coder 10 0 0

theorem steady_readBytes (coder : String) : Steady (readBytes coder) :=
  (steady_read coder).bind fun _ => .readUpTo coder _ _

end Varint

namespace Coder
variable {B : Type} [TypeFamily B]

theorem steady_decodeMany {α : Type} {d : Decoding α} (hd : Steady d) (n : Nat) :
    Steady (decodeMany d n) := by
  induction n with
  | zero => exact .pure []
  | succ n ih => exact hd.bind fun a => ih.bind fun as => .pure (a :: as)

theorem steady_decodeOption {α : Type} (name : String) {d : Decoding α} (hd : Steady d) :
    Steady (decodeOption name d) :=
  (Steady.readByte _).bind fun _ =>
    (Steady.pure none).ite ((hd.bind fun a => .pure (some a)).ite (.malformed _ _))

theorem steady_decode {τ : ElemType B} (c : Coder τ) (hc : c.Standard) : Steady c.decode := by
  -- each coder reads bytes, numbers and what its components read, in a row
  induction c with
  | int32 | int64 | uint32 | uint64 | binary64 =>
    exact (Steady.readExactly _ _).bind fun bs => .pure _
  | varint => exact (Varint.steady_read _).bind fun n => (Steady.pure _).ite (.malformed _ _)
  | bool =>
    exact (Steady.readByte _).bind fun b =>
      (Steady.pure _).ite ((Steady.pure _).ite (.malformed _ _))
  | string =>
    refine (Varint.steady_readBytes _).bind fun bs => ?_
    cases Utf8.decode bs with
    | ok s => exact .pure s
    | error e => exact .malformed _ _
  | unit => exact .pure ()
  | pair k v ihk ihv => exact (ihk hc.1).bind fun a => (ihv hc.2).bind fun b => .pure (a, b)
  | list c ih => exact (Varint.steady_read _).bind fun n => steady_decodeMany (ih hc) n.toNat
  | option c ih => exact steady_decodeOption _ (ih hc)
  | holder c ih => exact (steady_decodeOption _ (ih hc)).bind fun o => .pure _
  | inputOrAccum i c ihi ihc =>
    exact (Steady.readByte _).bind fun b =>
      ((ihi hc.1).bind fun v => .pure _).ite
        (((ihc hc.2).bind fun v => .pure _).ite (.malformed _ _))
  | serial f d =>
    refine (Varint.steady_readBytes _).bind fun bs => ?_
    cases f.read bs with
    | ok r => exact .pure r.1
    | error e => exact .malformed _ _
  | custom c => exact hc.elim

theorem decodeBytes_of_refuses {τ : ElemType B} {c : Coder τ} {bytes : List UInt8}
    (h : Refuses c.decode ⟨bytes, none⟩) :
    ∃ coder reason, c.decodeBytes bytes = .error (.malformed coder reason) := by
  obtain ⟨coder, reason, hdecode⟩ := h
  refine ⟨coder, reason, ?_⟩
  rw [decodeBytes, Source.ofBytes, hdecode]
  rfl

theorem decodeBytes_of_steady {τ : ElemType B} {c : Coder τ} (hc : Steady c.decode)
    (bytes : List UInt8) : (∃ a, c.decodeBytes bytes = .ok a) ∨
      ∃ coder reason, c.decodeBytes bytes = .error (.malformed coder reason) := by
  cases hc bytes with
  | @reads taken rest a hb h =>
    subst hb
    rw [decodeBytes, Source.ofBytes, h, Outcome.ok_bind]
    by_cases hrest : rest.isEmpty = true
    · exact .inl ⟨a, if_pos hrest⟩
    · exact .inr ⟨_, _, if_neg hrest⟩
  | refuses h => exact .inr (decodeBytes_of_refuses (List.append_nil bytes ▸ h [] none))
  | starves h => exact .inr (decodeBytes_of_refuses h.ended)

/-- All that was written of a value is read, whatever follows it. Where the source ends before, it is
malformed, and where it fails before, the failure is reported. Bytes that are all there is never
make a failure of the source. -/
theorem decode_reports_truncation {τ : ElemType B} {c : Coder τ} (hc : c.Standard) :
    (∀ a, c.Legible a → ∃ b bytes, c.encodeBytes a = .ok bytes ∧ (c.Fits a → b = a) ∧
      (∀ rest failure, c.decode ⟨bytes ++ rest, failure⟩ = .ok (b, ⟨rest, failure⟩)) ∧
      ∀ p, p <+: bytes → p ≠ bytes →
        (∃ coder reason, c.decode ⟨p, none⟩ = .error (.malformed coder reason)) ∧
        ∀ failure, c.decode ⟨p, some failure⟩ = .error (.io failure)) ∧
    ∀ bytes, (∃ a, c.decodeBytes bytes = .ok a) ∨
      ∃ coder reason, c.decodeBytes bytes = .error (.malformed coder reason) := by
  have hsteady := steady_decode c hc
  refine ⟨fun a ha => ?_, decodeBytes_of_steady hsteady⟩
  obtain ⟨b, bytes, hsends, hba⟩ := exists_sends c hc a ha
  refine ⟨b, bytes, hsends.encodeBytes, hba, hsends.decode, fun p hp hne => ?_⟩
  have hstarves := hsteady.starves hsends.decode hp hne
  exact ⟨hstarves.ended, hstarves.failed⟩

def numberedMarks : Coder (.list (.pair .bool (.option .uint32)) : Sample.Ty) :=
  .list (.pair (.serial .bool false) (.option .uint32))

theorem decode_reports_truncation_of_numberedMarks :
    numberedMarks.encodeBytes [(true, some 7)] = .ok [1, 1, 1, 1, 0, 0, 0, 7] ∧
      (∃ coder reason,
        numberedMarks.decode ⟨[1, 1, 1, 1, 0], none⟩ = .error (.malformed coder reason)) ∧
      numberedMarks.decode ⟨[1, 1, 1, 1, 0], some "broken"⟩ = .error (.io "broken") := by
  have hstandard : numberedMarks.Standard := ⟨trivial, trivial⟩
  have hlegible : numberedMarks.Legible [(true, some 7)] := by
    refine ⟨by decide, fun a ha => ?_⟩
    rw [List.mem_singleton.mp ha]
    exact ⟨⟨by decide, true, [], rfl⟩, fun _ _ => trivial⟩
  have hwritten : numberedMarks.encodeBytes [(true, some 7)] = .ok [1, 1, 1, 1, 0, 0, 0, 7] := by
    decide +kernel
  obtain ⟨b, bytes, hbytes, -, -, htruncated⟩ :=
    (decode_reports_truncation hstandard).1 _ hlegible
  cases hbytes.symm.trans hwritten
  obtain ⟨hended, hfailed⟩ := htruncated [1, 1, 1, 1, 0] ⟨[0, 0, 7], rfl⟩ (by decide)
  exact ⟨hwritten, hended, hfailed "broken"⟩

end Coder
end KeyedFlow
