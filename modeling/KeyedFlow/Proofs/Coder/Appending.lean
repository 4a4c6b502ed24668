import KeyedFlow.Proofs.Coder.Crossing
import KeyedFlow.Proofs.Coder.Varint

/-!
Coders that only write. Whatever is already in a sink, such a coder puts the same bytes after it and
succeeds or fails alike. The coders of the library do so as long as the coders of others that they
are built over do. An input therefore crosses a barrier by the coder of inputs and accumulators just
as it does by its own coder, which may fail, lose information or leave bytes unread.
-/

set_option autoImplicit false

namespace KeyedFlow

namespace Sink

/-- Writing that does not depend on what is written already. -/
def Appends (e : Encoding Unit) : Prop :=
  ∃ (outcome : Except CoderError Unit) (bytes : List UInt8),
    ∀ written, e ⟨written, none⟩ = (outcome, ⟨written ++ bytes, none⟩)

namespace Appends
variable {e e' : Encoding Unit}

theorem pure : Appends (Pure.pure ()) :=
  ⟨.ok (), [], fun written => by rw [List.append_nil]; rfl⟩

theorem write (bytes : List UInt8) : Appends (Sink.write bytes) := ⟨.ok (), bytes, fun _ => rfl⟩

theorem varint (n : UInt64) : Appends (Varint.write n) := by
  rw [Varint.write_eq]
  exact .write _

theorem seq (h : Appends e) (h' : Appends e') : Appends (do e; e') := by
  obtain ⟨outcome, bytes, he⟩ := h
  obtain ⟨outcome', bytes', he'⟩ := h'
  cases outcome with
  | ok a =>
    refine ⟨outcome', bytes ++ bytes', fun written => ?_⟩
    rw [bind_of_ok (he written), he', List.append_assoc]
  | error err => exact ⟨.error err, bytes, fun written => bind_of_error (he written)⟩

theorem encodeMany {α : Type} {encode : α → Encoding Unit} (h : ∀ a, Appends (encode a))
    (as : List α) : Appends (Coder.encodeMany encode as) := by
  induction as with
  | nil => exact pure
  | cons a as ih => exact (h a).seq ih

end Appends
end Sink

namespace Coder
open Sink
variable {B : Type} [TypeFamily B] {ι α : ElemType B}

/-- The custom coders that a coder is built over only write. -/
def CustomsAppend : {τ : ElemType B} → Coder τ → Prop
  | _, pair k v => k.CustomsAppend ∧ v.CustomsAppend
  | _, list c => c.CustomsAppend
  | _, option c => c.CustomsAppend
  | _, holder c => c.CustomsAppend
  | _, inputOrAccum i a => i.CustomsAppend ∧ a.CustomsAppend
  | _, custom c => ∀ a, Appends (c.encode a)
  | _, _ => True

theorem appends {τ : ElemType B} (c : Coder τ) (hc : c.CustomsAppend) (a : τ.Carrier) :
    Appends (c.encode a) := by
  induction c with
  | int32 | int64 | uint32 | uint64 | binary64 | bool => exact .write _
  | varint => exact .varint _
  | string => exact (Appends.varint _).seq (.write _)
  | unit => exact .pure
  | pair k v ihk ihv => exact (ihk hc.1 a.1).seq (ihv hc.2 a.2)
  | list c ih => exact (Appends.varint _).seq (.encodeMany (ih hc) a)
  | option c ih =>
    cases a with
    | none => exact .write _
    | some a => exact (Appends.write _).seq (ih hc a)
  | holder c ih =>
    obtain ⟨o⟩ := a
    cases o with
    | none => exact .write _
    | some a => exact (Appends.write _).seq (ih hc a)
  | inputOrAccum i c ihi ihc =>
    cases a with
    | input v => exact (Appends.write _).seq (ihi hc.1 v)
    | accum v => exact (Appends.write _).seq (ihc hc.2 v)
  | serial f d => exact (Appends.varint _).seq (.write _)
  | custom c => exact hc a

/-- An input crosses by the union coder as it does by its own. -/
theorem crosses_input_iff {i : Coder ι} (hi : i.CustomsAppend) (c : Coder α) {v : ι.Carrier}
    {y : InputOrAccum ι.Carrier α.Carrier} :
    Crosses (some (i.inputOrAccum c)) (.input v) y ↔
      ∃ u, Crosses (some i) v u ∧ .input u = y := by
  obtain ⟨outcome, bytes, hencode⟩ := i.appends hi v
  have hunion : (i.inputOrAccum c).encode (.input v) Sink.unbounded =
      (outcome, ⟨0 :: bytes, none⟩) := hencode [0]
  have hdecode (rest : Source) : (i.inputOrAccum c).decode (Source.ofBytes (0 :: bytes)) =
      .ok (y, rest) ↔ ∃ u, i.decode (Source.ofBytes bytes) = .ok (u, rest) ∧ .input u = y := by
    change (i.decode (Source.ofBytes bytes) >>= fun r =>
      (.ok (InputOrAccum.input r.1, r.2) : Except CoderError _)) = _ ↔ _
    rw [Outcome.bind_eq_ok_iff]
    constructor
    · rintro ⟨⟨u, t⟩, hu, heq⟩
      cases heq
      exact ⟨u, hu, rfl⟩
    · rintro ⟨u, hu, rfl⟩
      exact ⟨(u, rest), hu, rfl⟩
  have hplain : i.encode v Sink.unbounded = (outcome, ⟨bytes, none⟩) := hencode []
  constructor
  · rintro ⟨s, rest, hs, hread, hrest⟩
    cases hs.symm.trans hunion
    obtain ⟨u, hu, rfl⟩ := (hdecode rest).mp hread
    exact ⟨u, ⟨_, rest, hplain, hu, hrest⟩, rfl⟩
  · rintro ⟨u, ⟨s, rest, hs, hread, hrest⟩, hy⟩
    cases hs.symm.trans hplain
    exact ⟨_, rest, hunion, (hdecode rest).mpr ⟨u, hread, hy⟩, hrest⟩

end Coder
end KeyedFlow
