import KeyedFlow.Proofs.Coder.Leaves
import KeyedFlow.Sample.Scalar

/-!
Coders read back what they wrote. A coder delimits each value whose lengths its length fields can
count, by induction on how the coder is built: for a composite value the bytes of its parts stand
one after another, and each part is read by its own coder up to where its bytes end. So values may
be written one after another and read back one after another.
-/

set_option autoImplicit false

namespace KeyedFlow

namespace SerialForm
variable {α : Type}

/-- Reading what was written of `a` gives `a` again; bytes may be left over. -/
def Recovers (f : SerialForm α) (a : α) : Prop := ∃ rest, f.read (f.write a) = .ok (a, rest)

/-- Reading what was written of `a` gives a value, which may be another one. -/
def Rereads (f : SerialForm α) (a : α) : Prop := ∃ b rest, f.read (f.write a) = .ok (b, rest)

end SerialForm

namespace Coder
variable {B : Type} [TypeFamily B]

/-- Built from the coders of the library alone. -/
def Standard : {τ : ElemType B} → Coder τ → Prop
  | _, pair k v => k.Standard ∧ v.Standard
  | _, list c => c.Standard
  | _, option c => c.Standard
  | _, holder c => c.Standard
  | _, inputOrAccum i a => i.Standard ∧ a.Standard
  | _, custom _ => False
  | _, _ => True

/-- Every length that is written along with `a` is below 2 ^ 64, and what `a` holds in serial form
is read as it was written. -/
def Fits : {τ : ElemType B} → Coder τ → τ.Carrier → Prop
  | _, string, s => (Utf8.encode s).length < 2 ^ 64
  | _, pair k v, p => k.Fits p.1 ∧ v.Fits p.2
  | _, list c, as => as.length < 2 ^ 64 ∧ ∀ a ∈ as, c.Fits a
  | _, option c, o => ∀ a, o = some a → c.Fits a
  | _, holder c, h => ∀ a, h.value? = some a → c.Fits a
  | _, inputOrAccum i a, x =>
    match x with
    | .input v => i.Fits v
    | .accum v => a.Fits v
  | _, serial f _, v => (f.write v).length < 2 ^ 64 ∧ f.Recovers v
  | _, _, _ => True

/-- Every length that is written along with `a` is below 2 ^ 64, and what `a` holds in serial form
can be read, if only as something else. -/
def Legible : {τ : ElemType B} → Coder τ → τ.Carrier → Prop
  | _, string, s => (Utf8.encode s).length < 2 ^ 64
  | _, pair k v, p => k.Legible p.1 ∧ v.Legible p.2
  | _, list c, as => as.length < 2 ^ 64 ∧ ∀ a ∈ as, c.Legible a
  | _, option c, o => ∀ a, o = some a → c.Legible a
  | _, holder c, h => ∀ a, h.value? = some a → c.Legible a
  | _, inputOrAccum i a, x =>
    match x with
    | .input v => i.Legible v
    | .accum v => a.Legible v
  | _, serial f _, v => (f.write v).length < 2 ^ 64 ∧ f.Rereads v
  | _, _, _ => True

theorem Fits.legible {τ : ElemType B} {c : Coder τ} {a : τ.Carrier} (h : c.Fits a) :
    c.Legible a := by
  induction c with
  | string => exact h
  | pair k v ihk ihv => exact ⟨ihk h.1, ihv h.2⟩
  | list c ih => exact ⟨h.1, fun b hb => ih (h.2 b hb)⟩
  | option c ih => exact fun b hb => ih (h b hb)
  | holder c ih => exact fun b hb => ih (h b hb)
  | inputOrAccum i c ihi ihc =>
    cases a with
    | input v => exact ihi h
    | accum v => exact ihc h
  | serial f d =>
    obtain ⟨hlen, rest, hread⟩ := h
    exact ⟨hlen, a, rest, hread⟩
  | _ => trivial

section Many
variable {α : Type} {e : α → Encoding Unit} {d : Decoding α} {as : List α}
  {parts : List (List UInt8)}

theorem encodeMany_eq_write (h : List.Forall₂ (fun a bytes => e a = Sink.write bytes) as parts) :
    encodeMany e as = Sink.write parts.flatten := by
  induction h with
  | nil => exact Sink.write_nil.symm
  | cons ha _ ih => exact Sink.seq_eq_write ha ih

theorem reads_decodeMany (h : List.Forall₂ (fun a bytes => Source.Reads d bytes a) as parts) :
    Source.Reads (decodeMany d as.length) parts.flatten as := by
  induction h with
  | nil => exact .pure []
  | cons ha _ ih => exact ha.bind (ih.bind_pure rfl)

end Many

section Composite
variable {σ τ : ElemType B} {c : Coder τ} {a b : τ.Carrier} {bytes : List UInt8}

theorem Sends.pair {k : Coder σ} {x y : σ.Carrier} {keyBytes : List UInt8}
    (hk : k.Sends x y keyBytes) (hc : c.Sends a b bytes) :
    (k.pair c).Sends (x, a) (y, b) (keyBytes ++ bytes) where
  encode := Sink.seq_eq_write hk.encode hc.encode
  decode := hk.decode.bind (hc.decode.bind_pure rfl)

/-- The values read may be others than those written, but there are as many. -/
theorem Sends.list {as bs : List τ.Carrier} {parts : List (List UInt8)}
    (hlen : as.length < 2 ^ 64)
    (hwrite : List.Forall₂ (fun a bytes => c.encode a = Sink.write bytes) as parts)
    (hread : List.Forall₂ (fun b bytes => Source.Reads c.decode bytes b) bs parts) :
    c.list.Sends as bs (Varint.encode as.length ++ parts.flatten) where
  encode := by
    refine Sink.seq_eq_write ?_ (encodeMany_eq_write hwrite)
    rw [Varint.write_eq, UInt64.toNat_ofNat_of_lt' hlen]
  decode := by
    refine (Varint.reads_read "IterableCoder" hlen).bind ?_
    rw [UInt64.toNat_ofNat_of_lt' hlen, hwrite.length_eq, ← hread.length_eq]
    exact reads_decodeMany hread

theorem Sends.none : c.option.Sends none none [0] where
  encode := rfl
  decode := (Source.reads_byte "NullableCoder" 0).bind_pure rfl

theorem Sends.some (h : c.Sends a b bytes) : c.option.Sends (some a) (some b) (1 :: bytes) where
  encode := Sink.seq_eq_write rfl h.encode
  decode := (Source.reads_byte "NullableCoder" 1).bind (h.decode.bind_pure rfl)

theorem Sends.holder {o p : Option τ.Carrier} (h : c.option.Sends o p bytes) :
    c.holder.Sends ⟨o⟩ ⟨p⟩ bytes where
  encode := (holder_encode c o).trans h.encode
  decode := h.decode.bind_pure rfl

theorem Sends.input {i : Coder σ} {x y : σ.Carrier} (h : i.Sends x y bytes) :
    (i.inputOrAccum c).Sends (.input x) (.input y) (0 :: bytes) where
  encode := Sink.seq_eq_write rfl h.encode
  decode := (Source.reads_byte "InputOrAccumCoder" 0).bind (h.decode.bind_pure rfl)

theorem Sends.accum {i : Coder σ} (h : c.Sends a b bytes) :
    (i.inputOrAccum c).Sends (.accum a) (.accum b) (1 :: bytes) where
  encode := Sink.seq_eq_write rfl h.encode
  decode := (Source.reads_byte "InputOrAccumCoder" 1).bind (h.decode.bind_pure rfl)

theorem sends_serial {f : SerialForm τ.Carrier} {deterministic : Bool} {rest : List UInt8}
    (hlen : (f.write a).length < 2 ^ 64) (hread : f.read (f.write a) = .ok (b, rest)) :
    (serial f deterministic : Coder τ).Sends a b
      (Varint.encode (f.write a).length ++ f.write a) where
  encode := Varint.write_bytes hlen
  decode := by
    refine (Varint.reads_readBytes "SerdeCoder" hlen).bind_pure ?_
    rw [hread]

end Composite

theorem serial_decodeBytes {τ : ElemType B} {f : SerialForm τ.Carrier} {deterministic : Bool}
    {bytes : List UInt8} (h : bytes.length < 2 ^ 64) :
    (serial f deterministic : Coder τ).decodeBytes (Varint.encode bytes.length ++ bytes) =
      match f.read bytes with
      | .ok r => .ok r.1
      | .error e =>
        .error (.malformed (serial f deterministic : Coder τ).describe e.message) := by
  have hbytes := Varint.reads_readBytes "SerdeCoder" h [] none
  rw [List.append_nil] at hbytes
  rw [decodeBytes, decode, Source.ofBytes, Outcome.run_bind hbytes]
  cases f.read bytes <;> rfl

theorem exists_sends_list {τ : ElemType B} {c : Coder τ} {as : List τ.Carrier}
    (hlen : as.length < 2 ^ 64)
    (h : ∀ a ∈ as, ∃ b bytes, c.Sends a b bytes ∧ (c.Fits a → b = a)) :
    ∃ bs bytes, c.list.Sends as bs bytes ∧ (c.list.Fits as → bs = as) := by
  have hsent : ∀ a ∈ as, ∃ r : τ.Carrier × List UInt8,
      c.Sends a r.1 r.2 ∧ (c.Fits a → r.1 = a) := fun a ha => by
    obtain ⟨b, bytes, hb⟩ := h a ha
    exact ⟨(b, bytes), hb⟩
  obtain ⟨rs, hrs⟩ := Outcome.exists_forall₂_iff.mpr hsent
  have hwrite : List.Forall₂ (fun a bytes => c.encode a = Sink.write bytes) as
      (rs.map Prod.snd) := by
    rw [List.forall₂_map_right_iff]
    exact hrs.imp fun _ _ hr => hr.1.encode
  have hread : List.Forall₂ (fun b bytes => Source.Reads c.decode bytes b) (rs.map Prod.fst)
      (rs.map Prod.snd) := by
    rw [List.forall₂_map_left_iff, List.forall₂_map_right_iff, List.forall₂_same]
    intro r hr
    obtain ⟨a, _, ha⟩ := Outcome.mem_of_forall₂ hrs hr
    exact ha.1.decode
  refine ⟨_, _, .list hlen hwrite hread, fun hfits => ?_⟩
  exact Outcome.map_eq_of_forall₂ (hrs.imp fun _ _ hr => hr.2) hfits.2

/-- By recursion on the coder, since each coder leaves the bytes of its parts to its components. -/
theorem exists_sends {τ : ElemType B} (c : Coder τ) (hc : c.Standard) (a : τ.Carrier)
    (ha : c.Legible a) : ∃ b bytes, c.Sends a b bytes ∧ (c.Fits a → b = a) := by
  induction c with
  | int32 => exact ⟨a, _, (delimits_int32 a).sends, fun _ => rfl⟩
  | int64 => exact ⟨a, _, (delimits_int64 a).sends, fun _ => rfl⟩
  | uint32 => exact ⟨a, _, (delimits_uint32 a).sends, fun _ => rfl⟩
  | uint64 => exact ⟨a, _, (delimits_uint64 a).sends, fun _ => rfl⟩
  | binary64 => exact ⟨a, _, (delimits_binary64 a).sends, fun _ => rfl⟩
  | varint => exact ⟨a, _, (delimits_varint a).sends, fun _ => rfl⟩
  | bool => exact ⟨a, _, (delimits_bool a).sends, fun _ => rfl⟩
  | string => exact ⟨a, _, (delimits_string ha).sends, fun _ => rfl⟩
  | unit => exact ⟨a, _, (delimits_unit a).sends, fun _ => rfl⟩
  | pair k v ihk ihv =>
    obtain ⟨x, bs, hx, hxa⟩ := ihk hc.1 a.1 ha.1
    obtain ⟨y, cs, hy, hya⟩ := ihv hc.2 a.2 ha.2
    exact ⟨(x, y), _, hx.pair hy, fun h => Prod.ext (hxa h.1) (hya h.2)⟩
  | list c ih => exact exists_sends_list ha.1 fun b hb => ih hc b (ha.2 b hb)
  | option c ih =>
    cases a with
    | none => exact ⟨none, _, .none, fun _ => rfl⟩
    | some a =>
      obtain ⟨b, bs, hb, hba⟩ := ih hc a (ha a rfl)
      exact ⟨some b, _, hb.some, fun h => congrArg some (hba (h a rfl))⟩
  | holder c ih =>
    obtain ⟨o⟩ := a
    cases o with
    | none => exact ⟨⟨none⟩, _, .holder .none, fun _ => rfl⟩
    | some a =>
      obtain ⟨b, bs, hb, hba⟩ := ih hc a (ha a rfl)
      exact ⟨⟨some b⟩, _, .holder hb.some, fun h => congrArg Holder.of (hba (h a rfl))⟩
  | inputOrAccum i c ihi ihc =>
    cases a with
    | input v =>
      obtain ⟨b, bs, hb, hbv⟩ := ihi hc.1 v ha
      exact ⟨.input b, _, hb.input, fun h => congrArg InputOrAccum.input (hbv h)⟩
    | accum v =>
      obtain ⟨b, bs, hb, hbv⟩ := ihc hc.2 v ha
      exact ⟨.accum b, _, hb.accum, fun h => congrArg InputOrAccum.accum (hbv h)⟩
  | serial f deterministic =>
    obtain ⟨hlen, b, rest, hread⟩ := ha
    refine ⟨b, _, sends_serial hlen hread, ?_⟩
    rintro ⟨_, rest', hread'⟩
    cases hread.symm.trans hread'
    rfl
  | custom c => exact hc.elim

theorem exists_delimits {τ : ElemType B} (c : Coder τ) (hc : c.Standard) (a : τ.Carrier)
    (ha : c.Fits a) : ∃ bytes, c.Delimits a bytes := by
  obtain ⟨b, bytes, hsends, hba⟩ := exists_sends c hc a ha.legible
  rw [hba ha] at hsends
  exact ⟨bytes, hsends.delimits⟩

/-- A value is read back up to where its bytes end, so values in a row are read back in a row; and
a holder stands in a stream as the optional value that it holds. -/
theorem standard_selfDelimiting {τ : ElemType B} {c : Coder τ} (hc : c.Standard) :
    (∀ a, c.Fits a → ∃ bytes, c.encode a = Sink.write bytes ∧ c.encodeBytes a = .ok bytes ∧
      (∀ rest failure, c.decode ⟨bytes ++ rest, failure⟩ = .ok (a, ⟨rest, failure⟩)) ∧
      c.decodeBytes bytes = .ok a) ∧
    (∀ as, (∀ a ∈ as, c.Fits a) → ∃ parts,
      List.Forall₂ (fun a bytes => c.encodeBytes a = .ok bytes) as parts ∧
      encodeMany c.encode as = Sink.write parts.flatten ∧
      ∀ rest failure, decodeMany c.decode as.length ⟨parts.flatten ++ rest, failure⟩ =
        .ok (as, ⟨rest, failure⟩)) ∧
    (∀ o, c.holder.encode ⟨o⟩ = c.option.encode o) ∧
    c.holder.decode = (do let o ← c.option.decode; return ⟨o⟩) := by
  refine ⟨fun a ha => ?_, fun as has => ?_, holder_encode c, holder_decode c⟩
  · obtain ⟨bytes, h⟩ := exists_delimits c hc a ha
    exact ⟨bytes, h.encode, h.encodeBytes, h.decode, h.decodeBytes⟩
  · obtain ⟨parts, h⟩ :=
      Outcome.exists_forall₂_iff.mpr fun a h => exists_delimits c hc a (has a h)
    exact ⟨parts, h.imp fun _ _ ha => ha.encodeBytes,
      encodeMany_eq_write (h.imp fun _ _ ha => ha.encode),
      reads_decodeMany (h.imp fun _ _ ha => ha.decode)⟩

def answers : Coder (.pair .string (.list (.holder .bool)) : Sample.Ty) :=
  .pair .string (.list (.holder (.serial .bool false)))

theorem answers_selfDelimiting : ∃ bytes,
    answers.encodeBytes ("tö", [⟨some true⟩, ⟨none⟩]) = .ok bytes ∧
    answers.decode ⟨bytes ++ [7], none⟩ = .ok (("tö", [⟨some true⟩, ⟨none⟩]), ⟨[7], none⟩) := by
  have hbool (b : Bool) : (Coder.serial .bool false : Coder (.bool : Sample.Ty)).Fits b := by
    cases b with
    | false => exact ⟨by decide, [], rfl⟩
    | true => exact ⟨by decide, [], rfl⟩
  have hfits : answers.Fits ("tö", [⟨some true⟩, ⟨none⟩]) :=
    ⟨show (Utf8.encode "tö").length < 2 ^ 64 by decide, by decide, fun _ _ b _ => hbool b⟩
  have hanswers : answers.Standard := ⟨trivial, trivial⟩
  obtain ⟨bytes, -, hencode, hdecode, -⟩ := (standard_selfDelimiting hanswers).1 _ hfits
  exact ⟨bytes, hencode, hdecode [7] none⟩

end Coder
end KeyedFlow
