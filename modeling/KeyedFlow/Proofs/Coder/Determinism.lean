import KeyedFlow.ElemType.Equality
import KeyedFlow.Proofs.Coder.RoundTrip

/-!
Coders that pass the check for determinism. Among the coders of primitive leaves they are those that
never meet a floating-point number, so that values which compare equal are the same value; reading
back then tells apart the bytes of any two others. A coder that does not pass writes two equal values
as different bytes: the two zeros, put where its first floating-point number stands. What the check
reports is the objection of the leftmost leaf that has one.
-/

set_option autoImplicit false

namespace KeyedFlow

namespace ElemType
variable {α : Type} {same : α → α → Bool}

theorem sameAll_iff_eq (h : ∀ a b, same a b = true ↔ a = b) (as bs : List α) :
    sameAll same as bs = true ↔ as = bs := by
  induction as generalizing bs with
  | nil => cases bs <;> simp [sameAll]
  | cons a as ih =>
    cases bs with
    | nil => simp [sameAll]
    | cons b bs => simp [sameAll, h, ih]

theorem sameOption_iff_eq (h : ∀ a b, same a b = true ↔ a = b) (o p : Option α) :
    sameOption same o p = true ↔ o = p := by
  cases o <;> cases p <;> simp [sameOption, h]

end ElemType

namespace Coder
variable {B : Type} [TypeFamily B]

/-- Built from the primitive coders and the composite ones alone. -/
def Primitive : {τ : ElemType B} → Coder τ → Prop
  | _, pair k v => k.Primitive ∧ v.Primitive
  | _, list c => c.Primitive
  | _, option c => c.Primitive
  | _, holder c => c.Primitive
  | _, inputOrAccum i a => i.Primitive ∧ a.Primitive
  | _, serial _ _ => False
  | _, custom _ => False
  | _, _ => True

theorem Primitive.standard {τ : ElemType B} {c : Coder τ} (hc : c.Primitive) : c.Standard := by
  induction c with
  | pair k v ihk ihv => exact ⟨ihk hc.1, ihv hc.2⟩
  | list c ih => exact ih hc
  | option c ih => exact ih hc
  | holder c ih => exact ih hc
  | inputOrAccum i a ihi iha => exact ⟨ihi hc.1, iha hc.2⟩
  | serial f d => exact hc.elim
  | custom c => exact hc.elim
  | _ => trivial

theorem verify_both {x y : Except CoderError Unit} :
    (do x; y) = .ok () ↔ x = .ok () ∧ y = .ok () := by
  cases x <;> simp [bind, Except.bind]

section Equality
variable [EqFamily B]

theorem same_iff_eq {τ : ElemType B} (c : Coder τ) (hc : c.Primitive) (hv : c.verify = .ok ())
    (a b : τ.Carrier) : τ.same a b = true ↔ a = b := by
  induction c with
  | int32 => exact decide_eq_true_iff
  | int64 => exact decide_eq_true_iff
  | uint32 => exact decide_eq_true_iff
  | uint64 => exact decide_eq_true_iff
  | binary64 => cases hv
  | varint => exact decide_eq_true_iff
  | bool => exact decide_eq_true_iff
  | string => exact decide_eq_true_iff
  | unit => exact ⟨fun _ => rfl, fun _ => rfl⟩
  | pair k v ihk ihv =>
    obtain ⟨hk, hv⟩ := verify_both.mp hv
    change (_ && _) = true ↔ _
    rw [Bool.and_eq_true, ihk hc.1 hk, ihv hc.2 hv, Prod.ext_iff]
  | list c ih => exact ElemType.sameAll_iff_eq (ih hc hv) a b
  | option c ih => exact ElemType.sameOption_iff_eq (ih hc hv) a b
  | holder c ih =>
    obtain ⟨o⟩ := a
    obtain ⟨p⟩ := b
    rw [Holder.mk.injEq]
    exact ElemType.sameOption_iff_eq (ih hc hv) o p
  | inputOrAccum i c ihi ihc =>
    obtain ⟨hi, hv⟩ := verify_both.mp hv
    cases a with
    | input u =>
      cases b with
      | input v =>
        rw [InputOrAccum.input.injEq]
        exact ihi hc.1 hi u v
      | accum v => exact iff_of_false Bool.false_ne_true fun h => by cases h
    | accum u =>
      cases b with
      | input v => exact iff_of_false Bool.false_ne_true fun h => by cases h
      | accum v =>
        rw [InputOrAccum.accum.injEq]
        exact ihc hc.2 hv u v
  | serial f d => exact hc.elim
  | custom c => exact hc.elim

theorem exists_same_self {τ : ElemType B} (c : Coder τ) (hc : c.Primitive) :
    ∃ a, c.Fits a ∧ τ.same a a = true := by
  induction c with
  | int32 => exact ⟨0, trivial, rfl⟩
  | int64 => exact ⟨0, trivial, rfl⟩
  | uint32 => exact ⟨0, trivial, rfl⟩
  | uint64 => exact ⟨0, trivial, rfl⟩
  | binary64 => exact ⟨.zero, trivial, rfl⟩
  | varint => exact ⟨0, trivial, rfl⟩
  | bool => exact ⟨false, trivial, rfl⟩
  | string => exact ⟨"", show (Utf8.encode "").length < 2 ^ 64 by decide, rfl⟩
  | unit => exact ⟨(), trivial, rfl⟩
  | pair k v ihk ihv =>
    obtain ⟨a, ha, hsa⟩ := ihk hc.1
    obtain ⟨b, hb, hsb⟩ := ihv hc.2
    exact ⟨(a, b), ⟨ha, hb⟩, (Bool.and_eq_true _ _).mpr ⟨hsa, hsb⟩⟩
  | list c ih => exact ⟨[], ⟨Nat.two_pow_pos 64, fun a ha => by simp at ha⟩, rfl⟩
  | option c ih => exact ⟨none, fun a ha => (by cases ha), rfl⟩
  | holder c ih => exact ⟨.empty, fun a ha => (by cases ha), rfl⟩
  | inputOrAccum i c ihi ihc =>
    obtain ⟨a, ha, hsa⟩ := ihi hc.1
    exact ⟨.input a, ha, hsa⟩
  | serial f d => exact hc.elim
  | custom c => exact hc.elim

theorem exists_same_ne {τ : ElemType B} (c : Coder τ) (hc : c.Primitive)
    (hv : c.verify ≠ .ok ()) : ∃ a b, c.Fits a ∧ c.Fits b ∧ τ.same a b = true ∧ a ≠ b := by
  induction c with
  | binary64 =>
    have hne : Binary64.mk 0 ≠ ⟨0x8000000000000000⟩ := by decide
    exact ⟨⟨0⟩, ⟨0x8000000000000000⟩, trivial, trivial, rfl, hne⟩
  | pair k v ihk ihv =>
    by_cases hk : k.verify = .ok ()
    · obtain ⟨a, b, ha, hb, hab, hne⟩ := ihv hc.2 fun hv' => hv (verify_both.mpr ⟨hk, hv'⟩)
      obtain ⟨x, hx, hxx⟩ := exists_same_self k hc.1
      exact ⟨(x, a), (x, b), ⟨hx, ha⟩, ⟨hx, hb⟩, (Bool.and_eq_true _ _).mpr ⟨hxx, hab⟩,
        fun h => hne (Prod.mk.inj h).2⟩
    · obtain ⟨a, b, ha, hb, hab, hne⟩ := ihk hc.1 hk
      obtain ⟨x, hx, hxx⟩ := exists_same_self v hc.2
      exact ⟨(a, x), (b, x), ⟨ha, hx⟩, ⟨hb, hx⟩, (Bool.and_eq_true _ _).mpr ⟨hab, hxx⟩,
        fun h => hne (Prod.mk.inj h).1⟩
  | list c ih =>
    obtain ⟨a, b, ha, hb, hab, hne⟩ := ih hc hv
    have hfits {x} (hx : c.Fits x) : c.list.Fits [x] :=
      ⟨Nat.one_lt_two_pow (by decide), fun y hy => List.mem_singleton.mp hy ▸ hx⟩
    exact ⟨[a], [b], hfits ha, hfits hb, (Bool.and_eq_true _ _).mpr ⟨hab, rfl⟩,
      fun h => hne (List.cons.inj h).1⟩
  | option c ih =>
    obtain ⟨a, b, ha, hb, hab, hne⟩ := ih hc hv
    exact ⟨some a, some b, fun x hx => Option.some.inj hx ▸ ha, fun x hx => Option.some.inj hx ▸ hb,
      hab, fun h => hne (Option.some.inj h)⟩
  | holder c ih =>
    obtain ⟨a, b, ha, hb, hab, hne⟩ := ih hc hv
    exact ⟨.of a, .of b, fun x hx => Option.some.inj hx ▸ ha, fun x hx => Option.some.inj hx ▸ hb,
      hab, fun h => hne (Option.some.inj (Holder.mk.inj h))⟩
  | inputOrAccum i c ihi ihc =>
    by_cases hi : i.verify = .ok ()
    · obtain ⟨a, b, ha, hb, hab, hne⟩ := ihc hc.2 fun hv' => hv (verify_both.mpr ⟨hi, hv'⟩)
      exact ⟨.accum a, .accum b, ha, hb, hab, fun h => hne (InputOrAccum.accum.inj h)⟩
    · obtain ⟨a, b, ha, hb, hab, hne⟩ := ihi hc.1 hi
      exact ⟨.input a, .input b, ha, hb, hab, fun h => hne (InputOrAccum.input.inj h)⟩
  | serial f d => exact hc.elim
  | custom c => exact hc.elim
  | _ => exact absurd rfl hv

end Equality

def WritesAlike {τ : ElemType B} (c : Coder τ) (a b : τ.Carrier) : Prop :=
  ∃ bytes, c.encodeBytes a = .ok bytes ∧ c.encodeBytes b = .ok bytes

def TellsApart {τ : ElemType B} (c : Coder τ) (a b : τ.Carrier) : Prop :=
  ∃ bs cs, c.encodeBytes a = .ok bs ∧ c.encodeBytes b = .ok cs ∧ bs ≠ cs

theorem TellsApart.not_writesAlike {τ : ElemType B} {c : Coder τ} {a b : τ.Carrier}
    (h : c.TellsApart a b) : ¬ c.WritesAlike a b := by
  rintro ⟨bytes, ha, hb⟩
  obtain ⟨bs, cs, hbs, hcs, hne⟩ := h
  have hbs := Except.ok.inj (hbs.symm.trans ha)
  have hcs := Except.ok.inj (hcs.symm.trans hb)
  exact hne (hbs.trans hcs.symm)

theorem tellsApart_of_ne {τ : ElemType B} {c : Coder τ} (hc : c.Standard) {a b : τ.Carrier}
    (ha : c.Fits a) (hb : c.Fits b) (hne : a ≠ b) : c.TellsApart a b := by
  obtain ⟨bs, hbs⟩ := exists_delimits c hc a ha
  obtain ⟨cs, hcs⟩ := exists_delimits c hc b hb
  refine ⟨bs, cs, hbs.encodeBytes, hcs.encodeBytes, ?_⟩
  rintro rfl
  exact hne (Except.ok.inj (hbs.decodeBytes.symm.trans hcs.decodeBytes))

abbrev AnyCoder (B : Type) [TypeFamily B] := (τ : ElemType B) × Coder τ

/-- The coders without components that a coder is built from, in order. -/
def leaves : {τ : ElemType B} → Coder τ → List (AnyCoder B)
  | _, pair k v => k.leaves ++ v.leaves
  | _, list c => c.leaves
  | _, option c => c.leaves
  | _, holder c => c.leaves
  | _, inputOrAccum i a => i.leaves ++ a.leaves
  | τ, c => [⟨τ, c⟩]

/-- A floating-point leaf, or a serial one that is not declared deterministic. -/
def isUnsteady : AnyCoder B → Bool
  | ⟨_, binary64⟩ => true
  | ⟨_, serial _ deterministic⟩ => !deterministic
  | _ => false

theorem exists_verify_of_isUnsteady {l : AnyCoder B} (h : isUnsteady l = true) :
    ∃ reason, l.2.verify = .error (.nonDeterministic l.2.describe reason) := by
  obtain ⟨τ, c⟩ := l
  cases c with
  | binary64 => exact ⟨_, rfl⟩
  | serial f d =>
    cases d with
    | false => exact ⟨_, rfl⟩
    | true => cases h
  | _ => cases h

/-- What the leftmost unsteady leaf objects, if there is one. -/
def verifyLeaves (ls : List (AnyCoder B)) : Except CoderError Unit :=
  match ls.find? isUnsteady with
  | none => .ok ()
  | some l => l.2.verify

theorem verifyLeaves_append (ls ms : List (AnyCoder B)) :
    verifyLeaves (ls ++ ms) = (do verifyLeaves ls; verifyLeaves ms) := by
  simp only [verifyLeaves, List.find?_append]
  cases hl : ls.find? isUnsteady with
  | none => rfl
  | some l =>
    obtain ⟨reason, hreason⟩ := exists_verify_of_isUnsteady (List.find?_some hl)
    simp only [Option.some_or, hreason]
    rfl

theorem verify_eq_verifyLeaves {τ : ElemType B} (c : Coder τ) (hc : c.Standard) :
    c.verify = verifyLeaves c.leaves := by
  induction c with
  | pair k v ihk ihv =>
    rw [leaves, verifyLeaves_append, ← ihk hc.1, ← ihv hc.2, verify]
  | list c ih => exact ih hc
  | option c ih => exact ih hc
  | holder c ih => exact ih hc
  | inputOrAccum i a ihi iha =>
    rw [leaves, verifyLeaves_append, ← ihi hc.1, ← iha hc.2, verify]
  | serial f d => cases d <;> rfl
  | custom c => exact hc.elim
  | _ => rfl

theorem exists_verifyLeaves_eq_error_iff {ls : List (AnyCoder B)} :
    (∃ e, verifyLeaves ls = .error e) ↔ ∃ l ∈ ls, isUnsteady l = true := by
  rw [verifyLeaves, ← List.find?_isSome]
  cases hl : ls.find? isUnsteady with
  | none => simp
  | some l =>
    obtain ⟨reason, hreason⟩ := exists_verify_of_isUnsteady (List.find?_some hl)
    simp [hreason]

/-- Among values whose lengths can be written, the check passes exactly when equal ones are written
alike, and then all others are told apart. It fails exactly when there is an unsteady leaf, with the
objection of the leftmost one. -/
theorem verify_iff_equal_written_alike [EqFamily B] {τ : ElemType B} {c : Coder τ}
    (hc : c.Standard) :
    (c.Primitive →
      (c.verify = .ok () ↔
        ∀ a b, c.Fits a → c.Fits b → τ.same a b = true → c.WritesAlike a b) ∧
      (c.verify = .ok () →
        ∀ a b, c.Fits a → c.Fits b → τ.same a b = false → c.TellsApart a b)) ∧
    ((∃ e, c.verify = .error e) ↔ ∃ l ∈ c.leaves, isUnsteady l = true) ∧
    ∀ l, c.leaves.find? isUnsteady = some l → c.verify = l.2.verify ∧
      ∃ reason, l.2.verify = .error (.nonDeterministic l.2.describe reason) := by
  have hleaves := verify_eq_verifyLeaves c hc
  refine ⟨fun hp => ⟨⟨fun hv a b ha _ hab => ?_, fun hall => ?_⟩, fun hv a b ha hb hab => ?_⟩, ?_,
    fun l hl => ?_⟩
  · obtain ⟨bytes, hbytes⟩ := exists_delimits c hc a ha
    rw [← (same_iff_eq c hp hv a b).mp hab]
    exact ⟨bytes, hbytes.encodeBytes, hbytes.encodeBytes⟩
  · by_contra hv
    obtain ⟨a, b, ha, hb, hab, hne⟩ := exists_same_ne c hp hv
    exact (tellsApart_of_ne hc ha hb hne).not_writesAlike (hall a b ha hb hab)
  · apply tellsApart_of_ne hc ha hb
    intro he
    rw [(same_iff_eq c hp hv a b).mpr he] at hab
    cases hab
  · rw [hleaves]
    exact exists_verifyLeaves_eq_error_iff
  · rw [hleaves, verifyLeaves, hl]
    exact ⟨rfl, exists_verify_of_isUnsteady (List.find?_some hl)⟩

def measurements : Coder (.pair .string (.list (.holder .binary64)) : Sample.Ty) :=
  .pair .string (.list (.holder .binary64))

def marks : Coder (.pair .string (.list .uint32) : Sample.Ty) := .pair .string (.list .varint)

theorem verify_iff_equal_written_alike_of_measurements :
    (measurements.verify ≠ .ok () ∧
      ∃ a b, ElemType.same _ a b = true ∧ ¬ measurements.WritesAlike a b) ∧
    marks.verify = .ok () ∧ marks.TellsApart ("a", [1]) ("a", [1, 1]) := by
  have hmeasurements : measurements.Primitive := ⟨trivial, trivial⟩
  have hmarks : marks.Primitive := ⟨trivial, trivial⟩
  have hfails : measurements.verify ≠ .ok () := fun h => by cases h
  have hfits (ns : List UInt32) (hns : ns.length < 2 ^ 64) : marks.Fits ("a", ns) :=
    ⟨show (Utf8.encode "a").length < 2 ^ 64 by decide, hns, fun _ _ => trivial⟩
  refine ⟨⟨hfails, ?_⟩, rfl, ?_⟩
  · have hall := mt ((verify_iff_equal_written_alike hmeasurements.standard).1 hmeasurements).1.mpr
      hfails
    push Not at hall
    obtain ⟨a, b, _, _, hab, hne⟩ := hall
    exact ⟨a, b, hab, hne⟩
  · exact ((verify_iff_equal_written_alike hmarks.standard).1 hmarks).2 rfl _ _
      (hfits [1] (by decide)) (hfits [1, 1] (by decide)) rfl

end Coder
end KeyedFlow
