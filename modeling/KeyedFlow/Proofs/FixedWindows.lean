import KeyedFlow.Proofs.Coder.RoundTrip
import KeyedFlow.Proofs.Placement
import KeyedFlow.Proofs.SerialForm
import KeyedFlow.Proofs.WindowText

/-!
Fixed windows by exact integers. The window of a timestamp is computed in four steps: how far the
timestamp is from the offset, where its window starts when counted from the offset, where it starts,
and where it ends. Each step has to be in range, and the first that is not decides the fault; when
all are, the window is the interval of the grid that covers the timestamp. The number of that
interval in the grid says which window it is. Nowhere do fixed windows come into being without a
positive size, whether they are built, or read from text or from bytes.
-/

set_option autoImplicit false

namespace KeyedFlow
open Outcome

namespace Word
variable {α β : Type} [Word α]

/-- `b`, if all integers are in range, or the fault of the first one that is not. -/
def within (α : Type) [Word α] : List (Fault × Int) → β → Checked β
  | [], b => .ok b
  | d :: steps, b => if InRange α d.2 then within α steps b else .error d.1

theorem exists_within_eq_ok_iff {steps : List (Fault × Int)} {b : β} :
    (∃ c, within α steps b = .ok c) ↔ ∀ d ∈ steps, InRange α d.2 := by
  induction steps with
  | nil => exact iff_of_true ⟨b, rfl⟩ (List.forall_mem_nil _)
  | cons d steps ih =>
    rw [within, List.forall_mem_cons, ← ih]
    split
    · rename_i hd
      exact (and_iff_right hd).symm
    · rename_i hd
      exact iff_of_false (fun ⟨_, h⟩ => nomatch h) fun h => hd h.1

theorem within_eq_error {steps : List (Fault × Int)} {b : β} {f : Fault}
    (h : within α steps b = .error f) : ∃ d ∈ steps, ¬ InRange α d.2 ∧ f = d.1 := by
  induction steps with
  | nil => cases h
  | cons d steps ih =>
    rw [within] at h
    split at h
    · obtain ⟨e, he, hrange, hf⟩ := ih h
      exact ⟨e, List.mem_cons_of_mem d he, hrange, hf⟩
    · rename_i hd
      cases h
      exact ⟨d, List.mem_cons_self, hd, rfl⟩

theorem exact_bind {f : Fault} {n : Int} {g : α → Checked β} {steps : List (Fault × Int)} {b : β}
    (h : toInt (ofInt n : α) = n → g (ofInt n) = within α steps b) :
    (exact f n >>= g) = within α ((f, n) :: steps) b := by
  rw [exact, within]
  split
  · rename_i hn
    exact h (toInt_ofInt n hn.1 hn.2)
  · rfl

theorem inRange_int64_iff {n : Int} : InRange Int64 n ↔
    -9223372036854775808 ≤ n ∧ n ≤ 9223372036854775807 := Iff.rfl

end Word

/-- The coder of window functions by their serial form. -/
def WindowFn.coder {B : Type} [TypeFamily B] (deterministic : Bool) :
    Coder (.windowFn : ElemType B) :=
  .serial SerialForm.windowFn deterministic

namespace FixedWindows
variable {w : FixedWindows} {ts us : Timestamp} {i j : Interval}

/-- The number of the window of `ts`: its distance from the offset by whole sizes, rounded down. -/
def place (w : FixedWindows) (ts : Timestamp) : Int :=
  Int.fdiv (ts.toInt - w.offset.toInt) w.size.toInt

/-- The integers on the way to the window of `ts`, each with the fault of its being out of range. -/
def steps (w : FixedWindows) (ts : Timestamp) : List (Fault × Int) :=
  [(.subOverflow, ts.toInt - w.offset.toInt),
    (.mulOverflow, w.place ts * w.size.toInt),
    (.addOverflow, w.place ts * w.size.toInt + w.offset.toInt),
    (.addOverflow, w.place ts * w.size.toInt + w.offset.toInt + w.size.toInt)]

theorem place_eq (w : FixedWindows) (ts : Timestamp) :
    w.place ts = (ts.toInt - w.offset.toInt) / w.size.toInt :=
  Int.fdiv_eq_ediv_of_nonneg _ (Int.le_of_lt w.size_pos)

theorem place_eq_iff {k : Int} : w.place ts = k ↔
    k * w.size.toInt ≤ ts.toInt - w.offset.toInt ∧
      ts.toInt - w.offset.toInt < k * w.size.toInt + w.size.toInt := by
  rw [place_eq, Int.ediv_eq_iff_of_pos w.size_pos]

theorem place_bounds (w : FixedWindows) (ts : Timestamp) :
    w.place ts * w.size.toInt ≤ ts.toInt - w.offset.toInt ∧
      ts.toInt - w.offset.toInt < w.place ts * w.size.toInt + w.size.toInt :=
  place_eq_iff.mp rfl

theorem tumble_eq (w : FixedWindows) (ts : Timestamp) :
    w.tumble ts = Word.within Int64 (w.steps ts)
      ⟨Int64.ofInt (w.place ts * w.size.toInt + w.offset.toInt),
        Int64.ofInt (w.place ts * w.size.toInt + w.offset.toInt + w.size.toInt)⟩ := by
  -- a step in range is exact, so the next one computes with the exact integer
  rw [tumble, index, bind_assoc]
  refine Word.exact_bind fun hshifted => ?_
  have hplace : (Int64.ofInt ((Int64.ofInt (ts.toInt - w.offset.toInt)).toInt /
      w.size.toInt)).toInt = w.place ts := by
    rw [toInt_ofInt_ediv _ w.size_pos, place_eq]
    exact congrArg (· / w.size.toInt) hshifted
  change (Word.exact _ ((Int64.ofInt ((Int64.ofInt (ts.toInt - w.offset.toInt)).toInt /
    w.size.toInt)).toInt * w.size.toInt) >>= _) = _
  rw [hplace]
  refine Word.exact_bind fun hbase => ?_
  change (Word.exact _ (Word.toInt (Word.ofInt _ : Int64) + w.offset.toInt) >>= _) = _
  rw [hbase]
  refine Word.exact_bind fun hstart => ?_
  change (Word.exact _ (Word.toInt (Word.ofInt _ : Int64) + w.size.toInt) >>= _) = _
  rw [hstart]
  exact Word.exact_bind fun _ => rfl

theorem steps_inRange_iff : (∀ d ∈ w.steps ts, Word.InRange Int64 d.2) ↔
    Word.InRange Int64 (ts.toInt - w.offset.toInt) ∧
      Word.InRange Int64 (w.place ts * w.size.toInt) ∧
      Word.InRange Int64 (w.place ts * w.size.toInt + w.offset.toInt) ∧
      Word.InRange Int64 (w.place ts * w.size.toInt + w.offset.toInt + w.size.toInt) := by
  simp only [steps, List.forall_mem_cons, List.not_mem_nil, false_implies, implies_true, and_true]

theorem exists_tumble_iff :
    (∃ i, w.tumble ts = .ok i) ↔ ∀ d ∈ w.steps ts, Word.InRange Int64 d.2 := by
  rw [tumble_eq, Word.exists_within_eq_ok_iff]

theorem Tiles.start_eq (hi : w.Tiles i) (hts : i.Covers ts) :
    i.start.toInt = w.place ts * w.size.toInt + w.offset.toInt := by
  obtain ⟨hsize, k, hk⟩ := hi
  obtain ⟨hlow, hhigh⟩ := hts
  rw [Int.mul_comm] at hk
  have hplace : w.place ts = k := place_eq_iff.mpr ⟨by omega, by omega⟩
  rw [hplace]
  omega

theorem eq_iff_place_eq (hi : w.tumble ts = .ok i) (hj : w.tumble us = .ok j) :
    i = j ↔ w.place ts = w.place us := by
  obtain ⟨hitiles, hits⟩ := tumble_eq_ok hi
  obtain ⟨hjtiles, hjus⟩ := tumble_eq_ok hj
  have histart := hitiles.start_eq hits
  have hjstart := hjtiles.start_eq hjus
  constructor
  · rintro rfl
    have hbase : w.place ts * w.size.toInt = w.place us * w.size.toInt := by omega
    exact Int.eq_of_mul_eq_mul_right (Int.ne_of_gt w.size_pos) hbase
  · intro hplace
    rw [hplace] at histart
    have hisize := hitiles.1
    have hjsize := hjtiles.1
    have hjts : j.Covers ts := by
      obtain ⟨hlow, hhigh⟩ := hits
      exact ⟨by omega, by omega⟩
    exact hitiles.eq hjtiles hits hjts

theorem steps_inRange_of_moderate (hlow : Timestamp.least ≤ ts) (hhigh : ts ≤ Timestamp.endOfTime)
    (hsize : w.size.toInt ≤ 2 ^ 61) (hoffset : w.offset.toInt.natAbs ≤ 2 ^ 61) :
    ∀ d ∈ w.steps ts, Word.InRange Int64 d.2 := by
  have hlow : -9223372036854775 ≤ ts.toInt := Int64.le_iff_toInt_le.mp hlow
  have hhigh : ts.toInt ≤ 9223371950454775 := Int64.le_iff_toInt_le.mp hhigh
  have hsize_pos := w.size_pos
  obtain ⟨hfloor, hnext⟩ := w.place_bounds ts
  rw [steps_inRange_iff]
  simp only [Word.inRange_int64_iff]
  omega

/-- Of the pairs that are read, those of a positive size make fixed windows and all others are
refused. -/
structure ReadsChecked {σ ε : Type} (refusal : Int64 → ε)
    (pair : StateT σ (Except ε) (Int64 × Int64)) (read : StateT σ (Except ε) FixedWindows) :
    Prop where
  ok_iff : ∀ s w t, read s = .ok (w, t) ↔
    0 < w.size.toInt ∧ pair s = .ok ((w.size, w.offset), t)
  error_iff : ∀ s e, read s = .error e ↔
    pair s = .error e ∨
      ∃ size offset t, pair s = .ok ((size, offset), t) ∧ ¬ 0 < size.toInt ∧ e = refusal size

theorem of?_eq_some_iff {size offset : Int64} {w : FixedWindows} :
    of? size offset = some w ↔ size = w.size ∧ offset = w.offset := by
  rw [of?]
  constructor
  · intro h
    split at h <;> cases h
    exact ⟨rfl, rfl⟩
  · rintro ⟨rfl, rfl⟩
    exact dif_pos w.size_pos

theorem of?_eq_none_iff {size offset : Int64} :
    of? size offset = none ↔ ¬ 0 < size.toInt := by
  rw [of?]
  split <;> simp [*]

theorem readsChecked_reading {σ ε : Type} (refusal : Int64 → ε)
    (pair : StateT σ (Except ε) (Int64 × Int64)) :
    ReadsChecked refusal pair (reading refusal pair) where
  ok_iff s w t := by
    rw [and_iff_right w.size_pos]
    cases h : pair s with
    | error e =>
      rw [reading_of_error refusal h]
      exact iff_of_false nofun nofun
    | ok r =>
      obtain ⟨⟨size, offset⟩, u⟩ := r
      rw [reading_of_ok refusal h]
      constructor
      · intro hread
        cases hv : of? size offset with
        | none =>
          rw [hv] at hread
          cases hread
        | some v =>
          rw [hv] at hread
          cases hread
          obtain ⟨rfl, rfl⟩ := of?_eq_some_iff.mp hv
          rfl
      · rintro ⟨⟩
        rw [of?_eq_some_iff.mpr ⟨rfl, rfl⟩]
  error_iff s e := by
    cases h : pair s with
    | error e' => simp [reading_of_error refusal h]
    | ok r =>
      obtain ⟨⟨size, offset⟩, u⟩ := r
      rw [reading_of_ok refusal h]
      cases hv : of? size offset with
      | none =>
        have hsize := of?_eq_none_iff.mp hv
        constructor
        · rintro ⟨⟩
          exact .inr ⟨size, offset, u, rfl, hsize, rfl⟩
        · rintro (hpair | ⟨_, _, _, hpair, -, rfl⟩) <;> cases hpair
          rfl
      | some v =>
        obtain ⟨rfl, rfl⟩ := of?_eq_some_iff.mp hv
        constructor
        · rintro ⟨⟩
        · rintro (hpair | ⟨_, _, _, hpair, hrefused, -⟩) <;> cases hpair
          exact absurd v.size_pos hrefused

/-- Fixed windows of that size and offset, or the refusal of a size that is not positive. -/
structure Checks {ε : Type} (size offset : Int64) (refusal : ε) (x : Except ε WindowFn) : Prop where
  accepts : ∀ h : 0 < size.toInt, x = .ok (.fixed ⟨size, offset, h⟩)
  refuses : ¬ 0 < size.toInt → x = .error refusal

section Checks
variable {ε : Type} {refusal : ε} {x : Except ε WindowFn} (size offset : Int64)

theorem checks_of_eq {size offset : Int64} (hx : x =
    match of? size offset with
    | some w => .ok (.fixed w)
    | none => .error refusal) : Checks size offset refusal x := by
  unfold of? at hx
  refine ⟨fun h => ?_, fun h => ?_⟩
  · rw [hx, dif_pos h]
  · rw [hx, dif_neg h]

theorem checks_of :
    Checks size offset (.nonPositiveWindowSize size) ((of size offset).map .fixed) := by
  apply checks_of_eq
  rw [of]
  cases of? size offset <;> rfl

theorem checks_ofJson :
    Checks size offset (.refused (.nonPositiveWindowSize size))
      (WindowFn.ofJson (WindowFn.fixedText size offset)) :=
  checks_of_eq (WindowFn.ofJson_fixedText size offset)

/-- What stands for the windows in a stream: the serial form, with its length. -/
def framed : List UInt8 :=
  Varint.encode (SerialForm.fixedBytes size offset).length ++ SerialForm.fixedBytes size offset

variable {B : Type} [TypeFamily B]

theorem checks_decodeBytes (deterministic : Bool) :
    Checks size offset
      (.malformed (WindowFn.coder (B := B) deterministic).describe SerialError.refused.message)
      ((WindowFn.coder (B := B) deterministic).decodeBytes (framed size offset)) := by
  apply checks_of_eq
  rw [framed, WindowFn.coder,
    Coder.serial_decodeBytes (SerialForm.length_fixedBytes_lt size offset),
    SerialForm.windowFn_read_fixedBytes]
  cases of? size offset <;> rfl

end Checks

section Assign
variable {w : FixedWindows} {ts us : Timestamp} {i j : Interval}

theorem assign_fixed (w : FixedWindows) (ts : Timestamp) :
    (WindowFn.fixed w).assign ts = (w.tumble ts).map .interval :=
  bind_ok_eq_map _ _

theorem assign_eq_interval_iff :
    (WindowFn.fixed w).assign ts = .ok (.interval i) ↔ w.tumble ts = .ok i := by
  simp only [assign_fixed, map_eq_ok_iff, Window.interval.injEq, exists_eq_right]

theorem assign_of_error {f : Fault} (h : w.tumble ts = .error f) :
    (WindowFn.fixed w).assign ts = .error f := by
  rw [assign_fixed, h]
  rfl

theorem exists_assign_iff :
    (∃ v, (WindowFn.fixed w).assign ts = .ok v) ↔ ∀ d ∈ w.steps ts, Word.InRange Int64 d.2 := by
  rw [assign_fixed, exists_map_eq_ok_iff, exists_tumble_iff]

theorem assign_fails_iff : (∃ f, (WindowFn.fixed w).assign ts = .error f) ↔
    ∃ d ∈ w.steps ts, ¬ Word.InRange Int64 d.2 := by
  rw [← not_iff_not]
  simp only [not_exists, not_and, not_not, ← exists_assign_iff]
  cases (WindowFn.fixed w).assign ts <;> simp

/-- Fixed windows come with a positive size, whichever way they were made and whatever a reader of
size and offset finds. A timestamp has the window of the grid that covers it, or a fault in the
first step that is out of range; there is none as long as all numbers are moderate. Windows of one
function are the same or have no timestamp in common, and are the same when they have the same
number. -/
theorem assign_exact_or_overflow {B : Type} [TypeFamily B] (size offset : Int64)
    (deterministic : Bool) (w : FixedWindows) (ts us : Timestamp) :
    Checks size offset (.nonPositiveWindowSize size) ((of size offset).map .fixed) ∧
    Checks size offset (.refused (.nonPositiveWindowSize size))
      (WindowFn.ofJson (WindowFn.fixedText size offset)) ∧
    Checks size offset
      (.malformed (WindowFn.coder (B := B) deterministic).describe SerialError.refused.message)
      ((WindowFn.coder (B := B) deterministic).decodeBytes (framed size offset)) ∧
    (∀ (σ ε : Type) (refusal : Int64 → ε) (pair : StateT σ (Except ε) (Int64 × Int64)),
      ReadsChecked refusal pair (reading refusal pair)) ∧
    (∀ text v, WindowFn.ofJson text = .ok (.fixed v) → 0 < v.size.toInt) ∧
    (∀ bytes v, (WindowFn.coder (B := B) deterministic).decodeBytes bytes = .ok (.fixed v) →
      0 < v.size.toInt) ∧
    0 < w.size.toInt ∧
    ((∃ i, (WindowFn.fixed w).assign ts = .ok (.interval i) ∧ i.Covers ts ∧ w.Tiles i) ∨
      ∃ d ∈ w.steps ts, ¬ Word.InRange Int64 d.2 ∧
        (WindowFn.fixed w).assign ts = .error d.1) ∧
    ((∃ f, (WindowFn.fixed w).assign ts = .error f) ↔
      ∃ d ∈ w.steps ts, ¬ Word.InRange Int64 d.2) ∧
    (Timestamp.least ≤ ts → ts ≤ Timestamp.endOfTime → w.size.toInt ≤ 2 ^ 61 →
      w.offset.toInt.natAbs ≤ 2 ^ 61 → ∃ v, (WindowFn.fixed w).assign ts = .ok v) ∧
    ∀ i j, (WindowFn.fixed w).assign ts = .ok (.interval i) →
      (WindowFn.fixed w).assign us = .ok (.interval j) →
      (i = j ∨ ∀ t, ¬ (i.Covers t ∧ j.Covers t)) ∧ (i = j ↔ w.place ts = w.place us) := by
  refine ⟨checks_of size offset, checks_ofJson size offset,
    checks_decodeBytes size offset deterministic, fun _ _ => readsChecked_reading,
    fun _ v _ => v.size_pos, fun _ v _ => v.size_pos, w.size_pos, ?_, assign_fails_iff, ?_, ?_⟩
  · cases h : w.tumble ts with
    | ok i =>
      obtain ⟨htiles, hcovers⟩ := tumble_eq_ok h
      exact .inl ⟨i, assign_eq_interval_iff.mpr h, hcovers, htiles⟩
    | error f =>
      rw [tumble_eq] at h
      obtain ⟨d, hd, hrange, rfl⟩ := Word.within_eq_error h
      rw [← tumble_eq] at h
      exact .inr ⟨d, hd, hrange, assign_of_error h⟩
  · intro hlow hhigh hsize hoffset
    exact exists_assign_iff.mpr (steps_inRange_of_moderate hlow hhigh hsize hoffset)
  · intro i j hi hj
    rw [assign_eq_interval_iff] at hi hj
    obtain ⟨hitiles, -⟩ := tumble_eq_ok hi
    obtain ⟨hjtiles, -⟩ := tumble_eq_ok hj
    refine ⟨or_iff_not_imp_left.mpr fun hne t hts => ?_, eq_iff_place_eq hi hj⟩
    exact hne (hitiles.eq hjtiles hts.1 hts.2)

def sevens : FixedWindows := ⟨7, 3, by decide⟩

theorem assign_exact_or_overflow_of_sevens :
    WindowFn.ofJson (WindowFn.fixedText 0 3) = .error (.refused (.nonPositiveWindowSize 0)) ∧
      (∃ v, (WindowFn.fixed sevens).assign 2 = .ok v) ∧
      (∃ f, (WindowFn.fixed sevens).assign Int64.minValue = .error f) ∧
      ∀ t, ¬ (Interval.Covers ⟨-4, 3⟩ t ∧ Interval.Covers ⟨3, 10⟩ t) := by
  obtain ⟨-, hzero, -, -, -, -, -, -, -, hmoderate, hdisjoint⟩ :=
    assign_exact_or_overflow (B := Sample.Own) 0 3 false sevens 2 3
  obtain ⟨-, -, -, -, -, -, -, -, hfails, -⟩ :=
    assign_exact_or_overflow (B := Sample.Own) 0 3 false sevens Int64.minValue 3
  refine ⟨hzero.refuses (by decide), ?_, ?_, ?_⟩
  · exact hmoderate (by decide) (by decide) (by decide) (by decide)
  · exact hfails.mpr ⟨_, List.mem_cons_self, by decide⟩
  · exact ((hdisjoint ⟨-4, 3⟩ ⟨3, 10⟩ (by decide) (by decide)).1).resolve_left (by decide)

end Assign

end FixedWindows
end KeyedFlow
