import KeyedFlow.Proofs.Outcome
import KeyedFlow.Window.Basic

/-!
Elements in the windows of a window function. In fixed windows an element lies in an interval of the
grid, and its timestamp lies in that interval. Assignment places elements so, and so does emission
at the end of a window; both agree, since the intervals of a grid do not overlap.
-/

set_option autoImplicit false

namespace KeyedFlow
open Outcome

/-- The timestamps from the start of the interval up to, but not at, its end. -/
def Interval.Covers (i : Interval) (ts : Timestamp) : Prop :=
  i.start.toInt ≤ ts.toInt ∧ ts.toInt < i.stop.toInt

/-- The intervals of the given size whose starts differ from the offset by whole sizes. -/
def FixedWindows.Tiles (w : FixedWindows) (i : Interval) : Prop :=
  i.stop.toInt - i.start.toInt = w.size.toInt ∧ w.size.toInt ∣ i.start.toInt - w.offset.toInt

/-- The element lies in a window of `f` that its timestamp lies in too. -/
def WindowFn.Places {α : Type} : WindowFn → Windowed α → Prop
  | global, u => u.window = .global
  | fixed w, u => ∃ i, u.window = .interval i ∧ w.Tiles i ∧ i.Covers u.timestamp

theorem toInt_ofInt_ediv (a : Int64) {b : Int} (hb : 0 < b) :
    (Int64.ofInt (a.toInt / b)).toInt = a.toInt / b := by
  have hlow := Int64.le_toInt a
  have hhigh := Int64.toInt_lt a
  apply Int64.toInt_ofInt_of_le
  · rw [Int.le_ediv_iff_mul_le hb]
    omega
  · rw [Int.ediv_lt_iff_lt_mul hb]
    omega

namespace FixedWindows
variable {w : FixedWindows} {ts : Timestamp} {i j : Interval}

theorem tumble_eq_ok (h : w.tumble ts = .ok i) : w.Tiles i ∧ i.Covers ts := by
  obtain ⟨k, hk, h⟩ := bind_eq_ok_iff.mp h
  obtain ⟨shifted, hshifted, hk⟩ := bind_eq_ok_iff.mp hk
  cases hk
  obtain ⟨base, hbase, h⟩ := bind_eq_ok_iff.mp h
  obtain ⟨start, hstart, h⟩ := bind_eq_ok_iff.mp h
  obtain ⟨stop, hstop, h⟩ := bind_eq_ok_iff.mp h
  cases h
  have hshifted : shifted.toInt = ts.toInt - w.offset.toInt := (Word.exact_eq_ok_iff.mp hshifted).2
  have hbase : base.toInt = (Int64.ofInt (shifted.toInt / w.size.toInt)).toInt * w.size.toInt :=
    (Word.exact_eq_ok_iff.mp hbase).2
  have hstart : start.toInt = base.toInt + w.offset.toInt := (Word.exact_eq_ok_iff.mp hstart).2
  have hstop : stop.toInt = start.toInt + w.size.toInt := (Word.exact_eq_ok_iff.mp hstop).2
  rw [toInt_ofInt_ediv shifted w.size_pos, hshifted] at hbase
  have hfloor := Int.ediv_mul_le (ts.toInt - w.offset.toInt) (Int.ne_of_gt w.size_pos)
  have hnext := Int.lt_ediv_add_one_mul_self (ts.toInt - w.offset.toInt) w.size_pos
  rw [Int.add_mul, ← hbase] at hnext
  rw [← hbase] at hfloor
  refine ⟨⟨?_, ?_⟩, ?_, ?_⟩
  · change stop.toInt - start.toInt = _
    omega
  · change _ ∣ start.toInt - w.offset.toInt
    rw [hstart, Int.add_sub_cancel, hbase]
    exact Int.dvd_mul_left _ _
  · change start.toInt ≤ _
    omega
  · change _ < stop.toInt
    omega

theorem Tiles.eq (hi : w.Tiles i) (hj : w.Tiles j) (hits : i.Covers ts) (hjts : j.Covers ts) :
    i = j := by
  obtain ⟨hisize, hi⟩ := hi
  obtain ⟨hjsize, hj⟩ := hj
  obtain ⟨hilow, hihigh⟩ := hits
  obtain ⟨hjlow, hjhigh⟩ := hjts
  have hclose : (i.start.toInt - w.offset.toInt - (j.start.toInt - w.offset.toInt)).natAbs <
      w.size.toInt.natAbs := by omega
  have hzero := Int.eq_zero_of_dvd_of_natAbs_lt_natAbs (Int.dvd_sub hi hj) hclose
  have hstart : i.start = j.start := Int64.toInt_inj.mp (by omega)
  have hstop : i.stop = j.stop := Int64.toInt_inj.mp (by omega)
  exact congrArg₂ Interval.mk hstart hstop

end FixedWindows

namespace WindowFn
variable {α β : Type} {f : WindowFn} {u : Windowed α}

theorem places_assign {v : α} {ts : Timestamp} {w : Window} (h : f.assign ts = .ok w) :
    f.Places ⟨v, ts, w⟩ := by
  cases f with
  | global =>
    cases h
    rfl
  | fixed f =>
    obtain ⟨i, hi, h⟩ := bind_eq_ok_iff.mp h
    cases h
    exact ⟨i, rfl, FixedWindows.tumble_eq_ok hi⟩

/-- Assigning a window to the element anew gives the one it has. -/
theorem Places.assign_eq (hu : f.Places u) {w : Window} (h : f.assign u.timestamp = .ok w) :
    w = u.window := by
  have hplaced : f.Places (⟨u.value, u.timestamp, w⟩ : Windowed α) := places_assign h
  cases f with
  | global => exact hplaced.trans hu.symm
  | fixed f =>
    obtain ⟨i, hi, htiles, hcovers⟩ := hu
    obtain ⟨j, hj, htiles', hcovers'⟩ := hplaced
    rw [hi, ← htiles'.eq htiles hcovers' hcovers]
    exact hj

theorem Places.at_end (hu : f.Places u) {v : Windowed β} (hw : v.window = u.window)
    (hend : v.window.maxTimestamp = .ok v.timestamp) : f.Places v := by
  cases f with
  | global => exact hw.trans hu
  | fixed f =>
    obtain ⟨i, hi, htiles, hcovers⟩ := hu
    rw [hw, hi] at hend
    have hts : v.timestamp.toInt = i.stop.toInt - 1 := (Word.exact_eq_ok_iff.mp hend).2
    refine ⟨i, hw.trans hi, htiles, ?_, ?_⟩
    · have hlt := Int.lt_of_le_of_lt hcovers.1 hcovers.2
      omega
    · omega

theorem Places.same_time (hu : f.Places u) {v : Windowed β} (hw : v.window = u.window)
    (hts : v.timestamp = u.timestamp) : f.Places v := by
  cases f with
  | global => exact hw.trans hu
  | fixed f =>
    obtain ⟨i, hi, htiles, hcovers⟩ := hu
    exact ⟨i, hw.trans hi, htiles, hts ▸ hcovers⟩

end WindowFn
end KeyedFlow
