import KeyedFlow.Proofs.Collections
import KeyedFlow.Proofs.FixedWindows

/-!
Window functions that assign alike. Functions with the same grid of intervals assign the same window
wherever both assign one, and a window that both assign shows that they have the same grid. The
offset of fixed windows can be given in many ways, since moving it by whole sizes leaves the grid as
it is; between functions whose offset is less than their size, assigning alike is being the same.
So flattening such collections refuses those whose windows differ, and no others.
-/

set_option autoImplicit false

namespace KeyedFlow
open Outcome

namespace FixedWindows
variable {a b : FixedWindows} {i : Interval}

/-- The intervals of the one are those of the other. -/
def SameGrid (a b : FixedWindows) : Prop :=
  a.size = b.size ∧ a.size.toInt ∣ a.offset.toInt - b.offset.toInt

theorem Tiles.sameGrid (ha : a.Tiles i) (hb : b.Tiles i) : a.SameGrid b := by
  obtain ⟨hasize, hastart⟩ := ha
  obtain ⟨hbsize, hbstart⟩ := hb
  have hsize : a.size = b.size := Int64.toInt_inj.mp (hasize.symm.trans hbsize)
  rw [← hsize] at hbstart
  have hoffset : a.offset.toInt - b.offset.toInt =
      i.start.toInt - b.offset.toInt - (i.start.toInt - a.offset.toInt) := by omega
  exact ⟨hsize, hoffset ▸ Int.dvd_sub hbstart hastart⟩

theorem SameGrid.tiles (h : a.SameGrid b) (hb : b.Tiles i) : a.Tiles i := by
  obtain ⟨hsize, hoffset⟩ := h
  obtain ⟨hbsize, hbstart⟩ := hb
  rw [← hsize] at hbsize hbstart
  have hstart : i.start.toInt - a.offset.toInt =
      i.start.toInt - b.offset.toInt - (a.offset.toInt - b.offset.toInt) := by omega
  exact ⟨hbsize, hstart ▸ Int.dvd_sub hbstart hoffset⟩

/-- The offset is less than the size, and not negative. -/
def Reduced (w : FixedWindows) : Prop := 0 ≤ w.offset.toInt ∧ w.offset.toInt < w.size.toInt

theorem SameGrid.eq_of_reduced (h : a.SameGrid b) (ha : a.Reduced) (hb : b.Reduced) : a = b := by
  obtain ⟨hsize, hoffset⟩ := h
  obtain ⟨halow, hahigh⟩ := ha
  obtain ⟨hblow, hbhigh⟩ := hb
  have hclose : (a.offset.toInt - b.offset.toInt).natAbs < a.size.toInt.natAbs := by
    rw [← hsize] at hbhigh
    omega
  have hzero := Int.eq_zero_of_dvd_of_natAbs_lt_natAbs hoffset hclose
  have hoffset : a.offset = b.offset := Int64.toInt_inj.mp (by omega)
  cases a
  cases b
  cases hsize
  cases hoffset
  rfl

theorem Reduced.exists_tumble {w : FixedWindows} (hw : w.Reduced) : ∃ i, w.tumble 0 = .ok i := by
  obtain ⟨hlow, hhigh⟩ := hw
  have hsize := w.size_pos
  have hmax := Int64.toInt_lt w.size
  have hzero : (0 : Timestamp).toInt = 0 := rfl
  rw [exists_tumble_iff, steps_inRange_iff]
  simp only [Word.inRange_int64_iff]
  -- time zero lies in the window that starts at the offset, or in the one before
  by_cases hoffset : w.offset.toInt = 0
  · have hplace : w.place 0 = 0 := place_eq_iff.mpr ⟨by omega, by omega⟩
    rw [hplace]
    omega
  · have hplace : w.place 0 = -1 := place_eq_iff.mpr ⟨by omega, by omega⟩
    rw [hplace]
    omega

end FixedWindows

namespace WindowFn
variable {f g : WindowFn} {ts : Timestamp} {v w : Window}

/-- They assign the same window wherever both assign one. -/
def AgreesWith (f g : WindowFn) : Prop :=
  ∀ ts v w, f.assign ts = .ok v → g.assign ts = .ok w → v = w

def Meets (f g : WindowFn) : Prop :=
  ∃ ts v w, f.assign ts = .ok v ∧ g.assign ts = .ok w

def SameGrid : WindowFn → WindowFn → Prop
  | global, global => True
  | fixed a, fixed b => a.SameGrid b
  | _, _ => False

def Reduced : WindowFn → Prop
  | global => True
  | fixed w => w.Reduced

theorem eq_iff_sameGrid (hv : f.assign ts = .ok v) (hw : g.assign ts = .ok w) :
    v = w ↔ f.SameGrid g := by
  cases f with
  | global =>
    cases hv
    cases g with
    | global =>
      cases hw
      exact iff_of_true rfl trivial
    | fixed b =>
      rw [FixedWindows.assign_fixed, map_eq_ok_iff] at hw
      obtain ⟨j, -, rfl⟩ := hw
      exact iff_of_false Window.noConfusion id
  | fixed a =>
    rw [FixedWindows.assign_fixed, map_eq_ok_iff] at hv
    obtain ⟨i, hi, rfl⟩ := hv
    cases g with
    | global =>
      cases hw
      exact iff_of_false Window.noConfusion id
    | fixed b =>
      rw [FixedWindows.assign_fixed, map_eq_ok_iff] at hw
      obtain ⟨j, hj, rfl⟩ := hw
      obtain ⟨hitiles, hits⟩ := FixedWindows.tumble_eq_ok hi
      obtain ⟨hjtiles, hjts⟩ := FixedWindows.tumble_eq_ok hj
      constructor
      · intro h
        cases h
        exact hitiles.sameGrid hjtiles
      · intro (h : a.SameGrid b)
        rw [hitiles.eq (h.tiles hjtiles) hits hjts]

theorem agreesWith_iff : f.AgreesWith g ↔ f.SameGrid g ∨ ¬ f.Meets g := by
  constructor
  · intro h
    refine or_iff_not_imp_right.mpr fun hmeets => ?_
    obtain ⟨ts, v, w, hv, hw⟩ := not_not.mp hmeets
    exact (eq_iff_sameGrid hv hw).mp (h ts v w hv hw)
  · intro h ts v w hv hw
    exact (eq_iff_sameGrid hv hw).mpr (h.resolve_right fun hnot => hnot ⟨ts, v, w, hv, hw⟩)

theorem compatible_iff_eq : f.compatible g = true ↔ f = g := beq_iff_eq

theorem Reduced.exists_assign (hf : f.Reduced) : ∃ v, f.assign 0 = .ok v := by
  cases f with
  | global => exact ⟨.global, rfl⟩
  | fixed w =>
    obtain ⟨i, hi⟩ := FixedWindows.Reduced.exists_tumble hf
    exact ⟨.interval i, FixedWindows.assign_eq_interval_iff.mpr hi⟩

theorem SameGrid.eq_of_reduced (h : f.SameGrid g) (hf : f.Reduced) (hg : g.Reduced) : f = g := by
  cases f with
  | global =>
    cases g with
    | global => rfl
    | fixed b => exact h.elim
  | fixed a =>
    cases g with
    | global => exact h.elim
    | fixed b => exact congrArg fixed (FixedWindows.SameGrid.eq_of_reduced h hf hg)

theorem Reduced.eq_iff_agreesWith (hf : f.Reduced) (hg : g.Reduced) : f = g ↔ f.AgreesWith g := by
  rw [agreesWith_iff]
  constructor
  · rintro rfl
    obtain ⟨v, hv⟩ := hf.exists_assign
    exact .inl ((eq_iff_sameGrid hv hv).mp rfl)
  · intro h
    obtain ⟨v, hv⟩ := hf.exists_assign
    obtain ⟨w, hw⟩ := hg.exists_assign
    exact (h.resolve_right fun hnot => hnot ⟨0, v, w, hv, hw⟩).eq_of_reduced hf hg

end WindowFn

namespace Collection
open WindowFn
variable {B : Type} [TypeFamily B] {τ : ElemType B} {c d : Collection τ} {cs : List (Collection τ)}

theorem mem_of_incompatibleWith? (h : c.incompatibleWith? cs = some d) :
    d ∈ cs ∧ d.strategy.windowFn ≠ c.strategy.windowFn := by
  refine ⟨List.mem_of_find?_eq_some h, ?_⟩
  have hd := List.find?_some h
  simpa only [WindowFn.compatible, Bool.not_eq_true', beq_eq_false_iff_ne] using hd

theorem exists_on_flatten_iff (c : Collection τ) (cs : List (Collection τ)) (p : Pipeline B) :
    (∃ d q, (flatten (c :: cs)).on p = (.ok d, q)) ↔
      ∀ d ∈ cs, d.strategy.windowFn = c.strategy.windowFn := by
  rw [← incompatibleWith?_eq_none_iff, on_flatten]
  cases c.incompatibleWith? cs with
  | none => exact iff_of_true ⟨_, _, rfl⟩ rfl
  | some d => exact iff_of_false (fun ⟨_, _, h⟩ => nomatch h) (fun h => nomatch h)

theorem on_flatten_error {p q : Pipeline B} {e : FlowError}
    (h : (flatten (c :: cs)).on p = (.error e, q)) : q = p ∧
      ∃ d ∈ cs, d.strategy.windowFn ≠ c.strategy.windowFn ∧
        e = .incompatibleWindows c.strategy.windowFn d.strategy.windowFn := by
  rw [on_flatten] at h
  cases hd : c.incompatibleWith? cs with
  | none =>
    rw [hd] at h
    cases h
  | some d =>
    rw [hd] at h
    cases h
    obtain ⟨hmem, hne⟩ := mem_of_incompatibleWith? hd
    exact ⟨rfl, d, hmem, hne, rfl⟩

/-- Compatible functions assign the same window everywhere. Two functions agree wherever both assign
a window when they have the same grid, and else only if there is no such timestamp; where offsets
are less than sizes, they are then compatible. So flattening such collections succeeds just when
their windows agree with those of the first, and otherwise names one whose windows do not. -/
theorem compatible_exact (f g : WindowFn) (c : Collection τ) (cs : List (Collection τ))
    (p : Pipeline B) :
    (f.compatible g = true → ∀ ts, f.assign ts = g.assign ts) ∧
    (f.AgreesWith g ↔ f.SameGrid g ∨ ¬ f.Meets g) ∧
    (f.Reduced → g.Reduced → (f.compatible g = true ↔ f.AgreesWith g)) ∧
    ((∀ d ∈ c :: cs, d.strategy.windowFn.Reduced) →
      ((∃ d q, (flatten (c :: cs)).on p = (.ok d, q)) ↔
        ∀ d ∈ cs, d.strategy.windowFn.AgreesWith c.strategy.windowFn) ∧
      ∀ e q, (flatten (c :: cs)).on p = (.error e, q) → q = p ∧
        ∃ d ∈ cs, ¬ d.strategy.windowFn.AgreesWith c.strategy.windowFn ∧
          e = .incompatibleWindows c.strategy.windowFn d.strategy.windowFn) := by
  refine ⟨fun h ts => ?_, agreesWith_iff, fun hf hg => ?_, fun hreduced => ?_⟩
  · rw [compatible_iff_eq.mp h]
  · rw [compatible_iff_eq, hf.eq_iff_agreesWith hg]
  obtain ⟨hc, hcs⟩ := List.forall_mem_cons.mp hreduced
  have hagree : ∀ d ∈ cs, d.strategy.windowFn = c.strategy.windowFn ↔
      d.strategy.windowFn.AgreesWith c.strategy.windowFn := fun d hd =>
    (hcs d hd).eq_iff_agreesWith hc
  refine ⟨(exists_on_flatten_iff c cs p).trans (forall₂_congr hagree), fun e q h => ?_⟩
  obtain ⟨hq, d, hd, hne, he⟩ := on_flatten_error h
  exact ⟨hq, d, hd, mt (hagree d hd).mpr hne, he⟩

/-- A collection whose only node is the first, windowed by `f`. -/
def windowedBy (f : WindowFn) : Collection (.int64 : Sample.Ty) := ⟨0, ⟨f, .discarding⟩, none⟩

def laterSevens : FixedWindows := { FixedWindows.sevens with offset := 4 }

theorem compatible_exact_of_sevens :
    ¬ (fixed .sevens).AgreesWith (fixed laterSevens) ∧
      ∃ d q, (flatten [windowedBy (fixed .sevens), windowedBy (fixed .sevens)]).on Pipeline.new =
        (.ok d, q) := by
  have hsevens : (fixed .sevens).Reduced := ⟨by decide, by decide⟩
  have hlater : (fixed laterSevens).Reduced := ⟨by decide, by decide⟩
  have hreduced : ∀ d ∈ [windowedBy (fixed .sevens), windowedBy (fixed .sevens)],
      d.strategy.windowFn.Reduced := by
    intro d hd
    rcases List.mem_pair.mp hd with rfl | rfl <;> exact hsevens
  obtain ⟨-, -, hagree, hflatten⟩ := compatible_exact (fixed .sevens) (fixed laterSevens)
    (windowedBy (fixed .sevens)) [windowedBy (fixed .sevens)] Pipeline.new
  refine ⟨mt (hagree hsevens hlater).mpr (by decide), ?_⟩
  refine (hflatten hreduced).1.mpr fun d hd => ?_
  rw [List.mem_singleton.mp hd]
  exact fun ts v w hv hw => Except.ok.inj (hv.symm.trans hw)

def evens : FixedWindows := ⟨2, 0, by decide⟩

/-- The same windows, counted from one window earlier. -/
def earlierEvens : FixedWindows := ⟨2, -2, by decide⟩

theorem exists_assign_evens_iff (ts : Timestamp) : (∃ v, (fixed evens).assign ts = .ok v) ↔
    ∃ v, (fixed earlierEvens).assign ts = .ok v := by
  have hlow := Int64.le_toInt ts
  have hhigh := Int64.toInt_lt ts
  have hsize : evens.size.toInt = 2 := rfl
  have hoffset : evens.offset.toInt = 0 := rfl
  have hsize' : earlierEvens.size.toInt = 2 := rfl
  have hoffset' : earlierEvens.offset.toInt = -2 := rfl
  obtain ⟨hfloor, hnext⟩ := evens.place_bounds ts
  rw [hsize, hoffset] at hfloor hnext
  have hplace : earlierEvens.place ts = evens.place ts + 1 := by
    rw [FixedWindows.place_eq_iff, hsize', hoffset']
    omega
  rw [FixedWindows.exists_assign_iff, FixedWindows.exists_assign_iff,
    FixedWindows.steps_inRange_iff, FixedWindows.steps_inRange_iff, hplace, hsize, hoffset, hsize',
    hoffset']
  simp only [Word.inRange_int64_iff]
  omega

theorem not_compatible_exact_of_evens :
    (fixed evens).compatible (fixed earlierEvens) = false ∧
      (∀ ts v, (fixed evens).assign ts = .ok v ↔ (fixed earlierEvens).assign ts = .ok v) ∧
      ((flatten [windowedBy (fixed evens), windowedBy (fixed earlierEvens)]).on Pipeline.new).1 =
        .error (.incompatibleWindows (fixed evens) (fixed earlierEvens)) ∧
      ¬ ∀ f g : WindowFn, f.compatible g = true ↔ f.AgreesWith g := by
  have hgrid : (fixed evens).SameGrid (fixed earlierEvens) := ⟨rfl, by decide⟩
  have hagree : (fixed evens).AgreesWith (fixed earlierEvens) := agreesWith_iff.mpr (.inl hgrid)
  refine ⟨rfl, fun ts v => ⟨fun hv => ?_, fun hv => ?_⟩, rfl, fun h => ?_⟩
  · obtain ⟨w, hw⟩ := (exists_assign_evens_iff ts).mp ⟨v, hv⟩
    rwa [hagree ts v w hv hw]
  · obtain ⟨w, hw⟩ := (exists_assign_evens_iff ts).mpr ⟨v, hv⟩
    rwa [← hagree ts w v hw hv]
  · exact absurd ((h _ _).mpr hagree) (by decide)

end Collection
end KeyedFlow
