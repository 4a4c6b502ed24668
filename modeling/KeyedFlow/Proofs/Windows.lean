import KeyedFlow.Proofs.Slots

/-!
Windows. What slots are to pairs, windows are to the elements of a whole collection: a run of its
combine emits one record for every window that holds an element, at the end of the window. Keyed by
the unit value, a window and its only slot are the same.
-/

set_option autoImplicit false

namespace KeyedFlow
variable {β γ : Type}

def windowsOf (rs : List (Windowed β)) : List Window := rs.map Windowed.window

def valuesIn (w : Window) (rs : List (Windowed β)) : List β :=
  (rs.filter fun u => u.window = w).map Windowed.value

/-- One record for each of `windows` and none beside, at the end of its window, its value admitted
by `P`. -/
structure OnePerWindow (windows : List Window) (P : Window → β → Prop) (out : List (Windowed β)) :
    Prop where
  nodup : (windowsOf out).Nodup
  mem_iff : ∀ w, w ∈ windowsOf out ↔ w ∈ windows
  value : ∀ u ∈ out, P u.window u.value
  timestamp : ∀ u ∈ out, u.window.maxTimestamp = .ok u.timestamp

/-- A run that emits one record per window with the value that `v` gives, and that breaks off
exactly when some value or some end of a window is missing. -/
structure RunsPerWindow {ε ε' : Type} (windows : List Window) (v : Window → Except ε β)
    (run : Except ε' (List (Windowed β))) : Prop where
  ok_iff : (∃ out, run = .ok out) ↔
    ∀ w ∈ windows, (∃ b, v w = .ok b) ∧ ∃ ts, w.maxTimestamp = .ok ts
  onePerWindow : ∀ out, run = .ok out → OnePerWindow windows (fun w b => v w = .ok b) out

theorem valuesIn_eq_map {w : Window} {rs : List (Windowed β)} (h : ∀ u ∈ rs, u.window = w) :
    valuesIn w rs = rs.map Windowed.value := by
  rw [valuesIn, List.filter_eq_self.mpr]
  intro u hu
  exact decide_eq_true (h u hu)

theorem mem_windowsOf_iff {w v : Window} {rs : List (Windowed β)} (h : ∀ u ∈ rs, u.window = w)
    (hrs : rs ≠ []) : v ∈ windowsOf rs ↔ v = w := by
  constructor
  · intro hv
    obtain ⟨u, hu, rfl⟩ := List.mem_map.mp hv
    exact h u hu
  · rintro rfl
    obtain ⟨u, hu⟩ := List.exists_mem_of_ne_nil rs hrs
    exact List.mem_map.mpr ⟨u, hu, h u hu⟩

theorem OnePerWindow.eq_nil {P : Window → β → Prop} {out : List (Windowed β)}
    (h : OnePerWindow [] P out) : out = [] := by
  cases out with
  | nil => rfl
  | cons u out =>
    have hu := (h.mem_iff u.window).mp List.mem_cons_self
    cases hu

theorem OnePerWindow.eq_singleton {windows : List Window} {P : Window → β → Prop}
    {out : List (Windowed β)} (h : OnePerWindow windows P out) {w : Window}
    (hw : ∀ v, v ∈ windows ↔ v = w) :
    ∃ b ts, P w b ∧ w.maxTimestamp = .ok ts ∧ out = [⟨b, ts, w⟩] := by
  have hall : ∀ v, v ∈ windowsOf out ↔ v = w := fun v => (h.mem_iff v).trans (hw v)
  cases out with
  | nil => exact absurd ((hall w).mpr rfl) List.not_mem_nil
  | cons u rest =>
    have hu : u.window = w := (hall u.window).mp List.mem_cons_self
    have hrest : rest = [] := by
      apply List.eq_nil_iff_forall_not_mem.mpr
      intro v hv
      have hmem : v.window ∈ windowsOf rest := List.mem_map_of_mem hv
      have hv' : v.window = w := (hall v.window).mp (List.mem_cons_of_mem _ hmem)
      exact (List.nodup_cons.mp h.nodup).1 (hu.trans hv'.symm ▸ hmem)
    subst hrest
    subst hu
    exact ⟨u.value, u.timestamp, h.value u List.mem_cons_self, h.timestamp u List.mem_cons_self, rfl⟩

theorem OnePerWindow.valuesIn_of_mem {windows : List Window} {P : Window → β → Prop}
    {out : List (Windowed β)} (h : OnePerWindow windows P out) {w : Window} (hw : w ∈ windows) :
    ∃ b, P w b ∧ valuesIn w out = [b] := by
  have hmem {u : Windowed β} : u ∈ out.filter (fun u => u.window = w) ↔ u ∈ out ∧ u.window = w := by
    simp
  have hone : OnePerWindow [w] P (out.filter fun u => u.window = w) := by
    refine ⟨h.nodup.sublist (List.filter_sublist.map _), fun v => ?_,
      fun u hu => h.value u (hmem.mp hu).1, fun u hu => h.timestamp u (hmem.mp hu).1⟩
    rw [List.mem_singleton]
    constructor
    · intro hv
      obtain ⟨u, hu, rfl⟩ := List.mem_map.mp hv
      exact (hmem.mp hu).2
    · rintro rfl
      obtain ⟨u, hu, huw⟩ := List.mem_map.mp ((h.mem_iff v).mpr hw)
      exact List.mem_map.mpr ⟨u, hmem.mpr ⟨hu, huw⟩, huw⟩
  obtain ⟨b, ts, hb, -, hout⟩ := hone.eq_singleton fun v => List.mem_singleton
  exact ⟨b, hb, by rw [valuesIn, hout]; rfl⟩

section Runs
variable {ε ε' : Type} {v : Window → Except ε β} {run : Except ε' (List (Windowed β))}

theorem RunsPerWindow.eq_nil (h : RunsPerWindow [] v run) : run = .ok [] := by
  obtain ⟨out, hout⟩ := h.ok_iff.mpr fun _ hw => absurd hw List.not_mem_nil
  rw [hout, (h.onePerWindow out hout).eq_nil]

theorem RunsPerWindow.corresponds {windows : List Window} (h : RunsPerWindow windows v run)
    {w : Window} (hw : ∀ u, u ∈ windows ↔ u = w) {ts : Timestamp}
    (hts : w.maxTimestamp = .ok ts) :
    Outcome.Corresponds (fun out b => out = [⟨b, ts, w⟩]) run (v w) := by
  apply Outcome.Corresponds.of_iff
  · rw [h.ok_iff]
    constructor
    · intro hall
      exact (hall w ((hw w).mpr rfl)).1
    · intro hb u hu
      cases (hw u).mp hu
      exact ⟨hb, ts, hts⟩
  · intro out b hout hb
    obtain ⟨b', ts', hb', hts', rfl⟩ := (h.onePerWindow out hout).eq_singleton hw
    cases hb.symm.trans hb'
    cases hts.symm.trans hts'
    rfl

end Runs

section Unit

def keyByUnit (rs : List (Windowed β)) : List (Windowed (Unit × β)) :=
  rs.map fun w => w.withValue ((), w.value)

def dropUnit (rs : List (Windowed (Unit × β))) : List (Windowed β) :=
  rs.map fun w => w.withValue w.value.2

theorem slotsOf_keyByUnit (rs : List (Windowed β)) :
    slotsOf (keyByUnit rs) = (windowsOf rs).map fun w => ((), w) := by
  rw [slotsOf, keyByUnit, windowsOf, List.map_map, List.map_map]
  rfl

theorem windowsOf_dropUnit (rs : List (Windowed (Unit × β))) :
    (windowsOf (dropUnit rs)).map (fun w => ((), w)) = slotsOf rs := by
  rw [slotsOf, dropUnit, windowsOf, List.map_map, List.map_map]
  rfl

theorem valuesAt_keyByUnit (w : Window) (rs : List (Windowed β)) :
    valuesAt ((), w) (keyByUnit rs) = valuesIn w rs := by
  rw [valuesAt, valuesIn, keyByUnit, List.filter_map, List.map_map]
  congr 1
  apply List.filter_congr
  intro u _
  simp [Windowed.slot, Windowed.withValue]

theorem mem_map_unit {w : Window} {ws : List Window} :
    ((), w) ∈ ws.map (fun w => ((), w)) ↔ w ∈ ws :=
  List.mem_map_of_injective fun _ _ h => (Prod.mk.inj h).2

theorem OnePerSlot.dropUnit {windows : List Window} {P : Unit × Window → β → Prop}
    {out : List (Windowed (Unit × β))}
    (h : OnePerSlot (windows.map fun w => ((), w)) P out) :
    OnePerWindow windows (fun w => P ((), w)) (dropUnit out) where
  nodup := by
    have hn := h.nodup
    rw [← windowsOf_dropUnit] at hn
    exact hn.of_map
  mem_iff w := by
    rw [← mem_map_unit, windowsOf_dropUnit, h.mem_iff, mem_map_unit]
  value u hu := by
    obtain ⟨w, hw, rfl⟩ := List.mem_map.mp hu
    exact h.value w hw
  timestamp u hu := by
    obtain ⟨w, hw, rfl⟩ := List.mem_map.mp hu
    exact h.timestamp w hw

theorem RunsPerSlot.dropUnit {ε ε' : Type} {windows : List Window}
    {v : Unit × Window → Except ε β} {run : Except ε' (List (Windowed (Unit × β)))}
    (h : RunsPerSlot (windows.map fun w => ((), w)) v run) :
    RunsPerWindow windows (fun w => v ((), w)) (run.map KeyedFlow.dropUnit) where
  ok_iff := by
    rw [Outcome.exists_map_eq_ok_iff, h.ok_iff, List.forall_mem_map]
  onePerWindow out hout := by
    obtain ⟨out', hout', rfl⟩ := Outcome.map_eq_ok_iff.mp hout
    exact (h.onePerSlot out' hout').dropUnit

end Unit
end KeyedFlow
