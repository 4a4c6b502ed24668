import KeyedFlow.Proofs.Outcome
import Mathlib.Data.List.Nodup

/-!
Slots. A record of a pair belongs to the slot of its key and window. A run of a combine is described
slot by slot: it emits one record for every slot of its input, at the end of the slot's window, with
the value that a function of the slot gives, and it breaks off exactly when a value or an end of a
window is missing. Two such runs with the same values emit the same records up to their order.
-/

set_option autoImplicit false

namespace KeyedFlow
variable {κ β γ ν : Type}

/-- The key and window by which a record is grouped. -/
def Windowed.slot (w : Windowed (κ × β)) : κ × Window := (w.value.1, w.window)

def slotsOf (rs : List (Windowed (κ × β))) : List (κ × Window) := rs.map Windowed.slot

def valuesAt [DecidableEq κ] (s : κ × Window) (rs : List (Windowed (κ × β))) : List β :=
  (rs.filter fun w => w.slot = s).map fun w => w.value.2

def recordsAt [DecidableEq κ] (s : κ × Window) (rs : List (Windowed (κ × β))) :
    List (Windowed (κ × β)) :=
  rs.filter fun w => w.slot = s

/-- One record for each of `slots` and none beside, at the end of its window, its value admitted by
`P`. -/
structure OnePerSlot (slots : List (κ × Window)) (P : κ × Window → β → Prop)
    (out : List (Windowed (κ × β))) : Prop where
  nodup : (slotsOf out).Nodup
  mem_iff : ∀ s, s ∈ slotsOf out ↔ s ∈ slots
  value : ∀ w ∈ out, P w.slot w.value.2
  timestamp : ∀ w ∈ out, w.window.maxTimestamp = .ok w.timestamp

/-- A run that emits one record per slot with the value that `v` gives, and that breaks off exactly
when some value or some end of a window is missing. -/
structure RunsPerSlot {ε ε' : Type} (slots : List (κ × Window)) (v : κ × Window → Except ε β)
    (run : Except ε' (List (Windowed (κ × β)))) : Prop where
  ok_iff : (∃ out, run = .ok out) ↔
    ∀ s ∈ slots, (∃ b, v s = .ok b) ∧ ∃ ts, s.2.maxTimestamp = .ok ts
  onePerSlot : ∀ out, run = .ok out → OnePerSlot slots (fun s b => v s = .ok b) out

section Values
variable [DecidableEq κ] {s : κ × Window} {rs qs : List (Windowed (κ × β))}

@[simp] theorem valuesAt_nil : valuesAt s ([] : List (Windowed (κ × β))) = [] := rfl

theorem valuesAt_cons (w : Windowed (κ × β)) :
    valuesAt s (w :: rs) = if w.slot = s then w.value.2 :: valuesAt s rs else valuesAt s rs := by
  by_cases h : w.slot = s <;> simp [valuesAt, h]

@[simp] theorem valuesAt_append : valuesAt s (rs ++ qs) = valuesAt s rs ++ valuesAt s qs := by
  simp [valuesAt]

theorem valuesAt_flatten (bs : List (List (Windowed (κ × β)))) :
    valuesAt s bs.flatten = (bs.map (valuesAt s)).flatten := by
  induction bs with
  | nil => rfl
  | cons b bs ih => simp [ih]

theorem mem_recordsAt {w : Windowed (κ × β)} : w ∈ recordsAt s rs ↔ w ∈ rs ∧ w.slot = s := by
  simp [recordsAt]

theorem mem_valuesAt {x : β} :
    x ∈ valuesAt s rs ↔ ∃ w ∈ rs, w.slot = s ∧ w.value.2 = x := by
  simp [valuesAt, and_assoc]

theorem valuesAt_eq_nil (h : s ∉ slotsOf rs) : valuesAt s rs = [] := by
  rw [valuesAt, List.map_eq_nil_iff, List.filter_eq_nil_iff]
  intro w hw hs
  exact h (List.mem_map.mpr ⟨w, hw, of_decide_eq_true hs⟩)

theorem valuesAt_map (f : β → γ) :
    valuesAt s (rs.map fun w => w.withValue (w.value.1, f w.value.2)) = (valuesAt s rs).map f := by
  induction rs with
  | nil => rfl
  | cons w rs ih =>
    have hslot : (w.withValue (w.value.1, f w.value.2)).slot = w.slot := rfl
    rw [List.map_cons, valuesAt_cons, valuesAt_cons, ih, hslot]
    split <;> rfl

theorem valuesAt_filter_key (q : κ → Bool) :
    valuesAt s (rs.filter fun w => q w.value.1) = if q s.1 then valuesAt s rs else [] := by
  have hkey {w : Windowed (κ × β)} (hw : w.slot = s) : w.value.1 = s.1 := hw ▸ rfl
  rw [valuesAt, valuesAt, List.filter_filter]
  split
  · rename_i hq
    congr 1
    apply List.filter_congr
    intro w _
    by_cases hw : w.slot = s
    · simp [hw, hkey hw, hq]
    · simp [hw]
  · rename_i hq
    rw [List.map_eq_nil_iff, List.filter_eq_nil_iff]
    intro w _ hw
    obtain ⟨hw, hqw⟩ := (Bool.and_eq_true _ _).mp hw
    exact hq (hkey (of_decide_eq_true hw) ▸ hqw)

end Values

theorem slotsOf_append (rs qs : List (Windowed (κ × β))) :
    slotsOf (rs ++ qs) = slotsOf rs ++ slotsOf qs :=
  List.map_append

theorem slotsOf_map (f : β → γ) (rs : List (Windowed (κ × β))) :
    slotsOf (rs.map fun w => w.withValue (w.value.1, f w.value.2)) = slotsOf rs :=
  List.map_map

theorem mem_slotsOf_filter_key {s : κ × Window} {rs : List (Windowed (κ × β))} (q : κ → Bool) :
    s ∈ slotsOf (rs.filter fun w => q w.value.1) ↔ q s.1 = true ∧ s ∈ slotsOf rs := by
  simp only [slotsOf, List.mem_map, List.mem_filter]
  constructor
  · rintro ⟨w, ⟨hw, hq⟩, rfl⟩
    exact ⟨hq, w, hw, rfl⟩
  · rintro ⟨hq, w, hw, rfl⟩
    exact ⟨w, ⟨hw, hq⟩, rfl⟩

theorem flatMap_filter_perm {α σ : Type} [DecidableEq σ] (f : α → σ) {parts : List σ}
    (hp : parts.Nodup) (xs : List α) :
    (parts.flatMap fun s => xs.filter fun x => f x = s).Perm
      (xs.filter fun x => f x ∈ parts) := by
  induction parts with
  | nil => simp
  | cons s parts ih =>
    obtain ⟨hs, hp⟩ := List.nodup_cons.mp hp
    have hsplit := List.filter_append_perm (fun x => decide (f x = s))
      (xs.filter fun x => f x ∈ s :: parts)
    have hin : (xs.filter fun x => f x ∈ s :: parts).filter (fun x => decide (f x = s)) =
        xs.filter fun x => f x = s := by
      rw [List.filter_filter]
      apply List.filter_congr
      intro x _
      by_cases h : f x = s <;> simp [h]
    have hout : (xs.filter fun x => f x ∈ s :: parts).filter (fun x => !decide (f x = s)) =
        xs.filter fun x => f x ∈ parts := by
      rw [List.filter_filter]
      apply List.filter_congr
      intro x _
      by_cases h : f x = s
      · simp [h, hs]
      · simp [h]
    rw [hin, hout] at hsplit
    exact ((ih hp).append_left _).trans hsplit

namespace OnePerSlot
variable {slots : List (κ × Window)} {P : κ × Window → β → Prop}
  {out out' : List (Windowed (κ × β))}

theorem of_perm (h : OnePerSlot slots P out) (hp : out.Perm out') : OnePerSlot slots P out' where
  nodup := (hp.map Windowed.slot).nodup_iff.mp h.nodup
  mem_iff s := (hp.map Windowed.slot).mem_iff.symm.trans (h.mem_iff s)
  value w hw := h.value w (hp.mem_iff.mpr hw)
  timestamp w hw := h.timestamp w (hp.mem_iff.mpr hw)

theorem imp {slots' : List (κ × Window)} {Q : κ × Window → β → Prop} (h : OnePerSlot slots P out)
    (hs : ∀ s, s ∈ slots ↔ s ∈ slots') (hPQ : ∀ s ∈ slots, ∀ b, P s b → Q s b) :
    OnePerSlot slots' Q out where
  nodup := h.nodup
  mem_iff s := (h.mem_iff s).trans (hs s)
  value w hw := hPQ _ ((h.mem_iff _).mp (List.mem_map_of_mem hw)) _ (h.value w hw)
  timestamp := h.timestamp

theorem eq_of_slot {slots' : List (κ × Window)} {P' : κ × Window → β → Prop}
    (h : OnePerSlot slots P out) (h' : OnePerSlot slots' P' out') {w w' : Windowed (κ × β)}
    (hP : ∀ b c, P w.slot b → P' w.slot c → b = c) (hw : w ∈ out) (hw' : w' ∈ out')
    (hs : w.slot = w'.slot) : w = w' := by
  have hv := h.value w hw
  have ht := h.timestamp w hw
  have hv' := h'.value w' hw'
  have ht' := h'.timestamp w' hw'
  obtain ⟨⟨k, b⟩, ts, win⟩ := w
  obtain ⟨⟨k', b'⟩, ts', win'⟩ := w'
  simp only [Windowed.slot, Prod.mk.injEq] at hs hv hv' ht ht' hP
  obtain ⟨rfl, rfl⟩ := hs
  rw [ht] at ht'
  rw [hP _ _ hv hv', Except.ok.inj ht']

/-- Where a slot admits only one value, the records are determined up to their order. -/
theorem perm (h : OnePerSlot slots P out) (h' : OnePerSlot slots P out')
    (hP : ∀ s b c, P s b → P s c → b = c) : out.Perm out' := by
  apply (List.perm_ext_iff_of_nodup h.nodup.of_map h'.nodup.of_map).mpr
  have into {as bs : List (Windowed (κ × β))} (ha : OnePerSlot slots P as)
      (hb : OnePerSlot slots P bs) (w : Windowed (κ × β)) (hw : w ∈ as) : w ∈ bs := by
    have hs := (hb.mem_iff _).mpr ((ha.mem_iff _).mp (List.mem_map_of_mem hw))
    obtain ⟨w', hw', heq⟩ := List.mem_map.mp hs
    rw [ha.eq_of_slot hb (hP _) hw hw' heq.symm]
    exact hw'
  exact fun w => ⟨into h h' w, into h' h w⟩

theorem valuesAt_of_mem [DecidableEq κ] (h : OnePerSlot slots P out) {s : κ × Window}
    (hs : s ∈ slots) : ∃ b, P s b ∧ valuesAt s out = [b] := by
  obtain ⟨w, hw, rfl⟩ := List.mem_map.mp ((h.mem_iff s).mpr hs)
  refine ⟨w.value.2, h.value w hw, ?_⟩
  have hn := h.nodup
  clear h hs
  induction out with
  | nil => simp at hw
  | cons u out ih =>
    obtain ⟨hu, hn⟩ := List.nodup_cons.mp hn
    rw [valuesAt_cons]
    rcases List.mem_cons.mp hw with rfl | hw
    · rw [if_pos rfl, valuesAt_eq_nil hu]
    · have hne : u.slot ≠ w.slot := fun heq => hu (heq ▸ List.mem_map_of_mem hw)
      rw [if_neg hne, ih hw hn]

theorem recordsAt_of_mem [DecidableEq κ] (h : OnePerSlot slots P out) {s : κ × Window}
    (hs : s ∈ slots) : ∃ w, recordsAt s out = [w] := by
  obtain ⟨b, _, hb⟩ := h.valuesAt_of_mem hs
  have hone : (recordsAt s out).length = 1 := by
    rw [← List.length_map fun w : Windowed (κ × β) => w.value.2]
    exact congrArg List.length hb
  exact List.length_eq_one_iff.mp hone

theorem recordsAt_of_not_mem [DecidableEq κ] (h : OnePerSlot slots P out) {s : κ × Window}
    (hs : s ∉ slots) : recordsAt s out = [] := by
  rw [recordsAt, List.filter_eq_nil_iff]
  intro w hw hslot
  have hmem := List.mem_map_of_mem (f := Windowed.slot) hw
  rw [of_decide_eq_true hslot] at hmem
  exact hs ((h.mem_iff s).mp hmem)

theorem recordsAt_eq [DecidableEq κ] {P' : κ × Window → β → Prop} (h : OnePerSlot slots P out)
    (h' : OnePerSlot slots P' out') {s : κ × Window} (hP : ∀ b c, P s b → P' s c → b = c) :
    recordsAt s out = recordsAt s out' := by
  by_cases hs : s ∈ slots
  · obtain ⟨w, hw⟩ := h.recordsAt_of_mem hs
    obtain ⟨w', hw'⟩ := h'.recordsAt_of_mem hs
    obtain ⟨hmem, hslot⟩ := mem_recordsAt.mp (hw ▸ List.mem_singleton_self w)
    obtain ⟨hmem', hslot'⟩ := mem_recordsAt.mp (hw' ▸ List.mem_singleton_self w')
    rw [hw, hw', h.eq_of_slot h' (hslot ▸ hP) hmem hmem' (hslot.trans hslot'.symm)]
  · rw [h.recordsAt_of_not_mem hs, h'.recordsAt_of_not_mem hs]

theorem valuesAt_of_not_mem [DecidableEq κ] (h : OnePerSlot slots P out) {s : κ × Window}
    (hs : s ∉ slots) : valuesAt s out = [] :=
  valuesAt_eq_nil fun hm => hs ((h.mem_iff s).mp hm)

end OnePerSlot

namespace RunsPerSlot
open Outcome
variable {ε ε' ε'' : Type} {slots slots' : List (κ × Window)} {v : κ × Window → Except ε β}
  {run : Except ε' (List (Windowed (κ × β)))} {run' : Except ε'' (List (Windowed (κ × β)))}

theorem of_mapM {η : Type} {entries : List η} {slotOf : η → κ × Window}
    (hn : (entries.map slotOf).Nodup) {emit : η → Except ε' (Windowed (κ × β))}
    (hemit : ∀ e ∈ entries, ∀ w, emit e = .ok w ↔ ∃ b ts, v (slotOf e) = .ok b ∧
      (slotOf e).2.maxTimestamp = .ok ts ∧ w = ⟨((slotOf e).1, b), ts, (slotOf e).2⟩) :
    RunsPerSlot (entries.map slotOf) v (entries.mapM emit) := by
  constructor
  · rw [exists_mapM_eq_ok_iff, List.forall_mem_map]
    apply forall₂_congr
    intro e he
    simp only [hemit e he]
    constructor
    · rintro ⟨_, b, ts, hb, hts, _⟩
      exact ⟨⟨b, hb⟩, ts, hts⟩
    · rintro ⟨⟨b, hb⟩, ts, hts⟩
      exact ⟨_, b, ts, hb, hts, rfl⟩
  · intro out hout
    have hall := mapM_eq_ok_iff.mp hout
    have hslots : slotsOf out = entries.map slotOf := by
      clear hout hn
      induction hall with
      | nil => rfl
      | @cons e w _ _ hw _ ih =>
        obtain ⟨b, ts, _, _, rfl⟩ := (hemit e List.mem_cons_self w).mp hw
        have htail := ih fun e he => hemit e (List.mem_cons_of_mem _ he)
        simpa [slotsOf, Windowed.slot] using htail
    have hfrom {w : Windowed (κ × β)} (hw : w ∈ out) :
        v w.slot = .ok w.value.2 ∧ w.window.maxTimestamp = .ok w.timestamp := by
      obtain ⟨e, he, hemitted⟩ := mem_of_forall₂ hall hw
      obtain ⟨b, ts, hb, hts, rfl⟩ := (hemit e he w).mp hemitted
      exact ⟨hb, hts⟩
    exact ⟨hslots ▸ hn, fun s => by rw [hslots], fun w hw => (hfrom hw).1,
      fun w hw => (hfrom hw).2⟩

theorem of_bind {α : Type} {x : Except ε' α} {f : α → Except ε' (List (Windowed (κ × β)))}
    (hx : (∀ s ∈ slots, (∃ b, v s = .ok b) ∧ ∃ ts, s.2.maxTimestamp = .ok ts) → ∃ a, x = .ok a)
    (hf : ∀ a, x = .ok a → RunsPerSlot slots v (f a)) : RunsPerSlot slots v (x >>= f) := by
  cases x with
  | ok a => exact hf a rfl
  | error e =>
    refine ⟨?_, fun out hout => by cases hout⟩
    constructor
    · rintro ⟨out, hout⟩
      cases hout
    · intro hall
      obtain ⟨a, ha⟩ := hx hall
      cases ha

/-- Only the set of slots matters, and the values only as far as they are given. -/
theorem congr {v' : κ × Window → Except ε'' β} (h : RunsPerSlot slots v run)
    (hs : ∀ s, s ∈ slots ↔ s ∈ slots')
    (hv : ∀ s ∈ slots, Corresponds (· = ·) (v s) (v' s)) : RunsPerSlot slots' v' run := by
  constructor
  · rw [h.ok_iff]
    constructor
    · intro hall s hs'
      have hmem := (hs s).mpr hs'
      exact ⟨(hv s hmem).exists_ok_iff.mp (hall s hmem).1, (hall s hmem).2⟩
    · intro hall s hmem
      have hs' := (hs s).mp hmem
      exact ⟨(hv s hmem).exists_ok_iff.mpr (hall s hs').1, (hall s hs').2⟩
  · intro out hout
    apply (h.onePerSlot out hout).imp hs
    intro s hmem b hb
    have hc := hv s hmem
    rw [hb] at hc
    obtain ⟨_, hb', rfl⟩ := hc.ok_left
    exact hb'

theorem of_corresponds (h : RunsPerSlot slots v run) (hc : Corresponds List.Perm run run') :
    RunsPerSlot slots v run' := by
  constructor
  · rw [← hc.exists_ok_iff, h.ok_iff]
  · rintro out rfl
    obtain ⟨out', hout', hp⟩ := hc.ok_right
    exact (h.onePerSlot out' hout').of_perm hp

theorem corresponds (h : RunsPerSlot slots v run) (h' : RunsPerSlot slots v run') :
    Corresponds List.Perm run run' := by
  apply Corresponds.of_iff (h.ok_iff.trans h'.ok_iff.symm)
  intro out out' hout hout'
  apply (h.onePerSlot out hout).perm (h'.onePerSlot out' hout')
  intro s b c hb hc
  exact Except.ok.inj (hb.symm.trans hc)

end RunsPerSlot
end KeyedFlow
