import KeyedFlow.Proofs.Slots
import KeyedFlow.Transform.Partials
import Mathlib.Data.List.Induction

/-!
Combining one bundle in advance. The table of accumulators holds, for every slot of the records seen
so far, the fold of the slot's values; it grows by a slot whenever a record opens one, and adding a
record breaks off exactly when the fold of its slot does. A bundle therefore runs once per slot and
emits the compacted fold. No law of the combiner is needed.
-/

set_option autoImplicit false

namespace KeyedFlow
open Outcome

namespace Partials
variable {κ α : Type} [DecidableEq κ] {k : κ} {fresh a : α} {accs : Partials κ α}

def held (k : κ) (fresh : α) : Partials κ α → α
  | [] => fresh
  | (j, a) :: rest => if j = k then a else held k fresh rest

def put (k : κ) (a : α) : Partials κ α → Partials κ α
  | [] => [(k, a)]
  | (j, b) :: rest => if j = k then (j, a) :: rest else (j, b) :: put k a rest

theorem update_eq (f : α → Checked α) (accs : Partials κ α) :
    accs.update k fresh f = (f (accs.held k fresh)).map fun a => accs.put k a := by
  induction accs with
  | nil =>
    change (f fresh >>= fun a => .ok [(k, a)]) = (f fresh).map _
    cases f fresh <;> rfl
  | cons e accs ih =>
    obtain ⟨j, b⟩ := e
    rw [update, held]
    split
    · rename_i hj
      simp only [put, if_pos hj]
      change (f b >>= fun c => .ok ((j, c) :: accs)) = (f b).map _
      cases f b <;> rfl
    · rename_i hj
      rw [ih]
      simp only [put, if_neg hj]
      cases f (held k fresh accs) <;> rfl

theorem keys_put (a : α) (accs : Partials κ α) :
    (accs.put k a).map Prod.fst =
      if k ∈ accs.map Prod.fst then accs.map Prod.fst else accs.map Prod.fst ++ [k] := by
  induction accs with
  | nil => rfl
  | cons e accs ih =>
    by_cases hj : e.1 = k
    · simp [put, hj]
    · have hk : ¬ k = e.1 := fun he => hj he.symm
      rw [put, if_neg hj, List.map_cons, ih, List.map_cons]
      by_cases hm : k ∈ accs.map Prod.fst
      · rw [if_pos hm, if_pos (List.mem_cons_of_mem _ hm)]
      · rw [if_neg hm, if_neg fun h => (List.mem_cons.mp h).elim hk hm]
        rfl

theorem mem_put (hn : (accs.map Prod.fst).Nodup) {e : κ × α} (he : e ∈ accs.put k a) :
    e = (k, a) ∨ e ∈ accs ∧ e.1 ≠ k := by
  induction accs with
  | nil => exact .inl (List.mem_singleton.mp he)
  | cons d accs ih =>
    obtain ⟨hd, hn⟩ := List.nodup_cons.mp hn
    rw [put] at he
    split at he
    · rename_i hj
      rcases List.mem_cons.mp he with rfl | he
      · exact .inl (by rw [hj])
      · refine .inr ⟨List.mem_cons_of_mem d he, fun hk => hd ?_⟩
        rw [hj, ← hk]
        exact List.mem_map_of_mem he
    · rename_i hj
      rcases List.mem_cons.mp he with rfl | he
      · exact .inr ⟨List.mem_cons_self, hj⟩
      · rcases ih hn he with h | ⟨hm, hk⟩
        · exact .inl h
        · exact .inr ⟨List.mem_cons_of_mem d hm, hk⟩

theorem held_of_mem (hk : k ∈ accs.map Prod.fst) : (k, accs.held k fresh) ∈ accs := by
  induction accs with
  | nil => simp at hk
  | cons e accs ih =>
    rw [held]
    split
    · rename_i hj
      exact hj ▸ List.mem_cons_self
    · rename_i hj
      rcases List.mem_cons.mp hk with h | hk
      · exact absurd h.symm hj
      · exact List.mem_cons_of_mem e (ih hk)

theorem held_of_not_mem (hk : k ∉ accs.map Prod.fst) : accs.held k fresh = fresh := by
  induction accs with
  | nil => rfl
  | cons e accs ih =>
    have hj : ¬ e.1 = k := fun he => hk (List.mem_cons.mpr (.inl he.symm))
    rw [held, if_neg hj]
    exact ih fun hm => hk (List.mem_cons_of_mem _ hm)

end Partials

namespace Lifting
variable {B : Type} [TypeFamily B] {κ ι α ω : ElemType B} {c : KeyedCombiner κ ι α ω}
  {sides : SideInputs B}

theorem emit_eq_ok_iff {e : (κ.Carrier × Window) × α.Carrier}
    {u : Windowed (κ.Carrier × InputOrAccum ι.Carrier α.Carrier)} :
    emit c sides e = .ok u ↔ ∃ a ts, c.compact e.1.1 (sides.resolve e.1.2) e.2 = .ok a ∧
      e.1.2.maxTimestamp = .ok ts ∧ u = ⟨(e.1.1, .accum a), ts, e.1.2⟩ := by
  simp only [emit, bind_eq_ok_iff, Except.ok.injEq]
  constructor
  · rintro ⟨a, ha, ts, hts, rfl⟩
    exact ⟨a, ts, ha, hts, rfl⟩
  · rintro ⟨a, ts, ha, hts, rfl⟩
    exact ⟨a, ha, ts, hts, rfl⟩

variable [DecidableEq κ.Carrier] {rs : List (Windowed (κ.Carrier × ι.Carrier))}
  {w : Windowed (κ.Carrier × ι.Carrier)} {accs : Partials (κ.Carrier × Window) α.Carrier}

def foldAt (c : KeyedCombiner κ ι α ω) (sides : SideInputs B)
    (rs : List (Windowed (κ.Carrier × ι.Carrier))) (s : κ.Carrier × Window) : Checked α.Carrier :=
  c.fold s.1 (sides.resolve s.2) (valuesAt s rs)

/-- The table of the folds of `rs`. -/
structure Accumulates (c : KeyedCombiner κ ι α ω) (sides : SideInputs B)
    (rs : List (Windowed (κ.Carrier × ι.Carrier)))
    (accs : Partials (κ.Carrier × Window) α.Carrier) : Prop where
  nodup : (accs.map Prod.fst).Nodup
  mem_iff : ∀ s, s ∈ accs.map Prod.fst ↔ s ∈ slotsOf rs
  fold : ∀ e ∈ accs, foldAt c sides rs e.1 = .ok e.2

theorem foldAt_snoc_of_ne {s : κ.Carrier × Window} (hs : w.slot ≠ s) :
    foldAt c sides (rs ++ [w]) s = foldAt c sides rs s := by
  rw [foldAt, valuesAt_append, valuesAt_cons, if_neg hs, valuesAt_nil, List.append_nil, foldAt]

theorem foldAt_snoc : foldAt c sides (rs ++ [w]) w.slot = (do
    let a ← foldAt c sides rs w.slot
    c.add w.value.1 (sides.resolve w.window) a w.value.2) := by
  rw [foldAt, valuesAt_append, valuesAt_cons, if_pos rfl, valuesAt_nil]
  refine List.foldlM_append.trans ?_
  congr 1
  funext a
  exact bind_pure (c.add w.value.1 (sides.resolve w.window) a w.value.2)

theorem foldAt_eq_held (h : Accumulates c sides rs accs) (s : κ.Carrier × Window) :
    foldAt c sides rs s = .ok (accs.held s (c.create s.1 (sides.resolve s.2))) := by
  by_cases hs : s ∈ accs.map Prod.fst
  · exact h.fold _ (Partials.held_of_mem hs)
  · have hvalues := valuesAt_eq_nil fun hm => hs ((h.mem_iff s).mpr hm)
    rw [Partials.held_of_not_mem hs, foldAt, hvalues]
    rfl

theorem absorb_eq (h : Accumulates c sides rs accs) :
    absorb c sides accs w = (foldAt c sides (rs ++ [w]) w.slot).map fun a => accs.put w.slot a := by
  rw [foldAt_snoc, foldAt_eq_held h]
  exact Partials.update_eq _ accs

theorem accumulates_put (h : Accumulates c sides rs accs) {a : α.Carrier}
    (ha : foldAt c sides (rs ++ [w]) w.slot = .ok a) :
    Accumulates c sides (rs ++ [w]) (accs.put w.slot a) := by
  have hslots : slotsOf (rs ++ [w]) = slotsOf rs ++ [w.slot] := by simp [slotsOf]
  refine ⟨?_, ?_, ?_⟩
  · rw [Partials.keys_put]
    split
    · exact h.nodup
    · rename_i hs
      exact List.nodup_append.mpr ⟨h.nodup, List.nodup_singleton _,
        fun s hm t ht heq => hs (List.mem_singleton.mp ht ▸ heq ▸ hm)⟩
  · intro s
    rw [Partials.keys_put, hslots, List.mem_append, ← h.mem_iff s]
    split
    · rename_i hs
      constructor
      · exact .inl
      · rintro (hm | hm)
        · exact hm
        · exact List.mem_singleton.mp hm ▸ hs
    · exact List.mem_append
  · intro e he
    rcases Partials.mem_put h.nodup he with rfl | ⟨he, hne⟩
    · exact ha
    · rw [foldAt_snoc_of_ne hne.symm]
      exact h.fold e he

theorem accumulates_foldlM (h : rs.foldlM (absorb c sides) [] = .ok accs) :
    Accumulates c sides rs accs := by
  -- from the end, where the table has taken in its last record
  induction rs using List.reverseRecOn generalizing accs with
  | nil =>
    cases h
    exact ⟨List.nodup_nil, fun s => by simp [slotsOf], fun e he => by simp at he⟩
  | append_singleton rs w ih =>
    rw [List.foldlM_append] at h
    obtain ⟨before, hbefore, h⟩ := bind_eq_ok_iff.mp h
    have hacc := ih hbefore
    rw [List.foldlM_cons, absorb_eq hacc] at h
    obtain ⟨_, hput, h⟩ := bind_eq_ok_iff.mp h
    obtain ⟨a, ha, rfl⟩ := map_eq_ok_iff.mp hput
    cases h
    exact accumulates_put hacc ha

theorem exists_foldlM_absorb (h : ∀ s ∈ slotsOf rs, ∃ a, foldAt c sides rs s = .ok a) :
    ∃ accs, rs.foldlM (absorb c sides) [] = .ok accs := by
  induction rs using List.reverseRecOn with
  | nil => exact ⟨[], rfl⟩
  | append_singleton rs w ih =>
    have hbefore : ∀ s ∈ slotsOf rs, ∃ a, foldAt c sides rs s = .ok a := by
      intro s hs
      obtain ⟨a, ha⟩ := h s (by simpa [slotsOf] using .inl (by simpa [slotsOf] using hs))
      by_cases hw : w.slot = s
      · subst hw
        rw [foldAt_snoc] at ha
        exact (bind_eq_ok_iff.mp ha).imp fun _ hb => hb.1
      · rw [foldAt_snoc_of_ne hw] at ha
        exact ⟨a, ha⟩
    obtain ⟨accs, haccs⟩ := ih hbefore
    obtain ⟨a, ha⟩ := h w.slot (by simp [slotsOf])
    refine ⟨accs.put w.slot a, ?_⟩
    rw [List.foldlM_append, haccs]
    change absorb c sides accs w >>= pure = _
    rw [absorb_eq (accumulates_foldlM haccs), ha]
    rfl

/-- The compacted fold of the values of one slot, as a partial accumulator. -/
def partialAt (c : KeyedCombiner κ ι α ω) (sides : SideInputs B)
    (rs : List (Windowed (κ.Carrier × ι.Carrier))) (s : κ.Carrier × Window) :
    Checked (InputOrAccum ι.Carrier α.Carrier) := do
  let a ← foldAt c sides rs s
  let a ← c.compact s.1 (sides.resolve s.2) a
  .ok (.accum a)

theorem partialAt_eq_ok_iff {s : κ.Carrier × Window} {x : InputOrAccum ι.Carrier α.Carrier} :
    partialAt c sides rs s = .ok x ↔ ∃ a b, foldAt c sides rs s = .ok a ∧
      c.compact s.1 (sides.resolve s.2) a = .ok b ∧ x = .accum b := by
  simp only [partialAt, bind_eq_ok_iff, Except.ok.injEq]
  constructor
  · rintro ⟨a, ha, b, hb, rfl⟩
    exact ⟨a, b, ha, hb, rfl⟩
  · rintro ⟨a, b, ha, hb, rfl⟩
    exact ⟨a, ha, b, hb, rfl⟩

theorem combineBundle_runsPerSlot (c : KeyedCombiner κ ι α ω) (sides : SideInputs B)
    (rs : List (Windowed (κ.Carrier × ι.Carrier))) :
    RunsPerSlot (slotsOf rs) (partialAt c sides rs) (combineBundle c sides rs) := by
  apply RunsPerSlot.of_bind
  · intro hall
    apply exists_foldlM_absorb
    intro s hs
    obtain ⟨⟨b, hb⟩, _⟩ := hall s hs
    exact (bind_eq_ok_iff.mp hb).imp fun _ ha => ha.1
  · intro accs haccs
    have hacc := accumulates_foldlM haccs
    have hrun : RunsPerSlot (accs.map Prod.fst) (partialAt c sides rs)
        (accs.mapM (emit c sides)) := by
      apply RunsPerSlot.of_mapM hacc.nodup
      intro e he u
      simp only [emit_eq_ok_iff, partialAt_eq_ok_iff, hacc.fold e he]
      constructor
      · rintro ⟨a, ts, ha, hts, rfl⟩
        exact ⟨.accum a, ts, ⟨e.2, a, rfl, ha, rfl⟩, hts, rfl⟩
      · rintro ⟨_, ts, ⟨_, a, he, ha, rfl⟩, hts, rfl⟩
        cases he
        exact ⟨a, ts, ha, hts, rfl⟩
    exact hrun.congr hacc.mem_iff fun s _ => .refl _

end Lifting
end KeyedFlow
