import KeyedFlow.Proofs.Coder.Crossing
import KeyedFlow.Proofs.Grouping

/-!
Grouping by key under any value coder, which may fail, lose information or leave bytes unread. The
grouping succeeds exactly when every value crosses the barrier and every window ends, and then
holds one record per key and window with the values as they crossed, in order. A window that a
window function assigns always ends.
-/

set_option autoImplicit false

namespace KeyedFlow
open Outcome
variable {B : Type} [TypeFamily B]

namespace Window

/-- The windows that elements of a flow can lie in. -/
def Assigned (w : Window) : Prop := ∃ (f : WindowFn) (ts : Timestamp), f.assign ts = .ok w

theorem exists_maxTimestamp_of_assigned {w : Window} (h : w.Assigned) :
    ∃ ts, w.maxTimestamp = .ok ts := by
  obtain ⟨f, ts, hf⟩ := h
  cases f with
  | global =>
    cases hf
    exact ⟨_, rfl⟩
  | fixed f =>
    obtain ⟨i, hi, hw⟩ := bind_eq_ok_iff.mp hf
    cases hw
    obtain ⟨k, _, hi⟩ := bind_eq_ok_iff.mp hi
    obtain ⟨base, _, hi⟩ := bind_eq_ok_iff.mp hi
    obtain ⟨start, _, hi⟩ := bind_eq_ok_iff.mp hi
    obtain ⟨stop, hstop, hi⟩ := bind_eq_ok_iff.mp hi
    cases hi
    obtain ⟨⟨_, hhigh⟩, hstop⟩ := Word.add_eq_ok_iff.mp hstop
    have hlow : -9223372036854775808 ≤ Word.toInt start := Word.least_le start
    have hhigh : Word.toInt start + Word.toInt f.size ≤ 9223372036854775807 := hhigh
    have hpos : 0 < Word.toInt f.size := f.size_pos
    refine ⟨_, Word.exact_of_inRange ⟨?_, ?_⟩⟩ <;> rw [hstop]
    · change -9223372036854775808 ≤ Word.toInt start + Word.toInt f.size - 1
      omega
    · change Word.toInt start + Word.toInt f.size - 1 ≤ 9223372036854775807
      omega

end Window

namespace Grouping
variable {κ ν : ElemType B} [DecidableEq κ.Carrier] [KeyBytes κ.Carrier]

/-- The grouping of typed bundles whose values cross by `coder`, if there is one. -/
def groupPairs (coder : Option (Coder ν)) (fewKeys : Bool) (n : Nat)
    (bundles : List (List (Windowed (κ.Carrier × ν.Carrier)))) :
    Except RunError (List (List (Windowed (κ.Carrier × List ν.Carrier)))) :=
  match coder with
  | some c => groupBundles (Shipping.encoded c) fewKeys n bundles
  | none => groupBundles (Shipping.direct ν.Carrier) fewKeys n bundles

/-- What a value is on the other side of a barrier that it crosses by `coder`, if there is one. -/
def crossingBy (coder : Option (Coder ν)) : ν.Carrier → Except RunError ν.Carrier :=
  match coder with
  | some c => crossing (Shipping.encoded c)
  | none => crossing (Shipping.direct ν.Carrier)

theorem crossingBy_eq_ok_iff {coder : Option (Coder ν)} {v w : ν.Carrier} :
    crossingBy coder v = .ok w ↔ Coder.Crosses coder v w := by
  cases coder with
  | none =>
    constructor
    · intro h
      cases h
      rfl
    · rintro rfl
      rfl
  | some c =>
    rw [Coder.crosses_some_iff]
    simp only [crossingBy, crossing, Shipping.encoded, bind_eq_ok_iff, mapError_eq_ok_iff]

theorem mapM_crossingBy {coder : Option (Coder ν)} {vs : List ν.Carrier}
    (h : ∀ v ∈ vs, Coder.Crosses coder v v) : vs.mapM (crossingBy coder) = .ok vs := by
  have hall : vs.mapM (crossingBy coder) = .ok (vs.map id) :=
    mapM_eq_ok_map fun v hv => crossingBy_eq_ok_iff.mpr (h v hv)
  rwa [List.map_id] at hall

theorem groupPairs_runsPerSlot (coder : Option (Coder ν)) (fewKeys : Bool) (n : Nat)
    (bundles : List (List (Windowed (κ.Carrier × ν.Carrier)))) :
    RunsPerSlot (slotsOf bundles.flatten)
      (fun s => (valuesAt s bundles.flatten).mapM (crossingBy coder))
      ((groupPairs coder fewKeys n bundles).map List.flatten) := by
  cases coder with
  | none => exact groupBundles_runsPerSlot _ fewKeys n bundles
  | some c => exact groupBundles_runsPerSlot _ fewKeys n bundles

theorem groupPairs_placement {coder : Option (Coder ν)} {fewKeys : Bool} {n : Nat}
    {bundles : List (List (Windowed (κ.Carrier × ν.Carrier)))}
    {out : List (List (Windowed (κ.Carrier × List ν.Carrier)))}
    (h : groupPairs coder fewKeys n bundles = .ok out) :
    out.length = (if fewKeys then 1 else max n 1) ∧ KeysTogether out := by
  cases coder with
  | none => exact groupBundles_placement h
  | some c => exact groupBundles_placement h

theorem groupTyped_map_of {χ : Type} (s : Shipping ν.Carrier χ) (fewKeys : Bool) (n : Nat)
    (bundles : List (List (Windowed (κ.Carrier × ν.Carrier)))) :
    Collection.groupTyped κ ν s fewKeys n (bundles.map (Bundle.of (.pair κ ν))) =
      (groupBundles s fewKeys n bundles).map (List.map (Bundle.of (.pair κ (.list ν)))) := by
  simp only [Collection.groupTyped, groupBundles, List.mapM_map, Function.comp_def, Bundle.as?_of]
  cases bundles.mapM (localGroups s) with
  | error e => rfl
  | ok locals =>
    change (joinGroups s fewKeys n locals >>= fun g => _) = (joinGroups s fewKeys n locals).map _
    cases joinGroups s fewKeys n locals with
    | error e => rfl
    | ok grouped => rfl

theorem groupingOp_map_of (coder : Option (Coder ν)) (fewKeys : Bool) (n : Nat)
    (bundles : List (List (Windowed (κ.Carrier × ν.Carrier)))) :
    Collection.groupingOp κ ν coder fewKeys n (bundles.map (Bundle.of (.pair κ ν))) =
      (groupPairs coder fewKeys n bundles).map (List.map (Bundle.of (.pair κ (.list ν)))) := by
  cases coder with
  | none => exact groupTyped_map_of _ fewKeys n bundles
  | some c => exact groupTyped_map_of _ fewKeys n bundles

/-- The output of a grouping: one record per slot of the input, its values those of the slot as they
crossed the barrier, in a bundle with all other records of its key. -/
structure Grouped (coder : Option (Coder ν)) (fewKeys : Bool) (n : Nat)
    (bundles : List (List (Windowed (κ.Carrier × ν.Carrier))))
    (out : List (List (Windowed (κ.Carrier × List ν.Carrier)))) : Prop where
  onePerSlot : OnePerSlot (slotsOf bundles.flatten)
    (fun s vs => List.Forall₂ (Coder.Crosses coder) (valuesAt s bundles.flatten) vs) out.flatten
  length : out.length = if fewKeys then 1 else max n 1
  together : KeysTogether out

theorem grouped_of_groupPairs {coder : Option (Coder ν)} {fewKeys : Bool} {n : Nat}
    {bundles : List (List (Windowed (κ.Carrier × ν.Carrier)))}
    {out : List (List (Windowed (κ.Carrier × List ν.Carrier)))}
    (h : groupPairs coder fewKeys n bundles = .ok out) : Grouped coder fewKeys n bundles out := by
  obtain ⟨hlen, htog⟩ := groupPairs_placement h
  have hrun := (groupPairs_runsPerSlot coder fewKeys n bundles).onePerSlot out.flatten
    (by rw [h]; rfl)
  refine ⟨hrun.imp (fun _ => Iff.rfl) ?_, hlen, htog⟩
  intro s _ vs hvs
  exact (mapM_eq_ok_iff.mp hvs).imp fun _ _ => crossingBy_eq_ok_iff.mp

theorem exists_groupPairs_eq_ok_iff (coder : Option (Coder ν)) (fewKeys : Bool) (n : Nat)
    (bundles : List (List (Windowed (κ.Carrier × ν.Carrier)))) :
    (∃ out, groupPairs coder fewKeys n bundles = .ok out) ↔
      (∀ w ∈ bundles.flatten, ∃ v, Coder.Crosses coder w.value.2 v) ∧
      ∀ w ∈ bundles.flatten, ∃ ts, w.window.maxTimestamp = .ok ts := by
  rw [← exists_map_eq_ok_iff, (groupPairs_runsPerSlot coder fewKeys n bundles).ok_iff]
  simp only [exists_mapM_eq_ok_iff, crossingBy_eq_ok_iff]
  constructor
  · intro h
    constructor
    · intro w hw
      exact (h w.slot (List.mem_map_of_mem hw)).1 _ (mem_valuesAt.mpr ⟨w, hw, rfl, rfl⟩)
    · intro w hw
      exact (h w.slot (List.mem_map_of_mem hw)).2
  · rintro ⟨hcross, hend⟩ s hs
    constructor
    · intro v hv
      obtain ⟨w, hw, _, rfl⟩ := mem_valuesAt.mp hv
      exact hcross w hw
    · obtain ⟨w, hw, rfl⟩ := List.mem_map.mp hs
      exact hend w hw

/-- Grouping by key and window, whatever the coder of the values does. -/
theorem groupingOp_groups_by_slot (coder : Option (Coder ν)) (fewKeys : Bool) (n : Nat)
    (bundles : List (List (Windowed (κ.Carrier × ν.Carrier)))) :
    ((∃ out, Collection.groupingOp κ ν coder fewKeys n
          (bundles.map (Bundle.of (.pair κ ν))) = .ok out) ↔
      (∀ w ∈ bundles.flatten, ∃ v, Coder.Crosses coder w.value.2 v) ∧
      ∀ w ∈ bundles.flatten, ∃ ts, w.window.maxTimestamp = .ok ts) ∧
    ((∀ w ∈ bundles.flatten, w.window.Assigned) →
      ((∃ out, Collection.groupingOp κ ν coder fewKeys n
          (bundles.map (Bundle.of (.pair κ ν))) = .ok out) ↔
        ∀ w ∈ bundles.flatten, ∃ v, Coder.Crosses coder w.value.2 v)) ∧
    ∀ out, Collection.groupingOp κ ν coder fewKeys n (bundles.map (Bundle.of (.pair κ ν))) =
        .ok out →
      ∃ groups, out = groups.map (Bundle.of (.pair κ (.list ν))) ∧
        Grouped coder fewKeys n bundles groups := by
  have hok : (∃ out, Collection.groupingOp κ ν coder fewKeys n
      (bundles.map (Bundle.of (.pair κ ν))) = .ok out) ↔
      (∀ w ∈ bundles.flatten, ∃ v, Coder.Crosses coder w.value.2 v) ∧
      ∀ w ∈ bundles.flatten, ∃ ts, w.window.maxTimestamp = .ok ts := by
    rw [groupingOp_map_of, exists_map_eq_ok_iff]
    exact exists_groupPairs_eq_ok_iff coder fewKeys n bundles
  refine ⟨hok, ?_, ?_⟩
  · intro hw
    rw [hok]
    exact and_iff_left fun w hm => Window.exists_maxTimestamp_of_assigned (hw w hm)
  · intro out hout
    rw [groupingOp_map_of] at hout
    obtain ⟨groups, hgroups, rfl⟩ := map_eq_ok_iff.mp hout
    exact ⟨groups, rfl, grouped_of_groupPairs hgroups⟩

end Grouping
end KeyedFlow
