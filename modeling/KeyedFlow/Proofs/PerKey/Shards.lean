import KeyedFlow.Proofs.Slots
import KeyedFlow.Transform.FanOut

/-!
The split of hot keys. Wherever the counters start, the cold part of the bundles is the records of
cold keys and the hot part, its shards forgotten, is those of hot keys, both in order. Combining by
shard and forgetting the shards again sends each slot of a hot key one record for each shard it has,
and the values of these shards are, up to their order, the values of the slot.
-/

set_option autoImplicit false

namespace KeyedFlow.FanOut
variable {κ ι α β ν : Type}

def unsharded (w : Windowed ((κ × UInt32) × β)) : Windowed (κ × β) :=
  w.withValue (w.value.1.1, w.value.2)

def hotPart (xs : List (Windowed (Routed κ ι))) : List (Windowed ((κ × UInt32) × ι)) :=
  xs.flatMap fun w => (hotRecord w.value).map w.withValue

def coldPart (α : Type) (xs : List (Windowed (Routed κ ι))) :
    List (Windowed (κ × InputOrAccum ι α)) :=
  xs.flatMap fun w => (coldRecord α w.value).map w.withValue

/-- Keys that are not spread over shards. -/
def cold (spread : Spread κ) (k : κ) : Bool := spread k ≤ 1

theorem coldPart_split (α : Type) (spread : Spread κ) (counter : UInt64)
    (xs : List (Windowed (κ × ι))) :
    coldPart α (split spread counter xs) = (xs.filter fun w => cold spread w.value.1).map
      fun w => w.withValue (w.value.1, .input w.value.2) := by
  induction xs generalizing counter with
  | nil => rfl
  | cons w xs ih =>
    by_cases hw : spread w.value.1 ≤ 1
    · have hcold : cold spread w.value.1 = true := decide_eq_true hw
      rw [List.filter_cons, if_pos hcold, List.map_cons, ← ih counter]
      simp only [split, if_pos hw]
      rfl
    · rw [List.filter_cons, if_neg (by simpa [cold] using hw), ← ih (counter + 1)]
      simp only [split, if_neg hw]
      rfl

theorem hotPart_split (spread : Spread κ) (counter : UInt64) (xs : List (Windowed (κ × ι))) :
    (hotPart (split spread counter xs)).map unsharded =
      xs.filter fun w => !cold spread w.value.1 := by
  induction xs generalizing counter with
  | nil => rfl
  | cons w xs ih =>
    by_cases hw : spread w.value.1 ≤ 1
    · rw [List.filter_cons, if_neg (by simpa [cold] using hw), ← ih counter]
      simp only [split, if_pos hw]
      rfl
    · rw [List.filter_cons, if_pos (by simpa [cold] using hw), ← ih (counter + 1)]
      simp only [split, if_neg hw]
      rfl

/-- All bundles split, each counter standing where the bundle's seed puts it. -/
def splitBundles (spread : Spread κ) (seed : ShardSeed) (bundles : List (List (Windowed (κ × ι)))) :
    List (List (Windowed (Routed κ ι))) :=
  bundles.zipIdx.map fun e => split spread (seed e.2) e.1

section Bundles
variable (spread : Spread κ) (seed : ShardSeed) (bundles : List (List (Windowed (κ × ι))))

theorem map_splitBundles {γ : Type} (f : List (Windowed (Routed κ ι)) → γ)
    (g : List (Windowed (κ × ι)) → γ) (h : ∀ counter xs, f (split spread counter xs) = g xs) :
    (splitBundles spread seed bundles).map f = bundles.map g := by
  have hfst : bundles.zipIdx.map Prod.fst = bundles := List.zipIdx_map_fst 0 bundles
  conv_rhs => rw [← hfst]
  rw [splitBundles, List.map_map, List.map_map]
  exact List.map_congr_left fun e _ => h (seed e.2) e.1

theorem flatten_coldPart (α : Type) :
    ((splitBundles spread seed bundles).map (coldPart α)).flatten =
      (bundles.flatten.filter fun w => cold spread w.value.1).map
        fun w => w.withValue (w.value.1, .input w.value.2) := by
  rw [map_splitBundles spread seed bundles (coldPart α) _ fun counter xs =>
    coldPart_split α spread counter xs, List.filter_flatten, List.map_flatten, List.map_map]
  rfl

theorem map_unsharded_flatten_hotPart :
    ((splitBundles spread seed bundles).map hotPart).flatten.map unsharded =
      bundles.flatten.filter fun w => !cold spread w.value.1 := by
  rw [List.map_flatten, List.map_map, map_splitBundles spread seed bundles _ _ fun counter xs =>
    hotPart_split spread counter xs, List.filter_flatten]

end Bundles

def unshard (t : (κ × UInt32) × Window) : κ × Window := (t.1.1, t.2)

theorem slotsOf_map_unsharded (rs : List (Windowed ((κ × UInt32) × β))) :
    slotsOf (rs.map unsharded) = (slotsOf rs).map unshard := by
  rw [slotsOf, slotsOf, List.map_map, List.map_map]
  rfl

variable [DecidableEq κ]

theorem valuesAt_map_unsharded (s : κ × Window) (rs : List (Windowed ((κ × UInt32) × β))) :
    valuesAt s (rs.map unsharded) =
      (rs.filter fun w => unshard w.slot = s).map fun w => w.value.2 := by
  rw [valuesAt, List.filter_map, List.map_map]
  rfl

theorem valuesAt_sublist (t : (κ × UInt32) × Window) (rs : List (Windowed ((κ × UInt32) × β))) :
    (valuesAt t rs).Sublist (valuesAt (unshard t) (rs.map unsharded)) := by
  rw [valuesAt_map_unsharded]
  apply List.Sublist.map
  have hsub : (rs.filter fun w => w.slot = t) =
      (rs.filter fun w => unshard w.slot = unshard t).filter fun w => w.slot = t := by
    rw [List.filter_filter]
    apply List.filter_congr
    intro w _
    by_cases hw : w.slot = t <;> simp [hw]
  rw [hsub]
  exact List.filter_sublist

theorem valuesAt_shards_perm {rs : List (Windowed ((κ × UInt32) × ν))}
    {shards : List ((κ × UInt32) × Window)} (hn : shards.Nodup)
    (hmem : ∀ t, t ∈ shards ↔ t ∈ slotsOf rs) (s : κ × Window) :
    ((shards.filter fun t => unshard t = s).map fun t => valuesAt t rs).flatten.Perm
      (valuesAt s (rs.map unsharded)) := by
  have hp := flatMap_filter_perm (Windowed.slot (β := ν)) (hn.filter fun t => unshard t = s) rs
  have hmem' : ∀ w ∈ rs, w.slot ∈ shards.filter (fun t => unshard t = s) ↔ unshard w.slot = s := by
    intro w hw
    rw [List.mem_filter, decide_eq_true_eq, and_iff_right_iff_imp]
    exact fun _ => (hmem _).mpr (List.mem_map_of_mem hw)
  have hflat : ((shards.filter fun t => unshard t = s).map fun t => valuesAt t rs).flatten =
      ((shards.filter fun t => unshard t = s).flatMap
        fun t => rs.filter fun w => w.slot = t).map fun w => w.value.2 := by
    rw [List.map_flatMap, List.flatMap_def]
    rfl
  rw [hflat, valuesAt_map_unsharded]
  apply List.Perm.map
  refine hp.trans (.of_eq (List.filter_congr fun w hw => ?_))
  simp only [hmem' w hw]

end KeyedFlow.FanOut
