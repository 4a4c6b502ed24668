import KeyedFlow.Collection.Grouping
import KeyedFlow.Proofs.Groups
import KeyedFlow.Proofs.Slots

/-!
The barrier of a grouping, for any way in which values cross it. The groups of one bundle hold its
shipped values slot by slot; joining keeps the order of the bundles; and every group is received
and emitted at the end of its window. A grouping therefore runs once per slot, on the values of the
slot in the order of the concatenated bundles, and spreading its records moves whole keys.
-/

set_option autoImplicit false

namespace KeyedFlow.Grouping
open Outcome
variable {κ ν χ : Type}

/-- What a value is on the other side of the barrier. -/
def crossing (s : Shipping ν χ) (v : ν) : Except RunError ν := do
  let x ← s.ship v
  s.receive x

theorem exists_ship_of_crossing {s : Shipping ν χ} {v w : ν} (h : crossing s v = .ok w) :
    ∃ x, s.ship v = .ok x :=
  (bind_eq_ok_iff.mp h).imp fun _ hx => hx.1

theorem mapM_receive_eq {s : Shipping ν χ} {vs : List ν} {xs : List χ}
    (h : List.Forall₂ (fun v x => s.ship v = .ok x) vs xs) :
    xs.mapM s.receive = vs.mapM (crossing s) := by
  induction h with
  | nil => rfl
  | cons hx _ ih =>
    rw [List.mapM_cons, List.mapM_cons, ih, crossing, hx]
    rfl

theorem record_eq_ok_iff {s : Shipping ν χ} {g : (κ × Window) × List χ}
    {w : Windowed (κ × List ν)} :
    record s g = .ok w ↔ ∃ vs ts, g.2.mapM s.receive = .ok vs ∧
      g.1.2.maxTimestamp = .ok ts ∧ w = ⟨(g.1.1, vs), ts, g.1.2⟩ := by
  simp only [record, bind_eq_ok_iff, inRun_eq_ok_iff, Except.ok.injEq]
  constructor
  · rintro ⟨vs, hvs, ts, hts, rfl⟩
    exact ⟨vs, ts, hvs, hts, rfl⟩
  · rintro ⟨vs, ts, hvs, hts, rfl⟩
    exact ⟨vs, hvs, ts, hts, rfl⟩

section Gathering
variable [DecidableEq κ]

/-- The table that groups `rs` by slot, each value in a form that `R` relates to it. -/
structure Gathers (R : ν → χ → Prop) (rs : List (Windowed (κ × ν)))
    (g : Groups (κ × Window) χ) : Prop where
  nodup : g.keys.Nodup
  mem_iff : ∀ s, s ∈ g.keys ↔ s ∈ slotsOf rs
  values : ∀ s, List.Forall₂ R (valuesAt s rs) (g.values s)

theorem gathers_ofList {R : ν → χ → Prop} {rs : List (Windowed (κ × ν))}
    {xs : List ((κ × Window) × χ)}
    (h : List.Forall₂ (fun w x => x.1 = w.slot ∧ R w.value.2 x.2) rs xs) :
    Gathers R rs (Groups.ofList xs) := by
  refine ⟨?_, ?_, ?_⟩
  · exact Groups.nodup_keys_ofList xs
  · intro s
    rw [Groups.mem_keys_ofList]
    have hslots : xs.map Prod.fst = slotsOf rs := by
      induction h with
      | nil => rfl
      | cons hw _ ih => simp [slotsOf, hw.1] at ih ⊢; exact ih
    rw [hslots]
  · intro s
    rw [Groups.values_ofList]
    induction h with
    | nil => exact .nil
    | @cons w x _ _ hw _ ih =>
      rw [valuesAt_cons]
      by_cases hs : w.slot = s
      · have hx : x.1 = s := hw.1.trans hs
        rw [if_pos hs, List.filter_cons, if_pos (decide_eq_true hx), List.map_cons]
        exact .cons hw.2 ih
      · have hx : ¬ x.1 = s := fun he => hs (hw.1.symm.trans he)
        rw [if_neg hs, List.filter_cons, if_neg (by simpa using hx)]
        exact ih

theorem gathers_join {R : ν → χ → Prop} {bundles : List (List (Windowed (κ × ν)))}
    {gs : List (Groups (κ × Window) χ)} (h : List.Forall₂ (Gathers R) bundles gs) :
    Gathers R bundles.flatten (Groups.join gs) := by
  refine ⟨Groups.nodup_keys_join gs, ?_, ?_⟩
  · intro s
    rw [Groups.mem_keys_join]
    induction h with
    | nil => simp [slotsOf]
    | cons hg _ ih =>
      simp only [List.exists_mem_cons_iff, hg.mem_iff, ih]
      simp [slotsOf]
  · intro s
    rw [Groups.values_join, valuesAt_flatten]
    induction h with
    | nil => exact .nil
    | cons hg _ ih => exact List.rel_append (hg.values s) ih

theorem localGroups_eq_ok {s : Shipping ν χ} {bundle : List (Windowed (κ × ν))}
    {g : Groups (κ × Window) χ} (h : localGroups s bundle = .ok g) :
    Gathers (fun v x => s.ship v = .ok x) bundle g := by
  obtain ⟨xs, hxs, hg⟩ := bind_eq_ok_iff.mp h
  cases hg
  apply gathers_ofList
  apply (mapM_eq_ok_iff.mp hxs).imp
  intro w x hx
  obtain ⟨y, hy, he⟩ := bind_eq_ok_iff.mp hx
  cases he
  exact ⟨rfl, hy⟩

theorem exists_localGroups_eq_ok {s : Shipping ν χ} {bundle : List (Windowed (κ × ν))}
    (h : ∀ w ∈ bundle, ∃ x, s.ship w.value.2 = .ok x) : ∃ g, localGroups s bundle = .ok g := by
  have hall : ∀ w ∈ bundle, ∃ y,
      (do let x ← s.ship w.value.2; Except.ok ((w.value.1, w.window), x) :
        Except RunError ((κ × Window) × χ)) = .ok y := by
    intro w hw
    obtain ⟨x, hx⟩ := h w hw
    exact ⟨_, bind_eq_ok_iff.mpr ⟨x, hx, rfl⟩⟩
  obtain ⟨xs, hxs⟩ := exists_mapM_eq_ok_iff.mpr hall
  exact ⟨_, bind_eq_ok_iff.mpr ⟨xs, hxs, rfl⟩⟩

theorem exists_localGroups_of_crossing {s : Shipping ν χ}
    {bundles : List (List (Windowed (κ × ν)))} (hall : ∀ sl ∈ slotsOf bundles.flatten,
      ∃ vs, (valuesAt sl bundles.flatten).mapM (crossing s) = .ok vs)
    {b : List (Windowed (κ × ν))} (hb : b ∈ bundles) : ∃ g, localGroups s b = .ok g := by
  apply exists_localGroups_eq_ok
  intro w hw
  have hmem : w ∈ bundles.flatten := List.mem_flatten.mpr ⟨b, hb, hw⟩
  have hv : w.value.2 ∈ valuesAt w.slot bundles.flatten := mem_valuesAt.mpr ⟨w, hmem, rfl, rfl⟩
  have hslot := hall w.slot (List.mem_map_of_mem hmem)
  obtain ⟨v, hcross⟩ := exists_mapM_eq_ok_iff.mp hslot _ hv
  exact exists_ship_of_crossing hcross

theorem mapM_record_runsPerSlot {s : Shipping ν χ} {rs : List (Windowed (κ × ν))}
    {g : Groups (κ × Window) χ} (hg : Gathers (fun v x => s.ship v = .ok x) rs g) :
    RunsPerSlot (slotsOf rs) (fun sl => (valuesAt sl rs).mapM (crossing s))
      (g.mapM (record s)) := by
  have hrun : RunsPerSlot (g.map Prod.fst) (fun sl => (valuesAt sl rs).mapM (crossing s))
      (g.mapM (record s)) := by
    apply RunsPerSlot.of_mapM hg.nodup
    intro e he w
    rw [record_eq_ok_iff, ← Groups.values_of_mem hg.nodup he, mapM_receive_eq (hg.values e.1)]
  exact hrun.congr hg.mem_iff fun sl _ => .refl _

end Gathering

def KeysTogether {β : Type} (out : List (List (Windowed (κ × β)))) : Prop :=
  ∀ (i j : Nat) (b b' : List (Windowed (κ × β))), out[i]? = some b → out[j]? = some b' →
    ∀ w ∈ b, ∀ w' ∈ b', w.value.1 = w'.value.1 → i = j

section Placement
variable [KeyBytes κ] {β : Type} {n : Nat} {rs : List (Windowed (κ × β))}

theorem length_spread (rs : List (Windowed (κ × β))) : (spread n rs).length = n := by
  unfold spread
  split
  · simp_all
  · simp

theorem spread_eq (hn : n ≠ 1) (rs : List (Windowed (κ × β))) :
    spread n rs = (List.range n).map fun i => rs.filter fun w => bucketOf w.value.1 n = i := by
  rw [spread, if_neg hn]
  apply List.map_congr_left
  intro i _
  rw [List.filter_map, List.map_map]
  simp [Function.comp_def, beq_eq_decide]

theorem flatten_spread_perm (hn : 0 < n) (rs : List (Windowed (κ × β))) :
    (spread n rs).flatten.Perm rs := by
  by_cases h1 : n = 1
  · simp [spread, h1]
  · rw [spread_eq h1, ← List.flatMap_def]
    have hp := flatMap_filter_perm (fun w : Windowed (κ × β) => bucketOf w.value.1 n)
      (List.nodup_range (n := n)) rs
    have hall : rs.filter (fun w => bucketOf w.value.1 n ∈ List.range n) = rs := by
      apply List.filter_eq_self.mpr
      intro w _
      simpa using bucketOf_lt w.value.1 hn
    rwa [hall] at hp

theorem keysTogether_spread (rs : List (Windowed (κ × β))) : KeysTogether (spread n rs) := by
  intro i j b b' hi hj w hw w' hw' hk
  by_cases h1 : n = 1
  · have hlen := length_spread (n := n) rs
    have hi' := (List.getElem?_eq_some_iff.mp hi).1
    have hj' := (List.getElem?_eq_some_iff.mp hj).1
    omega
  · have hplace {i : Nat} {b : List (Windowed (κ × β))} (hi : (spread n rs)[i]? = some b)
        {w : Windowed (κ × β)} (hw : w ∈ b) : bucketOf w.value.1 n = i := by
      rw [spread_eq h1, List.getElem?_map] at hi
      obtain ⟨m, hm, rfl⟩ := Option.map_eq_some_iff.mp hi
      obtain ⟨_, hmi⟩ := List.getElem?_eq_some_iff.mp hm
      rw [List.getElem_range] at hmi
      subst m
      exact of_decide_eq_true (List.mem_filter.mp hw).2
    rw [← hplace hi hw, ← hplace hj hw', hk]

end Placement

section Bundles
variable [DecidableEq κ] [KeyBytes κ] {s : Shipping ν χ} {fewKeys : Bool} {n : Nat}
  {bundles : List (List (Windowed (κ × ν)))}

theorem groupBundles_eq_ok_iff {out : List (List (Windowed (κ × List ν)))} :
    groupBundles s fewKeys n bundles = .ok out ↔
      ∃ locals records, bundles.mapM (localGroups s) = .ok locals ∧
        (Groups.join locals).mapM (record s) = .ok records ∧
        spread (if fewKeys then 1 else max n 1) records = out := by
  simp only [groupBundles, joinGroups, bind_eq_ok_iff, Except.ok.injEq]
  constructor
  · rintro ⟨locals, hl, records, hr, he⟩
    exact ⟨locals, records, hl, hr, he⟩
  · rintro ⟨locals, records, hl, hr, he⟩
    exact ⟨locals, hl, records, hr, he⟩

theorem joinGroups_runsPerSlot {locals : List (Groups (κ × Window) χ)}
    (hl : bundles.mapM (localGroups s) = .ok locals) :
    RunsPerSlot (slotsOf bundles.flatten)
      (fun sl => (valuesAt sl bundles.flatten).mapM (crossing s))
      ((joinGroups s fewKeys n locals).map List.flatten) := by
  have hg : Gathers (fun v x => s.ship v = .ok x) bundles.flatten (Groups.join locals) :=
    gathers_join ((mapM_eq_ok_iff.mp hl).imp fun _ _ h => localGroups_eq_ok h)
  apply (mapM_record_runsPerSlot hg).of_corresponds
  rw [joinGroups]
  cases (Groups.join locals).mapM (record s) with
  | ok records => exact .ok (flatten_spread_perm (by split <;> omega) records).symm
  | error e => exact .error e e

/-- A grouping runs once per slot, on the values of the slot as they cross the barrier. -/
theorem groupBundles_runsPerSlot (s : Shipping ν χ) (fewKeys : Bool) (n : Nat)
    (bundles : List (List (Windowed (κ × ν)))) :
    RunsPerSlot (slotsOf bundles.flatten)
      (fun sl => (valuesAt sl bundles.flatten).mapM (crossing s))
      ((groupBundles s fewKeys n bundles).map List.flatten) := by
  rw [groupBundles, map_bind]
  apply RunsPerSlot.of_bind
  · intro hall
    apply exists_mapM_eq_ok_iff.mpr
    intro b hb
    exact exists_localGroups_of_crossing (fun sl hsl => (hall sl hsl).1) hb
  · intro locals hl
    exact joinGroups_runsPerSlot hl

theorem groupBundles_placement {out : List (List (Windowed (κ × List ν)))}
    (h : groupBundles s fewKeys n bundles = .ok out) :
    out.length = (if fewKeys then 1 else max n 1) ∧ KeysTogether out := by
  obtain ⟨_, records, _, _, rfl⟩ := groupBundles_eq_ok_iff.mp h
  exact ⟨length_spread records, keysTogether_spread records⟩

end Bundles
end KeyedFlow.Grouping
