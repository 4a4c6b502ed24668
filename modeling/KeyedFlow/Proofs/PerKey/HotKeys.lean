import KeyedFlow.Proofs.PerKey.ColdKeys
import Mathlib.Data.List.Dedup

/-!
What fan-out makes of a hot key, for any combiner. The hot records of a bundle are numbered in
order, over all keys, and the number decides the shard of a record. Each shard folds its records in
the order of the source and compacts the result, and the partials are merged one by one onto a fresh
accumulator. Only the order in which the partials of a slot arrive is left open; a combiner without
any law, or one that traces what is done to it, sees nothing else.
-/

set_option autoImplicit false

namespace KeyedFlow
open Outcome
variable {B : Type} [TypeFamily B] {κ ι α ω : ElemType B} {p : Pipeline B} {mode : ExecMode}

theorem KeyedCombiner.finish_apply_partials (comb : KeyedCombiner κ ι α ω) (k : κ.Carrier)
    (ctx : CombineContext B) (partials : List α.Carrier) :
    comb.finish.apply k ctx (partials.map .accum) = (do
      let a ← partials.foldlM (fun acc b => comb.merge k ctx [acc, b]) (comb.create k ctx)
      comb.extract k ctx a) := by
  have hfold : comb.finish.fold k ctx (partials.map .accum) =
      partials.foldlM (fun acc b => comb.merge k ctx [acc, b]) (comb.create k ctx) :=
    List.foldlM_map ..
  rw [apply, hfold]
  rfl

theorem InputOrAccum.Rel.eq {ι α : Type} {x y : InputOrAccum ι α}
    (h : InputOrAccum.Rel (· = ·) x y) : x = y := by
  cases h with
  | input i => rfl
  | accum hab => rw [hab]

namespace FanOut

section Numbering
variable {κ ι : Type}

/-- The shard of hot record number `h` of a bundle whose counter starts at `seed`. -/
def nonce (spread : Spread κ) (seed : UInt64) (k : κ) (h : Nat) : UInt32 :=
  UInt32.ofNat ((seed.toNat + h) % 2 ^ 64 % spread k)

def stamp (spread : Spread κ) (seed : UInt64) (w : Windowed (κ × ι)) (h : Nat) :
    Windowed ((κ × UInt32) × ι) :=
  w.withValue ((w.value.1, nonce spread seed w.value.1 h), w.value.2)

/-- The hot records of one bundle with their shards, numbered from `h` on. -/
def numberedFrom (h : Nat) (spread : Spread κ) (seed : UInt64) (bundle : List (Windowed (κ × ι))) :
    List (Windowed ((κ × UInt32) × ι)) :=
  ((bundle.filter fun w => 2 ≤ spread w.value.1).zipIdx h).map fun e => stamp spread seed e.1 e.2

/-- The hot records of all bundles with their shards, numbered in each bundle from zero on. -/
def numbered (spread : Spread κ) (seed : ShardSeed) (bundles : List (List (Windowed (κ × ι)))) :
    List (Windowed ((κ × UInt32) × ι)) :=
  (bundles.zipIdx.map fun e => numberedFrom 0 spread (seed e.2) e.1).flatten

theorem nonce_lt {spread : Spread κ} {k : κ} (hk : 2 ≤ spread k) (seed : UInt64) (h : Nat) :
    (nonce spread seed k h).toNat < spread k := by
  rw [nonce, UInt32.toNat_ofNat']
  exact Nat.lt_of_le_of_lt (Nat.mod_le _ _) (Nat.mod_lt _ (by omega))

theorem nonce_eq (spread : Spread κ) (seed : UInt64) (k : κ) (h : Nat) :
    UInt32.ofNat ((seed + UInt64.ofNat h).toNat % spread k) = nonce spread seed k h := by
  rw [nonce, UInt64.toNat_add, UInt64.toNat_ofNat', Nat.add_mod_mod]

theorem not_cold (spread : Spread κ) (k : κ) : (!cold spread k) = decide (2 ≤ spread k) := by
  simp only [cold, ← decide_not, Nat.not_le]
  rfl

theorem hotPart_split_eq (spread : Spread κ) (seed : UInt64) (h : Nat)
    (xs : List (Windowed (κ × ι))) :
    hotPart (split spread (seed + UInt64.ofNat h) xs) = numberedFrom h spread seed xs := by
  -- over any number of hot records before, since the counter goes on with each of them
  induction xs generalizing h with
  | nil => rfl
  | cons w xs ih =>
    by_cases hw : spread w.value.1 ≤ 1
    · have hcold : ¬ 2 ≤ spread w.value.1 := by omega
      rw [numberedFrom, List.filter_cons, if_neg (by simpa using hcold)]
      rw [← numberedFrom, ← ih h]
      simp only [split, if_pos hw]
      rfl
    · have hhot : 2 ≤ spread w.value.1 := by omega
      have hnext : seed + UInt64.ofNat h + 1 = seed + UInt64.ofNat (h + 1) := by
        rw [UInt64.ofNat_add, UInt64.add_assoc]
        rfl
      rw [numberedFrom, List.filter_cons, if_pos (by simpa using hhot), List.zipIdx_cons,
        List.map_cons, ← numberedFrom, ← ih (h + 1), ← hnext]
      simp only [split, if_neg hw, nonce_eq]
      rfl

end Numbering
section Shards
variable {κ ν : Type}

theorem eq_of_unshard {s : κ × Window} {t : (κ × UInt32) × Window} (h : unshard t = s) :
    ((s.1, t.1.2), s.2) = t :=
  h ▸ rfl

variable [DecidableEq κ]

/-- The shards in `order` are those of slot `s` that hold records of `rs`, each listed once, and
their values are together the values of the slot. -/
structure ShardsOf (rs : List (Windowed ((κ × UInt32) × ν))) (s : κ × Window)
    (order : List UInt32) : Prop where
  nodup : order.Nodup
  mem_iff : ∀ m, m ∈ order ↔ ((s.1, m), s.2) ∈ slotsOf rs
  values_perm : (order.map fun m => valuesAt ((s.1, m), s.2) rs).flatten.Perm
    (valuesAt s (rs.map unsharded))

def shardsAt (s : κ × Window) (shards : List ((κ × UInt32) × Window)) : List UInt32 :=
  (shards.filter fun t => unshard t = s).map fun t => t.1.2

theorem shardsOf_shardsAt {rs : List (Windowed ((κ × UInt32) × ν))}
    {shards : List ((κ × UInt32) × Window)} (hn : shards.Nodup)
    (hmem : ∀ t, t ∈ shards ↔ t ∈ slotsOf rs) (s : κ × Window) :
    ShardsOf rs s (shardsAt s shards) where
  nodup := by
    apply (hn.filter _).map_on
    intro t ht t' ht' heq
    have hs := eq_of_unshard (of_decide_eq_true (List.mem_filter.mp ht).2)
    have hs' := eq_of_unshard (of_decide_eq_true (List.mem_filter.mp ht').2)
    rw [← hs, ← hs', heq]
  mem_iff m := by
    rw [← hmem, shardsAt, List.mem_map]
    constructor
    · rintro ⟨t, ht, rfl⟩
      obtain ⟨ht, hs⟩ := List.mem_filter.mp ht
      rwa [eq_of_unshard (of_decide_eq_true hs)]
    · intro hm
      exact ⟨_, List.mem_filter.mpr ⟨hm, decide_eq_true rfl⟩, rfl⟩
  values_perm := by
    have hvalues : (shardsAt s shards).map (fun m => valuesAt ((s.1, m), s.2) rs) =
        (shards.filter fun t => unshard t = s).map fun t => valuesAt t rs := by
      rw [shardsAt, List.map_map]
      apply List.map_congr_left
      intro t ht
      rw [Function.comp_apply, eq_of_unshard (of_decide_eq_true (List.mem_filter.mp ht).2)]
    rw [hvalues]
    exact valuesAt_shards_perm hn hmem s

end Shards

section Merging
variable [DecidableEq κ.Carrier]

/-- The partial of shard `m` of slot `s`: its values folded in order, and compacted. -/
def partialOf (comb : KeyedCombiner κ ι α ω) (sides : SideInputs B)
    (rs : List (Windowed ((κ.Carrier × UInt32) × ι.Carrier))) (s : κ.Carrier × Window)
    (m : UInt32) : Checked α.Carrier := do
  let a ← comb.fold s.1 (sides.resolve s.2) (valuesAt ((s.1, m), s.2) rs)
  comb.compact s.1 (sides.resolve s.2) a

/-- The output of slot `s`: the partials of its shards merged one by one onto a fresh accumulator. -/
def mergeShards (comb : KeyedCombiner κ ι α ω) (sides : SideInputs B)
    (rs : List (Windowed ((κ.Carrier × UInt32) × ι.Carrier))) (s : κ.Carrier × Window)
    (order : List UInt32) : Checked ω.Carrier := do
  let partials ← order.mapM (partialOf comb sides rs s)
  let a ← partials.foldlM (fun acc b => comb.merge s.1 (sides.resolve s.2) [acc, b])
    (comb.create s.1 (sides.resolve s.2))
  comb.extract s.1 (sides.resolve s.2) a

end Merging

variable {comb : KeyedCombiner κ ι α ω} {sides : SideInputs B} {spread : Spread κ.Carrier}
  {seed : ShardSeed} {bundles : List (List (Windowed (κ.Carrier × ι.Carrier)))}
  {combined : List (List (Windowed ((κ.Carrier × UInt32) × α.Carrier)))}

theorem hotRecords_eq : hotRecords spread seed bundles = numbered spread seed bundles := by
  rw [hotRecords, splitBundles, numbered, List.map_map]
  congr 1
  apply List.map_congr_left
  intro e _
  have hsplit := hotPart_split_eq spread (seed e.2) 0 e.1
  have hzero : seed e.2 + UInt64.ofNat 0 = seed e.2 := UInt64.add_zero (seed e.2)
  rwa [hzero] at hsplit

-- the counter wraps around after the first hot record
example : (numbered PerKey.spreadA (fun _ => 18446744073709551615) [PerKey.words]).map
    (fun w => w.value) = [(("a", 1), 1), (("a", 0), 3)] := rfl

theorem numbered_lt {w : Windowed ((κ.Carrier × UInt32) × ι.Carrier)}
    (hw : w ∈ numbered spread seed bundles) : w.value.1.2.toNat < spread w.value.1.1 := by
  obtain ⟨b, hb, hw⟩ := List.mem_flatten.mp hw
  obtain ⟨e, _, rfl⟩ := List.mem_map.mp hb
  obtain ⟨u, hu, rfl⟩ := List.mem_map.mp hw
  have hhot := (List.mem_filter.mp (List.fst_mem_of_mem_zipIdx hu)).2
  exact nonce_lt (of_decide_eq_true hhot) _ _

theorem numbered_unsharded : (numbered spread seed bundles).map unsharded =
    bundles.flatten.filter fun w => 2 ≤ spread w.value.1 := by
  rw [← hotRecords_eq, hotRecords, map_unsharded_flatten_hotPart]
  simp only [not_cold]

variable [DecidableEq κ.Carrier]

/-- The slots of hot keys end with the partials of their shards, merged in the order of arrival. -/
theorem reference_finish_of_hot (h : ShardsGive comb sides spread seed bundles combined)
    {s : κ.Carrier × Window} (hs : cold spread s.1 = false) :
    PerKey.reference comb.finish sides (sent (ι := ι) spread seed bundles combined).flatten s =
      mergeShards comb sides (hotRecords spread seed bundles) s
        (shardsAt s (slotsOf combined.flatten)) := by
  have hpartials : (shardsAt s (slotsOf combined.flatten)).mapM
      (partialOf comb sides (hotRecords spread seed bundles) s) =
        .ok ((combined.flatten.filter fun u => unshard u.slot = s).map fun u => u.value.2) := by
    rw [mapM_eq_ok_iff, shardsAt, slotsOf, List.filter_map, List.map_map,
      List.forall₂_map_left_iff, List.forall₂_map_right_iff]
    apply List.forall₂_same.mpr
    intro u hu
    obtain ⟨hmem, hslot⟩ := List.mem_filter.mp hu
    cases of_decide_eq_true hslot
    exact h.value u hmem
  rw [PerKey.reference_eq_apply, valuesAt_sent_of_hot hs, mergeShards, hpartials, ok_bind,
    ← comb.finish_apply_partials, List.map_map]
  rfl

theorem reference_finish_of_cold (comb : KeyedCombiner κ ι α ω) (sides : SideInputs B)
    (hmem : ∀ t, t ∈ slotsOf combined.flatten ↔ t ∈ slotsOf (hotRecords spread seed bundles))
    {s : κ.Carrier × Window} (hs : cold spread s.1 = true) :
    PerKey.reference comb.finish sides (sent spread seed bundles combined).flatten s =
      PerKey.reference comb sides bundles.flatten s := by
  rw [PerKey.reference_eq_apply, valuesAt_sent_of_cold hmem hs, comb.finish_apply_inputs]
  rfl

theorem exists_partialOf {rs : List (Windowed ((κ.Carrier × UInt32) × ι.Carrier))}
    {s : κ.Carrier × Window} {order : List UInt32}
    (h : ∃ o, mergeShards comb sides rs s order = .ok o) {m : UInt32} (hm : m ∈ order) :
    ∃ a, partialOf comb sides rs s m = .ok a := by
  obtain ⟨o, ho⟩ := h
  obtain ⟨partials, hpartials, _⟩ := bind_eq_ok_iff.mp ho
  exact exists_mapM_eq_ok_iff.mp ⟨partials, hpartials⟩ m hm

/-- The output of a slot: that of its shards in the given order for a hot key, and that of all its
values in a single batch for any other. -/
def slotOutput (comb : KeyedCombiner κ ι α ω) (sides : SideInputs B) (spread : Spread κ.Carrier)
    (seed : ShardSeed) (bundles : List (List (Windowed (κ.Carrier × ι.Carrier))))
    (order : κ.Carrier × Window → List UInt32) (s : κ.Carrier × Window) : Checked ω.Carrier :=
  if 2 ≤ spread s.1 then mergeShards comb sides (numbered spread seed bundles) s (order s)
  else PerKey.reference comb sides bundles.flatten s

theorem slotOutput_of_hot {order : κ.Carrier × Window → List UInt32} {s : κ.Carrier × Window}
    (hs : cold spread s.1 = false) : slotOutput comb sides spread seed bundles order s =
      mergeShards comb sides (hotRecords spread seed bundles) s (order s) := by
  have hhot : 2 ≤ spread s.1 := Nat.lt_of_not_le (of_decide_eq_false hs)
  rw [slotOutput, if_pos hhot, hotRecords_eq]

theorem slotOutput_of_cold {order : κ.Carrier × Window → List UInt32} {s : κ.Carrier × Window}
    (hs : cold spread s.1 = true) : slotOutput comb sides spread seed bundles order s =
      PerKey.reference comb sides bundles.flatten s := by
  have hcold : ¬ 2 ≤ spread s.1 := Nat.not_le.mpr (Nat.lt_succ_of_le (of_decide_eq_true hs))
  rw [slotOutput, if_neg hcold]

theorem exists_shard_outputs {order : κ.Carrier × Window → List UInt32}
    (horder : ∀ s, ShardsOf (numbered spread seed bundles) s (order s))
    (hall : ∀ s ∈ slotsOf bundles.flatten,
      (∃ o, slotOutput comb sides spread seed bundles order s = .ok o) ∧
        ∃ ts, s.2.maxTimestamp = .ok ts) :
    ∀ t ∈ slotsOf (hotRecords spread seed bundles),
      (∃ a, PerKey.reference comb.shard sides (hotRecords spread seed bundles) t = .ok a) ∧
        ∃ ts, t.2.maxTimestamp = .ok ts := by
  intro t ht
  obtain ⟨hhot, hs⟩ := mem_slotsOf_hotRecords.mp (List.mem_map_of_mem ht)
  obtain ⟨ho, hend⟩ := hall (unshard t) hs
  rw [slotOutput_of_hot hhot] at ho
  rw [hotRecords_eq] at ho ht ⊢
  exact ⟨exists_partialOf ho (((horder (unshard t)).mem_iff t.1.2).mpr ht), hend⟩

variable [KeyBytes κ.Carrier]

/-- Where values and accumulators cross unchanged, the fan-out run gives every slot its output, for
some order of the partials of each slot. It breaks off only when some output is missing. -/
theorem runGrouped_slotOutput (comb : KeyedCombiner κ ι α ω) (sides : SideInputs B)
    {inputCoder : Option (Coder ι)} {unionCoder : Option (Coder (.inputOrAccum ι α))}
    (fewKeys : Bool) (n : Nat)
    (hvalues : ∀ w ∈ bundles.flatten, Coder.Crosses inputCoder w.value.2 w.value.2)
    (hkeeps : Keeps (fun _ _ => (· = ·)) unionCoder bundles.flatten) :
    ∃ order : κ.Carrier × Window → List UInt32,
      (∀ s, ShardsOf (numbered spread seed bundles) s (order s)) ∧
      RunsPerSlot (slotsOf bundles.flatten) (slotOutput comb sides spread seed bundles order)
        ((runFanOut comb sides spread seed inputCoder unionCoder fewKeys n bundles).map
          List.flatten) := by
  have hhot : ∀ w ∈ hotRecords spread seed bundles,
      Coder.Crosses inputCoder w.value.2 w.value.2 := hotRecords_crosses hvalues
  have hshards := PerKey.runGrouped_reference comb.shard sides false n hhot
  rw [runFanOut, map_bind]
  cases hrun : (GroupedValues.mk comb.shard sides).runGrouped inputCoder false n
    ((splitBundles spread seed bundles).map hotPart) with
  | ok combined =>
    have hgive : ShardsGive comb sides spread seed bundles combined :=
      hshards.onePerSlot combined.flatten (by rw [hrun]; rfl)
    refine ⟨fun s => shardsAt s (slotsOf combined.flatten), ?_, ?_⟩
    · rw [← hotRecords_eq]
      exact shardsOf_shardsAt hgive.nodup hgive.mem_iff
    · have hcross : ∀ u ∈ (sent spread seed bundles combined).flatten,
          Coder.Crosses unionCoder u.value.2 u.value.2 := by
        intro u hu
        obtain ⟨y, hy, hrel⟩ := exists_crossing_sent hkeeps u.value.1 .global hu
        rw [← hrel.eq] at hy
        exact Grouping.crossingBy_eq_ok_iff.mp hy
      apply (PerKey.runGrouped_reference comb.finish sides fewKeys n hcross).congr
        (mem_slotsOf_sent hgive.mem_iff)
      intro s _
      cases hs : cold spread s.1 with
      | true =>
        rw [reference_finish_of_cold comb sides hgive.mem_iff hs, slotOutput_of_cold hs]
        exact .refl _
      | false =>
        rw [reference_finish_of_hot hgive hs, slotOutput_of_hot hs]
        exact .refl _
  | error e =>
    -- no order of the partials matters here, since a shard fails
    have horder : ∀ s, ShardsOf (numbered spread seed bundles) s
        (shardsAt s (slotsOf (numbered spread seed bundles)).dedup) :=
      shardsOf_shardsAt (List.nodup_dedup _) fun t => List.mem_dedup
    refine ⟨fun s => shardsAt s (slotsOf (numbered spread seed bundles)).dedup, horder, ?_⟩
    apply RunsPerSlot.of_bind
    · intro hall
      have hok := exists_map_eq_ok_iff.mp (hshards.ok_iff.mpr (exists_shard_outputs horder hall))
      rwa [← hrun]
    · intro combined hcombined
      cases hcombined

end FanOut

namespace PerKey
variable [DecidableEq κ.Carrier] [KeyBytes κ.Carrier]

/-- The fan-out path for any combiner whose values and accumulators read back what was written: a
slot of a hot key gets the partials of its shards, merged one by one in some order, where the number
of a record among the hot records of its bundle decides its shard. -/
theorem fanOut_merges_shards (comb : KeyedCombiner κ ι α ω) (spread : Spread κ.Carrier)
    (seed : ShardSeed) (sides : SideInputs B) (fewKeys : Bool) {c : Collection (.pair κ ι)}
    {bundles : List (List (Windowed (κ.Carrier × ι.Carrier)))} (hc : c.Gives p mode (.ok bundles))
    {accum : Coder α} (haccum : comb.accumulatorCoder p.coders (c.keyCoderIn p.coders)
      (c.valueCoderIn p.coders) = .ok accum)
    (hvalues : ∀ i, c.valueCoderIn p.coders = some i →
      ∀ w ∈ bundles.flatten, i.ReadsBack w.value.2 w.value.2)
    (haccums : ∀ a, accum.ReadsBack a a)
    (hunion : c.valueCoderIn p.coders = none →
      FanOut.Keeps (fun _ _ => (· = ·)) (p.coders.find? (.inputOrAccum ι α)) bundles.flatten) :
    ((FanOut.numbered spread seed bundles).map FanOut.unsharded =
      bundles.flatten.filter fun w => 2 ≤ spread w.value.1) ∧
    (∀ w ∈ FanOut.numbered spread seed bundles, w.value.1.2.toNat < spread w.value.1.1) ∧
    (comb.AdmitsOutput p.coders → ∃ d q, Build.on (c.apply (transform
      { combiner := comb, sides := sides, fewKeys := fewKeys, spread := some spread,
        seed := seed })) p = (.ok d, q)) ∧
    ∀ d q, Build.on (c.apply (transform
      { combiner := comb, sides := sides, fewKeys := fewKeys, spread := some spread,
        seed := seed })) p = (.ok d, q) →
      ∃ order : κ.Carrier × Window → List UInt32,
        (∀ s, FanOut.ShardsOf (FanOut.numbered spread seed bundles) s (order s)) ∧
        RunsPerSlot (slotsOf bundles.flatten)
          (FanOut.slotOutput comb sides spread seed bundles order)
          (q.collect mode (.pair κ ω) d.node) := by
  have hyields := FanOut.expand_yields comb spread seed sides fewKeys hc haccum
  refine ⟨FanOut.numbered_unsharded, fun w hw => FanOut.numbered_lt hw, ?_, ?_⟩
  · intro hadmits
    obtain ⟨d, q, _, _, hd⟩ := hyields.exists_ok hadmits
    exact ⟨d, q, hd⟩
  · intro d q hd
    have hcross : ∀ w ∈ bundles.flatten,
        Coder.Crosses (c.valueCoderIn p.coders) w.value.2 w.value.2 := by
      intro w hw
      cases hi : c.valueCoderIn p.coders with
      | none => rfl
      | some i => exact (hvalues i hi w hw).crosses
    have hkeeps := FanOut.keeps_finishCoder (R := fun _ _ => (· = ·)) hvalues
      (fun a => ⟨a, haccums a, fun _ _ => rfl⟩) hunion
    rw [hyields.collect_eq hd]
    exact FanOut.runGrouped_slotOutput comb sides fewKeys mode.parts hcross hkeeps

theorem fanOut_merges_shards_of_words : ∃ d q,
    Build.on (wordSource.1.apply (transform
      { combiner := digits, spread := some spreadA, seed := fun _ => 18446744073709551615 }))
      wordSource.2 = (.ok d, q) ∧
    ∃ order : String × Window → List UInt32,
      (∀ s, FanOut.ShardsOf (FanOut.numbered spreadA (fun _ => 18446744073709551615) [words]) s
        (order s)) ∧
      RunsPerSlot (slotsOf [words].flatten)
        (FanOut.slotOutput digits .none spreadA (fun _ => 18446744073709551615) [words] order)
        (q.collect .sequential (.pair .string .uint32) d.node) := by
  have hvalue (i : Coder (.uint32 : Sample.Ty))
      (hi : wordSource.1.valueCoderIn wordSource.2.coders = some i) (v : UInt32) :
      i.ReadsBack v v := by
    cases wordSource_valueCoder.symm.trans hi
    exact Coder.uint32_readsBack v
  obtain ⟨_, _, hbuilt, hruns⟩ := fanOut_merges_shards digits spreadA
    (fun _ => 18446744073709551615) .none false (wordSource_gives .sequential) rfl
    (fun i hi w _ => hvalue i hi w.value.2) Coder.uint32_readsBack
    fun hnone => by cases wordSource_valueCoder.symm.trans hnone
  obtain ⟨d, q, hd⟩ := hbuilt fun _ _ _ he => isCannotProvide_of_inputOrRegistered he
  exact ⟨d, q, hd, hruns d q hd⟩

end PerKey
end KeyedFlow
