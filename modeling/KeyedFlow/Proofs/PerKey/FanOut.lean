import KeyedFlow.Proofs.Combiner.Sums
import KeyedFlow.Proofs.PerKey.Direct
import KeyedFlow.Proofs.PerKey.Shards

/-!
The fan-out path of a combine per key. The shards of a hot key send one partial accumulator each, in
no particular order, and together they stand for all values of the slot; a cold key sends its values
as they are. A lawful combiner therefore gives every slot the output of the direct path, wherever
the keys are spread and the counters start.
-/

set_option autoImplicit false

namespace KeyedFlow
open Outcome
variable {B : Type} [TypeFamily B] {κ ι α ω : ElemType B} {p : Pipeline B} {mode : ExecMode}

namespace FanOut

def partialRecord (ι : Type) {κ α : Type} (w : Windowed ((κ × UInt32) × α)) :
    Windowed (κ × InputOrAccum ι α) :=
  w.withValue (w.value.1.1, .accum w.value.2)

/-- What reaches the last grouping: the partials of the shards, then the cold records. -/
def sent (spread : Spread κ.Carrier) (seed : ShardSeed)
    (bundles : List (List (Windowed (κ.Carrier × ι.Carrier))))
    (combined : List (List (Windowed ((κ.Carrier × UInt32) × α.Carrier)))) :
    List (List (Windowed (κ.Carrier × InputOrAccum ι.Carrier α.Carrier))) :=
  combined.map (List.map (partialRecord ι.Carrier)) ++
    (splitBundles spread seed bundles).map (coldPart α.Carrier)

/-- A barrier that leaves the values of `rs` what they are and replaces partial accumulators by
their like. -/
structure Keeps (R : AccumEquiv κ α) (coder : Option (Coder (.inputOrAccum ι α)))
    (rs : List (Windowed (κ.Carrier × ι.Carrier))) : Prop where
  input : ∀ w ∈ rs, Coder.Crosses coder (.input w.value.2) (.input w.value.2)
  accum : ∀ a, ∃ b, Coder.Crosses coder (.accum a) (.accum b) ∧ ∀ k ctx, R k ctx a b

section Data
variable {comb : KeyedCombiner κ ι α ω} {sides : SideInputs B} {spread : Spread κ.Carrier}
  {seed : ShardSeed} {bundles : List (List (Windowed (κ.Carrier × ι.Carrier)))}
  {combined : List (List (Windowed ((κ.Carrier × UInt32) × α.Carrier)))}

theorem flatten_sent : (sent (ι := ι) spread seed bundles combined).flatten =
    ((combined.flatten.map unsharded).map fun w => w.withValue (w.value.1, .accum w.value.2)) ++
      (bundles.flatten.filter fun w => cold spread w.value.1).map
        fun w => w.withValue (w.value.1, .input w.value.2) := by
  rw [sent, List.flatten_append, flatten_coldPart, ← List.map_flatten, List.map_map]
  rfl

def hotRecords (spread : Spread κ.Carrier) (seed : ShardSeed)
    (bundles : List (List (Windowed (κ.Carrier × ι.Carrier)))) :
    List (Windowed ((κ.Carrier × UInt32) × ι.Carrier)) :=
  ((splitBundles spread seed bundles).map hotPart).flatten

theorem mem_slotsOf_hotRecords {s : κ.Carrier × Window} :
    s ∈ (slotsOf (hotRecords spread seed bundles)).map unshard ↔
      cold spread s.1 = false ∧ s ∈ slotsOf bundles.flatten := by
  rw [← slotsOf_map_unsharded, hotRecords, map_unsharded_flatten_hotPart,
    mem_slotsOf_filter_key fun k => !cold spread k, Bool.not_eq_true']

theorem exists_crossing_sent {R : AccumEquiv κ α} {coder : Option (Coder (.inputOrAccum ι α))}
    (hkeeps : Keeps R coder bundles.flatten) (k : κ.Carrier) (ctx : CombineContext B)
    {u : Windowed (κ.Carrier × InputOrAccum ι.Carrier α.Carrier)}
    (hu : u ∈ (sent spread seed bundles combined).flatten) :
    ∃ y, Grouping.crossingBy coder u.value.2 = .ok y ∧
      InputOrAccum.Rel (R k ctx) u.value.2 y := by
  rw [flatten_sent, List.mem_append] at hu
  rcases hu with hu | hu
  · obtain ⟨w, _, rfl⟩ := List.mem_map.mp hu
    obtain ⟨b, hb, hrel⟩ := hkeeps.accum w.value.2
    exact ⟨.accum b, Grouping.crossingBy_eq_ok_iff.mpr hb, .accum (hrel k ctx)⟩
  · obtain ⟨w, hw, rfl⟩ := List.mem_map.mp hu
    have hb := hkeeps.input w (List.mem_filter.mp hw).1
    exact ⟨.input w.value.2, Grouping.crossingBy_eq_ok_iff.mpr hb, .input _⟩

theorem hotRecords_crosses {coder : Option (Coder ι)}
    (h : ∀ w ∈ bundles.flatten, Coder.Crosses coder w.value.2 w.value.2) :
    ∀ w ∈ hotRecords spread seed bundles, Coder.Crosses coder w.value.2 w.value.2 := by
  intro w hw
  have hw := List.mem_map_of_mem (f := unsharded) hw
  rw [hotRecords, map_unsharded_flatten_hotPart] at hw
  exact h _ (List.mem_filter.mp hw).1

theorem mem_slotsOf_sent
    (hmem : ∀ t, t ∈ slotsOf combined.flatten ↔ t ∈ slotsOf (hotRecords spread seed bundles))
    (s : κ.Carrier × Window) :
    s ∈ slotsOf (sent (ι := ι) spread seed bundles combined).flatten ↔
      s ∈ slotsOf bundles.flatten := by
  have hshards : s ∈ slotsOf (combined.flatten.map unsharded) ↔
      cold spread s.1 = false ∧ s ∈ slotsOf bundles.flatten := by
    rw [slotsOf_map_unsharded, ← @mem_slotsOf_hotRecords B _ κ ι spread seed bundles]
    simp only [List.mem_map, hmem]
  rw [flatten_sent, slotsOf_append, List.mem_append, slotsOf_map, slotsOf_map, hshards,
    mem_slotsOf_filter_key]
  cases cold spread s.1 <;> simp

variable [DecidableEq κ.Carrier]

theorem valuesAt_hotRecords {s : κ.Carrier × Window} (hs : cold spread s.1 = false) :
    valuesAt s ((hotRecords spread seed bundles).map unsharded) = valuesAt s bundles.flatten := by
  rw [hotRecords, map_unsharded_flatten_hotPart,
    valuesAt_filter_key fun k => !cold spread k, if_pos (by rw [hs]; rfl)]

/-- The shards give one record for each slot of the hot records. -/
abbrev ShardsGive (comb : KeyedCombiner κ ι α ω) (sides : SideInputs B)
    (spread : Spread κ.Carrier) (seed : ShardSeed)
    (bundles : List (List (Windowed (κ.Carrier × ι.Carrier))))
    (combined : List (List (Windowed ((κ.Carrier × UInt32) × α.Carrier)))) : Prop :=
  OnePerSlot (slotsOf (hotRecords spread seed bundles))
    (fun t a => comb.shard.apply t.1 (sides.resolve t.2)
      (valuesAt t (hotRecords spread seed bundles)) = .ok a) combined.flatten

theorem valuesAt_sent_of_cold
    (hmem : ∀ t, t ∈ slotsOf combined.flatten ↔ t ∈ slotsOf (hotRecords spread seed bundles))
    {s : κ.Carrier × Window} (hs : cold spread s.1 = true) :
    valuesAt s (sent spread seed bundles combined).flatten =
      (valuesAt s bundles.flatten).map .input := by
  have hnone : valuesAt s (combined.flatten.map unsharded) = [] := by
    apply valuesAt_eq_nil
    intro hm
    rw [slotsOf_map_unsharded] at hm
    obtain ⟨t, ht, rfl⟩ := List.mem_map.mp hm
    have hhot := (mem_slotsOf_hotRecords.mp (List.mem_map_of_mem ((hmem t).mp ht))).1
    rw [hs] at hhot
    cases hhot
  rw [flatten_sent, valuesAt_append, valuesAt_map, valuesAt_map, valuesAt_filter_key (cold spread),
    hnone, if_pos hs, List.map_nil, List.nil_append]

theorem valuesAt_sent_of_hot {s : κ.Carrier × Window} (hs : cold spread s.1 = false) :
    valuesAt s (sent (ι := ι) spread seed bundles combined).flatten =
      (combined.flatten.filter fun u => unshard u.slot = s).map fun u => .accum u.value.2 := by
  rw [flatten_sent, valuesAt_append, valuesAt_map, valuesAt_map, valuesAt_filter_key (cold spread),
    if_neg (by simp [hs]), List.map_nil, List.append_nil, valuesAt_map_unsharded, List.map_map]
  rfl

theorem exists_stands {R : AccumEquiv κ α} (hlaws : comb.Mergeable R)
    (h : ShardsGive comb sides spread seed bundles combined) (s : κ.Carrier × Window) :
    ∃ xss, List.Forall₂ ((comb.bind none s.1 (sides.resolve s.2)).Stands
        (R s.1 (sides.resolve s.2))) (valuesAt s (sent spread seed bundles combined).flatten) xss ∧
      xss.flatten.Perm (valuesAt s bundles.flatten) := by
  cases hs : cold spread s.1 with
  | true =>
    refine ⟨(valuesAt s bundles.flatten).map fun x => [x], ?_, ?_⟩
    · rw [valuesAt_sent_of_cold h.mem_iff hs, List.forall₂_map_left_iff,
        List.forall₂_map_right_iff]
      exact List.forall₂_same.mpr fun x _ => rfl
    · rw [← List.flatMap_def, List.flatMap_singleton']
  | false =>
    refine ⟨((slotsOf combined.flatten).filter fun t => unshard t = s).map
      fun t => valuesAt t (hotRecords spread seed bundles), ?_, ?_⟩
    · rw [valuesAt_sent_of_hot hs, slotsOf, List.filter_map, List.map_map,
        List.forall₂_map_left_iff, List.forall₂_map_right_iff]
      apply List.forall₂_same.mpr
      intro u hu
      obtain ⟨hmem, hslot⟩ := List.mem_filter.mp hu
      cases of_decide_eq_true hslot
      exact (hlaws _ _).stands_compact (h.value u hmem)
    · rw [← valuesAt_hotRecords hs]
      exact valuesAt_shards_perm h.nodup h.mem_iff s

theorem exists_shard_apply {R : AccumEquiv κ α} (hlaws : comb.Lawful R)
    {t : (κ.Carrier × UInt32) × Window} (ht : t ∈ slotsOf (hotRecords spread seed bundles))
    (hall : ∃ o, PerKey.reference comb sides bundles.flatten (unshard t) = .ok o) :
    ∃ a, comb.shard.apply t.1 (sides.resolve t.2)
      (valuesAt t (hotRecords spread seed bundles)) = .ok a := by
  have hhot := (mem_slotsOf_hotRecords.mp (List.mem_map_of_mem ht)).1
  have hlaw := hlaws t.1.1 (sides.resolve t.2)
  have hsub := valuesAt_sublist t (hotRecords spread seed bundles)
  rw [valuesAt_hotRecords hhot] at hsub
  obtain ⟨o, ho⟩ := hall
  obtain ⟨total, htotal, _⟩ := bind_eq_ok_iff.mp ho
  obtain ⟨a, ha⟩ := hlaw.exists_fold_of_sublist hsub ⟨total, htotal⟩
  obtain ⟨b, hb, _⟩ := (hlaw.compact_equiv a).ok_right
  exact ⟨b, bind_eq_ok_iff.mpr ⟨a, ha, hb⟩⟩

variable [KeyBytes κ.Carrier]

def runFanOut (comb : KeyedCombiner κ ι α ω) (sides : SideInputs B) (spread : Spread κ.Carrier)
    (seed : ShardSeed) (inputCoder : Option (Coder ι))
    (unionCoder : Option (Coder (.inputOrAccum ι α))) (fewKeys : Bool) (n : Nat)
    (bundles : List (List (Windowed (κ.Carrier × ι.Carrier)))) :
    Except RunError (List (List (Windowed (κ.Carrier × ω.Carrier)))) := do
  let combined ← (GroupedValues.mk comb.shard sides).runGrouped inputCoder false n
    ((splitBundles spread seed bundles).map hotPart)
  (GroupedValues.mk comb.finish sides).runGrouped unionCoder fewKeys n
    (sent spread seed bundles combined)

/-- Combining the shards of hot keys first gives every slot the output of combining it at once. -/
theorem runGrouped_fanOut {R : AccumEquiv κ α} (hlaws : comb.Lawful R)
    {inputCoder : Option (Coder ι)} {unionCoder : Option (Coder (.inputOrAccum ι α))}
    (fewKeys : Bool) (n : Nat)
    (hvalues : ∀ w ∈ bundles.flatten, Coder.Crosses inputCoder w.value.2 w.value.2)
    (hkeeps : Keeps R unionCoder bundles.flatten) :
    RunsPerSlot (slotsOf bundles.flatten) (PerKey.reference comb sides bundles.flatten)
      ((runFanOut comb sides spread seed inputCoder unionCoder fewKeys n bundles).map
        List.flatten) := by
  have hcross : ∀ w ∈ hotRecords spread seed bundles,
      Coder.Crosses inputCoder w.value.2 w.value.2 := hotRecords_crosses hvalues
  have hshards := PerKey.runGrouped_reference comb.shard sides false n hcross
  rw [runFanOut, map_bind]
  apply RunsPerSlot.of_bind
  · intro hall
    rw [← exists_map_eq_ok_iff]
    apply hshards.ok_iff.mpr
    intro t ht
    obtain ⟨ho, hend⟩ := hall (unshard t) (mem_slotsOf_hotRecords.mp (List.mem_map_of_mem ht)).2
    exact ⟨exists_shard_apply hlaws ht ho, hend⟩
  · intro combined hcombined
    have hgive : ShardsGive comb sides spread seed bundles combined :=
      hshards.onePerSlot combined.flatten (by rw [hcombined]; rfl)
    apply (GroupedValues.runGrouped_runsPerSlot _ unionCoder fewKeys n _).congr
    · exact mem_slotsOf_sent hgive.mem_iff
    · intro s _
      obtain ⟨xss, hxss, hperm⟩ := exists_stands hlaws.mergeable hgive s
      have hlaw := hlaws s.1 (sides.resolve s.2)
      have hfinish := KeyedCombiner.finish_apply_of_rel hlaw.toMergeable hxss
        (f := Grouping.crossingBy unionCoder) ?_
      · exact hfinish.trans_eq (hlaw.apply_perm hperm)
      · intro x hx
        obtain ⟨u, hu, _, rfl⟩ := mem_valuesAt.mp hx
        exact exists_crossing_sent hkeeps s.1 (sides.resolve s.2) hu

end Data

/-- The coder by which inputs and partials cross the last barrier: the one of inputs and
accumulators where the inputs have one, else the registered one. -/
def finishCoder? (r : CoderRegistry B) (input : Option (Coder ι)) (accum : Coder α) :
    Option (Coder (.inputOrAccum ι α)) :=
  (input.map fun i => i.inputOrAccum accum).orElse fun _ => r.find? (.inputOrAccum ι α)

theorem shard_admitsOutput (comb : KeyedCombiner κ ι α ω) (r : CoderRegistry B) :
    comb.shard.AdmitsOutput r := fun _ _ _ he => isCannotProvide_of_coderFor he

theorem hotCoder_eq (hot : Collection (.pair (.pair κ .uint32) ι)) (key : Option (Coder κ))
    {input : Option (Coder ι)} {r : CoderRegistry B} (hhot : hot.coder = none)
    (hnone : input = none → r.find? ι = none) :
    (input.orElse fun _ => (hot.setCoder? (do
      let k ← key
      let i ← input
      some (Coder.pair (k.pair .varint) i))).valueCoder?).orElse (fun _ => r.find? ι) = input := by
  cases input with
  | some i => rfl
  | none =>
    have hset : hot.setCoder? (do
        let k ← key
        let i ← none
        some (Coder.pair (k.pair .varint) i)) = hot := by
      cases key <;> rfl
    rw [hset, Collection.valueCoder?, hhot]
    exact hnone rfl

theorem find?_of_valueCoderIn {c : Collection (.pair κ ι)} {r : CoderRegistry B}
    (h : c.valueCoderIn r = none) : r.find? ι = none := by
  unfold Collection.valueCoderIn at h
  cases hc : c.valueCoder? with
  | some i =>
    rw [hc] at h
    cases h
  | none =>
    rw [hc] at h
    exact h

section Building
variable [DecidableEq κ.Carrier] [KeyBytes κ.Carrier]

/-- The second half of the fan-out: the combined shards are flattened with the cold records and
finished. -/
def expandFinish (comb : KeyedCombiner κ ι α ω) (sides : SideInputs B)
    (opts : GroupingOptions (.inputOrAccum ι α)) (strategy : WindowingStrategy)
    (routed : Collection (.routed κ ι)) (combined : Collection (.pair (.pair κ .uint32) α)) :
    Build B (Collection (.pair κ ω)) := do
  let partials ← Build.extend <|
    combined.map (.pair κ (.inputOrAccum ι α)) fun e => .ok (e.1.1, .accum e.2)
  let cold ← Build.extend <|
    routed.flatMap (.pair κ (.inputOrAccum ι α)) fun r => .ok (coldRecord α.Carrier r)
  let all ← Collection.flatten [partials.withStrategy strategy, cold]
  let grouped ← Build.extend <| all.groupByKey opts
  GroupedValues.expand ⟨comb.finish, sides⟩ grouped

theorem expandFinish_yields (comb : KeyedCombiner κ ι α ω) (sides : SideInputs B)
    (opts : GroupingOptions (.inputOrAccum ι α)) {routed : Collection (.routed κ ι)}
    {combined : Collection (.pair (.pair κ .uint32) α)}
    {rs : List (List (Windowed (Routed κ.Carrier ι.Carrier)))}
    {y : Except RunError (List (List (Windowed ((κ.Carrier × UInt32) × α.Carrier))))}
    (hrouted : routed.Gives p mode (.ok rs)) (hcombined : combined.Gives p mode y) :
    Build.Yields (comb.AdmitsOutput p.coders)
      (expandFinish comb sides opts routed.strategy routed combined) p mode
      (y >>= fun gs => (GroupedValues.mk comb.finish sides).runGrouped
        (opts.valueCoder.orElse fun _ => p.coders.find? (.inputOrAccum ι α)) opts.fewKeys mode.parts
        (gs.map (List.map (partialRecord ι.Carrier)) ++ rs.map (coldPart α.Carrier))) := by
  have hpartials := Collection.map_yields (τ := .pair κ (.inputOrAccum ι α)) hcombined
    fun e => (e.1.1, .accum e.2)
  have hcold := Collection.flatMap_yields (τ := .pair κ (.inputOrAccum ι α))
    (hrouted.mono hpartials.extends_ hpartials.gives.wellFormed) (coldRecord α.Carrier)
  have hparts := (hpartials.gives.mono hcold.extends_ hcold.gives.wellFormed).withStrategy
    routed.strategy
  obtain ⟨all, q, hon, hflat, hcoder, hall⟩ := Collection.flatten_on hparts hcold.gives rfl
  have hq : p.Extends q := (hpartials.extends_.trans hcold.extends_).trans hflat
  have hnone : (opts.valueCoder.orElse fun _ => all.valueCoder?).orElse
      (fun _ => q.coders.find? (.inputOrAccum ι α)) =
        opts.valueCoder.orElse fun _ => p.coders.find? (.inputOrAccum ι α) := by
    rw [Collection.valueCoder?, hcoder, hq.coders]
    cases opts.valueCoder <;> rfl
  have hbuild := GroupedValues.groupThenExpand_yields (g := ⟨comb.finish, sides⟩) hall opts hnone
  have hvalue : ((do
      let xs ← y.map (List.map (List.map (partialRecord ι.Carrier)))
      let ys ← Except.ok (rs.map (coldPart α.Carrier))
      .ok (xs ++ ys)) >>= (GroupedValues.mk comb.finish sides).runGrouped
        (opts.valueCoder.orElse fun _ => p.coders.find? (.inputOrAccum ι α)) opts.fewKeys
        mode.parts) = y >>= fun gs => (GroupedValues.mk comb.finish sides).runGrouped
        (opts.valueCoder.orElse fun _ => p.coders.find? (.inputOrAccum ι α)) opts.fewKeys mode.parts
        (gs.map (List.map (partialRecord ι.Carrier)) ++ rs.map (coldPart α.Carrier)) := by
    cases y <;> rfl
  rw [← hvalue]
  rw [hq.coders] at hbuild
  exact (hbuild.imp KeyedCombiner.AdmitsOutput.finish).of_eq hq (Build.on_bind hon)

/-- The first half of the fan-out: the hot records are grouped and combined by shard. -/
def expandShards (comb : KeyedCombiner κ ι α ω) (sides : SideInputs B) (key : Option (Coder κ))
    (input : Option (Coder ι)) (routed : Collection (.routed κ ι)) :
    Build B (Collection (.pair (.pair κ .uint32) α)) := do
  let hot ← Build.extend <| routed.flatMap (.pair (.pair κ .uint32) ι) fun r => .ok (hotRecord r)
  let hotCoder := do
    let k ← key
    let i ← input
    some (Coder.pair (k.pair .varint) i)
  let hot := (hot.withAccumulationMode .discarding).setCoder? hotCoder
  let grouped ← Build.extend <| hot.groupByKey ⟨false, input⟩
  GroupedValues.expand ⟨comb.shard, sides⟩ grouped

theorem expandShards_yields (comb : KeyedCombiner κ ι α ω) (sides : SideInputs B)
    (key : Option (Coder κ)) {input : Option (Coder ι)} {routed : Collection (.routed κ ι)}
    {rs : List (List (Windowed (Routed κ.Carrier ι.Carrier)))}
    (hrouted : routed.Gives p mode (.ok rs)) (hinput : input = none → p.coders.find? ι = none) :
    Build.Yields True (expandShards comb sides key input routed) p mode
      ((GroupedValues.mk comb.shard sides).runGrouped input false mode.parts (rs.map hotPart)) := by
  have hhot := Collection.flatMap_yields (τ := .pair (.pair κ .uint32) ι) hrouted hotRecord
  have hset := (hhot.gives.withStrategy (routed.strategy.withMode .discarding)).setCoder? (do
    let k ← key
    let i ← input
    some (Coder.pair (k.pair .varint) i))
  have hbuild := GroupedValues.groupThenExpand_yields (κ := ElemType.pair κ .uint32)
    (g := ⟨comb.shard, sides⟩) hset ⟨false, input⟩
    (hotCoder_eq _ key rfl fun h => hhot.extends_.coders ▸ hinput h)
  exact (hbuild.imp fun _ => shard_admitsOutput comb _).of_eq hhot.extends_ rfl

theorem expand_on (comb : KeyedCombiner κ ι α ω) (spread : Spread κ.Carrier) (seed : ShardSeed)
    (sides : SideInputs B) (fewKeys : Bool) (c : Collection (.pair κ ι)) {accumCoder : Coder α}
    (haccum : comb.accumulatorCoder p.coders (c.keyCoderIn p.coders) (c.valueCoderIn p.coders) =
      .ok accumCoder) :
    (expand comb spread seed sides fewKeys c).on p = (do
      let routed ← Build.extend <|
        c.mapBundle (.routed κ ι) fun i xs => .ok (split spread (seed i) xs)
      let combined ← expandShards comb sides (c.keyCoderIn p.coders) (c.valueCoderIn p.coders)
        routed
      expandFinish comb sides
        ⟨fewKeys, (c.valueCoderIn p.coders).map fun i => Coder.inputOrAccum i accumCoder⟩
        c.strategy routed combined).on p := by
  unfold Collection.keyCoderIn Collection.valueCoderIn at haccum ⊢
  unfold expand expandShards expandFinish
  simp only [bind_assoc]
  rw [Build.on_get, haccum]
  rfl

theorem expand_yields (comb : KeyedCombiner κ ι α ω) (spread : Spread κ.Carrier) (seed : ShardSeed)
    (sides : SideInputs B) (fewKeys : Bool) {c : Collection (.pair κ ι)}
    {bundles : List (List (Windowed (κ.Carrier × ι.Carrier)))} (hc : c.Gives p mode (.ok bundles))
    {accumCoder : Coder α} (haccum : comb.accumulatorCoder p.coders (c.keyCoderIn p.coders)
      (c.valueCoderIn p.coders) = .ok accumCoder) :
    Build.Yields (comb.AdmitsOutput p.coders) (expand comb spread seed sides fewKeys c) p mode
      (runFanOut comb sides spread seed (c.valueCoderIn p.coders)
        (finishCoder? p.coders (c.valueCoderIn p.coders) accumCoder) fewKeys mode.parts
        bundles) := by
  have hrouted : (c.mapBundle (.routed κ ι) fun i xs => .ok (split spread (seed i) xs)).Yields p
      mode (.ok (splitBundles spread seed bundles)) := by
    have hy := Collection.chain_yields (τ := .routed κ ι) hc .bundle
      fun i xs => .ok (split spread (seed i) xs)
    have hx : runBundles (fun i xs => .ok (split spread (seed i) xs)) bundles =
        .ok (splitBundles spread seed bundles) :=
      runBundles_ok (fun i xs => split spread (seed i) xs) bundles
    rw [← hx]
    exact hy
  have hinput : c.valueCoderIn p.coders = none → p.coders.find? ι = none := find?_of_valueCoderIn
  rw [← hrouted.extends_.coders] at hinput
  have hshards := expandShards_yields comb sides (c.keyCoderIn p.coders) hrouted.gives hinput
  obtain ⟨combined, q, hq, hcombined, hon⟩ := hshards.exists_ok trivial
  have hextends := hrouted.extends_.trans hq
  have hbuild := expandFinish_yields comb sides
    ⟨fewKeys, (c.valueCoderIn p.coders).map fun i => Coder.inputOrAccum i accumCoder⟩
    (hrouted.gives.mono hq hcombined.wellFormed) hcombined
  have hstrategy : (c.mapBundle (.routed κ ι)
      (fun i xs => .ok (split spread (seed i) xs)) p).1.strategy = c.strategy := rfl
  rw [hextends.coders, hstrategy] at hbuild
  apply hbuild.of_eq hextends
  rw [expand_on comb spread seed sides fewKeys c haccum, Build.on_extend]
  exact Build.on_bind hon

end Building

/-- The last barrier keeps what crosses it when the coders of inputs and accumulators do, or else
the coder registered for both. -/
theorem keeps_finishCoder {R : AccumEquiv κ α} {r : CoderRegistry B} {input : Option (Coder ι)}
    {accum : Coder α} {rs : List (Windowed (κ.Carrier × ι.Carrier))}
    (hvalues : ∀ i, input = some i → ∀ w ∈ rs, i.ReadsBack w.value.2 w.value.2)
    (haccums : ∀ a, ∃ b, accum.ReadsBack a b ∧ ∀ k ctx, R k ctx a b)
    (hunion : input = none → Keeps R (r.find? (.inputOrAccum ι α)) rs) :
    Keeps R (finishCoder? r input accum) rs := by
  cases input with
  | none => exact hunion rfl
  | some i =>
    constructor
    · intro w hw
      exact (hvalues i rfl w hw).input.crosses
    · intro a
      obtain ⟨b, hb, hrel⟩ := haccums a
      exact ⟨b, hb.accum.crosses, hrel⟩

end FanOut

namespace PerKey
variable [DecidableEq κ.Carrier] [KeyBytes κ.Carrier]

/-- Fan-out changes nothing but the order of the records, for every lawful combiner. -/
theorem fanOut_agrees_with_direct {comb : KeyedCombiner κ ι α ω} {R : AccumEquiv κ α}
    (hlaws : comb.Lawful R) (spread : Spread κ.Carrier) (seed : ShardSeed) (sides : SideInputs B)
    (fewKeys : Bool) {c : Collection (.pair κ ι)}
    {bundles : List (List (Windowed (κ.Carrier × ι.Carrier)))} (hc : c.Gives p mode (.ok bundles))
    {accum : Coder α} (haccum : comb.accumulatorCoder p.coders (c.keyCoderIn p.coders)
      (c.valueCoderIn p.coders) = .ok accum)
    (hvalues : ∀ i, c.valueCoderIn p.coders = some i →
      ∀ w ∈ bundles.flatten, i.ReadsBack w.value.2 w.value.2)
    (haccums : ∀ a, ∃ b, accum.ReadsBack a b ∧ ∀ k ctx, R k ctx a b)
    (hunion : c.valueCoderIn p.coders = none →
      FanOut.Keeps R (p.coders.find? (.inputOrAccum ι α)) bundles.flatten) :
    Build.Agree (comb.AdmitsOutput p.coders)
      (c.apply (transform { combiner := comb, sides := sides, fewKeys := fewKeys }))
      (c.apply (transform
        { combiner := comb, sides := sides, fewKeys := fewKeys, spread := some spread,
          seed := seed })) p mode := by
  have hcross : ∀ w ∈ bundles.flatten,
      Coder.Crosses (c.valueCoderIn p.coders) w.value.2 w.value.2 := by
    intro w hw
    cases hi : c.valueCoderIn p.coders with
    | none => rfl
    | some i => exact (hvalues i hi w hw).crosses
  have hkeeps := FanOut.keeps_finishCoder hvalues haccums hunion
  exact (direct_yields comb sides fewKeys hc).agree
    (FanOut.expand_yields comb spread seed sides fewKeys hc haccum)
    ((runGrouped_reference comb sides fewKeys mode.parts hcross).corresponds
      (FanOut.runGrouped_fanOut hlaws fewKeys mode.parts hcross hkeeps))

def sums : KeyedCombiner (.string : Sample.Ty) .uint32 .uint32 .uint32 :=
  (Combiner.sum .uint32 (0 : UInt32) Word.add).keyed .string

theorem sums_lawful : sums.Lawful fun _ _ => (· = ·) :=
  (Combiner.sum_lawful (Word.partialMonoid rfl rfl)
    fun a b => Word.add_comm a b ▸ .refl _).keyed .string

theorem fanOut_agrees_with_direct_on_words : ∃ d q d' q',
    Build.on (wordSource.1.apply (transform { combiner := sums })) wordSource.2 = (.ok d, q) ∧
    Build.on (wordSource.1.apply (transform
      { combiner := sums, spread := some fun k => if k = "a" then 2 else 0,
        seed := fun _ => 18446744073709551615 })) wordSource.2 = (.ok d', q') ∧
    q.collect (.parallel 2) (.pair .string .uint32) d.node =
      .ok [⟨("b", 2), Timestamp.endOfTime, .global⟩, ⟨("a", 4), Timestamp.endOfTime, .global⟩] ∧
    q'.collect (.parallel 2) (.pair .string .uint32) d'.node =
      .ok [⟨("b", 2), Timestamp.endOfTime, .global⟩, ⟨("a", 4), Timestamp.endOfTime, .global⟩] ∧
    Corresponds List.Perm (q.collect (.parallel 2) (.pair .string .uint32) d.node)
      (q'.collect (.parallel 2) (.pair .string .uint32) d'.node) := by
  have haccum : sums.accumulatorCoder wordSource.2.coders
      (wordSource.1.keyCoderIn wordSource.2.coders)
      (wordSource.1.valueCoderIn wordSource.2.coders) = .ok Coder.uint32 := rfl
  have hvalue (i : Coder (.uint32 : Sample.Ty))
      (hi : wordSource.1.valueCoderIn wordSource.2.coders = some i) (v : UInt32) :
      i.ReadsBack v v := by
    cases wordSource_valueCoder.symm.trans hi
    exact Coder.uint32_readsBack v
  have hwords := fanOut_agrees_with_direct sums_lawful (fun k => if k = "a" then 2 else 0)
    (fun _ => 18446744073709551615) .none false (wordSource_gives (.parallel 2)) haccum
    (fun i hi w _ => hvalue i hi w.value.2)
    (fun a => ⟨a, Coder.uint32_readsBack a, fun _ _ => rfl⟩)
    fun hnone => by cases wordSource_valueCoder.symm.trans hnone
  exact ⟨_, _, _, _, rfl, rfl, by decide +kernel, by decide +kernel,
    hwords.collected _ _ _ _ rfl rfl⟩

end PerKey
end KeyedFlow
