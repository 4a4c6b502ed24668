import KeyedFlow.Proofs.Coder.Appending
import KeyedFlow.Proofs.PerKey.FanOut
import KeyedFlow.Sample.Coders

/-!
Fan-out and the keys that it does not spread. A slot of a cold key is sent its values in the order
of the source, each crosses the barrier once, as an input, and just as it would by the coder of
inputs alone; so the slot combines to what it combines to on the direct path, whatever the combiner
does, whatever becomes of the values on their way and whatever the hot keys beside it are.
-/

set_option autoImplicit false

namespace KeyedFlow
open Outcome
variable {B : Type} [TypeFamily B] {κ ι α ω : ElemType B} {p : Pipeline B} {mode : ExecMode}

theorem KeyedCombiner.finish_apply_inputs (comb : KeyedCombiner κ ι α ω) (k : κ.Carrier)
    (ctx : CombineContext B) (xs : List ι.Carrier) :
    comb.finish.apply k ctx (xs.map .input) = comb.apply k ctx xs := by
  have hfold : comb.finish.fold k ctx (xs.map .input) = comb.fold k ctx xs := List.foldlM_map ..
  rw [apply, apply, hfold]
  rfl

namespace FanOut
variable {comb : KeyedCombiner κ ι α ω} {sides : SideInputs B} {spread : Spread κ.Carrier}
  {seed : ShardSeed} {bundles : List (List (Windowed (κ.Carrier × ι.Carrier)))}
  {combined : List (List (Windowed ((κ.Carrier × UInt32) × α.Carrier)))}
  {r : CoderRegistry B} {input : Option (Coder ι)}

theorem crossingBy_finishCoder (hinput : ∀ i, input = some i → i.CustomsAppend)
    (hunion : input = none → r.find? (.inputOrAccum ι α) = none) (accum : Coder α)
    (v : ι.Carrier) :
    Corresponds (· = ·) (Grouping.crossingBy (finishCoder? r input accum) (.input v))
      ((Grouping.crossingBy input v).map .input) := by
  apply Corresponds.of_ok_iff
  intro y
  rw [map_eq_ok_iff, Grouping.crossingBy_eq_ok_iff]
  simp only [Grouping.crossingBy_eq_ok_iff]
  cases input with
  | some i => exact Coder.crosses_input_iff (hinput i rfl) accum
  | none =>
    have hnone : finishCoder? r none accum = none := hunion rfl
    rw [hnone]
    constructor
    · rintro rfl
      exact ⟨v, rfl, rfl⟩
    · rintro ⟨u, rfl, rfl⟩
      rfl

variable [DecidableEq κ.Carrier]

theorem slotValue_of_cold (comb : KeyedCombiner κ ι α ω) (sides : SideInputs B)
    (hinput : ∀ i, input = some i → i.CustomsAppend)
    (hunion : input = none → r.find? (.inputOrAccum ι α) = none) (accum : Coder α)
    (hmem : ∀ t, t ∈ slotsOf combined.flatten ↔ t ∈ slotsOf (hotRecords spread seed bundles))
    {s : κ.Carrier × Window} (hs : cold spread s.1 = true) :
    Corresponds (· = ·) ((GroupedValues.mk comb.finish sides).slotValue
        (finishCoder? r input accum) (sent spread seed bundles combined).flatten s)
      ((GroupedValues.mk comb sides).slotValue input bundles.flatten s) := by
  have hcross : Corresponds (List.Forall₂ (· = ·))
      ((valuesAt s bundles.flatten).mapM fun v =>
        Grouping.crossingBy (finishCoder? r input accum) (.input v))
      ((valuesAt s bundles.flatten).mapM fun v => (Grouping.crossingBy input v).map .input) :=
    mapM_corresponds fun v _ => crossingBy_finishCoder hinput hunion accum v
  have hvalue : (GroupedValues.mk comb sides).slotValue input bundles.flatten s =
      ((valuesAt s bundles.flatten).mapM fun v => (Grouping.crossingBy input v).map .input) >>=
        fun ys => (comb.finish.apply s.1 (sides.resolve s.2) ys).inRun := by
    rw [mapM_map_results, GroupedValues.slotValue]
    cases (valuesAt s bundles.flatten).mapM (Grouping.crossingBy input) with
    | error e => rfl
    | ok vs => exact congrArg Checked.inRun (comb.finish_apply_inputs s.1 _ vs).symm
  rw [hvalue, GroupedValues.slotValue, valuesAt_sent_of_cold hmem hs, List.mapM_map]
  apply hcross.bind
  intro ys ys' hys
  rw [List.forall₂_eq_eq_eq] at hys
  exact hys ▸ .refl _

variable [KeyBytes κ.Carrier]

theorem recordsAt_of_cold (hinput : ∀ i, input = some i → i.CustomsAppend)
    (hunion : input = none → r.find? (.inputOrAccum ι α) = none) {accum : Coder α}
    {fewKeys : Bool} {n : Nat} {out out' : List (Windowed (κ.Carrier × ω.Carrier))}
    (hout : ((GroupedValues.mk comb sides).runGrouped input fewKeys n bundles).map List.flatten =
      .ok out)
    (hout' : (runFanOut comb sides spread seed input (finishCoder? r input accum) fewKeys n
      bundles).map List.flatten = .ok out')
    {s : κ.Carrier × Window} (hs : cold spread s.1 = true) : recordsAt s out' = recordsAt s out := by
  rw [runFanOut, map_bind, bind_eq_ok_iff] at hout'
  obtain ⟨combined, hcombined, hout'⟩ := hout'
  have hmem := (((GroupedValues.mk comb.shard sides).runGrouped_runsPerSlot input false n
    ((splitBundles spread seed bundles).map hotPart)).onePerSlot combined.flatten
      (by rw [hcombined]; rfl)).mem_iff
  have hone := ((GroupedValues.mk comb sides).runGrouped_runsPerSlot input fewKeys n
    bundles).onePerSlot out hout
  have hone' := (((GroupedValues.mk comb.finish sides).runGrouped_runsPerSlot
    (finishCoder? r input accum) fewKeys n
      (sent spread seed bundles combined)).onePerSlot out' hout').imp
        (mem_slotsOf_sent hmem) fun _ _ _ hb => hb
  apply hone'.recordsAt_eq hone
  intro b c hb hc
  have hvalue := slotValue_of_cold comb sides hinput hunion accum hmem hs
  rw [hb, hc] at hvalue
  cases hvalue with
  | ok heq => exact heq

theorem runGrouped_of_cold (comb : KeyedCombiner κ ι α ω) (sides : SideInputs B)
    (hinput : ∀ i, input = some i → i.CustomsAppend)
    (hunion : input = none → r.find? (.inputOrAccum ι α) = none) (accum : Coder α)
    (fewKeys : Bool) (n : Nat) (hcold : ∀ w ∈ bundles.flatten, cold spread w.value.1 = true) :
    RunsPerSlot (slotsOf bundles.flatten)
      ((GroupedValues.mk comb sides).slotValue input bundles.flatten)
      ((runFanOut comb sides spread seed input (finishCoder? r input accum) fewKeys n bundles).map
        List.flatten) := by
  have hslot : ∀ s ∈ slotsOf bundles.flatten, cold spread s.1 = true := by
    intro s hs
    obtain ⟨w, hw, rfl⟩ := List.mem_map.mp hs
    exact hcold w hw
  have hshards := (GroupedValues.mk comb.shard sides).runGrouped_runsPerSlot input false n
    ((splitBundles spread seed bundles).map hotPart)
  rw [runFanOut, map_bind]
  apply RunsPerSlot.of_bind
  · intro _
    rw [← exists_map_eq_ok_iff]
    apply hshards.ok_iff.mpr
    -- there is no shard that could fail
    intro t ht
    obtain ⟨hhot, hs⟩ := mem_slotsOf_hotRecords.mp (List.mem_map_of_mem ht)
    rw [hslot _ hs] at hhot
    cases hhot
  · intro combined hcombined
    have hmem := (hshards.onePerSlot combined.flatten (by rw [hcombined]; rfl)).mem_iff
    apply (GroupedValues.runGrouped_runsPerSlot _ _ fewKeys n _).congr (mem_slotsOf_sent hmem)
    intro s hs
    exact slotValue_of_cold comb sides hinput hunion accum hmem
      (hslot s ((mem_slotsOf_sent hmem s).mp hs))

end FanOut

namespace PerKey
variable [DecidableEq κ.Carrier] [KeyBytes κ.Carrier] {comb : KeyedCombiner κ ι α ω}
  {spread : Spread κ.Carrier} {seed : ShardSeed} {sides : SideInputs B} {fewKeys : Bool}
  {c : Collection (.pair κ ι)} {bundles : List (List (Windowed (κ.Carrier × ι.Carrier)))}
  {accum : Coder α}

/-- Where every key is cold, fan-out changes nothing but the order of the records, for every
combiner. -/
theorem fanOut_agrees_with_direct_of_cold (hc : c.Gives p mode (.ok bundles))
    (haccum : comb.accumulatorCoder p.coders (c.keyCoderIn p.coders) (c.valueCoderIn p.coders) =
      .ok accum)
    (hinput : ∀ i, c.valueCoderIn p.coders = some i → i.CustomsAppend)
    (hunion : c.valueCoderIn p.coders = none → p.coders.find? (.inputOrAccum ι α) = none)
    (hcold : ∀ w ∈ bundles.flatten, spread w.value.1 ≤ 1) :
    Build.Agree (comb.AdmitsOutput p.coders)
      (c.apply (transform { combiner := comb, sides := sides, fewKeys := fewKeys }))
      (c.apply (transform
        { combiner := comb, sides := sides, fewKeys := fewKeys, spread := some spread,
          seed := seed })) p mode := by
  apply (direct_yields comb sides fewKeys hc).agree
    (FanOut.expand_yields comb spread seed sides fewKeys hc haccum)
  exact (GroupedValues.runGrouped_runsPerSlot _ _ fewKeys mode.parts bundles).corresponds
    (FanOut.runGrouped_of_cold comb sides hinput hunion accum fewKeys mode.parts
      fun w hw => decide_eq_true (hcold w hw))

/-- Fan-out leaves the records of cold keys what they are on the direct path, for every combiner,
whatever the hot keys are and whatever a value coder that only writes makes of the values. -/
theorem fanOut_keeps_cold_keys (hc : c.Gives p mode (.ok bundles))
    (haccum : comb.accumulatorCoder p.coders (c.keyCoderIn p.coders) (c.valueCoderIn p.coders) =
      .ok accum)
    (hinput : ∀ i, c.valueCoderIn p.coders = some i → i.CustomsAppend)
    (hunion : c.valueCoderIn p.coders = none → p.coders.find? (.inputOrAccum ι α) = none)
    {d d' : Collection (.pair κ ω)} {q q' : Pipeline B}
    (hd : Build.on (c.apply (transform { combiner := comb, sides := sides, fewKeys := fewKeys }))
      p = (.ok d, q))
    (hd' : Build.on (c.apply (transform
      { combiner := comb, sides := sides, fewKeys := fewKeys, spread := some spread,
        seed := seed })) p = (.ok d', q'))
    {out out' : List (Windowed (κ.Carrier × ω.Carrier))}
    (hout : q.collect mode (.pair κ ω) d.node = .ok out)
    (hout' : q'.collect mode (.pair κ ω) d'.node = .ok out') :
    (∀ s : κ.Carrier × Window, spread s.1 ≤ 1 → recordsAt s out' = recordsAt s out) ∧
    (∀ s ∈ slotsOf bundles.flatten, ∃ w, recordsAt s out = [w]) ∧
    ((∀ w ∈ bundles.flatten, spread w.value.1 ≤ 1) → out'.Perm out) := by
  have hrun := ((direct_yields comb sides fewKeys hc).collect_eq hd).symm.trans hout
  have hrun' := ((FanOut.expand_yields comb spread seed sides fewKeys hc haccum).collect_eq
    hd').symm.trans hout'
  refine ⟨?_, ?_, ?_⟩
  · intro s hs
    exact FanOut.recordsAt_of_cold hinput hunion hrun hrun' (decide_eq_true hs)
  · intro s hs
    exact ((GroupedValues.runGrouped_runsPerSlot _ _ _ _ _).onePerSlot out hrun).recordsAt_of_mem hs
  · intro hcold
    have hagree := (fanOut_agrees_with_direct_of_cold hc haccum hinput hunion hcold).collected
      d q d' q' hd hd'
    rw [hout, hout'] at hagree
    cases hagree with
    | ok hperm => exact hperm.symm

/-- The words with a value coder that reads back five more than was written. -/
def skewedWords : Collection (.pair .string .uint32 : Sample.Ty) :=
  wordSource.1.setCoder (.pair .string (.custom (Sample.Scalar.bumpCoder .uint32 5)))

def spreadA : Spread String := fun k => if k = "a" then 2 else 0

def skewedDigits (spread : Option (Spread String)) :
    Except FlowError (Collection (.pair .string .uint32 : Sample.Ty)) × Pipeline Sample.Own :=
  Build.on (skewedWords.apply (transform
    { combiner := digits, spread := spread, seed := fun _ => 18446744073709551615 })) wordSource.2

theorem fanOut_keeps_cold_keys_of_words : ∃ d d' out out',
    skewedDigits none = (.ok d, (skewedDigits none).2) ∧
    skewedDigits (some spreadA) = (.ok d', (skewedDigits (some spreadA)).2) ∧
    (skewedDigits none).2.collect (.parallel 2) (.pair .string .uint32) d.node = .ok out ∧
    (skewedDigits (some spreadA)).2.collect (.parallel 2) (.pair .string .uint32) d'.node =
      .ok out' ∧
    recordsAt ("b", .global) out' = recordsAt ("b", .global) out := by
  have hgives : skewedWords.Gives wordSource.2 (.parallel 2)
      (.ok (splitInto (min 2 (max words.length 1)) words)) :=
    (wordSource_gives (.parallel 2)).of_node rfl
  have hinput (i : Coder (.uint32 : Sample.Ty))
      (hi : skewedWords.valueCoderIn wordSource.2.coders = some i) : i.CustomsAppend := by
    cases hi
    exact fun a => Sink.Appends.write _
  obtain ⟨d, hd, hnode⟩ : ∃ d, skewedDigits none = (.ok d, (skewedDigits none).2) ∧ d.node = 2 :=
    ⟨_, rfl, rfl⟩
  obtain ⟨d', hd', hnode'⟩ : ∃ d, skewedDigits (some spreadA) =
      (.ok d, (skewedDigits (some spreadA)).2) ∧ d.node = 9 := ⟨_, rfl, rfl⟩
  obtain ⟨out, hout⟩ : ∃ out, (skewedDigits none).2.collect (.parallel 2)
      (.pair .string .uint32) d.node = .ok out := by
    rw [hnode]
    exact exists_of_isOk (by decide +kernel)
  obtain ⟨out', hout'⟩ : ∃ out, (skewedDigits (some spreadA)).2.collect (.parallel 2)
      (.pair .string .uint32) d'.node = .ok out := by
    rw [hnode']
    exact exists_of_isOk (by decide +kernel)
  have hwords := fanOut_keeps_cold_keys hgives rfl hinput nofun hd hd' hout hout'
  exact ⟨d, d', out, out', hd, hd', hout, hout', hwords.1 ("b", .global) (by decide)⟩

end PerKey
end KeyedFlow
