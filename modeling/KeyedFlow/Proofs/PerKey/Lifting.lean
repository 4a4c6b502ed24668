import KeyedFlow.Proofs.Combiner.Laws
import KeyedFlow.Proofs.Combiner.Partials
import KeyedFlow.Proofs.Combiner.Sums
import KeyedFlow.Proofs.PerKey.Direct

/-!
The lifted path of a combine per key. Every bundle sends one partial accumulator for each of its
slots, so a slot receives the partials of its bundles in the order of the bundles; each stands for
the slot's values in its bundle, and together they stand for all values of the slot in order. A
mergeable combiner therefore gives every slot the output of the direct path. Commutativity is not
needed.
-/

set_option autoImplicit false

namespace KeyedFlow
open Outcome
variable {B : Type} [TypeFamily B] {κ ι α ω : ElemType B} {p : Pipeline B} {mode : ExecMode}

namespace KeyedCombiner

def unionCoder? (comb : KeyedCombiner κ ι α ω) (r : CoderRegistry B) (key : Option (Coder κ))
    (input : Option (Coder ι)) : Option (Coder (.inputOrAccum ι α)) := do
  let i ← input
  let a ← (comb.accumulatorCoder r key input).toOption
  some (Coder.inputOrAccum i a)

/-- The coder by which partials cross the barrier: the one of inputs and accumulators, else the
registered one. -/
def shuffleCoder? (comb : KeyedCombiner κ ι α ω) (r : CoderRegistry B) (key : Option (Coder κ))
    (input : Option (Coder ι)) : Option (Coder (.inputOrAccum ι α)) :=
  (comb.unionCoder? r key input).orElse fun _ => r.find? (.inputOrAccum ι α)

end KeyedCombiner

namespace Lifting
variable [DecidableEq κ.Carrier] {comb : KeyedCombiner κ ι α ω} {sides : SideInputs B}
  {R : AccumEquiv κ α}

theorem exists_stands (hlaws : comb.Mergeable R) (s : κ.Carrier × Window)
    {bundles : List (List (Windowed (κ.Carrier × ι.Carrier)))}
    {sent : List (List (Windowed (κ.Carrier × InputOrAccum ι.Carrier α.Carrier)))}
    (h : List.Forall₂ (fun b out => combineBundle comb sides b = .ok out) bundles sent) :
    ∃ xss, List.Forall₂ ((comb.bind none s.1 (sides.resolve s.2)).Stands
        (R s.1 (sides.resolve s.2))) (valuesAt s sent.flatten) xss ∧
      xss.flatten = valuesAt s bundles.flatten := by
  induction h with
  | nil => exact ⟨[], .nil, rfl⟩
  | @cons b out _ _ hb _ ih =>
    obtain ⟨xss, hxss, hflat⟩ := ih
    have hone := (combineBundle_runsPerSlot comb sides b).onePerSlot out hb
    by_cases hs : s ∈ slotsOf b
    · obtain ⟨x, hx, hout⟩ := hone.valuesAt_of_mem hs
      obtain ⟨a, c, ha, hc, rfl⟩ := partialAt_eq_ok_iff.mp hx
      have hstands := (hlaws s.1 (sides.resolve s.2)).stands_compact
        (bind_eq_ok_iff.mpr ⟨a, ha, hc⟩)
      refine ⟨valuesAt s b :: xss, ?_, ?_⟩
      · rw [List.flatten_cons, valuesAt_append, hout]
        exact .cons hstands hxss
      · rw [List.flatten_cons, List.flatten_cons, valuesAt_append, hflat]
    · refine ⟨xss, ?_, ?_⟩
      · rwa [List.flatten_cons, valuesAt_append, hone.valuesAt_of_not_mem hs, List.nil_append]
      · rw [List.flatten_cons, valuesAt_append, valuesAt_eq_nil hs, List.nil_append, hflat]

theorem mem_slotsOf_sent {s : κ.Carrier × Window}
    {bundles : List (List (Windowed (κ.Carrier × ι.Carrier)))}
    {sent : List (List (Windowed (κ.Carrier × InputOrAccum ι.Carrier α.Carrier)))}
    (h : List.Forall₂ (fun b out => combineBundle comb sides b = .ok out) bundles sent) :
    s ∈ slotsOf sent.flatten ↔ s ∈ slotsOf bundles.flatten := by
  induction h with
  | nil => rfl
  | @cons b out _ _ hb _ ih =>
    have hone := (combineBundle_runsPerSlot comb sides b).onePerSlot out hb
    simp only [slotsOf, List.flatten_cons, List.map_append, List.mem_append] at ih ⊢
    rw [ih]
    exact or_congr_left (hone.mem_iff s)

theorem exists_combineBundle (hlaws : comb.Mergeable R)
    {bundles : List (List (Windowed (κ.Carrier × ι.Carrier)))}
    (hall : ∀ s ∈ slotsOf bundles.flatten,
      (∃ o, PerKey.reference comb sides bundles.flatten s = .ok o) ∧
        ∃ ts, s.2.maxTimestamp = .ok ts)
    {b : List (Windowed (κ.Carrier × ι.Carrier))} (hb : b ∈ bundles) :
    ∃ out, combineBundle comb sides b = .ok out := by
  rw [(combineBundle_runsPerSlot comb sides b).ok_iff]
  intro s hs
  have hmem : s ∈ slotsOf bundles.flatten := by
    obtain ⟨w, hw, rfl⟩ := List.mem_map.mp hs
    exact List.mem_map_of_mem (List.mem_flatten.mpr ⟨b, hb, hw⟩)
  obtain ⟨⟨o, ho⟩, hend⟩ := hall s hmem
  refine ⟨?_, hend⟩
  have hlaw := hlaws s.1 (sides.resolve s.2)
  obtain ⟨total, htotal, _⟩ := bind_eq_ok_iff.mp ho
  rw [valuesAt_flatten] at htotal
  obtain ⟨a, ha⟩ := hlaw.exists_fold_of_mem ⟨total, htotal⟩ (List.mem_map_of_mem hb)
  obtain ⟨a', ha', _⟩ := (hlaw.compact_equiv a).ok_right
  exact ⟨.accum a', partialAt_eq_ok_iff.mpr ⟨a, a', ha, ha', rfl⟩⟩

theorem exists_crossing_sent {coder : Option (Coder (.inputOrAccum ι α))}
    (hcross : ∀ a, ∃ b, Coder.Crosses coder (.accum a) (.accum b) ∧ ∀ k ctx, R k ctx a b)
    (k : κ.Carrier) (ctx : CombineContext B)
    {bundles : List (List (Windowed (κ.Carrier × ι.Carrier)))}
    {sent : List (List (Windowed (κ.Carrier × InputOrAccum ι.Carrier α.Carrier)))}
    (h : List.Forall₂ (fun b out => combineBundle comb sides b = .ok out) bundles sent)
    {u : Windowed (κ.Carrier × InputOrAccum ι.Carrier α.Carrier)} (hu : u ∈ sent.flatten) :
    ∃ y, Grouping.crossingBy coder u.value.2 = .ok y ∧
      InputOrAccum.Rel (R k ctx) u.value.2 y := by
  obtain ⟨out, hout, hu⟩ := List.mem_flatten.mp hu
  obtain ⟨b, _, hb⟩ := mem_of_forall₂ h hout
  have hone := (combineBundle_runsPerSlot comb sides b).onePerSlot out hb
  obtain ⟨_, a, _, _, hua⟩ := partialAt_eq_ok_iff.mp (hone.value u hu)
  obtain ⟨a', hcross, hrel⟩ := hcross a
  rw [hua]
  exact ⟨.accum a', Grouping.crossingBy_eq_ok_iff.mpr hcross, .accum (hrel k ctx)⟩

variable [KeyBytes κ.Carrier]

/-- Combining every bundle in advance gives every slot the output of combining it at once. -/
theorem runGrouped_lifted (hlaws : comb.Mergeable R)
    {coder : Option (Coder (.inputOrAccum ι α))} (fewKeys : Bool) (n : Nat)
    {bundles : List (List (Windowed (κ.Carrier × ι.Carrier)))}
    (hcross : ∀ a, ∃ b, Coder.Crosses coder (.accum a) (.accum b) ∧ ∀ k ctx, R k ctx a b) :
    RunsPerSlot (slotsOf bundles.flatten) (PerKey.reference comb sides bundles.flatten)
      ((runBundles (fun _ xs => combineBundle comb sides xs) bundles >>=
        (GroupedValues.mk comb.finish sides).runGrouped coder fewKeys n).map List.flatten) := by
  rw [map_bind, runBundles_eq_mapM]
  apply RunsPerSlot.of_bind
  · intro hall
    apply exists_mapM_eq_ok_iff.mpr
    intro b hb
    exact (exists_combineBundle hlaws hall hb).imp fun _ => inRun_eq_ok_iff.mpr
  · intro sent hsent
    have hsent : List.Forall₂ (fun b out => combineBundle comb sides b = .ok out) bundles sent :=
      (mapM_eq_ok_iff.mp hsent).imp fun _ _ => inRun_eq_ok_iff.mp
    apply (GroupedValues.runGrouped_runsPerSlot _ coder fewKeys n sent).congr
    · exact fun s => mem_slotsOf_sent hsent
    · intro s _
      obtain ⟨xss, hxss, hflat⟩ := exists_stands hlaws s hsent
      rw [PerKey.reference_eq_apply, ← hflat]
      apply KeyedCombiner.finish_apply_of_rel (hlaws s.1 (sides.resolve s.2)) hxss
      intro x hx
      obtain ⟨u, hu, _, rfl⟩ := mem_valuesAt.mp hx
      exact exists_crossing_sent hcross s.1 (sides.resolve s.2) hsent hu

end Lifting

namespace PerKey
variable [DecidableEq κ.Carrier] [KeyBytes κ.Carrier]

theorem lifted_yields (comb : KeyedCombiner κ ι α ω) (sides : SideInputs B) (fewKeys : Bool)
    {c : Collection (.pair κ ι)}
    {x : Except RunError (List (List (Windowed (κ.Carrier × ι.Carrier))))} (h : c.Gives p mode x) :
    Build.Yields (comb.AdmitsOutput p.coders)
      (c.apply (transform
        { combiner := comb, sides := sides, fewKeys := fewKeys, lifting := true })) p mode
      (x >>= fun bundles =>
        runBundles (fun _ xs => Lifting.combineBundle comb sides xs) bundles >>=
          (GroupedValues.mk comb.finish sides).runGrouped
            (comb.shuffleCoder? p.coders c.keyCoder? (c.valueCoderIn p.coders)) fewKeys
            mode.parts) := by
  have hsent := Collection.chain_yields (τ := .pair κ (.inputOrAccum ι α)) h .bundle
    fun _ xs => Lifting.combineBundle comb sides xs
  have hcoder : ((comb.unionCoder? p.coders c.keyCoder? (c.valueCoderIn p.coders)).orElse
      fun _ => none).orElse (fun _ => p.coders.find? (.inputOrAccum ι α)) =
        comb.shuffleCoder? p.coders c.keyCoder? (c.valueCoderIn p.coders) := by
    rw [KeyedCombiner.shuffleCoder?]
    cases comb.unionCoder? p.coders c.keyCoder? (c.valueCoderIn p.coders) <;> rfl
  have hbuild := GroupedValues.groupThenExpand_yields (g := ⟨comb.finish, sides⟩) hsent.gives
    ⟨fewKeys, comb.unionCoder? p.coders c.keyCoder? (c.valueCoderIn p.coders)⟩ hcoder
  rw [bind_assoc] at hbuild
  exact (hbuild.imp KeyedCombiner.AdmitsOutput.finish).of_eq hsent.extends_ rfl

/-- Lifting changes nothing but the order of the records, for every mergeable combiner. -/
theorem lifted_agrees_with_direct {comb : KeyedCombiner κ ι α ω} {R : AccumEquiv κ α}
    (hlaws : comb.Mergeable R) (sides : SideInputs B) (fewKeys : Bool) {c : Collection (.pair κ ι)}
    {bundles : List (List (Windowed (κ.Carrier × ι.Carrier)))} (hc : c.Gives p mode (.ok bundles))
    (hvalues : ∀ w ∈ bundles.flatten,
      Coder.Crosses (c.valueCoderIn p.coders) w.value.2 w.value.2)
    (haccums : ∀ a, ∃ b, Coder.Crosses
      (comb.shuffleCoder? p.coders c.keyCoder? (c.valueCoderIn p.coders)) (.accum a) (.accum b) ∧
        ∀ k ctx, R k ctx a b) :
    Build.Agree (comb.AdmitsOutput p.coders)
      (c.apply (transform { combiner := comb, sides := sides, fewKeys := fewKeys }))
      (c.apply (transform
        { combiner := comb, sides := sides, fewKeys := fewKeys, lifting := true })) p mode :=
  (direct_yields comb sides fewKeys hc).agree (lifted_yields comb sides fewKeys hc)
    ((runGrouped_reference comb sides fewKeys mode.parts hvalues).corresponds
      (Lifting.runGrouped_lifted hlaws fewKeys mode.parts haccums))

def firstNonzero : KeyedCombiner (.string : Sample.Ty) .uint32 .uint32 .uint32 :=
  (Combiner.sum .uint32 0 fun a b => .ok (if a = 0 then b else a)).keyed .string

theorem firstNonzero_mergeable : firstNonzero.Mergeable fun _ _ => (· = ·) := by
  apply Combiner.Mergeable.keyed
  apply Combiner.sum_mergeable
  refine ⟨fun a => rfl, ?_, ?_⟩
  · intro a
    change Except.ok (if a = 0 then 0 else a) = _
    split
    · rename_i ha
      rw [ha]
    · rfl
  · intro a b c
    refine .ok ?_
    by_cases ha : a = 0 <;> simp [ha]

theorem lifted_agrees_with_direct_on_words : ∃ d q d' q',
    Build.on (wordSource.1.apply (transform { combiner := firstNonzero })) wordSource.2 =
      (.ok d, q) ∧
    Build.on (wordSource.1.apply (transform { combiner := firstNonzero, lifting := true }))
      wordSource.2 = (.ok d', q') ∧
    q.collect (.parallel 2) (.pair .string .uint32) d.node =
      .ok [⟨("b", 2), Timestamp.endOfTime, .global⟩, ⟨("a", 1), Timestamp.endOfTime, .global⟩] ∧
    q'.collect (.parallel 2) (.pair .string .uint32) d'.node =
      .ok [⟨("b", 2), Timestamp.endOfTime, .global⟩, ⟨("a", 1), Timestamp.endOfTime, .global⟩] ∧
    Corresponds List.Perm (q.collect (.parallel 2) (.pair .string .uint32) d.node)
      (q'.collect (.parallel 2) (.pair .string .uint32) d'.node) := by
  have hwords := lifted_agrees_with_direct firstNonzero_mergeable .none false
    (wordSource_gives (.parallel 2)) (fun w _ => (Coder.uint32_readsBack w.value.2).crosses)
    fun a => ⟨a, (Coder.uint32_readsBack a).accum.crosses, fun _ _ => rfl⟩
  exact ⟨_, _, _, _, rfl, rfl, by decide +kernel, by decide +kernel,
    hwords.collected _ _ _ _ rfl rfl⟩

end PerKey
end KeyedFlow
