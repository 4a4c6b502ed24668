import KeyedFlow.Proofs.Collections
import KeyedFlow.Proofs.GroupByKey
import KeyedFlow.Transform.GroupedValues

/-!
A grouping and the combine of its groups. Together they run once per slot: the values of the slot
cross the barrier, are folded in order with the context of the slot's window, and the output is
emitted at the end of the window. Building the two may only be refused over the coder of the output.
-/

set_option autoImplicit false

namespace KeyedFlow
open Outcome
variable {B : Type} [TypeFamily B] {κ ν ι α ω : ElemType B} {p : Pipeline B} {mode : ExecMode}

namespace Collection

/-- The coder of values when none is asked for: the collection's own, else the registered one. -/
def valueCoderIn (c : Collection (.pair κ ν)) (r : CoderRegistry B) : Option (Coder ν) :=
  c.valueCoder?.orElse fun _ => r.find? ν

def keyCoderIn (c : Collection (.pair κ ν)) (r : CoderRegistry B) : Option (Coder κ) :=
  c.keyCoder?.orElse fun _ => r.find? κ

theorem groupByKey_yields [DecidableEq κ.Carrier] [KeyBytes κ.Carrier]
    {c : Collection (.pair κ ν)}
    {x : Except RunError (List (List (Windowed (κ.Carrier × ν.Carrier))))}
    (h : c.Gives p mode x) (opts : GroupingOptions ν) {coder : Option (Coder ν)}
    (hcoder : (opts.valueCoder.orElse fun _ => c.valueCoder?).orElse (fun _ => p.coders.find? ν) =
      coder) :
    (c.groupByKey opts).Yields p mode
      (x >>= Grouping.groupPairs coder opts.fewKeys mode.parts) := by
  subst hcoder
  apply yields_of_input h rfl rfl rfl
  cases x with
  | error e => rfl
  | ok bs =>
    change groupingOp κ ν _ opts.fewKeys mode.parts [bs.map (Bundle.of (.pair κ ν))].flatten = _
    rw [List.flatten_singleton, Grouping.groupingOp_map_of]
    rfl

end Collection

/-- Deriving an output coder only fails for want of one. -/
def KeyedCombiner.AdmitsOutput (c : KeyedCombiner κ ι α ω) (r : CoderRegistry B) : Prop :=
  ∀ k i e, c.outputCoder r k i = .error e → e.isCannotProvide = true

theorem isCannotProvide_of_coderFor {r : CoderRegistry B} {τ : ElemType B} {e : CoderError}
    (h : r.coderFor τ = .error e) : e.isCannotProvide = true := by
  unfold CoderRegistry.coderFor at h
  split at h
  · cases h
  · cases h
    rfl

theorem isCannotProvide_of_inputOrRegistered {r : CoderRegistry B} {τ : ElemType B}
    {c : Option (Coder τ)} {e : CoderError} (h : inputOrRegistered r τ c = .error e) :
    e.isCannotProvide = true := by
  cases c with
  | some c => cases h
  | none => exact isCannotProvide_of_coderFor h

section Binding
variable {out d : Collection (.pair κ ω)} {key : Except CoderError (Coder κ)}
  {output : Except CoderError (Coder ω)}

theorem eq_of_bindPairCoder (h : bindPairCoder out key output = .ok d) :
    (∃ k o, key = .ok k ∧ output = .ok o ∧ d = out.setCoder (.pair k o)) ∨ d = out := by
  unfold bindPairCoder at h
  split at h
  · rename_i k o
    cases h
    exact .inl ⟨k, o, rfl, rfl, rfl⟩
  all_goals
    split at h
    · cases h
      exact .inr rfl
    · cases h

theorem node_of_bindPairCoder (h : bindPairCoder out key output = .ok d) : d.node = out.node := by
  obtain ⟨k, o, _, _, rfl⟩ | rfl := eq_of_bindPairCoder h
  · rfl
  · rfl

theorem exists_bindPairCoder (out : Collection (.pair κ ω))
    (hkey : ∀ e, key = .error e → e.isCannotProvide = true)
    (hout : ∀ e, output = .error e → e.isCannotProvide = true) :
    ∃ d, bindPairCoder out key output = .ok d := by
  unfold bindPairCoder
  split
  · exact ⟨_, rfl⟩
  · exact ⟨_, if_pos (hout _ rfl)⟩
  · exact ⟨_, if_pos (hkey _ rfl)⟩
  · exact ⟨_, if_pos (by rw [hkey _ rfl, Bool.true_or])⟩

end Binding

namespace GroupedValues
variable {g : GroupedValues κ ι α ω}

theorem record_eq_ok_iff {w : Windowed (κ.Carrier × List ι.Carrier)}
    {u : Windowed (κ.Carrier × ω.Carrier)} :
    g.record w = .ok u ↔ ∃ b ts,
      g.combiner.apply w.value.1 (g.sides.resolve w.window) w.value.2 = .ok b ∧
        w.window.maxTimestamp = .ok ts ∧ u = ⟨(w.value.1, b), ts, w.window⟩ := by
  simp only [record, bind_eq_ok_iff, Except.ok.injEq]
  constructor
  · rintro ⟨b, hb, ts, hts, rfl⟩
    exact ⟨b, ts, hb, hts, rfl⟩
  · rintro ⟨b, ts, hb, hts, rfl⟩
    exact ⟨b, hb, ts, hts, rfl⟩

theorem on_expand (g : GroupedValues κ ι α ω) (c : Collection (.pair κ (.list ι)))
    (p : Pipeline B) : (g.expand c).on p = (bindPairCoder (c.mapWindowed (.pair κ ω) g.record p).1
      (inputOrRegistered p.coders κ c.keyCoder?)
      (g.combiner.outputCoder p.coders c.keyCoder? (c.valueCoder?.bind Coder.elem?)),
      (c.mapWindowed (.pair κ ω) g.record p).2) :=
  Build.on_ofExcept _ _

theorem expand_yields {c : Collection (.pair κ (.list ι))}
    {x : Except RunError (List (List (Windowed (κ.Carrier × List ι.Carrier))))}
    (h : c.Gives p mode x) :
    Build.Yields (g.combiner.AdmitsOutput p.coders) (g.expand c) p mode
      (x >>= runBundles fun _ xs => xs.mapM g.record) := by
  have hout := Collection.chain_yields (τ := .pair κ ω) h .windowed fun _ xs => xs.mapM g.record
  rw [Build.Yields, on_expand]
  cases hb : bindPairCoder (c.mapWindowed (.pair κ ω) g.record p).1
      (inputOrRegistered p.coders κ c.keyCoder?)
      (g.combiner.outputCoder p.coders c.keyCoder? (c.valueCoder?.bind Coder.elem?)) with
  | ok d =>
    have hnode := node_of_bindPairCoder hb
    refine ⟨d, _, hout.extends_, ⟨hout.gives.wellFormed, ?_, ?_⟩, .inl rfl⟩
    · rw [hnode]
      exact hout.gives.built
    · rw [hnode]
      exact hout.gives.evaluate
  | error e =>
    refine ⟨_, _, hout.extends_, hout.gives, .inr ⟨?_, e, rfl⟩⟩
    intro hadmits
    obtain ⟨d, hd⟩ := exists_bindPairCoder (c.mapWindowed (.pair κ ω) g.record p).1
      (fun e he => isCannotProvide_of_inputOrRegistered he) (hadmits _ _)
    cases hb.symm.trans hd

section Grouping
variable [DecidableEq κ.Carrier] [KeyBytes κ.Carrier]

/-- What one slot of `rs` combines to, its values crossing the barrier by `coder`. -/
def slotValue (g : GroupedValues κ ι α ω) (coder : Option (Coder ι))
    (rs : List (Windowed (κ.Carrier × ι.Carrier))) (s : κ.Carrier × Window) :
    Except RunError ω.Carrier := do
  let vs ← (valuesAt s rs).mapM (Grouping.crossingBy coder)
  (g.combiner.apply s.1 (g.sides.resolve s.2) vs).inRun

def runGrouped (g : GroupedValues κ ι α ω) (coder : Option (Coder ι)) (fewKeys : Bool) (n : Nat)
    (bundles : List (List (Windowed (κ.Carrier × ι.Carrier)))) :
    Except RunError (List (List (Windowed (κ.Carrier × ω.Carrier)))) := do
  let groups ← Grouping.groupPairs coder fewKeys n bundles
  runBundles (fun _ xs => xs.mapM g.record) groups

theorem runGrouped_runsPerSlot (g : GroupedValues κ ι α ω) (coder : Option (Coder ι))
    (fewKeys : Bool) (n : Nat) (bundles : List (List (Windowed (κ.Carrier × ι.Carrier)))) :
    RunsPerSlot (slotsOf bundles.flatten) (g.slotValue coder bundles.flatten)
      ((g.runGrouped coder fewKeys n bundles).map List.flatten) := by
  have hgroups := Grouping.groupPairs_runsPerSlot coder fewKeys n bundles
  rw [runGrouped, map_bind]
  apply RunsPerSlot.of_bind
  · intro hall
    rw [← exists_map_eq_ok_iff, hgroups.ok_iff]
    intro s hs
    obtain ⟨⟨b, hb⟩, hend⟩ := hall s hs
    obtain ⟨vs, hvs, _⟩ := bind_eq_ok_iff.mp hb
    exact ⟨⟨vs, hvs⟩, hend⟩
  · intro groups hout
    have hone := hgroups.onePerSlot groups.flatten (by rw [hout]; rfl)
    rw [runBundles_mapM]
    have hrun : RunsPerSlot (groups.flatten.map Windowed.slot) (g.slotValue coder bundles.flatten)
        (groups.flatten.mapM fun w => (g.record w).inRun) := by
      apply RunsPerSlot.of_mapM hone.nodup
      intro w hw u
      have hv : g.slotValue coder bundles.flatten w.slot =
          (g.combiner.apply w.value.1 (g.sides.resolve w.window) w.value.2).inRun := by
        rw [slotValue, hone.value w hw]
        rfl
      simp only [inRun_eq_ok_iff, record_eq_ok_iff, hv]
      rfl
    exact hrun.congr hone.mem_iff fun s _ => .refl _

theorem groupThenExpand_yields {c : Collection (.pair κ ι)}
    {x : Except RunError (List (List (Windowed (κ.Carrier × ι.Carrier))))}
    (h : c.Gives p mode x) (opts : GroupingOptions ι) {coder : Option (Coder ι)}
    (hcoder : (opts.valueCoder.orElse fun _ => c.valueCoder?).orElse (fun _ => p.coders.find? ι) =
      coder) :
    Build.Yields (g.combiner.AdmitsOutput p.coders)
      (do
        let grouped ← Build.extend (c.groupByKey opts)
        g.expand grouped) p mode (x >>= g.runGrouped coder opts.fewKeys mode.parts) := by
  have hgrouped := Collection.groupByKey_yields h opts hcoder
  have hbuild := expand_yields (g := g) hgrouped.gives
  rw [hgrouped.extends_.coders, bind_assoc] at hbuild
  exact hbuild.of_eq hgrouped.extends_ rfl

end Grouping
end GroupedValues
end KeyedFlow
