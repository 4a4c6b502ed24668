import KeyedFlow.Proofs.Globally
import KeyedFlow.Proofs.PerKey.Lifting
import KeyedFlow.Proofs.Typing.Collections

/-!
Transforms keep the windowing. A combine emits its results at the end of the windows they belong to,
which changes timestamps but no window. Fan-out gives the shards a strategy of their own and hands
the partials back to that of the input, and the guard of a default is only built in the global
window, so on every path the strategy of the result tells where its elements lie.
-/

set_option autoImplicit false

namespace KeyedFlow
open Outcome
variable {B : Type} [TypeFamily B] {σ τ κ ν ι α ω : ElemType B} {p q : Pipeline B} {f : WindowFn}

theorem GroupedValues.expand_preserves (hp : p.Typed) {c : Collection (.pair κ (.list ι))}
    (h : c.WindowedBy p f) (g : GroupedValues κ ι α ω) :
    Build.Preserves (g.expand c) p fun d q => d.WindowedBy q f := by
  have hout : (c.mapWindowed (.pair κ ω) g.record).Windows p f := by
    apply Collection.chain_windows hp h
    apply Collection.moves_mapM
    intro u v hu hv
    obtain ⟨b, ts, _, hts, rfl⟩ := record_eq_ok_iff.mp hv
    exact hu.at_end rfl hts
  apply Build.Preserves.get
  apply hout.preserves.bind
  intro d q _ hq hd
  apply Build.Preserves.ofExcept hq
  intro e he
  exact hd.of_same (node_of_bindPairCoder he) (by rw [strategy_of_bindPairCoder he])

namespace PerKey

theorem moves_combineBundle [DecidableEq κ.Carrier] (comb : KeyedCombiner κ ι α ω)
    (sides : SideInputs B) :
    Moves f f fun _ xs => Lifting.combineBundle comb sides xs := by
  apply moves_of_follows
  intro _ xs ys hys v hv
  have hone := (Lifting.combineBundle_runsPerSlot comb sides xs).onePerSlot ys hys
  obtain ⟨u, hu, hslot⟩ := List.mem_map.mp ((hone.mem_iff v.slot).mp (List.mem_map_of_mem hv))
  exact ⟨u, hu, congrArg Prod.snd hslot.symm, .inr (hone.timestamp v hv)⟩

theorem mem_split (spread : Spread κ.Carrier) (counter : UInt64)
    (xs : List (Windowed (κ.Carrier × ι.Carrier))) :
    ∀ v ∈ FanOut.split spread counter xs, ∃ u ∈ xs, v.Follows u := by
  induction xs generalizing counter with
  | nil =>
    intro v hv
    simp [FanOut.split] at hv
  | cons u xs ih =>
    intro v hv
    unfold FanOut.split at hv
    dsimp only at hv
    split at hv
    all_goals
      rcases List.mem_cons.mp hv with rfl | hv
      · exact ⟨u, List.mem_cons_self, rfl, .inl rfl⟩
      · obtain ⟨w, hw, hvw⟩ := ih _ v hv
        exact ⟨w, List.mem_cons_of_mem u hw, hvw⟩

section Building
variable [DecidableEq κ.Carrier] [KeyBytes κ.Carrier]

theorem group_preserves (hp : p.Typed) {c : Collection (.pair κ ι)} (h : c.WindowedBy p f)
    (g : GroupedValues κ ι α ω) (opts : GroupingOptions ι) :
    Build.Preserves (do
      let grouped ← Build.extend (c.groupByKey opts)
      g.expand grouped) p fun d q => d.WindowedBy q f := by
  apply (Collection.groupByKey_windows hp h opts).preserves.bind
  intro d q _ hq hd
  exact g.expand_preserves hq hd

theorem expandLifted_preserves (hp : p.Typed) {c : Collection (.pair κ ι)} (h : c.WindowedBy p f)
    (t : PerKey κ ι α ω) : Build.Preserves (t.expandLifted c) p fun d q => d.WindowedBy q f := by
  apply Build.Preserves.get
  apply (Collection.chain_windows hp h .bundle
    (moves_combineBundle t.combiner t.sides)).preserves.bind
  intro d q _ hq hd
  exact group_preserves hq hd _ _

theorem expandShards_preserves (hp : p.Typed) {routed : Collection (.routed κ ι)}
    (h : routed.WindowedBy p f) (comb : KeyedCombiner κ ι α ω) (sides : SideInputs B)
    (key : Option (Coder κ)) (input : Option (Coder ι)) :
    Build.Preserves (FanOut.expandShards comb sides key input routed) p
      fun d q => d.WindowedBy q f := by
  unfold FanOut.expandShards
  apply (Collection.flatMap_windows (τ := .pair (.pair κ .uint32) ι) hp h _).preserves.bind
  intro hot q _ hq hhot
  have hdiscarding := hhot.withStrategy (s := hot.strategy.withMode .discarding) hhot.strategy
  exact group_preserves hq (hdiscarding.setCoder? _) _ _

/-- The partials are handed back to the strategy of the input, which the cold records kept. -/
theorem expandFinish_preserves (hp : p.Typed) {routed : Collection (.routed κ ι)}
    {combined : Collection (.pair (.pair κ .uint32) α)} (hrouted : routed.WindowedBy p f)
    (hcombined : combined.WindowedBy p f) (comb : KeyedCombiner κ ι α ω) (sides : SideInputs B)
    (opts : GroupingOptions (.inputOrAccum ι α)) {s : WindowingStrategy} (hs : s.windowFn = f) :
    Build.Preserves (FanOut.expandFinish comb sides opts s routed combined) p
      fun d q => d.WindowedBy q f := by
  apply (Collection.map_windows hp hcombined _).preserves.bind
  intro partials q hpq hq hpartials
  apply (Collection.flatMap_windows hq (hrouted.mono hpq) _).preserves.bind
  intro cold r hqr hr hcold
  have hback := (hpartials.mono hqr).withStrategy hs
  have hparts : ∀ d ∈ [partials.withStrategy s, cold], d.WindowedBy r d.strategy.windowFn := by
    intro d hd
    rcases List.mem_pair.mp hd with rfl | rfl
    · exact hback.self
    · exact hcold.self
  apply (Collection.flatten_preserves hr hparts).bind
  intro all t _ ht hall
  rw [hback.strategy] at hall
  exact group_preserves ht hall _ _

theorem fanOut_preserves (hp : p.Typed) {c : Collection (.pair κ ι)} (h : c.WindowedBy p f)
    (comb : KeyedCombiner κ ι α ω) (spread : Spread κ.Carrier) (seed : ShardSeed)
    (sides : SideInputs B) (fewKeys : Bool) :
    Build.Preserves (FanOut.expand comb spread seed sides fewKeys c) p
      fun d q => d.WindowedBy q f := by
  cases haccum : comb.accumulatorCoder p.coders (c.keyCoderIn p.coders)
      (c.valueCoderIn p.coders) with
  | error e =>
    apply (Build.Preserves.throw hp (.combine (.accumulatorCoder e))).of_eq
    unfold Collection.keyCoderIn Collection.valueCoderIn at haccum
    unfold FanOut.expand
    dsimp only
    rw [Build.on_get, haccum]
    rfl
  | ok accumCoder =>
    apply Build.Preserves.of_eq _ (FanOut.expand_on comb spread seed sides fewKeys c haccum)
    have hsplit : Moves f f fun i (xs : List (Windowed (κ.Carrier × ι.Carrier))) =>
        .ok (FanOut.split spread (seed i) xs) := by
      apply moves_of_follows
      rintro i xs _ ⟨⟩
      exact mem_split spread (seed i) xs
    apply (Collection.chain_windows hp h .bundle hsplit).preserves.bind
    intro routed q _ hq hrouted
    apply (expandShards_preserves hq hrouted _ _ _ _).bind
    intro combined r hqr hr hcombined
    exact expandFinish_preserves hr (hrouted.mono hqr) hcombined _ _ _ h.strategy

theorem expand_preserves (hp : p.Typed) {c : Collection (.pair κ ι)} (h : c.WindowedBy p f)
    (t : PerKey κ ι α ω) : Build.Preserves (t.expand c) p fun d q => d.WindowedBy q f := by
  unfold expand
  split
  · exact fanOut_preserves hp h _ _ _ _ _
  · split
    · exact expandLifted_preserves hp h t
    · exact group_preserves hp h _ _

end Building
end PerKey

namespace Globally
variable (t : Globally ι α ω)

theorem combineWindows_preserves (hp : p.Typed) {c : Collection ι} (h : c.WindowedBy p f) :
    Build.Preserves (t.combineWindows c) p fun d q => d.WindowedBy q f := by
  apply (Collection.withKey_windows hp h _).preserves.bind
  intro keyed q _ hq hkeyed
  apply (PerKey.expand_preserves hq hkeyed t.perKey).bind
  intro combined r _ hr hcombined
  exact (Collection.values_windows hr hcombined).preserves

theorem withDefault_preserves (hp : p.Typed) {combined : Collection ω}
    (h : combined.WindowedBy p .global) :
    Build.Preserves (t.withDefault combined) p fun d q => d.WindowedBy q .global := by
  refine Build.Preserves.bind (P := fun _ q => q = p) (.ofExcept hp fun _ _ => rfl) ?_
  rintro default q₀ - hp rfl
  have hguard : (Collection.ofList (.slot ω) [Slot.guard]).Windows q₀ .global := by
    apply Collection.ofWindowed_windows hp
    intro u hu
    rcases List.mem_singleton.mp hu with rfl
    rfl
  apply hguard.preserves.bind
  intro guard q₁ hq₀₁ hq₁ hguard
  apply (Collection.map_windows hq₁ (h.mono hq₀₁) _).preserves.bind
  intro outputs q₂ hq₁₂ hq₂ houtputs
  have hguard₂ := hguard.mono hq₁₂
  have hslots : ∀ d ∈ [guard, outputs], d.WindowedBy q₂ d.strategy.windowFn := by
    intro d hd
    rcases List.mem_pair.mp hd with rfl | rfl
    · exact hguard₂.self
    · exact houtputs.self
  apply (Collection.flatten_preserves hq₂ hslots).bind
  intro slots q₃ hq₂₃ hq₃ hslots
  rw [hguard₂.strategy] at hslots
  apply (Collection.withKey_windows hq₃ hslots _).preserves.bind
  intro keyed q₄ hq₃₄ hq₄ hkeyed
  apply (Collection.groupByKey_windows hq₄ hkeyed _).preserves.bind
  intro grouped q₅ hq₄₅ hq₅ hgrouped
  apply (Collection.flatMap_windows hq₅ hgrouped _).preserves.bind
  intro defaults q₆ hq₅₆ hq₆ hdefaults
  have hcombined := h.mono
    (((((hq₀₁.trans hq₁₂).trans hq₂₃).trans hq₃₄).trans hq₄₅).trans hq₅₆)
  have hboth : ∀ d ∈ [combined, defaults.setCoder? combined.coder],
      d.WindowedBy q₆ d.strategy.windowFn := by
    intro d hd
    rcases List.mem_pair.mp hd with rfl | rfl
    · exact hcombined.self
    · exact (hdefaults.setCoder? _).self
  have hall := Collection.flatten_preserves hq₆ hboth
  rwa [hcombined.strategy] at hall

theorem expand_preserves (hp : p.Typed) {c : Collection ι} (h : c.WindowedBy p f) :
    Build.Preserves (t.expand c) p fun d q => d.WindowedBy q f := by
  unfold expand
  split
  · refine Build.Preserves.bind (P := fun _ q => q = p ∧ f = .global) ?_ ?_
    · apply Build.Preserves.ofExcept hp
      intro _ hcheck
      refine ⟨rfl, ?_⟩
      unfold checkWindowing at hcheck
      split at hcheck
      · rename_i hglobal
        rw [← h.strategy]
        simpa [WindowFn.compatible] using hglobal
      · cases hcheck
    · rintro _ q - hp ⟨rfl, rfl⟩
      apply (combineWindows_preserves t hp h).bind
      intro combined r _ hr hcombined
      exact withDefault_preserves t hr hcombined
  · exact combineWindows_preserves t hp h

theorem asSingletonView_preserves (hp : p.Typed) {c : Collection ι} (h : c.WindowedBy p f) :
    Build.Preserves (t.asSingletonView c) p fun _ _ => True := by
  apply (combineWindows_preserves t hp h).bind
  intro combined q _ hq _
  apply (Build.Preserves.collect hq combined .sequential).bind
  intro elems r _ hr _
  dsimp only
  split
  · refine (Build.Preserves.ofExcept hr fun _ _ => trivial).bind (P := fun _ _ => True) ?_
    exact fun _ _ _ hr _ => .pure hr trivial
  · exact .pure hr trivial

end Globally
end KeyedFlow
