import KeyedFlow.Proofs.PerKey.FanOut
import KeyedFlow.Proofs.Strategies
import KeyedFlow.Proofs.Windows
import KeyedFlow.Transform.Globally

/-!
The combine of a whole collection. Keyed by the unit value, each window that holds an element is a
slot, so it gets one output on every path. The outputs are grouped once more together with a guard:
in the global window that group holds an output exactly when the collection holds an element, and
only otherwise the default value is added.
-/

set_option autoImplicit false

namespace KeyedFlow
open Outcome
variable {B : Type} [TypeFamily B] {ι α ω σ τ : ElemType B} {p : Pipeline B} {mode : ExecMode}

namespace Collection
variable {c : Collection σ}
  {x : Except RunError (List (List (Windowed σ.Carrier)))}

/-- The coder by which elements cross a grouping by the unit key: the collection's own when the key
has a coder too, else the registered one. -/
def elementCoderIn (c : Collection σ) (r : CoderRegistry B) : Option (Coder σ) :=
  ((r.find? .unit).bind fun _ => c.coder).orElse fun _ => r.find? σ

theorem strategy_setCoder? (c : Collection σ) (coder : Option (Coder σ)) :
    (c.setCoder? coder).strategy = c.strategy := by
  cases coder <;> rfl

theorem withUnit_yields (h : c.Gives p mode x) :
    (c.withKey .unit ()).Yields p mode (x.map (List.map keyByUnit)) :=
  have hout := map_yields (τ := .pair .unit σ) h fun v => ((), v)
  ⟨hout.extends_, hout.gives.setCoder? _⟩

theorem withUnit_strategy (c : Collection σ) (p : Pipeline B) :
    (c.withKey .unit () p).1.strategy = c.strategy :=
  strategy_setCoder? _ _

theorem coder_setCoder? {c : Collection σ} (hc : c.coder = none) (coder : Option (Coder σ)) :
    (c.setCoder? coder).coder = coder := by
  cases coder with
  | none => exact hc
  | some k => rfl

theorem withUnit_coder (c : Collection σ) (p : Pipeline B) :
    (c.withKey .unit () p).1.coder = (do
      let k ← p.coders.find? .unit
      let v ← c.coder
      some (Coder.pair k v)) :=
  coder_setCoder? rfl _

theorem withUnit_valueCoder? (c : Collection σ) (p : Pipeline B) :
    (c.withKey .unit () p).1.valueCoder? = (p.coders.find? .unit).bind fun _ => c.coder := by
  rw [valueCoder?, withUnit_coder]
  cases p.coders.find? .unit <;> cases c.coder <;> rfl

theorem withUnit_valueCoderIn (c : Collection σ) (p : Pipeline B) :
    (c.withKey .unit () p).1.valueCoderIn p.coders = c.elementCoderIn p.coders := by
  rw [valueCoderIn, withUnit_valueCoder?, elementCoderIn]

theorem values_yields {c : Collection (.pair .unit τ)}
    {x : Except RunError (List (List (Windowed (Unit × τ.Carrier))))} (h : c.Gives p mode x) :
    c.values.Yields p mode (x.map (List.map dropUnit)) :=
  have hout := map_yields (τ := τ) h fun e => e.2
  ⟨hout.extends_, hout.gives.setCoder? _⟩

theorem values_strategy (c : Collection (.pair .unit τ)) (p : Pipeline B) :
    (c.values p).1.strategy = c.strategy :=
  strategy_setCoder? _ _

end Collection

theorem flatten_map_dropUnit {β : Type} (bundles : List (List (Windowed (Unit × β)))) :
    (bundles.map dropUnit).flatten = dropUnit bundles.flatten :=
  List.map_flatten.symm

theorem flatten_map_keyByUnit {β : Type} (bundles : List (List (Windowed β))) :
    (bundles.map keyByUnit).flatten = keyByUnit bundles.flatten :=
  List.map_flatten.symm

namespace Globally

/-- What the combiner and the coders owe so that the number of shards does not show: nothing but
that elements cross the grouping when there are no shards. -/
inductive Admits (t : Globally ι α ω) (r : CoderRegistry B) (input : Option (Coder ι))
    (rs : List (Windowed ι.Carrier)) : Prop where
  | direct (few : t.fanout < 2) (values : ∀ w ∈ rs, Coder.Crosses input w.value w.value)
  | spread (many : 2 ≤ t.fanout) {R : α.Carrier → α.Carrier → Prop} (laws : t.combiner.Lawful R)
      {accum : Coder α} (coder : t.combiner.accumulatorCoder r input = .ok accum)
      (values : ∀ i, input = some i → ∀ w ∈ rs, i.ReadsBack w.value w.value)
      (accums : ∀ a, ∃ b, accum.ReadsBack a b ∧ R a b)
      (union : input = none →
        FanOut.Keeps (κ := .unit) (fun _ _ => R) (r.find? (.inputOrAccum ι α)) (keyByUnit rs))

section PerKey
variable {t : Globally ι α ω} {rs : List (Windowed ι.Carrier)}

theorem perKey_meets {keyed : Collection (.pair .unit ι)}
    {bundles : List (List (Windowed (Unit × ι.Carrier)))} (h : keyed.Gives p mode (.ok bundles))
    (hrs : bundles.flatten = keyByUnit rs)
    (hadmits : t.Admits p.coders (keyed.valueCoderIn p.coders) rs) :
    Build.Meets ((t.combiner.keyed .unit).AdmitsOutput p.coders) (t.perKey.expand keyed) p
      fun d q => p.Extends q ∧ ∃ y, d.Gives q mode y ∧ RunsPerSlot (slotsOf (keyByUnit rs))
        (PerKey.reference (t.combiner.keyed .unit) t.sides (keyByUnit rs)) (y.map List.flatten) := by
  cases hadmits with
  | direct few values =>
    have hexpand : t.perKey.expand keyed = keyed.apply (PerKey.transform
        { combiner := t.combiner.keyed .unit, sides := t.sides, fewKeys := true }) := by
      unfold perKey
      rw [if_neg (Nat.not_le.mpr few)]
      rfl
    have hcross : ∀ w ∈ bundles.flatten,
        Coder.Crosses (keyed.valueCoderIn p.coders) w.value.2 w.value.2 := by
      rw [hrs]
      intro w hw
      obtain ⟨u, hu, rfl⟩ := List.mem_map.mp hw
      exact values u hu
    have hyields := PerKey.direct_yields (t.combiner.keyed .unit) t.sides true h
    rw [hexpand]
    apply hyields.meets.imp
    rintro d q ⟨hpq, hd⟩
    refine ⟨hpq, _, hd, ?_⟩
    have hrun := PerKey.runGrouped_reference (t.combiner.keyed .unit) t.sides true mode.parts hcross
    rwa [hrs] at hrun
  | @spread many R laws accum coder values accums union =>
    have hexpand : t.perKey.expand keyed = FanOut.expand (t.combiner.keyed .unit)
        (fun _ => t.fanout) t.seed t.sides true keyed := by
      unfold perKey
      rw [if_pos many]
      rfl
    have hvalues : ∀ i, keyed.valueCoderIn p.coders = some i →
        ∀ w ∈ bundles.flatten, i.ReadsBack w.value.2 w.value.2 := by
      rw [hrs]
      intro i hi w hw
      obtain ⟨u, hu, rfl⟩ := List.mem_map.mp hw
      exact values i hi u hu
    have hcross : ∀ w ∈ bundles.flatten,
        Coder.Crosses (keyed.valueCoderIn p.coders) w.value.2 w.value.2 := by
      intro w hw
      cases hi : keyed.valueCoderIn p.coders with
      | none => rfl
      | some i => exact (hvalues i hi w hw).crosses
    have haccums : ∀ a, ∃ b, accum.ReadsBack a b ∧ ∀ (_ : Unit) (_ : CombineContext B), R a b := by
      intro a
      obtain ⟨b, hb, hrel⟩ := accums a
      exact ⟨b, hb, fun _ _ => hrel⟩
    have hkeeps := FanOut.keeps_finishCoder hvalues haccums (hrs ▸ union)
    have hyields := FanOut.expand_yields (t.combiner.keyed .unit) (fun _ => t.fanout) t.seed
      t.sides true h coder
    rw [hexpand]
    apply hyields.meets.imp
    rintro d q ⟨hpq, hd⟩
    refine ⟨hpq, _, hd, ?_⟩
    rw [← hrs]
    exact FanOut.runGrouped_fanOut (laws.keyed .unit) true mode.parts hcross hkeeps

theorem reference_eq (t : Globally ι α ω) (rs : List (Windowed ι.Carrier)) (w : Window) :
    PerKey.reference (t.combiner.keyed .unit) t.sides (keyByUnit rs) ((), w) =
      t.combiner.apply (valuesIn w rs) := by
  rw [PerKey.reference_eq_apply, valuesAt_keyByUnit]
  rfl

theorem combineWindows_meets {c : Collection ι} {bundles : List (List (Windowed ι.Carrier))}
    (h : c.Gives p mode (.ok bundles))
    (hadmits : t.Admits p.coders (c.elementCoderIn p.coders) bundles.flatten) :
    Build.Meets ((t.combiner.keyed .unit).AdmitsOutput p.coders) (t.combineWindows c) p
      fun d q => p.Extends q ∧ d.strategy = c.strategy ∧ ∃ y, d.Gives q mode y ∧
        RunsPerWindow (windowsOf bundles.flatten)
          (fun w => t.combiner.apply (valuesIn w bundles.flatten)) (y.map List.flatten) := by
  have hkeyed := Collection.withUnit_yields h
  apply Build.Meets.extend_bind
  rw [← Collection.withUnit_valueCoderIn, ← hkeyed.extends_.coders] at hadmits
  have hcombined := perKey_meets hkeyed.gives (flatten_map_keyByUnit bundles) hadmits
  rw [hkeyed.extends_.coders] at hcombined
  refine (hcombined.and_ensures (t.perKey.expand_strategy _)).bind ?_
  rintro d q ⟨⟨hpq, y, hd, hrun⟩, hstrategy⟩
  have hvalues := Collection.values_yields hd
  refine .extend ⟨(hkeyed.extends_.trans hpq).trans hvalues.extends_, ?_, _, hvalues.gives, ?_⟩
  · rw [Collection.values_strategy, hstrategy, Collection.withUnit_strategy]
  · rw [slotsOf_keyByUnit] at hrun
    have hwindows := hrun.dropUnit
    rw [funext (reference_eq t bundles.flatten)] at hwindows
    have hflat : (y.map (List.map dropUnit)).map List.flatten =
        (y.map List.flatten).map dropUnit := by
      cases y with
      | error e => rfl
      | ok bs => exact congrArg Except.ok (flatten_map_dropUnit bs)
    rwa [hflat]

end PerKey

section Default
variable {d : ω.Carrier} {n : Nat} {outs : List (List (Windowed ω.Carrier))}

def guardRecord (ω : Type) : Windowed (Slot ω) := .inGlobalWindow .guard

/-- The guard and the outputs, which are grouped to find out whether there is an output. -/
def guarded {ω : Type} (outs : List (List (Windowed ω))) : List (List (Windowed (Slot ω))) :=
  [guardRecord ω] :: outs.map (List.map fun w => w.withValue (.output w.value))

def addedTo (d : ω.Carrier) (b : List (Windowed (Unit × List (Slot ω.Carrier)))) :
    List (Windowed ω.Carrier) :=
  b.flatMap fun w => (defaultOf d w.value.2).map w.withValue

/-- The default values that the outputs leave to be added. -/
def defaults (d : ω.Carrier) (n : Nat) (outs : List (List (Windowed ω.Carrier))) :
    Except RunError (List (List (Windowed ω.Carrier))) :=
  (Grouping.groupPairs (κ := .unit) (ν := .slot ω) none true n
    ((guarded outs).map keyByUnit)).map (List.map (addedTo d))

theorem defaultOf_guard {ω : Type} (d : ω) (os : List ω) :
    defaultOf d (.guard :: os.map .output) = if os.isEmpty then [d] else [] := by
  cases os with
  | nil => rfl
  | cons o os => simp [defaultOf]

theorem flatten_guarded {ω : Type} (outs : List (List (Windowed ω))) :
    (guarded outs).flatten =
      guardRecord ω :: outs.flatten.map fun w => w.withValue (.output w.value) := by
  rw [guarded, List.flatten_cons, ← List.map_flatten]
  rfl

theorem map_value_flatten_guarded {ω : Type} (outs : List (List (Windowed ω))) :
    (guarded outs).flatten.map Windowed.value =
      .guard :: (outs.flatten.map Windowed.value).map .output := by
  rw [flatten_guarded, List.map_cons, List.map_map, List.map_map]
  rfl

theorem addedTo_eq (d : ω.Carrier) (b : List (Windowed (Unit × List (Slot ω.Carrier)))) :
    addedTo d b = (dropUnit b).flatMap fun w => (defaultOf d w.value).map w.withValue := by
  rw [addedTo, dropUnit, List.flatMap_map]
  rfl

theorem flatten_map_addedTo (d : ω.Carrier)
    (bundles : List (List (Windowed (Unit × List (Slot ω.Carrier))))) :
    (bundles.map (addedTo d)).flatten = addedTo d bundles.flatten := by
  induction bundles with
  | nil => rfl
  | cons b bs ih =>
    rw [List.map_cons, List.flatten_cons, List.flatten_cons, ih]
    exact List.flatMap_append.symm

theorem exists_groupPairs_keyByUnit {bundles : List (List (Windowed σ.Carrier))}
    (coder : Option (Coder σ)) (fewKeys : Bool) (n : Nat)
    (hglobal : ∀ u ∈ bundles.flatten, u.window = .global) (hne : bundles.flatten ≠ [])
    (hcross : ∀ v ∈ bundles.flatten.map Windowed.value, Coder.Crosses coder v v) :
    ∃ groups, Grouping.groupPairs (κ := .unit) coder fewKeys n (bundles.map keyByUnit) =
        .ok groups ∧
      dropUnit groups.flatten =
        [⟨bundles.flatten.map Windowed.value, Timestamp.endOfTime, .global⟩] := by
  have hgroups := Grouping.groupPairs_runsPerSlot (κ := .unit) coder fewKeys n
    (bundles.map keyByUnit)
  rw [flatten_map_keyByUnit, slotsOf_keyByUnit] at hgroups
  have hone := hgroups.dropUnit.corresponds (fun v => mem_windowsOf_iff hglobal hne) rfl
  rw [valuesAt_keyByUnit, valuesIn_eq_map hglobal, Grouping.mapM_crossingBy hcross] at hone
  obtain ⟨out, hout, rfl⟩ := hone.ok_right
  obtain ⟨flat, hflat, hdrop⟩ := map_eq_ok_iff.mp hout
  obtain ⟨groups, hok, rfl⟩ := map_eq_ok_iff.mp hflat
  exact ⟨groups, hok, hdrop⟩

theorem window_of_mem_guarded (hglobal : ∀ u ∈ outs.flatten, u.window = .global) :
    ∀ u ∈ (guarded outs).flatten, u.window = .global := by
  rw [flatten_guarded]
  intro u hu
  rcases List.mem_cons.mp hu with rfl | hu
  · rfl
  · obtain ⟨w, hw, rfl⟩ := List.mem_map.mp hu
    exact hglobal w hw

theorem flatten_defaults (hglobal : ∀ u ∈ outs.flatten, u.window = .global) :
    (defaults d n outs).map List.flatten =
      .ok (if outs.flatten.isEmpty then [⟨d, Timestamp.endOfTime, .global⟩] else []) := by
  obtain ⟨groups, hgroups, hone⟩ := exists_groupPairs_keyByUnit (σ := .slot ω) none true n
    (window_of_mem_guarded hglobal) (by simp [flatten_guarded]) fun _ _ => rfl
  rw [map_value_flatten_guarded] at hone
  rw [defaults, hgroups]
  change Except.ok (groups.map (addedTo d)).flatten = _
  rw [flatten_map_addedTo, addedTo_eq, hone, List.flatMap_singleton, defaultOf_guard,
    List.isEmpty_map]
  cases outs.flatten <;> rfl

def withDefaults (d : ω.Carrier) (n : Nat) (outs : List (List (Windowed ω.Carrier))) :
    Except RunError (List (List (Windowed ω.Carrier))) := do
  let ds ← defaults d n outs
  .ok (outs ++ ds)

theorem flatten_withDefaults (hglobal : ∀ u ∈ outs.flatten, u.window = .global) :
    (withDefaults d n outs).map List.flatten = .ok (if outs.flatten.isEmpty
      then [⟨d, Timestamp.endOfTime, .global⟩] else outs.flatten) := by
  obtain ⟨ds, hds, hflat⟩ := map_eq_ok_iff.mp (flatten_defaults (d := d) (n := n) hglobal)
  rw [withDefaults, hds]
  change Except.ok (outs ++ ds).flatten = _
  rw [List.flatten_append, hflat]
  cases outs.flatten with
  | nil => rfl
  | cons u us => exact congrArg Except.ok (List.append_nil _)

/-- One record in any case: what is combined from the elements, or the default without any. -/
theorem withDefaults_corresponds {t : Globally ι α ω} {rs : List (Windowed ι.Carrier)}
    {y : Except RunError (List (List (Windowed ω.Carrier)))}
    (hrun : RunsPerWindow (windowsOf rs) (fun w => t.combiner.apply (valuesIn w rs))
      (y.map List.flatten))
    (hglobal : ∀ u ∈ rs, u.window = .global) :
    Corresponds (fun out v => out = [⟨v, Timestamp.endOfTime, .global⟩])
      ((y >>= withDefaults d n).map List.flatten)
      (if rs = [] then .ok d else t.combiner.apply (rs.map Windowed.value)) := by
  by_cases hrs : rs = []
  · subst hrs
    obtain ⟨outs, rfl, hnil⟩ := map_eq_ok_iff.mp hrun.eq_nil
    rw [ok_bind, flatten_withDefaults (by simp [hnil]), hnil, if_pos rfl]
    exact .ok rfl
  · have hone := hrun.corresponds (fun v => mem_windowsOf_iff hglobal hrs) rfl
    rw [valuesIn_eq_map hglobal] at hone
    rw [if_neg hrs]
    cases y with
    | error e =>
      obtain ⟨e', he'⟩ := hone.error_left
      rw [he']
      exact .error e e'
    | ok outs =>
      obtain ⟨v, hv, hout⟩ := hone.ok_left
      rw [ok_bind, flatten_withDefaults (by simp [hout]), hout, hv]
      exact .ok rfl

theorem guard_yields (hp : p.WellFormed) :
    (Collection.ofList (.slot ω) [Slot.guard]).Yields p mode (.ok [[guardRecord ω.Carrier]]) := by
  let elems : List (Windowed (ElemType.slot ω).Carrier) := [guardRecord ω.Carrier]
  have hgives : (Collection.ofWindowed (.slot ω) elems p).1.Gives
      (Collection.ofWindowed (.slot ω) elems p).2 mode
      (.ok (splitInto (min mode.parts (max elems.length 1)) elems)) :=
    Collection.gives_source (Collection.wellFormed_ofWindowed hp elems)
      (Collection.getElem?_ofWindowed elems)
  have hsplit : splitInto (min mode.parts (max elems.length 1)) elems = [elems] :=
    if_pos (.inr (Nat.le_refl 1))
  rw [hsplit] at hgives
  exact ⟨Pipeline.extends_add p _, hgives⟩

theorem withDefault_meets {A : Prop} {t : Globally ι α ω} {combined : Collection ω}
    {y : Except RunError (List (List (Windowed ω.Carrier)))} (h : combined.Gives p mode y)
    (hstrategy : combined.strategy.windowFn = .global)
    (hA : A → ∃ d, t.combiner.default = .ok d) :
    Build.Meets A (t.withDefault combined) p fun e q => ∃ d, t.combiner.default = .ok d ∧
      e.Gives q mode (y >>= withDefaults d mode.parts) := by
  unfold withDefault
  cases hd : t.combiner.default with
  | error f => exact .ofExcept_error_bind (by simpa [hd] using hA)
  | ok d =>
    apply Build.Meets.ofExcept_bind
    have hguard : (Collection.ofList (.slot ω) [Slot.guard]).Yields p mode
        (.ok [[guardRecord ω.Carrier]]) := guard_yields h.wellFormed
    have hcombined := h.mono hguard.extends_ hguard.gives.wellFormed
    apply Build.Meets.extend_bind
    have houtputs := Collection.map_yields (τ := .slot ω) hcombined fun o => Slot.output o
    apply Build.Meets.extend_bind
    refine (Collection.flatten_meets (hguard.gives.mono houtputs.extends_ houtputs.gives.wellFormed)
      houtputs.gives hstrategy.symm).bind ?_
    rintro slots q ⟨hq, hcoder, hslots, hslotsGives⟩
    have hkeyed := Collection.withUnit_yields hslotsGives
    apply Build.Meets.extend_bind
    -- the type of the slots is internal, so no registry has a coder for it
    have hvalueCoder : (slots.withKey .unit () q).1.valueCoderIn
        (slots.withKey .unit () q).2.coders = none := by
      rw [Collection.valueCoderIn, Collection.withUnit_valueCoder?, hcoder]
      exact congrArg (Option.orElse · _) (Option.bind_fun_none _)
    have hgrouped := Collection.groupByKey_yields hkeyed.gives ⟨true, none⟩ hvalueCoder
    apply Build.Meets.extend_bind
    have hadded := Collection.flatMap_yields (τ := ω) hgrouped.gives fun g => defaultOf d g.2
    apply Build.Meets.extend_bind
    have hextends := (((houtputs.extends_.trans hq).trans hkeyed.extends_).trans
      hgrouped.extends_).trans hadded.extends_
    refine (Collection.flatten_meets (hcombined.mono hextends hadded.gives.wellFormed)
      (hadded.gives.setCoder? _) ?_).imp ?_
    · rw [Collection.strategy_setCoder?]
      change _ = (slots.withKey .unit () q).1.strategy.windowFn
      rw [Collection.withUnit_strategy, hslots, hstrategy]
      rfl
    rintro e r ⟨-, -, -, hgives⟩
    refine ⟨d, rfl, ?_⟩
    cases y with
    | error e => exact hgives
    | ok outs => exact hgives

end Default

/-- Refused before a node is added, where the default would have no window to be in. -/
theorem apply_incompatible (t : Globally ι α ω) (c : Collection ι) (p : Pipeline B)
    (hdefault : t.insertDefault = true) (hwindows : c.strategy.windowFn ≠ .global) :
    (c.apply t.transform).on p =
      (.error (.combine (.incompatibleWindowFn c.strategy.windowFn t.combiner.advice)), p) := by
  have hcheck : t.checkWindowing c.strategy.windowFn =
      .error (.combine (.incompatibleWindowFn c.strategy.windowFn t.combiner.advice)) :=
    if_neg (by simpa [WindowFn.compatible] using hwindows)
  change (t.expand c).on p = _
  rw [expand, if_pos hdefault, hcheck]
  exact Build.on_bind_error (Build.on_ofExcept _ p)

/-- One record for every window that holds an element, and with defaults on one record in any case.
Windows that a default cannot be in are refused. -/
theorem apply_onePerWindow (t : Globally ι α ω) (c : Collection ι) (p : Pipeline B) :
    (t.insertDefault = true → c.strategy.windowFn ≠ .global →
      (c.apply t.transform).on p =
        (.error (.combine (.incompatibleWindowFn c.strategy.windowFn t.combiner.advice)), p)) ∧
    ∀ (mode : ExecMode) (bundles : List (List (Windowed ι.Carrier))),
      c.Gives p mode (.ok bundles) →
      t.Admits p.coders (c.elementCoderIn p.coders) bundles.flatten →
      (t.insertDefault = false →
        Build.Meets ((t.combiner.keyed .unit).AdmitsOutput p.coders) (c.apply t.transform) p
          fun d q => RunsPerWindow (windowsOf bundles.flatten)
              (fun w => t.combiner.apply (valuesIn w bundles.flatten)) (q.collect mode ω d.node) ∧
            (bundles.flatten = [] → q.collect mode ω d.node = .ok [])) ∧
      (t.insertDefault = true → c.strategy.windowFn = .global →
        (∀ w ∈ bundles.flatten, w.window = .global) →
        Build.Meets ((t.combiner.keyed .unit).AdmitsOutput p.coders ∧
            ∃ v, t.combiner.default = .ok v) (c.apply t.transform) p
          fun d q => ∃ v, t.combiner.default = .ok v ∧
            Corresponds (fun out v => out = [⟨v, Timestamp.endOfTime, .global⟩])
              (q.collect mode ω d.node) (if bundles.flatten = [] then .ok v
                else t.combiner.apply (bundles.flatten.map Windowed.value))) := by
  refine ⟨apply_incompatible t c p, fun mode bundles h hadmits => ?_⟩
  have hcombined := combineWindows_meets h hadmits
  constructor
  · intro hquiet
    change Build.Meets _ (t.expand c) p _
    rw [expand, hquiet]
    apply hcombined.imp
    rintro d q ⟨-, -, y, hd, hrun⟩
    rw [hd.collect_eq]
    refine ⟨hrun, fun hnil => ?_⟩
    rw [hnil] at hrun
    exact hrun.eq_nil
  · intro hdefault hstrategy hglobal
    have hcheck : t.checkWindowing c.strategy.windowFn = .ok () := by
      rw [hstrategy]
      rfl
    change Build.Meets _ (t.expand c) p _
    rw [expand, if_pos hdefault, hcheck]
    apply Build.Meets.ofExcept_bind
    refine (hcombined.weaken And.left).bind ?_
    rintro d q ⟨-, hd, y, hy, hrun⟩
    apply (withDefault_meets hy (hd ▸ hstrategy) And.right).imp
    rintro e r ⟨v, hv, he⟩
    rw [he.collect_eq]
    exact ⟨v, hv, withDefaults_corresponds hrun hglobal⟩

def numbers : List (Windowed (ElemType.uint32 : Sample.Ty).Carrier) :=
  [⟨3, 0, .global⟩, ⟨1, 1, .global⟩, ⟨2, 2, .global⟩]

def numberSource : Collection (.uint32 : Sample.Ty) × Pipeline Sample.Own :=
  Collection.ofWindowed .uint32 numbers Pipeline.new

theorem numberSource_gives (mode : ExecMode) : numberSource.1.Gives numberSource.2 mode
    (.ok (splitInto (min mode.parts (max numbers.length 1)) numbers)) :=
  Collection.gives_source (Collection.wellFormed_ofWindowed Pipeline.wellFormed_new numbers)
    (Collection.getElem?_ofWindowed numbers)

def total (insertDefault : Bool) : Globally (.uint32 : Sample.Ty) .uint32 .uint32 where
  combiner := .sum .uint32 (0 : UInt32) Word.add
  insertDefault := insertDefault
  fanout := 3

theorem total_admits (insertDefault : Bool) (r : CoderRegistry Sample.Own)
    (rs : List (Windowed (ElemType.uint32 : Sample.Ty).Carrier)) :
    (total insertDefault).Admits r (some .uint32) rs := by
  have hlawful : (total insertDefault).combiner.Lawful (· = ·) :=
    Combiner.sum_lawful (Word.partialMonoid rfl rfl) fun a b => Word.add_comm a b ▸ .refl _
  have haccum : (total insertDefault).combiner.accumulatorCoder r (some .uint32) =
      .ok Coder.uint32 := rfl
  refine .spread (Nat.le_succ 2) hlawful haccum ?_ ?_ ?_
  · rintro i ⟨⟩ w _
    exact Coder.uint32_readsBack w.value
  · exact fun a => ⟨a, Coder.uint32_readsBack a, rfl⟩
  · intro hnone
    cases hnone

theorem apply_onePerWindow_of_numbers :
    ((numberSource.1.withStrategy ⟨.fixed ⟨10000, 0, by decide⟩, .discarding⟩).apply
        (total true).transform).on numberSource.2 =
      (.error (.combine (.incompatibleWindowFn (.fixed ⟨10000, 0, by decide⟩)
        (total true).combiner.advice)), numberSource.2) ∧
    (∃ d q, (numberSource.1.apply (total false).transform).on numberSource.2 = (.ok d, q) ∧
      RunsPerWindow (windowsOf numbers)
        (fun w => (total false).combiner.apply (valuesIn w numbers))
        (q.collect (.parallel 2) .uint32 d.node)) ∧
    ∃ d q, (numberSource.1.apply (total true).transform).on numberSource.2 = (.ok d, q) ∧
      q.collect (.parallel 2) .uint32 d.node = .ok [⟨6, Timestamp.endOfTime, .global⟩] := by
  have hflat := flatten_splitInto (min (ExecMode.parallel 2).parts (max numbers.length 1)) numbers
  have hglobal : ∀ w ∈ numbers, w.window = .global := by decide
  rw [← hflat] at hglobal
  refine ⟨(apply_onePerWindow (total true) _ numberSource.2).1 rfl (by decide), ?_, ?_⟩
  · have hquiet := ((apply_onePerWindow (total false) numberSource.1 numberSource.2).2
      (.parallel 2) _ (numberSource_gives _) (total_admits false _ _)).1 rfl
    obtain ⟨d, q, hd⟩ := hquiet.succeeds fun _ _ _ he => isCannotProvide_of_inputOrRegistered he
    have hrun := (hquiet.post d q hd).1
    rw [hflat] at hrun
    exact ⟨d, q, hd, hrun⟩
  · have htotal := ((apply_onePerWindow (total true) numberSource.1 numberSource.2).2
      (.parallel 2) _ (numberSource_gives _) (total_admits true _ _)).2 rfl rfl hglobal
    obtain ⟨d, q, hd⟩ := htotal.succeeds
      ⟨fun _ _ _ he => isCannotProvide_of_inputOrRegistered he, 0, rfl⟩
    obtain ⟨v, -, hone⟩ := htotal.post d q hd
    rw [hflat] at hone
    obtain ⟨out, hout, hsix⟩ := hone.ok_right
    exact ⟨d, q, hd, hsix ▸ hout⟩

end Globally
end KeyedFlow
