import KeyedFlow.Combiner.Operator
import KeyedFlow.Proofs.Coder.Leaves
import KeyedFlow.Proofs.GroupedValues
import KeyedFlow.Sample.Scalar
import KeyedFlow.Transform.PerKey

/-!
The direct path of a combine per key. Whatever the combiner does, every slot of the input gets one
record, whose value folds the values of the slot in their order and reads off the output, with the
key of the slot and the context of its window. How the input is cut into bundles does not matter.
-/

set_option autoImplicit false

namespace KeyedFlow
open Outcome
variable {B : Type} [TypeFamily B] {κ ι α ω : ElemType B} {p : Pipeline B} {mode : ExecMode}

theorem KeyedCombiner.AdmitsOutput.finish {comb : KeyedCombiner κ ι α ω} {r : CoderRegistry B}
    (h : comb.AdmitsOutput r) : comb.finish.AdmitsOutput r := fun k _ e he => h k _ e he

namespace PerKey

section Reference
variable [DecidableEq κ.Carrier]

/-- The output of one slot of `rs`: its values are added to a fresh accumulator in their order, and
the output is read off, with the key of the slot and the context of its window throughout. -/
def reference (comb : KeyedCombiner κ ι α ω) (sides : SideInputs B)
    (rs : List (Windowed (κ.Carrier × ι.Carrier))) (s : κ.Carrier × Window) :
    Checked ω.Carrier := do
  let ctx := sides.resolve s.2
  let a ← (valuesAt s rs).foldlM (comb.add s.1 ctx) (comb.create s.1 ctx)
  comb.extract s.1 ctx a

/-- Combining the values of a slot in a single batch is the reference. -/
theorem reference_eq_apply (comb : KeyedCombiner κ ι α ω) (sides : SideInputs B)
    (rs : List (Windowed (κ.Carrier × ι.Carrier))) (s : κ.Carrier × Window) :
    reference comb sides rs s = comb.apply s.1 (sides.resolve s.2) (valuesAt s rs) := rfl

end Reference

section Direct
variable [DecidableEq κ.Carrier] [KeyBytes κ.Carrier]

/-- When the values of the input cross the barrier unchanged, grouping and combining gives every
slot its output. -/
theorem runGrouped_reference (comb : KeyedCombiner κ ι α ω) (sides : SideInputs B)
    {coder : Option (Coder ι)} (fewKeys : Bool) (n : Nat)
    {bundles : List (List (Windowed (κ.Carrier × ι.Carrier)))}
    (hcross : ∀ w ∈ bundles.flatten, Coder.Crosses coder w.value.2 w.value.2) :
    RunsPerSlot (slotsOf bundles.flatten) (reference comb sides bundles.flatten)
      (((GroupedValues.mk comb sides).runGrouped coder fewKeys n bundles).map List.flatten) := by
  apply (GroupedValues.runGrouped_runsPerSlot _ coder fewKeys n bundles).congr fun _ => Iff.rfl
  intro s _
  have hvalues : ∀ v ∈ valuesAt s bundles.flatten, Coder.Crosses coder v v := by
    intro v hv
    obtain ⟨w, hw, _, rfl⟩ := mem_valuesAt.mp hv
    exact hcross w hw
  rw [GroupedValues.slotValue, Grouping.mapM_crossingBy hvalues, reference_eq_apply]
  exact inRun_corresponds _

theorem direct_yields (comb : KeyedCombiner κ ι α ω) (sides : SideInputs B) (fewKeys : Bool)
    {c : Collection (.pair κ ι)}
    {x : Except RunError (List (List (Windowed (κ.Carrier × ι.Carrier))))} (h : c.Gives p mode x) :
    Build.Yields (comb.AdmitsOutput p.coders)
      (c.apply (transform { combiner := comb, sides := sides, fewKeys := fewKeys })) p mode
      (x >>= (GroupedValues.mk comb sides).runGrouped (c.valueCoderIn p.coders) fewKeys
        mode.parts) :=
  GroupedValues.groupThenExpand_yields h ⟨fewKeys, none⟩ rfl

/-- Collecting the direct path over a source: every slot of the source is combined on its own, in
the order of the source, however the run is cut. -/
theorem direct_combines_each_slot (hp : p.WellFormed) (mode : ExecMode)
    {c : Collection (.pair κ ι)} {records : List (Windowed (κ.Carrier × ι.Carrier))}
    (hc : p.nodes[c.node]? = some (.source (Bundle.of (.pair κ ι) records)))
    (comb : KeyedCombiner κ ι α ω) (sides : SideInputs B) (fewKeys : Bool)
    (hcross : ∀ w ∈ records, Coder.Crosses (c.valueCoderIn p.coders) w.value.2 w.value.2) :
    (comb.AdmitsOutput p.coders → ∃ d q, Build.on
      (c.apply (transform { combiner := comb, sides := sides, fewKeys := fewKeys })) p =
        (.ok d, q)) ∧
    ∀ d q, Build.on
      (c.apply (transform { combiner := comb, sides := sides, fewKeys := fewKeys })) p =
        (.ok d, q) →
      RunsPerSlot (slotsOf records) (reference comb sides records)
        (q.collect mode (.pair κ ω) d.node) := by
  have hgives : c.Gives p mode (.ok (splitInto (min mode.parts (max records.length 1)) records)) :=
    Collection.gives_source hp hc
  have hyields := direct_yields comb sides fewKeys hgives
  constructor
  · intro hadmits
    obtain ⟨d, q, _, _, hd⟩ := hyields.exists_ok hadmits
    exact ⟨d, q, hd⟩
  · intro d q hd
    rw [hyields.collect_eq hd]
    have hflat := flatten_splitInto (min mode.parts (max records.length 1)) records
    rw [← hflat] at hcross
    have hrun := runGrouped_reference comb sides fewKeys mode.parts hcross
    rwa [hflat] at hrun

end Direct

def words : List (Windowed (ElemType.pair .string .uint32 : Sample.Ty).Carrier) :=
  [⟨("a", 1), 0, .global⟩, ⟨("b", 2), 1, .global⟩, ⟨("a", 3), 2, .global⟩]

def wordSource : Collection (.pair .string .uint32 : Sample.Ty) × Pipeline Sample.Own :=
  Collection.ofWindowed (.pair .string .uint32) words Pipeline.new

theorem wordSource_wellFormed : wordSource.2.WellFormed :=
  Collection.wellFormed_ofWindowed Pipeline.wellFormed_new words

theorem wordSource_node : wordSource.2.nodes[wordSource.1.node]? =
    some (.source (Bundle.of (.pair .string .uint32) words)) :=
  Collection.getElem?_ofWindowed words

theorem wordSource_gives (mode : ExecMode) : wordSource.1.Gives wordSource.2 mode
    (.ok (splitInto (min mode.parts (max words.length 1)) words)) :=
  Collection.gives_source wordSource_wellFormed wordSource_node

theorem wordSource_valueCoder : wordSource.1.valueCoderIn wordSource.2.coders = some .uint32 := rfl

/-- The digits of each key, written one after another. -/
def digits : KeyedCombiner (.string : Sample.Ty) .uint32 .uint32 .uint32 :=
  (Combiner.scalar .uint32 (fun a b => 10 * a + b) 0).keyed .string

def digested : Except FlowError (Collection (.pair .string .uint32 : Sample.Ty)) ×
    Pipeline Sample.Own :=
  Build.on (wordSource.1.apply (transform { combiner := digits })) wordSource.2

theorem direct_combines_each_slot_of_words :
    ∃ d, digested.1 = .ok d ∧
      digested.2.collect (.parallel 2) (.pair .string .uint32) d.node =
        .ok [⟨("b", 2), Timestamp.endOfTime, .global⟩, ⟨("a", 13), Timestamp.endOfTime, .global⟩] ∧
      RunsPerSlot (slotsOf words) (reference digits .none words)
        (digested.2.collect (.parallel 2) (.pair .string .uint32) d.node) := by
  obtain ⟨-, hslots⟩ := direct_combines_each_slot wordSource_wellFormed (.parallel 2)
    wordSource_node digits .none false fun w _ => (Coder.uint32_readsBack w.value.2).crosses
  exact ⟨_, rfl, by decide +kernel, hslots _ _ rfl⟩

end PerKey
end KeyedFlow
