import KeyedFlow.Proofs.PerKey.OutputCoder
import KeyedFlow.Sample.Combiners
import KeyedFlow.Sample.Functions

/-!
When a combine is refused. All ways to combine by key bind the coder of their output in one place,
and differ in the coders of keys and inputs that get there. So each is refused exactly when its keys
have a coder and that of its outputs fails for another reason than being unavailable. The fan-out
alone is refused over the coder of the accumulators too, before it adds anything.
-/

set_option autoImplicit false

namespace KeyedFlow
variable {B : Type} [TypeFamily B] {κ ι α ω : ElemType B} {p : Pipeline B}

namespace PerKey
variable [DecidableEq κ.Carrier] [KeyBytes κ.Carrier]

theorem fannedOut_refused (t : PerKey κ ι α ω) (spread : Spread κ.Carrier)
    (c : Collection (.pair κ ι)) {e : CoderError}
    (haccum : t.combiner.accumulatorCoder p.coders (c.keyCoderIn p.coders)
      (c.valueCoderIn p.coders) = .error e) :
    (t.fannedOut spread).coderOver c p = .error (.combine (.accumulatorCoder e)) := by
  have hon : ((c.apply (t.fannedOut spread).transform).on p).1 =
      .error (.combine (.accumulatorCoder e)) := by
    unfold Collection.keyCoderIn Collection.valueCoderIn at haccum
    change ((FanOut.expand t.combiner spread t.seed t.sides t.fewKeys c).on p).1 = _
    unfold FanOut.expand
    rw [Build.on_get]
    dsimp only
    rw [haccum]
    rfl
  rw [coderOver, Build.coderOf, hon]
  rfl

theorem fannedOut_bindsOutput (t : PerKey κ ι α ω) (spread : Spread κ.Carrier)
    (c : Collection (.pair κ ι)) {accum : Coder α}
    (haccum : t.combiner.accumulatorCoder p.coders (c.keyCoderIn p.coders)
      (c.valueCoderIn p.coders) = .ok accum) :
    BindsOutput (p.coders.find? κ)
      (t.combiner.finish.groupedOutput p.coders (p.coders.find? κ)
        (FanOut.finishCoder? p.coders (c.valueCoderIn p.coders) accum))
      ((t.fannedOut spread).coderOver c p) := by
  rw [fannedOut_coderOver t spread c haccum]
  exact t.combiner.finish.groupedCoder_bindsOutput p.coders (.inl rfl)

/-- Each way to combine by key is refused exactly when its keys have a coder and that of its outputs
fails for another reason than being unavailable, and the fan-out also when the coder of the
accumulators fails, whatever the reason. -/
theorem apply_refused_iff (t : PerKey κ ι α ω) (spread : Spread κ.Carrier)
    (c : Collection (.pair κ ι)) (grouped : Collection (.pair κ (.list ι))) (p : Pipeline B) :
    BindsOutput (grouped.keyCoderIn p.coders)
      (t.combiner.outputCoder p.coders grouped.keyCoder? (grouped.valueCoder?.bind Coder.elem?))
      ((grouped.apply (GroupedValues.mk t.combiner t.sides).transform).coderOf p) ∧
    BindsOutput (c.keyCoderIn p.coders)
      (t.combiner.groupedOutput p.coders (c.keyCoderIn p.coders) (c.valueCoderIn p.coders))
      (t.direct.coderOver c p) ∧
    BindsOutput (p.coders.find? κ)
      (t.combiner.finish.groupedOutput p.coders (p.coders.find? κ)
        (t.combiner.shuffleCoder? p.coders c.keyCoder? (c.valueCoderIn p.coders)))
      (t.lifted.coderOver c p) ∧
    (∀ e, (t.fannedOut spread).coderOver c p = .error (.combine (.accumulatorCoder e)) ↔
      t.combiner.accumulatorCoder p.coders (c.keyCoderIn p.coders) (c.valueCoderIn p.coders) =
        .error e) ∧
    ∀ accum, t.combiner.accumulatorCoder p.coders (c.keyCoderIn p.coders)
        (c.valueCoderIn p.coders) = .ok accum →
      BindsOutput (p.coders.find? κ)
        (t.combiner.finish.groupedOutput p.coders (p.coders.find? κ)
          (FanOut.finishCoder? p.coders (c.valueCoderIn p.coders) accum))
        ((t.fannedOut spread).coderOver c p) := by
  refine ⟨?grouped, ?direct, ?lifted, ?accumulator, fun _ => t.fannedOut_bindsOutput spread c⟩
  case grouped =>
    have hcoder := GroupedValues.coderOf_expand ⟨t.combiner, t.sides⟩ grouped p
    exact hcoder ▸ t.combiner.pairCoder_bindsOutput p.coders _ _
  case direct =>
    rw [direct_coderOver]
    exact t.combiner.groupedCoder_bindsOutput p.coders (c.keyCoderIn_cases p.coders)
  case lifted =>
    rw [lifted_coderOver]
    exact t.combiner.finish.groupedCoder_bindsOutput p.coders (.inl rfl)
  case accumulator =>
    intro e
    refine ⟨fun hrefused => ?_, t.fannedOut_refused spread c⟩
    cases haccum : t.combiner.accumulatorCoder p.coders (c.keyCoderIn p.coders)
        (c.valueCoderIn p.coders) with
    | error f =>
      cases (t.fannedOut_refused spread c haccum).symm.trans hrefused
      rfl
    | ok accum =>
      -- An output coder fails with its own error, which is never that of an accumulator.
      have hbinds := t.fannedOut_bindsOutput spread c haccum
      obtain ⟨_, _, _, _, hother⟩ := (hbinds.refused_iff _).mp hrefused
      cases hother

/-- A count whose output coder fails for another reason than being unavailable. -/
def refusing (κ ι : Sample.Ty) : PerKey κ ι .uint64 .uint64 :=
  { combiner := (Sample.Combiners.brokenOutput ι).keyed κ }

def brokenOutput : CoderError := .nonDeterministic "Broken" "test"

theorem apply_refused_iff_of_words :
    (refusing .string .uint32).direct.coderOver wordSource.1 wordSource.2 =
        .error (.coder brokenOutput) ∧
      ((refusing .string .uint32).fannedOut fun _ => 3).coderOver wordSource.1 wordSource.2 =
        .error (.coder brokenOutput) := by
  obtain ⟨_, hdirect, _, _, hfannedOut⟩ := apply_refused_iff (refusing .string .uint32)
    (fun _ => 3) wordSource.1 ⟨0, .global, none⟩ wordSource.2
  have hrefused : ∃ e, (.error brokenOutput : Except CoderError (Coder (.uint64 : Sample.Ty))) =
      .error e ∧ e.isCannotProvide = false ∧ FlowError.coder brokenOutput = .coder e :=
    ⟨brokenOutput, rfl, rfl, rfl⟩
  exact ⟨(hdirect.refused_iff _).mpr ⟨rfl, hrefused⟩,
    ((hfannedOut .uint64 rfl).refused_iff _).mpr ⟨rfl, hrefused⟩⟩

/-- Keys that the standard registry has no coder for. -/
abbrev sealedKey : Sample.Ty := .own .sealedInt

instance : DecidableEq sealedKey.Carrier := inferInstanceAs (DecidableEq Sample.SealedInt)

instance : KeyBytes sealedKey.Carrier := inferInstanceAs (KeyBytes Sample.SealedInt)

def sealedSource : Collection (.pair sealedKey .int64) × Pipeline Sample.Own :=
  Collection.ofList (.pair sealedKey .int64) [(Sample.SealedInt.mk 1, 1)] Pipeline.new

/-- The failure of the output coder is passed over when the keys have none, on every path. -/
theorem not_apply_refused_iff_of_sealedKeys :
    (refusing sealedKey .int64).direct.coderOver sealedSource.1 sealedSource.2 = .ok none ∧
      (refusing sealedKey .int64).lifted.coderOver sealedSource.1 sealedSource.2 = .ok none ∧
      ((refusing sealedKey .int64).fannedOut fun _ => 3).coderOver sealedSource.1
        sealedSource.2 = .ok none ∧
      ¬ ∀ f, (refusing sealedKey .int64).direct.coderOver sealedSource.1 sealedSource.2 =
          .error f ↔
        ∃ e, (refusing sealedKey .int64).combiner.groupedOutput sealedSource.2.coders
            (sealedSource.1.keyCoderIn sealedSource.2.coders)
            (sealedSource.1.valueCoderIn sealedSource.2.coders) = .error e ∧
          e.isCannotProvide = false ∧ f = .coder e := by
  refine ⟨rfl, rfl, rfl, ?_⟩
  intro h
  cases (h (.coder brokenOutput)).mpr ⟨brokenOutput, rfl, rfl, rfl⟩

end PerKey
end KeyedFlow
