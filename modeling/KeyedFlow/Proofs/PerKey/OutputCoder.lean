import KeyedFlow.Proofs.CoderBinding
import KeyedFlow.Proofs.PerKey.FanOut
import KeyedFlow.Proofs.PerKey.Lifting
import KeyedFlow.Sample.Coders

/-!
The coder of what a combine per key returns. Grouping hands the combiner the coders of keys and
inputs when it knows both, and neither otherwise. The direct path groups the input itself, so a key
coder set on the input reaches the output. Lifting and fan-out group partials, which have no coder:
there the key coder is the registered one, whatever was set on the input. The two always give the
same coder, and the direct path gives it too when the key coder of the input is the registered one.
-/

set_option autoImplicit false

namespace KeyedFlow
variable {B : Type} [TypeFamily B] {κ ν ι α ω σ : ElemType B} {p : Pipeline B}

/-- The coder of what is built, or the refusal to build it. -/
def Build.coderOf (m : Build B (Collection σ)) (p : Pipeline B) :
    Except FlowError (Option (Coder σ)) := (m.on p).1.map Collection.coder

namespace KeyedCombiner
variable {comb : KeyedCombiner κ ι α ω} {r : CoderRegistry B} {key : Option (Coder κ)}
  {input : Option (Coder ι)}

/-- Partials grouped by the coder of inputs and accumulators make the output coder of the inputs. -/
theorem finish_groupedCoder_some (i : Coder ι) (a : Coder α) :
    comb.finish.groupedCoder r key (FanOut.finishCoder? r (some i) a) =
      comb.groupedCoder r key (some i) := by
  cases key <;> rfl

theorem finish_groupedCoder_none (h : r.find? (.inputOrAccum ι α) = none) (a : Coder α) :
    comb.finish.groupedCoder r key (FanOut.finishCoder? r none a) =
      comb.groupedCoder r key none := by
  have hunion : FanOut.finishCoder? r none a = r.find? (.inputOrAccum ι α) := rfl
  rw [hunion, h]
  cases key <;> rfl

theorem shuffleCoder?_eq {a : Coder α} (h : comb.accumulatorCoder r key input = .ok a) :
    comb.shuffleCoder? r key input = FanOut.finishCoder? r input a := by
  rw [shuffleCoder?, unionCoder?, h]
  cases input <;> rfl

end KeyedCombiner

namespace GroupedValues

theorem coderOf_expand (g : GroupedValues κ ι α ω) (c : Collection (.pair κ (.list ι)))
    (p : Pipeline B) : (g.expand c).coderOf p =
      g.combiner.pairCoder p.coders c.keyCoder? (c.valueCoder?.bind Coder.elem?) := by
  rw [Build.coderOf, on_expand]
  exact coder_bindPairCoder rfl _ _

theorem exists_on_expand (g : GroupedValues κ ι α ω) (c : Collection (.pair κ (.list ι)))
    {p : Pipeline B} (h : g.combiner.AdmitsOutput p.coders) :
    ∃ d q, (g.expand c).on p = (.ok d, q) ∧ q.coders = p.coders := by
  obtain ⟨d, hd⟩ := exists_bindPairCoder (c.mapWindowed (.pair κ ω) g.record p).1
    (fun e he => isCannotProvide_of_inputOrRegistered he)
    (h c.keyCoder? (c.valueCoder?.bind Coder.elem?))
  refine ⟨d, (c.mapWindowed (.pair κ ω) g.record p).2, ?_, rfl⟩
  rw [on_expand, hd]

variable [DecidableEq κ.Carrier] [KeyBytes κ.Carrier]

theorem coderOf_groupThenExpand (g : GroupedValues κ ι α ω) (opts : GroupingOptions ι)
    (c : Collection (.pair κ ι)) (p : Pipeline B) :
    Build.coderOf (do
      let grouped ← Build.extend (c.groupByKey opts)
      g.expand grouped) p = g.combiner.groupedCoder p.coders (c.keyCoderIn p.coders)
        ((opts.valueCoder.orElse fun _ => c.valueCoder?).orElse fun _ => p.coders.find? ι) := by
  have hcoder : (c.groupByKey opts p).1.coder = (do
      let k ← c.keyCoderIn p.coders
      let i ← (opts.valueCoder.orElse fun _ => c.valueCoder?).orElse fun _ => p.coders.find? ι
      some (Coder.pair k i.list)) := rfl
  rw [Build.coderOf, Build.on_extend]
  refine (coderOf_expand g _ _).trans ?_
  rw [Collection.keyCoder?, Collection.valueCoder?, hcoder]
  cases c.keyCoderIn p.coders with
  | none => rfl
  | some k =>
    cases (opts.valueCoder.orElse fun _ => c.valueCoder?).orElse fun _ => p.coders.find? ι <;> rfl

end GroupedValues

theorem Collection.keyCoderIn_cases (c : Collection (.pair κ ν)) (r : CoderRegistry B) :
    c.keyCoderIn r = r.find? κ ∨ (c.keyCoderIn r).isSome ∧ (c.valueCoderIn r).isSome := by
  unfold keyCoderIn valueCoderIn keyCoder? valueCoder?
  cases c.coder.bind Coder.parts? with
  | none => exact .inl rfl
  | some parts => exact .inr ⟨rfl, rfl⟩

theorem Build.coderOf_bind {α : Type} {m : Build B α} {f : α → Build B (Collection σ)} {a : α}
    {q : Pipeline B} (hm : m.on p = (.ok a, q)) : Build.coderOf (m >>= f) p = (f a).coderOf q := by
  rw [Build.coderOf, Build.on_bind hm]
  rfl

namespace FanOut
variable [DecidableEq κ.Carrier] [KeyBytes κ.Carrier]

theorem exists_expandShards (comb : KeyedCombiner κ ι α ω) (sides : SideInputs B)
    (key : Option (Coder κ)) (input : Option (Coder ι)) (routed : Collection (.routed κ ι))
    (p : Pipeline B) : ∃ combined q,
      (expandShards comb sides key input routed).on p = (.ok combined, q) ∧ q.coders = p.coders := by
  unfold expandShards
  rw [Build.on_extend, Build.on_extend]
  exact GroupedValues.exists_on_expand ⟨comb.shard, sides⟩ _ (shard_admitsOutput comb _)

theorem coderOf_expandFinish (comb : KeyedCombiner κ ι α ω) (sides : SideInputs B)
    (opts : GroupingOptions (.inputOrAccum ι α)) (routed : Collection (.routed κ ι))
    (combined : Collection (.pair (.pair κ .uint32) α)) (p : Pipeline B) :
    (expandFinish comb sides opts routed.strategy routed combined).coderOf p =
      comb.finish.groupedCoder p.coders (p.coders.find? κ)
        (opts.valueCoder.orElse fun _ => p.coders.find? (.inputOrAccum ι α)) := by
  unfold expandFinish
  rw [Build.coderOf, Build.on_extend, Build.on_extend]
  rw [← Build.coderOf, Build.coderOf_bind (Collection.on_flatten_pair ?windows _)]
  case windows => rfl
  refine (GroupedValues.coderOf_groupThenExpand ⟨comb.finish, sides⟩ opts _ _).trans ?_
  cases opts.valueCoder <;> rfl

theorem coderOf_expand (comb : KeyedCombiner κ ι α ω) (spread : Spread κ.Carrier) (seed : ShardSeed)
    (sides : SideInputs B) (fewKeys : Bool) (c : Collection (.pair κ ι)) {p : Pipeline B}
    {accum : Coder α} (haccum : comb.accumulatorCoder p.coders (c.keyCoderIn p.coders)
      (c.valueCoderIn p.coders) = .ok accum) :
    (expand comb spread seed sides fewKeys c).coderOf p =
      comb.finish.groupedCoder p.coders (p.coders.find? κ)
        (finishCoder? p.coders (c.valueCoderIn p.coders) accum) := by
  let split := c.mapBundle (.routed κ ι) (fun i xs => .ok (split spread (seed i) xs)) p
  obtain ⟨combined, q, hon, hq⟩ := exists_expandShards comb sides (c.keyCoderIn p.coders)
    (c.valueCoderIn p.coders) split.1 split.2
  rw [Build.coderOf, expand_on comb spread seed sides fewKeys c haccum, Build.on_extend,
    ← Build.coderOf, Build.coderOf_bind hon]
  refine (coderOf_expandFinish comb sides _ split.1 combined q).trans ?_
  rw [hq]
  rfl

end FanOut

namespace PerKey
variable [DecidableEq κ.Carrier] [KeyBytes κ.Carrier]

/-- The combine on each of its three paths. -/
def direct (t : PerKey κ ι α ω) : PerKey κ ι α ω := { t with lifting := false, spread := none }

def lifted (t : PerKey κ ι α ω) : PerKey κ ι α ω := { t with lifting := true, spread := none }

def fannedOut (t : PerKey κ ι α ω) (spread : Spread κ.Carrier) : PerKey κ ι α ω :=
  { t with spread := some spread }

def coderOver (t : PerKey κ ι α ω) (c : Collection (.pair κ ι)) (p : Pipeline B) :
    Except FlowError (Option (Coder (.pair κ ω))) := (c.apply t.transform).coderOf p

theorem direct_coderOver (t : PerKey κ ι α ω) (c : Collection (.pair κ ι)) (p : Pipeline B) :
    t.direct.coderOver c p =
      t.combiner.groupedCoder p.coders (c.keyCoderIn p.coders) (c.valueCoderIn p.coders) :=
  GroupedValues.coderOf_groupThenExpand ⟨t.combiner, t.sides⟩ ⟨t.fewKeys, none⟩ c p

theorem lifted_coderOver (t : PerKey κ ι α ω) (c : Collection (.pair κ ι)) (p : Pipeline B) :
    t.lifted.coderOver c p = t.combiner.finish.groupedCoder p.coders (p.coders.find? κ)
      (t.combiner.shuffleCoder? p.coders c.keyCoder? (c.valueCoderIn p.coders)) := by
  let union := t.combiner.unionCoder? p.coders c.keyCoder? (c.valueCoderIn p.coders)
  let partials := c.mapBundle (.pair κ (.inputOrAccum ι α))
    (fun _ xs => Lifting.combineBundle t.combiner t.sides xs) p
  refine (GroupedValues.coderOf_groupThenExpand ⟨t.combiner.finish, t.sides⟩ ⟨t.fewKeys, union⟩
    partials.1 partials.2).trans ?_
  rw [KeyedCombiner.shuffleCoder?]
  change _ = t.combiner.finish.groupedCoder p.coders _ (union.orElse _)
  cases union <;> rfl

theorem fannedOut_coderOver (t : PerKey κ ι α ω) (spread : Spread κ.Carrier)
    (c : Collection (.pair κ ι)) {p : Pipeline B} {accum : Coder α}
    (haccum : t.combiner.accumulatorCoder p.coders (c.keyCoderIn p.coders)
      (c.valueCoderIn p.coders) = .ok accum) :
    (t.fannedOut spread).coderOver c p = t.combiner.finish.groupedCoder p.coders (p.coders.find? κ)
      (FanOut.finishCoder? p.coders (c.valueCoderIn p.coders) accum) :=
  FanOut.coderOf_expand t.combiner spread t.seed t.sides t.fewKeys c haccum

/-- Lifting and fan-out give the output the same coder, with the registered key coder; the direct
path has the key coder of the input, and gives the same coder as the others where that is the
registered one and partials are grouped by no coder of their own. -/
theorem coderOver_paths (t : PerKey κ ι α ω) (spread : Spread κ.Carrier)
    (c : Collection (.pair κ ι)) (p : Pipeline B) {lifted fannedOut : Coder α}
    (hlifted : t.combiner.accumulatorCoder p.coders c.keyCoder? (c.valueCoderIn p.coders) =
      .ok lifted)
    (hfannedOut : t.combiner.accumulatorCoder p.coders (c.keyCoderIn p.coders)
      (c.valueCoderIn p.coders) = .ok fannedOut) :
    (t.fannedOut spread).coderOver c p = t.lifted.coderOver c p ∧
    (∀ out, t.direct.coderOver c p = .ok (some out) →
      ∃ k o, c.keyCoderIn p.coders = some k ∧ out = .pair k o) ∧
    (∀ out, t.lifted.coderOver c p = .ok (some out) →
      ∃ k o, p.coders.find? κ = some k ∧ out = .pair k o) ∧
    (∀ k i o, c.coder = some (.pair k i) →
      t.combiner.outputCoder p.coders (some k) (some i) = .ok o →
        t.direct.coderOver c p = .ok (some (.pair k o))) ∧
    (c.keyCoderIn p.coders = p.coders.find? κ →
      (c.valueCoderIn p.coders = none → p.coders.find? (.inputOrAccum ι α) = none) →
        t.direct.coderOver c p = t.lifted.coderOver c p) := by
  rw [direct_coderOver, lifted_coderOver, fannedOut_coderOver t spread c hfannedOut,
    KeyedCombiner.shuffleCoder?_eq hlifted]
  refine ⟨?_, ?_, ?_, ?_, ?_⟩
  · cases c.valueCoderIn p.coders with
    | none => rfl
    | some i =>
      rw [KeyedCombiner.finish_groupedCoder_some, KeyedCombiner.finish_groupedCoder_some]
  · intro out hout
    exact KeyedCombiner.eq_pair_of_groupedCoder (c.keyCoderIn_cases p.coders) hout
  · intro out hout
    exact KeyedCombiner.eq_pair_of_groupedCoder (.inl rfl) hout
  · intro k i o hc ho
    have hkey : c.keyCoderIn p.coders = some k := by
      rw [Collection.keyCoderIn, Collection.keyCoder?, hc]
      rfl
    have hinput : c.valueCoderIn p.coders = some i := by
      rw [Collection.valueCoderIn, Collection.valueCoder?, hc]
      rfl
    rw [hkey, hinput]
    change (bindPairCoder _ (.ok k) (t.combiner.outputCoder p.coders (some k) (some i))).map _ = _
    rw [ho]
    rfl
  · intro hkey hunion
    rw [hkey]
    cases hinput : c.valueCoderIn p.coders with
    | none => exact (KeyedCombiner.finish_groupedCoder_none (hunion hinput) lifted).symm
    | some i => exact (KeyedCombiner.finish_groupedCoder_some i lifted).symm

def summing : PerKey (.string : Sample.Ty) .uint32 .uint32 .uint32 := { combiner := sums }

theorem coderOver_paths_of_words :
    (summing.fannedOut fun _ => 3).coderOver wordSource.1 wordSource.2 =
        summing.lifted.coderOver wordSource.1 wordSource.2 ∧
      summing.direct.coderOver wordSource.1 wordSource.2 =
        summing.lifted.coderOver wordSource.1 wordSource.2 := by
  obtain ⟨hfannedOut, _, _, _, hdirect⟩ :=
    coderOver_paths summing (fun _ => 3) wordSource.1 wordSource.2 rfl rfl
  exact ⟨hfannedOut, hdirect rfl nofun⟩

def numberSource : Collection (.pair .string .int64 : Sample.Ty) × Pipeline Sample.Own :=
  Collection.ofList (.pair .string .int64) [("a", 1), ("b", 2), ("a", 3)] Pipeline.new

/-- The numbers with the serial form of their keys set as the key coder. -/
def serialNumbers : Collection (.pair .string .int64 : Sample.Ty) :=
  numberSource.1.setCoder (.pair (Sample.Scalar.serialCoder .string false) .int64)

def totalling : PerKey (.string : Sample.Ty) .int64 .int64 .int64 :=
  { combiner := (Combiner.sum .int64 (0 : Int64) Word.add).keyed .string }

/-- The key coder set on the input reaches the output of the direct path, and no other. -/
theorem not_coderOver_paths_of_serialNumbers :
    totalling.direct.coderOver serialNumbers numberSource.2 =
        .ok (some (.pair (Sample.Scalar.serialCoder .string false) .int64)) ∧
      totalling.lifted.coderOver serialNumbers numberSource.2 =
        .ok (some (.pair .string .int64)) ∧
      (totalling.fannedOut fun _ => 3).coderOver serialNumbers numberSource.2 =
        .ok (some (.pair .string .int64)) ∧
      totalling.direct.coderOver serialNumbers numberSource.2 ≠
        totalling.lifted.coderOver serialNumbers numberSource.2 := by
  refine ⟨rfl, rfl, rfl, ?_⟩
  have hne : Sample.Scalar.serialCoder .string false ≠ Coder.string := nofun
  intro h
  have hpair : (Coder.pair (Sample.Scalar.serialCoder .string false) .int64 :
      Coder (.pair .string .int64 : Sample.Ty)) = .pair .string .int64 :=
    Option.some.inj (Except.ok.inj h)
  exact hne (Coder.pair.inj hpair).1

end PerKey
end KeyedFlow
