import KeyedFlow.Proofs.Building
import KeyedFlow.Proofs.GroupedValues
import KeyedFlow.Transform.PerKey

/-!
The windowing strategy of what a transform returns. A combine per key keeps the strategy of its
input on every path, so its output can be flattened with whatever its input can be flattened with.
-/

set_option autoImplicit false

namespace KeyedFlow
variable {B : Type} [TypeFamily B] {κ ι α ω σ : ElemType B}

open Build

theorem strategy_of_bindPairCoder {out d : Collection (.pair κ ω)}
    {key : Except CoderError (Coder κ)} {output : Except CoderError (Coder ω)}
    (h : bindPairCoder out key output = .ok d) : d.strategy = out.strategy := by
  obtain ⟨k, o, _, _, rfl⟩ | rfl := eq_of_bindPairCoder h
  · rfl
  · rfl

theorem Collection.flatten_strategy (c : Collection σ) (cs : List (Collection σ)) :
    Ensures (Collection.flatten (c :: cs)) fun d => d.strategy = c.strategy := by
  refine fun p => ⟨False.elim, fun d q hd => ?_⟩
  rw [Collection.flatten] at hd
  split at hd
  · cases hd
  · cases hd
    rfl

theorem Collection.flatten_meets {A : Prop} {p : Pipeline B} {mode : ExecMode} {a b : Collection σ}
    {x y : Except RunError (List (List (Windowed σ.Carrier)))} (ha : a.Gives p mode x)
    (hb : b.Gives p mode y) (hw : a.strategy.windowFn = b.strategy.windowFn) :
    Meets A (Collection.flatten [a, b]) p fun d q => p.Extends q ∧ d.coder = a.coder ∧
      d.strategy = a.strategy ∧ d.Gives q mode (do
        let xs ← x
        let ys ← y
        .ok (xs ++ ys)) := by
  obtain ⟨d, q, hon, hpq, hcoder, hd⟩ := Collection.flatten_on ha hb hw
  have hstrategy := (Collection.flatten_strategy a [b] p).post d q hon
  exact .of_ok hon ⟨hpq, hcoder, hstrategy, hd⟩

theorem GroupedValues.expand_strategy (g : GroupedValues κ ι α ω)
    (c : Collection (.pair κ (.list ι))) :
    Ensures (g.expand c) fun d => d.strategy = c.strategy := by
  apply Ensures.get
  intro p
  have hout : Ensures (Build.extend (c.mapWindowed (.pair κ ω) g.record)) fun d =>
      d.strategy = c.strategy := .extend fun _ => rfl
  exact hout.bind fun _ hd => .ofExcept fun _ h => (strategy_of_bindPairCoder h).trans hd

namespace PerKey
variable [DecidableEq κ.Carrier] [KeyBytes κ.Carrier]

theorem group_strategy (g : GroupedValues κ ι α ω) (opts : GroupingOptions ι)
    (c : Collection (.pair κ ι)) :
    Ensures (do
      let grouped ← Build.extend (c.groupByKey opts)
      g.expand grouped) fun d => d.strategy = c.strategy := by
  have hgrouped : Ensures (Build.extend (c.groupByKey opts)) fun d => d.strategy = c.strategy :=
    .extend fun _ => rfl
  exact hgrouped.bind fun d hd => hd ▸ g.expand_strategy d

theorem expandLifted_strategy (t : PerKey κ ι α ω) (c : Collection (.pair κ ι)) :
    Ensures (t.expandLifted c) fun d => d.strategy = c.strategy := by
  apply Ensures.get
  intro p
  have hpartials : Ensures (Build.extend (c.mapBundle (.pair κ (.inputOrAccum ι α))
      fun _ xs => Lifting.combineBundle t.combiner t.sides xs)) fun d => d.strategy = c.strategy :=
    .extend fun _ => rfl
  exact hpartials.bind fun d hd => hd ▸ group_strategy _ _ d

/-- The last flatten takes the strategy from the partials, which were given that of the input. -/
theorem fanOut_strategy (comb : KeyedCombiner κ ι α ω) (spread : Spread κ.Carrier)
    (seed : ShardSeed) (sides : SideInputs B) (fewKeys : Bool) (c : Collection (.pair κ ι)) :
    Ensures (FanOut.expand comb spread seed sides fewKeys c) fun d =>
      d.strategy = c.strategy := by
  apply Ensures.get
  intro p
  dsimp only
  -- with the accumulator coder or the failure to derive it, the same steps follow
  split
  all_goals
    refine .after _ fun accum => .after _ fun routed => .after _ fun hot => .after _ fun grouped =>
      .after _ fun combined => .after _ fun partials => .after _ fun cold => ?_
    refine (Collection.flatten_strategy _ _).bind fun all hall => ?_
    exact (group_strategy _ _ all).imp fun _ hd => hd.trans hall

theorem expand_strategy (t : PerKey κ ι α ω) (c : Collection (.pair κ ι)) :
    Ensures (t.expand c) fun d => d.strategy = c.strategy := by
  unfold expand
  split
  · exact fanOut_strategy _ _ _ _ _ c
  · split
    · exact t.expandLifted_strategy c
    · exact group_strategy _ _ c

end PerKey
end KeyedFlow
