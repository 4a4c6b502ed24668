import KeyedFlow.Proofs.Modes.Graph
import KeyedFlow.Proofs.Typing.Sessions

/-!
Sessions whose runs agree in all modes. Without fan-out and lifting every operation adds plain nodes
only, whatever collections it is given and also where it fails. The two options are left out since
they depend on how a bundle ends: lifting combines each bundle in advance, and fan-out numbers its
records anew.
-/

set_option autoImplicit false

namespace KeyedFlow
open Outcome
variable {B : Type} [TypeFamily B] {σ τ κ ν ι α ω : ElemType B}

open Build

theorem Build.keeps_extend {α : Type} {m : Extend B α}
    (h : ∀ p, ∃ n : Node B, n.Plain ∧ (m p).2 = p.add n) :
    Keeps Pipeline.Plain (Build.extend m) := by
  intro p hp
  obtain ⟨n, hn, hm⟩ := h p
  change (m p).2.Plain
  rw [hm]
  exact hp.add hn

namespace Collection

theorem keepsPlain_source {elems : List (Windowed τ.Carrier)} :
    Keeps Pipeline.Plain (Build.extend (ofWindowed τ elems)) :=
  keeps_extend fun _ => ⟨_, .source _, rfl⟩

theorem keepsPlain_stage {α : Type} {m : Extend B α} (c : Collection σ) (kind : StageKind)
    {op : Nat → List (Windowed σ.Carrier) → Checked (List (Windowed τ.Carrier))}
    (hop : ElementWise op) (hm : ∀ p, (m p).2 = (c.chain τ kind op p).2) :
    Keeps Pipeline.Plain (Build.extend m) :=
  keeps_extend fun p => ⟨_, .stage c.node kind hop, hm p⟩

theorem keepsPlain_of_map {α : Type} {m : Extend B α} (c : Collection σ)
    (f : σ.Carrier → Checked τ.Carrier) (hm : ∀ p, (m p).2 = (c.map τ f p).2) :
    Keeps Pipeline.Plain (Build.extend m) :=
  keepsPlain_stage c .map (.of_expandEach _) hm

theorem keepsPlain_map (c : Collection σ) (f : σ.Carrier → Checked τ.Carrier) :
    Keeps Pipeline.Plain (Build.extend (c.map τ f)) :=
  c.keepsPlain_of_map f fun _ => rfl

theorem keepsPlain_values (c : Collection (.pair κ ν)) :
    Keeps Pipeline.Plain (Build.extend c.values) :=
  c.keepsPlain_of_map (fun e => .ok e.2) fun _ => rfl

theorem keepsPlain_flatMap (c : Collection σ) (f : σ.Carrier → Checked (List τ.Carrier)) :
    Keeps Pipeline.Plain (Build.extend (c.flatMap τ f)) :=
  keepsPlain_stage c .flatMap (.of_expandEach f) fun _ => rfl

theorem keepsPlain_filter (c : Collection σ) (keep : σ.Carrier → Checked Bool) :
    Keeps Pipeline.Plain (Build.extend (c.filter keep)) :=
  keepsPlain_stage c .filter (.of_expandEach _) fun _ => rfl

theorem keepsPlain_windowInto (c : Collection σ) (f : WindowFn) :
    Keeps Pipeline.Plain (Build.extend (c.windowInto f)) :=
  keepsPlain_stage c .windowed (.of_mapM _) fun _ => rfl

theorem keepsPlain_withKey (c : Collection σ) (key : κ.Carrier) :
    Keeps Pipeline.Plain (Build.extend (c.withKey κ key)) :=
  c.keepsPlain_of_map (τ := .pair κ σ) (fun v => .ok (key, v)) fun _ => rfl

theorem keepsPlain_groupByKey [DecidableEq κ.Carrier] [KeyBytes κ.Carrier]
    (c : Collection (.pair κ ν)) (opts : GroupingOptions ν) :
    Keeps Pipeline.Plain (Build.extend (c.groupByKey opts)) :=
  keeps_extend fun _ => ⟨_, .grouping c.node _ _, rfl⟩

theorem keepsPlain_flatten (cs : List (Collection σ)) : Keeps Pipeline.Plain (flatten cs) := by
  cases cs with
  | nil => exact .throw _
  | cons c cs =>
    rw [flatten]
    split
    · exact .throw _
    · apply Keeps.bind
      · exact keeps_extend fun _ => ⟨_, .flatten (List.cons_ne_nil _ _), rfl⟩
      · exact fun _ => .pure _

end Collection

theorem GroupedValues.keepsPlain_expand (g : GroupedValues κ ι α ω)
    (c : Collection (.pair κ (.list ι))) : Keeps Pipeline.Plain (g.expand c) := by
  apply Keeps.get
  intro p
  have hout : Keeps Pipeline.Plain (Build.extend (c.mapWindowed (.pair κ ω) g.record)) :=
    Collection.keepsPlain_stage c .windowed (.of_mapM g.record) fun _ => rfl
  exact hout.bind fun _ => .ofExcept _

/-- Without a spread of keys and without lifting, a combine per key takes the direct path. -/
theorem PerKey.keepsPlain_expand [DecidableEq κ.Carrier] [KeyBytes κ.Carrier]
    {t : PerKey κ ι α ω} (hspread : t.spread = none) (hlifting : t.lifting = false)
    (c : Collection (.pair κ ι)) : Keeps Pipeline.Plain (t.expand c) := by
  rw [expand, hspread, hlifting]
  exact (c.keepsPlain_groupByKey _).bind fun _ => GroupedValues.keepsPlain_expand _ _

namespace Globally
variable {t : Globally ι α ω}

theorem keepsPlain_combineWindows (ht : t.fanout < 2) (c : Collection ι) :
    Keeps Pipeline.Plain (t.combineWindows c) := by
  have hspread : t.perKey.spread = none := if_neg (Nat.not_le.mpr ht)
  refine (c.keepsPlain_withKey _).bind fun keyed => ?_
  refine (PerKey.keepsPlain_expand hspread rfl keyed).bind fun combined => ?_
  exact combined.keepsPlain_values

theorem keepsPlain_withDefault (t : Globally ι α ω) (c : Collection ω) :
    Keeps Pipeline.Plain (t.withDefault c) := by
  refine (Keeps.ofExcept _).bind fun default => ?_
  refine Collection.keepsPlain_source.bind fun guard => ?_
  refine (c.keepsPlain_map _).bind fun outputs => ?_
  refine (Collection.keepsPlain_flatten _).bind fun slots => ?_
  refine (slots.keepsPlain_withKey _).bind fun keyed => ?_
  refine (keyed.keepsPlain_groupByKey _).bind fun grouped => ?_
  refine (grouped.keepsPlain_flatMap _).bind fun defaults => ?_
  exact Collection.keepsPlain_flatten _

theorem keepsPlain_expand (ht : t.fanout < 2) (c : Collection ι) :
    Keeps Pipeline.Plain (t.expand c) := by
  unfold expand
  split
  · refine (Keeps.ofExcept _).bind fun _ => ?_
    exact (keepsPlain_combineWindows ht c).bind fun combined => t.keepsPlain_withDefault combined
  · exact keepsPlain_combineWindows ht c

theorem keepsPlain_asSingletonView (ht : t.fanout < 2) (c : Collection ι) :
    Keeps Pipeline.Plain (t.asSingletonView c) := by
  refine (keepsPlain_combineWindows ht c).bind fun combined => ?_
  refine (Keeps.collect combined .sequential).bind fun elems => ?_
  split
  · exact (Keeps.ofExcept _).bind fun _ => .pure _
  · exact .pure _

end Globally

namespace Operation

def Plain : Operation B → Prop
  | combinePerKey _ t => t.spread = none ∧ t.lifting = false
  | combineGlobally _ t | viewGlobally _ t => t.fanout < 2
  | _ => True

theorem keepsPlain_making {m : Build B (Collection τ)} (h : Keeps Pipeline.Plain m) :
    Keeps Pipeline.Plain (making m) :=
  h.bind fun _ => .pure _

theorem keepsPlain_run {op : Operation B} (hop : op.Plain) : Keeps Pipeline.Plain op.run := by
  cases op with
  | ofList | ofTimestamped => exact keepsPlain_making Collection.keepsPlain_source
  | map c τ f => exact keepsPlain_making (c.keepsPlain_map f)
  | filter c keep => exact keepsPlain_making (c.keepsPlain_filter keep)
  | flatMap c τ f => exact keepsPlain_making (c.keepsPlain_flatMap f)
  | keyBy c κ key =>
    exact keepsPlain_making (c.keepsPlain_map (τ := .pair κ _) _)
  | withKey c κ key => exact keepsPlain_making (c.keepsPlain_withKey key)
  | keys c => exact keepsPlain_making (c.keepsPlain_of_map (fun e => .ok e.1) fun _ => rfl)
  | values c => exact keepsPlain_making c.keepsPlain_values
  | @mapValues κ ν c τ f =>
    exact keepsPlain_making (c.keepsPlain_map (τ := .pair κ τ) _)
  | setCoder | withAccumulationMode => exact keepsPlain_making (.pure _)
  | windowInto c f => exact keepsPlain_making (c.keepsPlain_windowInto f)
  | flatten cs => exact keepsPlain_making (Collection.keepsPlain_flatten cs)
  | groupByKey c opts => exact keepsPlain_making (c.keepsPlain_groupByKey opts)
  | combineGrouped c t => exact keepsPlain_making (t.keepsPlain_expand c)
  | combinePerKey c t => exact keepsPlain_making (PerKey.keepsPlain_expand hop.1 hop.2 c)
  | combineGlobally c t => exact keepsPlain_making (Globally.keepsPlain_expand hop c)
  | viewGlobally c t => exact (Globally.keepsPlain_asSingletonView hop c).bind fun _ => .pure _
  | registerCoder coder => exact fun _ hp => hp

end Operation

namespace Session
variable {s : Session B}

theorem plain_after {op : Operation B} (hop : op.Plain) (hs : s.pipeline.Plain) :
    (s.after op).pipeline.Plain := by
  have hq := Operation.keepsPlain_run hop s.pipeline hs
  rcases after_cases s op with ⟨made, q, hon, hafter⟩ | ⟨e, q, hon, hafter⟩
  all_goals
    rw [hon] at hq
    rw [hafter]
    exact hq

theorem Leads.plain (h : Leads (fun _ op => op.Plain) new s) : s.pipeline.Plain := by
  apply h.keeps (I := fun t => t.pipeline.Plain)
  · intro id n hn
    simp [new, Pipeline.new] at hn
  · exact fun _ _ hop ht => plain_after hop ht

/-- Where no path from a source to a node passes two groupings, collecting the node breaks off in
all modes or in none, and gives the same elements, those of groups with their values in the same
order. Where no path passes a grouping, the elements themselves come in the same order. -/
theorem collect_modes_agree (h : Leads (fun _ op => op.Plain) new s) {id : NodeId}
    (hid : ∀ k, s.pipeline.Path id k → k ≤ 1) (τ : ElemType B) (mode mode' : ExecMode) :
    Corresponds (fun xs ys => xs.Perm ys ∧ ((∀ k, s.pipeline.Path id k → k = 0) → xs = ys))
      (s.pipeline.collect mode τ id) (s.pipeline.collect mode' τ id) :=
  Pipeline.collect_matches h.plain mode mode' τ hid

def grouped : Session Sample.Own := tumbled.after (.groupByKey tumbledWords {})

theorem collect_modes_agree_of_grouped :
    Leads (fun _ op => op.Plain) new grouped ∧
    ∃ groups, groups = [⟨("a", [1, 2]), 12, .interval ⟨3, 13⟩⟩,
        ⟨("b", [3]), 32, .interval ⟨23, 33⟩⟩, ⟨("a", [4]), 2, .interval ⟨-7, 3⟩⟩] ∧
      grouped.pipeline.collect .sequential (.pair .string (.list .uint32)) 2 = .ok groups ∧
      ∀ n, (∃ out, grouped.pipeline.collect (.parallel n) (.pair .string (.list .uint32)) 2 =
          .ok out ∧ groups.Perm out) ∧
        grouped.pipeline.collect (.parallel n) (.pair .string .uint32) 1 =
          grouped.pipeline.collect .sequential (.pair .string .uint32) 1 := by
  have hleads : Leads (fun _ op => op.Plain) new grouped :=
    ((Leads.after .refl trivial).after trivial).after trivial
  have hnode1 : ∀ k, grouped.pipeline.Path 1 k → k = 0 :=
    fun k hk => (hk.of_stage rfl).eq_zero_of_source rfl
  have hnode2 : ∀ k, grouped.pipeline.Path 2 k → k ≤ 1 := by
    intro k hk
    obtain ⟨j, rfl, hj⟩ := hk.of_grouping rfl
    cases hnode1 j hj
    exact Nat.le_refl 1
  refine ⟨hleads, _, rfl, rfl, fun n => ⟨?_, ?_⟩⟩
  · obtain ⟨out, hout, hperm, _⟩ :=
      (collect_modes_agree hleads hnode2 (.pair .string (.list .uint32)) .sequential
        (.parallel n)).ok_left
    exact ⟨out, hout, hperm⟩
  · have hagree := collect_modes_agree hleads (fun k hk => by rw [hnode1 k hk]; omega)
      (.pair .string .uint32) .sequential (.parallel n)
    obtain ⟨out, hout, _, heq⟩ := hagree.ok_left
    rw [hout, ← heq hnode1]
    rfl

end Session
end KeyedFlow
