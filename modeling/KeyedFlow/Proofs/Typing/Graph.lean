import KeyedFlow.Proofs.Collections
import KeyedFlow.Proofs.GroupByKey
import KeyedFlow.Proofs.Placement

/-!
A type system for graphs. A node carries elements of one type that one window function places, by a
rule for each kind of node; the rules also ask that inputs are built first. What is carried is
delivered: a run of the node gives bundles of the type with all elements placed, or breaks off over
its data, but never for want of a node or over a bundle of another type.
-/

set_option autoImplicit false

namespace KeyedFlow
open Outcome
variable {B : Type} [TypeFamily B] {σ τ κ ν : ElemType B} {p q : Pipeline B} {mode : ExecMode}
  {f w : WindowFn}

/-- Failures that the elements of a flow can bring about, whatever the graph. -/
inductive RunError.OverData : RunError → Prop where
  | fault (f : Fault) : OverData (.fault f)
  | encoding (e : CoderError) : OverData (.encoding e)
  | decoding (e : CoderError) : OverData (.decoding e)

/-- From elements that `w` places, `op` makes elements that `f` places. -/
def Moves {α β : Type} (w f : WindowFn)
    (op : Nat → List (Windowed α) → Checked (List (Windowed β))) : Prop :=
  ∀ i xs ys, (∀ u ∈ xs, w.Places u) → op i xs = .ok ys → ∀ v ∈ ys, f.Places v

/-- In the window of `u`, at the time of `u` or at the end of the window. -/
def Windowed.Follows {α β : Type} (v : Windowed β) (u : Windowed α) : Prop :=
  v.window = u.window ∧ (v.timestamp = u.timestamp ∨ v.window.maxTimestamp = .ok v.timestamp)

theorem WindowFn.Places.follows {α β : Type} {u : Windowed α} {v : Windowed β} (hu : f.Places u)
    (h : v.Follows u) : f.Places v :=
  h.2.elim (hu.same_time h.1) (hu.at_end h.1)

theorem moves_of_follows {α β : Type}
    {op : Nat → List (Windowed α) → Checked (List (Windowed β))}
    (h : ∀ i xs ys, op i xs = .ok ys → ∀ v ∈ ys, ∃ u ∈ xs, v.Follows u) : Moves f f op := by
  intro i xs ys hxs hop v hv
  obtain ⟨u, hu, hvu⟩ := h i xs ys hop v hv
  exact (hxs u hu).follows hvu

namespace Pipeline

/-- The node is built after what it reads, and carries elements of type `τ` that `f` places. -/
inductive Carries (p : Pipeline B) : NodeId → ElemType B → WindowFn → Prop where
  | source {id : NodeId} {τ : ElemType B} {f : WindowFn} {elems : List (Windowed τ.Carrier)}
      (hn : p.nodes[id]? = some (.source (Bundle.of τ elems))) (helems : ∀ u ∈ elems, f.Places u) :
      Carries p id τ f
  | stage {id i : Nat} {kind : StageKind} {σ τ : ElemType B} {w f : WindowFn}
      {op : Nat → List (Windowed σ.Carrier) → Checked (List (Windowed τ.Carrier))}
      (hn : p.nodes[id]? = some (.stage i (Collection.onBundle kind σ τ op))) (hi : i < id)
      (hin : Carries p i σ w) (hop : Moves w f op) : Carries p id τ f
  | grouping {id i : Nat} {κ ν : ElemType B} {f : WindowFn} [DecidableEq κ.Carrier]
      [KeyBytes κ.Carrier] {coder : Option (Coder ν)} {fewKeys : Bool}
      (hn : p.nodes[id]? = some (.grouping i (Collection.groupingOp κ ν coder fewKeys)))
      (hi : i < id) (hin : Carries p i (.pair κ ν) f) : Carries p id (.pair κ (.list ν)) f
  | flatten {id : Nat} {is : List NodeId} {τ : ElemType B} {f : WindowFn}
      (hn : p.nodes[id]? = some (.flatten is)) (hi : ∀ i : Nat, i ∈ is → i < id)
      (hin : ∀ i ∈ is, Carries p i τ f) : Carries p id τ f

def Typed (p : Pipeline B) : Prop := ∀ id < p.nodes.size, ∃ τ f, p.Carries id τ f

namespace Carries

theorem exists_node {id : Nat} (h : p.Carries id τ f) :
    ∃ n, p.nodes[id]? = some n ∧ ∀ i : Nat, i ∈ n.inputs → i < id := by
  cases h with
  | source hn _ => exact ⟨_, hn, fun i hi => absurd hi List.not_mem_nil⟩
  | stage hn hi _ _ => exact ⟨_, hn, fun j hj => List.mem_singleton.mp hj ▸ hi⟩
  | grouping hn hi _ => exact ⟨_, hn, fun j hj => List.mem_singleton.mp hj ▸ hi⟩
  | flatten hn hi _ => exact ⟨_, hn, hi⟩

theorem mono {id : Nat} (h : p.Carries id τ f) (hpq : p.Grows q) : q.Carries id τ f := by
  induction h with
  | source hn helems => exact .source (hpq _ _ hn) helems
  | stage hn hi _ hop ih => exact .stage (hpq _ _ hn) hi ih hop
  | grouping hn hi _ ih => exact .grouping (hpq _ _ hn) hi ih
  | flatten hn hi _ ih => exact .flatten (hpq _ _ hn) hi ih

end Carries

theorem typed_new : (new : Pipeline B).Typed := fun _ hid => absurd hid (Nat.not_lt_zero _)

theorem Typed.wellFormed (hp : p.Typed) : p.WellFormed := by
  intro id n hn
  obtain ⟨τ, f, h⟩ := hp id (Array.getElem?_eq_some_iff.mp hn).1
  obtain ⟨m, hm, hinputs⟩ := h.exists_node
  cases hm.symm.trans hn
  exact hinputs

end Pipeline

section Failures
variable {α β χ : Type}

theorem fails_inRun (x : Checked α) : FailsOnlyBy RunError.OverData x.inRun := by
  intro e he
  cases x with
  | ok a => cases he
  | error f =>
    cases he
    exact .fault f

theorem fails_runBundles (op : Nat → List (Windowed α) → Checked (List (Windowed β)))
    (bs : List (List (Windowed α))) : FailsOnlyBy RunError.OverData (runBundles op bs) :=
  .mapM fun e _ => fails_inRun (op e.2 e.1)

namespace Grouping
variable {κ ν : Type} [DecidableEq κ] [KeyBytes κ]

theorem fails_groupBundles {s : Shipping ν χ}
    (hship : ∀ v, FailsOnlyBy RunError.OverData (s.ship v))
    (hreceive : ∀ x, FailsOnlyBy RunError.OverData (s.receive x)) (fewKeys : Bool) (n : Nat)
    (bundles : List (List (Windowed (κ × ν)))) :
    FailsOnlyBy RunError.OverData (groupBundles s fewKeys n bundles) := by
  have hlocal (b : List (Windowed (κ × ν))) : FailsOnlyBy RunError.OverData (localGroups s b) :=
    (FailsOnlyBy.mapM fun w _ => (hship w.value.2).bind fun _ _ => .ok _).bind fun _ _ => .ok _
  have hrecord : ∀ g : (κ × Window) × List χ, FailsOnlyBy RunError.OverData (record s g) := fun g =>
    (FailsOnlyBy.mapM fun x _ => hreceive x).bind fun _ _ =>
      (fails_inRun g.1.2.maxTimestamp).bind fun _ _ => .ok _
  exact (FailsOnlyBy.mapM fun b _ => hlocal b).bind fun _ _ =>
    (FailsOnlyBy.mapM fun g _ => hrecord g).bind fun _ _ => .ok _

end Grouping

theorem Grouping.fails_groupPairs [DecidableEq κ.Carrier] [KeyBytes κ.Carrier]
    (coder : Option (Coder ν)) (fewKeys : Bool) (n : Nat)
    (bundles : List (List (Windowed (κ.Carrier × ν.Carrier)))) :
    FailsOnlyBy RunError.OverData (groupPairs coder fewKeys n bundles) := by
  cases coder with
  | none => exact fails_groupBundles (fun v => .ok v) (fun v => .ok v) fewKeys n bundles
  | some c =>
    apply fails_groupBundles
    · exact fun v => .mapError fun e _ => .encoding e
    · exact fun bytes => .mapError fun e _ => .decoding e

end Failures

/-- A run that gives bundles of type `τ` with all elements placed by `f`, or breaks off over its
data. -/
structure Delivers (τ : ElemType B) (f : WindowFn) (x : Except RunError (List (Bundle B))) :
    Prop where
  bundles : ∀ out, x = .ok out → ∃ bs : List (List (Windowed τ.Carrier)),
    out = bs.map (Bundle.of τ) ∧ ∀ u ∈ bs.flatten, f.Places u
  fails : FailsOnlyBy RunError.OverData x

namespace Delivers
variable {x : Except RunError (List (Bundle B))}

theorem source {elems : List (Windowed τ.Carrier)} (helems : ∀ u ∈ elems, f.Places u) :
    Delivers τ f ((Node.source (Bundle.of τ elems)).run mode []) := by
  refine ⟨?_, .ok _⟩
  rintro out ⟨⟩
  exact ⟨_, rfl, (flatten_splitInto _ elems).symm ▸ helems⟩

theorem stage {kind : StageKind}
    {op : Nat → List (Windowed σ.Carrier) → Checked (List (Windowed τ.Carrier))}
    (hx : Delivers σ w x) (hop : Moves w f op) :
    Delivers τ f (x >>= Node.runStage (Collection.onBundle kind σ τ op) 0) := by
  constructor
  · intro out hout
    obtain ⟨ins, hins, hrun⟩ := bind_eq_ok_iff.mp hout
    obtain ⟨bs, rfl, hbs⟩ := hx.bundles ins hins
    rw [runStage_onBundle] at hrun
    obtain ⟨outs, houts, rfl⟩ := map_eq_ok_iff.mp hrun
    refine ⟨outs, rfl, fun v hv => ?_⟩
    obtain ⟨b, hb, hv⟩ := List.mem_flatten.mp hv
    obtain ⟨e, he, hmade⟩ := mem_of_forall₂ (mapM_eq_ok_iff.mp houts) hb
    have hin : e.1 ∈ bs := List.fst_mem_of_mem_zipIdx he
    apply hop e.2 e.1 b _ (inRun_eq_ok_iff.mp hmade) v hv
    exact fun u hu => hbs u (List.mem_flatten.mpr ⟨e.1, hin, hu⟩)
  · apply hx.fails.bind
    intro ins hins
    obtain ⟨bs, rfl, _⟩ := hx.bundles ins hins
    rw [runStage_onBundle]
    exact (fails_runBundles op bs).map

theorem grouping [DecidableEq κ.Carrier] [KeyBytes κ.Carrier] (hx : Delivers (.pair κ ν) f x)
    (coder : Option (Coder ν)) (fewKeys : Bool) (n : Nat) :
    Delivers (.pair κ (.list ν)) f (x >>= Collection.groupingOp κ ν coder fewKeys n) := by
  constructor
  · intro out hout
    obtain ⟨ins, hins, hrun⟩ := bind_eq_ok_iff.mp hout
    obtain ⟨bs, rfl, hbs⟩ := hx.bundles ins hins
    rw [Grouping.groupingOp_map_of] at hrun
    obtain ⟨groups, hgroups, rfl⟩ := map_eq_ok_iff.mp hrun
    refine ⟨groups, rfl, fun v hv => ?_⟩
    have hone := (Grouping.groupPairs_runsPerSlot coder fewKeys n bs).onePerSlot groups.flatten
      (by rw [hgroups]; rfl)
    obtain ⟨u, hu, hslot⟩ := List.mem_map.mp ((hone.mem_iff v.slot).mp (List.mem_map_of_mem hv))
    exact (hbs u hu).at_end (congrArg Prod.snd hslot.symm) (hone.timestamp v hv)
  · apply hx.fails.bind
    intro ins hins
    obtain ⟨bs, rfl, _⟩ := hx.bundles ins hins
    rw [Grouping.groupingOp_map_of]
    exact (Grouping.fails_groupPairs coder fewKeys n bs).map

theorem append {y : Except RunError (List (Bundle B))} (hx : Delivers τ f x)
    (hy : Delivers τ f y) : Delivers τ f (do
      let xs ← x
      let ys ← y
      .ok (xs ++ ys)) := by
  constructor
  · intro out hout
    obtain ⟨xs, hxs, hout⟩ := bind_eq_ok_iff.mp hout
    obtain ⟨ys, hys, hout⟩ := bind_eq_ok_iff.mp hout
    cases hout
    obtain ⟨bs, rfl, hbs⟩ := hx.bundles xs hxs
    obtain ⟨cs, rfl, hcs⟩ := hy.bundles ys hys
    refine ⟨bs ++ cs, List.map_append.symm, ?_⟩
    rw [List.flatten_append, List.forall_mem_append]
    exact ⟨hbs, hcs⟩
  · exact hx.fails.bind fun _ _ => hy.fails.bind fun _ _ => .ok _

theorem flatten {g : NodeId → Except RunError (List (Bundle B))} {is : List NodeId}
    (h : ∀ i ∈ is, Delivers τ f (g i)) :
    Delivers τ f (Pipeline.forEach g is >>= fun ins => .ok ins.flatten) := by
  induction is with
  | nil =>
    refine ⟨?_, .ok _⟩
    rintro out ⟨⟩
    exact ⟨[], rfl, fun _ hu => absurd hu List.not_mem_nil⟩
  | cons i is ih =>
    have hrest := ih fun j hj => h j (List.mem_cons_of_mem i hj)
    have hsplit : (Pipeline.forEach g (i :: is) >>= fun ins => Except.ok ins.flatten) = (do
        let xs ← g i
        let ys ← Pipeline.forEach g is >>= fun ins => .ok ins.flatten
        .ok (xs ++ ys)) := by
      rw [Pipeline.forEach]
      cases g i with
      | error e => rfl
      | ok xs => cases Pipeline.forEach g is <;> rfl
    rw [hsplit]
    exact (h i List.mem_cons_self).append hrest

theorem places_of_collect {id : NodeId} (h : Delivers τ f (p.evaluate mode id))
    {elems : List (Windowed τ.Carrier)} (helems : p.collect mode τ id = .ok elems) :
    ∀ u ∈ elems, f.Places u := by
  obtain ⟨out, hout, helems⟩ := bind_eq_ok_iff.mp helems
  obtain ⟨bs, rfl, hbs⟩ := h.bundles out hout
  rw [Collection.elements_map_of] at helems
  cases helems
  exact hbs

end Delivers

namespace Pipeline

theorem evaluate_of_input (hp : p.WellFormed) {id i : NodeId} {n : Node B}
    (hn : p.nodes[id]? = some n) (hin : n.inputs = [i]) :
    p.evaluate mode id = p.evaluate mode i >>= fun bs => n.run mode [bs] := by
  rw [evaluate_eq hp hn, hin, forEach]
  cases p.evaluate mode i <;> rfl

theorem Carries.delivers {id : Nat} (h : p.Carries id τ f) (hp : p.WellFormed) (mode : ExecMode) :
    Delivers τ f (p.evaluate mode id) := by
  induction h with
  | source hn helems =>
    rw [evaluate_eq hp hn]
    exact .source helems
  | stage hn hi hin hop ih =>
    rw [evaluate_of_input hp hn rfl]
    simp only [Node.run, List.flatten_singleton]
    exact ih.stage hop
  | grouping hn hi hin ih =>
    rw [evaluate_of_input hp hn rfl]
    simp only [Node.run, List.flatten_singleton]
    exact ih.grouping _ _ _
  | flatten hn hi hin ih =>
    rw [evaluate_eq hp hn]
    exact .flatten ih

end Pipeline
end KeyedFlow
