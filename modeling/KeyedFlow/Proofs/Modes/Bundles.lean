import KeyedFlow.Proofs.Collections
import KeyedFlow.Proofs.GroupByKey

/-!
Bundles of two runs that are cut differently. What the runs of a node have in common is the elements
of all its bundles together, in the same order as long as nothing was grouped. An element-wise stage
keeps the order, since it makes no difference to it where a bundle ends. A grouping that is given
the elements in one order makes the same groups, whose order depends on the number of its bundles.
-/

set_option autoImplicit false

namespace KeyedFlow
open Outcome
variable {B : Type} [TypeFamily B] {σ τ κ ν : ElemType B} {ordered ordered' : Prop}

/-- The operation of a stage that treats every element on its own, wherever its bundle stands. -/
def ElementWise {α β : Type} (op : Nat → List (Windowed α) → Checked (List (Windowed β))) : Prop :=
  ∃ g : Windowed α → Checked (List (Windowed β)), ∀ i xs, op i xs = (xs.mapM g).map List.flatten

/-- The same elements, and in the same order where `ordered` holds. -/
def Matches {α : Type} (ordered : Prop) (xs ys : List α) : Prop :=
  xs.Perm ys ∧ (ordered → xs = ys)

namespace Matches
variable {α β : Type} {xs ys xs' ys' : List α}

theorem of_eq (h : xs = ys) : Matches ordered xs ys := ⟨.of_eq h, fun _ => h⟩

theorem imp (h : Matches ordered xs ys) (ho : ordered' → ordered) : Matches ordered' xs ys :=
  ⟨h.1, fun ho' => h.2 (ho ho')⟩

theorem append (h : Matches ordered xs ys) (h' : Matches ordered xs' ys') :
    Matches ordered (xs ++ xs') (ys ++ ys') :=
  ⟨h.1.append h'.1, fun ho => by rw [h.2 ho, h'.2 ho]⟩

theorem mapM_flatten (h : Matches ordered xs ys) (g : α → Except RunError (List β)) :
    Corresponds (Matches ordered) ((xs.mapM g).map List.flatten)
      ((ys.mapM g).map List.flatten) := by
  apply (mapM_perm g h.1).map_of_ok
  intro as bs has hbs hperm
  refine ⟨hperm.flatten, fun ho => ?_⟩
  rw [h.2 ho, hbs] at has
  rw [Except.ok.inj has]

end Matches

namespace ElementWise
variable {α β : Type}

theorem of_expandEach (g : α → Checked (List β)) :
    ElementWise fun _ => Collection.expandEach g :=
  ⟨_, fun _ _ => bind_ok_eq_map _ _⟩

theorem of_mapM (g : Windowed α → Checked (Windowed β)) : ElementWise fun _ xs => xs.mapM g := by
  refine ⟨fun x => (g x).map fun y => [y], fun _ xs => ?_⟩
  change xs.mapM g = _
  rw [mapM_map_results]
  cases xs.mapM g with
  | error e => rfl
  | ok ys =>
    change .ok ys = Except.ok (ys.map fun y => [y]).flatten
    rw [← List.flatMap_def, List.flatMap_singleton']

/-- How the elements were cut into bundles does not matter to the stage. -/
theorem flatten_runBundles {op : Nat → List (Windowed α) → Checked (List (Windowed β))}
    (h : ElementWise op) : ∃ g : Windowed α → Except RunError (List (Windowed β)),
      ∀ bss, (runBundles op bss).map List.flatten = (bss.flatten.mapM g).map List.flatten := by
  obtain ⟨g, hg⟩ := h
  have hop : op = fun _ xs => (xs.mapM g).map List.flatten := by
    funext i xs
    exact hg i xs
  have hin : ∀ xs : List (Windowed α), Checked.inRun ((xs.mapM g).map List.flatten) =
      (xs.mapM fun x => (g x).inRun).map List.flatten := by
    intro xs
    rw [← inRun_mapM]
    cases xs.mapM g <;> rfl
  refine ⟨fun x => (g x).inRun, fun bss => ?_⟩
  rw [hop, runBundles_eq_mapM]
  simp only [hin]
  rw [mapM_map_results, ← Outcome.mapM_flatten]
  cases bss.mapM fun xs : List (Windowed α) => xs.mapM fun x => (g x).inRun with
  | error e => rfl
  | ok yss => exact congrArg Except.ok List.flatten_flatten.symm

end ElementWise

section Bundles
variable {α : Type} {bs bs' : List (Bundle B)}

theorem Bundle.eq_of_as? {b : Bundle B} {xs : List (Windowed τ.Carrier)} (h : b.as? τ = some xs) :
    b = Bundle.of τ xs := by
  obtain ⟨σ, elems⟩ := b
  unfold Bundle.as? at h
  split at h
  · rename_i hσ
    cases hσ
    cases h
    rfl
  · cases h

theorem exists_eq_map_of (h : ∀ b ∈ bs, ∃ xs, b.as? τ = some xs) :
    ∃ bss : List (List (Windowed τ.Carrier)), bs = bss.map (Bundle.of τ) := by
  induction bs with
  | nil => exact ⟨[], rfl⟩
  | cons b bs ih =>
    obtain ⟨xs, hxs⟩ := h b List.mem_cons_self
    obtain ⟨bss, rfl⟩ := ih fun c hc => h c (List.mem_cons_of_mem b hc)
    exact ⟨xs :: bss, by rw [List.map_cons, Bundle.eq_of_as? hxs]⟩

/-- An operation that breaks off unless all bundles hold elements of type `σ`. -/
def Takes (σ : ElemType B) (f : List (Bundle B) → Except RunError α) : Prop :=
  ∀ bs out, f bs = .ok out → ∃ bss : List (List (Windowed σ.Carrier)), bs = bss.map (Bundle.of σ)

theorem Takes.elements {f : List (Bundle B) → Except RunError α} (hf : Takes σ f) {out : α}
    (h : f bs = .ok out) : ∃ xs, Pipeline.elements σ bs = .ok xs := by
  obtain ⟨bss, rfl⟩ := hf bs out h
  exact ⟨_, Collection.elements_map_of bss⟩

theorem takes_elements (τ : ElemType B) : Takes τ (Pipeline.elements τ) := by
  intro bs
  induction bs with
  | nil => exact fun _ _ => ⟨[], rfl⟩
  | cons b bs ih =>
    intro out hout
    rw [Pipeline.elements] at hout
    split at hout
    · cases hout
    · rename_i xs hxs
      obtain ⟨rest, hrest, _⟩ := bind_eq_ok_iff.mp hout
      obtain ⟨bss, rfl⟩ := ih rest hrest
      exact ⟨xs :: bss, by rw [List.map_cons, Bundle.eq_of_as? hxs]⟩

theorem takes_runStage (kind : StageKind)
    (op : Nat → List (Windowed σ.Carrier) → Checked (List (Windowed τ.Carrier))) :
    Takes σ (Node.runStage (Collection.onBundle kind σ τ op) 0) := by
  intro bs out hout
  rw [runStage_eq_mapM] at hout
  apply exists_eq_map_of
  intro b hb
  obtain ⟨i, hi, rfl⟩ := List.mem_iff_getElem.mp hb
  obtain ⟨c, hc⟩ := exists_mapM_eq_ok_iff.mp ⟨out, hout⟩ (bs[i], i)
    (List.mk_mem_zipIdx_iff_getElem?.mpr (List.getElem?_eq_getElem hi))
  unfold Collection.onBundle at hc
  split at hc
  · cases hc
  · rename_i xs hxs
    exact ⟨xs, hxs⟩

theorem takes_groupTyped {χ : Type} [DecidableEq κ.Carrier] [KeyBytes κ.Carrier]
    (s : Shipping ν.Carrier χ) (fewKeys : Bool) (n : Nat) :
    Takes (.pair κ ν) (Collection.groupTyped κ ν s fewKeys n) := by
  intro bs out hout
  obtain ⟨locals, hlocals, _⟩ := bind_eq_ok_iff.mp hout
  apply exists_eq_map_of
  intro b hb
  obtain ⟨g, hg⟩ := exists_mapM_eq_ok_iff.mp ⟨locals, hlocals⟩ b hb
  split at hg
  · cases hg
  · rename_i xs hxs
    exact ⟨xs, hxs⟩

theorem takes_groupingOp [DecidableEq κ.Carrier] [KeyBytes κ.Carrier] (coder : Option (Coder ν))
    (fewKeys : Bool) (n : Nat) : Takes (.pair κ ν) (Collection.groupingOp κ ν coder fewKeys n) := by
  cases coder with
  | none => exact takes_groupTyped _ fewKeys n
  | some c => exact takes_groupTyped _ fewKeys n

theorem Pipeline.elements_append (bs cs : List (Bundle B)) :
    Pipeline.elements τ (bs ++ cs) = (do
      let xs ← Pipeline.elements τ bs
      let ys ← Pipeline.elements τ cs
      .ok (xs ++ ys)) := by
  induction bs with
  | nil =>
    rw [List.nil_append, Pipeline.elements, ok_bind]
    cases Pipeline.elements τ cs <;> rfl
  | cons b bs ih =>
    rw [List.cons_append, Pipeline.elements, Pipeline.elements, ih]
    cases b.as? τ with
    | none => rfl
    | some xs =>
      cases Pipeline.elements τ bs with
      | error e => rfl
      | ok ys =>
        cases Pipeline.elements τ cs with
        | error e => rfl
        | ok zs => exact congrArg Except.ok (List.append_assoc xs ys zs).symm

/-- Whatever the type, taken together the bundles hold matching elements of it, or hold others. -/
structure Alike (ordered : Prop) (bs bs' : List (Bundle B)) : Prop where
  -- no bundles at all would hold elements of every type
  ne_nil : bs ≠ []
  ne_nil' : bs' ≠ []
  elements : ∀ τ, Corresponds (Matches ordered) (Pipeline.elements τ bs) (Pipeline.elements τ bs')

namespace Alike

theorem imp (h : Alike ordered bs bs') (ho : ordered' → ordered) : Alike ordered' bs bs' :=
  ⟨h.ne_nil, h.ne_nil', fun τ => (h.elements τ).imp fun _ _ hm => hm.imp ho⟩

theorem elements_of_ne {σ : ElemType B} (h : τ ≠ σ) {bss : List (List (Windowed τ.Carrier))}
    (hb : bss ≠ []) : ∃ e, Pipeline.elements σ (bss.map (Bundle.of τ)) = .error e := by
  cases bss with
  | nil => exact absurd rfl hb
  | cons xs bss =>
    have hnone : (Bundle.of τ xs).as? σ = none := dif_neg h
    exact ⟨_, by rw [List.map_cons, Pipeline.elements, hnone]⟩

theorem of_typed {bss bss' : List (List (Windowed τ.Carrier))} (hb : bss ≠ []) (hb' : bss' ≠ [])
    (h : Matches ordered bss.flatten bss'.flatten) :
    Alike ordered (bss.map (Bundle.of τ)) (bss'.map (Bundle.of τ)) := by
  refine ⟨by simpa using hb, by simpa using hb', fun σ => ?_⟩
  by_cases hσ : τ = σ
  · subst hσ
    rw [Collection.elements_map_of, Collection.elements_map_of]
    exact .ok h
  · obtain ⟨e, he⟩ := elements_of_ne hσ hb
    obtain ⟨e', he'⟩ := elements_of_ne hσ hb'
    rw [he, he']
    exact .error e e'

theorem append {cs cs' : List (Bundle B)} (h : Alike ordered bs bs') (h' : Alike ordered cs cs') :
    Alike ordered (bs ++ cs) (bs' ++ cs') := by
  refine ⟨List.append_ne_nil_of_left_ne_nil h.ne_nil cs,
    List.append_ne_nil_of_left_ne_nil h.ne_nil' cs', fun τ => ?_⟩
  rw [Pipeline.elements_append, Pipeline.elements_append]
  apply (h.elements τ).bind
  intro xs xs' hx
  apply (h'.elements τ).bind
  intro ys ys' hy
  exact .ok (hx.append hy)

/-- Operations that break off over other types only have to be compared on bundles of `σ`. -/
theorem run (h : Alike ordered bs bs') {f f' : List (Bundle B) → Except RunError (List (Bundle B))}
    (hf : Takes σ f) (hf' : Takes σ f')
    (hrun : ∀ bss bss' : List (List (Windowed σ.Carrier)), bss ≠ [] → bss' ≠ [] →
      Matches ordered bss.flatten bss'.flatten →
      Corresponds (Alike ordered') (f (bss.map (Bundle.of σ))) (f' (bss'.map (Bundle.of σ)))) :
    Corresponds (Alike ordered') (f bs) (f' bs') := by
  have hin := h.elements σ
  cases hx : Pipeline.elements σ bs with
  | ok xs =>
    rw [hx] at hin
    obtain ⟨xs', hx', hm⟩ := hin.ok_left
    obtain ⟨bss, rfl⟩ := takes_elements σ bs xs hx
    obtain ⟨bss', rfl⟩ := takes_elements σ bs' xs' hx'
    rw [Collection.elements_map_of] at hx hx'
    cases hx
    cases hx'
    exact hrun bss bss' (by simpa using h.ne_nil) (by simpa using h.ne_nil') hm
  | error e =>
    rw [hx] at hin
    obtain ⟨e', hx'⟩ := hin.error_left
    have hfails : ¬∃ out, f bs = .ok out := by
      intro ⟨out, hout⟩
      obtain ⟨xs, hxs⟩ := hf.elements hout
      cases hx.symm.trans hxs
    have hfails' : ¬∃ out, f' bs' = .ok out := by
      intro ⟨out, hout⟩
      obtain ⟨xs, hxs⟩ := hf'.elements hout
      cases hx'.symm.trans hxs
    exact .of_iff (iff_of_false hfails hfails') fun out _ hout _ => absurd ⟨out, hout⟩ hfails

theorem source (elems : Bundle B) (mode mode' : ExecMode) : Corresponds (Alike ordered)
    ((Node.source elems).run mode []) ((Node.source elems).run mode' []) := by
  have hne : ∀ n, splitInto n elems.elems ≠ [] := by
    intro n
    unfold splitInto
    split
    · simp
    · unfold chunks
      split <;> simp
  refine .ok (of_typed (hne _) (hne _) (.of_eq ?_))
  rw [flatten_splitInto, flatten_splitInto]

theorem runBundles_ne_nil {α β : Type}
    {op : Nat → List (Windowed α) → Checked (List (Windowed β))} {bss : List (List (Windowed α))}
    {out : List (List (Windowed β))} (h : runBundles op bss = .ok out) (hb : bss ≠ []) :
    out ≠ [] := by
  have hlen := (mapM_eq_ok_iff.mp h).length_eq
  rw [List.length_zipIdx] at hlen
  exact List.ne_nil_of_length_pos (hlen ▸ List.length_pos_of_ne_nil hb)

theorem stage (h : Alike ordered bs bs') (kind : StageKind)
    {op : Nat → List (Windowed σ.Carrier) → Checked (List (Windowed τ.Carrier))}
    (hop : ElementWise op) : Corresponds (Alike ordered)
      (Node.runStage (Collection.onBundle kind σ τ op) 0 bs)
      (Node.runStage (Collection.onBundle kind σ τ op) 0 bs') := by
  apply h.run (takes_runStage kind op) (takes_runStage kind op)
  intro bss bss' hb hb' hm
  rw [runStage_onBundle, runStage_onBundle]
  obtain ⟨g, hg⟩ := hop.flatten_runBundles
  have hout : Corresponds (Matches ordered) ((runBundles op bss).map List.flatten)
      ((runBundles op bss').map List.flatten) := by
    rw [hg, hg]
    exact hm.mapM_flatten g
  apply hout.of_map.map_of_ok
  intro out out' hrun hrun' hm
  exact of_typed (runBundles_ne_nil hrun hb) (runBundles_ne_nil hrun' hb') hm

/-- A grouping that is given one order of elements runs once per slot on the same values, however
many bundles it makes. -/
theorem grouping (h : Alike ordered bs bs') (ho : ordered) [DecidableEq κ.Carrier]
    [KeyBytes κ.Carrier] (coder : Option (Coder ν)) (fewKeys : Bool) (n n' : Nat) :
    Corresponds (Alike False) (Collection.groupingOp κ ν coder fewKeys n bs)
      (Collection.groupingOp κ ν coder fewKeys n' bs') := by
  apply h.run (takes_groupingOp coder fewKeys n) (takes_groupingOp coder fewKeys n')
  intro bss bss' hb hb' hm
  rw [Grouping.groupingOp_map_of, Grouping.groupingOp_map_of]
  have hrun' := Grouping.groupPairs_runsPerSlot coder fewKeys n' bss'
  rw [← hm.2 ho] at hrun'
  have hout := (Grouping.groupPairs_runsPerSlot coder fewKeys n bss).corresponds hrun'
  have hne : ∀ m (css : List (List (Windowed (κ.Carrier × ν.Carrier)))) out,
      Grouping.groupPairs coder fewKeys m css = .ok out → out ≠ [] := by
    intro m css out hgroups
    apply List.ne_nil_of_length_pos
    rw [(Grouping.groupPairs_placement hgroups).1]
    split <;> omega
  apply hout.of_map.map_of_ok
  intro out out' hgroups hgroups' hperm
  exact of_typed (hne _ _ _ hgroups) (hne _ _ _ hgroups') ⟨hperm, False.elim⟩

end Alike

end Bundles

end KeyedFlow
