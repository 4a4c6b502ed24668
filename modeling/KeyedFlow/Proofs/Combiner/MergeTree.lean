import KeyedFlow.Proofs.Combiner.Laws
import KeyedFlow.Proofs.GroupByKey

/-!
Trees of accumulators. Batches of inputs are folded from fresh accumulators and merged in any shape,
any number at a time; on the way an accumulator may be compacted, or written and read back. When
merging folds is folding all inputs and what is read back is as good as what was written, every
tree gives the output of a single batch.
-/

set_option autoImplicit false

namespace KeyedFlow
open Outcome

inductive MergeTree (ι : Type) where
  | fresh
  | add (t : MergeTree ι) (x : ι)
  | merge (ts : List (MergeTree ι))
  | compact (t : MergeTree ι)
  | recode (t : MergeTree ι)

namespace MergeTree

@[elab_as_elim, induction_eliminator]
theorem induct {ι : Type} {motive : MergeTree ι → Prop} (fresh : motive .fresh)
    (add : ∀ t x, motive t → motive (.add t x))
    (merge : ∀ ts, (∀ t ∈ ts, motive t) → motive (.merge ts))
    (compact : ∀ t, motive t → motive (.compact t))
    (recode : ∀ t, motive t → motive (.recode t)) : ∀ t, motive t
  | .fresh => fresh
  | .add t x => add t x (induct fresh add merge compact recode t)
  | .merge ts => merge ts fun t _ => induct fresh add merge compact recode t
  | .compact t => compact t (induct fresh add merge compact recode t)
  | .recode t => recode t (induct fresh add merge compact recode t)

/-- All inputs, from left to right. -/
def inputs {ι : Type} : MergeTree ι → List ι
  | fresh => []
  | add t x => t.inputs ++ [x]
  | merge ts => (ts.map inputs).flatten
  | compact t => t.inputs
  | recode t => t.inputs

variable {B : Type} [TypeFamily B] {ι α ω : ElemType B}

/-- The accumulator at the root, written and read back by `coder` where the tree says so. -/
def build (c : Combiner ι α ω) (coder : Option (Coder α)) :
    MergeTree ι.Carrier → Except RunError α.Carrier
  | fresh => .ok c.create
  | add t x => do
    let a ← t.build c coder
    (c.add a x).inRun
  | merge ts => do
    let as ← ts.mapM (build c coder)
    (c.merge as).inRun
  | compact t => do
    let a ← t.build c coder
    (c.compact a).inRun
  | recode t => do
    let a ← t.build c coder
    Grouping.crossingBy coder a

def output (c : Combiner ι α ω) (coder : Option (Coder α)) (t : MergeTree ι.Carrier) :
    Except RunError ω.Carrier := do
  let a ← t.build c coder
  (c.extract a).inRun

section Inputs
variable {ι : Type}

@[simp] theorem inputs_fresh : (fresh : MergeTree ι).inputs = [] := by rw [inputs]

@[simp] theorem inputs_add (t : MergeTree ι) (x : ι) : (t.add x).inputs = t.inputs ++ [x] := by
  rw [inputs]

@[simp] theorem inputs_merge (ts : List (MergeTree ι)) :
    (merge ts).inputs = (ts.map inputs).flatten := by
  rw [inputs]

@[simp] theorem inputs_compact (t : MergeTree ι) : t.compact.inputs = t.inputs := by rw [inputs]

@[simp] theorem inputs_recode (t : MergeTree ι) : t.recode.inputs = t.inputs := by rw [inputs]

theorem inputs_of_mem_merge {ts : List (MergeTree ι)} {t : MergeTree ι} (ht : t ∈ ts) :
    t.inputs <:+: (merge ts).inputs := by
  rw [inputs_merge]
  exact List.infix_of_mem_flatten (List.mem_map_of_mem ht)

end Inputs

section Laws
variable {c : Combiner ι α ω} {R : α.Carrier → α.Carrier → Prop} {coder : Option (Coder α)}

/-- Accumulators of consecutive inputs are read back as ones that `R` relates to them. -/
def Survives (c : Combiner ι α ω) (R : α.Carrier → α.Carrier → Prop) (coder : Option (Coder α))
    (xs : List ι.Carrier) : Prop :=
  ∀ ys a, ys <:+: xs → c.Stands R (.accum a) ys → ∃ b, Coder.Crosses coder a b ∧ R a b

theorem Survives.mono {xs ys : List ι.Carrier} (h : Survives c R coder xs) (hs : ys <:+: xs) :
    Survives c R coder ys := fun zs a hzs ha => h zs a (hzs.trans hs) ha

/-- By induction on the tree; an accumulator stands for the inputs below it all along. -/
theorem build_corresponds (h : c.MergesAll R) (t : MergeTree ι.Carrier)
    (hcoder : Survives c R coder t.inputs) :
    Corresponds R (t.build c coder) (c.fold t.inputs) := by
  induction t with
  | fresh =>
    rw [build, inputs]
    exact .ok (h.equivalence.refl c.create)
  | add t x ih =>
    rw [inputs_add] at hcoder
    rw [build, inputs_add, Combiner.fold_snoc]
    apply (ih (hcoder.mono (List.infix_append' [] _ _))).bind
    intro a b hab
    exact (h.add_congr hab x).inRun
  | merge ts ih =>
    have hsub (t : MergeTree ι.Carrier) (ht : t ∈ ts) :
        Corresponds R (t.build c coder) (c.fold t.inputs) :=
      ih t ht (hcoder.mono (inputs_of_mem_merge ht))
    have hall : Corresponds R (ts.mapM (build c coder) >>= fun as => (c.merge as).inRun)
        ((ts.map inputs).mapM c.fold >>= c.merge) := by
      rw [List.mapM_map]
      apply (mapM_corresponds hsub).bind
      intro as bs hab
      exact (h.merge_congr hab).inRun
    rw [build, inputs_merge]
    exact h.trans hall (h.merge_folds _)
  | compact t ih =>
    rw [inputs_compact] at hcoder
    rw [build, inputs_compact, ← bind_pure (c.fold t.inputs)]
    apply (ih hcoder).bind
    intro a b hab
    exact h.trans (h.compact_equiv a).inRun (.ok hab : Corresponds R (.ok a : Checked _) (pure b))
  | recode t ih =>
    rw [inputs_recode] at hcoder
    rw [build, inputs_recode, ← bind_pure (c.fold t.inputs)]
    apply (ih hcoder).bind_of_ok
    intro a b _ hb hab
    obtain ⟨a', hcross, ha'⟩ :=
      hcoder t.inputs a (List.infix_rfl) ⟨b, hb, h.equivalence.symm hab⟩
    rw [Grouping.crossingBy_eq_ok_iff.mpr hcross]
    exact .ok (h.equivalence.trans (h.equivalence.symm ha') hab)

theorem output_corresponds (h : c.MergesAll R) (t : MergeTree ι.Carrier)
    (hcoder : Survives c R coder t.inputs) :
    Corresponds (· = ·) (t.output c coder) (c.apply t.inputs) :=
  (build_corresponds h t hcoder).bind fun _ _ hab => (h.extract_congr hab).inRun

end Laws
end MergeTree
end KeyedFlow
