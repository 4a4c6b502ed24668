import KeyedFlow.Proofs.Outcome
import KeyedFlow.Transform.Partials

/-!
The laws of the combiner algebra. Accumulators are only told apart up to an equivalence that every
operation respects. A combiner merges pairs when merging two folds is folding the concatenation; it
is mergeable when also compaction changes nothing, and lawful when the order of the inputs does not
matter either. An accumulator then stands for the inputs that it was folded from, and a fold over
inputs and standing accumulators is the fold over all inputs that they stand for.
-/

set_option autoImplicit false

namespace KeyedFlow
open Outcome
variable {B : Type} [TypeFamily B] {κ ι α ω : ElemType B}

/-- Partial accumulators may be merged two at a time in place of their inputs, in the same order.
Nothing is asked of compaction, nor of merges of more or fewer. -/
structure Combiner.MergesPairs (c : Combiner ι α ω) (R : α.Carrier → α.Carrier → Prop) : Prop where
  equivalence : Equivalence R
  add_congr : ∀ {a b}, R a b → ∀ i, Corresponds R (c.add a i) (c.add b i)
  merge_congr : ∀ {a a' b b'}, R a a' → R b b' →
    Corresponds R (c.merge [a, b]) (c.merge [a', b'])
  extract_congr : ∀ {a b}, R a b → Corresponds (· = ·) (c.extract a) (c.extract b)
  merge_fold : ∀ xs ys, Corresponds R (do
    let a ← c.fold xs
    let b ← c.fold ys
    c.merge [a, b]) (c.fold (xs ++ ys))

/-- Partial accumulators may be merged in place of their inputs, in the same order. -/
structure Combiner.Mergeable (c : Combiner ι α ω) (R : α.Carrier → α.Carrier → Prop) : Prop where
  equivalence : Equivalence R
  add_congr : ∀ {a b}, R a b → ∀ i, Corresponds R (c.add a i) (c.add b i)
  merge_congr : ∀ {as bs}, List.Forall₂ R as bs → Corresponds R (c.merge as) (c.merge bs)
  extract_congr : ∀ {a b}, R a b → Corresponds (· = ·) (c.extract a) (c.extract b)
  merge_fold : ∀ xs ys, Corresponds R (do
    let a ← c.fold xs
    let b ← c.fold ys
    c.merge [a, b]) (c.fold (xs ++ ys))
  compact_equiv : ∀ a, Corresponds R (c.compact a) (.ok a : Checked α.Carrier)

/-- The accumulators of consecutive batches, however many, merge into that of all their inputs. -/
structure Combiner.MergesAll (c : Combiner ι α ω) (R : α.Carrier → α.Carrier → Prop) : Prop
    extends c.Mergeable R where
  merge_folds : ∀ xss : List (List ι.Carrier),
    Corresponds R (xss.mapM c.fold >>= c.merge) (c.fold xss.flatten)

/-- Partial accumulators may be merged in place of their inputs, in any order. -/
structure Combiner.Lawful (c : Combiner ι α ω) (R : α.Carrier → α.Carrier → Prop) : Prop
    extends c.Mergeable R where
  fold_perm : ∀ {xs ys}, xs.Perm ys → Corresponds R (c.fold xs) (c.fold ys)

abbrev AccumEquiv (κ α : ElemType B) : Type :=
  κ.Carrier → CombineContext B → α.Carrier → α.Carrier → Prop

def KeyedCombiner.Mergeable (c : KeyedCombiner κ ι α ω) (R : AccumEquiv κ α) : Prop :=
  ∀ k ctx, (c.bind none k ctx).Mergeable (R k ctx)

def KeyedCombiner.Lawful (c : KeyedCombiner κ ι α ω) (R : AccumEquiv κ α) : Prop :=
  ∀ k ctx, (c.bind none k ctx).Lawful (R k ctx)

theorem Combiner.MergesPairs.keyed {c : Combiner ι α ω} {R : α.Carrier → α.Carrier → Prop}
    (h : c.MergesPairs R) (κ : ElemType B) (k : κ.Carrier) (ctx : CombineContext B) :
    ((c.keyed κ).bind none k ctx).MergesPairs R :=
  ⟨h.equivalence, h.add_congr, h.merge_congr, h.extract_congr, h.merge_fold⟩

theorem Combiner.Mergeable.keyed {c : Combiner ι α ω} {R : α.Carrier → α.Carrier → Prop}
    (h : c.Mergeable R) (κ : ElemType B) : (c.keyed κ).Mergeable fun _ _ => R := fun _ _ =>
  ⟨h.equivalence, h.add_congr, h.merge_congr, h.extract_congr, h.merge_fold, h.compact_equiv⟩

theorem Combiner.Lawful.keyed {c : Combiner ι α ω} {R : α.Carrier → α.Carrier → Prop}
    (h : c.Lawful R) (κ : ElemType B) : (c.keyed κ).Lawful fun _ _ => R := fun k ctx =>
  ⟨h.toMergeable.keyed κ k ctx, h.fold_perm⟩

theorem KeyedCombiner.Lawful.mergeable {c : KeyedCombiner κ ι α ω} {R : AccumEquiv κ α}
    (h : c.Lawful R) : c.Mergeable R := fun k ctx => (h k ctx).toMergeable

/-- The same input, or accumulators that `R` relates. -/
inductive InputOrAccum.Rel {ι α : Type} (R : α → α → Prop) :
    InputOrAccum ι α → InputOrAccum ι α → Prop where
  | input (i : ι) : Rel R (.input i) (.input i)
  | accum {a b : α} (h : R a b) : Rel R (.accum a) (.accum b)

namespace Combiner
variable {c : Combiner ι α ω} {R : α.Carrier → α.Carrier → Prop}

/-- An input stands for itself, an accumulator for the inputs that it was folded from. -/
def Stands (c : Combiner ι α ω) (R : α.Carrier → α.Carrier → Prop) :
    InputOrAccum ι.Carrier α.Carrier → List ι.Carrier → Prop
  | .input i, xs => xs = [i]
  | .accum a, xs => ∃ b, c.fold xs = .ok b ∧ R b a

theorem fold_append (c : Combiner ι α ω) (xs ys : List ι.Carrier) :
    c.fold (xs ++ ys) = c.fold xs >>= fun a => c.addAll a ys :=
  List.foldlM_append

theorem fold_snoc (c : Combiner ι α ω) (xs : List ι.Carrier) (x : ι.Carrier) :
    c.fold (xs ++ [x]) = c.fold xs >>= fun a => c.add a x := by
  rw [fold_append]
  congr 1
  funext a
  exact bind_pure (c.add a x)

theorem MergesPairs.trans {ε ε' ε'' : Type} (h : c.MergesPairs R) {x : Except ε α.Carrier}
    {y : Except ε' α.Carrier} {z : Except ε'' α.Carrier} (hxy : Corresponds R x y)
    (hyz : Corresponds R y z) : Corresponds R x z :=
  (hxy.trans hyz).imp fun _ _ ⟨_, hab, hbc⟩ => h.equivalence.trans hab hbc

namespace Mergeable

theorem mergesPairs (h : c.Mergeable R) : c.MergesPairs R where
  equivalence := h.equivalence
  add_congr := h.add_congr
  merge_congr ha hb := h.merge_congr (.cons ha (.cons hb .nil))
  extract_congr := h.extract_congr
  merge_fold := h.merge_fold

theorem trans {ε ε' ε'' : Type} (h : c.Mergeable R) {x : Except ε α.Carrier}
    {y : Except ε' α.Carrier} {z : Except ε'' α.Carrier} (hxy : Corresponds R x y)
    (hyz : Corresponds R y z) : Corresponds R x z :=
  h.mergesPairs.trans hxy hyz

theorem compact_fold (h : c.Mergeable R) (xs : List ι.Carrier) :
    Corresponds R (c.fold xs >>= c.compact) (c.fold xs) := by
  cases c.fold xs with
  | error e => exact .error e e
  | ok a => exact h.compact_equiv a

theorem stands_compact (h : c.Mergeable R) {xs : List ι.Carrier} {a : α.Carrier}
    (ha : (c.fold xs >>= c.compact) = .ok a) : c.Stands R (.accum a) xs := by
  have hc := h.compact_fold xs
  rw [ha] at hc
  obtain ⟨b, hb, hab⟩ := hc.ok_left
  exact ⟨b, hb, h.equivalence.symm hab⟩

/-- A fold that succeeds has succeeded on both parts of its inputs. -/
theorem exists_folds (h : c.Mergeable R) {xs ys : List ι.Carrier} {a : α.Carrier}
    (ha : c.fold (xs ++ ys) = .ok a) : (∃ b, c.fold xs = .ok b) ∧ ∃ b, c.fold ys = .ok b := by
  have hm := h.merge_fold xs ys
  rw [ha] at hm
  obtain ⟨_, hm, _⟩ := hm.ok_right
  obtain ⟨b, hb, hm⟩ := bind_eq_ok_iff.mp hm
  obtain ⟨b', hb', _⟩ := bind_eq_ok_iff.mp hm
  exact ⟨⟨b, hb⟩, b', hb'⟩

theorem exists_fold_of_mem (h : c.Mergeable R) {xss : List (List ι.Carrier)}
    (ha : ∃ a, c.fold xss.flatten = .ok a) {xs : List ι.Carrier} (hxs : xs ∈ xss) :
    ∃ b, c.fold xs = .ok b := by
  induction xss with
  | nil => simp at hxs
  | cons ys yss ih =>
    obtain ⟨a, ha⟩ := ha
    rw [List.flatten_cons] at ha
    obtain ⟨hhead, htail⟩ := h.exists_folds ha
    rcases List.mem_cons.mp hxs with rfl | hxs
    · exact hhead
    · exact ih htail hxs

theorem stands_rel (h : c.Mergeable R) {x y : InputOrAccum ι.Carrier α.Carrier}
    {xs : List ι.Carrier} (hx : c.Stands R x xs) (hxy : InputOrAccum.Rel R x y) :
    c.Stands R y xs := by
  cases hxy with
  | input i => exact hx
  | accum hab =>
    obtain ⟨d, hd, hda⟩ := hx
    exact ⟨d, hd, h.equivalence.trans hda hab⟩

end Mergeable

namespace Lawful

theorem exists_fold_of_sublist (h : c.Lawful R) {xs ys : List ι.Carrier} (hs : xs.Sublist ys)
    (hy : ∃ a, c.fold ys = .ok a) : ∃ a, c.fold xs = .ok a := by
  obtain ⟨rest, hp⟩ := hs.exists_perm_append
  obtain ⟨a, ha⟩ := (h.fold_perm hp).exists_ok_iff.mp hy
  exact (h.exists_folds ha).1

theorem apply_perm (h : c.Lawful R) {xs ys : List ι.Carrier} (hp : xs.Perm ys) :
    Corresponds (· = ·) (c.apply xs) (c.apply ys) :=
  (h.fold_perm hp).bind fun _ _ hab => h.extract_congr hab

end Lawful
end Combiner

namespace KeyedCombiner
variable {c : KeyedCombiner κ ι α ω} {k : κ.Carrier} {ctx : CombineContext B}
  {R : α.Carrier → α.Carrier → Prop}

theorem finish_add (h : (c.bind none k ctx).MergesPairs R) {acc : Checked α.Carrier}
    {ys xs : List ι.Carrier} (hacc : Corresponds R acc (c.fold k ctx ys))
    {x : InputOrAccum ι.Carrier α.Carrier} (hx : (c.bind none k ctx).Stands R x xs) :
    Corresponds R (acc >>= fun a => c.finish.add k ctx a x) (c.fold k ctx (ys ++ xs)) := by
  cases x with
  | input i =>
    cases hx
    have hfold : c.fold k ctx (ys ++ [i]) = c.fold k ctx ys >>= fun a => c.add k ctx a i :=
      (c.bind none k ctx).fold_snoc ys i
    rw [hfold]
    exact hacc.bind fun a b hab => h.add_congr hab i
  | accum a =>
    obtain ⟨b, hb, hab⟩ := hx
    have hmerge := h.merge_fold ys xs
    rw [hb] at hmerge
    refine h.trans ?_ hmerge
    exact hacc.bind fun d e hde => h.merge_congr hde (h.equivalence.symm hab)

theorem finish_addAll (h : (c.bind none k ctx).MergesPairs R)
    {xs : List (InputOrAccum ι.Carrier α.Carrier)} {xss : List (List ι.Carrier)}
    (hxs : List.Forall₂ ((c.bind none k ctx).Stands R) xs xss) {acc : Checked α.Carrier}
    {ys : List ι.Carrier} (hacc : Corresponds R acc (c.fold k ctx ys)) :
    Corresponds R (acc >>= fun a => c.finish.addAll k ctx a xs)
      (c.fold k ctx (ys ++ xss.flatten)) := by
  induction hxs generalizing acc ys with
  | nil =>
    have hnil : (acc >>= fun a => c.finish.addAll k ctx a []) = acc := bind_pure acc
    rwa [hnil, List.flatten_nil, List.append_nil]
  | cons hx _ ih =>
    have hcons := ih (finish_add h hacc hx)
    rw [bind_assoc] at hcons
    rwa [List.flatten_cons, ← List.append_assoc]

theorem finish_fold (h : (c.bind none k ctx).MergesPairs R)
    {xs : List (InputOrAccum ι.Carrier α.Carrier)} {xss : List (List ι.Carrier)}
    (hxs : List.Forall₂ ((c.bind none k ctx).Stands R) xs xss) :
    Corresponds R (c.finish.fold k ctx xs) (c.fold k ctx xss.flatten) := by
  have hfresh : Corresponds R (.ok (c.create k ctx) : Checked α.Carrier) (c.fold k ctx []) :=
    .ok (h.equivalence.refl _)
  exact finish_addAll h hxs hfresh

theorem finish_apply (h : (c.bind none k ctx).MergesPairs R)
    {xs : List (InputOrAccum ι.Carrier α.Carrier)} {xss : List (List ι.Carrier)}
    (hxs : List.Forall₂ ((c.bind none k ctx).Stands R) xs xss) :
    Corresponds (· = ·) (c.finish.apply k ctx xs) (c.apply k ctx xss.flatten) :=
  (finish_fold h hxs).bind fun _ _ hab => h.extract_congr hab

theorem finish_apply_of_rel (h : (c.bind none k ctx).Mergeable R)
    {xs : List (InputOrAccum ι.Carrier α.Carrier)} {xss : List (List ι.Carrier)}
    (hxs : List.Forall₂ ((c.bind none k ctx).Stands R) xs xss)
    {f : InputOrAccum ι.Carrier α.Carrier → Except RunError (InputOrAccum ι.Carrier α.Carrier)}
    (hf : ∀ x ∈ xs, ∃ y, f x = .ok y ∧ InputOrAccum.Rel R x y) :
    Corresponds (· = ·) (do
      let ys ← xs.mapM f
      (c.finish.apply k ctx ys).inRun) (c.apply k ctx xss.flatten) := by
  obtain ⟨ys, hys⟩ := exists_forall₂_iff.mpr hf
  have hmap : xs.mapM f = .ok ys := mapM_eq_ok_iff.mpr (hys.imp fun _ _ hy => hy.1)
  have hstands : List.Forall₂ ((c.bind none k ctx).Stands R) ys xss := by
    apply (forall₂_comp hys.flip hxs).imp
    rintro y zs ⟨x, ⟨_, hxy⟩, hx⟩
    exact h.stands_rel hx hxy
  rw [hmap]
  exact (inRun_corresponds _).trans_eq (finish_apply h.mergesPairs hstands)

end KeyedCombiner
end KeyedFlow
