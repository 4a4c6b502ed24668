import KeyedFlow.Proofs.Combiner.Buffered
import KeyedFlow.Proofs.Combiner.Consistency

/-!
Mixtures of inputs and partial accumulators. Finishing takes in a sequence in which raw inputs
alternate with partials in any way, each partial standing for some inputs, perhaps for none. Whether
the sequence is taken in at once or cut into consecutive pieces that are joined two at a time in a
tree of any shape, the output is that of a single batch of all the inputs. Buffers are accumulators
that are equal only up to such an equivalence: they merge in pairs as far as nobody can tell two
buffers apart.
-/

set_option autoImplicit false

namespace KeyedFlow
open Outcome
variable {B : Type} [TypeFamily B] {κ ι α ω τ : ElemType B}

theorem Buffer.Interchangeable.of_standsFor {γ : Type} {f : List γ → Checked γ} {a b xs ys : List γ}
    (h : Interchangeable f xs ys) (ha : StandsFor f a xs) (hb : StandsFor f b ys) :
    Interchangeable f a b := by
  have hequiv := Interchangeable.equivalence f
  exact hequiv.trans (hequiv.trans ha.interchangeable h) (hequiv.symm hb.interchangeable)

namespace Combiner
open Buffer
variable {f : List τ.Carrier → Checked τ.Carrier} {n : Nat}

theorem exists_add_standsFor (hf : Transparent f) (buf : List τ.Carrier) (v : τ.Carrier) :
    ∃ buf', (buffered τ f n).add buf v = .ok buf' ∧ StandsFor f buf' (buf ++ [v]) := by
  rw [buffered_add]
  split
  · obtain ⟨y, hy, hstands⟩ := (StandsFor.refl f (buf ++ [v])).collapse hf (by simp)
    exact ⟨[y], hy, hstands⟩
  · exact ⟨buf ++ [v], rfl, .refl f _⟩

theorem exists_merge_standsFor (hf : Transparent f) (a b : List τ.Carrier) :
    ∃ buf, (buffered τ f n).merge [a, b] = .ok buf ∧ StandsFor f buf (a ++ b) := by
  obtain ⟨buf, hbuf, hstands⟩ := buffers_merge (n := n) hf
    (.cons (.refl f a) (.cons (.refl f b) .nil))
  refine ⟨buf, hbuf, ?_⟩
  simpa using hstands.toStandsFor

theorem exists_fold_standsFor (hf : Transparent f) (xs : List τ.Carrier) :
    ∃ buf, (buffered τ f n).fold xs = .ok buf ∧ StandsFor f buf xs := by
  have hunshipped (buf : List τ.Carrier) :
      Coder.Crosses (none : Option (Coder (.list τ))) buf buf := rfl
  obtain ⟨buf, hbuf, hstands⟩ := exists_build_buffers (n := n) hf (MergeTree.pass xs)
    fun _ buf _ _ => hunshipped buf
  rw [MergeTree.build_pass, inRun_eq_ok_iff] at hbuf
  rw [MergeTree.inputs_pass] at hstands
  exact ⟨buf, hbuf, hstands.toStandsFor⟩

/-- Buffers may be merged in pairs, since each is as good as the inputs that it took in. -/
theorem buffered_mergesPairs (hf : Transparent f) :
    (buffered τ f n).MergesPairs (Interchangeable f) where
  equivalence := Interchangeable.equivalence f
  add_congr {a b} hab v := by
    obtain ⟨a', ha, hstands⟩ := exists_add_standsFor (n := n) hf a v
    obtain ⟨b', hb, hstands'⟩ := exists_add_standsFor (n := n) hf b v
    rw [ha, hb]
    have happend := hab.append ((Interchangeable.equivalence f).refl [v])
    exact .ok (happend.of_standsFor hstands hstands')
  merge_congr {a a' b b'} ha hb := by
    obtain ⟨m, hm, hstands⟩ := exists_merge_standsFor (n := n) hf a b
    obtain ⟨m', hm', hstands'⟩ := exists_merge_standsFor (n := n) hf a' b'
    rw [hm, hm']
    exact .ok ((ha.append hb).of_standsFor hstands hstands')
  extract_congr {a b} hab := by
    change Corresponds _ (f a) (f b)
    rw [hab.value_eq]
    exact .refl _
  merge_fold xs ys := by
    obtain ⟨a, ha, hxs⟩ := exists_fold_standsFor (n := n) hf xs
    obtain ⟨b, hb, hys⟩ := exists_fold_standsFor (n := n) hf ys
    obtain ⟨m, hm, hmerged⟩ := exists_merge_standsFor (n := n) hf a b
    obtain ⟨w, hw, hwhole⟩ := exists_fold_standsFor (n := n) hf (xs ++ ys)
    rw [ha, hb, ok_bind, ok_bind, hm, hw]
    exact .ok ((hxs.append hys).interchangeable.of_standsFor hmerged hwhole)

end Combiner

namespace KeyedCombiner
variable {c : KeyedCombiner κ ι α ω} {k : κ.Carrier} {ctx : CombineContext B}
  {R : α.Carrier → α.Carrier → Prop}

/-- By induction on the tree; its accumulators stand for what the elements below them stand for. -/
theorem finish_build (h : (c.bind none k ctx).MergesPairs R)
    {t : MergeTree (InputOrAccum ι.Carrier α.Carrier)} (ht : t.Binary) {xss : List (List ι.Carrier)}
    (hxs : List.Forall₂ ((c.bind none k ctx).Stands R) t.inputs xss) :
    Corresponds R (t.build (c.finish.bind none k ctx) none) (c.fold k ctx xss.flatten) := by
  induction ht generalizing xss with
  | pass xs =>
    rw [MergeTree.inputs_pass] at hxs
    rw [MergeTree.build_pass]
    exact (finish_fold h hxs).inRun
  | @merge l r _ _ ihl ihr =>
    have hinputs : (MergeTree.merge [l, r]).inputs = l.inputs ++ r.inputs := by simp
    rw [hinputs] at hxs
    have hleft := ihl (List.forall₂_take_append xss l.inputs r.inputs hxs.flip).flip
    have hright := ihr (List.forall₂_drop_append xss l.inputs r.inputs hxs.flip).flip
    have hjoined := h.merge_fold (xss.take l.inputs.length).flatten
      (xss.drop l.inputs.length).flatten
    rw [← List.flatten_append, List.take_append_drop] at hjoined
    refine h.trans ?_ hjoined
    rw [MergeTree.build, List.mapM_cons, List.mapM_cons, List.mapM_nil]
    simp only [bind_assoc, pure_bind]
    apply hleft.bind
    intro a a' ha
    apply hright.bind
    intro b b' hb
    exact (h.merge_congr ha hb).inRun

/-- Finishing takes in any mixture of inputs and partials, all at once or piece by piece. -/
theorem finish_absorbs_mixtures (h : (c.bind none k ctx).MergesPairs R)
    {xs : List (InputOrAccum ι.Carrier α.Carrier)} {xss : List (List ι.Carrier)}
    (hxs : List.Forall₂ ((c.bind none k ctx).Stands R) xs xss) :
    Corresponds (· = ·) (c.finish.apply k ctx xs) (c.apply k ctx xss.flatten) ∧
    ∀ t : MergeTree (InputOrAccum ι.Carrier α.Carrier), t.Binary → t.inputs = xs →
      Corresponds (· = ·) (t.output (c.finish.bind none k ctx) none)
        (c.apply k ctx xss.flatten) := by
  refine ⟨finish_apply h hxs, ?_⟩
  rintro t ht rfl
  exact (finish_build h ht hxs).bind fun a b hab => (h.extract_congr hab).inRun

/-- The total of the numbers of each key, at most two of them waiting. -/
def buffering : KeyedCombiner (.string : Sample.Ty) .uint32 (.list .uint32) .uint32 :=
  (Combiner.buffered .uint32 Combiner.total 2).keyed .string

/-- A partial that was collapsed, an input, a partial of nothing and one of a single input. -/
def mixture : List (InputOrAccum UInt32 (List UInt32)) :=
  [.accum [12], .input 3, .accum [], .accum [4]]

/-- The mixture in three pieces, the second of them empty. -/
def pieces : MergeTree (InputOrAccum UInt32 (List UInt32)) :=
  .merge [.merge [.pass [.accum [12]], .pass []], .pass [.input 3, .accum [], .accum [4]]]

theorem mixture_stands : List.Forall₂
    ((buffering.bind none "k" .global).Stands (Buffer.Interchangeable Combiner.total))
    mixture [[5, 7], [3], [], [4]] := by
  have hequiv := Buffer.Interchangeable.equivalence Combiner.total
  have hcollapsed : Buffer.Interchangeable Combiner.total [5, 7] [12] := by
    obtain ⟨y, hy, hstands⟩ := (Buffer.StandsFor.refl Combiner.total [5, 7]).collapse
      Combiner.total_transparent (List.cons_ne_nil 5 [7])
    cases hy
    exact hequiv.symm hstands.interchangeable
  exact .cons ⟨[5, 7], rfl, hcollapsed⟩ (.cons rfl (.cons ⟨[], rfl, hequiv.refl []⟩
    (.cons ⟨[4], rfl, hequiv.refl [4]⟩ .nil)))

theorem finish_absorbs_mixtures_of_buffering :
    buffering.finish.apply "k" .global mixture = .ok 19 ∧
    pieces.output (buffering.finish.bind none "k" .global) none = .ok 19 := by
  have hlaws : (buffering.bind none "k" .global).MergesPairs
      (Buffer.Interchangeable Combiner.total) :=
    (Combiner.buffered_mergesPairs Combiner.total_transparent).keyed .string "k" .global
  have hbinary : pieces.Binary := .merge (.merge (.pass _) (.pass _)) (.pass _)
  have hinputs : pieces.inputs = mixture := by simp [pieces, mixture]
  have hwhole : buffering.apply "k" .global [5, 7, 3, 4] = .ok 19 := rfl
  obtain ⟨hfold, htrees⟩ := finish_absorbs_mixtures hlaws mixture_stands
  have htree := htrees pieces hbinary hinputs
  change Outcome.Corresponds _ _ (buffering.apply "k" .global [5, 7, 3, 4]) at hfold htree
  rw [hwhole] at hfold htree
  obtain ⟨o, ho, rfl⟩ := hfold.ok_right
  obtain ⟨o', ho', rfl⟩ := htree.ok_right
  exact ⟨ho, ho'⟩

end KeyedCombiner
end KeyedFlow
