import KeyedFlow.Combiner.Buffered
import KeyedFlow.Proofs.Coder.RoundTrip
import KeyedFlow.Proofs.Combiner.MergeTree
import Mathlib.Data.UInt

/-!
Buffers stand for the inputs they took in. When the function of a batch may be applied to a part of
the batch first, a buffer gives the same results as its inputs in any surroundings, and so may be
interchanged with any other buffer that stands for them; collapsing keeps this, so the output is
that of the function on all inputs. An empty buffer is never collapsed.
-/

set_option autoImplicit false

namespace KeyedFlow
open Outcome

namespace Buffer
variable {α : Type} {f : List α → Checked α} {xs ys buf buf' : List α}

/-- A part of a batch may be replaced by the result of the part. -/
structure Transparent (f : List α → Checked α) : Prop where
  exists_value : ∀ xs, xs ≠ [] → ∃ y, f xs = .ok y ∧
    ∀ as bs, f (as ++ [y] ++ bs) = f (as ++ xs ++ bs)

/-- One of the inputs, or the result of consecutive ones. -/
def Reaches (f : List α → Checked α) (xs : List α) (v : α) : Prop :=
  v ∈ xs ∨ ∃ ys, ys ≠ [] ∧ ys <:+: xs ∧ f ys = .ok v

theorem Reaches.mono {v : α} (h : Reaches f ys v) (hs : ys <:+: xs) : Reaches f xs v := by
  rcases h with h | ⟨zs, hne, hzs, hv⟩
  · exact .inl (hs.subset h)
  · exact .inr ⟨zs, hne, hzs.trans hs, hv⟩

/-- Buffers that may be used in place of each other. -/
structure Interchangeable (f : List α → Checked α) (buf buf' : List α) : Prop where
  nil_iff : buf = [] ↔ buf' = []
  same : ∀ as bs, f (as ++ buf ++ bs) = f (as ++ buf' ++ bs)

namespace Interchangeable

theorem equivalence (f : List α → Checked α) : Equivalence (Interchangeable f) where
  refl _ := ⟨Iff.rfl, fun _ _ => rfl⟩
  symm h := ⟨h.nil_iff.symm, fun as bs => (h.same as bs).symm⟩
  trans h h' := ⟨h.nil_iff.trans h'.nil_iff, fun as bs => (h.same as bs).trans (h'.same as bs)⟩

theorem append (h : Interchangeable f buf xs) (h' : Interchangeable f buf' ys) :
    Interchangeable f (buf ++ buf') (xs ++ ys) where
  nil_iff := by simp only [List.append_eq_nil_iff, h.nil_iff, h'.nil_iff]
  same as bs := by
    have hleft := h.same as (buf' ++ bs)
    have hright := h'.same (as ++ xs) bs
    simp only [List.append_assoc] at hleft hright ⊢
    rw [hleft, hright]

theorem value_eq (h : Interchangeable f buf xs) : f buf = f xs := by
  have hsame := h.same [] []
  rwa [List.nil_append, List.nil_append, List.append_nil, List.append_nil] at hsame

end Interchangeable

/-- The buffer `buf` may be used in place of the inputs `xs`. -/
structure StandsFor (f : List α → Checked α) (buf xs : List α) : Prop where
  nil_iff : buf = [] ↔ xs = []
  same : ∀ as bs, f (as ++ buf ++ bs) = f (as ++ xs ++ bs)
  reaches : ∀ v ∈ buf, Reaches f xs v

namespace StandsFor

theorem refl (f : List α → Checked α) (xs : List α) : StandsFor f xs xs where
  nil_iff := Iff.rfl
  same _ _ := rfl
  reaches _ hv := .inl hv

theorem interchangeable (h : StandsFor f buf xs) : Interchangeable f buf xs :=
  ⟨h.nil_iff, h.same⟩

theorem append (h : StandsFor f buf xs) (h' : StandsFor f buf' ys) :
    StandsFor f (buf ++ buf') (xs ++ ys) where
  nil_iff := (h.interchangeable.append h'.interchangeable).nil_iff
  same := (h.interchangeable.append h'.interchangeable).same
  reaches v hv := by
    rcases List.mem_append.mp hv with hv | hv
    · exact (h.reaches v hv).mono (List.infix_append' [] xs ys)
    · exact (h'.reaches v hv).mono (List.suffix_append xs ys).isInfix

theorem flatten {bufs xss : List (List α)} (h : List.Forall₂ (StandsFor f) bufs xss) :
    StandsFor f bufs.flatten xss.flatten := by
  induction h with
  | nil => exact refl f []
  | cons h _ ih => exact h.append ih

theorem value_eq (h : StandsFor f buf xs) : f buf = f xs := h.interchangeable.value_eq

theorem collapse (h : StandsFor f buf xs) (hf : Transparent f) (hne : buf ≠ []) :
    ∃ y, Combiner.collapse f buf = .ok [y] ∧ StandsFor f [y] xs := by
  obtain ⟨y, hy, hsame⟩ := hf.exists_value buf hne
  have hxs : xs ≠ [] := fun hnil => hne (h.nil_iff.mpr hnil)
  refine ⟨y, by rw [Combiner.collapse, hy, ok_bind], ?_, ?_, ?_⟩
  · simp [hxs]
  · intro as bs
    rw [hsame, h.same]
  · intro v hv
    rw [List.mem_singleton.mp hv]
    exact .inr ⟨xs, hxs, List.infix_rfl, h.value_eq ▸ hy⟩

end StandsFor
end Buffer

namespace Combiner
open Buffer
variable {B : Type} [TypeFamily B] {τ : ElemType B} {f : List τ.Carrier → Checked τ.Carrier}
  {n : Nat}

/-- A buffer that stands for `xs` within its bounds. -/
structure Buffers (f : List τ.Carrier → Checked τ.Carrier) (n : Nat) (buf xs : List τ.Carrier) :
    Prop extends StandsFor f buf xs where
  length_le : buf.length ≤ Nat.max n 1

theorem buffered_add (f : List τ.Carrier → Checked τ.Carrier) (buf : List τ.Carrier)
    (v : τ.Carrier) :
    (buffered τ f n).add buf v =
      if Nat.max n 1 < (buf ++ [v]).length then collapse f (buf ++ [v]) else .ok (buf ++ [v]) := rfl

theorem buffered_merge (f : List τ.Carrier → Checked τ.Carrier) (bufs : List (List τ.Carrier)) :
    (buffered τ f n).merge bufs =
      if bufs.flatten.isEmpty then .ok [] else collapse f bufs.flatten := rfl

theorem buffered_compact (f : List τ.Carrier → Checked τ.Carrier) (buf : List τ.Carrier) :
    (buffered τ f n).compact buf = if 1 < buf.length then collapse f buf else .ok buf := rfl

section Steps
variable {buf xs : List τ.Carrier}

theorem buffers_collapse (hf : Transparent f) (h : StandsFor f buf xs) (hne : buf ≠ []) :
    ∃ buf', collapse f buf = .ok buf' ∧ Buffers f n buf' xs := by
  obtain ⟨y, hy, hstands⟩ := h.collapse hf hne
  exact ⟨[y], hy, hstands, Nat.le_max_right n 1⟩

theorem buffers_add (hf : Transparent f) (h : Buffers f n buf xs) (x : τ.Carrier) :
    ∃ buf', (buffered τ f n).add buf x = .ok buf' ∧ Buffers f n buf' (xs ++ [x]) := by
  have hgrown : StandsFor f (buf ++ [x]) (xs ++ [x]) := h.append (.refl f [x])
  by_cases hfull : Nat.max n 1 < (buf ++ [x]).length
  · obtain ⟨buf', hbuf', hstands⟩ := buffers_collapse hf hgrown (by simp)
    exact ⟨buf', (if_pos hfull).trans hbuf', hstands⟩
  · exact ⟨buf ++ [x], if_neg hfull, hgrown, Nat.le_of_not_lt hfull⟩

theorem buffers_merge (hf : Transparent f) {bufs xss : List (List τ.Carrier)}
    (h : List.Forall₂ (StandsFor f) bufs xss) :
    ∃ buf', (buffered τ f n).merge bufs = .ok buf' ∧ Buffers f n buf' xss.flatten := by
  have hall := StandsFor.flatten h
  by_cases hempty : bufs.flatten = []
  · have hxss := hall.nil_iff.mp hempty
    rw [hxss]
    exact ⟨[], if_pos (List.isEmpty_iff.mpr hempty), .refl f [], Nat.zero_le _⟩
  · obtain ⟨buf', hbuf', hstands⟩ := buffers_collapse hf hall hempty
    exact ⟨buf', (if_neg (by simpa using hempty)).trans hbuf', hstands⟩

theorem buffers_compact (hf : Transparent f) (h : Buffers f n buf xs) :
    ∃ buf', (buffered τ f n).compact buf = .ok buf' ∧ Buffers f n buf' xs := by
  by_cases hmany : 1 < buf.length
  · obtain ⟨buf', hbuf', hstands⟩ := buffers_collapse hf h.toStandsFor
      (List.ne_nil_of_length_pos (Nat.lt_of_succ_lt hmany))
    exact ⟨buf', (if_pos hmany).trans hbuf', hstands⟩
  · exact ⟨buf, if_neg hmany, h⟩

end Steps

/-- By induction on the tree, one lemma for each way in which a buffer comes about. -/
theorem exists_build_buffers (hf : Transparent f) {coder : Option (Coder (.list τ))}
    (t : MergeTree τ.Carrier)
    (hcoder : ∀ xs buf, xs <:+: t.inputs → Buffers f n buf xs → Coder.Crosses coder buf buf) :
    ∃ buf, t.build (buffered τ f n) coder = .ok buf ∧ Buffers f n buf t.inputs := by
  induction t with
  | fresh =>
    rw [MergeTree.build, MergeTree.inputs_fresh]
    exact ⟨[], rfl, .refl f [], Nat.zero_le _⟩
  | add t x ih =>
    rw [MergeTree.inputs_add] at hcoder ⊢
    obtain ⟨buf, hbuf, hstands⟩ := ih fun xs buf hxs =>
      hcoder xs buf (hxs.trans (List.infix_append' [] _ _))
    obtain ⟨buf', hbuf', hstands'⟩ := buffers_add hf hstands x
    refine ⟨buf', ?_, hstands'⟩
    rw [MergeTree.build, hbuf, ok_bind, hbuf', inRun_ok]
  | merge ts ih =>
    have hall : ∀ t ∈ ts, ∃ buf, t.build (buffered τ f n) coder = .ok buf ∧
        Buffers f n buf t.inputs := fun t ht => ih t ht fun xs buf hxs =>
      hcoder xs buf (hxs.trans (MergeTree.inputs_of_mem_merge ht))
    obtain ⟨bufs, hbufs⟩ := exists_forall₂_iff.mpr hall
    have hbuild : ts.mapM (MergeTree.build (buffered τ f n) coder) = .ok bufs :=
      mapM_eq_ok_iff.mpr (hbufs.imp fun _ _ h => h.1)
    have hstands : List.Forall₂ (StandsFor f) bufs (ts.map MergeTree.inputs) := by
      rw [List.forall₂_map_right_iff]
      exact hbufs.flip.imp fun _ _ h => h.2.toStandsFor
    obtain ⟨buf', hbuf', hstands'⟩ := buffers_merge (n := n) hf hstands
    refine ⟨buf', ?_, MergeTree.inputs_merge ts ▸ hstands'⟩
    rw [MergeTree.build, hbuild, ok_bind, hbuf', inRun_ok]
  | compact t ih =>
    rw [MergeTree.inputs_compact] at hcoder ⊢
    obtain ⟨buf, hbuf, hstands⟩ := ih hcoder
    obtain ⟨buf', hbuf', hstands'⟩ := buffers_compact hf hstands
    refine ⟨buf', ?_, hstands'⟩
    rw [MergeTree.build, hbuf, ok_bind, hbuf', inRun_ok]
  | recode t ih =>
    rw [MergeTree.inputs_recode] at hcoder ⊢
    obtain ⟨buf, hbuf, hstands⟩ := ih hcoder
    refine ⟨buf, ?_, hstands⟩
    rw [MergeTree.build, hbuf, ok_bind]
    exact Grouping.crossingBy_eq_ok_iff.mpr (hcoder t.inputs buf List.infix_rfl hstands)

theorem crosses_of_standsFor {r : CoderRegistry B} {input : Option (Coder τ)}
    {coder : Option (Coder (.list τ))}
    (hcoder : ∀ a, coder = some a → (buffered τ f n).accumulatorCoder r input = .ok a)
    {xs buf : List τ.Carrier} (hlen : buf.length < 2 ^ 64)
    (hinput : ∀ i, inputOrRegistered r τ input = .ok i →
      ∀ v, Reaches f xs v → ∃ bytes, i.Delimits v bytes)
    (h : StandsFor f buf xs) : Coder.Crosses coder buf buf := by
  cases coder with
  | none => rfl
  | some a =>
    obtain ⟨i, hi, ha⟩ := bind_eq_ok_iff.mp (hcoder a rfl)
    cases ha
    obtain ⟨parts, hparts⟩ := exists_forall₂_iff.mpr fun v hv => hinput i hi v (h.reaches v hv)
    have hsends : (Coder.list i).Sends buf buf _ :=
      .list hlen (hparts.imp fun _ _ hv => hv.encode) (hparts.imp fun _ _ hv => hv.decode)
    exact hsends.delimits.readsBack.crosses

/-- Where a function is never asked for the result of nothing, another that agrees with it on all
batches of at least one value does as well. -/
theorem buffered_congr {g : List τ.Carrier → Checked τ.Carrier} (h : ∀ xs, xs ≠ [] → g xs = f xs) :
    (buffered τ g n).add = (buffered τ f n).add ∧
      (buffered τ g n).merge = (buffered τ f n).merge ∧
      (buffered τ g n).compact = (buffered τ f n).compact := by
  have hcollapse (buf : List τ.Carrier) (hne : buf ≠ []) : collapse g buf = collapse f buf := by
    rw [collapse, collapse, h buf hne]
  refine ⟨funext fun buf => funext fun v => ?_, funext fun bufs => ?_, funext fun buf => ?_⟩
  · rw [buffered_add, buffered_add, hcollapse (buf ++ [v]) (by simp)]
  · rw [buffered_merge, buffered_merge]
    by_cases hempty : bufs.flatten = []
    · rw [hempty]
      rfl
    · rw [hcollapse bufs.flatten hempty]
  · rw [buffered_compact, buffered_compact]
    by_cases hmany : 1 < buf.length
    · rw [hcollapse buf (List.ne_nil_of_length_pos (Nat.lt_of_succ_lt hmany))]
    · rw [if_neg hmany, if_neg hmany]

/-- A buffer is as good as the inputs that it took in: the output is that of the function on all of
them, the buffer keeps its bounds, and the function is asked about no empty batch before the end. -/
theorem buffered_transparent (hf : Transparent f) (hn : n < 2 ^ 64) {r : CoderRegistry B}
    {input : Option (Coder τ)} {coder : Option (Coder (.list τ))}
    (hcoder : ∀ a, coder = some a → (buffered τ f n).accumulatorCoder r input = .ok a)
    (t : MergeTree τ.Carrier)
    (hinput : ∀ i, inputOrRegistered r τ input = .ok i →
      ∀ v, Reaches f t.inputs v → ∃ bytes, i.Delimits v bytes) :
    t.output (buffered τ f n) coder = (f t.inputs).inRun ∧
    (∃ buf, t.build (buffered τ f n) coder = .ok buf ∧ (buf = [] ↔ t.inputs = []) ∧
      buf.length ≤ Nat.max n 1) ∧
    ∀ g, (∀ xs, xs ≠ [] → g xs = f xs) →
      (buffered τ g n).add = (buffered τ f n).add ∧
      (buffered τ g n).merge = (buffered τ f n).merge ∧
      (buffered τ g n).compact = (buffered τ f n).compact ∧
      ∀ buf, buf ≠ [] → (buffered τ g n).extract buf = (buffered τ f n).extract buf := by
  have hmax : Nat.max n 1 < 2 ^ 64 := Nat.max_lt.mpr ⟨hn, by decide⟩
  obtain ⟨buf, hbuf, hstands⟩ := exists_build_buffers hf t fun xs buf hxs h =>
    crosses_of_standsFor hcoder (Nat.lt_of_le_of_lt h.length_le hmax)
      (fun i hi v hv => hinput i hi v (hv.mono hxs)) h.toStandsFor
  refine ⟨?_, ⟨buf, hbuf, hstands.nil_iff, hstands.length_le⟩, ?_⟩
  · rw [MergeTree.output, hbuf, ok_bind]
    exact congrArg Checked.inRun hstands.value_eq
  · intro g hg
    obtain ⟨hadd, hmerge, hcompact⟩ := buffered_congr (n := n) hg
    exact ⟨hadd, hmerge, hcompact, hg⟩

/-- The sum of at least one number. -/
def total (xs : List UInt32) : Checked UInt32 :=
  if xs = [] then .error .addOverflow else .ok xs.sum

theorem total_transparent : Transparent total where
  exists_value xs hne := by
    refine ⟨xs.sum, if_neg hne, fun as bs => ?_⟩
    rw [total, total, if_neg (by simp), if_neg (by simp [hne])]
    simp [List.sum_append]

/-- Two batches and an empty accumulator, of which one batch is shipped and one compacted. -/
def twoBatches : MergeTree UInt32 :=
  .merge [.recode (.add (.add .fresh 5) 7), .fresh, .compact (.add (.add .fresh 3) 4)]

theorem buffered_transparent_on_batches :
    twoBatches.output (buffered (.uint32 : Sample.Ty) total 0) (some (.list .uint32)) = .ok 19 ∧
    ∃ buf, twoBatches.build (buffered (.uint32 : Sample.Ty) total 0) (some (.list .uint32)) =
      .ok buf ∧ buf.length ≤ 1 := by
  have hcoder (a : Coder (.list .uint32)) (ha : some (.list .uint32) = some a) :
      (buffered (.uint32 : Sample.Ty) total 0).accumulatorCoder .empty (some .uint32) = .ok a := by
    cases ha
    rfl
  have hinput (i : Coder (.uint32 : Sample.Ty))
      (hi : inputOrRegistered .empty .uint32 (some .uint32) = .ok i) (v : UInt32) :
      ∃ bytes, i.Delimits v bytes := by
    cases hi
    exact ⟨_, Coder.delimits_uint32 v⟩
  obtain ⟨hout, ⟨buf, hbuf, _, hlen⟩, _⟩ := buffered_transparent total_transparent (by decide)
    hcoder twoBatches fun i hi v _ => hinput i hi v
  have hinputs : twoBatches.inputs = [5, 7, 3, 4] := by simp [twoBatches]
  rw [hinputs] at hout
  exact ⟨hout, buf, hbuf, hlen⟩

end Combiner
end KeyedFlow
