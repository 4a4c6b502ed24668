import KeyedFlow.Combiner.Consistency
import KeyedFlow.Proofs.Combiner.BuiltIn

/-!
What the consistency check certifies. Everything that it compares is the output of a tree of
accumulators, so a combiner with one output for all trees over the same inputs passes. Conversely,
where outputs tell accumulators apart, a combiner that passes on all inputs merges two folds into
the fold of all their inputs, and then pairwise merges in a tree of any depth give the accumulator
of a single pass.
-/

set_option autoImplicit false

namespace KeyedFlow
open Outcome

namespace MergeTree
variable {ι : Type}

/-- Inputs added one by one to a fresh accumulator, compacted at any time. -/
inductive Batched : MergeTree ι → Prop where
  | fresh : Batched fresh
  | add {t : MergeTree ι} (h : Batched t) (x : ι) : Batched (t.add x)
  | compact {t : MergeTree ι} (h : Batched t) : Batched t.compact

/-- Batches merged in any shape, any number at a time, compacted at any time. -/
inductive Staged : MergeTree ι → Prop where
  | batch {t : MergeTree ι} (h : Batched t) : Staged t
  | merge {ts : List (MergeTree ι)} (h : ∀ t ∈ ts, Staged t) : Staged (merge ts)
  | compact {t : MergeTree ι} (h : Staged t) : Staged t.compact

def pass (xs : List ι) : MergeTree ι := xs.foldl add fresh

def compactingPass (xs : List ι) : MergeTree ι :=
  xs.foldl (fun t x => (t.compact.add x).compact) fresh

/-- Single passes merged two at a time. -/
inductive Binary : MergeTree ι → Prop where
  | pass (xs : List ι) : Binary (pass xs)
  | merge {l r : MergeTree ι} (hl : Binary l) (hr : Binary r) : Binary (merge [l, r])

theorem pass_snoc (xs : List ι) (x : ι) : pass (xs ++ [x]) = (pass xs).add x := by
  rw [pass, List.foldl_append]
  rfl

theorem compactingPass_snoc (xs : List ι) (x : ι) :
    compactingPass (xs ++ [x]) = ((compactingPass xs).compact.add x).compact := by
  rw [compactingPass, List.foldl_append]
  rfl

theorem batched_pass (xs : List ι) : (pass xs).Batched := by
  induction xs using List.reverseRecOn with
  | nil => exact .fresh
  | append_singleton xs x ih =>
    rw [pass_snoc]
    exact ih.add x

theorem batched_compactingPass (xs : List ι) : (compactingPass xs).Batched := by
  induction xs using List.reverseRecOn with
  | nil => exact .fresh
  | append_singleton xs x ih =>
    rw [compactingPass_snoc]
    exact (ih.compact.add x).compact

@[simp] theorem inputs_pass (xs : List ι) : (pass xs).inputs = xs := by
  induction xs using List.reverseRecOn with
  | nil => exact inputs_fresh
  | append_singleton xs x ih => rw [pass_snoc, inputs_add, ih]

@[simp] theorem inputs_compactingPass (xs : List ι) : (compactingPass xs).inputs = xs := by
  induction xs using List.reverseRecOn with
  | nil => exact inputs_fresh
  | append_singleton xs x ih =>
    rw [compactingPass_snoc, inputs_compact, inputs_add, inputs_compact, ih]

theorem staged_merge_passes (xss : List (List ι)) : (merge (xss.map pass)).Staged := by
  refine .merge fun t ht => ?_
  obtain ⟨xs, _, rfl⟩ := List.mem_map.mp ht
  exact .batch (batched_pass xs)

theorem inputs_merge_passes (xss : List (List ι)) :
    (merge (xss.map pass)).inputs = xss.flatten := by
  rw [inputs_merge, List.map_map]
  congr 1
  exact List.map_id'' inputs_pass xss

end MergeTree

variable {B : Type} [TypeFamily B] {ι α ω : ElemType B}

namespace Combiner

def mergedOutput (c : Combiner ι α ω) (xss : List (List ι.Carrier)) : Checked ω.Carrier :=
  (xss.mapM c.fold >>= c.merge) >>= c.extract

def addCompacting (c : Combiner ι α ω) (a : α.Carrier) (x : ι.Carrier) : Checked α.Carrier := do
  let a ← c.compact a
  let a ← c.add a x
  c.compact a

section Arrangements
variable (c : Combiner ι α ω) (xs : List ι.Carrier)

theorem splitOutput_eq (n : Nat) : c.splitOutput xs n = c.mergedOutput [xs.take n, xs.drop n] := by
  simp [splitOutput, mergedOutput]

theorem singlesOutput_eq : c.singlesOutput xs = c.mergedOutput (xs.map fun x => [x]) := by
  rw [singlesOutput, mergedOutput, List.mapM_map, bind_assoc]
  rfl

theorem compactedOutput_eq :
    c.compactedOutput xs = xs.foldlM c.addCompacting c.create >>= c.extract := rfl

theorem paddedOutput_eq : c.paddedOutput xs = c.mergedOutput [[], xs, []] := by
  have hnil : c.fold [] = pure c.create := rfl
  simp [paddedOutput, mergedOutput, hnil]

theorem emptyMergeOutput_eq : c.emptyMergeOutput = c.mergedOutput [] := by
  simp [emptyMergeOutput, mergedOutput]

end Arrangements

section Check
variable {c : Combiner ι α ω} {eq : ω.Carrier → ω.Carrier → Bool} {xs : List ι.Carrier}

/-- A computation gives what `eq` takes for `o`. -/
def Agrees (eq : ω.Carrier → ω.Carrier → Bool) (x : Checked ω.Carrier) (o : ω.Carrier) : Prop :=
  ∃ o', x = .ok o' ∧ eq o' o = true

theorem agrees_ok_iff {o o' : ω.Carrier} : Agrees eq (.ok o') o ↔ eq o' o = true := by
  constructor
  · rintro ⟨_, ho, hsame⟩
    cases ho
    exact hsame
  · exact fun hsame => ⟨o', rfl, hsame⟩

theorem sameOutput_ok_iff {why : Inconsistency} {o : ω.Carrier} {x : Checked ω.Carrier} :
    sameOutput eq why o x = .ok () ↔ Agrees eq x o := by
  cases x with
  | error f => exact ⟨nofun, nofun⟩
  | ok o' =>
    rw [agrees_ok_iff]
    exact ite_eq_ok_iff

theorem checkConsistent_ok_iff : c.checkConsistent eq xs = .ok () ↔
    ∃ o, c.apply xs = .ok o ∧
      (∀ n ≤ xs.length, Agrees eq (c.mergedOutput [xs.take n, xs.drop n]) o) ∧
      Agrees eq (c.mergedOutput (xs.map fun x => [x])) o ∧
      Agrees eq (c.compactedOutput xs) o ∧
      Agrees eq (c.mergedOutput [[], xs, []]) o ∧
      ∃ d, c.default = .ok d ∧ Agrees eq (c.mergedOutput []) d := by
  unfold checkConsistent
  simp only [splitOutput_eq, singlesOutput_eq, paddedOutput_eq, emptyMergeOutput_eq]
  cases c.apply xs with
  | error f => exact ⟨nofun, nofun⟩
  | ok o =>
    simp only [then_eq_ok_iff, forM_eq_ok_iff, sameOutput_ok_iff, List.mem_range, Nat.lt_succ_iff,
      Except.ok.injEq, exists_eq_left']
    refine and_congr_right fun _ => and_congr_right fun _ => and_congr_right fun _ =>
      and_congr_right fun _ => ?_
    cases c.mergedOutput [] with
    | error f => exact ⟨nofun, nofun⟩
    | ok o' =>
      cases c.default with
      | error f => exact ⟨nofun, nofun⟩
      | ok d =>
        simp only [Except.ok.injEq, exists_eq_left', agrees_ok_iff]
        exact ite_eq_ok_iff

end Check
end Combiner

namespace MergeTree
variable {c : Combiner ι α ω} {coder : Option (Coder α)}

theorem build_pass (xs : List ι.Carrier) : (pass xs).build c coder = (c.fold xs).inRun := by
  induction xs using List.reverseRecOn with
  | nil => exact build.eq_1 c coder
  | append_singleton xs x ih => rw [pass_snoc, build, ih, Combiner.fold_snoc, inRun_bind]

theorem build_compactingPass (xs : List ι.Carrier) :
    (compactingPass xs).build c coder = (xs.foldlM c.addCompacting c.create).inRun := by
  induction xs using List.reverseRecOn with
  | nil => exact build.eq_1 c coder
  | append_singleton xs x ih =>
    have hstep (a : α.Carrier) : ([x].foldlM c.addCompacting a).inRun =
        (c.compact a).inRun >>= fun a => (c.add a x).inRun >>= fun a => (c.compact a).inRun := by
      have hone : [x].foldlM c.addCompacting a = c.addCompacting a x := bind_pure _
      rw [hone, Combiner.addCompacting, inRun_bind]
      simp only [inRun_bind]
    rw [compactingPass_snoc, List.foldlM_append, inRun_bind, ← ih, build, build, build, bind_assoc,
      bind_assoc]
    simp only [hstep]

theorem build_merge_passes (xss : List (List ι.Carrier)) :
    (merge (xss.map pass)).build c coder = (xss.mapM c.fold >>= c.merge).inRun := by
  rw [build, List.mapM_map, inRun_bind, inRun_mapM]
  congr 2
  funext xs
  exact build_pass xs

theorem output_eq_inRun {t : MergeTree ι.Carrier} {x : Checked α.Carrier}
    (h : t.build c coder = x.inRun) : t.output c coder = (x >>= c.extract).inRun := by
  rw [output, h, inRun_bind]

theorem output_merge_passes (xss : List (List ι.Carrier)) :
    (merge (xss.map pass)).output c coder = (c.mergedOutput xss).inRun :=
  output_eq_inRun (build_merge_passes xss)

/-- One output for all staged trees over the same inputs. -/
def OneOutput (c : Combiner ι α ω) (answer : List ι.Carrier → ω.Carrier) : Prop :=
  ∀ t : MergeTree ι.Carrier, t.Staged → t.output c none = .ok (answer t.inputs)

namespace OneOutput
variable {answer : List ι.Carrier → ω.Carrier} {eq : ω.Carrier → ω.Carrier → Bool}

theorem apply (h : OneOutput c answer) (xs : List ι.Carrier) : c.apply xs = .ok (answer xs) := by
  have hpass := h (pass xs) (.batch (batched_pass xs))
  rwa [output_eq_inRun (build_pass xs), inputs_pass, inRun_eq_ok_iff] at hpass

theorem compactedOutput (h : OneOutput c answer) (xs : List ι.Carrier) :
    c.compactedOutput xs = .ok (answer xs) := by
  have hpass := h (compactingPass xs) (.batch (batched_compactingPass xs))
  rwa [output_eq_inRun (build_compactingPass xs), ← Combiner.compactedOutput_eq,
    inputs_compactingPass, inRun_eq_ok_iff] at hpass

theorem mergedOutput (h : OneOutput c answer) (xss : List (List ι.Carrier)) :
    c.mergedOutput xss = .ok (answer xss.flatten) := by
  have hmerge := h (merge (xss.map pass)) (staged_merge_passes xss)
  rwa [output_merge_passes, inputs_merge_passes, inRun_eq_ok_iff] at hmerge

theorem checkConsistent (h : OneOutput c answer) (hrefl : ∀ o, eq o o = true)
    (hdefault : c.default = c.extract c.create) (xs : List ι.Carrier) :
    c.checkConsistent eq xs = .ok () := by
  have hagree {x : Checked ω.Carrier} {ys : List ι.Carrier} (hx : x = .ok (answer ys))
      (hys : ys = xs) : Combiner.Agrees eq x (answer xs) := by
    subst hys
    exact ⟨answer ys, hx, hrefl _⟩
  rw [Combiner.checkConsistent_ok_iff]
  refine ⟨answer xs, h.apply xs, fun n _ => hagree (h.mergedOutput _) ?_,
    hagree (h.mergedOutput _) ?_, hagree (h.compactedOutput xs) rfl,
    hagree (h.mergedOutput _) ?_, answer [], ?_, answer [], h.mergedOutput [], hrefl _⟩
  · simp
  · simp [← List.flatMap_def]
  · simp
  · rw [hdefault]
    exact h.apply []

end OneOutput
end MergeTree

namespace Combiner
variable {c : Combiner ι α ω} {eq : ω.Carrier → ω.Carrier → Bool}

/-- Two folds merge, without fail, into the fold of all their inputs. -/
def MergesFolds (c : Combiner ι α ω) : Prop :=
  ∀ xs ys, ∃ a b m, c.fold xs = .ok a ∧ c.fold ys = .ok b ∧ c.merge [a, b] = .ok m ∧
    c.fold (xs ++ ys) = .ok m

theorem mergesFolds_of_checked (heq : ∀ o o', eq o o' = true ↔ o = o')
    (hinj : ∀ a b o, c.extract a = .ok o → c.extract b = .ok o → a = b)
    (hcheck : ∀ xs, c.checkConsistent eq xs = .ok ()) : c.MergesFolds := by
  intro xs ys
  obtain ⟨o, happly, hsplits, _⟩ := checkConsistent_ok_iff.mp (hcheck (xs ++ ys))
  obtain ⟨m, hm, hmo⟩ := bind_eq_ok_iff.mp happly
  obtain ⟨o', hsplit, hsame⟩ := hsplits xs.length (by simp)
  cases (heq o' o).mp hsame
  rw [← splitOutput_eq] at hsplit
  obtain ⟨a, ha, hsplit⟩ := bind_eq_ok_iff.mp hsplit
  obtain ⟨b, hb, hsplit⟩ := bind_eq_ok_iff.mp hsplit
  obtain ⟨m', hm', hmo'⟩ := bind_eq_ok_iff.mp hsplit
  rw [List.take_left] at ha
  rw [List.drop_left] at hb
  cases hinj m m' o hmo hmo'
  exact ⟨a, b, m, ha, hb, hm', hm⟩

namespace MergesFolds

theorem build_binary (h : c.MergesFolds) {t : MergeTree ι.Carrier} (ht : t.Binary) :
    ∃ a, c.fold t.inputs = .ok a ∧ t.build c none = .ok a := by
  induction ht with
  | pass xs =>
    obtain ⟨a, _, _, ha, _⟩ := h xs []
    rw [MergeTree.inputs_pass, MergeTree.build_pass, ha]
    exact ⟨a, rfl, rfl⟩
  | @merge l r _ _ ihl ihr =>
    obtain ⟨a, ha, hla⟩ := ihl
    obtain ⟨b, hb, hrb⟩ := ihr
    obtain ⟨a', b', m, ha', hb', hmerge, hm⟩ := h l.inputs r.inputs
    cases ha.symm.trans ha'
    cases hb.symm.trans hb'
    refine ⟨m, by simpa using hm, ?_⟩
    rw [MergeTree.build, List.mapM_cons, List.mapM_cons, List.mapM_nil, hla, hrb]
    change (c.merge [a, b]).inRun = _
    rw [hmerge]
    rfl

/-- Taking in the partials of consecutive batches one by one continues the pass before them. -/
theorem finish_addAll (h : c.MergesFolds) (κ : ElemType B) (k : κ.Carrier) (ctx : CombineContext B)
    (xss : List (List ι.Carrier)) {ys : List ι.Carrier} {a : α.Carrier} (ha : c.fold ys = .ok a) :
    ∃ parts m, xss.mapM c.fold = .ok parts ∧ c.fold (ys ++ xss.flatten) = .ok m ∧
      (c.keyed κ).finish.addAll k ctx a (parts.map .accum) = .ok m := by
  induction xss generalizing ys a with
  | nil => exact ⟨[], a, rfl, by rwa [List.flatten_nil, List.append_nil], rfl⟩
  | cons xs xss ih =>
    obtain ⟨a', b, m, ha', hb, hmerge, hm⟩ := h ys xs
    cases ha.symm.trans ha'
    obtain ⟨parts, n, hparts, hn, hfold⟩ := ih hm
    refine ⟨b :: parts, n, ?_, ?_, ?_⟩
    · rw [List.mapM_cons, hb, hparts]
      rfl
    · rwa [List.flatten_cons, ← List.append_assoc]
    · exact bind_eq_ok_iff.mpr ⟨m, hmerge, hfold⟩

end MergesFolds

theorem Computes.oneOutput {held : List ι.Carrier → Option ι.Carrier}
    {result : List ι.Carrier → ω.Carrier} {acc : List ι.Carrier → α.Carrier}
    (h : c.Computes (fun _ => True) held result acc) : MergeTree.OneOutput c result := by
  intro t _
  have happly : c.apply t.inputs = .ok (result t.inputs) := by
    rw [apply, h.fold_eq trivial]
    exact h.extract_eq t.inputs
  have hsurvives : MergeTree.Survives c (· = ·) none t.inputs := fun _ a _ _ => ⟨a, rfl, rfl⟩
  have hout := MergeTree.output_corresponds h.mergesAll t hsurvives
  rw [happly] at hout
  obtain ⟨o, ho, rfl⟩ := hout.ok_right
  exact ho

/-- What the check certifies. A combiner with one output for all staged trees passes on all inputs.
Where outputs are compared by equality and tell accumulators apart, one that passes on all inputs
gives the accumulator of a single pass by pairwise merges in any tree, and by taking in the partials
of consecutive batches one after another. -/
theorem checkConsistent_certifies (c : Combiner ι α ω) (eq : ω.Carrier → ω.Carrier → Bool) :
    ((∀ o, eq o o = true) → c.default = c.extract c.create →
      (∃ answer, MergeTree.OneOutput c answer) → ∀ xs, c.checkConsistent eq xs = .ok ()) ∧
    ((∀ o o', eq o o' = true ↔ o = o') →
      (∀ a b o, c.extract a = .ok o → c.extract b = .ok o → a = b) →
      (∀ xs, c.checkConsistent eq xs = .ok ()) →
      (∀ t : MergeTree ι.Carrier, t.Binary →
        ∃ a, c.fold t.inputs = .ok a ∧ t.build c none = .ok a) ∧
      ∀ (κ : ElemType B) (k : κ.Carrier) (ctx : CombineContext B) (xss : List (List ι.Carrier)),
        ∃ parts a, xss.mapM c.fold = .ok parts ∧ c.fold xss.flatten = .ok a ∧
          (c.keyed κ).finish.fold k ctx (parts.map .accum) = .ok a) := by
  constructor
  · rintro hrefl hdefault ⟨answer, hone⟩ xs
    exact hone.checkConsistent hrefl hdefault xs
  · intro heq hinj hcheck
    have hmerges := mergesFolds_of_checked heq hinj hcheck
    have hfresh : c.fold [] = .ok c.create := rfl
    exact ⟨fun t ht => hmerges.build_binary ht,
      fun κ k ctx xss => hmerges.finish_addAll κ k ctx xss hfresh⟩

def wrappingSum : Combiner (.uint32 : Sample.Ty) .uint32 .uint32 :=
  sum .uint32 0 fun a b : UInt32 => .ok (a + b)

theorem checkConsistent_certifies_of_wrappingSum :
    (∀ xs, wrappingSum.checkConsistent (fun a b : UInt32 => a == b) xs = .ok ()) ∧
    (∃ a, wrappingSum.fold [5, 7, 3] = .ok a ∧
      (MergeTree.merge [.pass [5], .merge [.pass [], .pass [7, 3]]]).build wrappingSum none =
        .ok a) ∧
    ∃ parts a, [[5], [], [(7 : UInt32), 3]].mapM wrappingSum.fold = .ok parts ∧
      wrappingSum.fold [5, 7, 3] = .ok a ∧
        (wrappingSum.keyed .string).finish.fold "k" .global (parts.map .accum) = .ok a := by
  obtain ⟨hsound, hcertifies⟩ :=
    checkConsistent_certifies wrappingSum fun a b : UInt32 => a == b
  have hone : MergeTree.OneOutput wrappingSum fun xs : List UInt32 => xs.foldl (· + ·) 0 :=
    (sum_computes .uint32 ⟨UInt32.add_assoc⟩
      { left_id := UInt32.zero_add, right_id := UInt32.add_zero }).oneOutput
  have hcheck := hsound (fun o : UInt32 => beq_self_eq_true o) rfl ⟨_, hone⟩
  obtain ⟨htrees, hpartials⟩ := hcertifies (fun o o' : UInt32 => beq_iff_eq)
    (fun a b o ha hb => by cases ha; cases hb; rfl) hcheck
  have htree := htrees _ (.merge (.pass [5]) (.merge (.pass []) (.pass [7, 3])))
  simp only [MergeTree.inputs_merge, MergeTree.inputs_pass, List.map_cons, List.map_nil] at htree
  exact ⟨hcheck, htree, hpartials .string "k" .global [[5], [], [7, 3]]⟩

end Combiner

end KeyedFlow
