import KeyedFlow.Proofs.Combiner.BuiltIn
import Mathlib.Algebra.Order.BigOperators.Group.List
import Mathlib.Algebra.Order.Group.Abs
import Mathlib.Algebra.Order.Ring.Int

/-!
Checked sums in trees of accumulators. Whatever a tree adds up on its way is the sum of a run of
consecutive inputs. So its accumulator is the exact sum of all inputs, unless some run has a sum out
of range. Without negative values no run amounts to more than the whole, and every tree over the
same inputs overflows or none does; with them no tree does as long as the absolute values of the
inputs fit together.
-/

set_option autoImplicit false

namespace KeyedFlow
open Outcome

namespace Word

/-- The result of `x` meets `P`, or an addition of `α` overflows in it; then some consecutive ones
of the amounts `ns` have a sum out of range. -/
inductive UnlessOverflow (α : Type) [Word α] {γ : Type} (ns : List Int) (P : γ → Prop) :
    Except RunError γ → Prop where
  | ok {c : γ} (h : P c) : UnlessOverflow α ns P (.ok c)
  | overflow {ms : List Int} (hms : ms <:+: ns) (hout : ¬ InRange α ms.sum) :
      UnlessOverflow α ns P (.error (.fault .addOverflow))

variable {α β γ δ : Type} [Word α]

/-- A word that stands for the sum of amounts. -/
def Totals (ns : List Int) (a : α) : Prop := toInt a = ns.sum

namespace UnlessOverflow
variable {ms ns : List Int} {P : γ → Prop} {Q : δ → Prop} {x : Except RunError γ} {a b zero : α}

theorem bind {f : γ → Except RunError δ} (h : UnlessOverflow α ms P x) (hsub : ms <:+: ns)
    (hf : ∀ c, P c → UnlessOverflow α ns Q (f c)) : UnlessOverflow α ns Q (x >>= f) := by
  cases h with
  | ok hc => exact hf _ hc
  | overflow hks hout => exact .overflow (hks.trans hsub) hout

theorem add (ha : Totals ms a) (hb : Totals ns b) :
    UnlessOverflow α (ms ++ ns) (Totals (α := α) (ms ++ ns)) (Word.add a b).inRun := by
  have hsum : toInt a + toInt b = (ms ++ ns).sum := by rw [List.sum_append, ha, hb]
  cases hadd : Word.add a b with
  | ok c => exact .ok ((add_eq_ok_iff.mp hadd).2.trans hsum)
  | error f =>
    obtain ⟨hout, rfl⟩ := exact_eq_error_iff.mp hadd
    exact .overflow List.infix_rfl (hsum ▸ hout)

/-- Each step adds a run to all those before it, so the sums on the way are those of runs. -/
theorem foldlM {nss : List (List Int)} {bs : List α} (h : List.Forall₂ Totals nss bs)
    (ha : Totals ms a) :
    UnlessOverflow α (ms ++ nss.flatten) (Totals (α := α) (ms ++ nss.flatten))
      (bs.foldlM Word.add a).inRun := by
  induction h generalizing a ms with
  | nil =>
    rw [List.flatten_nil, List.append_nil]
    exact .ok ha
  | @cons ns b nss bs hb _ ih =>
    rw [List.foldlM_cons, inRun_bind, List.flatten_cons, ← List.append_assoc]
    exact (UnlessOverflow.add ha hb).bind (List.infix_append' [] _ _) fun c hc => ih hc

theorem mapM {f : β → Except RunError α} {amounts : β → List Int} {ts : List β}
    (h : ∀ t ∈ ts, UnlessOverflow α (amounts t) (Totals (amounts t)) (f t)) :
    UnlessOverflow α (ts.map amounts).flatten (List.Forall₂ Totals (ts.map amounts))
      (ts.mapM f) := by
  induction ts with
  | nil => exact .ok .nil
  | cons t ts ih =>
    obtain ⟨ht, hts⟩ := List.forall_mem_cons.mp h
    rw [List.mapM_cons, List.map_cons, List.flatten_cons]
    refine ht.bind (List.infix_append' [] _ _) fun b hb => ?_
    exact (ih hts).bind (List.suffix_append _ _).isInfix fun bs hbs => .ok (.cons hb hbs)

theorem merge {f : β → Except RunError α} {amounts : β → List Int} {ts : List β}
    (h : ∀ t ∈ ts, UnlessOverflow α (amounts t) (Totals (amounts t)) (f t))
    (hz : toInt zero = 0) :
    UnlessOverflow α (ts.map amounts).flatten (Totals (α := α) (ts.map amounts).flatten)
      (ts.mapM f >>= fun as => (as.foldlM Word.add zero).inRun) :=
  (mapM h).bind List.infix_rfl fun _ has => foldlM has (show Totals [] zero from hz)

theorem exists_ok (h : UnlessOverflow α ns P x) (hns : ∀ ms, ms <:+: ns → InRange α ms.sum) :
    ∃ c, x = .ok c ∧ P c := by
  cases h with
  | ok hc => exact ⟨_, rfl, hc⟩
  | overflow hms hout => exact absurd (hns _ hms) hout

theorem eq_overflow (h : UnlessOverflow α ns P x) (hP : ∀ c, ¬ P c) :
    x = .error (.fault .addOverflow) := by
  cases h with
  | ok hc => exact absurd hc (hP _)
  | overflow _ _ => rfl

end UnlessOverflow

section Runs
variable {ms ns : List Int}

theorem inRange_of_nonneg (hleast : least α ≤ 0) (hns : ∀ n ∈ ns, 0 ≤ n)
    (hsum : ns.sum ≤ greatest α) (hms : ms <:+: ns) : InRange α ms.sum := by
  have hlow : 0 ≤ ms.sum := List.sum_nonneg fun n hn => hns n (hms.subset hn)
  have hhigh : ms.sum ≤ ns.sum := hms.sublist.sum_le_sum hns
  exact ⟨hleast.trans hlow, hhigh.trans hsum⟩

theorem inRange_of_abs (hleast : least α ≤ -greatest α)
    (hsum : (ns.map fun n => |n|).sum ≤ greatest α) (hms : ms <:+: ns) : InRange α ms.sum := by
  have hrun : |ms.sum| ≤ (ms.map fun n => |n|).sum :=
    List.le_sum_of_subadditive (fun n => |n|) abs_zero.le abs_add_le ms
  have hpart : (ms.map fun n => |n|).sum ≤ (ns.map fun n => |n|).sum := by
    refine (hms.sublist.map _).sum_le_sum fun n hn => ?_
    obtain ⟨m, _, rfl⟩ := List.mem_map.mp hn
    exact abs_nonneg m
  obtain ⟨hlow, hhigh⟩ := abs_le.mp (hrun.trans (hpart.trans hsum))
  exact ⟨hleast.trans hlow, hhigh⟩

end Runs
end Word

namespace Combiner
open Word
variable {B : Type} [TypeFamily B] {ι α ω τ : ElemType B}

section Trees
variable {c : Combiner ι α ω} [Word α.Carrier] {zero : α.Carrier} {embed : ι.Carrier → α.Carrier}

theorem Sums.build_unlessOverflow (hs : c.Sums zero Word.add embed) (hz : toInt zero = 0)
    (t : MergeTree ι.Carrier) :
    UnlessOverflow α.Carrier (t.inputs.map fun x => toInt (embed x))
      (Totals (α := α.Carrier) (t.inputs.map fun x => toInt (embed x))) (t.build c none) := by
  induction t with
  | fresh =>
    rw [MergeTree.build, MergeTree.inputs_fresh, hs.create_eq]
    exact .ok hz
  | add t x ih =>
    rw [MergeTree.build, MergeTree.inputs_add, List.map_append]
    refine ih.bind (List.infix_append' [] _ _) fun a ha => ?_
    rw [hs.add_eq]
    exact .add ha (by simp [Totals])
  | merge ts ih =>
    have hmerge := UnlessOverflow.merge ih hz
    rw [MergeTree.build, MergeTree.inputs_merge, funext hs.merge_eq, List.map_flatten, List.map_map]
    exact hmerge
  | compact t ih =>
    rw [MergeTree.build, MergeTree.inputs_compact]
    refine ih.bind List.infix_rfl fun a ha => ?_
    rw [hs.compact_eq]
    exact .ok ha
  | recode t ih =>
    rw [MergeTree.build, MergeTree.inputs_recode]
    exact ih.bind List.infix_rfl fun a ha => .ok ha

theorem Sums.output_unlessOverflow {c : Combiner ι τ τ} [Word τ.Carrier] {zero : τ.Carrier}
    {embed : ι.Carrier → τ.Carrier} (hs : c.Sums zero Word.add embed) (hz : toInt zero = 0)
    (hextract : ∀ a, c.extract a = .ok a) (t : MergeTree ι.Carrier) :
    UnlessOverflow τ.Carrier (t.inputs.map fun x => toInt (embed x))
      (Totals (α := τ.Carrier) (t.inputs.map fun x => toInt (embed x))) (t.output c none) := by
  refine (hs.build_unlessOverflow hz t).bind List.infix_rfl fun a ha => ?_
  rw [hextract]
  exact .ok ha

end Trees

/-- Every tree gives the exact total of what its inputs amount to, unless that is greater than any
word; then every tree overflows. -/
structure OverflowsAlike (c : Combiner ι α τ) [Word τ.Carrier] (amount : ι.Carrier → Int) :
    Prop where
  exact : ∀ t : MergeTree ι.Carrier, (t.inputs.map amount).sum ≤ greatest τ.Carrier →
    ∃ o, t.output c none = .ok o ∧ toInt o = (t.inputs.map amount).sum
  overflows : ∀ t : MergeTree ι.Carrier, t.output c none = .error (.fault .addOverflow) ↔
    greatest τ.Carrier < (t.inputs.map amount).sum
  alike : ∀ t u : MergeTree ι.Carrier, t.inputs = u.inputs → t.output c none = u.output c none

section Outputs
variable {c : Combiner ι τ τ} [Word τ.Carrier] {zero : τ.Carrier} {embed : ι.Carrier → τ.Carrier}

theorem Sums.overflowsAlike (hs : c.Sums zero Word.add embed) (hz : toInt zero = 0)
    (hextract : ∀ a, c.extract a = .ok a) (hleast : least τ.Carrier = 0) :
    c.OverflowsAlike fun x => toInt (embed x) := by
  have hout := hs.output_unlessOverflow hz hextract
  have hexact (t : MergeTree ι.Carrier)
      (ht : (t.inputs.map fun x => toInt (embed x)).sum ≤ greatest τ.Carrier) :
      ∃ o, t.output c none = .ok o ∧ toInt o = (t.inputs.map fun x => toInt (embed x)).sum := by
    refine (hout t).exists_ok fun ms => inRange_of_nonneg hleast.le (fun n hn => ?_) ht
    obtain ⟨x, _, rfl⟩ := List.mem_map.mp hn
    exact hleast.symm.le.trans (least_le _)
  have hover (t : MergeTree ι.Carrier)
      (ht : greatest τ.Carrier < (t.inputs.map fun x => toInt (embed x)).sum) :
      t.output c none = .error (.fault .addOverflow) :=
    (hout t).eq_overflow fun o ho => (ho ▸ le_greatest o).not_gt ht
  refine ⟨hexact, fun t => ⟨fun ht => ?_, hover t⟩, fun t u htu => ?_⟩
  · by_contra hle
    obtain ⟨o, ho, _⟩ := hexact t (not_lt.mp hle)
    cases ht.symm.trans ho
  · rcases le_or_gt (t.inputs.map fun x => toInt (embed x)).sum (greatest τ.Carrier) with ht | ht
    · obtain ⟨o, ho, hto⟩ := hexact t ht
      obtain ⟨p, hp, hup⟩ := hexact u (htu ▸ ht)
      rw [ho, hp, toInt_injective (hto.trans (htu ▸ hup.symm))]
    · rw [hover t ht, hover u (htu ▸ ht)]

theorem Sums.exact_of_abs (hs : c.Sums zero Word.add embed) (hz : toInt zero = 0)
    (hextract : ∀ a, c.extract a = .ok a) (hleast : least τ.Carrier ≤ -greatest τ.Carrier)
    (t : MergeTree ι.Carrier)
    (ht : (t.inputs.map fun x => |toInt (embed x)|).sum ≤ greatest τ.Carrier) :
    ∃ o, t.output c none = .ok o ∧ toInt o = (t.inputs.map fun x => toInt (embed x)).sum := by
  refine (hs.output_unlessOverflow hz hextract t).exists_ok fun ms => inRange_of_abs hleast ?_
  rwa [List.map_map]

end Outputs

/-- However inputs are batched and merged, sums of words without negative values and counts overflow
exactly when the exact total is too great, and otherwise are exact. Sums of words with a sign are
exact where the absolute values of the inputs fit together. -/
theorem machineSums_overflow_alike :
    (sum (.uint32 : ElemType B) (0 : UInt32) Word.add).OverflowsAlike (toInt (α := UInt32)) ∧
    (sum (.uint64 : ElemType B) (0 : UInt64) Word.add).OverflowsAlike (toInt (α := UInt64)) ∧
    (∀ ι : ElemType B, (count ι).OverflowsAlike fun _ => 1) ∧
    (∀ t : MergeTree Int32, (t.inputs.map fun x => |toInt x|).sum ≤ greatest Int32 →
      ∃ o : Int32, t.output (sum (.int32 : ElemType B) (0 : Int32) Word.add) none = .ok o ∧
        toInt o = (t.inputs.map toInt).sum) ∧
    ∀ t : MergeTree Int64, (t.inputs.map fun x => |toInt x|).sum ≤ greatest Int64 →
      ∃ o : Int64, t.output (sum (.int64 : ElemType B) (0 : Int64) Word.add) none = .ok o ∧
        toInt o = (t.inputs.map toInt).sum := by
  have hint32 : least Int32 ≤ -greatest Int32 := by decide
  have hint64 : least Int64 ≤ -greatest Int64 := by decide
  refine ⟨sum_sums.overflowsAlike rfl (fun _ => rfl) rfl,
    sum_sums.overflowsAlike rfl (fun _ => rfl) rfl,
    fun ι => (count_sums ι).overflowsAlike rfl (fun _ => rfl) rfl, ?_, ?_⟩
  · exact (sum_sums (τ := .int32)).exact_of_abs rfl (fun _ => rfl) hint32
  · exact (sum_sums (τ := .int64)).exact_of_abs rfl (fun _ => rfl) hint64

/-- Batches of one merged with a merge of nothing. -/
def singles (xs : List UInt32) : MergeTree UInt32 :=
  .merge [.merge [], .merge (xs.map (MergeTree.fresh.add ·))]

/-- A large value and its opposite in different batches, the sum after them. -/
def opposites : MergeTree Int32 :=
  .merge [.add .fresh 1000000000, .add (.add .fresh (-1000000000)) 147483647]

theorem machineSums_overflow_alike_of_singles :
    (singles [4294967295, 0, 1]).output (sum (.uint32 : Sample.Ty) (0 : UInt32) Word.add) none =
      .error (.fault .addOverflow) ∧
    opposites.output (sum (.int32 : Sample.Ty) (0 : Int32) Word.add) none =
      .ok (147483647 : Int32) := by
  obtain ⟨huint, _, _, hint, _⟩ := machineSums_overflow_alike (B := Sample.Own)
  have hopposites : opposites.inputs = [1000000000, -1000000000, 147483647] := by simp [opposites]
  have hsingles : (singles [4294967295, 0, 1]).inputs = [4294967295, 0, 1] := by simp [singles]
  refine ⟨(huint.overflows _).mpr (by rw [hsingles]; decide), ?_⟩
  obtain ⟨o, ho, hsum⟩ := hint opposites (by rw [hopposites]; decide)
  rw [hopposites] at hsum
  rw [ho, toInt_injective (b := (147483647 : Int32)) (hsum.trans (by decide))]

end Combiner
end KeyedFlow
