import KeyedFlow.Combiner.Operator
import KeyedFlow.Proofs.Coder.Leaves
import KeyedFlow.Proofs.Combiner.MergeTree
import KeyedFlow.Proofs.Combiner.Sums
import KeyedFlow.Sample.Scalar
import Mathlib.Data.List.Induction

/-!
The combiners of the library that give one answer however their inputs are batched: sums, extremes,
counts and associative operators. Each sums its inputs in some monoid, where an empty accumulator is
the identity, so an identity element of the user's own has no part in the result of any inputs.
-/

set_option autoImplicit false

namespace KeyedFlow
open Outcome

namespace PartialMonoid
variable {α : Type} {op : α → α → α} {one : α}

theorem total (hop : Std.Associative op) (hone : Std.LawfulIdentity op one) :
    PartialMonoid one fun a b => .ok (op a b) where
  zero_add a := by rw [hone.left_id]
  add_zero a := by rw [hone.right_id]
  assoc a b c := .ok (hop.assoc a b c)

end PartialMonoid

def Holder.merge {α : Type} (op : α → α → α) (h h' : Holder α) : Holder α :=
  ⟨Option.merge op h.value? h'.value?⟩

namespace Holder
variable {α : Type} {op : α → α → α}

theorem merge_associative (hop : Std.Associative op) : Std.Associative (merge op) where
  assoc a b c := congrArg Holder.mk ((Option.associative_merge op).assoc a.value? b.value? c.value?)

theorem merge_lawfulIdentity : Std.LawfulIdentity (merge op) Holder.empty where
  left_id a := congrArg Holder.mk ((Option.lawfulIdentity_merge op).left_id a.value?)
  right_id a := congrArg Holder.mk ((Option.lawfulIdentity_merge op).right_id a.value?)

end Holder

namespace Combiner

def reduce? {α : Type} (op : α → α → α) : List α → Option α
  | [] => none
  | x :: xs => some (xs.foldl op x)

/-- The one that is kept, the first when both may be. -/
def pick {α : Type} (keepLeft : α → α → Bool) (a b : α) : α := if keepLeft a b then a else b

section Reducing
variable {α : Type} {op : α → α → α}

theorem foldl_merge (op : α → α → α) (xs : List α) :
    (xs.map some).foldl (Option.merge op) none = reduce? op xs := by
  cases xs with
  | nil => rfl
  | cons x xs =>
    have hfrom (x : α) : (xs.map some).foldl (Option.merge op) (some x) = some (xs.foldl op x) := by
      induction xs generalizing x with
      | nil => rfl
      | cons y xs ih => exact ih (op x y)
    exact hfrom x

theorem foldl_holder_merge (op : α → α → α) (xs : List α) :
    (xs.map Holder.of).foldl (Holder.merge op) Holder.empty = ⟨reduce? op xs⟩ := by
  rw [← foldl_merge]
  have hfrom (o : Option α) : (xs.map Holder.of).foldl (Holder.merge op) ⟨o⟩ =
      ⟨(xs.map some).foldl (Option.merge op) o⟩ := by
    induction xs generalizing o with
    | nil => rfl
    | cons x xs ih => exact ih _
  exact hfrom none

theorem preferred_eq_merge (keepLeft : α → α → Bool) :
    preferred keepLeft = Option.merge (pick keepLeft) := by
  funext a b
  cases a <;> cases b <;> rfl

theorem foldInto_eq_merge (op : α → α → α) (h : Holder α) (v : α) :
    foldInto op h v = h.merge op (.of v) := by
  obtain ⟨o⟩ := h
  cases o <;> rfl

theorem foldl_foldInto (op : α → α → α) (hs : List (Holder α)) (h : Holder α) :
    (hs.filterMap Holder.value?).foldl (foldInto op) h = hs.foldl (Holder.merge op) h := by
  induction hs generalizing h with
  | nil => rfl
  | cons g hs ih =>
    obtain ⟨o⟩ := g
    cases o with
    | none =>
      have hnone : h.merge op ⟨none⟩ = h := congrArg Holder.mk Option.merge_none_right
      rw [List.foldl_cons, hnone]
      exact ih h
    | some v =>
      have hsome : foldInto op h v = h.merge op ⟨some v⟩ := foldInto_eq_merge op h v
      rw [List.foldl_cons, ← hsome]
      exact ih (foldInto op h v)

/-- What is first among some elements of a total preorder is so in whatever order they are compared,
as long as the first of two that are alike stays before the other. -/
theorem pick_associative {le : α → α → Bool} (total : ∀ a b, le a b ∨ le b a)
    (trans : ∀ a b c, le a b → le b c → le a c) : Std.Associative (pick le) where
  assoc a b c := by
    by_cases hab : le a b
    · by_cases hbc : le b c
      · simp [pick, hab, hbc, trans a b c hab hbc]
      · simp [pick, hab, hbc]
    · by_cases hbc : le b c
      · simp [pick, hab, hbc]
      · have hcb : le c b := (total b c).resolve_left hbc
        have hac : ¬ le a c := fun h => hab (trans a c b h hcb)
        simp [pick, hab, hbc, hac]

end Reducing

variable {B : Type} [TypeFamily B] {ι α ω : ElemType B}

/-- The combiners of the library over associative operations: which inputs they take, the input
value that the accumulator of some inputs holds, if any, and their result. -/
inductive BuiltIn : {ι α ω : ElemType B} → Combiner ι α ω → (takes : List ι.Carrier → Prop) →
    (held : List ι.Carrier → Option ι.Carrier) → (result : List ι.Carrier → ω.Carrier) → Prop where
  | sum (τ : ElemType B) {zero : τ.Carrier} {plus : τ.Carrier → τ.Carrier → τ.Carrier}
      (assoc : Std.Associative plus) (identity : Std.LawfulIdentity plus zero) :
      BuiltIn (sum τ zero fun a b => .ok (plus a b)) (fun _ => True)
        (fun xs => some (xs.foldl plus zero)) fun xs => xs.foldl plus zero
  | min (τ : ElemType B) {le : τ.Carrier → τ.Carrier → Bool} (total : ∀ a b, le a b ∨ le b a)
      (trans : ∀ a b c, le a b → le b c → le a c) :
      BuiltIn (min τ le) (fun _ => True) (reduce? (pick le)) (reduce? (pick le))
  | max (τ : ElemType B) {le : τ.Carrier → τ.Carrier → Bool} (total : ∀ a b, le a b ∨ le b a)
      (trans : ∀ a b c, le a b → le b c → le a c) :
      BuiltIn (max τ le) (fun _ => True) (reduce? (pick fun a b => le b a))
        (reduce? (pick fun a b => le b a))
  | count (ι : ElemType B) :
      BuiltIn (count ι) (fun xs => xs.length < 2 ^ 64) (fun _ => none)
        fun xs => UInt64.ofNat xs.length
  | operator (τ : ElemType B) {op : τ.Carrier → τ.Carrier → τ.Carrier}
      (assoc : Std.Associative op) (identity : Option τ.Carrier) :
      BuiltIn (operator τ op identity) (fun _ => True) (reduce? op)
        fun xs => (reduce? op xs).orElse fun _ => identity
  | scalar (τ : ElemType B) {op : τ.Carrier → τ.Carrier → τ.Carrier} {one : τ.Carrier}
      (assoc : Std.Associative op) (identity : Std.LawfulIdentity op one) :
      BuiltIn (scalar τ op one) (fun _ => True) (fun xs => some (xs.foldl op one))
        fun xs => xs.foldl op one

theorem extreme_sums (name : String) (τ : ElemType B) (keepLeft : τ.Carrier → τ.Carrier → Bool) :
    (extreme name τ keepLeft).Sums none (fun a b => .ok (Option.merge (pick keepLeft) a b))
      some where
  create_eq := rfl
  add_eq a v := by rw [← preferred_eq_merge]; rfl
  merge_eq as := by
    rw [← preferred_eq_merge]
    exact (List.foldlM_pure (m := Checked)).symm
  compact_eq _ := rfl

theorem count_sums (ι : ElemType B) :
    (count ι).Sums (0 : UInt64) (Word.add (α := UInt64)) fun _ => (1 : UInt64) where
  create_eq := rfl
  add_eq a x := by rw [count]
  merge_eq _ := rfl
  compact_eq _ := rfl

theorem operator_sums (τ : ElemType B) (op : τ.Carrier → τ.Carrier → τ.Carrier)
    (identity : Option τ.Carrier) :
    (operator τ op identity).Sums Holder.empty (fun a b => .ok (a.merge op b)) Holder.of where
  create_eq := rfl
  add_eq h v := congrArg Except.ok (foldInto_eq_merge op h v)
  merge_eq hs := by
    change Except.ok ((hs.filterMap Holder.value?).foldl (foldInto op) Holder.empty) = _
    rw [foldl_foldInto]
    exact (List.foldlM_pure (m := Checked)).symm
  compact_eq _ := rfl

theorem scalar_sums (τ : ElemType B) {op : τ.Carrier → τ.Carrier → τ.Carrier} {one : τ.Carrier}
    (identity : Std.LawfulIdentity op one) :
    (scalar τ op one).Sums one (fun a b => .ok (op a b)) id where
  create_eq := rfl
  add_eq _ _ := rfl
  merge_eq as := by
    cases as with
    | nil => rfl
    | cons a as =>
      rw [List.foldlM_cons, identity.left_id]
      exact (List.foldlM_pure (m := Checked)).symm
  compact_eq _ := rfl

theorem Sums.fold_total {c : Combiner ι α ω} {one : α.Carrier}
    {op : α.Carrier → α.Carrier → α.Carrier} {embed : ι.Carrier → α.Carrier}
    (hs : c.Sums one (fun a b => .ok (op a b)) embed) (xs : List ι.Carrier) :
    c.fold xs = .ok ((xs.map embed).foldl op one) := by
  rw [hs.fold_eq]
  exact List.foldlM_pure (m := Checked)

/-- `acc` gives the accumulator of the inputs that are taken, and this is what its coder needs. -/
structure Computes (c : Combiner ι α ω) (takes : List ι.Carrier → Prop)
    (held : List ι.Carrier → Option ι.Carrier) (result : List ι.Carrier → ω.Carrier)
    (acc : List ι.Carrier → α.Carrier) : Prop where
  mergesAll : c.MergesAll (· = ·)
  takes_part : ∀ {xs ys}, ys <:+: xs → takes xs → takes ys
  fold_eq : ∀ {xs}, takes xs → c.fold xs = .ok (acc xs)
  extract_eq : ∀ xs, c.extract (acc xs) = .ok (result xs)
  default_eq : c.default = .ok (result [])
  coder_readsBack : ∀ {r input coder xs}, c.accumulatorCoder r input = .ok coder →
    (∀ i v, inputOrRegistered r ι input = .ok i → held xs = some v → i.ReadsBack v v) →
    coder.ReadsBack (acc xs) (acc xs)

theorem sum_computes (τ : ElemType B) {zero : τ.Carrier} {plus : τ.Carrier → τ.Carrier → τ.Carrier}
    (assoc : Std.Associative plus) (identity : Std.LawfulIdentity plus zero) :
    (sum τ zero fun a b => .ok (plus a b)).Computes (fun _ => True)
      (fun xs => some (xs.foldl plus zero)) (fun xs => xs.foldl plus zero)
      fun xs => xs.foldl plus zero where
  mergesAll := sum_sums.mergesAll (.total assoc identity)
  takes_part _ _ := trivial
  fold_eq {xs} _ := by
    rw [sum_sums.fold_total, List.map_id]
  extract_eq _ := rfl
  default_eq := rfl
  coder_readsBack hcoder hinput := hinput _ _ hcoder rfl

theorem extreme_computes (name : String) (τ : ElemType B)
    {keepLeft : τ.Carrier → τ.Carrier → Bool} (assoc : Std.Associative (pick keepLeft)) :
    (extreme name τ keepLeft).Computes (fun _ => True) (reduce? (pick keepLeft))
      (reduce? (pick keepLeft)) (reduce? (pick keepLeft)) where
  mergesAll := (extreme_sums name τ keepLeft).mergesAll
    (.total (Option.associative_merge _) (Option.lawfulIdentity_merge _))
  takes_part _ _ := trivial
  fold_eq {xs} _ := by
    rw [(extreme_sums name τ keepLeft).fold_total, foldl_merge]
  extract_eq _ := rfl
  default_eq := rfl
  coder_readsBack hcoder hinput := by
    obtain ⟨i, hi, hcoder⟩ := bind_eq_ok_iff.mp hcoder
    cases hcoder
    exact .option fun v hv => hinput i v hi hv

theorem count_one_more {n : Nat} (h : n + 1 < 2 ^ 64) :
    Word.add (UInt64.ofNat n) (1 : UInt64) = .ok (UInt64.ofNat (n + 1)) := by
  have hn : (UInt64.ofNat n).toNat = n := UInt64.toNat_ofNat_of_lt' (Nat.lt_of_succ_lt h)
  have hsum : Word.toInt (UInt64.ofNat n) + Word.toInt (1 : UInt64) = (n + 1 : Nat) := by
    change ((UInt64.ofNat n).toNat : Int) + ((1 : UInt64).toNat : Int) = _
    rw [hn]
    rfl
  have hnext : Word.toInt (UInt64.ofNat (n + 1)) = (n + 1 : Nat) :=
    congrArg Nat.cast (UInt64.toNat_ofNat_of_lt' h)
  rw [Word.add_eq_ok_iff, hsum, hnext]
  refine ⟨⟨Int.natCast_nonneg _, ?_⟩, rfl⟩
  change ((n + 1 : Nat) : Int) ≤ 18446744073709551615
  omega

theorem count_fold (ι : ElemType B) {xs : List ι.Carrier} (h : xs.length < 2 ^ 64) :
    (count ι).fold xs = .ok (UInt64.ofNat xs.length) := by
  induction xs using List.reverseRecOn with
  | nil => rfl
  | append_singleton xs x ih =>
    rw [List.length_append, List.length_singleton] at h ⊢
    rw [fold_snoc, ih (Nat.lt_of_succ_lt h), ok_bind, (count_sums ι).add_eq]
    exact count_one_more h

theorem count_computes (ι : ElemType B) :
    (count ι).Computes (fun xs => xs.length < 2 ^ 64) (fun _ => none)
      (fun xs => UInt64.ofNat xs.length) fun xs => UInt64.ofNat xs.length where
  mergesAll := (count_sums ι).mergesAll (Word.partialMonoid rfl rfl)
  takes_part hs h := Nat.lt_of_le_of_lt hs.length_le h
  fold_eq h := count_fold ι h
  extract_eq _ := rfl
  default_eq := rfl
  coder_readsBack hcoder _ := by
    cases hcoder
    exact (Coder.delimits_uint64 _).readsBack

theorem operator_computes (τ : ElemType B) {op : τ.Carrier → τ.Carrier → τ.Carrier}
    (assoc : Std.Associative op) (identity : Option τ.Carrier) :
    (operator τ op identity).Computes (fun _ => True) (reduce? op)
      (fun xs => (reduce? op xs).orElse fun _ => identity) fun xs => ⟨reduce? op xs⟩ where
  mergesAll := (operator_sums τ op identity).mergesAll
    (.total (Holder.merge_associative assoc) Holder.merge_lawfulIdentity)
  takes_part _ _ := trivial
  fold_eq {xs} _ := by
    rw [(operator_sums τ op identity).fold_total, foldl_holder_merge]
  extract_eq _ := rfl
  default_eq := rfl
  coder_readsBack hcoder hinput := by
    obtain ⟨i, hi, hcoder⟩ := bind_eq_ok_iff.mp hcoder
    cases hcoder
    exact .holder (.option fun v hv => hinput i v hi hv)

theorem scalar_computes (τ : ElemType B) {op : τ.Carrier → τ.Carrier → τ.Carrier} {one : τ.Carrier}
    (assoc : Std.Associative op) (identity : Std.LawfulIdentity op one) :
    (scalar τ op one).Computes (fun _ => True) (fun xs => some (xs.foldl op one))
      (fun xs => xs.foldl op one) fun xs => xs.foldl op one where
  mergesAll := (scalar_sums τ identity).mergesAll (.total assoc identity)
  takes_part _ _ := trivial
  fold_eq {xs} _ := by
    rw [(scalar_sums τ identity).fold_total, List.map_id]
  extract_eq _ := rfl
  default_eq := rfl
  coder_readsBack hcoder hinput := hinput _ _ hcoder rfl

theorem BuiltIn.exists_computes {c : Combiner ι α ω} {takes : List ι.Carrier → Prop}
    {held : List ι.Carrier → Option ι.Carrier} {result : List ι.Carrier → ω.Carrier}
    (h : BuiltIn c takes held result) : ∃ acc, c.Computes takes held result acc := by
  cases h with
  | sum assoc identity => exact ⟨_, sum_computes _ assoc identity⟩
  | min total trans => exact ⟨_, extreme_computes _ _ (pick_associative total trans)⟩
  | max total trans =>
    exact ⟨_, extreme_computes _ _
      (pick_associative (fun a b => total b a) fun a b c hab hbc => trans c b a hbc hab)⟩
  | count => exact ⟨_, count_computes _⟩
  | operator assoc identity => exact ⟨_, operator_computes _ assoc identity⟩
  | scalar assoc identity => exact ⟨_, scalar_computes _ assoc identity⟩

/-- However inputs are batched, merged, compacted and shipped, a combiner of the library gives its
result for all of them in order. -/
theorem builtIn_oneAnswer {c : Combiner ι α ω} {takes : List ι.Carrier → Prop}
    {held : List ι.Carrier → Option ι.Carrier} {result : List ι.Carrier → ω.Carrier}
    (h : BuiltIn c takes held result) {r : CoderRegistry B} {input : Option (Coder ι)}
    {coder : Option (Coder α)} (hcoder : ∀ a, coder = some a → c.accumulatorCoder r input = .ok a)
    (t : MergeTree ι.Carrier) (ht : takes t.inputs)
    (hinput : ∀ i, inputOrRegistered r ι input = .ok i →
      ∀ xs v, xs <:+: t.inputs → held xs = some v → i.ReadsBack v v) :
    t.output c coder = .ok (result t.inputs) ∧ c.apply t.inputs = .ok (result t.inputs) ∧
      c.default = .ok (result []) := by
  obtain ⟨acc, hc⟩ := h.exists_computes
  have hsurvives : MergeTree.Survives c (· = ·) coder t.inputs := by
    rintro xs _ hxs ⟨a, ha, rfl⟩
    cases (hc.fold_eq (hc.takes_part hxs ht)).symm.trans ha
    refine ⟨acc xs, ?_, rfl⟩
    cases coder with
    | none => rfl
    | some d =>
      exact (hc.coder_readsBack (hcoder d rfl) fun i v hi hv => hinput i hi xs v hxs hv).crosses
  have happly : c.apply t.inputs = .ok (result t.inputs) := by
    rw [apply, hc.fold_eq ht]
    exact hc.extract_eq t.inputs
  have hout := MergeTree.output_corresponds hc.mergesAll t hsurvives
  rw [happly] at hout
  obtain ⟨o, ho, rfl⟩ := hout.ok_right
  exact ⟨ho, happly, hc.default_eq⟩

def earliest : Combiner (.uint32 : Sample.Ty) (.holder .uint32) (.option .uint32) :=
  operator .uint32 (fun a _ => a) (some 9)

/-- Merges of none, one and four accumulators, one of them compacted and shipped. -/
def bushy : MergeTree UInt32 :=
  .merge [.merge [], .recode (.compact (.add (.add .fresh 5) 7)), .fresh, .merge [.add .fresh 3]]

theorem earliest_oneAnswer : bushy.output earliest (some (.holder .uint32)) = .ok (some 5) ∧
    earliest.apply bushy.inputs = .ok (some 5) ∧ earliest.default = .ok (some 9) := by
  have hbuiltIn : BuiltIn earliest (fun _ => True) (reduce? fun a _ => a)
      fun xs => (reduce? (fun a _ => a) xs).orElse fun _ => some 9 :=
    .operator .uint32 ⟨fun _ _ _ => rfl⟩ (some 9)
  have hcoder (a : Coder (.holder .uint32)) (ha : some (.holder .uint32) = some a) :
      earliest.accumulatorCoder .empty (some .uint32) = .ok a := by
    cases ha
    rfl
  have hinput (i : Coder (.uint32 : Sample.Ty))
      (hi : inputOrRegistered .empty .uint32 (some .uint32) = .ok i) (v : UInt32) :
      i.ReadsBack v v := by
    cases hi
    exact Coder.uint32_readsBack v
  have hearliest := builtIn_oneAnswer hbuiltIn hcoder bushy trivial fun i hi _ v _ _ => hinput i hi v
  have hinputs : bushy.inputs = [5, 7, 3] := by simp [bushy]
  rw [hinputs] at hearliest ⊢
  exact hearliest

end Combiner
end KeyedFlow
