import KeyedFlow.Assertion
import KeyedFlow.Proofs.Outcome
import Mathlib.Data.List.Perm.Subperm

/-!
Equality of collections. In order, it is the equality of lists. Without regard to order, lengths and
sets of elements are compared: lists that are permutations of each other pass, and where one of two
lists repeats no element nothing else passes. Repeated elements may be repeated differently.
-/

set_option autoImplicit false

namespace KeyedFlow.Assert
open Outcome
variable {α : Type}

theorem firstDifference?_eq_none_iff [BEq α] (i : Nat) {as es : List α}
    (h : as.length = es.length) : firstDifference? i as es = none ↔ (as == es) = true := by
  induction as generalizing i es with
  | nil =>
    cases es with
    | nil => exact ⟨fun _ => rfl, fun _ => rfl⟩
    | cons e es => cases h
  | cons a as ih =>
    cases es with
    | nil => cases h
    | cons e es =>
      rw [firstDifference?, List.cons_beq_cons, Bool.and_eq_true]
      split
      · rename_i hae
        rw [ih (i + 1) (Nat.succ.inj h)]
        exact ⟨fun hrest => ⟨hae, hrest⟩, And.right⟩
      · rename_i hae
        exact ⟨nofun, fun hboth => absurd hboth.1 hae⟩

theorem collectionsEqual_ok_iff [BEq α] {actual expected : List α} :
    collectionsEqual actual expected = .ok () ↔ (actual == expected) = true := by
  rw [collectionsEqual, guarded_eq_ok_iff]
  constructor
  · rintro ⟨hlen, hnone⟩
    rw [← firstDifference?_eq_none_iff 0 hlen]
    split at hnone
    · cases hnone
    · assumption
  · intro heq
    have hlen := List.length_eq_of_beq heq
    rw [(firstDifference?_eq_none_iff 0 hlen).mpr heq]
    exact ⟨hlen, rfl⟩

theorem perm_of_nodup {xs ys : List α} (hxs : xs.Nodup) (hlen : xs.length = ys.length)
    (hmem : ∀ x, x ∈ xs ↔ x ∈ ys) : xs.Perm ys :=
  (List.subperm_of_subset hxs fun x => (hmem x).mp).perm_of_length_le (Nat.le_of_eq hlen.symm)

section Unordered
variable [DecidableEq α] {xs ys actual expected : List α}

theorem mem_difference {x : α} : x ∈ difference xs ys ↔ x ∈ xs ∧ x ∉ ys := by
  simp [difference]

theorem difference_isEmpty_iff : (difference xs ys).isEmpty = true ↔ xs ⊆ ys := by
  rw [List.isEmpty_iff, List.eq_nil_iff_forall_not_mem]
  simp only [mem_difference, not_and, not_not]
  rfl

theorem unorderedEqual_ok_iff : collectionsUnorderedEqual actual expected = .ok () ↔
    actual.length = expected.length ∧ ∀ x, x ∈ actual ↔ x ∈ expected := by
  have hsets : ((difference expected actual).isEmpty && (difference actual expected).isEmpty) =
      true ↔ ∀ x, x ∈ actual ↔ x ∈ expected := by
    rw [Bool.and_eq_true, difference_isEmpty_iff, difference_isEmpty_iff]
    exact ⟨fun h x => ⟨@h.2 x, @h.1 x⟩, fun h => ⟨fun x => (h x).mpr, fun x => (h x).mp⟩⟩
  rw [collectionsUnorderedEqual, guarded_eq_ok_iff, ← hsets]
  exact and_congr_right fun _ => ite_eq_ok_iff

/-- The comparison is one of lengths and sets. No permutation fails it, and where one of the lists
repeats no element only permutations pass. -/
theorem unorderedEqual_decides (actual expected : List α) :
    (collectionsUnorderedEqual actual expected = .ok () ↔
      actual.length = expected.length ∧ ∀ x, x ∈ actual ↔ x ∈ expected) ∧
    (actual.Perm expected → collectionsUnorderedEqual actual expected = .ok ()) ∧
    (actual.Nodup ∨ expected.Nodup →
      (collectionsUnorderedEqual actual expected = .ok () ↔ actual.Perm expected)) := by
  have hperm (h : actual.Perm expected) : collectionsUnorderedEqual actual expected = .ok () :=
    unorderedEqual_ok_iff.mpr ⟨h.length_eq, fun _ => h.mem_iff⟩
  refine ⟨unorderedEqual_ok_iff, hperm, fun hnodup => ⟨fun hok => ?_, hperm⟩⟩
  obtain ⟨hlen, hmem⟩ := unorderedEqual_ok_iff.mp hok
  cases hnodup with
  | inl hactual => exact perm_of_nodup hactual hlen hmem
  | inr hexpected => exact (perm_of_nodup hexpected hlen.symm fun x => (hmem x).symm).symm

theorem unorderedEqual_decides_of_three :
    [3, 1, (2 : Int64)].Nodup ∧ ([3, 1, (2 : Int64)].Perm [1, 2, 3]) ∧
      collectionsUnorderedEqual [3, 1, (2 : Int64)] [1, 2, 3] = .ok () := by
  have hnodup : [3, 1, (2 : Int64)].Nodup := by decide
  have hok : collectionsUnorderedEqual [3, 1, (2 : Int64)] [1, 2, 3] = .ok () := by decide
  exact ⟨hnodup, ((unorderedEqual_decides _ _).2.2 (.inl hnodup)).mp hok, hok⟩

/-- The same elements, repeated differently, pass. -/
theorem not_unorderedEqual_decides_of_repeats :
    collectionsUnorderedEqual [1, 1, (2 : Int64)] [1, 2, 2] = .ok () ∧
      ¬[1, 1, (2 : Int64)].Perm [1, 2, 2] := by
  decide

end Unordered
end KeyedFlow.Assert
