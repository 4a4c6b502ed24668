import KeyedFlow.Proofs.Assertion.Equality
import KeyedFlow.Proofs.Groups
import KeyedFlow.Proofs.Windows
import Mathlib.Data.List.Nodup

/-!
Comparisons that sort first. A sort by a total order keeps of a list the elements alone, and a sort
by key keeps besides, of every key, the order of its values. So the values of each window are
compared as multisets, whatever the order of windows and values, and pairs are compared key by key,
each as a sequence.
-/

set_option autoImplicit false

namespace KeyedFlow
open Outcome

structure TotallyOrders {α : Type} (le : α → α → Bool) : Prop where
  total : ∀ a b, le a b ∨ le b a
  trans : ∀ a b c, le a b → le b c → le a c
  antisymm : ∀ a b, le a b → le b a → a = b

namespace TotallyOrders
variable {α β : Type} {le : α → α → Bool}

theorem refl (h : TotallyOrders le) (a : α) : le a a := by
  cases h.total a a <;> assumption

theorem or_eq_true (h : TotallyOrders le) (a b : α) : (le a b || le b a) = true :=
  (Bool.or_eq_true _ _).mpr (h.total a b)

theorem pairwise_mergeSort (h : TotallyOrders le) (f : β → α) (xs : List β) :
    (xs.mergeSort fun a b => le (f a) (f b)).Pairwise fun a b => le (f a) (f b) :=
  List.pairwise_mergeSort (fun a b c => h.trans (f a) (f b) (f c))
    (fun a b => h.or_eq_true (f a) (f b)) xs

theorem mergeSort_eq_iff (h : TotallyOrders le) {xs ys : List α} :
    xs.mergeSort le = ys.mergeSort le ↔ xs.Perm ys := by
  have hxs := List.mergeSort_perm xs le
  have hys := List.mergeSort_perm ys le
  constructor
  · intro heq
    rw [heq] at hxs
    exact hxs.symm.trans hys
  · intro hperm
    exact List.Perm.eq_of_pairwise (fun a b _ _ => h.antisymm a b) (h.pairwise_mergeSort id xs)
      (h.pairwise_mergeSort id ys) ((hxs.trans hperm).trans hys.symm)

end TotallyOrders

namespace Window

theorem le_global (w : Window) : global.le w = true := by
  cases w <;> rfl

theorem interval_le_iff (i j : Interval) : (interval i).le (interval j) = true ↔
    i.start.toInt < j.start.toInt ∨
      i.start.toInt = j.start.toInt ∧ i.stop.toInt ≤ j.stop.toInt := by
  unfold le compare
  rcases Int.lt_trichotomy i.start.toInt j.start.toInt with hlt | heq | hgt
  · simp [Int.compare_eq_lt.mpr hlt, hlt]
  · simp [heq, ← Int.compare_ne_gt]
  · simp [Int.compare_eq_gt.mpr hgt, Int.le_of_lt hgt, Int.ne_of_gt hgt]

theorem totallyOrders_le : TotallyOrders le where
  total a b := by
    cases a with
    | global => exact .inl (le_global b)
    | interval i =>
      cases b with
      | global => exact .inr (le_global _)
      | interval j =>
        rw [interval_le_iff, interval_le_iff]
        omega
  trans a b c hab hbc := by
    cases a with
    | global => exact le_global c
    | interval i =>
      cases b with
      | global => cases hab
      | interval j =>
        cases c with
        | global => cases hbc
        | interval k =>
          rw [interval_le_iff] at hab hbc ⊢
          omega
  antisymm a b hab hba := by
    cases a with
    | global =>
      cases b with
      | global => rfl
      | interval j => cases hba
    | interval i =>
      cases b with
      | global => cases hab
      | interval j =>
        rw [interval_le_iff] at hab hba
        have hstart : i.start = j.start := Int64.toInt_inj.mp (by omega)
        have hstop : i.stop = j.stop := Int64.toInt_inj.mp (by omega)
        cases i
        cases j
        exact congrArg interval (congr (congrArg Interval.mk hstart) hstop)

end Window

namespace Assert
variable {α κ : Type} {le : α → α → Bool}

section Windows

theorem mem_sortedByWindow_iff {g : Groups Window α} (hg : g.keys.Nodup)
    {e : Window × List α} : e ∈ sortedByWindow le g ↔
      e.1 ∈ g.keys ∧ e.2 = (g.values e.1).mergeSort le := by
  have hmem : e ∈ sortedByWindow le g ↔ ∃ d ∈ g, (d.1, d.2.mergeSort le) = e := by
    simp [sortedByWindow]
  rw [hmem]
  constructor
  · rintro ⟨d, hd, rfl⟩
    have hkey : d.1 ∈ g.keys := List.mem_map_of_mem hd
    exact ⟨hkey, by rw [Groups.values_of_mem hg hd]⟩
  · rintro ⟨hkey, hvalues⟩
    obtain ⟨d, hd, hde⟩ := List.mem_map.mp hkey
    refine ⟨d, hd, Prod.ext hde ?_⟩
    rw [hvalues, ← hde, Groups.values_of_mem hg hd]

theorem nodup_sortedByWindow {g : Groups Window α} (hg : g.keys.Nodup) :
    (sortedByWindow le g).Nodup := by
  have hkeys : (sortedByWindow le g).map Prod.fst =
      (g.mergeSort fun a b => a.1.le b.1).map Prod.fst := List.map_map
  apply List.Nodup.of_map Prod.fst
  rw [hkeys]
  exact ((List.mergeSort_perm g _).map Prod.fst).nodup_iff.mpr hg

/-- Sorted tables are the same when they have the same windows and, under each, the same values up
to their order. -/
theorem sortedByWindow_eq_iff (h : TotallyOrders le) {g j : Groups Window α} (hg : g.keys.Nodup)
    (hj : j.keys.Nodup) : sortedByWindow le g = sortedByWindow le j ↔
      (∀ w, w ∈ g.keys ↔ w ∈ j.keys) ∧ ∀ w ∈ g.keys, (g.values w).Perm (j.values w) := by
  have hpairwise (k : Groups Window α) :
      (sortedByWindow le k).Pairwise fun a b => a.1.le b.1 = true :=
    List.pairwise_map.mpr (Window.totallyOrders_le.pairwise_mergeSort Prod.fst k)
  constructor
  · intro heq
    have hentry (w : Window) (hw : w ∈ g.keys) :
        w ∈ j.keys ∧ (g.values w).mergeSort le = (j.values w).mergeSort le := by
      rw [← mem_sortedByWindow_iff (e := (w, (g.values w).mergeSort le)) hj, ← heq]
      exact (mem_sortedByWindow_iff hg).mpr ⟨hw, rfl⟩
    refine ⟨fun w => ⟨fun hw => (hentry w hw).1, fun hw => ?_⟩,
      fun w hw => h.mergeSort_eq_iff.mp (hentry w hw).2⟩
    have hmem : (w, (j.values w).mergeSort le) ∈ sortedByWindow le g := by
      rw [heq]
      exact (mem_sortedByWindow_iff hj).mpr ⟨hw, rfl⟩
    exact ((mem_sortedByWindow_iff hg).mp hmem).1
  · rintro ⟨hkeys, hvalues⟩
    have hmem (e : Window × List α) : e ∈ sortedByWindow le g ↔ e ∈ sortedByWindow le j := by
      rw [mem_sortedByWindow_iff hg, mem_sortedByWindow_iff hj, ← hkeys e.1]
      refine and_congr_right fun he => ?_
      rw [h.mergeSort_eq_iff.mpr (hvalues e.1 he)]
    -- Entries of one window are one entry, so the order of windows settles that of entries.
    refine List.Perm.eq_of_pairwise ?_ (hpairwise g) (hpairwise j)
      ((List.perm_ext_iff_of_nodup (nodup_sortedByWindow hg) (nodup_sortedByWindow hj)).mpr hmem)
    intro a b ha hb hab hba
    have hwindow : a.1 = b.1 := Window.totallyOrders_le.antisymm _ _ hab hba
    have hb := (hmem b).mpr hb
    refine Prod.ext hwindow ?_
    rw [((mem_sortedByWindow_iff hg).mp ha).2, ((mem_sortedByWindow_iff hg).mp hb).2, hwindow]

theorem valuesPerWindow_ok_iff [BEq α] [LawfulBEq α] (h : TotallyOrders le)
    {actual : List (Windowed α)} {expected : List (Window × List α)} :
    valuesPerWindow le actual expected = .ok () ↔
      (∀ w, w ∈ windowsOf actual ↔ w ∈ Groups.keys expected) ∧
        ∀ w ∈ windowsOf actual, (valuesIn w actual).Perm (Groups.values w expected) := by
  let got := Groups.ofList (actual.map fun u => (u.window, u.value))
  let want := Groups.join [expected]
  have hok : valuesPerWindow le actual expected = .ok () ↔
      sortedByWindow le got = sortedByWindow le want := ite_eq_ok_iff.trans beq_iff_eq
  have hgot (w : Window) : w ∈ got.keys ↔ w ∈ windowsOf actual := by
    rw [Groups.mem_keys_ofList, List.map_map]
    rfl
  have hgotValues (w : Window) : got.values w = valuesIn w actual := by
    rw [Groups.values_ofList, List.filter_map, List.map_map]
    rfl
  have hwant (w : Window) : w ∈ want.keys ↔ w ∈ Groups.keys expected := by
    simp [want, Groups.mem_keys_join]
  have hwantValues (w : Window) : want.values w = Groups.values w expected := by
    simp [want, Groups.values_join]
  refine hok.trans ((sortedByWindow_eq_iff (g := got) (j := want) h (Groups.nodup_keys_ofList _)
    (Groups.nodup_keys_join _)).trans ?_)
  simp only [hgot, hwant, hgotValues, hwantValues]

end Windows

section Pairs

def valuesOf [BEq κ] (k : κ) (ps : List (κ × α)) : List α :=
  (ps.filter fun p => p.1 == k).map Prod.snd

variable [BEq κ] [LawfulBEq κ] {order : κ → κ → Bool} {ps qs : List (κ × α)}

theorem valuesOf_cons_self (k : κ) (a : α) : valuesOf k ((k, a) :: ps) = a :: valuesOf k ps := by
  simp [valuesOf]

theorem valuesOf_cons_of_ne {j k : κ} (a : α) (h : j ≠ k) :
    valuesOf k ((j, a) :: ps) = valuesOf k ps := by
  simp [valuesOf, h]

omit [LawfulBEq κ] in
theorem length_valuesOf (k : κ) (ps : List (κ × α)) :
    (valuesOf k ps).length = (ps.map Prod.fst).count k := by
  rw [valuesOf, List.length_map, List.count, List.countP_map, List.countP_eq_length_filter]
  rfl

/-- A sort by key is stable: of every key the order of its values stays. -/
theorem valuesOf_mergeSort (h : TotallyOrders order) (k : κ) (ps : List (κ × α)) :
    valuesOf k (ps.mergeSort fun a b => order a.1 b.1) = valuesOf k ps := by
  let ofKey (xs : List (κ × α)) := xs.filter fun p => p.1 == k
  let sorted := ps.mergeSort fun a b => order a.1 b.1
  have hpairwise : (ofKey ps).Pairwise fun a b => order a.1 b.1 = true := by
    refine List.pairwise_of_forall_mem_list fun a ha b hb => ?_
    have hak : a.1 = k := eq_of_beq (List.mem_filter.mp ha).2
    have hbk : b.1 = k := eq_of_beq (List.mem_filter.mp hb).2
    rw [hak, hbk]
    exact h.refl k
  have hsub : (ofKey ps).Sublist sorted :=
    List.sublist_mergeSort (fun a b c => h.trans a.1 b.1 c.1) (fun a b => h.or_eq_true a.1 b.1)
      hpairwise List.filter_sublist
  have hfilter : (ofKey ps).Sublist (ofKey sorted) := by
    have htwice : ofKey (ofKey ps) = ofKey ps := by simp [ofKey, List.filter_filter]
    rw [← htwice]
    exact hsub.filter _
  have hlength : (ofKey sorted).Perm (ofKey ps) := (List.mergeSort_perm ps _).filter _
  exact congrArg (List.map Prod.snd) (hfilter.eq_of_length hlength.length_eq.symm).symm

variable [BEq α]

theorem valuesOf_beq (h : (ps == qs) = true) (k : κ) : (valuesOf k ps == valuesOf k qs) = true := by
  induction ps generalizing qs with
  | nil =>
    cases qs with
    | nil => rfl
    | cons q qs => cases h
  | cons p ps ih =>
    cases qs with
    | nil => cases h
    | cons q qs =>
      obtain ⟨j, a⟩ := p
      obtain ⟨i, b⟩ := q
      rw [List.cons_beq_cons, Bool.and_eq_true] at h
      obtain ⟨hhead, hrest⟩ := h
      obtain ⟨hkey, hvalue⟩ := (Bool.and_eq_true _ _).mp hhead
      cases eq_of_beq hkey
      by_cases hjk : j = k
      · subst hjk
        rw [valuesOf_cons_self, valuesOf_cons_self, List.cons_beq_cons, Bool.and_eq_true]
        exact ⟨hvalue, ih hrest⟩
      · rw [valuesOf_cons_of_ne a hjk, valuesOf_cons_of_ne b hjk]
        exact ih hrest

theorem beq_of_valuesOf (hkeys : ps.map Prod.fst = qs.map Prod.fst)
    (h : ∀ k, (valuesOf k ps == valuesOf k qs) = true) : (ps == qs) = true := by
  induction ps generalizing qs with
  | nil =>
    cases qs with
    | nil => rfl
    | cons q qs => cases hkeys
  | cons p ps ih =>
    cases qs with
    | nil => cases hkeys
    | cons q qs =>
      obtain ⟨j, a⟩ := p
      obtain ⟨i, b⟩ := q
      obtain ⟨hkey, hrest⟩ := List.cons.inj hkeys
      change j = i at hkey
      subst hkey
      have hhead := h j
      rw [valuesOf_cons_self, valuesOf_cons_self, List.cons_beq_cons, Bool.and_eq_true] at hhead
      rw [List.cons_beq_cons, Bool.and_eq_true]
      refine ⟨(Bool.and_eq_true _ _).mpr ⟨beq_self_eq_true j, hhead.1⟩, ih hrest fun k => ?_⟩
      by_cases hjk : j = k
      · subst hjk
        exact hhead.2
      · have hk := h k
        rwa [valuesOf_cons_of_ne a hjk, valuesOf_cons_of_ne b hjk] at hk

theorem pairsEqual_ok_iff (h : TotallyOrders order) {actual expected : List (κ × α)} :
    pairsEqual order actual expected = .ok () ↔
      ∀ k, (valuesOf k actual == valuesOf k expected) = true := by
  let sort (xs : List (κ × α)) := xs.mergeSort fun a b => order a.1 b.1
  have hvalues (k : κ) (xs : List (κ × α)) : valuesOf k (sort xs) = valuesOf k xs :=
    valuesOf_mergeSort h k xs
  have hpairwise (xs : List (κ × α)) :
      ((sort xs).map Prod.fst).Pairwise fun j k => order j k = true :=
    List.pairwise_map.mpr (h.pairwise_mergeSort Prod.fst xs)
  have hok : pairsEqual order actual expected = .ok () ↔ (sort actual == sort expected) = true :=
    collectionsEqual_ok_iff
  rw [hok]
  constructor
  · intro heq k
    rw [← hvalues k actual, ← hvalues k expected]
    exact valuesOf_beq heq k
  · intro hsame
    refine beq_of_valuesOf ?_ fun k => by rw [hvalues, hvalues]; exact hsame k
    -- Every key occurs as often on both sides, and the sorted keys are determined by that.
    refine List.Perm.eq_of_pairwise (fun j k _ _ => h.antisymm j k) (hpairwise actual)
      (hpairwise expected) (List.perm_iff_count.mpr fun k => ?_)
    rw [← length_valuesOf, ← length_valuesOf, hvalues, hvalues]
    exact List.length_eq_of_beq (hsame k)

end Pairs

/-- What the two comparisons decide: that both sides have the same windows and, in each, the same
values as often; and that for every key both sides have the same values in the same order. -/
theorem comparisons_decide [BEq α] [LawfulBEq α] (hle : TotallyOrders le) [BEq κ] [LawfulBEq κ]
    {order : κ → κ → Bool} (horder : TotallyOrders order) {ν : Type} [BEq ν] :
    (∀ (actual : List (Windowed α)) (expected : List (Window × List α)),
      valuesPerWindow le actual expected = .ok () ↔
        (∀ w, w ∈ windowsOf actual ↔ w ∈ Groups.keys expected) ∧
          ∀ w ∈ windowsOf actual, (valuesIn w actual).Perm (Groups.values w expected)) ∧
    ∀ actual expected : List (κ × ν), pairsEqual order actual expected = .ok () ↔
      ∀ k, (valuesOf k actual == valuesOf k expected) = true :=
  ⟨fun _ _ => valuesPerWindow_ok_iff hle, fun _ _ => pairsEqual_ok_iff horder⟩

def earlyWindow : Window := .interval ⟨0, 10⟩

/-- Two values of one window against a window that is named twice, and pairs of two keys. -/
theorem comparisons_decide_of_mixed :
    valuesPerWindow (fun a b : Nat => decide (a ≤ b)) [⟨2, 1, earlyWindow⟩, ⟨1, 5, earlyWindow⟩]
        [(earlyWindow, [1]), (earlyWindow, [2])] = .ok () ∧
      pairsEqual (fun a b : Bool => !a || b) [(true, 7), (false, 3), (true, 5)]
        [(false, 3), (true, 7), (true, (5 : Nat))] = .ok () ∧
      pairsEqual (fun a b : Bool => !a || b) [(true, 7), (true, 5)] [(true, 5), (true, (7 : Nat))] ≠
        .ok () := by
  have hle : TotallyOrders fun a b : Nat => decide (a ≤ b) := by
    constructor <;> simp only [decide_eq_true_eq] <;> omega
  have horder : TotallyOrders fun a b : Bool => !a || b := by
    constructor <;> decide
  obtain ⟨hwindows, hpairs⟩ := comparisons_decide hle horder (ν := Nat)
  refine ⟨(hwindows _ _).mpr ⟨fun w => Iff.rfl, ?_⟩, (hpairs _ _).mpr (by decide), ?_⟩
  · intro w hw
    obtain rfl : w = earlyWindow := by simpa [windowsOf] using hw
    decide
  · exact fun h => absurd ((hpairs _ _).mp h true) (by decide)

end Assert
end KeyedFlow
