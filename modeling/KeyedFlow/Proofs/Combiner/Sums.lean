import KeyedFlow.Combiner.Arithmetic
import KeyedFlow.Proofs.Combiner.Laws

/-!
Sums under a partial addition. When neither the bracketing of a sum nor its order changes whether it
exists and what it is, summing is lawful. The checked addition of words without negative values is
such an addition, since no part of a sum is greater than the whole.
-/

set_option autoImplicit false

namespace KeyedFlow
open Outcome

/-- A partial addition with an identity, by which bracketing a sum otherwise makes no difference. -/
structure PartialMonoid {α : Type} (zero : α) (add : α → α → Checked α) : Prop where
  zero_add : ∀ a, add zero a = .ok a
  add_zero : ∀ a, add a zero = .ok a
  assoc : ∀ a b c, Corresponds (· = ·) (add a b >>= fun x => add x c) (add b c >>= fun x => add a x)

namespace PartialMonoid
variable {α : Type} {zero : α} {add : α → α → Checked α}

theorem foldlM_corresponds (h : PartialMonoid zero add) (a : α) (xs : List α) :
    Corresponds (· = ·) (xs.foldlM add a) (xs.foldlM add zero >>= fun b => add a b) := by
  induction xs generalizing a with
  | nil =>
    change Corresponds _ (.ok a : Checked α) (add a zero)
    rw [h.add_zero]
    exact .ok rfl
  | cons x xs ih =>
    have hleft : Corresponds (· = ·) ((x :: xs).foldlM add a)
        (add a x >>= fun c => xs.foldlM add zero >>= fun b => add c b) :=
      Corresponds.bind_left (add a x) ih
    have hright : Corresponds (· = ·) ((x :: xs).foldlM add zero >>= fun b => add a b)
        ((xs.foldlM add zero >>= fun b => add x b) >>= fun b => add a b) := by
      rw [List.foldlM_cons, h.zero_add]
      exact (ih x).bind_right fun b => add a b
    refine (hleft.trans_eq ?_).trans_eq hright.symm_eq
    cases xs.foldlM add zero with
    | error e =>
      cases add a x with
      | error e' => exact .error e' e
      | ok c => exact .error e e
    | ok b => exact h.assoc a x b

theorem foldlM_folds (h : PartialMonoid zero add) (xss : List (List α)) :
    Corresponds (· = ·) (xss.mapM (fun xs => xs.foldlM add zero) >>= fun as => as.foldlM add zero)
      (xss.flatten.foldlM add zero) := by
  induction xss with
  | nil => exact .refl _
  | cons xs xss ih =>
    have hhead : Corresponds (· = ·)
        ((xs :: xss).mapM (fun xs => xs.foldlM add zero) >>= fun as => as.foldlM add zero)
        (xs.foldlM add zero >>= fun a => (xss.mapM (fun xs => xs.foldlM add zero) >>=
          fun as => as.foldlM add zero) >>= fun b => add a b) := by
      rw [List.mapM_cons, bind_assoc]
      apply Corresponds.bind_left
      intro a
      rw [bind_assoc, bind_assoc]
      apply Corresponds.bind_left
      intro as
      change Corresponds _ ((a :: as).foldlM add zero) _
      rw [List.foldlM_cons, h.zero_add]
      exact h.foldlM_corresponds a as
    rw [List.flatten_cons, List.foldlM_append]
    refine hhead.trans_eq (Corresponds.bind_left _ fun a => ?_)
    exact (ih.bind_right fun b => add a b).trans_eq (h.foldlM_corresponds a xss.flatten).symm_eq

theorem foldlM_perm (h : PartialMonoid zero add)
    (hcomm : ∀ a b, Corresponds (· = ·) (add a b) (add b a)) {xs ys : List α} (hp : xs.Perm ys)
    (a : α) : Corresponds (· = ·) (xs.foldlM add a) (ys.foldlM add a) := by
  induction hp generalizing a with
  | nil => exact .refl _
  | cons x _ ih => exact Corresponds.bind_left (add a x) ih
  | swap x y xs =>
    have hswap : Corresponds (· = ·) (add a y >>= fun c => add c x)
        (add a x >>= fun c => add c y) := by
      refine (h.assoc a y x).trans_eq (Corresponds.trans_eq ?_ (h.assoc a x y).symm_eq)
      exact (hcomm y x).bind_right fun b => add a b
    have hbind := hswap.bind_right fun c => xs.foldlM add c
    rwa [bind_assoc, bind_assoc] at hbind
  | trans _ _ ih ih' => exact (ih a).trans_eq (ih' a)

end PartialMonoid

namespace Combiner
variable {B : Type} [TypeFamily B] {ι α ω τ : ElemType B}

/-- Accumulators are sums of what `embed` makes of the inputs. -/
structure Sums (c : Combiner ι α ω) (zero : α.Carrier)
    (add : α.Carrier → α.Carrier → Checked α.Carrier) (embed : ι.Carrier → α.Carrier) : Prop where
  create_eq : c.create = zero
  add_eq : ∀ a x, c.add a x = add a (embed x)
  merge_eq : ∀ as, c.merge as = as.foldlM add zero
  compact_eq : ∀ a, c.compact a = .ok a

namespace Sums
variable {c : Combiner ι α ω} {zero : α.Carrier}
  {add : α.Carrier → α.Carrier → Checked α.Carrier} {embed : ι.Carrier → α.Carrier}

theorem fold_eq (hs : c.Sums zero add embed) (xs : List ι.Carrier) :
    c.fold xs = (xs.map embed).foldlM add zero := by
  have hadd : c.add = fun a x => add a (embed x) := funext fun a => funext (hs.add_eq a)
  rw [fold, addAll, hadd, hs.create_eq, List.foldlM_map]

theorem mergesAll (hs : c.Sums zero add embed) (h : PartialMonoid zero add) :
    c.MergesAll (· = ·) := by
  have hmerge : ∀ xss : List (List ι.Carrier),
      Corresponds (· = ·) (xss.mapM c.fold >>= c.merge) (c.fold xss.flatten) := by
    intro xss
    have hfolds := h.foldlM_folds (xss.map (List.map embed))
    have hfold : c.fold = fun xs => (xs.map embed).foldlM add zero := funext hs.fold_eq
    rw [List.mapM_map, ← List.map_flatten] at hfolds
    rwa [funext hs.merge_eq, hfold]
  refine ⟨⟨eq_equivalence, ?_, ?_, ?_, ?_, ?_⟩, hmerge⟩
  · intro a b hab x
    exact hab ▸ .refl _
  · intro as bs hab
    rw [List.forall₂_eq_eq_eq] at hab
    exact hab ▸ .refl _
  · intro a b hab
    exact hab ▸ .refl _
  · intro xs ys
    have htwo := hmerge [xs, ys]
    simp only [List.mapM_cons, List.mapM_nil, bind_assoc, pure_bind, List.flatten_cons,
      List.flatten_nil, List.append_nil] at htwo
    exact htwo
  · intro a
    rw [hs.compact_eq]
    exact .refl _

end Sums

variable {zero : τ.Carrier} {add : τ.Carrier → τ.Carrier → Checked τ.Carrier}

theorem sum_sums : (sum τ zero add).Sums zero add id where
  create_eq := rfl
  add_eq _ _ := rfl
  merge_eq _ := rfl
  compact_eq _ := rfl

theorem sum_mergeable (h : PartialMonoid zero add) : (sum τ zero add).Mergeable (· = ·) :=
  (sum_sums.mergesAll h).toMergeable

theorem sum_lawful (h : PartialMonoid zero add)
    (hcomm : ∀ a b, Corresponds (· = ·) (add a b) (add b a)) :
    (sum τ zero add).Lawful (· = ·) where
  toMergeable := sum_mergeable h
  fold_perm hp := h.foldlM_perm hcomm hp zero

end Combiner

namespace Word
variable {α : Type} [Word α] {zero : α}

theorem add_add_eq_ok_iff (h : least α = 0) {a b c d : α} :
    (add a b >>= fun x => add x c) = .ok d ↔ toInt d = toInt a + toInt b + toInt c := by
  have ha := least_le a
  have hb := least_le b
  have hc := least_le c
  have hd := le_greatest d
  simp only [bind_eq_ok_iff, add_eq_ok_iff]
  constructor
  · rintro ⟨x, ⟨_, hx⟩, _, hd⟩
    omega
  · intro hsum
    have hab : InRange α (toInt a + toInt b) := ⟨by omega, by omega⟩
    have hx := toInt_ofInt (α := α) _ hab.1 hab.2
    exact ⟨ofInt (toInt a + toInt b), ⟨hab, hx⟩, ⟨by omega, by omega⟩, by omega⟩

theorem add_comm (a b : α) : add a b = add b a := by
  rw [add, Int.add_comm]
  rfl

theorem partialMonoid (h : least α = 0) (hz : toInt zero = 0) :
    PartialMonoid zero (add (α := α)) where
  zero_add a := by
    have ha := toInt_inRange a
    exact add_eq_ok_iff.mpr ⟨by rwa [hz, Int.zero_add], by omega⟩
  add_zero a := by
    have ha := toInt_inRange a
    exact add_eq_ok_iff.mpr ⟨by rwa [hz, Int.add_zero], by omega⟩
  assoc a b c := by
    apply Corresponds.of_ok_iff
    intro d
    have hcomm : (add b c >>= fun x => add a x) = (add b c >>= fun x => add x a) := by
      simp only [add_comm a]
    rw [hcomm, add_add_eq_ok_iff h, add_add_eq_ok_iff h]
    constructor <;> intro hd <;> omega

end Word
end KeyedFlow
