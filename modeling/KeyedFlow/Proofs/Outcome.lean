import KeyedFlow.FlowError
import Mathlib.Data.List.Forall2

/-!
Computations that may break off. A traversal succeeds exactly when every step does, and its results
are then those of the steps. Two computations correspond when both break off or both give related
results. Which failure is met first is left open, since stages meet their elements in different
orders.
-/

set_option autoImplicit false

namespace KeyedFlow.Outcome
variable {ε ε' ε'' α β γ δ : Type}

theorem ok_bind (a : α) (f : α → Except ε β) : (.ok a >>= f) = f a := rfl

theorem bind_eq_ok_iff {x : Except ε α} {f : α → Except ε β} {b : β} :
    (x >>= f) = .ok b ↔ ∃ a, x = .ok a ∧ f a = .ok b := by
  cases x <;> simp [bind, Except.bind]

section State
variable {σ : Type} {x : StateT σ (Except ε) α} {f : α → StateT σ (Except ε) β} {s t : σ}

theorem run_bind {a : α} (h : x s = .ok (a, t)) : (x >>= f) s = f a t := by
  change (x s >>= fun r => f r.1 r.2) = _
  rw [h]
  rfl

theorem run_bind_error {e : ε} (h : x s = .error e) : (x >>= f) s = .error e := by
  change (x s >>= fun r => f r.1 r.2) = _
  rw [h]
  rfl

end State

theorem guarded_eq_ok_iff {c : Prop} [Decidable c] {x : Except ε α} {a : α} {e : ε} :
    (if c then x else .error e) = .ok a ↔ c ∧ x = .ok a := by
  split <;> simp_all

theorem ite_eq_ok_iff {c : Prop} [Decidable c] {a : α} {e : ε} :
    (if c then Except.ok a else .error e) = .ok a ↔ c :=
  guarded_eq_ok_iff.trans (and_iff_left rfl)

theorem then_eq_ok_iff {x y : Except ε Unit} :
    (x >>= fun _ => y) = .ok () ↔ x = .ok () ∧ y = .ok () := by
  rw [bind_eq_ok_iff]
  exact ⟨fun ⟨_, hx, hy⟩ => ⟨hx, hy⟩, fun ⟨hx, hy⟩ => ⟨(), hx, hy⟩⟩

theorem forM_eq_ok_iff {f : α → Except ε Unit} {xs : List α} :
    xs.forM f = .ok () ↔ ∀ x ∈ xs, f x = .ok () := by
  induction xs with
  | nil => exact ⟨fun _ => nofun, fun _ => rfl⟩
  | cons x xs ih =>
    rw [List.forall_mem_cons, ← ih]
    exact then_eq_ok_iff

theorem map_eq_ok_iff {x : Except ε α} {f : α → β} {b : β} :
    x.map f = .ok b ↔ ∃ a, x = .ok a ∧ f a = b := by
  cases x <;> simp [Except.map]

theorem exists_map_eq_ok_iff {x : Except ε α} {f : α → β} :
    (∃ b, x.map f = .ok b) ↔ ∃ a, x = .ok a := by
  cases x <;> simp [Except.map]

theorem exists_of_isOk {x : Except ε α} (h : x.isOk = true) : ∃ a, x = .ok a := by
  cases x with
  | ok a => exact ⟨a, rfl⟩
  | error e => cases h

theorem mapError_eq_ok_iff {x : Except ε α} {f : ε → ε'} {a : α} :
    x.mapError f = .ok a ↔ x = .ok a := by
  cases x <;> simp [Except.mapError]

@[simp] theorem inRun_eq_ok_iff {x : Checked α} {a : α} : x.inRun = .ok a ↔ x = .ok a := by
  cases x <;> simp [Checked.inRun]

@[simp] theorem inRun_ok (a : α) : Checked.inRun (.ok a) = .ok a := rfl

theorem inRun_bind (x : Checked α) (f : α → Checked β) :
    Checked.inRun (x >>= f) = (do let a ← x.inRun; (f a).inRun) := by
  cases x <;> rfl

theorem mapM_eq_ok_iff {f : α → Except ε β} {xs : List α} {ys : List β} :
    xs.mapM f = .ok ys ↔ List.Forall₂ (fun x y => f x = .ok y) xs ys := by
  induction xs generalizing ys with
  | nil => cases ys <;> simp [pure, Except.pure]
  | cons x xs ih =>
    rw [List.mapM_cons, List.forall₂_cons_left_iff]
    simp only [bind_eq_ok_iff, ih, pure, Except.pure, Except.ok.injEq]
    constructor
    · rintro ⟨y, hy, zs, hzs, rfl⟩
      exact ⟨y, zs, hy, hzs, rfl⟩
    · rintro ⟨y, zs, hy, hzs, rfl⟩
      exact ⟨y, hy, zs, hzs, rfl⟩

theorem exists_forall₂_iff {R : α → β → Prop} {xs : List α} :
    (∃ ys, List.Forall₂ R xs ys) ↔ ∀ x ∈ xs, ∃ y, R x y := by
  induction xs with
  | nil => simp
  | cons x xs ih =>
    simp only [List.forall₂_cons_left_iff, List.forall_mem_cons, ← ih]
    constructor
    · rintro ⟨_, y, ys, hy, hys, _⟩
      exact ⟨⟨y, hy⟩, ys, hys⟩
    · rintro ⟨⟨y, hy⟩, ys, hys⟩
      exact ⟨y :: ys, y, ys, hy, hys, rfl⟩

theorem exists_mapM_eq_ok_iff {f : α → Except ε β} {xs : List α} :
    (∃ ys, xs.mapM f = .ok ys) ↔ ∀ x ∈ xs, ∃ y, f x = .ok y := by
  simp only [mapM_eq_ok_iff, exists_forall₂_iff]

theorem mapM_eq_ok_map {f : α → Except ε β} {g : α → β} {xs : List α}
    (h : ∀ x ∈ xs, f x = .ok (g x)) : xs.mapM f = .ok (xs.map g) := by
  rw [mapM_eq_ok_iff, List.forall₂_map_right_iff]
  exact List.forall₂_same.mpr h

theorem inRun_mapM (f : α → Checked β) (xs : List α) :
    Checked.inRun (xs.mapM f) = xs.mapM fun x => (f x).inRun := by
  induction xs with
  | nil => rfl
  | cons x xs ih =>
    rw [List.mapM_cons, List.mapM_cons, inRun_bind, ← ih]
    cases f x with
    | error e => rfl
    | ok y => cases xs.mapM f <;> rfl

theorem bind_ok_eq_map (x : Except ε α) (f : α → β) : (x >>= fun a => .ok (f a)) = x.map f := by
  cases x <;> rfl

theorem map_bind (x : Except ε α) (f : α → Except ε β) (g : β → γ) :
    (x >>= f).map g = x >>= fun a => (f a).map g := by
  cases x <;> rfl

theorem mapM_map_results (f : α → Except ε β) (g : β → γ) (xs : List α) :
    (xs.mapM fun x => (f x).map g) = (xs.mapM f).map (List.map g) := by
  induction xs with
  | nil => rfl
  | cons x xs ih =>
    rw [List.mapM_cons, List.mapM_cons, ih]
    cases f x with
    | error e => rfl
    | ok y => cases xs.mapM f <;> rfl

theorem mapM_flatten (f : α → Except ε β) (xss : List (List α)) :
    (xss.mapM fun xs : List α => xs.mapM f).map List.flatten = xss.flatten.mapM f := by
  induction xss with
  | nil => rfl
  | cons xs xss ih =>
    rw [List.mapM_cons, List.flatten_cons, List.mapM_append, ← ih]
    cases xs.mapM f with
    | error e => rfl
    | ok ys => cases xss.mapM fun zs : List α => zs.mapM f <;> rfl

theorem mem_of_forall₂ {R : α → β → Prop} {xs : List α} {ys : List β} (h : List.Forall₂ R xs ys)
    {y : β} (hy : y ∈ ys) : ∃ x ∈ xs, R x y := by
  induction h with
  | nil => simp at hy
  | cons hxy _ ih =>
    rcases List.mem_cons.mp hy with rfl | hy
    · exact ⟨_, List.mem_cons_self, hxy⟩
    · obtain ⟨x, hx, hr⟩ := ih hy
      exact ⟨x, List.mem_cons_of_mem _ hx, hr⟩

theorem map_eq_of_forall₂ {P : α → Prop} {g : β → α} {xs : List α} {ys : List β}
    (h : List.Forall₂ (fun x y => P x → g y = x) xs ys) (hxs : ∀ x ∈ xs, P x) : ys.map g = xs := by
  induction h with
  | nil => rfl
  | cons hxy _ ih =>
    obtain ⟨hx, hxs⟩ := List.forall_mem_cons.mp hxs
    rw [List.map_cons, hxy hx, ih hxs]

theorem forall₂_comp {R : α → β → Prop} {S : β → γ → Prop} {xs : List α} {ys : List β}
    {zs : List γ} (hxy : List.Forall₂ R xs ys) (hyz : List.Forall₂ S ys zs) :
    List.Forall₂ (fun x z => ∃ y, R x y ∧ S y z) xs zs := by
  induction hxy generalizing zs with
  | nil => cases hyz; exact .nil
  | cons hr _ ih =>
    cases hyz with
    | cons hs hss => exact .cons ⟨_, hr, hs⟩ (ih hss)

/-- A computation that only breaks off for reasons that `P` admits. -/
def FailsOnlyBy (P : ε → Prop) (x : Except ε α) : Prop := ∀ e, x = .error e → P e

namespace FailsOnlyBy
variable {P : ε → Prop} {x : Except ε α}

theorem ok (a : α) : FailsOnlyBy P (.ok a) := fun _ he => by cases he

theorem bind {f : α → Except ε β} (hx : FailsOnlyBy P x)
    (hf : ∀ a, x = .ok a → FailsOnlyBy P (f a)) : FailsOnlyBy P (x >>= f) := by
  cases x with
  | ok a => exact hf a rfl
  | error e =>
    intro e' he'
    cases he'
    exact hx e rfl

theorem map {g : α → β} (hx : FailsOnlyBy P x) : FailsOnlyBy P (x.map g) :=
  hx.bind fun a _ => ok (g a)

theorem mapError {Q : ε' → Prop} {g : ε → ε'} (h : ∀ e, x = .error e → Q (g e)) :
    FailsOnlyBy Q (x.mapError g) := by
  cases x with
  | ok a => exact ok a
  | error e =>
    intro e' he'
    cases he'
    exact h e rfl

theorem mapM {f : α → Except ε β} {xs : List α} (h : ∀ a ∈ xs, FailsOnlyBy P (f a)) :
    FailsOnlyBy P (xs.mapM f) := by
  induction xs with
  | nil => exact ok []
  | cons a xs ih =>
    rw [List.mapM_cons]
    apply (h a List.mem_cons_self).bind
    intro b _
    exact (ih fun c hc => h c (List.mem_cons_of_mem a hc)).bind fun bs _ => ok (b :: bs)

end FailsOnlyBy

/-- Both break off, or both give results that `R` relates. -/
inductive Corresponds (R : α → β → Prop) : Except ε α → Except ε' β → Prop where
  | ok {a : α} {b : β} (h : R a b) : Corresponds R (.ok a) (.ok b)
  | error (e : ε) (e' : ε') : Corresponds R (.error e) (.error e')

namespace Corresponds
variable {R : α → β → Prop} {S : β → γ → Prop} {x : Except ε α} {y : Except ε' β}
  {z : Except ε'' γ}

theorem of_iff (hok : (∃ a, x = .ok a) ↔ ∃ b, y = .ok b)
    (h : ∀ a b, x = .ok a → y = .ok b → R a b) : Corresponds R x y := by
  cases x with
  | ok a =>
    obtain ⟨b, rfl⟩ := hok.mp ⟨a, rfl⟩
    exact .ok (h a b rfl rfl)
  | error e =>
    cases y with
    | ok b =>
      obtain ⟨a, ha⟩ := hok.mpr ⟨b, rfl⟩
      cases ha
    | error e' => exact .error e e'

theorem refl (x : Except ε α) : Corresponds (· = ·) x x := by
  cases x with
  | ok a => exact .ok rfl
  | error e => exact .error e e

theorem exists_ok_iff (h : Corresponds R x y) : (∃ a, x = .ok a) ↔ ∃ b, y = .ok b := by
  cases h <;> simp

theorem ok_left {a : α} (h : Corresponds R (.ok a : Except ε α) y) : ∃ b, y = .ok b ∧ R a b := by
  cases h with
  | ok hr => exact ⟨_, rfl, hr⟩

theorem ok_right {b : β} (h : Corresponds R x (.ok b : Except ε' β)) :
    ∃ a, x = .ok a ∧ R a b := by
  cases h with
  | ok hr => exact ⟨_, rfl, hr⟩

theorem error_left {e : ε} (h : Corresponds R (.error e : Except ε α) y) :
    ∃ e', y = .error e' := by
  cases h with
  | error _ e' => exact ⟨e', rfl⟩

theorem symm (h : Corresponds R x y) : Corresponds (fun b a => R a b) y x := by
  cases h with
  | ok hr => exact .ok hr
  | error e e' => exact .error e' e

theorem imp {R' : α → β → Prop} (h : Corresponds R x y) (hi : ∀ a b, R a b → R' a b) :
    Corresponds R' x y := by
  cases h with
  | ok hr => exact .ok (hi _ _ hr)
  | error e e' => exact .error e e'

theorem trans (hxy : Corresponds R x y) (hyz : Corresponds S y z) :
    Corresponds (fun a c => ∃ b, R a b ∧ S b c) x z := by
  cases hxy with
  | ok hr =>
    cases hyz with
    | ok hs => exact .ok ⟨_, hr, hs⟩
  | error e e' =>
    cases hyz with
    | error _ e'' => exact .error e e''

theorem trans_eq {x : Except ε α} {y : Except ε' α} {z : Except ε'' α}
    (hxy : Corresponds (· = ·) x y) (hyz : Corresponds (· = ·) y z) :
    Corresponds (· = ·) x z := by
  apply (hxy.trans hyz).imp
  rintro a c ⟨b, rfl, rfl⟩
  rfl

theorem symm_eq {x : Except ε α} {y : Except ε' α} (h : Corresponds (· = ·) x y) :
    Corresponds (· = ·) y x :=
  h.symm.imp fun _ _ hab => hab.symm

theorem of_ok_iff {x : Except ε α} {y : Except ε' α} (h : ∀ a, x = .ok a ↔ y = .ok a) :
    Corresponds (· = ·) x y := by
  apply of_iff
  · exact exists_congr h
  · intro a b ha hb
    exact Except.ok.inj (((h a).mp ha).symm.trans hb)

theorem bind_of_ok {P : γ → δ → Prop} {f : α → Except ε γ} {g : β → Except ε' δ}
    (h : Corresponds R x y)
    (hfg : ∀ a b, x = .ok a → y = .ok b → R a b → Corresponds P (f a) (g b)) :
    Corresponds P (x >>= f) (y >>= g) := by
  cases h with
  | ok hr => exact hfg _ _ rfl rfl hr
  | error e e' => exact .error e e'

theorem bind {P : γ → δ → Prop} {f : α → Except ε γ} {g : β → Except ε' δ}
    (h : Corresponds R x y) (hfg : ∀ a b, R a b → Corresponds P (f a) (g b)) :
    Corresponds P (x >>= f) (y >>= g) :=
  h.bind_of_ok fun a b _ _ => hfg a b

theorem bind_left {P : β → γ → Prop} (x : Except ε α) {f : α → Except ε β} {g : α → Except ε γ}
    (h : ∀ a, Corresponds P (f a) (g a)) : Corresponds P (x >>= f) (x >>= g) := by
  cases x with
  | ok a => exact h a
  | error e => exact .error e e

theorem bind_right {x y : Except ε α} (h : Corresponds (· = ·) x y) (f : α → Except ε β) :
    Corresponds (· = ·) (x >>= f) (y >>= f) := by
  apply h.bind
  rintro a _ rfl
  exact refl (f a)

theorem of_map {P : γ → δ → Prop} {f : α → γ} {g : β → δ}
    (h : Corresponds P (x.map f) (y.map g)) : Corresponds (fun a b => P (f a) (g b)) x y := by
  cases x with
  | ok a =>
    cases y with
    | ok b =>
      cases h with
      | ok hr => exact .ok hr
    | error e => cases h
  | error e =>
    cases y with
    | ok b => cases h
    | error e' => exact .error e e'

theorem map_of_ok {P : γ → δ → Prop} {f : α → γ} {g : β → δ} (h : Corresponds R x y)
    (hfg : ∀ a b, x = .ok a → y = .ok b → R a b → P (f a) (g b)) :
    Corresponds P (x.map f) (y.map g) := by
  cases h with
  | ok hr => exact .ok (hfg _ _ rfl rfl hr)
  | error e e' => exact .error e e'

end Corresponds

/-- A traversal in another order meets the same failures and gives the same results. -/
theorem mapM_perm (f : α → Except ε β) {xs ys : List α} (h : xs.Perm ys) :
    Corresponds List.Perm (xs.mapM f) (ys.mapM f) := by
  induction h with
  | nil => exact .ok .nil
  | cons x _ ih =>
    rw [List.mapM_cons, List.mapM_cons]
    apply Corresponds.bind_left
    intro b
    exact ih.bind fun bs cs hbc => .ok (hbc.cons b)
  | swap x y xs =>
    simp only [List.mapM_cons]
    cases f x with
    | error e => cases f y <;> exact .error _ _
    | ok b =>
      cases f y with
      | error e => exact .error _ _
      | ok c =>
        cases xs.mapM f with
        | error e => exact .error _ _
        | ok bs => exact .ok (.swap b c bs)
  | trans _ _ ih ih' =>
    apply (ih.trans ih').imp
    rintro as cs ⟨bs, hab, hbc⟩
    exact hab.trans hbc

theorem mapM_corresponds {P : β → γ → Prop} {f : α → Except ε β} {g : α → Except ε' γ}
    {xs : List α} (h : ∀ x ∈ xs, Corresponds P (f x) (g x)) :
    Corresponds (List.Forall₂ P) (xs.mapM f) (xs.mapM g) := by
  induction xs with
  | nil => exact .ok .nil
  | cons x xs ih =>
    rw [List.mapM_cons, List.mapM_cons]
    apply (h x List.mem_cons_self).bind
    intro b c hbc
    apply (ih fun y hy => h y (List.mem_cons_of_mem x hy)).bind
    intro bs cs hbcs
    exact .ok (.cons hbc hbcs)

theorem inRun_corresponds (x : Checked α) : Corresponds (· = ·) x.inRun x := by
  cases x with
  | ok a => exact .ok rfl
  | error f => exact .error _ f

theorem Corresponds.inRun {R : α → β → Prop} {x : Checked α} {y : Except ε β}
    (h : Corresponds R x y) : Corresponds R x.inRun y := by
  cases h with
  | ok hr => exact .ok hr
  | error f e => exact .error _ e

end KeyedFlow.Outcome
