import KeyedFlow.Proofs.Collections

/-!
What building promises. A promise speaks of the result and the pipeline it is left in, and of a
condition under which there is a result at all; a step and what follows it promise what the two
promise in turn.
-/

set_option autoImplicit false

namespace KeyedFlow.Build
variable {B : Type} [TypeFamily B] {α β : Type} {σ τ : ElemType B} {m : Build B α}
  {f : α → Build B β} {A : Prop} {p : Pipeline B} {mode : ExecMode}

/-- From `p`, building succeeds where `A` holds, and whatever it returns satisfies `P` together with
the pipeline it leaves. -/
structure Meets (A : Prop) (m : Build B α) (p : Pipeline B) (P : α → Pipeline B → Prop) :
    Prop where
  succeeds : A → ∃ a q, m.on p = (.ok a, q)
  post : ∀ a q, m.on p = (.ok a, q) → P a q

/-- Whatever is built satisfies `P`. -/
def Ensures (m : Build B α) (P : α → Prop) : Prop := ∀ p, Meets False m p fun a _ => P a

theorem on_bind_error {e : FlowError} {q : Pipeline B} (hm : m.on p = (.error e, q)) :
    (m >>= f).on p = (.error e, q) := by
  change (match m.on p with | (r, q) => ExceptT.bindCont f r q) = _
  rw [hm]
  rfl

namespace Meets
variable {P P' : α → Pipeline B → Prop} {Q : β → Pipeline B → Prop}

theorem bind (hm : Meets A m p P) (hf : ∀ a q, P a q → Meets A (f a) q Q) :
    Meets A (m >>= f) p Q := by
  constructor
  · intro ha
    obtain ⟨a, q, hq⟩ := hm.succeeds ha
    rw [on_bind hq]
    exact (hf a q (hm.post a q hq)).succeeds ha
  · intro b r hb
    cases h : m.on p with
    | mk x q =>
      cases x with
      | ok a =>
        rw [on_bind h] at hb
        exact (hf a q (hm.post a q h)).post b r hb
      | error e =>
        cases (on_bind_error h).symm.trans hb

theorem imp (h : Meets A m p P) (hP : ∀ a q, P a q → P' a q) : Meets A m p P' :=
  ⟨h.succeeds, fun a q ha => hP a q (h.post a q ha)⟩

theorem weaken {A' : Prop} (h : Meets A m p P) (hA : A' → A) : Meets A' m p P :=
  ⟨fun ha => h.succeeds (hA ha), h.post⟩

theorem and_ensures {R : α → Prop} (h : Meets A m p P) (hr : Ensures m R) :
    Meets A m p fun a q => P a q ∧ R a :=
  ⟨h.succeeds, fun a q ha => ⟨h.post a q ha, (hr p).post a q ha⟩⟩

theorem of_ok {a : α} {q : Pipeline B} (hm : m.on p = (.ok a, q)) (h : P a q) : Meets A m p P := by
  refine ⟨fun _ => ⟨a, q, hm⟩, fun b r hb => ?_⟩
  cases hm.symm.trans hb
  exact h

theorem extend {m : Extend B α} (h : P (m p).1 (m p).2) : Meets A (Build.extend m) p P :=
  of_ok rfl h

theorem extend_bind {m : Extend B α} (h : Meets A (f (m p).1) (m p).2 Q) :
    Meets A (Build.extend m >>= f) p Q :=
  ⟨h.succeeds, h.post⟩

theorem ofExcept_bind {a : α} (h : Meets A (f a) p Q) :
    Meets A (Build.ofExcept (.ok a) >>= f) p Q :=
  ⟨h.succeeds, h.post⟩

theorem ofExcept_error_bind {e : FlowError} (hA : ¬A) :
    Meets A (Build.ofExcept (.error e) >>= f) p Q := by
  refine ⟨fun ha => absurd ha hA, fun b q hb => ?_⟩
  cases (on_bind_error (on_ofExcept (.error e) p)).symm.trans hb

theorem collect {c : Collection τ} (hA : A → ∃ xs, p.collect mode τ c.node = .ok xs) :
    Meets A (c.collect mode) p fun xs q => q = p ∧ p.collect mode τ c.node = .ok xs := by
  have hon : (c.collect mode).on p = ((p.collect mode τ c.node).mapError .run, p) := by
    unfold Collection.collect
    rw [on_get]
    cases p.collect mode τ c.node <;> rfl
  constructor
  · intro ha
    obtain ⟨xs, hxs⟩ := hA ha
    exact ⟨xs, p, by rw [hon, hxs]; rfl⟩
  · intro xs q hxs
    rw [hon] at hxs
    obtain ⟨hresult, hq⟩ := Prod.mk.inj hxs
    exact ⟨hq.symm, Outcome.mapError_eq_ok_iff.mp hresult⟩

end Meets

theorem Yields.meets {m : Build B (Collection τ)}
    {x : Except RunError (List (List (Windowed τ.Carrier)))} (h : Yields A m p mode x) :
    Meets A m p fun d q => p.Extends q ∧ d.Gives q mode x := by
  constructor
  · intro ha
    obtain ⟨d, q, _, _, hd⟩ := h.exists_ok ha
    exact ⟨d, q, hd⟩
  · intro d q hd
    obtain ⟨d', q', hpq, hgives, hd' | ⟨_, e, hd'⟩⟩ := h
    · cases hd.symm.trans hd'
      exact ⟨hpq, hgives⟩
    · cases hd.symm.trans hd'

namespace Ensures
variable {P P' : α → Prop} {Q : β → Prop}

theorem bind (hm : Ensures m P) (hf : ∀ a, P a → Ensures (f a) Q) : Ensures (m >>= f) Q :=
  fun p => (hm p).bind fun a q ha => hf a ha q

theorem imp (h : Ensures m P) (hP : ∀ a, P a → P' a) : Ensures m P' :=
  fun p => (h p).imp fun a _ => hP a

theorem after (m : Build B α) (hf : ∀ a, Ensures (f a) Q) : Ensures (m >>= f) Q := by
  have hm : Ensures m fun _ => True := fun p => ⟨False.elim, fun _ _ _ => trivial⟩
  exact hm.bind fun a _ => hf a

theorem get {f : Pipeline B → Build B β} (hf : ∀ p, Ensures (f p) Q) :
    Ensures (MonadState.get >>= f) Q :=
  fun p => ⟨False.elim, (hf p p).post⟩

theorem extend {m : Extend B α} (h : ∀ p, P (m p).1) : Ensures (Build.extend m) P :=
  fun p => .extend (h p)

theorem ofExcept {x : Except FlowError α} (h : ∀ a, x = .ok a → P a) :
    Ensures (Build.ofExcept x : Build B α) P := by
  refine fun p => ⟨False.elim, fun a q ha => ?_⟩
  rw [on_ofExcept] at ha
  exact h a (Prod.mk.inj ha).1

end Ensures

/-- Building keeps the invariant `I` of the pipeline, also where it fails. -/
def Keeps (I : Pipeline B → Prop) (m : Build B α) : Prop := ∀ p, I p → I (m.on p).2

namespace Keeps
variable {I : Pipeline B → Prop}

theorem pure (a : α) : Keeps I (Pure.pure a : Build B α) := fun _ hp => hp

theorem throw (e : FlowError) : Keeps I (MonadExcept.throw e : Build B α) := fun _ hp => hp

theorem bind (hm : Keeps I m) (hf : ∀ a, Keeps I (f a)) : Keeps I (m >>= f) := by
  intro p hp
  have hq := hm p hp
  rcases h : m.on p with ⟨_ | a, q⟩
  · rw [h] at hq
    rw [on_bind_error h]
    exact hq
  · rw [h] at hq
    rw [on_bind h]
    exact hf a q hq

theorem get {f : Pipeline B → Build B β} (hf : ∀ p, Keeps I (f p)) :
    Keeps I (MonadState.get >>= f) := fun p hp => hf p p hp

theorem ofExcept (x : Except FlowError α) : Keeps I (Build.ofExcept x : Build B α) := by
  cases x with
  | ok a => exact pure a
  | error e => exact throw e

theorem collect (c : Collection τ) (mode : ExecMode) : Keeps I (c.collect mode) := by
  apply get
  intro p
  split
  · exact pure _
  · exact throw _

end Keeps
end KeyedFlow.Build
