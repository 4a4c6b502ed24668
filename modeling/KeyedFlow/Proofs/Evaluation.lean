import KeyedFlow.Graph.Evaluate
import KeyedFlow.Proofs.Outcome

/-!
Evaluating a graph in which every node reads earlier nodes only. Keeping outputs changes nothing:
a node evaluates to its operation applied to the outputs of its inputs. Adding nodes leaves the
outputs of all earlier nodes as they are.
-/

set_option autoImplicit false

namespace KeyedFlow.Pipeline
open Outcome
variable {B : Type} [TypeFamily B] {p q : Pipeline B} {mode : ExecMode}

/-- Every node reads nodes that were built before it. -/
def WellFormed (p : Pipeline B) : Prop :=
  ∀ (id : Nat) (n : Node B), p.nodes[id]? = some n → ∀ i : Nat, i ∈ n.inputs → i < id

theorem wellFormed_new : (new : Pipeline B).WellFormed := by
  intro id n h
  simp [new] at h

theorem forEach_congr {m : Type → Type} [Monad m] {α : Type} {f g : NodeId → m α}
    {is : List NodeId} (h : ∀ i ∈ is, f i = g i) : forEach f is = forEach g is := by
  induction is with
  | nil => rfl
  | cons i is ih =>
    rw [forEach, forEach, h i List.mem_cons_self, ih fun j hj => h j (List.mem_cons_of_mem i hj)]

theorem recomputeWithin_eq (hp : p.WellFormed) (id : Nat) {d d' : Nat}
    (hd : min id p.nodes.size < d) (hd' : min id p.nodes.size < d') :
    p.recomputeWithin mode d id = p.recomputeWithin mode d' id := by
  -- on the node, since inputs are earlier; the depths follow
  induction id using Nat.strongRecOn generalizing d d' with
  | ind id ih =>
    cases d with
    | zero => omega
    | succ d =>
      cases d' with
      | zero => omega
      | succ d' =>
        rw [recomputeWithin, recomputeWithin]
        cases hn : p.nodes[id]? with
        | none => rfl
        | some n =>
          have hid : id < p.nodes.size := (Array.getElem?_eq_some_iff.mp hn).1
          have hins : forEach (p.recomputeWithin mode d) n.inputs =
              forEach (p.recomputeWithin mode d') n.inputs := by
            apply forEach_congr
            intro i hi
            have hlt := hp id n hn i hi
            exact ih i hlt (by omega) (by omega)
          simp only [hins]

theorem recompute_eq (hp : p.WellFormed) {id : Nat} {n : Node B}
    (hn : p.nodes[id]? = some n) :
    p.recompute mode id = (do
      let ins ← forEach (p.recompute mode) n.inputs
      n.run mode ins) := by
  have hid : id < p.nodes.size := (Array.getElem?_eq_some_iff.mp hn).1
  rw [recompute, recomputeWithin]
  simp only [hn]
  congr 1
  apply forEach_congr
  intro i hi
  have hlt := hp id n hn i hi
  exact recomputeWithin_eq hp i (by omega) (by omega)

theorem recompute_eq_missing {id : NodeId} (hn : p.nodes[id]? = none) :
    p.recompute mode id = .error (.missingNode id) := by
  rw [recompute, recomputeWithin]
  simp only [hn]

namespace Evaluation
variable {α β : Type}

/-- What evaluating comes to, and the progress it leaves. -/
def on (x : Evaluation B α) (s : Progress B) : Except RunError α × Progress B := x.run.run s

theorem on_get (f : Progress B → Evaluation B α) (s : Progress B) :
    (get >>= f).on s = (f s).on s :=
  rfl

theorem on_bind (x : Evaluation B α) (f : α → Evaluation B β) (s : Progress B) :
    (x >>= f).on s = match x.on s with
      | (.ok a, t) => (f a).on t
      | (.error e, t) => (.error e, t) := by
  change (match x.on s with | (r, t) => ExceptT.bindCont f r t) = _
  rcases x.on s with ⟨_ | a, t⟩ <;> rfl

/-- A node is logged in any case, and its output is kept if it has one. -/
theorem on_runNode (mode : ExecMode) (id : NodeId) (n : Node B) (ins : List (List (Bundle B)))
    (s : Progress B) : (runNode mode id n ins).on s = match n.run mode ins with
      | .ok out => (.ok out, ⟨(id, out) :: s.memo, id :: s.ran⟩)
      | .error e => (.error e, ⟨s.memo, id :: s.ran⟩) := by
  rw [runNode]
  cases n.run mode ins <;> rfl

end Evaluation

/-- Every output that was kept is the one that recomputing gives. -/
def Memo.Sound (p : Pipeline B) (mode : ExecMode) (m : Memo B) : Prop :=
  ∀ e ∈ m, p.recompute mode e.1 = .ok e.2

/-- A step of an evaluation that agrees with a plain computation and keeps the memo sound. -/
def Agrees {α : Type} (p : Pipeline B) (mode : ExecMode) (step : Evaluation B α)
    (x : Except RunError α) : Prop :=
  ∀ s : Progress B, Memo.Sound p mode s.memo →
    (step.on s).1 = x ∧ Memo.Sound p mode (step.on s).2.memo

namespace Agrees
variable {α β : Type} {step : Evaluation B α} {x : Except RunError α}

theorem bind {f : α → Evaluation B β} {g : α → Except RunError β} (h : Agrees p mode step x)
    (hf : ∀ a, x = .ok a → Agrees p mode (f a) (g a)) :
    Agrees p mode (step >>= f) (x >>= g) := by
  intro s hs
  obtain ⟨hx, ht⟩ := h s hs
  rw [Evaluation.on_bind]
  rcases hstep : step.on s with ⟨y, t⟩
  rw [hstep] at hx ht
  cases (hx : y = x)
  cases y with
  | error e => exact ⟨rfl, ht⟩
  | ok a => exact hf a rfl t ht

theorem pure (a : α) : Agrees p mode (Pure.pure a) (.ok a) := fun _ hs => ⟨rfl, hs⟩

theorem runNode {id : NodeId} {n : Node B} {ins : List (List (Bundle B))}
    (h : ∀ out, n.run mode ins = .ok out → p.recompute mode id = .ok out) :
    Agrees p mode (Pipeline.runNode mode id n ins) (n.run mode ins) := by
  intro s hs
  rw [Evaluation.on_runNode]
  cases hrun : n.run mode ins with
  | error e => exact ⟨rfl, hs⟩
  | ok out =>
    refine ⟨rfl, ?_⟩
    intro e he
    rcases List.mem_cons.mp he with rfl | he
    · exact h out hrun
    · exact hs e he

end Agrees

theorem agrees_forEach {f : NodeId → Evaluation B (List (Bundle B))} {is : List NodeId}
    (h : ∀ i ∈ is, Agrees p mode (f i) (p.recompute mode i)) :
    Agrees p mode (forEach f is) (forEach (p.recompute mode) is) := by
  induction is with
  | nil => exact .pure []
  | cons i is ih =>
    have htail := ih fun j hj => h j (List.mem_cons_of_mem i hj)
    exact (h i List.mem_cons_self).bind fun out _ => htail.bind fun outs _ => .pure (out :: outs)

section Steps
variable {depth : Nat} {id : NodeId} {s : Progress B}

theorem evaluateWithin_kept {done : NodeId × List (Bundle B)}
    (h : s.memo.find? (·.1 = id) = some done) :
    (evaluateWithin p mode (depth + 1) id).on s = (.ok done.2, s) := by
  rw [evaluateWithin, Evaluation.on_get, h]
  rfl

theorem evaluateWithin_missing (h : s.memo.find? (·.1 = id) = none) (hn : p.nodes[id]? = none) :
    (evaluateWithin p mode (depth + 1) id).on s = (.error (.missingNode id), s) := by
  rw [evaluateWithin, Evaluation.on_get, h, hn]
  rfl

theorem evaluateWithin_run {n : Node B} (h : s.memo.find? (·.1 = id) = none)
    (hn : p.nodes[id]? = some n) :
    (evaluateWithin p mode (depth + 1) id).on s = (do
      let ins ← forEach (evaluateWithin p mode depth) n.inputs
      runNode mode id n ins : Evaluation B (List (Bundle B))).on s := by
  rw [evaluateWithin, Evaluation.on_get, h, hn]

end Steps

theorem agrees_evaluateWithin (hp : p.WellFormed) (depth : Nat) (id : Nat)
    (hd : min id p.nodes.size < depth) :
    Agrees p mode (evaluateWithin p mode depth id) (p.recompute mode id) := by
  induction depth generalizing id with
  | zero => omega
  | succ depth ih =>
    intro s hs
    cases hf : s.memo.find? (·.1 = id) with
    | some done =>
      have hid : done.1 = id := by simpa using List.find?_some hf
      have hdone := hs done (List.mem_of_find?_eq_some hf)
      rw [hid] at hdone
      rw [hdone, evaluateWithin_kept hf]
      exact ⟨rfl, hs⟩
    | none =>
      cases hn : p.nodes[id]? with
      | none =>
        rw [recompute_eq_missing hn, evaluateWithin_missing hf hn]
        exact ⟨rfl, hs⟩
      | some n =>
        have hid : id < p.nodes.size := (Array.getElem?_eq_some_iff.mp hn).1
        have hins : Agrees p mode (forEach (evaluateWithin p mode depth) n.inputs)
            (forEach (p.recompute mode) n.inputs) := by
          apply agrees_forEach
          intro i hi
          have hlt := hp id n hn i hi
          exact ih i (by omega)
        have hrec : p.recompute mode id = (do
            let ins ← forEach (p.recompute mode) n.inputs
            n.run mode ins) := recompute_eq hp hn
        rw [hrec, evaluateWithin_run hf hn]
        refine hins.bind (fun ins hin => Agrees.runNode fun out hout => ?_) s hs
        rw [hrec, hin]
        exact hout

theorem evaluate_eq_recompute (hp : p.WellFormed) (mode : ExecMode) (id : Nat) :
    p.evaluate mode id = p.recompute mode id := by
  have hempty : Memo.Sound p mode [] := fun e he => by simp at he
  exact (agrees_evaluateWithin hp (p.nodes.size + 1) id (by omega) ⟨[], []⟩ hempty).1

theorem evaluate_eq (hp : p.WellFormed) {id : Nat} {n : Node B} (hn : p.nodes[id]? = some n) :
    p.evaluate mode id = (do
      let ins ← forEach (p.evaluate mode) n.inputs
      n.run mode ins) := by
  rw [evaluate_eq_recompute hp, recompute_eq hp hn,
    forEach_congr fun i _ => evaluate_eq_recompute hp mode i]

/-- `q` has all nodes of `p`, under the same numbers. -/
def Grows (p q : Pipeline B) : Prop :=
  ∀ (id : Nat) (n : Node B), p.nodes[id]? = some n → q.nodes[id]? = some n

namespace Grows

theorem refl (p : Pipeline B) : Grows p p := fun _ _ h => h

theorem trans {r : Pipeline B} (hpq : Grows p q) (hqr : Grows q r) : Grows p r :=
  fun id n h => hqr id n (hpq id n h)

theorem size_le (h : Grows p q) : p.nodes.size ≤ q.nodes.size := by
  by_contra hlt
  have hid : q.nodes.size < p.nodes.size := by omega
  have hq := h _ _ (Array.getElem?_eq_getElem hid)
  rw [Array.getElem?_eq_none (Nat.le_refl _)] at hq
  cases hq

theorem evaluate_eq (h : Grows p q) (hp : p.WellFormed) (hq : q.WellFormed) (id : Nat)
    (hid : id < p.nodes.size) : q.evaluate mode id = p.evaluate mode id := by
  induction id using Nat.strongRecOn with
  | ind id ih =>
    have hn := Array.getElem?_eq_getElem hid
    rw [Pipeline.evaluate_eq hp hn, Pipeline.evaluate_eq hq (h _ _ hn)]
    congr 1
    apply forEach_congr
    intro i hi
    have hlt := hp id _ hn i hi
    exact ih i hlt (by omega)

end Grows

/-- `q` has all nodes of `p`, and the coders of `p`. -/
structure Extends (p q : Pipeline B) : Prop where
  coders : q.coders = p.coders
  nodes : ∀ (id : Nat) (n : Node B), p.nodes[id]? = some n → q.nodes[id]? = some n

namespace Extends

theorem grows (h : Extends p q) : Grows p q := h.nodes

theorem trans {r : Pipeline B} (hpq : Extends p q) (hqr : Extends q r) : Extends p r :=
  ⟨hqr.coders.trans hpq.coders, hpq.grows.trans hqr.grows⟩

theorem size_le (h : Extends p q) : p.nodes.size ≤ q.nodes.size := h.grows.size_le

theorem evaluate_eq (h : Extends p q) (hp : p.WellFormed) (hq : q.WellFormed) (id : Nat)
    (hid : id < p.nodes.size) : q.evaluate mode id = p.evaluate mode id :=
  h.grows.evaluate_eq hp hq id hid

end Extends

def add (p : Pipeline B) (n : Node B) : Pipeline B := { p with nodes := p.nodes.push n }

@[simp] theorem size_add (p : Pipeline B) (n : Node B) :
    (p.add n).nodes.size = p.nodes.size + 1 := by
  simp [add]

@[simp] theorem getElem?_add_size (p : Pipeline B) (n : Node B) :
    (p.add n).nodes[p.nodes.size]? = some n := by
  simp [add]

theorem extends_add (p : Pipeline B) (n : Node B) : Extends p (p.add n) := by
  refine ⟨rfl, ?_⟩
  intro id m hm
  have hid : id < p.nodes.size := (Array.getElem?_eq_some_iff.mp hm).1
  rw [add, Array.getElem?_push, if_neg (by omega), hm]

theorem WellFormed.add (hp : p.WellFormed) {n : Node B}
    (hn : ∀ i : Nat, i ∈ n.inputs → i < p.nodes.size) : (p.add n).WellFormed := by
  intro id m hm i hi
  rw [Pipeline.add, Array.getElem?_push] at hm
  split at hm
  · rename_i hid
    cases hm
    exact hid ▸ hn i hi
  · exact hp id m hm i hi

end KeyedFlow.Pipeline
