import KeyedFlow.Proofs.Modes.Bundles

/-!
One graph run in two modes. Both runs meet the nodes in the same order and keep their outputs, so
they are compared in step, from memos that agree. Where at most one grouping lies between any source
and a node, a grouping is only given inputs behind no other grouping, which come in one order.
-/

set_option autoImplicit false

namespace KeyedFlow
open Outcome
variable {B : Type} [TypeFamily B] {τ : ElemType B}

/-- A source, an element-wise stage, a grouping, or a concatenation of something. -/
inductive Node.Plain : Node B → Prop where
  | source (elems : Bundle B) : Plain (.source elems)
  | stage (i : NodeId) (kind : StageKind) {σ τ : ElemType B}
      {op : Nat → List (Windowed σ.Carrier) → Checked (List (Windowed τ.Carrier))}
      (hop : ElementWise op) : Plain (.stage i (Collection.onBundle kind σ τ op))
  | grouping (i : NodeId) {κ ν : ElemType B} [DecidableEq κ.Carrier] [KeyBytes κ.Carrier]
      (coder : Option (Coder ν)) (fewKeys : Bool) :
      Plain (.grouping i (Collection.groupingOp κ ν coder fewKeys))
  | flatten {is : List NodeId} (his : is ≠ []) : Plain (.flatten is)

namespace Pipeline
variable {p : Pipeline B} {id i : NodeId} {k : Nat} {mode mode' : ExecMode}

def Plain (p : Pipeline B) : Prop := ∀ (id : Nat) (n : Node B), p.nodes[id]? = some n → n.Plain

theorem Plain.add (hp : p.Plain) {n : Node B} (hn : n.Plain) : (p.add n).Plain := by
  intro id m hm
  rw [Pipeline.add, Array.getElem?_push] at hm
  split at hm
  · cases hm
    exact hn
  · exact hp id m hm

/-- Some path from a source to the node passes `k` groupings, the node itself included. -/
inductive Path (p : Pipeline B) : NodeId → Nat → Prop where
  | source {id : NodeId} {elems : Bundle B} (hn : p.nodes[id]? = some (.source elems)) : Path p id 0
  | stage {id i : NodeId} {k : Nat} {op : Nat → Bundle B → Except RunError (Bundle B)}
      (hn : p.nodes[id]? = some (.stage i op)) (hin : Path p i k) : Path p id k
  | grouping {id i : NodeId} {k : Nat}
      {op : Nat → List (Bundle B) → Except RunError (List (Bundle B))}
      (hn : p.nodes[id]? = some (.grouping i op)) (hin : Path p i k) : Path p id (k + 1)
  | flatten {id i : NodeId} {k : Nat} {is : List NodeId} (hn : p.nodes[id]? = some (.flatten is))
      (hi : i ∈ is) (hin : Path p i k) : Path p id k

namespace Path

theorem of_input {n : Node B} (hn : p.nodes[id]? = some n) (hi : i ∈ n.inputs)
    (h : p.Path i k) : ∃ j, k ≤ j ∧ p.Path id j := by
  cases n with
  | source elems => cases hi
  | stage j op =>
    cases List.mem_singleton.mp hi
    exact ⟨k, Nat.le_refl k, .stage hn h⟩
  | grouping j op =>
    cases List.mem_singleton.mp hi
    exact ⟨k + 1, Nat.le_succ k, .grouping hn h⟩
  | flatten is => exact ⟨k, Nat.le_refl k, .flatten hn hi h⟩

theorem eq_zero_of_source {elems : Bundle B} (h : p.Path id k)
    (hn : p.nodes[id]? = some (.source elems)) : k = 0 := by
  cases h with
  | source _ => rfl
  | stage hn' _ | grouping hn' _ | flatten hn' _ _ => cases hn.symm.trans hn'

theorem of_stage {op : Nat → Bundle B → Except RunError (Bundle B)} (h : p.Path id k)
    (hn : p.nodes[id]? = some (.stage i op)) : p.Path i k := by
  cases h with
  | stage hn' hin =>
    cases hn.symm.trans hn'
    exact hin
  | source hn' | grouping hn' _ | flatten hn' _ _ => cases hn.symm.trans hn'

theorem of_grouping {op : Nat → List (Bundle B) → Except RunError (List (Bundle B))}
    (h : p.Path id k) (hn : p.nodes[id]? = some (.grouping i op)) :
    ∃ j, k = j + 1 ∧ p.Path i j := by
  cases h with
  | grouping hn' hin =>
    cases hn.symm.trans hn'
    exact ⟨_, rfl, hin⟩
  | source hn' | stage hn' _ | flatten hn' _ _ => cases hn.symm.trans hn'

end Path

/-- Outputs of a node in two runs, in one order if no path to the node passes a grouping. -/
structure AlikeAt (p : Pipeline B) (id : NodeId) (out out' : List (Bundle B)) : Prop where
  reached : ∃ k, p.Path id k
  alike : Alike (∀ k, p.Path id k → k = 0) out out'

inductive AllAlike (p : Pipeline B) :
    List NodeId → List (List (Bundle B)) → List (List (Bundle B)) → Prop where
  | nil : AllAlike p [] [] []
  | cons {i : NodeId} {is : List NodeId} {out out' : List (Bundle B)}
      {outs outs' : List (List (Bundle B))} (head : p.AlikeAt i out out')
      (tail : AllAlike p is outs outs') : AllAlike p (i :: is) (out :: outs) (out' :: outs')

theorem AlikeAt.append {out out' more more' : List (Bundle B)} (h : p.AlikeAt id out out')
    (h' : p.AlikeAt id more more') : p.AlikeAt id (out ++ more) (out' ++ more') :=
  ⟨h.reached, h.alike.append h'.alike⟩

theorem AllAlike.flatten {is : List NodeId} {ins ins' : List (List (Bundle B))}
    (h : p.AllAlike is ins ins') (his : is ≠ [])
    (hpath : ∀ i ∈ is, ∀ k, p.Path i k → p.Path id k) :
    p.AlikeAt id ins.flatten ins'.flatten := by
  induction h with
  | nil => exact absurd rfl his
  | @cons i is out out' outs outs' head tail ih =>
    have hi := hpath i List.mem_cons_self
    have hhead : p.AlikeAt id out out' :=
      ⟨head.reached.imp hi, head.alike.imp fun hz k hk => hz k (hi k hk)⟩
    rw [List.flatten_cons, List.flatten_cons]
    cases tail with
    | nil => rwa [List.flatten_nil, List.append_nil, List.append_nil]
    | cons head' tail' =>
      have hrest := ih (List.cons_ne_nil _ _) fun j hj => hpath j (List.mem_cons_of_mem i hj)
      exact hhead.append hrest

theorem run_alikeAt (hp : p.Plain) {n : Node B} (hn : p.nodes[id]? = some n)
    (hid : ∀ k, p.Path id k → k ≤ 1) {ins ins' : List (List (Bundle B))}
    (hins : p.AllAlike n.inputs ins ins') :
    Corresponds (p.AlikeAt id) (n.run mode ins) (n.run mode' ins') := by
  cases hp id n hn with
  | source elems =>
    apply (Alike.source elems mode mode').imp
    intro out out' h
    exact ⟨⟨0, .source hn⟩, h⟩
  | stage i kind hop =>
    rcases hins with _ | ⟨hin, _ | _⟩
    obtain ⟨k, hk⟩ := hin.reached
    simp only [Node.run, List.flatten_singleton]
    have hsorted : (∀ j, p.Path id j → j = 0) → ∀ j, p.Path i j → j = 0 :=
      fun hz j hj => hz j (.stage hn hj)
    apply ((hin.alike.imp hsorted).stage kind hop).imp
    intro out out' h
    exact ⟨⟨k, .stage hn hk⟩, h⟩
  | grouping i coder fewKeys =>
    rcases hins with _ | ⟨hin, _ | _⟩
    obtain ⟨k, hk⟩ := hin.reached
    have hsorted : ∀ j, p.Path i j → j = 0 := by
      intro j hj
      have hle := hid (j + 1) (.grouping hn hj)
      omega
    simp only [Node.run, List.flatten_singleton]
    apply (hin.alike.grouping hsorted coder fewKeys mode.parts mode'.parts).imp
    intro out out' h
    refine ⟨⟨k + 1, .grouping hn hk⟩, h.imp fun hz => ?_⟩
    cases hz (k + 1) (.grouping hn hk)
  | flatten his => exact .ok (hins.flatten his fun i hi k hk => .flatten hn hi hk)

/-- The same nodes are kept, in the same order, with outputs that agree. -/
def Memo.Alike (p : Pipeline B) : Memo B → Memo B → Prop :=
  List.Forall₂ fun e e' => e.1 = e'.1 ∧ p.AlikeAt e.1 e.2 e'.2

theorem Memo.Alike.find? {m m' : Memo B} (h : Memo.Alike p m m') (id : NodeId) :
    (m.find? (·.1 = id) = none ∧ m'.find? (·.1 = id) = none) ∨
      ∃ e e', m.find? (·.1 = id) = some e ∧ m'.find? (·.1 = id) = some e' ∧
        p.AlikeAt id e.2 e'.2 := by
  induction h with
  | nil => exact .inl ⟨rfl, rfl⟩
  | @cons e e' m m' he _ ih =>
    obtain ⟨hkey, hsame⟩ := he
    by_cases hid : e.1 = id
    · have hid' : e'.1 = id := hkey.symm.trans hid
      exact .inr ⟨e, e', by simp [hid], by simp [hid'], hid ▸ hsame⟩
    · have hid' : ¬ e'.1 = id := fun h => hid (hkey.trans h)
      simpa [hid, hid'] using ih

/-- From memos that agree, both steps break off, or they give results that `R` relates, and they
leave memos that agree again. -/
def InStep {α β : Type} (p : Pipeline B) (R : α → β → Prop) (step : Evaluation B α)
    (step' : Evaluation B β) : Prop :=
  ∀ s s' : Progress B, Memo.Alike p s.memo s'.memo →
    Corresponds R (step.on s).1 (step'.on s').1 ∧
      Memo.Alike p (step.on s).2.memo (step'.on s').2.memo

namespace InStep
variable {α α' β β' : Type} {R : α → β → Prop} {S : α' → β' → Prop} {step : Evaluation B α}
  {step' : Evaluation B β}

theorem pure {a : α} {b : β} (h : R a b) : p.InStep R (Pure.pure a) (Pure.pure b) :=
  fun _ _ hs => ⟨.ok h, hs⟩

theorem bind {f : α → Evaluation B α'} {f' : β → Evaluation B β'} (h : p.InStep R step step')
    (hf : ∀ a b, R a b → p.InStep S (f a) (f' b)) : p.InStep S (step >>= f) (step' >>= f') := by
  intro s s' hs
  have hsteps := h s s' hs
  rw [Evaluation.on_bind, Evaluation.on_bind]
  generalize step.on s = r at hsteps ⊢
  generalize step'.on s' = r' at hsteps ⊢
  obtain ⟨x, t⟩ := r
  obtain ⟨x', t'⟩ := r'
  obtain ⟨hr, ht⟩ := hsteps
  cases (hr : Corresponds R x x') with
  | ok hab => exact hf _ _ hab t t' ht
  | error e e' => exact ⟨.error e e', ht⟩

theorem runNode {n : Node B} {ins ins' : List (List (Bundle B))}
    (h : Corresponds (p.AlikeAt id) (n.run mode ins) (n.run mode' ins')) :
    p.InStep (p.AlikeAt id) (Pipeline.runNode mode id n ins)
      (Pipeline.runNode mode' id n ins') := by
  intro s s' hs
  rw [Evaluation.on_runNode, Evaluation.on_runNode]
  generalize n.run mode ins = x at h ⊢
  generalize n.run mode' ins' = x' at h ⊢
  cases h with
  | ok hout => exact ⟨.ok hout, .cons ⟨rfl, hout⟩ hs⟩
  | error e e' => exact ⟨.error e e', hs⟩

theorem forEach {f f' : NodeId → Evaluation B (List (Bundle B))} {is : List NodeId}
    (h : ∀ i ∈ is, p.InStep (p.AlikeAt i) (f i) (f' i)) :
    p.InStep (p.AllAlike is) (Pipeline.forEach f is) (Pipeline.forEach f' is) := by
  induction is with
  | nil => exact .pure .nil
  | cons i is ih =>
    apply (h i List.mem_cons_self).bind
    intro out out' hout
    apply (ih fun j hj => h j (List.mem_cons_of_mem i hj)).bind
    intro outs outs' houts
    exact .pure (.cons hout houts)

end InStep

theorem evaluateWithin_inStep (hp : p.Plain) (mode mode' : ExecMode) (depth : Nat)
    (hid : ∀ k, p.Path id k → k ≤ 1) :
    p.InStep (p.AlikeAt id) (evaluateWithin p mode depth id)
      (evaluateWithin p mode' depth id) := by
  -- on the depth alone, which covers cycles and missing nodes as well
  induction depth generalizing id with
  | zero => exact fun _ _ hs => ⟨.error _ _, hs⟩
  | succ depth ih =>
    intro s s' hs
    rcases hs.find? id with ⟨hf, hf'⟩ | ⟨e, e', hf, hf', hsame⟩
    · cases hn : p.nodes[id]? with
      | none =>
        rw [evaluateWithin_missing hf hn, evaluateWithin_missing hf' hn]
        exact ⟨.error _ _, hs⟩
      | some n =>
        rw [evaluateWithin_run hf hn, evaluateWithin_run hf' hn]
        have hins : p.InStep (p.AllAlike n.inputs)
            (Pipeline.forEach (evaluateWithin p mode depth) n.inputs)
            (Pipeline.forEach (evaluateWithin p mode' depth) n.inputs) := by
          apply InStep.forEach
          intro i hi
          apply ih
          intro k hk
          obtain ⟨j, hkj, hj⟩ := hk.of_input hn hi
          exact Nat.le_trans hkj (hid j hj)
        exact hins.bind (fun ins ins' h => .runNode (run_alikeAt hp hn hid h)) s s' hs
    · rw [evaluateWithin_kept hf, evaluateWithin_kept hf']
      exact ⟨.ok hsame, hs⟩

theorem evaluate_alikeAt (hp : p.Plain) (mode mode' : ExecMode)
    (hid : ∀ k, p.Path id k → k ≤ 1) :
    Corresponds (p.AlikeAt id) (p.evaluate mode id) (p.evaluate mode' id) :=
  (evaluateWithin_inStep hp mode mode' (p.nodes.size + 1) hid ⟨[], []⟩ ⟨[], []⟩ .nil).1

theorem collect_matches (hp : p.Plain) (mode mode' : ExecMode) (τ : ElemType B)
    (hid : ∀ k, p.Path id k → k ≤ 1) :
    Corresponds (Matches (∀ k, p.Path id k → k = 0)) (p.collect mode τ id)
      (p.collect mode' τ id) :=
  (evaluate_alikeAt hp mode mode' hid).bind fun _ _ h => h.alike.elements τ

end Pipeline
end KeyedFlow
