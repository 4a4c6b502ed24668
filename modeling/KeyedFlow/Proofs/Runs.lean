import KeyedFlow.Proofs.Typing.Sessions

/-!
Runs of a session's graph. In a graph whose nodes read earlier nodes only, an evaluation runs no
node twice, also when it breaks off, and one that ends well has run the node that was asked for and
all nodes that it needs, and no others. Since every session is typed, its nodes are never missing,
and what is added later changes no run of what was there.
-/

set_option autoImplicit false

namespace KeyedFlow
open Outcome
variable {B : Type} [TypeFamily B] {p : Pipeline B}

namespace Pipeline
variable {α β : Type} {i j : NodeId} {ids ids' : List NodeId} {s : Progress B}

/-- Node `i` reads the output of node `j`. -/
def Reads (p : Pipeline B) (i j : NodeId) : Prop := ∃ n, p.nodes[i]? = some n ∧ j ∈ n.inputs

/-- Node `j` is `i` itself, or `i` reads it, or some node that `i` needs does. -/
def Needs (p : Pipeline B) : NodeId → NodeId → Prop := Relation.ReflTransGen p.Reads

theorem Needs.le (hp : p.WellFormed) (h : p.Needs i j) : j ≤ i := by
  induction h with
  | refl => exact Nat.le_refl i
  | tail _ hread ih =>
    obtain ⟨n, hn, hj⟩ := hread
    exact Nat.le_trans (Nat.le_of_lt (hp _ n hn _ hj)) ih

/-- Exactly the nodes that were run are kept, each of them once, and they read no others. -/
structure Progress.Clean (p : Pipeline B) (s : Progress B) : Prop where
  ran : s.ran = s.memo.map Prod.fst
  nodup : s.ran.Nodup
  closed : ∀ i ∈ s.ran, ∀ j, p.Reads i j → j ∈ s.ran

theorem Progress.clean_nil (p : Pipeline B) : Progress.Clean p ⟨[], []⟩ :=
  ⟨rfl, List.nodup_nil, fun _ hi => absurd hi List.not_mem_nil⟩

/-- What evaluating the nodes `ids` from `s` on does to the log: no node comes twice, and a new one
only if some of `ids` needs it. If it ends well, all of `ids` have been run. -/
structure Logs (p : Pipeline B) (ids : List NodeId) (s : Progress B)
    (r : Except RunError α × Progress B) : Prop where
  nodup : r.2.ran.Nodup
  needed : ∀ j ∈ r.2.ran, j ∈ s.ran ∨ ∃ i ∈ ids, p.Needs i j
  grows : ∀ j ∈ s.ran, j ∈ r.2.ran
  ends : ∀ a, r.1 = .ok a → r.2.Clean p ∧ ∀ i ∈ ids, i ∈ r.2.ran

namespace Logs

theorem stay (hs : s.Clean p) {x : Except RunError α}
    (hids : ∀ a, x = .ok a → ∀ i ∈ ids, i ∈ s.ran) :
    Logs p ids s (x, s) :=
  ⟨hs.nodup, fun _ hj => .inl hj, fun _ hj => hj, fun a ha => ⟨hs, hids a ha⟩⟩

theorem bind {x : Evaluation B α} {f : α → Evaluation B β} (h : Logs p ids s (x.on s))
    (hf : ∀ a t, Logs p ids s (.ok a, t) → Logs p ids' t ((f a).on t)) :
    Logs p (ids ++ ids') s ((x >>= f).on s) := by
  rw [Evaluation.on_bind]
  generalize x.on s = r at h ⊢
  obtain ⟨_ | a, t⟩ := r
  · refine ⟨h.nodup, fun j hj => (h.needed j hj).imp_right ?_, h.grows, fun _ ha => by cases ha⟩
    rintro ⟨i, hi, hij⟩
    exact ⟨i, List.mem_append_left ids' hi, hij⟩
  · have hrest := hf a t h
    refine ⟨hrest.nodup, ?_, fun j hj => hrest.grows j (h.grows j hj), ?_⟩
    · intro j hj
      rcases hrest.needed j hj with hold | ⟨i, hi, hij⟩
      · refine (h.needed j hold).imp_right ?_
        rintro ⟨i, hi, hij⟩
        exact ⟨i, List.mem_append_left ids' hi, hij⟩
      · exact .inr ⟨i, List.mem_append_right ids hi, hij⟩
    · intro b hb
      obtain ⟨hclean, hids'⟩ := hrest.ends b hb
      refine ⟨hclean, fun i hi => ?_⟩
      rcases List.mem_append.mp hi with hi | hi
      · exact hrest.grows i ((h.ends a rfl).2 i hi)
      · exact hids' i hi

theorem forEach {f : NodeId → Evaluation B α}
    (h : ∀ i ∈ ids, ∀ t : Progress B, t.Clean p → Logs p [i] t ((f i).on t)) (hs : s.Clean p) :
    Logs p ids s ((Pipeline.forEach f ids).on s) := by
  induction ids generalizing s with
  | nil => exact stay hs fun _ _ _ hi => absurd hi List.not_mem_nil
  | cons i ids ih =>
    have hrest : ∀ (a : α) (t : Progress B), t.Clean p → Logs p (ids ++ [])
        t ((Pipeline.forEach f ids >>= fun as => pure (a :: as)).on t) := by
      intro a t ht
      apply (ih (fun j hj => h j (List.mem_cons_of_mem i hj)) ht).bind
      intro as u hu
      exact stay (hu.ends as rfl).1 fun _ _ _ hi => absurd hi List.not_mem_nil
    simp only [List.append_nil] at hrest
    exact (h i List.mem_cons_self s hs).bind fun a t ht => hrest a t (ht.ends a rfl).1

theorem runNode {n : Node B} (hn : p.nodes[i]? = some n) (hs : s.Clean p)
    (hins : ∀ j ∈ n.inputs, j ∈ s.ran) (hi : ¬ i ∈ s.ran) (mode : ExecMode)
    (ins : List (List (Bundle B))) : Logs p [i] s ((Pipeline.runNode mode i n ins).on s) := by
  have hnodup : (i :: s.ran).Nodup := List.nodup_cons.mpr ⟨hi, hs.nodup⟩
  have hneeded : ∀ j ∈ i :: s.ran, j ∈ s.ran ∨ ∃ k ∈ [i], p.Needs k j := by
    intro j hj
    rcases List.mem_cons.mp hj with rfl | hj
    · exact .inr ⟨j, List.mem_cons_self, .refl⟩
    · exact .inl hj
  have hgrows : ∀ j ∈ s.ran, j ∈ i :: s.ran := fun j hj => List.mem_cons_of_mem i hj
  rw [Evaluation.on_runNode]
  cases n.run mode ins with
  | error e => exact ⟨hnodup, hneeded, hgrows, fun _ ha => by cases ha⟩
  | ok out =>
    refine ⟨hnodup, hneeded, hgrows, fun _ _ => ⟨⟨congrArg (i :: ·) hs.ran, hnodup, ?_⟩, ?_⟩⟩
    · intro k hk j hread
      apply hgrows
      rcases List.mem_cons.mp hk with rfl | hk
      · obtain ⟨m, hm, hj⟩ := hread
        cases hn.symm.trans hm
        exact hins j hj
      · exact hs.closed k hk j hread
    · intro k hk
      cases List.mem_singleton.mp hk
      exact List.mem_cons_self

/-- The inputs of a node do not count, since the node needs them. -/
theorem of_inputs {r : Except RunError α × Progress B} {n : Node B} (hn : p.nodes[i]? = some n)
    (h : Logs p (n.inputs ++ [i]) s r) : Logs p [i] s r := by
  refine ⟨h.nodup, fun j hj => (h.needed j hj).imp_right ?_, h.grows, fun a ha => ?_⟩
  · rintro ⟨k, hk, hkj⟩
    refine ⟨i, List.mem_cons_self, ?_⟩
    rcases List.mem_append.mp hk with hk | hk
    · exact .head ⟨n, hn, hk⟩ hkj
    · rwa [← List.mem_singleton.mp hk]
  · obtain ⟨hclean, hids⟩ := h.ends a ha
    exact ⟨hclean, fun k hk => hids k (List.mem_append_right _ hk)⟩

end Logs

theorem mem_ran_iff (hs : s.Clean p) : i ∈ s.ran ↔ ∃ e, s.memo.find? (·.1 = i) = some e := by
  rw [hs.ran, List.mem_map, ← Option.isSome_iff_exists, List.find?_isSome]
  simp only [decide_eq_true_eq]

theorem evaluateWithin_logs (hp : p.WellFormed) (mode : ExecMode) (depth : Nat) (id : NodeId)
    (hs : s.Clean p) : Logs p [id] s ((evaluateWithin p mode depth id).on s) := by
  -- on the depth, which the recursion counts down; nodes are met in any order
  induction depth generalizing id s with
  | zero => exact .stay hs fun _ ha => by cases ha
  | succ depth ih =>
    cases hf : s.memo.find? (·.1 = id) with
    | some done =>
      rw [evaluateWithin_kept hf]
      refine .stay hs fun _ _ k hk => ?_
      cases List.mem_singleton.mp hk
      exact (mem_ran_iff hs).mpr ⟨done, hf⟩
    | none =>
      cases hn : p.nodes[id]? with
      | none =>
        rw [evaluateWithin_missing hf hn]
        exact .stay hs fun _ ha => by cases ha
      | some n =>
        have hins : Logs p n.inputs s ((forEach (evaluateWithin p mode depth) n.inputs).on s) :=
          .forEach (fun i _ t ht => ih i ht) hs
        rw [evaluateWithin_run hf hn]
        apply Logs.of_inputs hn
        apply hins.bind
        intro ins t ht
        obtain ⟨hclean, hran⟩ := ht.ends ins rfl
        refine .runNode hn hclean hran ?_ mode ins
        intro hmem
        rcases ht.needed id hmem with hold | ⟨i, hi, hneeds⟩
        · obtain ⟨e, he⟩ := (mem_ran_iff hs).mp hold
          cases hf.symm.trans he
        · exact Nat.not_lt.mpr (hneeds.le hp) (hp id n hn i hi)

theorem evaluation_logs (hp : p.WellFormed) (mode : ExecMode) (id : NodeId) :
    Logs p [id] ⟨[], []⟩ (p.evaluation mode id) :=
  evaluateWithin_logs hp mode _ id (Progress.clean_nil p)

theorem needs_of_mem_runLog (hp : p.WellFormed) {mode : ExecMode} (hj : j ∈ p.runLog mode i) :
    p.Needs i j := by
  rcases (evaluation_logs hp mode i).needed j hj with hold | ⟨k, hk, hneeds⟩
  · exact absurd hold List.not_mem_nil
  · rwa [← List.mem_singleton.mp hk]

theorem mem_runLog_of_needs (hp : p.WellFormed) {mode : ExecMode} {out : List (Bundle B)}
    (hout : p.evaluate mode i = .ok out) (h : p.Needs i j) : j ∈ p.runLog mode i := by
  obtain ⟨hclean, hran⟩ := (evaluation_logs hp mode i).ends out hout
  induction h with
  | refl => exact hran i List.mem_cons_self
  | tail _ hread ih => exact hclean.closed _ ih _ hread

end Pipeline

namespace Session
variable {s : Session B}

/-- The inputs of a node exist and were built before it, so a run meets no missing node and comes to
an end. It gives what running shared inputs anew for every use would give. No node is run twice, nor
one that is not needed, and a run that ends well has run all that are. Operations done later, failed
ones included, change nothing for a collection that exists. -/
theorem runs_sound (h : Leads Owns new s) :
    (∀ (id : Nat) (n : Node B), s.pipeline.nodes[id]? = some n → ∀ i : Nat, i ∈ n.inputs →
      i < id ∧ ∃ m, s.pipeline.nodes[i]? = some m) ∧
    (∀ c ∈ s.collections, c.2.node < s.pipeline.nodeCount) ∧
    (∀ mode, ∀ id < s.pipeline.nodeCount, ∀ i,
      s.pipeline.evaluate mode id ≠ .error (.missingNode i) ∧
        s.pipeline.evaluate mode id ≠ .error (.cyclicNode i)) ∧
    (∀ (mode : ExecMode) (id : Nat) (n : Node B), s.pipeline.nodes[id]? = some n →
      s.pipeline.recompute mode id = do
        let ins ← Pipeline.forEach (s.pipeline.recompute mode) n.inputs
        n.run mode ins) ∧
    (∀ mode id, s.pipeline.evaluate mode id = s.pipeline.recompute mode id ∧
      (s.pipeline.runLog mode id).Nodup ∧
      (∀ i ∈ s.pipeline.runLog mode id, s.pipeline.Needs id i) ∧
      ∀ out, s.pipeline.evaluate mode id = .ok out →
        ∀ i, s.pipeline.Needs id i → i ∈ s.pipeline.runLog mode id) ∧
    ∀ t, Leads Owns s t → ∀ c ∈ s.collections, ∀ mode,
      t.pipeline.collect mode c.1 c.2.node = s.pipeline.collect mode c.1 c.2.node := by
  have hs := (typed_new.leads h).1
  have hwf := hs.pipeline.wellFormed
  have hbuilt : ∀ c ∈ s.collections, c.2.node < s.pipeline.nodeCount := by
    intro c hc
    obtain ⟨n, hn, _⟩ := (hs.collections c hc).carries.exists_node
    exact (Array.getElem?_eq_some_iff.mp hn).1
  refine ⟨?_, hbuilt, ?_, fun mode id n hn => Pipeline.recompute_eq hwf hn, ?_, ?_⟩
  · intro id n hn i hi
    have hlt := hwf id n hn i hi
    have hid := (Array.getElem?_eq_some_iff.mp hn).1
    exact ⟨hlt, _, Array.getElem?_eq_getElem (by omega)⟩
  · intro mode id hid i
    obtain ⟨τ, f, hcarries⟩ := hs.pipeline id hid
    have hfails := (hcarries.delivers hwf mode).fails
    constructor
    · intro he
      cases hfails _ he
    · intro he
      cases hfails _ he
  · intro mode id
    exact ⟨Pipeline.evaluate_eq_recompute hwf mode id, (Pipeline.evaluation_logs hwf mode id).nodup,
      fun i => Pipeline.needs_of_mem_runLog hwf,
      fun out hout i => Pipeline.mem_runLog_of_needs hwf hout⟩
  · intro t ht c hc mode
    obtain ⟨ht, hgrows, _⟩ := hs.leads ht
    rw [Pipeline.collect, Pipeline.collect,
      hgrows.evaluate_eq hwf ht.pipeline.wellFormed c.2.node (hbuilt c hc)]

/-- A combine that adds its two nodes before its output coder is refused. -/
def broken : Operation Sample.Own := .combinePerKey tumbledWords
  { combiner := (Sample.Combiners.brokenOutput .uint32).keyed .string }

theorem runs_sound_of_summed :
    Leads Owns new summed ∧
    (summed.after broken).collections = summed.collections ∧
    (summed.after broken).pipeline.nodeCount = summed.pipeline.nodeCount + 2 ∧
    summed.pipeline.runLog .sequential summedWords.node = [10, 9, 8, 7, 6, 5, 4, 3, 2, 1, 0] ∧
    (summed.pipeline.runLog .sequential summedWords.node).Nodup ∧
    ∀ mode, (summed.after broken).pipeline.collect mode (.pair .string .uint32) summedWords.node =
      summed.pipeline.collect mode (.pair .string .uint32) summedWords.node := by
  have hbroken : Leads Owns summed (summed.after broken) :=
    Leads.after .refl (owns_of_inputs (c := ⟨_, tumbledWords⟩) rfl
      (List.mem_cons_of_mem _ List.mem_cons_self))
  obtain ⟨-, -, -, -, honce, hstays⟩ := runs_sound leads_summed
  refine ⟨leads_summed, rfl, rfl, by decide +kernel, (honce .sequential _).2.1, fun mode => ?_⟩
  exact hstays _ hbroken ⟨_, summedWords⟩ List.mem_cons_self mode

end Session
end KeyedFlow
