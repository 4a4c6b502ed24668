import KeyedFlow.Collection.Keyed
import KeyedFlow.Proofs.Evaluation

/-!
What collections hold. A collection gives typed bundles, or the failure of its run, in a pipeline
that has its node; nodes added later change neither. An element-wise transform adds one node, whose
bundles are those of its input with the stage applied to each, and concatenation adds one node with
the bundles of its inputs in turn. Building never looks at bundles.
-/

set_option autoImplicit false

namespace KeyedFlow
open Outcome
variable {B : Type} [TypeFamily B] {σ τ : ElemType B} {p q : Pipeline B} {mode : ExecMode}

theorem runStage_eq_mapM (op : Nat → Bundle B → Except RunError (Bundle B)) (i : Nat)
    (bs : List (Bundle B)) :
    Node.runStage op i bs = (bs.zipIdx i).mapM fun e => op e.2 e.1 := by
  induction bs generalizing i with
  | nil => rfl
  | cons b bs ih =>
    rw [Node.runStage, List.zipIdx_cons, List.mapM_cons, ih]
    rfl

/-- A stage run on bundles of the type it expects, each told its place. -/
def runBundles {α β : Type} (f : Nat → List (Windowed α) → Checked (List (Windowed β)))
    (bs : List (List (Windowed α))) : Except RunError (List (List (Windowed β))) :=
  bs.zipIdx.mapM fun e => (f e.2 e.1).inRun

theorem onBundle_of {kind : StageKind}
    {f : Nat → List (Windowed σ.Carrier) → Checked (List (Windowed τ.Carrier))} (i : Nat)
    (xs : List (Windowed σ.Carrier)) :
    Collection.onBundle kind σ τ f i (Bundle.of σ xs) = (f i xs).inRun.map (Bundle.of τ) := by
  rw [Collection.onBundle, Bundle.as?_of]
  change ((f i xs).inRun >>= fun ys => _) = _
  cases (f i xs).inRun <;> rfl

theorem runStage_onBundle {kind : StageKind}
    {f : Nat → List (Windowed σ.Carrier) → Checked (List (Windowed τ.Carrier))}
    (bs : List (List (Windowed σ.Carrier))) :
    Node.runStage (Collection.onBundle kind σ τ f) 0 (bs.map (Bundle.of σ)) =
      (runBundles f bs).map (List.map (Bundle.of τ)) := by
  rw [runStage_eq_mapM, List.zipIdx_map, List.mapM_map, runBundles, ← mapM_map_results]
  simp only [Function.comp_def, Prod.map, id_eq, onBundle_of]

theorem runBundles_eq_mapM {α β : Type} (f : List (Windowed α) → Checked (List (Windowed β)))
    (bs : List (List (Windowed α))) :
    runBundles (fun _ xs => f xs) bs = bs.mapM fun xs => (f xs).inRun := by
  have hbs : bs.zipIdx.map Prod.fst = bs := List.zipIdx_map_fst 0 bs
  conv_rhs => rw [← hbs, List.mapM_map]
  rfl

theorem runBundles_ok {α β : Type} (g : Nat → List (Windowed α) → List (Windowed β))
    (bs : List (List (Windowed α))) :
    runBundles (fun i xs => .ok (g i xs)) bs = .ok (bs.zipIdx.map fun e => g e.2 e.1) :=
  mapM_eq_ok_map fun e _ => inRun_ok (g e.2 e.1)

theorem runBundles_mapM {α β : Type} (g : Windowed α → Checked (Windowed β))
    (bs : List (List (Windowed α))) :
    (runBundles (fun _ xs => xs.mapM g) bs).map List.flatten =
      bs.flatten.mapM fun w => (g w).inRun := by
  simp only [runBundles_eq_mapM, inRun_mapM, mapM_flatten]

namespace Collection

/-- The collection's node is in the pipeline and evaluates to `x`. -/
structure Gives (c : Collection τ) (p : Pipeline B) (mode : ExecMode)
    (x : Except RunError (List (List (Windowed τ.Carrier)))) : Prop where
  wellFormed : p.WellFormed
  built : c.node < p.nodes.size
  evaluate : p.evaluate mode c.node = x.map (List.map (Bundle.of τ))

variable {x : Except RunError (List (List (Windowed σ.Carrier)))}

theorem elements_map_of (bs : List (List (Windowed τ.Carrier))) :
    Pipeline.elements τ (bs.map (Bundle.of τ)) = .ok bs.flatten := by
  induction bs with
  | nil => rfl
  | cons b bs ih =>
    rw [List.map_cons, Pipeline.elements, Bundle.as?_of, ih]
    rfl

theorem Gives.collect_eq {c : Collection σ} (h : c.Gives p mode x) :
    p.collect mode σ c.node = x.map List.flatten := by
  rw [Pipeline.collect, h.evaluate]
  cases x with
  | error e => rfl
  | ok bs => exact elements_map_of bs

theorem Gives.of_node {c d : Collection σ} (h : c.Gives p mode x) (hd : d.node = c.node) :
    d.Gives p mode x := by
  refine ⟨h.wellFormed, ?_, ?_⟩
  · rw [hd]
    exact h.built
  · rw [hd]
    exact h.evaluate

theorem Gives.withStrategy {c : Collection σ} (h : c.Gives p mode x) (s : WindowingStrategy) :
    (c.withStrategy s).Gives p mode x :=
  h.of_node rfl

theorem Gives.setCoder? {c : Collection σ} (h : c.Gives p mode x) (coder : Option (Coder σ)) :
    (c.setCoder? coder).Gives p mode x :=
  h.of_node (by cases coder <;> rfl)

theorem Gives.mono {c : Collection σ} (h : c.Gives p mode x) (hpq : p.Extends q)
    (hq : q.WellFormed) : c.Gives q mode x :=
  ⟨hq, Nat.lt_of_lt_of_le h.built hpq.size_le,
    (hpq.evaluate_eq h.wellFormed hq c.node h.built).trans h.evaluate⟩

theorem gives_add (hp : p.WellFormed) {n : Node B} (hn : ∀ i : Nat, i ∈ n.inputs → i < p.nodes.size)
    {c : Collection σ} (hc : c.node = p.nodes.size)
    (hx : (do
      let ins ← Pipeline.forEach (p.evaluate mode) n.inputs
      n.run mode ins) = x.map (List.map (Bundle.of σ))) : c.Gives (p.add n) mode x := by
  have hadd := hp.add hn
  refine ⟨hadd, by simp [hc], ?_⟩
  rw [hc, Pipeline.evaluate_eq hadd (Pipeline.getElem?_add_size p n), ← hx]
  congr 1
  apply Pipeline.forEach_congr
  intro i hi
  exact (Pipeline.extends_add p n).evaluate_eq hp hadd i (hn i hi)

end Collection

/-- An extension that keeps the pipeline's nodes and returns a collection that gives `x`. -/
structure Extend.Yields (m : Extend B (Collection τ)) (p : Pipeline B) (mode : ExecMode)
    (x : Except RunError (List (List (Windowed τ.Carrier)))) : Prop where
  extends_ : p.Extends (m p).2
  gives : (m p).1.Gives (m p).2 mode x

namespace Collection
variable {x : Except RunError (List (List (Windowed σ.Carrier)))} {c : Collection σ}

theorem yields_of_input (h : c.Gives p mode x) {n : Node B} (hn : n.inputs = [c.node])
    {m : Extend B (Collection τ)} {d : Collection τ} (hd : d.node = p.nodes.size)
    (hm : m p = (d, p.add n)) {y : Except RunError (List (List (Windowed τ.Carrier)))}
    (hy : (x >>= fun bs => n.run mode [bs.map (Bundle.of σ)]) = y.map (List.map (Bundle.of τ))) :
    m.Yields p mode y := by
  have hlt : ∀ i : Nat, i ∈ n.inputs → i < p.nodes.size := by
    intro i hi
    rw [hn] at hi
    exact List.mem_singleton.mp hi ▸ h.built
  constructor
  · rw [hm]
    exact Pipeline.extends_add p n
  · rw [hm]
    apply gives_add h.wellFormed hlt hd
    rw [← hy, hn, Pipeline.forEach, h.evaluate]
    cases x <;> rfl

theorem chain_yields (h : c.Gives p mode x) (kind : StageKind)
    (f : Nat → List (Windowed σ.Carrier) → Checked (List (Windowed τ.Carrier))) :
    (c.chain τ kind f).Yields p mode (x >>= runBundles f) := by
  apply yields_of_input h (n := .stage c.node (onBundle kind σ τ f)) rfl rfl rfl
  cases x with
  | error e => rfl
  | ok bs =>
    change Node.runStage _ 0 [bs.map (Bundle.of σ)].flatten = _
    rw [List.flatten_singleton, runStage_onBundle]
    rfl

theorem chain_yields_map (h : c.Gives p mode x) (kind : StageKind)
    (g : List (Windowed σ.Carrier) → List (Windowed τ.Carrier)) :
    (c.chain τ kind fun _ xs => .ok (g xs)).Yields p mode (x.map (List.map g)) := by
  have hy := chain_yields h kind fun _ xs => .ok (g xs)
  have hx : (x >>= runBundles fun _ xs => .ok (g xs)) = x.map (List.map g) := by
    cases x with
    | error e => rfl
    | ok bs =>
      change runBundles (fun _ xs => .ok (g xs)) bs = .ok (bs.map g)
      rw [runBundles_eq_mapM]
      exact mapM_eq_ok_map fun xs _ => inRun_ok (g xs)
  rwa [hx] at hy

theorem expandEach_ok {α β : Type} (g : α → List β) : expandEach (fun a => .ok (g a)) =
    fun xs => .ok (xs.flatMap fun w => (g w.value).map w.withValue) := by
  funext xs
  rw [List.flatMap_def]
  change (xs.mapM (fun w => Except.ok ((g w.value).map w.withValue)) >>= fun yss => _) = _
  rw [mapM_eq_ok_map fun w _ => rfl]
  rfl

theorem flatMap_yields (h : c.Gives p mode x) (g : σ.Carrier → List τ.Carrier) :
    (c.flatMap τ fun a => .ok (g a)).Yields p mode
      (x.map (List.map fun xs => xs.flatMap fun w => (g w.value).map w.withValue)) := by
  unfold flatMap
  simp only [expandEach_ok]
  exact chain_yields_map h .flatMap _

theorem map_yields (h : c.Gives p mode x) (g : σ.Carrier → τ.Carrier) :
    (c.map τ fun a => .ok (g a)).Yields p mode
      (x.map (List.map (List.map fun w => w.withValue (g w.value)))) := by
  have hmap : (c.map τ fun a => .ok (g a)) =
      c.chain τ .map fun _ xs => .ok (xs.map fun w => w.withValue (g w.value)) := by
    unfold map
    simp only [ok_bind, expandEach_ok, List.map_singleton, ← List.map_eq_flatMap]
  rw [hmap]
  exact chain_yields_map h .map _

theorem gives_source (hp : p.WellFormed) {elems : List (Windowed σ.Carrier)}
    (hn : p.nodes[c.node]? = some (.source (Bundle.of σ elems))) :
    c.Gives p mode (.ok (splitInto (min mode.parts (max elems.length 1)) elems)) :=
  ⟨hp, (Array.getElem?_eq_some_iff.mp hn).1, Pipeline.evaluate_eq hp hn⟩

theorem wellFormed_ofWindowed (hp : p.WellFormed) (elems : List (Windowed σ.Carrier)) :
    (ofWindowed σ elems p).2.WellFormed :=
  hp.add fun i hi => by simp [Node.inputs] at hi

theorem getElem?_ofWindowed (elems : List (Windowed σ.Carrier)) :
    (ofWindowed σ elems p).2.nodes[(ofWindowed σ elems p).1.node]? =
      some (.source (Bundle.of σ elems)) :=
  Pipeline.getElem?_add_size p _

end Collection

namespace Build
variable {α : Type}

/-- What building comes to in a pipeline, and the pipeline it leaves. -/
def on (m : Build B α) (p : Pipeline B) : Except FlowError α × Pipeline B := m.run.run p

theorem on_bind {β : Type} {m : Build B α} {f : α → Build B β} {a : α}
    (hm : m.on p = (.ok a, q)) : (m >>= f).on p = (f a).on q := by
  change (match m.on p with | (r, q) => ExceptT.bindCont f r q) = _
  rw [hm]
  rfl

theorem on_get (f : Pipeline B → Build B α) (p : Pipeline B) :
    (get >>= f : Build B α).on p = (f p).on p :=
  rfl

theorem on_extend {β : Type} (m : Extend B β) (f : β → Build B α) (p : Pipeline B) :
    (extend m >>= f).on p = (f (m p).1).on (m p).2 :=
  rfl

theorem on_ofExcept (x : Except FlowError α) (p : Pipeline B) : (ofExcept x).on p = (x, p) := by
  cases x <;> rfl

/-- Building keeps the pipeline's nodes and returns a collection that gives `x`; it may only refuse
to do so where `A` fails. -/
def Yields (A : Prop) (m : Build B (Collection τ)) (p : Pipeline B) (mode : ExecMode)
    (x : Except RunError (List (List (Windowed τ.Carrier)))) : Prop :=
  ∃ d q, p.Extends q ∧ d.Gives q mode x ∧
    (m.on p = (.ok d, q) ∨ ¬A ∧ ∃ e, m.on p = (.error e, q))

namespace Yields
variable {A : Prop} {m : Build B (Collection τ)}
  {x : Except RunError (List (List (Windowed τ.Carrier)))}

theorem of_eq {m' : Build B (Collection τ)} (h : Yields A m q mode x) (hpq : p.Extends q)
    (heq : m'.on p = m.on q) : Yields A m' p mode x := by
  obtain ⟨d, r, hqr, hd, hm⟩ := h
  exact ⟨d, r, hpq.trans hqr, hd, heq ▸ hm⟩

theorem imp {A' : Prop} (h : Yields A m p mode x) (ha : A' → A) : Yields A' m p mode x := by
  obtain ⟨d, q, hpq, hd, hm⟩ := h
  exact ⟨d, q, hpq, hd, hm.imp_right fun ⟨hn, he⟩ => ⟨mt ha hn, he⟩⟩

theorem exists_ok (h : Yields A m p mode x) (ha : A) :
    ∃ d q, p.Extends q ∧ d.Gives q mode x ∧ m.on p = (.ok d, q) := by
  obtain ⟨d, q, hpq, hd, hm | ⟨hn, _⟩⟩ := h
  · exact ⟨d, q, hpq, hd, hm⟩
  · exact absurd ha hn

theorem collect_eq (h : Yields A m p mode x) {d : Collection τ} (hm : m.on p = (.ok d, q)) :
    q.collect mode τ d.node = x.map List.flatten := by
  obtain ⟨d', q', _, hd, hm' | ⟨_, e, hm'⟩⟩ := h
  · cases hm.symm.trans hm'
    exact hd.collect_eq
  · cases hm.symm.trans hm'

end Yields

/-- Two ways of building a collection agree: where `A` holds both succeed, and whatever they build
holds the same records up to their order, or cannot be run either way. -/
structure Agree (A : Prop) (m m' : Build B (Collection τ)) (p : Pipeline B) (mode : ExecMode) :
    Prop where
  built : A → (∃ d q, m.on p = (.ok d, q)) ∧ ∃ d q, m'.on p = (.ok d, q)
  collected : ∀ d q d' q', m.on p = (.ok d, q) → m'.on p = (.ok d', q') →
    Corresponds List.Perm (q.collect mode τ d.node) (q'.collect mode τ d'.node)

theorem Yields.agree {A : Prop} {m m' : Build B (Collection τ)}
    {x y : Except RunError (List (List (Windowed τ.Carrier)))} (h : Yields A m p mode x)
    (h' : Yields A m' p mode y)
    (hxy : Corresponds List.Perm (x.map List.flatten) (y.map List.flatten)) :
    Agree A m m' p mode := by
  constructor
  · intro ha
    obtain ⟨d, q, _, _, hd⟩ := h.exists_ok ha
    obtain ⟨d', q', _, _, hd'⟩ := h'.exists_ok ha
    exact ⟨⟨d, q, hd⟩, d', q', hd'⟩
  · intro d q d' q' hd hd'
    rwa [h.collect_eq hd, h'.collect_eq hd']

end Build

namespace Collection

theorem incompatibleWith?_eq_none_iff {c : Collection σ} {cs : List (Collection σ)} :
    c.incompatibleWith? cs = none ↔ ∀ d ∈ cs, d.strategy.windowFn = c.strategy.windowFn := by
  simp only [incompatibleWith?, WindowFn.compatible, List.find?_eq_none, Bool.not_eq_true',
    beq_eq_false_iff_ne, ne_eq, not_not]

/-- Nothing is added where a collection has other windows than the first. -/
theorem on_flatten (c : Collection σ) (cs : List (Collection σ)) (p : Pipeline B) :
    (flatten (c :: cs)).on p =
      match c.incompatibleWith? cs with
      | some d => (.error (.incompatibleWindows c.strategy.windowFn d.strategy.windowFn), p)
      | none =>
        (.ok ⟨p.nodes.size, c.strategy, c.coder⟩, p.add (.flatten ((c :: cs).map node))) := by
  rw [flatten]
  cases c.incompatibleWith? cs <;> rfl

theorem on_flatten_pair {a b : Collection σ} (hw : a.strategy.windowFn = b.strategy.windowFn)
    (p : Pipeline B) : (flatten [a, b]).on p =
      (.ok ⟨p.nodes.size, a.strategy, a.coder⟩, p.add (.flatten [a.node, b.node])) := by
  have hcompatible : a.incompatibleWith? [b] = none :=
    incompatibleWith?_eq_none_iff.mpr (List.forall_mem_singleton.mpr hw.symm)
  rw [on_flatten, hcompatible]
  rfl

theorem flatten_on {a b : Collection σ} {x y : Except RunError (List (List (Windowed σ.Carrier)))}
    (ha : a.Gives p mode x) (hb : b.Gives p mode y)
    (hw : a.strategy.windowFn = b.strategy.windowFn) :
    ∃ d q, (flatten [a, b]).on p = (.ok d, q) ∧ p.Extends q ∧ d.coder = a.coder ∧
      d.Gives q mode (do
        let xs ← x
        let ys ← y
        .ok (xs ++ ys)) := by
  refine ⟨⟨p.nodes.size, a.strategy, a.coder⟩, p.add (.flatten [a.node, b.node]),
    on_flatten_pair hw p, Pipeline.extends_add p _, rfl, ?_⟩
  apply gives_add ha.wellFormed _ rfl
  · change (do
      let ins ← Pipeline.forEach (p.evaluate mode) [a.node, b.node]
      .ok ins.flatten) = _
    simp only [Pipeline.forEach, ha.evaluate, hb.evaluate]
    cases x with
    | error e => rfl
    | ok xs =>
      cases y with
      | error e => rfl
      | ok ys => simp [Except.map, bind, Except.bind, pure, Except.pure]
  · intro i hi
    rcases List.mem_pair.mp hi with rfl | rfl
    · exact ha.built
    · exact hb.built

end Collection
end KeyedFlow
