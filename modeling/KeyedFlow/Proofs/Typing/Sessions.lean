import KeyedFlow.Proofs.Typing.Transforms
import KeyedFlow.Sample.Combiners
import KeyedFlow.Session

/-!
Every session is typed. One operation on collections of the session keeps the graph typed and every
collection in the windows of its strategy, and so does any number of them; the elements of each
collection that can be collected then lie where its strategy puts them. Collections of another
session void this: their numbers stand for other nodes.
-/

set_option autoImplicit false

namespace KeyedFlow
open Outcome
variable {B : Type} [TypeFamily B] {τ : ElemType B} {p q : Pipeline B} {f : WindowFn}
  {s t : Session B}

/-- The elements are placed by the window function of the strategy. -/
def AnyCollection.Settled (p : Pipeline B) (c : AnyCollection B) : Prop :=
  c.2.WindowedBy p c.2.strategy.windowFn

namespace Operation

theorem making_preserves {m : Build B (Collection τ)}
    (h : Build.Preserves m p fun d q => d.WindowedBy q f) :
    Build.Preserves (making m) p fun made q => ∀ c ∈ made, AnyCollection.Settled q c := by
  apply h.bind
  intro d q _ hq hd
  apply Build.Preserves.pure hq
  intro c hc
  rcases List.mem_singleton.mp hc with rfl
  exact hd.self

theorem registerCoder_preserves (hp : p.Typed) (coder : Coder τ) :
    Build.Preserves (registerCoder coder).run p fun made _ => made = [] := by
  have hgrows : p.Grows (p.registerCoder coder) := fun _ _ hn => hn
  refine ⟨hgrows, ?_, ?_⟩
  · intro id hid
    obtain ⟨τ, f, h⟩ := hp id hid
    exact ⟨τ, f, h.mono hgrows⟩
  · rintro _ _ ⟨⟩
    rfl

theorem run_preserves (hp : p.Typed) (op : Operation B)
    (hop : ∀ c ∈ op.inputs, AnyCollection.Settled p c) :
    Build.Preserves op.run p fun made q => ∀ c ∈ made, AnyCollection.Settled q c := by
  have input {σ : ElemType B} {c : Collection σ} (hc : op.inputs = [⟨σ, c⟩]) :
      c.WindowedBy p c.strategy.windowFn := hop ⟨σ, c⟩ (by rw [hc]; exact List.mem_singleton_self _)
  cases op with
  | ofList τ elems =>
    apply making_preserves (Collection.ofWindowed_windows hp _).preserves
    intro u hu
    obtain ⟨a, _, rfl⟩ := List.mem_map.mp hu
    rfl
  | ofTimestamped τ elems =>
    apply making_preserves (Collection.ofWindowed_windows hp _).preserves
    intro u hu
    obtain ⟨a, _, rfl⟩ := List.mem_map.mp hu
    rfl
  | map c τ g => exact making_preserves (Collection.map_windows hp (input rfl) g).preserves
  | filter c keep =>
    exact making_preserves (Collection.filter_windows hp (input rfl) keep).preserves
  | flatMap c τ g => exact making_preserves (Collection.flatMap_windows hp (input rfl) g).preserves
  | keyBy c κ key =>
    exact making_preserves
      (Collection.map_windows (τ := .pair κ _) hp (input rfl) _).preserves
  | withKey c κ key =>
    exact making_preserves (Collection.withKey_windows hp (input rfl) key).preserves
  | keys c => exact making_preserves (Collection.keys_windows hp (input rfl)).preserves
  | values c => exact making_preserves (Collection.values_windows hp (input rfl)).preserves
  | @mapValues κ ν c τ g =>
    exact making_preserves
      (Collection.map_windows (τ := .pair κ τ) hp (input rfl) _).preserves
  | setCoder c coder => exact making_preserves (.pure hp ((input rfl).of_same rfl rfl))
  | withAccumulationMode c m => exact making_preserves (.pure hp ((input rfl).of_same rfl rfl))
  | windowInto c g =>
    exact making_preserves (Collection.windowInto_windows hp (input rfl) g).preserves
  | flatten cs =>
    cases cs with
    | nil => exact making_preserves (f := .global) (.throw hp _)
    | cons c cs =>
      apply making_preserves (Collection.flatten_preserves hp _)
      intro d hd
      exact hop ⟨_, d⟩ (List.mem_map_of_mem hd)
  | groupByKey c opts =>
    exact making_preserves (Collection.groupByKey_windows hp (input rfl) opts).preserves
  | combineGrouped c g => exact making_preserves (g.expand_preserves hp (input rfl))
  | combinePerKey c g => exact making_preserves (g.expand_preserves hp (input rfl))
  | combineGlobally c g => exact making_preserves (g.expand_preserves hp (input rfl))
  | viewGlobally c g =>
    apply (g.asSingletonView_preserves hp (input rfl)).bind
    intro _ q _ hq _
    exact .pure hq fun _ hc => absurd hc List.not_mem_nil
  | registerCoder coder =>
    apply (registerCoder_preserves hp coder).imp
    rintro made q rfl c hc
    exact absurd hc List.not_mem_nil

end Operation

namespace Session

theorem Leads.after {allowed : Session B → Operation B → Prop} (h : Leads allowed s t)
    {op : Operation B} (hop : allowed t op) : Leads allowed s (t.after op) :=
  h.tail ⟨op, hop, rfl⟩

theorem Leads.keeps {allowed : Session B → Operation B → Prop} {I : Session B → Prop}
    (h : Leads allowed s t) (hs : I s)
    (hstep : ∀ u op, allowed u op → I u → I (u.after op)) : I t := by
  induction h with
  | refl => exact hs
  | @tail u _ _ h ih =>
    obtain ⟨op, hop, rfl⟩ := h
    exact hstep u op hop ih

theorem owns_of_inputs {op : Operation B} {c : AnyCollection B} (hc : op.inputs = [c])
    (hs : c ∈ s.collections) : s.Owns op := by
  intro d hd
  rw [hc] at hd
  rcases List.mem_singleton.mp hd with rfl
  exact hs

structure Typed (s : Session B) : Prop where
  pipeline : s.pipeline.Typed
  collections : ∀ c ∈ s.collections, AnyCollection.Settled s.pipeline c

theorem typed_new : (new : Session B).Typed :=
  ⟨Pipeline.typed_new, fun _ hc => absurd hc List.not_mem_nil⟩

theorem after_cases (s : Session B) (op : Operation B) :
    (∃ made q, op.run.on s.pipeline = (.ok made, q) ∧ s.after op = ⟨q, made ++ s.collections⟩) ∨
      ∃ e q, op.run.on s.pipeline = (.error e, q) ∧ s.after op = ⟨q, s.collections⟩ := by
  unfold after
  rcases h : op.run.on s.pipeline with ⟨_ | made, q⟩
  · rename_i e
    exact .inr ⟨e, q, rfl, by rw [← Build.on, h]⟩
  · exact .inl ⟨made, q, rfl, by rw [← Build.on, h]⟩

theorem Typed.after (hs : s.Typed) {op : Operation B} (hop : s.Owns op) :
    (s.after op).Typed ∧ s.pipeline.Grows (s.after op).pipeline ∧
      ∀ c ∈ s.collections, c ∈ (s.after op).collections := by
  obtain ⟨hgrows, htyped, hpost⟩ :=
    op.run_preserves hs.pipeline fun c hc => hs.collections c (hop c hc)
  have hold : ∀ c ∈ s.collections, AnyCollection.Settled (op.run.on s.pipeline).2 c :=
    fun c hc => (hs.collections c hc).mono hgrows
  rcases after_cases s op with ⟨made, q, hq, hafter⟩ | ⟨e, q, hq, hafter⟩
  · rw [hafter]
    rw [hq] at hgrows htyped hold
    refine ⟨⟨htyped, ?_⟩, hgrows, fun c hc => List.mem_append_right made hc⟩
    intro c hc
    rcases List.mem_append.mp hc with hc | hc
    · exact hpost made q hq c hc
    · exact hold c hc
  · rw [hafter]
    rw [hq] at hgrows htyped hold
    exact ⟨⟨htyped, hold⟩, hgrows, fun c hc => hc⟩

theorem Typed.leads (hs : s.Typed) (h : Leads Owns s t) :
    t.Typed ∧ s.pipeline.Grows t.pipeline ∧ ∀ c ∈ s.collections, c ∈ t.collections := by
  apply h.keeps (I := fun u => u.Typed ∧ s.pipeline.Grows u.pipeline ∧
    ∀ c ∈ s.collections, c ∈ u.collections)
  · exact ⟨hs, .refl _, fun c hc => hc⟩
  · intro u op hop hu
    obtain ⟨ht, hgrows, hkeeps⟩ := hu
    obtain ⟨hafter, hgrows', hkeeps'⟩ := ht.after hop
    exact ⟨hafter, hgrows.trans hgrows', fun c hc => hkeeps' c (hkeeps c hc)⟩

/-- Whatever the operations were and whichever of them failed, the elements of a collection lie
where its strategy puts them. -/
theorem collect_places (h : Leads Owns new s) {c : AnyCollection B} (hc : c ∈ s.collections)
    {mode : ExecMode} {elems : List (Windowed c.1.Carrier)}
    (helems : s.pipeline.collect mode c.1 c.2.node = .ok elems) :
    ∀ u ∈ elems, c.2.strategy.windowFn.Places u ∧
      ∀ w, c.2.strategy.windowFn.assign u.timestamp = .ok w → w = u.window := by
  have hs := (typed_new.leads h).1
  have hdelivers := (hs.collections c hc).carries.delivers hs.pipeline.wellFormed mode
  intro u hu
  have hplaces := hdelivers.places_of_collect helems u hu
  exact ⟨hplaces, fun w hw => hplaces.assign_eq hw⟩

section Summed

def grid : WindowFn := .fixed ⟨10, 3, by decide⟩

def dated : Session Sample.Own := new.after <| .ofTimestamped (.pair .string .uint32)
  [⟨4, ("a", 1)⟩, ⟨5, ("a", 2)⟩, ⟨25, ("b", 3)⟩, ⟨1, ("a", 4)⟩]

def datedWords : Collection (.pair .string .uint32 : Sample.Ty) := ⟨0, .global, none⟩

def tumbled : Session Sample.Own := dated.after (.windowInto datedWords grid)

def tumbledWords : Collection (.pair .string .uint32 : Sample.Ty) :=
  ⟨1, ⟨grid, .discarding⟩, none⟩

def summed : Session Sample.Own := tumbled.after
  (.combinePerKey tumbledWords { combiner := PerKey.sums, spread := some fun _ => 2 })

def summedWords : Collection (.pair .string .uint32 : Sample.Ty) :=
  ⟨10, ⟨grid, .discarding⟩, some (.pair .string .uint32)⟩

theorem leads_summed : Leads Owns new summed := by
  have hdated : Leads Owns new dated :=
    Leads.after .refl fun _ hc => absurd hc List.not_mem_nil
  have htumbled : Leads Owns new tumbled :=
    hdated.after (owns_of_inputs (c := ⟨_, datedWords⟩) rfl List.mem_cons_self)
  exact htumbled.after (owns_of_inputs (c := ⟨_, tumbledWords⟩) rfl List.mem_cons_self)

theorem collect_places_of_summed : ∃ elems, elems.length = 3 ∧
    summed.pipeline.collect .sequential (.pair .string .uint32) summedWords.node = .ok elems ∧
    ∀ u ∈ elems, grid.Places u ∧ ∀ w, grid.assign u.timestamp = .ok w → w = u.window := by
  have hcollect : summed.pipeline.collect .sequential (.pair .string .uint32) summedWords.node =
      .ok [⟨("a", 3), 12, .interval ⟨3, 13⟩⟩, ⟨("b", 3), 32, .interval ⟨23, 33⟩⟩,
        ⟨("a", 4), 2, .interval ⟨-7, 3⟩⟩] := by decide +kernel
  exact ⟨_, rfl, hcollect, collect_places leads_summed (c := ⟨_, summedWords⟩) List.mem_cons_self
    hcollect⟩

end Summed

section Foreign

def first : Collection (.int64 : Sample.Ty) := ⟨0, .global, some .int64⟩

def windowed : Session Sample.Own :=
  (new.after (.ofTimestamped .int64 [⟨1, 10⟩])).after
    (.windowInto first (.fixed ⟨10, 0, by decide⟩))

/-- Another session, whose second node is not windowed. -/
def elsewhere : Session Sample.Own :=
  (new.after (.ofList .int64 [9])).after (.map first .int64 fun a => Word.add a 1)

def foreign : Collection (.int64 : Sample.Ty) := ⟨1, .global, none⟩

/-- The operation is only given collections that some session made. -/
def Given (_ : Session B) (op : Operation B) : Prop :=
  ∀ c ∈ op.inputs, ∃ t, Leads Owns new t ∧ c ∈ t.collections

theorem Leads.given (h : Leads Owns new s) : Leads Given new s := by
  have hboth := h.keeps (I := fun t => Leads Owns new t ∧ Leads Given new t) ⟨.refl, .refl⟩ <| by
    intro t op hop ht
    exact ⟨ht.1.after hop, ht.2.after fun c hc => ⟨t, ht.1, hop c hc⟩⟩
  exact hboth.2

/-- Concatenation takes a collection of another pipeline for the node of the same number. -/
theorem not_collect_places_of_foreign : ¬∀ s : Session Sample.Own, Leads Given new s →
    ∀ c ∈ s.collections, ∀ mode elems, s.pipeline.collect mode c.1 c.2.node = .ok elems →
      ∀ u ∈ elems, c.2.strategy.windowFn.Places u := by
  intro h
  have hwindowed : Leads Owns new windowed :=
    (Leads.after .refl fun _ hc => absurd hc List.not_mem_nil).after
      (owns_of_inputs (c := ⟨_, first⟩) rfl List.mem_cons_self)
  have helsewhere : Leads Owns new elsewhere :=
    (Leads.after .refl fun _ hc => absurd hc List.not_mem_nil).after
      (owns_of_inputs (c := ⟨_, first⟩) rfl List.mem_cons_self)
  have hflat : Leads Given new (windowed.after (.flatten [first, foreign])) := by
    apply hwindowed.given.after
    intro c hc
    rcases List.mem_pair.mp hc with rfl | rfl
    · exact ⟨windowed, hwindowed, List.mem_cons_of_mem _ List.mem_cons_self⟩
    · exact ⟨elsewhere, helsewhere, List.mem_cons_self⟩
  have hcollect : (windowed.after (.flatten [first, foreign])).pipeline.collect .sequential
      .int64 2 = .ok [⟨10, 1, .global⟩, ⟨10, 1, .interval ⟨0, 10⟩⟩] := rfl
  have hplaces := h _ hflat ⟨.int64, 2, .global, some .int64⟩ List.mem_cons_self _ _ hcollect
    ⟨10, 1, .interval ⟨0, 10⟩⟩ (List.mem_cons_of_mem _ List.mem_cons_self)
  cases hplaces

end Foreign

end Session
end KeyedFlow
