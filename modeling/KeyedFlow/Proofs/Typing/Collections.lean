import KeyedFlow.Proofs.Building
import KeyedFlow.Proofs.Typing.Graph

/-!
Collections add typed nodes. From a typed pipeline and a collection whose elements are placed by the
window function of its strategy, an element-wise stage, a grouping or a concatenation leaves a typed
pipeline and a collection that is windowed in the same way; windowing anew changes both the windows
and the strategy.
-/

set_option autoImplicit false

namespace KeyedFlow
open Outcome
variable {B : Type} [TypeFamily B] {σ τ κ ν ι α ω : ElemType B} {p q : Pipeline B} {f w : WindowFn}

namespace Pipeline

theorem typed_add (hp : p.Typed) {n : Node B} (h : (p.add n).Carries p.nodes.size τ f) :
    (p.add n).Typed := by
  intro id hid
  by_cases hlt : id < p.nodes.size
  · obtain ⟨σ, w, hold⟩ := hp id hlt
    exact ⟨σ, w, hold.mono (extends_add p n).grows⟩
  · rw [size_add] at hid
    have hlast : id = p.nodes.size := by omega
    subst hlast
    exact ⟨τ, f, h⟩

end Pipeline

/-- The elements are placed by `f`, and the strategy says so. -/
structure Collection.WindowedBy (c : Collection τ) (p : Pipeline B) (f : WindowFn) : Prop where
  carries : p.Carries c.node τ f
  strategy : c.strategy.windowFn = f

/-- An extension that keeps nodes and typing and returns a collection windowed by `f`. -/
structure Extend.Windows (m : Extend B (Collection τ)) (p : Pipeline B) (f : WindowFn) : Prop where
  grows : p.Grows (m p).2
  typed : (m p).2.Typed
  windowed : (m p).1.WindowedBy (m p).2 f

namespace Collection
variable {c d : Collection σ}

namespace WindowedBy

theorem mono (h : c.WindowedBy p f) (hpq : p.Grows q) : c.WindowedBy q f :=
  ⟨h.carries.mono hpq, h.strategy⟩

theorem of_same (h : c.WindowedBy p f) (hnode : d.node = c.node)
    (hstrategy : d.strategy.windowFn = c.strategy.windowFn) : d.WindowedBy p f := by
  constructor
  · rw [hnode]
    exact h.carries
  · rw [hstrategy, h.strategy]

theorem setCoder? (h : c.WindowedBy p f) (coder : Option (Coder σ)) :
    (c.setCoder? coder).WindowedBy p f := by
  cases coder <;> exact h.of_same rfl rfl

theorem withStrategy (h : c.WindowedBy p f) {s : WindowingStrategy} (hs : s.windowFn = f) :
    (c.withStrategy s).WindowedBy p f :=
  ⟨h.carries, hs⟩

theorem self (h : c.WindowedBy p f) : c.WindowedBy p c.strategy.windowFn := by
  rw [h.strategy]
  exact h

end WindowedBy

theorem windows_add (hp : p.Typed) {m : Extend B (Collection τ)} {n : Node B} {d : Collection τ}
    (hm : m p = (d, p.add n)) (hnode : d.node = p.nodes.size) (hd : d.strategy.windowFn = f)
    (hn : (p.add n).Carries p.nodes.size τ f) : m.Windows p f := by
  constructor <;> rw [hm]
  · exact (Pipeline.extends_add p n).grows
  · exact Pipeline.typed_add hp hn
  · exact ⟨hnode ▸ hn, hd⟩

theorem ofWindowed_windows (hp : p.Typed) {elems : List (Windowed τ.Carrier)}
    (helems : ∀ u ∈ elems, u.window = .global) : (ofWindowed τ elems).Windows p .global :=
  windows_add hp rfl rfl rfl (.source (Pipeline.getElem?_add_size p _) helems)

theorem carries_stage (h : c.WindowedBy p w) (kind : StageKind)
    {op : Nat → List (Windowed σ.Carrier) → Checked (List (Windowed τ.Carrier))}
    (hop : Moves w f op) :
    (p.add (.stage c.node (onBundle kind σ τ op))).Carries p.nodes.size τ f := by
  obtain ⟨n, hn, _⟩ := h.carries.exists_node
  exact .stage (Pipeline.getElem?_add_size p _) (Array.getElem?_eq_some_iff.mp hn).1
    (h.carries.mono (Pipeline.extends_add p _).grows) hop

theorem chain_windows (hp : p.Typed) (h : c.WindowedBy p f) (kind : StageKind)
    {op : Nat → List (Windowed σ.Carrier) → Checked (List (Windowed τ.Carrier))}
    (hop : Moves f f op) : (c.chain τ kind op).Windows p f :=
  windows_add hp rfl rfl h.strategy (carries_stage h kind hop)

theorem moves_expandEach {α β : Type} (g : α → Checked (List β)) :
    Moves f f fun _ => expandEach g := by
  apply moves_of_follows
  intro _ xs ys hys v hv
  obtain ⟨yss, hyss, hys⟩ := bind_eq_ok_iff.mp hys
  cases hys
  obtain ⟨ys, hys, hv⟩ := List.mem_flatten.mp hv
  obtain ⟨u, hu, hgu⟩ := mem_of_forall₂ (mapM_eq_ok_iff.mp hyss) hys
  obtain ⟨vs, _, hys⟩ := bind_eq_ok_iff.mp hgu
  cases hys
  obtain ⟨a, _, rfl⟩ := List.mem_map.mp hv
  exact ⟨u, hu, rfl, .inl rfl⟩

theorem map_windows (hp : p.Typed) (h : c.WindowedBy p f) (g : σ.Carrier → Checked τ.Carrier) :
    (c.map τ g).Windows p f :=
  chain_windows hp h .map (moves_expandEach _)

theorem filter_windows (hp : p.Typed) (h : c.WindowedBy p f) (keep : σ.Carrier → Checked Bool) :
    (c.filter keep).Windows p f :=
  have hout := chain_windows hp h .filter (moves_expandEach fun a => do
    let kept ← keep a
    .ok (if kept then [a] else []))
  ⟨hout.grows, hout.typed, hout.windowed.setCoder? _⟩

theorem flatMap_windows (hp : p.Typed) (h : c.WindowedBy p f)
    (g : σ.Carrier → Checked (List τ.Carrier)) : (c.flatMap τ g).Windows p f :=
  chain_windows hp h .flatMap (moves_expandEach g)

theorem moves_mapM {α β : Type} {g : Windowed α → Checked (Windowed β)}
    (hg : ∀ u v, w.Places u → g u = .ok v → f.Places v) : Moves w f fun _ xs => xs.mapM g := by
  intro _ xs ys hxs hys v hv
  obtain ⟨u, hu, hgu⟩ := mem_of_forall₂ (mapM_eq_ok_iff.mp hys) hv
  exact hg u v (hxs u hu) hgu

theorem windowInto_windows (hp : p.Typed) (h : c.WindowedBy p w) (f : WindowFn) :
    (c.windowInto f).Windows p f := by
  have hassign : Moves w f fun _ (xs : List (Windowed σ.Carrier)) => xs.mapM fun u =>
      (do
        let win ← f.assign u.timestamp
        .ok { u with window := win } : Checked (Windowed σ.Carrier)) := by
    apply moves_mapM
    intro u v _ hv
    obtain ⟨win, hwin, hv⟩ := bind_eq_ok_iff.mp hv
    cases hv
    exact WindowFn.places_assign hwin
  have hn := carries_stage h .windowed hassign
  refine ⟨(Pipeline.extends_add p _).grows, Pipeline.typed_add hp hn, ?_⟩
  exact WindowedBy.setCoder? ⟨hn, rfl⟩ _

theorem groupByKey_windows [DecidableEq κ.Carrier] [KeyBytes κ.Carrier]
    {c : Collection (.pair κ ν)} (hp : p.Typed) (h : c.WindowedBy p f) (opts : GroupingOptions ν) :
    (c.groupByKey opts).Windows p f := by
  obtain ⟨n, hn, _⟩ := h.carries.exists_node
  exact windows_add hp rfl rfl h.strategy (.grouping (Pipeline.getElem?_add_size p _)
    (Array.getElem?_eq_some_iff.mp hn).1 (h.carries.mono (Pipeline.extends_add p _).grows))

theorem withKey_windows (hp : p.Typed) (h : c.WindowedBy p f) (key : κ.Carrier) :
    (c.withKey κ key).Windows p f :=
  have hout := map_windows (τ := .pair κ σ) hp h fun v => .ok (key, v)
  ⟨hout.grows, hout.typed, hout.windowed.setCoder? _⟩

theorem values_windows {c : Collection (.pair κ ν)} (hp : p.Typed) (h : c.WindowedBy p f) :
    c.values.Windows p f :=
  have hout := map_windows (τ := ν) hp h fun e => .ok e.2
  ⟨hout.grows, hout.typed, hout.windowed.setCoder? _⟩

theorem keys_windows {c : Collection (.pair κ ν)} (hp : p.Typed) (h : c.WindowedBy p f) :
    c.keys.Windows p f :=
  have hout := map_windows (τ := κ) hp h fun e => .ok e.1
  ⟨hout.grows, hout.typed, hout.windowed.setCoder? _⟩

end Collection

namespace Build
variable {α β : Type}

/-- From `p`, building keeps all nodes and leaves a typed pipeline, also where it fails; what it
returns satisfies `P`. -/
structure Preserves (m : Build B α) (p : Pipeline B) (P : α → Pipeline B → Prop) : Prop where
  grows : p.Grows (m.on p).2
  typed : (m.on p).2.Typed
  post : ∀ a q, m.on p = (.ok a, q) → P a q

namespace Preserves
variable {m : Build B α} {P P' : α → Pipeline B → Prop} {Q : β → Pipeline B → Prop}
  {g : α → Build B β}

theorem pure (hp : p.Typed) {a : α} (h : P a p) : Preserves (Pure.pure a) p P := by
  refine ⟨.refl p, hp, ?_⟩
  rintro _ _ ⟨⟩
  exact h

theorem throw (hp : p.Typed) (e : FlowError) : Preserves (MonadExcept.throw e) p P := by
  refine ⟨.refl p, hp, ?_⟩
  rintro _ _ ⟨⟩

theorem bind (hm : Preserves m p P)
    (hg : ∀ a q, p.Grows q → q.Typed → P a q → Preserves (g a) q Q) : Preserves (m >>= g) p Q := by
  obtain ⟨hgrows, htyped, hpost⟩ := hm
  cases h : m.on p with
  | mk x q =>
    rw [h] at hgrows htyped
    cases x with
    | error e =>
      have hon : (m >>= g).on p = (.error e, q) := on_bind_error h
      refine ⟨hon ▸ hgrows, hon ▸ htyped, ?_⟩
      intro b r hb
      cases hon.symm.trans hb
    | ok a =>
      obtain ⟨hgrows', htyped', hpost'⟩ := hg a q hgrows htyped (hpost a q h)
      have hon : (m >>= g).on p = (g a).on q := on_bind h
      refine ⟨hon ▸ hgrows.trans hgrows', hon ▸ htyped', ?_⟩
      intro b r hb
      exact hpost' b r (hon ▸ hb)

theorem imp (h : Preserves m p P) (hP : ∀ a q, P a q → P' a q) : Preserves m p P' :=
  ⟨h.grows, h.typed, fun a q ha => hP a q (h.post a q ha)⟩

theorem of_eq {m' : Build B α} (h : Preserves m p P) (heq : m'.on p = m.on p) :
    Preserves m' p P := by
  constructor <;> rw [heq]
  · exact h.grows
  · exact h.typed
  · exact h.post

theorem get {g : Pipeline B → Build B β} (h : Preserves (g p) p Q) :
    Preserves (MonadState.get >>= g) p Q :=
  ⟨h.grows, h.typed, h.post⟩

theorem ofExcept (hp : p.Typed) {x : Except FlowError α} (h : ∀ a, x = .ok a → P a p) :
    Preserves (Build.ofExcept x) p P := by
  cases x with
  | ok a => exact pure hp (h a rfl)
  | error e => exact throw hp e

theorem collect (hp : p.Typed) (c : Collection τ) (mode : ExecMode) :
    Preserves (c.collect mode) p fun _ _ => True := by
  unfold Collection.collect
  apply get
  split
  · exact pure hp trivial
  · exact throw hp _

end Preserves

end Build

theorem Extend.Windows.preserves {m : Extend B (Collection τ)} (h : m.Windows p f) :
    Build.Preserves (Build.extend m) p fun d q => d.WindowedBy q f := by
  refine ⟨h.grows, h.typed, ?_⟩
  rintro _ _ ⟨⟩
  exact h.windowed

namespace Collection

theorem flatten_preserves (hp : p.Typed) {c : Collection σ} {cs : List (Collection σ)}
    (hcs : ∀ d ∈ c :: cs, d.WindowedBy p d.strategy.windowFn) :
    Build.Preserves (flatten (c :: cs)) p fun d q => d.WindowedBy q c.strategy.windowFn := by
  rw [flatten]
  split
  · exact .throw hp _
  · rename_i hincompatible
    have hwindows : ∀ d ∈ c :: cs, d.WindowedBy p c.strategy.windowFn := by
      intro d hd
      rcases List.mem_cons.mp hd with rfl | hmem
      · exact hcs d hd
      · rw [← incompatibleWith?_eq_none_iff.mp hincompatible d hmem]
        exact hcs d hd
    have hn : (p.add (.flatten ((c :: cs).map node))).Carries p.nodes.size σ
        c.strategy.windowFn := by
      apply Pipeline.Carries.flatten (Pipeline.getElem?_add_size p _)
      · intro i hi
        obtain ⟨d, hd, rfl⟩ := List.mem_map.mp hi
        obtain ⟨n, hn, _⟩ := (hwindows d hd).carries.exists_node
        exact (Array.getElem?_eq_some_iff.mp hn).1
      · intro i hi
        obtain ⟨d, hd, rfl⟩ := List.mem_map.mp hi
        exact (hwindows d hd).carries.mono (Pipeline.extends_add p _).grows
    refine ⟨(Pipeline.extends_add p _).grows, Pipeline.typed_add hp hn, ?_⟩
    rintro _ _ ⟨⟩
    exact ⟨hn, rfl⟩

end Collection
end KeyedFlow
