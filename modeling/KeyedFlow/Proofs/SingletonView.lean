import KeyedFlow.Proofs.Globally

/-!
The combine of a whole collection as a lookup. Every window that holds an element has one output, so
no window is ambiguous: asking for it gives that output, and asking for any other window gives the
default or the failure that the view is empty there. As a side input the view never shows the
default; a window without an element shows what the global window holds.
-/

set_option autoImplicit false

namespace KeyedFlow
open Outcome
variable {B : Type} [TypeFamily B] {ι α ω : ElemType B} {p : Pipeline B}

namespace SingletonView
variable {v : SingletonView ω} {w : Window}

theorem get_of_find?_eq_some {o : ω.Carrier} (h : v.byWindow.find? w = some [o]) :
    v.get w = .ok o := by
  rw [get, h]
  rfl

theorem get_of_find?_eq_none (h : v.byWindow.find? w = none) :
    v.get w = match v.default with
      | some d => .ok d
      | none => .error (.emptySingletonView w) := by
  rw [get, h]
  rfl

theorem valuesFor_toSideInput (hv : v.byWindow.keys.Nodup) (id : Nat) (w : Window) :
    (v.toSideInput id).valuesFor w =
      ((v.byWindow.find? w).orElse fun _ => v.byWindow.find? .global).getD [] := by
  change (((Groups.join [v.byWindow]).find? w).orElse fun _ =>
    (Groups.join [v.byWindow]).find? .global).getD [] = _
  rw [Groups.find?_join_singleton w hv, Groups.find?_join_singleton .global hv]

/-- What a view says of the combine of `rs`: every window that holds an element has one value. -/
structure Answers (v : SingletonView ω) (t : Globally ι α ω) (rs : List (Windowed ι.Carrier)) :
    Prop where
  unambiguous : ∀ w u n, v.get w ≠ .error (.ambiguousSingletonView u n)
  present : ∀ w ∈ windowsOf rs, ∃ o, t.combiner.apply (valuesIn w rs) = .ok o ∧ v.get w = .ok o
  absent : ∀ w, w ∉ windowsOf rs → t.insertDefault = true →
    ∃ d, t.combiner.default = .ok d ∧ v.get w = .ok d
  empty : ∀ w, w ∉ windowsOf rs → t.insertDefault = false →
    v.get w = .error (.emptySingletonView w)
  nodup : v.windows.Nodup
  mem_windows : ∀ w, w ∈ v.windows ↔ w ∈ windowsOf rs
  side : ∀ id, ∀ w ∈ windowsOf rs, ∃ o, v.get w = .ok o ∧ (v.toSideInput id).valuesFor w = [o]
  side_global : ∀ id w, w ∉ windowsOf rs → .global ∈ windowsOf rs →
    ∃ o, v.get .global = .ok o ∧ (v.toSideInput id).valuesFor w = [o]
  side_none : ∀ id w, w ∉ windowsOf rs → .global ∉ windowsOf rs →
    (v.toSideInput id).valuesFor w = []

/-- Every window of `windows` has one value, admitted by `P`, and no other window has any. -/
structure Tabulates (g : Groups Window ω.Carrier) (windows : List Window)
    (P : Window → ω.Carrier → Prop) : Prop where
  nodup : g.keys.Nodup
  mem_iff : ∀ w, w ∈ g.keys ↔ w ∈ windows
  one : ∀ w ∈ windows, ∃ o, P w o ∧ g.find? w = some [o]

theorem tabulates_ofList {windows : List Window} {P : Window → ω.Carrier → Prop}
    {elems : List (Windowed ω.Carrier)} (h : OnePerWindow windows P elems) :
    Tabulates (Groups.ofList (elems.map fun u => (u.window, u.value))) windows P := by
  have hmem : ∀ w, w ∈ (Groups.ofList (elems.map fun u => (u.window, u.value))).keys ↔
      w ∈ windows := by
    intro w
    rw [Groups.mem_keys_ofList, List.map_map]
    exact h.mem_iff w
  refine ⟨Groups.nodup_keys_ofList _, hmem, fun w hw => ?_⟩
  obtain ⟨o, ho, hvalues⟩ := h.valuesIn_of_mem hw
  refine ⟨o, ho, ?_⟩
  rw [Groups.find?_of_mem (Groups.nodup_keys_ofList _) ((hmem w).mpr hw), Groups.values_ofList,
    List.filter_map, List.map_map]
  exact congrArg some hvalues

theorem answers_of_tabulates {t : Globally ι α ω} {rs : List (Windowed ι.Carrier)}
    (h : Tabulates v.byWindow (windowsOf rs) fun w o => t.combiner.apply (valuesIn w rs) = .ok o)
    (hdefault : if t.insertDefault then ∃ d, t.combiner.default = .ok d ∧ v.default = some d
      else v.default = none) : v.Answers t rs := by
  have hsome : ∀ w ∈ windowsOf rs, ∃ o, t.combiner.apply (valuesIn w rs) = .ok o ∧
      v.byWindow.find? w = some [o] := h.one
  have hnone : ∀ w, w ∉ windowsOf rs → v.byWindow.find? w = none :=
    fun w hw => Groups.find?_of_not_mem (mt (h.mem_iff w).mp hw)
  refine ⟨?_, ?_, ?_, ?_, h.nodup, h.mem_iff, ?_, ?_, ?_⟩
  · intro w u n hget
    by_cases hw : w ∈ windowsOf rs
    · obtain ⟨o, -, ho⟩ := hsome w hw
      cases (get_of_find?_eq_some ho).symm.trans hget
    · rw [get_of_find?_eq_none (hnone w hw)] at hget
      split at hget <;> cases hget
  · intro w hw
    obtain ⟨o, happly, ho⟩ := hsome w hw
    exact ⟨o, happly, get_of_find?_eq_some ho⟩
  · intro w hw hon
    rw [if_pos hon] at hdefault
    obtain ⟨d, hd, hv⟩ := hdefault
    exact ⟨d, hd, by rw [get_of_find?_eq_none (hnone w hw), hv]⟩
  · intro w hw hoff
    rw [if_neg (by simp [hoff])] at hdefault
    rw [get_of_find?_eq_none (hnone w hw), hdefault]
  · intro id w hw
    obtain ⟨o, -, ho⟩ := hsome w hw
    exact ⟨o, get_of_find?_eq_some ho, by rw [valuesFor_toSideInput h.nodup, ho]; rfl⟩
  · intro id w hw hglobal
    obtain ⟨o, -, ho⟩ := hsome .global hglobal
    refine ⟨o, get_of_find?_eq_some ho, ?_⟩
    rw [valuesFor_toSideInput h.nodup, hnone w hw, ho]
    rfl
  · intro id w hw hglobal
    rw [valuesFor_toSideInput h.nodup, hnone w hw, hnone .global hglobal]
    rfl

end SingletonView

namespace Globally
variable {t : Globally ι α ω} {c : Collection ι}

/-- The view of a combine has one value for each window that holds an element, whatever the windowing
and however many shards combine in advance; it can be had whenever these values can. -/
theorem asSingletonView_answers {bundles : List (List (Windowed ι.Carrier))}
    (h : c.Gives p .sequential (.ok bundles))
    (hadmits : t.Admits p.coders (c.elementCoderIn p.coders) bundles.flatten) :
    Build.Meets ((t.combiner.keyed .unit).AdmitsOutput p.coders ∧
        (∀ w ∈ windowsOf bundles.flatten,
          (∃ o, t.combiner.apply (valuesIn w bundles.flatten) = .ok o) ∧
            ∃ ts, w.maxTimestamp = .ok ts) ∧
        (t.insertDefault = true → ∃ d, t.combiner.default = .ok d))
      (t.asSingletonView c) p fun v _ => v.Answers t bundles.flatten := by
  refine ((combineWindows_meets h hadmits).weaken And.left).bind ?_
  rintro d q ⟨-, -, y, hd, hrun⟩
  rw [← hd.collect_eq] at hrun
  refine (Build.Meets.collect fun hall => hrun.ok_iff.mpr hall.2.1).bind ?_
  rintro elems r ⟨rfl, helems⟩
  have htable := SingletonView.tabulates_ofList (hrun.onePerWindow elems helems)
  cases hdefault : t.insertDefault with
  | false =>
    rw [if_neg Bool.false_ne_true]
    refine .of_ok rfl (SingletonView.answers_of_tabulates htable ?_)
    rw [hdefault]
    rfl
  | true =>
    rw [if_pos rfl]
    cases hd : t.combiner.default with
    | error f =>
      refine .ofExcept_error_bind ?_
      rintro ⟨-, -, hsome⟩
      obtain ⟨d, hd'⟩ := hsome rfl
      cases hd'
    | ok d =>
      refine .ofExcept_bind (.of_ok rfl (SingletonView.answers_of_tabulates htable ?_))
      rw [hdefault]
      exact ⟨d, hd, rfl⟩

/-- Readings in two windows, that of the second one between those of the first. -/
def readings : List (Windowed (ElemType.uint32 : Sample.Ty).Carrier) :=
  [⟨3, 1, .interval ⟨0, 10⟩⟩, ⟨1, 12, .interval ⟨10, 20⟩⟩, ⟨2, 4, .interval ⟨0, 10⟩⟩]

def readingSource : Collection (.uint32 : Sample.Ty) × Pipeline Sample.Own :=
  Collection.ofWindowed .uint32 readings Pipeline.new

theorem readingSource_gives : readingSource.1.Gives readingSource.2 .sequential
    (.ok (splitInto (min ExecMode.sequential.parts (max readings.length 1)) readings)) :=
  Collection.gives_source (Collection.wellFormed_ofWindowed Pipeline.wellFormed_new readings)
    (Collection.getElem?_ofWindowed readings)

theorem asSingletonView_answers_of_readings :
    ∃ v q, ((total true).asSingletonView readingSource.1).on readingSource.2 = (.ok v, q) ∧
      v.Answers (total true) readings ∧ v.get (.interval ⟨0, 10⟩) = .ok (5 : UInt32) ∧
      v.get .global = .ok (0 : UInt32) := by
  have hview := asSingletonView_answers readingSource_gives (total_admits true _ _)
  rw [flatten_splitInto] at hview
  have hvalues : ∀ w ∈ windowsOf readings,
      (∃ o, (total true).combiner.apply (valuesIn w readings) = .ok o) ∧
        ∃ ts, w.maxTimestamp = .ok ts := by
    intro w hw
    rcases List.mem_cons.mp hw with rfl | hw
    · exact ⟨⟨(5 : UInt32), rfl⟩, 9, rfl⟩
    · rcases List.mem_pair.mp hw with rfl | rfl
      · exact ⟨⟨(1 : UInt32), rfl⟩, 19, rfl⟩
      · exact ⟨⟨(5 : UInt32), rfl⟩, 9, rfl⟩
  obtain ⟨v, q, hv⟩ := hview.succeeds
    ⟨fun _ _ _ he => isCannotProvide_of_inputOrRegistered he, hvalues, fun _ => ⟨0, rfl⟩⟩
  have hanswers := hview.post v q hv
  refine ⟨v, q, hv, hanswers, ?_, ?_⟩
  · obtain ⟨o, ho, hget⟩ := hanswers.present (.interval ⟨0, 10⟩) (by decide)
    cases ho
    exact hget
  · obtain ⟨d, hd, hget⟩ := hanswers.absent .global (by decide) rfl
    cases hd
    exact hget

end Globally
end KeyedFlow
