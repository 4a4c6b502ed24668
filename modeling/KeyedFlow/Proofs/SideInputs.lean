import KeyedFlow.Proofs.Groups
import KeyedFlow.Sample.Scalar
import KeyedFlow.SideInput

/-!
What a combine sees of its side inputs. In the context of a group a registered side input shows the
values it was given for the window of the group, joined in order; a window it does not name shows
those of the global one. Naming a window without values is not the same as leaving it out. The table
of a context holds values of many types, but the identity of a side input leads to its own only, so
what else is registered, and in which order, makes no difference.
-/

set_option autoImplicit false

namespace KeyedFlow
variable {B : Type} [TypeFamily B]

structure SideSource (B : Type) [TypeFamily B] where
  id : Nat
  type : ElemType B
  perWindow : List (Window × List type.Carrier)

namespace SideSource

def sideInput (p : SideSource B) : SideInput p.type := .windowed p.id p.perWindow

/-- The values given for `w`, else those given for the global window. -/
def visible (p : SideSource B) (w : Window) : List p.type.Carrier :=
  if w ∈ Groups.keys p.perWindow then Groups.values w p.perWindow
  else if .global ∈ Groups.keys p.perWindow then Groups.values .global p.perWindow
  else []

def registerAll (ps : List (SideSource B)) : SideInputs B :=
  ps.foldl (fun s p => s.and p.sideInput) .none

theorem valuesFor_sideInput (p : SideSource B) (w : Window) :
    p.sideInput.valuesFor w = p.visible w := by
  rw [SideInput.valuesFor, sideInput, SideInput.windowed, Groups.find?_join_entries,
    Groups.find?_join_entries, visible]
  split
  · rfl
  · split <;> rfl

theorem registered_registerAll (ps : List (SideSource B)) :
    (registerAll ps).registered = ps.map fun p => ⟨p.type, p.sideInput⟩ := by
  have honto (s : SideInputs B) : (ps.foldl (fun s p => s.and p.sideInput) s).registered =
      s.registered ++ ps.map fun p => ⟨p.type, p.sideInput⟩ := by
    induction ps generalizing s with
    | nil => exact (List.append_nil _).symm
    | cons p ps ih =>
      rw [List.foldl_cons, ih, List.map_cons, SideInputs.and, List.append_assoc]
      rfl
  exact honto .none

/-- What a side input shows in a context, told apart from others by its identity alone. -/
def resolved (w : Window) (p : SideSource B) : ResolvedSide B := ⟨p.id, p.type, p.visible w⟩

theorem resolved_registerAll (ps : List (SideSource B)) (w : Window) :
    ((registerAll ps).resolve w).resolved = ps.map (resolved w) := by
  rw [SideInputs.resolve, registered_registerAll, List.map_map]
  refine List.map_congr_left fun p _ => ?_
  rw [resolved, ← valuesFor_sideInput]
  rfl

section Read
variable {ps : List (SideSource B)} {p : SideSource B} {w : Window}

theorem sideInput?_eq (ps : List (SideSource B)) (p : SideSource B) (w : Window) :
    ((registerAll ps).resolve w).sideInput? p.sideInput =
      match (ps.find? fun q => q.id = p.id).map (resolved w) with
      | some r => if h : r.type = p.type then some (h ▸ r.values) else none
      | none => none := by
  rw [CombineContext.sideInput?, resolved_registerAll, List.find?_map]
  rfl

/-- The table may hold the same side input several times, but no other under its identity. -/
theorem sideInput?_of_mem (hp : p ∈ ps) (hid : ∀ q ∈ ps, q.id = p.id → q = p) :
    ((registerAll ps).resolve w).sideInput? p.sideInput = some (p.visible w) := by
  rw [sideInput?_eq]
  cases hq : ps.find? fun q => q.id = p.id with
  | none => exact absurd (decide_eq_true rfl) (List.find?_eq_none.mp hq p hp)
  | some q =>
    have hqid : q.id = p.id := by simpa using List.find?_some hq
    obtain rfl := hid q (List.mem_of_find?_eq_some hq) hqid
    exact dif_pos rfl

theorem sideInput?_of_not_mem (hp : p ∉ ps) (hid : ∀ q ∈ ps, q.id = p.id → q = p) :
    ((registerAll ps).resolve w).sideInput? p.sideInput = none := by
  rw [sideInput?_eq]
  cases hq : ps.find? fun q => q.id = p.id with
  | none => rfl
  | some q =>
    have hqid : q.id = p.id := by simpa using List.find?_some hq
    have hmem : q ∈ ps := List.mem_of_find?_eq_some hq
    exact absurd (hid q hmem hqid ▸ hmem) hp

/-- A registered side input shows what it was given for the window or else for the global one, and
one that is not registered shows nothing, whatever is registered besides and in whichever order. -/
theorem sideInput?_resolves (ps : List (SideSource B)) (p : SideSource B) (w : Window)
    (hid : ∀ q ∈ ps, q.id = p.id → q = p) :
    (p ∈ ps → ((registerAll ps).resolve w).sideInput? p.sideInput = some (p.visible w)) ∧
    (p ∉ ps → ((registerAll ps).resolve w).sideInput? p.sideInput = none) ∧
    ∀ qs : List (SideSource B), (∀ q ∈ qs, q.id = p.id → q = p) → (p ∈ ps ↔ p ∈ qs) →
      ((registerAll ps).resolve w).sideInput? p.sideInput =
        ((registerAll qs).resolve w).sideInput? p.sideInput := by
  refine ⟨fun hp => sideInput?_of_mem hp hid, fun hp => sideInput?_of_not_mem hp hid, ?_⟩
  intro qs hqs hsame
  by_cases hp : p ∈ ps
  · rw [sideInput?_of_mem hp hid, sideInput?_of_mem (hsame.mp hp) hqs]
  · rw [sideInput?_of_not_mem hp hid, sideInput?_of_not_mem (mt hsame.mpr hp) hqs]

end Read

/-- Numbers for two windows, one of them named twice, and none at all for a third. -/
def limits : SideSource Sample.Own where
  id := 1
  type := .uint32
  perWindow := [(.global, [9]), (.interval ⟨0, 10⟩, [1]), (.interval ⟨10, 20⟩, []),
    (.interval ⟨0, 10⟩, [2])]

def labels : SideSource Sample.Own := ⟨2, .string, [(.global, ["all"])]⟩

/-- The limits are registered twice, with the labels in between. -/
def registrations : List (SideSource Sample.Own) := [limits, labels, limits]

theorem sideInput?_resolves_of_limits :
    ((registerAll registrations).resolve (.interval ⟨0, 10⟩)).sideInput? limits.sideInput =
      some [(1 : UInt32), 2] ∧
    ((registerAll registrations).resolve (.interval ⟨10, 20⟩)).sideInput? limits.sideInput =
      some ([] : List UInt32) ∧
    ((registerAll registrations).resolve (.interval ⟨20, 30⟩)).sideInput? limits.sideInput =
      some [(9 : UInt32)] ∧
    ((registerAll [labels]).resolve .global).sideInput? limits.sideInput = none := by
  have hid (q : SideSource Sample.Own) (hq : q ∈ registrations) (h : q.id = limits.id) :
      q = limits := by
    simp only [registrations, List.mem_cons, List.not_mem_nil, or_false] at hq
    rcases hq with rfl | rfl | rfl
    · rfl
    · cases h
    · rfl
  have hunknown (q : SideSource Sample.Own) (hq : q ∈ [labels]) (h : q.id = limits.id) :
      q = limits := by
    cases List.mem_singleton.mp hq
    cases h
  have hshown (w : Window) :=
    (sideInput?_resolves registrations limits w hid).1 List.mem_cons_self
  have hhidden := (sideInput?_resolves [labels] limits .global hunknown).2.1 fun h =>
    nomatch congrArg SideSource.id (List.mem_singleton.mp h)
  exact ⟨hshown _, hshown _, hshown _, hhidden⟩

end SideSource
end KeyedFlow
