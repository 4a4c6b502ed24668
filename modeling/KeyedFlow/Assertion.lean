import KeyedFlow.Groups
import KeyedFlow.Text.Quoted
import KeyedFlow.Window.Basic

/-!
Assertions on the results of flows. An assertion either holds or gives the mismatch it found, which
knows how to describe itself. Comparing without regard to order compares lengths and then the sets
of elements, and pairs are compared after a stable sort by key.
-/

set_option autoImplicit false

namespace KeyedFlow

class Shown (α : Type) where
  shown : α → String

instance : Shown Int64 := ⟨fun a => toString a.toInt⟩
instance : Shown String := ⟨Text.Quoted.quote⟩
instance {α β : Type} [Shown α] [Shown β] : Shown (α × β) :=
  ⟨fun p => s!"({Shown.shown p.1}, {Shown.shown p.2})"⟩
instance {α : Type} [Shown α] : Shown (List α) :=
  ⟨fun xs => "[" ++ String.intercalate ", " (xs.map Shown.shown) ++ "]"⟩

inductive Mismatch (α : Type) where
  | length (actual expected : List α)
  | element (index : Nat) (actual expected : α) (all : List α)
  | unorderedLength (actual expected : List α)
  | contents (missing extra : List α)
  | predicate (index : Nat) (item : α) (all : List α)
  | windows
deriving DecidableEq, Repr

def Mismatch.message {α : Type} [Shown α] : Mismatch α → String
  | length actual expected =>
    s!"Collection length mismatch:\n  Expected length: {expected.length}\n  Actual length: " ++
    s!"{actual.length}\n  Expected: {Shown.shown expected}\n  Actual: {Shown.shown actual}"
  | element i actual expected all =>
    s!"Collection mismatch at index {i}:\n  Expected: {Shown.shown expected}\n  Actual: " ++
    s!"{Shown.shown actual}\n  Full actual: {Shown.shown all}"
  | unorderedLength actual expected =>
    s!"Collection length mismatch:\n  Expected: {Shown.shown expected}\n  Actual: " ++
    Shown.shown actual
  | contents missing extra =>
    s!"Collection content mismatch:\n  Missing elements: {Shown.shown missing}\n" ++
    s!"  Extra elements: {Shown.shown extra}"
  | predicate i item all =>
    s!"Predicate failed for element at index {i}:\n  Element: {Shown.shown item}\n" ++
    s!"  Collection: {Shown.shown all}"
  | windows => "Values per window differ"

namespace Assert
variable {α κ : Type}

/-- The first place from `i` on at which two lists differ. -/
def firstDifference? [BEq α] : Nat → List α → List α → Option (Nat × α × α)
  | i, a :: as, e :: es => if a == e then firstDifference? (i + 1) as es else some (i, a, e)
  | _, _, _ => none

def collectionsEqual [BEq α] (actual expected : List α) : Except (Mismatch α) Unit :=
  if actual.length = expected.length then
    match firstDifference? 0 actual expected with
    | some (i, a, e) => .error (.element i a e actual)
    | none => .ok ()
  else .error (.length actual expected)

/-- The elements of `xs` that are not in `ys`, each once. -/
def difference [DecidableEq α] (xs ys : List α) : List α :=
  xs.eraseDups.filter fun x => !ys.contains x

def collectionsUnorderedEqual [DecidableEq α] (actual expected : List α) :
    Except (Mismatch α) Unit :=
  if actual.length = expected.length then
    let missing := difference expected actual
    let extra := difference actual expected
    if missing.isEmpty && extra.isEmpty then .ok () else .error (.contents missing extra)
  else .error (.unorderedLength actual expected)

/-- Equality of pairs after sorting by key, pairs of one key keeping their order. -/
def pairsEqual [BEq κ] [BEq α] (le : κ → κ → Bool) (actual expected : List (κ × α)) :
    Except (Mismatch (κ × α)) Unit :=
  let sort (xs : List (κ × α)) := xs.mergeSort fun a b => le a.1 b.1
  collectionsEqual (sort actual) (sort expected)

/-- The first place from `i` on at which a predicate fails. -/
def firstFailure? (holds : α → Bool) : Nat → List α → Option (Nat × α)
  | _, [] => none
  | i, a :: as => if holds a then firstFailure? holds (i + 1) as else some (i, a)

def all (holds : α → Bool) (xs : List α) : Except (Mismatch α) Unit :=
  match firstFailure? holds 0 xs with
  | some (i, a) => .error (.predicate i a xs)
  | none => .ok ()

/-- Values by window, the windows and the values of each in order. -/
def sortedByWindow (le : α → α → Bool) (g : Groups Window α) : Groups Window α :=
  (g.mergeSort fun a b => a.1.le b.1).map fun e => (e.1, e.2.mergeSort le)

/-- Equality of the values of each window, in whatever order windows and values come. -/
def valuesPerWindow [BEq α] (le : α → α → Bool) (actual : List (Windowed α))
    (expected : List (Window × List α)) : Except (Mismatch α) Unit :=
  let got := sortedByWindow le (Groups.ofList (actual.map fun w => (w.window, w.value)))
  let want := sortedByWindow le (Groups.join [expected])
  if got == want then .ok () else .error .windows

end Assert

end KeyedFlow
