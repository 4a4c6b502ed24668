import KeyedFlow.Coder.Stream
import KeyedFlow.Window.Basic

/-!
What can go wrong with a flow. Configuration failures of the combine transforms are found while a
flow is built; a run breaks off with the first failure it meets. A failure carries its causes, the
outermost first.
-/

set_option autoImplicit false

namespace KeyedFlow

inductive CombineError where
  | incompatibleWindowFn (windowFn : WindowFn) (advice : String)
  | accumulatorCoder (e : CoderError)
  | nonPositiveWindowSize (size : Int64)
  | emptySingletonView (window : Window)
  | ambiguousSingletonView (window : Window) (count : Nat)
deriving DecidableEq

namespace CombineError

def kind : CombineError → String
  | incompatibleWindowFn _ _ => "IncompatibleWindowFn"
  | accumulatorCoder _ => "AccumulatorCoder"
  | nonPositiveWindowSize _ => "NonPositiveWindowSize"
  | emptySingletonView _ => "EmptySingletonView"
  | ambiguousSingletonView _ _ => "AmbiguousSingletonView"

def message : CombineError → String
  | incompatibleWindowFn f advice => s!"{advice} (window function: {f.text})"
  | accumulatorCoder _ => "unable to determine accumulator coder"
  | nonPositiveWindowSize n => s!"fixed window size must be positive, got {n.toInt}ms"
  | emptySingletonView w => s!"singleton view is empty for window {w.text}"
  | ambiguousSingletonView w n => s!"singleton view holds {n} values for window {w.text}"

end CombineError

def FixedWindows.of (size offset : Int64) : Except CombineError FixedWindows :=
  match FixedWindows.of? size offset with
  | some w => .ok w
  | none => .error (.nonPositiveWindowSize size)

/-- The kinds of element-wise stages, by what they see of their input. -/
inductive StageKind where
  | map
  | filter
  | flatMap
  | windowed
  | bundle
deriving DecidableEq, Repr

def StageKind.name : StageKind → String
  | map => "MapOp"
  | filter => "FilterOp"
  | flatMap => "FlatMapOp"
  | windowed => "WindowedOp"
  | bundle => "BundleOp"

inductive RunError where
  | fault (f : Fault)
  | encoding (e : CoderError)
  | decoding (e : CoderError)
  | stageInput (stage : StageKind) (expected : String)
  | groupingInput
  | terminalType (expected : String)
  | missingNode (id : Nat)
  /-- A node is among its own inputs, directly or through others. -/
  | cyclicNode (id : Nat)
deriving DecidableEq

namespace RunError

def message : RunError → String
  | fault f => f.message
  | encoding _ => "encoding grouped value"
  | decoding _ => "decoding grouped value"
  | stageInput s t => s!"{s.name}: expected a bundle of {t}"
  | groupingInput => "GBK local: bad input"
  | terminalType t => s!"terminal type mismatch: expected {t}"
  | missingNode id => s!"missing node NodeId({id})"
  | cyclicNode id => s!"cyclic node NodeId({id})"

def coderError? : RunError → Option CoderError
  | encoding e => some e
  | decoding e => some e
  | _ => none

end RunError

inductive FlowError where
  | combine (e : CombineError)
  | coder (e : CoderError)
  | run (e : RunError)
  | emptyFlatten
  | incompatibleWindows (first other : WindowFn)
  | refused (reason : String)
deriving DecidableEq

namespace FlowError

/-- The kind of the failure that a coder or a combine reports, if it is one of those. -/
def kind? : FlowError → Option String
  | combine e => some e.kind
  | coder e => some e.kind
  | run e => e.coderError?.map CoderError.kind
  | _ => none

def message : FlowError → String
  | combine e => e.message
  | coder e => e.message
  | run e => e.message
  | emptyFlatten => "flatten needs at least one collection"
  | incompatibleWindows f g => s!"cannot flatten collections windowed by {f.text} and {g.text}"
  | refused r => r

/-- The messages of what lies behind an error, the outermost first. -/
def causes : FlowError → List String
  | combine (.accumulatorCoder e) => [e.message]
  | run e => (e.coderError?.map CoderError.message).toList
  | _ => []

end FlowError

def Checked.inRun {α : Type} : Checked α → Except RunError α
  | .ok a => .ok a
  | .error f => .error (.fault f)

end KeyedFlow
