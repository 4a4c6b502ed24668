import KeyedFlow.Word

/-!
Event-time windows. An element lies in the global window or in an interval that is closed on the
left and open on the right; a window function assigns windows by timestamp. Fixed windows tumble:
with size `s` and offset `o` they are the intervals from `k * s + o` to `(k + 1) * s + o`, and the
type keeps `s` positive. Timestamps are milliseconds, and every step of the arithmetic is checked.
-/

set_option autoImplicit false

namespace KeyedFlow

abbrev Timestamp := Int64

namespace Timestamp

def least : Timestamp := Int64.ofInt (Int.tdiv (-9223372036854775808) 1000)

/-- The end-of-window timestamp of the global window, one day before the last timestamp. -/
def endOfTime : Timestamp := Int64.ofInt (9223372036854775807 / 1000 - 86400000)

end Timestamp

structure Interval where
  start : Timestamp
  stop : Timestamp
deriving DecidableEq, Repr

/-- The interval from `start` to `stop`, which must not end before it starts. -/
def Interval.between (start stop : Timestamp) : Checked Interval :=
  if start ≤ stop then .ok ⟨start, stop⟩ else .error .reversedInterval

inductive Window where
  | global
  | interval (i : Interval)
deriving DecidableEq, Repr

namespace Window

/-- The timestamp of results emitted for a window. -/
def maxTimestamp : Window → Checked Timestamp
  | global => .ok Timestamp.endOfTime
  | interval i => Word.sub i.stop 1

def text : Window → String
  | global => "GlobalWindow"
  | interval i => s!"[{i.start.toInt}, {i.stop.toInt})"

def compare : Window → Window → Ordering
  | global, global => .eq
  | global, interval _ => .lt
  | interval _, global => .gt
  | interval a, interval b =>
    (Ord.compare a.start.toInt b.start.toInt).then (Ord.compare a.stop.toInt b.stop.toInt)

def le (a b : Window) : Bool := a.compare b != .gt

end Window

structure FixedWindows where
  size : Int64
  offset : Int64
  size_pos : 0 < size.toInt
deriving DecidableEq

namespace FixedWindows

def of? (size offset : Int64) : Option FixedWindows :=
  if h : 0 < size.toInt then some ⟨size, offset, h⟩ else none

section Reading
variable {σ ε : Type} (refusal : Int64 → ε) (pair : StateT σ (Except ε) (Int64 × Int64))

/-- Read fixed windows as a size and an offset; a size is refused once both have been read. -/
def reading : StateT σ (Except ε) FixedWindows := do
  let (size, offset) ← pair
  match of? size offset with
  | some w => pure w
  | none => throw (refusal size)

variable {pair} {s t : σ} {size offset : Int64}

theorem reading_of_ok (h : pair s = .ok ((size, offset), t)) :
    reading refusal pair s =
      match of? size offset with
      | some w => .ok (w, t)
      | none => .error (refusal size) := by
  change (pair s >>= _) = _
  rw [h]
  change (match of? size offset with | some w => pure w | none => throw (refusal size) :
    StateT σ (Except ε) FixedWindows) t = _
  cases of? size offset <;> rfl

theorem reading_of_error {e : ε} (h : pair s = .error e) : reading refusal pair s = .error e := by
  change (pair s >>= _) = _
  rw [h]
  rfl

end Reading

/-- The number of the window that holds `ts`, counted from the one that starts at the offset. -/
def index (w : FixedWindows) (ts : Timestamp) : Checked Int64 := do
  let shifted ← Word.sub ts w.offset
  .ok (Int64.ofInt (shifted.toInt / w.size.toInt))

def tumble (w : FixedWindows) (ts : Timestamp) : Checked Interval := do
  let k ← w.index ts
  let base ← Word.mul k w.size
  let start ← Word.add base w.offset
  let stop ← Word.add start w.size
  .ok ⟨start, stop⟩

end FixedWindows

inductive WindowFn where
  | global
  | fixed (w : FixedWindows)
deriving DecidableEq

namespace WindowFn

def assign : WindowFn → Timestamp → Checked Window
  | global, _ => .ok .global
  | fixed w, ts => do
    let i ← w.tumble ts
    .ok (.interval i)

/-- Two window functions are compatible when they are the same. -/
def compatible (f g : WindowFn) : Bool := f == g

def text : WindowFn → String
  | global => "GlobalWindows"
  | fixed w => s!"FixedWindows(size={w.size.toInt}ms, offset={w.offset.toInt}ms)"

end WindowFn

inductive AccumulationMode where
  | discarding
  | accumulating
deriving DecidableEq, Repr, Inhabited

structure WindowingStrategy where
  windowFn : WindowFn
  mode : AccumulationMode := .discarding
deriving DecidableEq

namespace WindowingStrategy

def global : WindowingStrategy := ⟨.global, .discarding⟩
def withMode (s : WindowingStrategy) (m : AccumulationMode) : WindowingStrategy :=
  { s with mode := m }

end WindowingStrategy

structure Windowed (α : Type) where
  value : α
  timestamp : Timestamp
  window : Window
deriving DecidableEq

namespace Windowed
variable {α β : Type}

def inGlobalWindow (a : α) : Windowed α := ⟨a, Timestamp.least, .global⟩

def withValue (w : Windowed α) (b : β) : Windowed β := ⟨b, w.timestamp, w.window⟩

end Windowed

structure Timestamped (α : Type) where
  timestamp : Timestamp
  value : α
deriving DecidableEq

end KeyedFlow
