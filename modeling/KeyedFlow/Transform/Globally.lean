import KeyedFlow.Transform.PerKey

/-!
The combine of a whole collection, one output per window. Every element is keyed by the unit value,
combined per key, and the key dropped again. With defaults on, a window without input still gives
the combiner's default value; this only makes sense for the global window, the one window that is
known to exist without data, so any other windowing is refused before a node is added. Such a
window is found by grouping the outputs together with a guard that is always present.
-/

set_option autoImplicit false

namespace KeyedFlow
variable {B : Type} [TypeFamily B]

structure Globally {B : Type} [TypeFamily B] (ι α ω : ElemType B) where
  combiner : Combiner ι α ω
  insertDefault : Bool := true
  /-- The number of shards that combine in advance, when it is two or more. -/
  fanout : Nat := 0
  sides : SideInputs B := SideInputs.none
  seed : ShardSeed := fun _ => 0

instance : DecidableEq (ElemType.unit : ElemType B).Carrier := inferInstanceAs (DecidableEq Unit)
instance : KeyBytes (ElemType.unit : ElemType B).Carrier := inferInstanceAs (KeyBytes Unit)

namespace Globally
variable {ι α ω : ElemType B}

def withSideInput (t : Globally ι α ω) {τ : ElemType B} (i : SideInput τ) : Globally ι α ω :=
  { t with sides := t.sides.and i }

def perKey (t : Globally ι α ω) : PerKey .unit ι α ω where
  combiner := t.combiner.keyed .unit
  sides := t.sides
  fewKeys := true
  spread := if 2 ≤ t.fanout then some fun _ => t.fanout else none
  seed := t.seed

def combineWindows (t : Globally ι α ω) (c : Collection ι) : Build B (Collection ω) := do
  let keyed ← Build.extend <| c.withKey .unit ()
  let combined ← t.perKey.expand keyed
  Build.extend combined.values

def checkWindowing (t : Globally ι α ω) (f : WindowFn) : Except FlowError Unit :=
  if f.compatible .global then .ok ()
  else .error (.combine (.incompatibleWindowFn f t.combiner.advice))

/-- The default value, for a group in which only the guard is present. -/
def defaultOf {ω : Type} (default : ω) (slots : List (Slot ω)) : List ω :=
  if slots.any fun s => match s with | .output _ => true | .guard => false then [] else [default]

/-- Add the default value when there is no output at all. -/
def withDefault (t : Globally ι α ω) (combined : Collection ω) : Build B (Collection ω) := do
  let default ← Build.ofExcept (t.combiner.default.mapError fun f => .run (.fault f))
  let guard ← Build.extend <| Collection.ofList (.slot ω) [Slot.guard]
  let outputs ← Build.extend <| combined.map (.slot ω) fun o => .ok (.output o)
  let slots ← Collection.flatten [guard, outputs]
  let keyed ← Build.extend <| slots.withKey .unit ()
  let grouped ← Build.extend <| keyed.groupByKey ⟨true, none⟩
  let defaults ← Build.extend <| grouped.flatMap ω fun g => .ok (defaultOf default g.2)
  Collection.flatten [combined, defaults.setCoder? combined.coder]

def expand (t : Globally ι α ω) (c : Collection ι) : Build B (Collection ω) :=
  if t.insertDefault then do
    Build.ofExcept (t.checkWindowing c.strategy.windowFn)
    let combined ← t.combineWindows c
    t.withDefault combined
  else t.combineWindows c

def transform (t : Globally ι α ω) : Transform ι ω where
  name := s!"Combine.Globally({t.combiner.name})"
  details := [
    ("combine_fn", .text t.combiner.name),
    ("insert_default", .flag t.insertDefault),
    ("fanout", .count t.fanout),
    ("side_inputs", .count t.sides.size)]
  expand := t.expand

end Globally

/-- The result of a combine as a lookup: the values of each window, and the value of windows that
have none. -/
structure SingletonView {B : Type} [TypeFamily B] (ω : ElemType B) where
  byWindow : Groups Window ω.Carrier
  default : Option ω.Carrier

namespace SingletonView
variable {ω : ElemType B}

/-- The value for `w`, or the default when the window had no input. -/
def get (v : SingletonView ω) (w : Window) : Except CombineError ω.Carrier :=
  match (v.byWindow.find? w).getD [] with
  | [one] => .ok one
  | [] =>
    match v.default with
    | some d => .ok d
    | none => .error (.emptySingletonView w)
  | many => .error (.ambiguousSingletonView w many.length)

def getGlobal (v : SingletonView ω) : Except CombineError ω.Carrier := v.get .global

def windows (v : SingletonView ω) : List Window := v.byWindow.map Prod.fst

def toSideInput (v : SingletonView ω) (id : Nat) : SideInput ω := SideInput.windowed id v.byWindow

end SingletonView

/-- Run the combine and expose its result as a lookup by window. Any windowing is admitted. -/
def Globally.asSingletonView {ι α ω : ElemType B} (t : Globally ι α ω) (c : Collection ι) :
    Build B (SingletonView ω) := do
  let combined ← t.combineWindows c
  let elems ← combined.collect .sequential
  let byWindow := Groups.ofList (elems.map fun w => (w.window, w.value))
  if t.insertDefault then
    let default ← Build.ofExcept (t.combiner.default.mapError fun f => .run (.fault f))
    pure ⟨byWindow, some default⟩
  else pure ⟨byWindow, none⟩

end KeyedFlow
