import KeyedFlow.Transform.Basic
import KeyedFlow.Sample.Scalar

/-!
A sample transform of the user's own, without details: it moves every element on by one, or
refuses its input.
-/

set_option autoImplicit false

namespace KeyedFlow.Sample

def relabel (s : Scalar) (refuse : Bool) : Transform s.type s.type where
  name := "Relabel"
  expand c :=
    if refuse then throw (.refused "relabel refuses")
    else Build.extend (c.map s.type fun a => .ok (s.bump 1 a))

end KeyedFlow.Sample
