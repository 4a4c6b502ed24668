import KeyedFlow.Combiner.Basic

/-!
A combiner around a function of a whole batch. Inputs are buffered, and the buffer is collapsed to
the function's result when it grows past its size, on merging and on compaction; reading the
output applies the function once more. The function may break off, as it may on no values at all.
-/

set_option autoImplicit false

namespace KeyedFlow.Combiner
variable {B : Type} [TypeFamily B]

def defaultBufferSize : Nat := 20

/-- The buffer that holds only what `f` makes of `buf`. -/
def collapse {α : Type} (f : List α → Checked α) (buf : List α) : Checked (List α) := do
  let v ← f buf
  .ok [v]

/-- Batches of `τ` combined by `f`, with a buffer of at least one value. -/
def buffered (τ : ElemType B) (f : List τ.Carrier → Checked τ.Carrier) (bufferSize : Nat) :
    Combiner τ (.list τ) τ where
  name := s!"IterableCombineFn<{τ.typeName}>"
  create := []
  add buf v :=
    let grown := buf ++ [v]
    if Nat.max bufferSize 1 < grown.length then collapse f grown else .ok grown
  merge bufs :=
    let all := bufs.flatten
    if all.isEmpty then .ok [] else collapse f all
  extract := f
  compact buf := if 1 < buf.length then collapse f buf else .ok buf
  accumulatorCoder r i := do
    let c ← inputOrRegistered r τ i
    .ok c.list
  outputCoder r i := inputOrRegistered r τ i

end KeyedFlow.Combiner
