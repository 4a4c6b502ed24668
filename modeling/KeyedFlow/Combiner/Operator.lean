import KeyedFlow.Combiner.Basic

/-!
Combiners made from a binary operator. `operator` starts from nothing and so needs no identity
element; one that is given stands only for the result of no inputs. `scalar` starts from an
identity element and keeps the bare value.
-/

set_option autoImplicit false

namespace KeyedFlow.Combiner
variable {B : Type} [TypeFamily B]

def foldInto {α : Type} (op : α → α → α) (h : Holder α) (v : α) : Holder α :=
  match h.value? with
  | some current => h.set (op current v)
  | none => h.set v

/-- Pairwise combination with `op`; no inputs give the identity, if there is one. -/
def operator (τ : ElemType B) (op : τ.Carrier → τ.Carrier → τ.Carrier)
    (identity : Option τ.Carrier) : Combiner τ (.holder τ) (.option τ) where
  name := s!"BinaryCombineFn<{τ.typeName}>"
  create := Holder.empty
  add h v := .ok (foldInto op h v)
  merge hs := .ok ((hs.filterMap Holder.value?).foldl (foldInto op) Holder.empty)
  extract h := .ok (h.value?.orElse fun _ => identity)
  accumulatorCoder r i := do
    let c ← inputOrRegistered r τ i
    .ok c.holder
  outputCoder r i := do
    let c ← inputOrRegistered r τ i
    .ok c.option

/-- Combination with `op` from its identity element on. -/
def scalar (τ : ElemType B) (op : τ.Carrier → τ.Carrier → τ.Carrier) (identity : τ.Carrier) :
    Combiner τ τ τ where
  name := s!"ScalarCombineFn<{τ.typeName}>"
  create := identity
  add a v := .ok (op a v)
  merge
    | [] => .ok identity
    | a :: as => .ok (as.foldl op a)
  extract := .ok
  accumulatorCoder r i := inputOrRegistered r τ i
  outputCoder r i := inputOrRegistered r τ i

end KeyedFlow.Combiner
