import KeyedFlow.Collection.Basic

/-!
Collections of pairs. Pairing elements with keys, and dropping keys or values again, keeps the
coders of the components where they are known.
-/

set_option autoImplicit false

namespace KeyedFlow
variable {B : Type} [TypeFamily B]

namespace Collection
variable {κ ν τ : ElemType B}

def keyCoder? (c : Collection (.pair κ ν)) : Option (Coder κ) :=
  (c.coder.bind Coder.parts?).map Prod.fst

def valueCoder? (c : Collection (.pair κ ν)) : Option (Coder ν) :=
  (c.coder.bind Coder.parts?).map Prod.snd

def keyBy (c : Collection τ) (κ : ElemType B) (key : τ.Carrier → Checked κ.Carrier) :
    Extend B (Collection (.pair κ τ)) :=
  c.map (.pair κ τ) fun v => do
    let k ← key v
    .ok (k, v)

def withKey (c : Collection τ) (κ : ElemType B) (key : κ.Carrier) :
    Extend B (Collection (.pair κ τ)) := do
  let p ← get
  let coder := do
    let k ← p.coders.find? κ
    let v ← c.coder
    some (Coder.pair k v)
  let out ← c.keyBy κ fun _ => .ok key
  pure (out.setCoder? coder)

def mapValues (c : Collection (.pair κ ν)) (τ : ElemType B) (f : ν.Carrier → Checked τ.Carrier) :
    Extend B (Collection (.pair κ τ)) :=
  c.map (.pair κ τ) fun p => do
    let v ← f p.2
    .ok (p.1, v)

def values (c : Collection (.pair κ ν)) : Extend B (Collection ν) := do
  let out ← c.map ν fun p => .ok p.2
  pure (out.setCoder? c.valueCoder?)

def keys (c : Collection (.pair κ ν)) : Extend B (Collection κ) := do
  let out ← c.map κ fun p => .ok p.1
  pure (out.setCoder? c.keyCoder?)

end Collection
end KeyedFlow
