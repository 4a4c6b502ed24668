/-!
Groups: values collected by key, each key occurring once, the values of a key in order of arrival.
The keys come in order of first arrival. That is a choice: the keys of a hash map have an order of
their own, which is another one in each run, and fixing it makes a run a function of its input. So
results on groups are to be read up to the order of keys.
-/

set_option autoImplicit false

namespace KeyedFlow

abbrev Groups (κ α : Type) := List (κ × List α)

namespace Groups
variable {κ α : Type} [DecidableEq κ]

def extend (k : κ) (vs : List α) : Groups κ α → Groups κ α
  | [] => [(k, vs)]
  | (j, us) :: rest => if j = k then (j, us ++ vs) :: rest else (j, us) :: extend k vs rest

def ofList (xs : List (κ × α)) : Groups κ α := xs.foldl (fun g x => extend x.1 [x.2] g) []

def join (gs : List (Groups κ α)) : Groups κ α :=
  gs.foldl (fun acc g => g.foldl (fun acc e => extend e.1 e.2 acc) acc) []

def find? (g : Groups κ α) (k : κ) : Option (List α) := (List.find? (·.1 = k) g).map Prod.snd

end Groups
end KeyedFlow
