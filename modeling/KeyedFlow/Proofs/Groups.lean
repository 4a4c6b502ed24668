import KeyedFlow.Groups
import Mathlib.Data.List.Nodup

/-!
What a table of groups holds. Gathering entries one by one leaves every key once, and under each
key the values of all its entries in the order of the entries. Building a table from single values
and joining the tables of several collections are both gatherings.
-/

set_option autoImplicit false

namespace KeyedFlow.Groups
variable {κ α β : Type}

def keys (g : Groups κ α) : List κ := g.map Prod.fst

variable [DecidableEq κ]

/-- The values of `k` in all entries, whether or not a key occurs twice. -/
def values (k : κ) (g : Groups κ α) : List α := (g.filter fun e => e.1 = k).flatMap Prod.snd

def gather (es : Groups κ α) : Groups κ α := es.foldl (fun acc e => extend e.1 e.2 acc) []

@[simp] theorem values_nil (k : κ) : values k ([] : Groups κ α) = [] := rfl

theorem values_cons (k : κ) (e : κ × List α) (g : Groups κ α) :
    values k (e :: g) = (if e.1 = k then e.2 else []) ++ values k g := by
  by_cases h : e.1 = k <;> simp [values, h]

@[simp] theorem values_append (k : κ) (g h : Groups κ α) :
    values k (g ++ h) = values k g ++ values k h := by
  simp [values]

theorem values_flatten (k : κ) (gs : List (Groups κ α)) :
    values k gs.flatten = (gs.map (values k)).flatten := by
  induction gs with
  | nil => rfl
  | cons g gs ih => simp [ih]

theorem values_eq_nil {k : κ} {g : Groups κ α} (h : k ∉ g.keys) : values k g = [] := by
  induction g with
  | nil => rfl
  | cons e g ih =>
    simp only [keys, List.map_cons, List.mem_cons, not_or] at h
    rw [values_cons, if_neg (Ne.symm h.1), ih h.2, List.nil_append]

theorem values_of_mem {g : Groups κ α} (hg : g.keys.Nodup) {e : κ × List α} (he : e ∈ g) :
    values e.1 g = e.2 := by
  induction g with
  | nil => simp at he
  | cons d g ih =>
    obtain ⟨hd, hg⟩ := List.nodup_cons.mp hg
    rw [values_cons]
    rcases List.mem_cons.mp he with rfl | he
    · rw [if_pos rfl, values_eq_nil hd, List.append_nil]
    · have hne : d.1 ≠ e.1 := fun heq => hd (heq ▸ List.mem_map_of_mem he)
      rw [if_neg hne, ih hg he, List.nil_append]

theorem find?_of_not_mem {k : κ} {g : Groups κ α} (h : k ∉ g.keys) : g.find? k = none := by
  have hnone : List.find? (fun e => decide (e.1 = k)) g = none := by
    apply List.find?_eq_none.mpr
    intro e he hk
    exact h (List.mem_map.mpr ⟨e, he, of_decide_eq_true hk⟩)
  rw [find?, hnone, Option.map_none]

theorem find?_of_mem {k : κ} {g : Groups κ α} (hg : g.keys.Nodup) (h : k ∈ g.keys) :
    g.find? k = some (values k g) := by
  obtain ⟨d, hd, hk⟩ := List.mem_map.mp h
  cases hf : List.find? (fun e => decide (e.1 = k)) g with
  | none => exact absurd (decide_eq_true hk) (List.find?_eq_none.mp hf d hd)
  | some e =>
    have hek : e.1 = k := by simpa using List.find?_some hf
    rw [find?, hf, Option.map_some, ← hek, values_of_mem hg (List.mem_of_find?_eq_some hf)]

theorem keys_extend (k : κ) (vs : List α) (g : Groups κ α) :
    (extend k vs g).keys = if k ∈ g.keys then g.keys else g.keys ++ [k] := by
  induction g with
  | nil => simp [extend, keys]
  | cons e g ih =>
    obtain ⟨j, us⟩ := e
    by_cases h : j = k
    · simp [extend, keys, h]
    · have hk : ¬ k = j := fun he => h he.symm
      simp only [keys] at ih
      simp only [extend, keys, h, if_false, List.map_cons, ih, List.mem_cons, hk, false_or]
      by_cases hm : k ∈ List.map Prod.fst g <;> simp [hm]

theorem mem_keys_extend {j k : κ} {vs : List α} {g : Groups κ α} :
    j ∈ (extend k vs g).keys ↔ j ∈ g.keys ∨ j = k := by
  rw [keys_extend]
  split
  · constructor
    · exact Or.inl
    · rintro (h | rfl) <;> assumption
  · simp

theorem nodup_keys_extend {k : κ} {vs : List α} {g : Groups κ α} (hg : g.keys.Nodup) :
    (extend k vs g).keys.Nodup := by
  rw [keys_extend]
  split
  · exact hg
  · rename_i hk
    rw [List.nodup_append]
    refine ⟨hg, List.nodup_singleton k, ?_⟩
    intro a ha b hb
    rw [List.mem_singleton.mp hb]
    exact fun he => hk (he ▸ ha)

theorem values_extend {j k : κ} {vs : List α} {g : Groups κ α} (hg : g.keys.Nodup) :
    values j (extend k vs g) = values j g ++ (if k = j then vs else []) := by
  induction g with
  | nil => simp [extend, values_cons]
  | cons e g ih =>
    obtain ⟨i, us⟩ := e
    obtain ⟨hi, hg⟩ := List.nodup_cons.mp hg
    by_cases h : i = k
    · subst i
      rw [extend, if_pos rfl, values_cons, values_cons]
      by_cases hj : k = j
      · subst j
        simp [values_eq_nil hi]
      · simp [hj]
    · rw [extend, if_neg h, values_cons, values_cons, ih hg, List.append_assoc]

theorem gather_onto (es g : Groups κ α) (hg : g.keys.Nodup) :
    (es.foldl (fun acc e => extend e.1 e.2 acc) g).keys.Nodup ∧
    (∀ k, k ∈ (es.foldl (fun acc e => extend e.1 e.2 acc) g).keys ↔ k ∈ g.keys ∨ k ∈ es.keys) ∧
    ∀ k, values k (es.foldl (fun acc e => extend e.1 e.2 acc) g) = values k g ++ values k es := by
  induction es generalizing g with
  | nil => exact ⟨hg, by simp [keys], by simp⟩
  | cons e es ih =>
    obtain ⟨hn, hm, hv⟩ := ih (extend e.1 e.2 g) (nodup_keys_extend hg)
    refine ⟨hn, ?_, ?_⟩
    · intro k
      rw [List.foldl_cons, hm, mem_keys_extend, or_assoc]
      simp [keys]
    · intro k
      rw [List.foldl_cons, hv, values_extend hg, values_cons, List.append_assoc]

theorem nodup_keys_gather (es : Groups κ α) : (gather es).keys.Nodup :=
  (gather_onto es [] List.nodup_nil).1

theorem mem_keys_gather {k : κ} {es : Groups κ α} : k ∈ (gather es).keys ↔ k ∈ es.keys :=
  ((gather_onto es [] List.nodup_nil).2.1 k).trans (by simp [keys])

theorem values_gather (k : κ) (es : Groups κ α) : values k (gather es) = values k es :=
  (gather_onto es [] List.nodup_nil).2.2 k

theorem ofList_eq_gather (xs : List (κ × α)) :
    ofList xs = gather (xs.map fun x => (x.1, [x.2])) := by
  simp [ofList, gather, List.foldl_map]

theorem join_eq_gather (gs : List (Groups κ α)) : join gs = gather gs.flatten := by
  simp [join, gather, List.foldl_flatten]

theorem values_singles (k : κ) (xs : List (κ × α)) :
    values k (xs.map fun x => (x.1, [x.2])) = (xs.filter fun x => x.1 = k).map Prod.snd := by
  induction xs with
  | nil => rfl
  | cons x xs ih =>
    rw [List.map_cons, values_cons, ih]
    by_cases h : x.1 = k <;> simp [h]

theorem values_ofList (k : κ) (xs : List (κ × α)) :
    values k (ofList xs) = (xs.filter fun x => x.1 = k).map Prod.snd := by
  rw [ofList_eq_gather, values_gather, values_singles]

theorem mem_keys_ofList {k : κ} {xs : List (κ × α)} :
    k ∈ (ofList xs).keys ↔ k ∈ xs.map Prod.fst := by
  rw [ofList_eq_gather, mem_keys_gather]
  simp [keys]

theorem nodup_keys_ofList (xs : List (κ × α)) : (ofList xs).keys.Nodup := by
  rw [ofList_eq_gather]
  exact nodup_keys_gather _

theorem values_join (k : κ) (gs : List (Groups κ α)) :
    values k (join gs) = (gs.map (values k)).flatten := by
  rw [join_eq_gather, values_gather, values_flatten]

theorem mem_keys_join {k : κ} {gs : List (Groups κ α)} :
    k ∈ (join gs).keys ↔ ∃ g ∈ gs, k ∈ g.keys := by
  rw [join_eq_gather, mem_keys_gather]
  simp only [keys, List.mem_map, List.mem_flatten]
  constructor
  · rintro ⟨e, ⟨g, hg, he⟩, hk⟩
    exact ⟨g, hg, e, he, hk⟩
  · rintro ⟨g, hg, e, he, hk⟩
    exact ⟨e, ⟨g, hg, he⟩, hk⟩

theorem nodup_keys_join (gs : List (Groups κ α)) : (join gs).keys.Nodup := by
  rw [join_eq_gather]
  exact nodup_keys_gather _

theorem find?_join_entries (k : κ) (es : Groups κ α) :
    (join [es]).find? k = if k ∈ es.keys then some (values k es) else none := by
  have hkeys : k ∈ (join [es]).keys ↔ k ∈ es.keys := by simp [mem_keys_join]
  split
  · rename_i hk
    rw [find?_of_mem (nodup_keys_join [es]) (hkeys.mpr hk), values_join]
    simp
  · rename_i hk
    exact find?_of_not_mem (mt hkeys.mp hk)

theorem find?_join_singleton (k : κ) {g : Groups κ α} (hg : g.keys.Nodup) :
    (join [g]).find? k = g.find? k := by
  rw [find?_join_entries]
  split
  · rename_i hk
    exact (find?_of_mem hg hk).symm
  · rename_i hk
    exact (find?_of_not_mem hk).symm

end KeyedFlow.Groups
