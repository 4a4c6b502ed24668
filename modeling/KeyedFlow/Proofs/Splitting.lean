import KeyedFlow.Proofs.Collections
import KeyedFlow.Sample.Scalar
import Mathlib.Algebra.Order.Floor.Div

/-!
How a run cuts a source into bundles. In parallel the elements are dealt out in order into pieces of
one size, the requested part of the whole rounded up, of which only the last may be smaller. So no
element is lost or moved, no bundle is empty as long as there are elements, and there may be fewer
bundles than were asked for, but never more. A sequential run takes the source as one bundle.
-/

set_option autoImplicit false

namespace KeyedFlow

section Lists
variable {α : Type} {size n : Nat} {xs : List α}

/-- `xs` in order, dealt out into at most `n` pieces of one size, the last being no larger. -/
structure EvenSplit (n : Nat) (xs : List α) (parts : List (List α)) : Prop where
  flatten_eq : parts.flatten = xs
  length_pos : 0 < parts.length
  length_le : parts.length ≤ n
  /-- As many as pieces of that size are needed. -/
  length_eq : parts.length = max (xs.length ⌈/⌉ (xs.length ⌈/⌉ n)) 1
  eq_of_nil : xs = [] → parts = [[]]
  piece_ne_nil : xs ≠ [] → ∀ part ∈ parts, part ≠ []
  piece_length : ∀ part ∈ parts.dropLast, part.length = xs.length ⌈/⌉ n
  last_length : ∀ part ∈ parts.getLast?, part.length ≤ xs.length ⌈/⌉ n

theorem chunks_eq_append (h : 0 < size) (xs : List α) :
    ∃ full last, chunks size xs = full ++ [last] ∧ (∀ part ∈ full, part.length = size) ∧
      last.length ≤ size ∧ (xs ≠ [] → last ≠ []) := by
  fun_induction chunks size xs with
  | case1 xs hcut ih =>
    obtain ⟨full, last, heq, hfull, hle, hne⟩ := ih
    refine ⟨xs.take size :: full, last, by rw [heq, List.cons_append], ?_, hle, fun _ => hne ?_⟩
    · rw [List.forall_mem_cons]
      exact ⟨List.length_take_of_le (Nat.le_of_lt hcut.2), hfull⟩
    · rw [Ne, List.drop_eq_nil_iff]
      omega
  | case2 xs hcut => exact ⟨[], xs, rfl, by simp, by omega, id⟩

theorem length_chunks (h : 0 < size) (xs : List α) :
    (chunks size xs).length = max (xs.length ⌈/⌉ size) 1 := by
  simp only [Nat.ceilDiv_eq_add_pred_div]
  fun_induction chunks size xs with
  | case1 xs hcut ih =>
    have hrest : (xs.drop size).length + size - 1 = xs.length - 1 := by
      rw [List.length_drop]
      omega
    have hall : (xs.length + size - 1) / size = (xs.length - 1) / size + 1 := by
      rw [← Nat.add_div_right _ h]
      congr 1
      omega
    have hone : 1 ≤ (xs.length - 1) / size := (Nat.one_le_div_iff h).mpr (by omega)
    rw [List.length_cons, ih, hrest, hall]
    omega
  | case2 xs hcut =>
    have hone : (xs.length + size - 1) / size < 2 := by
      rw [Nat.div_lt_iff_lt_mul h]
      omega
    rw [List.length_singleton]
    omega

theorem evenSplit_singleton (hn : 0 < n) (h : xs.length ≤ xs.length ⌈/⌉ n) :
    EvenSplit n xs [xs] where
  flatten_eq := List.flatten_singleton
  length_pos := Nat.one_pos
  length_le := hn
  length_eq := by
    refine (max_eq_right ?_).symm
    rcases Nat.eq_zero_or_pos (xs.length ⌈/⌉ n) with hsize | hsize
    · rw [hsize, ceilDiv_zero]
      exact Nat.zero_le 1
    · rwa [List.length_singleton, ceilDiv_le_iff_le_mul hsize, Nat.mul_one]
  eq_of_nil hxs := by rw [hxs]
  piece_ne_nil hxs part hpart := by rwa [List.mem_singleton.mp hpart]
  piece_length := nofun
  last_length part hpart := by
    cases hpart
    exact h

theorem evenSplit_chunks (hn : 0 < n) (hxs : 0 < xs.length) :
    EvenSplit n xs (chunks (xs.length ⌈/⌉ n) xs) := by
  have hcover : xs.length ≤ n * (xs.length ⌈/⌉ n) := le_smul_ceilDiv hn
  have hsize : 0 < xs.length ⌈/⌉ n := Nat.pos_of_mul_pos_left (Nat.lt_of_lt_of_le hxs hcover)
  have hcount : xs.length ⌈/⌉ (xs.length ⌈/⌉ n) ≤ n := by
    rwa [ceilDiv_le_iff_le_mul hsize, Nat.mul_comm]
  have hlength := length_chunks hsize xs
  have hne : xs ≠ [] := List.ne_nil_of_length_pos hxs
  obtain ⟨full, last, heq, hfull, hle, hlast⟩ := chunks_eq_append hsize xs
  refine ⟨flatten_chunks _ xs, by omega, by omega, hlength, fun hnil => absurd hnil hne, ?_, ?_, ?_⟩
  · intro _ part hpart
    rw [heq] at hpart
    rcases List.mem_append.mp hpart with hpart | hpart
    · exact List.ne_nil_of_length_pos ((hfull part hpart).symm ▸ hsize)
    · rw [List.mem_singleton.mp hpart]
      exact hlast hne
  · rwa [heq, List.dropLast_concat]
  · rw [heq, List.getLast?_concat]
    intro part hpart
    cases hpart
    exact hle

theorem evenSplit_splitInto (hn : 0 < n) (xs : List α) : EvenSplit n xs (splitInto n xs) := by
  have hcover : xs.length ≤ n * (xs.length ⌈/⌉ n) := le_smul_ceilDiv hn
  unfold splitInto
  split
  · rename_i hwhole
    apply evenSplit_singleton hn
    rcases hwhole with hone | hfew
    · obtain rfl : n = 1 := by omega
      rwa [Nat.one_mul] at hcover
    · rcases Nat.eq_zero_or_pos (xs.length ⌈/⌉ n) with hsize | hsize
      · rw [hsize, Nat.mul_zero] at hcover
        exact Nat.le_trans hcover (Nat.zero_le _)
      · omega
  · exact evenSplit_chunks hn (by omega)

end Lists

namespace Pipeline
variable {B : Type} [TypeFamily B] {p : Pipeline B} {id : NodeId} {v : Bundle B}

/-- A run that comes to a source takes its pieces as bundles, logs it and keeps them. -/
theorem evaluateWithin_source (hn : p.nodes[id]? = some (.source v)) (mode : ExecMode)
    (depth : Nat) {s : Progress B} (h : s.memo.find? (·.1 = id) = none) :
    let bundles :=
      (splitInto (min mode.parts (max v.elems.length 1)) v.elems).map (Bundle.of v.type)
    (p.evaluateWithin mode (depth + 1) id).on s =
      (.ok bundles, ⟨(id, bundles) :: s.memo, id :: s.ran⟩) := by
  rw [evaluateWithin_run h hn]
  rfl

/-- Splitting a source loses nothing: whenever a run comes to it, and when it is run alone, its
bundles are even pieces of its elements in order, or all of them in a sequential run. -/
theorem source_splits_evenly (hn : p.nodes[id]? = some (.source v)) (mode : ExecMode) :
    ∃ parts : List (List (Windowed v.type.Carrier)),
      (∀ depth (s : Progress B), s.memo.find? (·.1 = id) = none →
        (p.evaluateWithin mode (depth + 1) id).on s = (.ok (parts.map (Bundle.of v.type)),
          ⟨(id, parts.map (Bundle.of v.type)) :: s.memo, id :: s.ran⟩)) ∧
      p.evaluate mode id = .ok (parts.map (Bundle.of v.type)) ∧
      p.collect mode v.type id = .ok v.elems ∧
      match mode with
      | .sequential => parts = [v.elems]
      | .parallel n => EvenSplit (min (max n 1) (max v.elems.length 1)) v.elems parts := by
  have heval : p.evaluate mode id = .ok
      ((splitInto (min mode.parts (max v.elems.length 1)) v.elems).map (Bundle.of v.type)) :=
    congrArg Prod.fst (evaluateWithin_source hn mode p.nodes.size (s := ⟨[], []⟩) rfl)
  refine ⟨_, fun depth s => evaluateWithin_source hn mode depth, heval, ?_, ?_⟩
  · rw [collect, heval]
    change elements v.type _ = _
    rw [Collection.elements_map_of, flatten_splitInto]
  · cases mode with
    | sequential =>
      have hone : min ExecMode.sequential.parts (max v.elems.length 1) = 1 :=
        min_eq_left (le_max_right _ 1)
      change splitInto _ _ = _
      rw [hone]
      exact if_pos (.inl (Nat.le_refl 1))
    | parallel n => exact evenSplit_splitInto (by omega) v.elems

def nine : List (Windowed (ElemType.uint32 : Sample.Ty).Carrier) :=
  (List.range 9).map fun i => ⟨UInt32.ofNat i, 0, .global⟩

def nineSource : Pipeline Sample.Own := new.add (.source (Bundle.of .uint32 nine))

/-- Of nine elements in up to six pieces, four pieces take two each, and a fifth the last one. -/
theorem source_splits_evenly_of_nine :
    nineSource.nodes[0]? = some (.source (Bundle.of .uint32 nine)) ∧
    ∃ parts : List (List (Windowed (ElemType.uint32 : Sample.Ty).Carrier)),
      nineSource.evaluate (.parallel 6) 0 = .ok (parts.map (Bundle.of .uint32)) ∧
      parts.flatten = nine ∧ parts.length = 5 ∧ ∀ part ∈ parts.dropLast, part.length = 2 := by
  have hnode : nineSource.nodes[0]? = some (.source (Bundle.of .uint32 nine)) :=
    getElem?_add_size new _
  obtain ⟨parts, _, heval, _, hsplit⟩ := source_splits_evenly hnode (.parallel 6)
  exact ⟨hnode, parts, heval, hsplit.flatten_eq, hsplit.length_eq, hsplit.piece_length⟩

end Pipeline
end KeyedFlow
