import KeyedFlow.Proofs.Outcome
import KeyedFlow.Window.Json

/-!
Window functions as text. A decimal numeral is read as the number it spells, up to the mark that
follows it, so a text that spells out a size and an offset is read as the fixed windows that these
make, if they make any.
-/

set_option autoImplicit false

namespace KeyedFlow.WindowFn
open Outcome

namespace Json
variable {c d first : Char} {ds cs : List Char} {n : Int64} {m : Nat}

def spell (n : Int) : List Char := (toString n).toList

theorem spell_ofNat (m : Nat) : spell m = Nat.toDigits 10 m := Nat.toList_repr

theorem spell_negSucc (m : Nat) : spell (Int.negSucc m) = '-' :: Nat.toDigits 10 (m + 1) := by
  change ("-" ++ (m + 1).repr).toList = _
  rw [String.toList_append, Nat.toList_repr]
  rfl

theorem head?_toDigits (hm : 0 < m) : (Nat.toDigits 10 m).head? ≠ some '0' := by
  induction m using Nat.strongRecOn with
  | ind m ih =>
    by_cases hsmall : m < 10
    · have hdigit : ∀ k < 10, 0 < k → [Nat.digitChar k].head? ≠ some '0' := by decide
      rw [Nat.toDigits_of_lt_base hsmall]
      exact hdigit m hsmall hm
    · rw [Nat.toDigits_of_base_le (by decide) (Nat.not_lt.mp hsmall),
        List.head?_append_of_ne_nil _ Nat.toDigits_ne_nil]
      exact ih (m / 10) (by omega) (by omega)

theorem foldl_toDigits (m : Nat) :
    (Nat.toDigits 10 m).foldl (fun n d => n * 10 + (d.toNat - '0'.toNat)) 0 = m := by
  have hvalue := Nat.ofDigitChars_ten_toDigits (n := m)
  simp only [Nat.ofDigitChars_eq_foldl, Nat.mul_comm 10] at hvalue
  exact hvalue

theorem digits_toDigits (m : Nat) (hc : c.isDigit = false) (cs : List Char) :
    digits (Nat.toDigits 10 m ++ c :: cs) = .ok (Nat.toDigits 10 m, c :: cs) := by
  have hdigits : ∀ d ∈ Nat.toDigits 10 m, d.isDigit = true := fun d =>
    Nat.isDigit_of_mem_toDigits (by decide) (by decide)
  have hc : ¬ c.isDigit = true := Bool.eq_false_iff.mp hc
  change Except.ok (List.takeWhile Char.isDigit _, List.dropWhile Char.isDigit _) = _
  rw [List.takeWhile_append_of_pos hdigits, List.takeWhile_cons_of_neg hc, List.append_nil,
    List.dropWhile_append_of_pos hdigits, List.dropWhile_cons_of_neg hc]

theorem blanks_cons (hd : isBlank d = false) (cs : List Char) :
    blanks (d :: cs) = .ok ((), d :: cs) := by
  change Except.ok ((), (d :: cs).dropWhile isBlank) = _
  rw [List.dropWhile_cons_of_neg (Bool.eq_false_iff.mp hd)]

theorem token_cons (hc : isBlank c = false) (cs : List Char) :
    token c (c :: cs) = .ok ((), cs) := by
  rw [token, run_bind (blanks_cons hc cs), run_bind (s := c :: cs) (t := cs) rfl, if_pos rfl]
  rfl

/-- An integer, its sign having been read if `first` is one. -/
def magnitude (first : Char) : Reader Int64 := do
  let negative := first = '-'
  let ds ← digits
  let n := ds.foldl (fun n d => n * 10 + (d.toNat - '0'.toNat)) 0
  let value : Int := if negative then -(n : Int) else n
  if ds.isEmpty || (ds.length ≠ 1 && ds.head? = some '0') || (negative && n = 0) then fail
  else if (← get).head?.any fun c => c = '.' || c = 'e' || c = 'E' then fail
  else if Word.InRange Int64 value then pure (Int64.ofInt value)
  else fail

theorem int64_minus (cs : List Char) : int64 ('-' :: cs) = magnitude '-' cs := rfl

theorem int64_cons (hblank : isBlank d = false) (hd : d ≠ '-') (cs : List Char) :
    int64 (d :: cs) = magnitude d (d :: cs) := by
  unfold int64 magnitude
  rw [run_bind (blanks_cons hblank cs)]
  change (if d = '-' then _ else _ : Reader Int64) (d :: cs) = _
  simp only [hd, if_false]

/-- The marks that may follow an integer. -/
def IsMark (c : Char) : Prop := c = ',' ∨ c = ']'

theorem magnitude_toDigits (hn : (if first = '-' then -(m : Int) else m) = n.toInt)
    (hzero : first = '-' → 0 < m) (hc : IsMark c) (cs : List Char) :
    magnitude first (Nat.toDigits 10 m ++ c :: cs) = .ok (n, c :: cs) := by
  have hdigit : c.isDigit = false := by rcases hc with rfl | rfl <;> decide
  have hwell : ¬ ((Nat.toDigits 10 m).isEmpty || ((Nat.toDigits 10 m).length ≠ 1 &&
      (Nat.toDigits 10 m).head? = some '0') || (first = '-' && m = 0)) = true := by
    have hhead : (Nat.toDigits 10 m).length ≠ 1 → (Nat.toDigits 10 m).head? ≠ some '0' := by
      intro hlen
      refine head?_toDigits (Nat.pos_of_ne_zero ?_)
      rintro rfl
      exact hlen rfl
    simp only [List.isEmpty_eq_false_iff.mpr Nat.toDigits_ne_nil, Bool.false_or, Bool.or_eq_true,
      Bool.and_eq_true, decide_eq_true_eq, not_or, not_and]
    exact ⟨hhead, fun hfirst => Nat.ne_of_gt (hzero hfirst)⟩
  have hend : ¬ ((c :: cs).head?.any fun c => c = '.' || c = 'e' || c = 'E') = true := by
    rcases hc with rfl | rfl <;> exact Bool.false_ne_true
  -- so none of the checks fails: no empty numeral, no leading or negative zero, no fraction
  have hrange : Word.InRange Int64 n.toInt := Word.toInt_inRange n
  unfold magnitude
  rw [run_bind (digits_toDigits m hdigit cs)]
  simp only [foldl_toDigits]
  rw [if_neg hwell, run_bind (s := c :: cs) (a := c :: cs) (t := c :: cs) rfl, if_neg hend, hn,
    if_pos hrange, Int64.ofInt_toInt]
  rfl

theorem starts_numeral (hd : d.isDigit = true) : isBlank d = false ∧ d ≠ '-' := by
  refine ⟨Bool.eq_false_iff.mpr fun hblank => ?_, ?_⟩
  · simp only [isBlank, Bool.or_eq_true, decide_eq_true_eq] at hblank
    rcases hblank with ((rfl | rfl) | rfl) | rfl <;> cases hd
  · rintro rfl
    cases hd

theorem int64_spell (n : Int64) (hc : IsMark c) (cs : List Char) :
    int64 (spell n.toInt ++ c :: cs) = .ok (n, c :: cs) := by
  cases h : n.toInt with
  | ofNat m =>
    obtain ⟨d, ds, hds⟩ := List.exists_cons_of_ne_nil (Nat.toDigits_ne_nil (n := m) (b := 10))
    have hd : d.isDigit = true :=
      Nat.isDigit_of_mem_toDigits (by decide) (by decide) (hds ▸ List.mem_cons_self)
    obtain ⟨hblank, hminus⟩ := starts_numeral hd
    have hn : (if d = '-' then -(m : Int) else m) = n.toInt := (if_neg hminus).trans h.symm
    have hmagnitude := magnitude_toDigits hn (fun hfirst => absurd hfirst hminus) hc cs
    rw [hds] at hmagnitude
    change int64 (spell (m : Int) ++ _) = _
    rw [spell_ofNat, hds]
    exact (int64_cons hblank hminus _).trans hmagnitude
  | negSucc m =>
    have hn : (if '-' = '-' then -((m + 1 : Nat) : Int) else (m + 1 : Nat)) = n.toInt :=
      (if_pos rfl).trans h.symm
    rw [spell_negSucc, List.cons_append, int64_minus]
    exact magnitude_toDigits hn (fun _ => Nat.succ_pos m) hc cs

theorem string_fixed (cs : List Char) :
    string ('"' :: 'F' :: 'i' :: 'x' :: 'e' :: 'd' :: '"' :: cs) = .ok ("Fixed", cs) := by
  rw [string, run_bind (token_cons (by decide) _)]
  rfl

theorem pair_spell (size offset : Int64) (cs : List Char) :
    pair ('[' :: (spell size.toInt ++ ',' :: (spell offset.toInt ++ ']' :: cs))) =
      .ok ((size, offset), cs) := by
  rw [pair, run_bind (token_cons (by decide) _), run_bind (int64_spell size (.inl rfl) _),
    run_bind (token_cons (by decide) _), run_bind (int64_spell offset (.inr rfl) _),
    run_bind (token_cons (by decide) _)]
  rfl

theorem fixedWindows_spell (size offset : Int64) (cs : List Char) :
    fixedWindows ('[' :: (spell size.toInt ++ ',' :: (spell offset.toInt ++ ']' :: cs))) =
      match FixedWindows.of? size offset with
      | some w => .ok (w, cs)
      | none => .error (.refused (.nonPositiveWindowSize size)) :=
  FixedWindows.reading_of_ok _ (pair_spell size offset cs)

end Json

open Json

/-- What spells fixed windows of that size and offset, whether there are such windows or not. -/
def fixedText (size offset : Int64) : String :=
  s!"\x7b\"Fixed\":[{size.toInt},{offset.toInt}]\x7d"

theorem toJson_fixed (w : FixedWindows) : toJson (.fixed w) = fixedText w.size w.offset := rfl

theorem toList_fixedText (size offset : Int64) :
    (fixedText size offset).toList =
      '\x7b' :: '"' :: 'F' :: 'i' :: 'x' :: 'e' :: 'd' :: '"' :: ':' :: '[' ::
        (spell size.toInt ++ ',' :: (spell offset.toInt ++ [']', '\x7d'])) := by
  simp only [fixedText, String.toList_append, List.append_assoc]
  rfl

theorem ofJson_fixedText (size offset : Int64) :
    ofJson (fixedText size offset) =
      match FixedWindows.of? size offset with
      | some w => .ok (.fixed w)
      | none => .error (.refused (.nonPositiveWindowSize size)) := by
  have hfixed := fixedWindows_spell size offset ['\x7d']
  have hread : windowFn (fixedText size offset).toList =
      match FixedWindows.of? size offset with
      | some w => .ok (.fixed w, [])
      | none => .error (.refused (.nonPositiveWindowSize size)) := by
    rw [toList_fixedText, windowFn, run_bind (blanks_cons (by decide) _),
      run_bind (x := peek) (a := '\x7b') rfl, if_pos rfl, run_bind (token_cons (by decide) _),
      run_bind (string_fixed _), run_bind (token_cons (by decide) _), if_pos rfl]
    cases h : FixedWindows.of? size offset with
    | some w =>
      rw [h] at hfixed
      rw [run_bind hfixed]
      rfl
    | none =>
      rw [h] at hfixed
      rw [run_bind_error hfixed]
  rw [ofJson, hread]
  cases FixedWindows.of? size offset <;> rfl

/-- A window function is read back from the text that it is written as. -/
theorem ofJson_toJson (f : WindowFn) : ofJson f.toJson = .ok f := by
  cases f with
  | global => rfl
  | fixed w => rw [toJson_fixed, ofJson_fixedText, FixedWindows.of?, dif_pos w.size_pos]

end KeyedFlow.WindowFn
