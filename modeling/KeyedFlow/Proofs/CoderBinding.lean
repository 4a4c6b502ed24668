import KeyedFlow.Transform.Basic

/-!
How a combine gives its output a coder. The coder of keys and the coder of outputs are looked up
apart, and bound when both are known. What cannot be provided leaves the output without a coder; any
other failure of the output coder refuses the combine, but only when the keys have a coder.
-/

set_option autoImplicit false

namespace KeyedFlow
variable {B : Type} [TypeFamily B] {κ ι α ω : ElemType B}

/-- The coder that a combine gives its output when keys and inputs have these coders. -/
def KeyedCombiner.pairCoder (comb : KeyedCombiner κ ι α ω) (r : CoderRegistry B)
    (key : Option (Coder κ)) (input : Option (Coder ι)) :
    Except FlowError (Option (Coder (.pair κ ω))) :=
  (bindPairCoder ⟨0, .global, none⟩ (inputOrRegistered r κ key)
    (comb.outputCoder r key input)).map Collection.coder

/-- The same when keys and values have been grouped: one coder without the other is lost. -/
def KeyedCombiner.groupedCoder (comb : KeyedCombiner κ ι α ω) (r : CoderRegistry B)
    (key : Option (Coder κ)) (input : Option (Coder ι)) :
    Except FlowError (Option (Coder (.pair κ ω))) :=
  match key, input with
  | some k, some i => comb.pairCoder r (some k) (some i)
  | _, _ => comb.pairCoder r none none

theorem coder_bindPairCoder {out : Collection (.pair κ ω)} (hout : out.coder = none)
    (key : Except CoderError (Coder κ)) (output : Except CoderError (Coder ω)) :
    (bindPairCoder out key output).map Collection.coder =
      (bindPairCoder ⟨0, .global, none⟩ key output).map Collection.coder := by
  unfold bindPairCoder
  split
  · rfl
  all_goals
    split
    · exact congrArg Except.ok hout
    · rfl

/-- The answer `x` of a combine whose keys have the coder `key`, if any, and whose outputs are given
the coder `output`. -/
structure BindsOutput (key : Option (Coder κ)) (output : Except CoderError (Coder ω))
    (x : Except FlowError (Option (Coder (.pair κ ω)))) : Prop where
  refused_iff : ∀ f, x = .error f ↔
    key.isSome ∧ ∃ e, output = .error e ∧ e.isCannotProvide = false ∧ f = .coder e
  keyless : key = none → x = .ok none
  unavailable : ∀ e, output = .error e → e.isCannotProvide = true → x = .ok none
  bound : ∀ k o, key = some k → output = .ok o → x = .ok (some (.pair k o))

section Binding
variable {key : Option (Coder κ)} {output : Except CoderError (Coder ω)}

namespace BindsOutput

theorem deferred (h : key = none ∨ ∃ e, output = .error e ∧ e.isCannotProvide = true) :
    BindsOutput key output (.ok none) where
  refused_iff f := by
    refine ⟨nofun, ?_⟩
    rintro ⟨hkey, e, he, hother, _⟩
    obtain rfl | ⟨e', he', hunavailable⟩ := h
    · cases hkey
    · cases he.symm.trans he'
      cases hunavailable.symm.trans hother
  keyless _ := rfl
  unavailable _ _ _ := rfl
  bound k o hk ho := by
    obtain rfl | ⟨e, he, _⟩ := h
    · cases hk
    · cases ho.symm.trans he

theorem refused (k : Coder κ) {e : CoderError} (he : e.isCannotProvide = false) :
    BindsOutput (some k) (.error e : Except CoderError (Coder ω)) (.error (.coder e)) where
  refused_iff f := by
    constructor
    · rintro ⟨⟩
      exact ⟨rfl, e, rfl, he, rfl⟩
    · rintro ⟨_, _, ⟨⟩, _, rfl⟩
      rfl
  keyless := nofun
  unavailable := by
    rintro _ ⟨⟩ hunavailable
    cases he.symm.trans hunavailable
  bound := nofun

theorem of_ok (k : Coder κ) (o : Coder ω) :
    BindsOutput (some k) (.ok o) (.ok (some (.pair k o))) where
  refused_iff _ := ⟨nofun, nofun⟩
  keyless := nofun
  unavailable := nofun
  bound := by
    rintro _ _ ⟨⟩ ⟨⟩
    rfl

theorem of_key (k : Coder κ) (output : Except CoderError (Coder ω)) : BindsOutput (some k) output
    ((bindPairCoder ⟨0, .global, none⟩ (.ok k) output).map Collection.coder) := by
  cases output with
  | ok o => exact of_ok k o
  | error e =>
    unfold bindPairCoder
    dsimp only
    split
    · rename_i he
      exact deferred (.inr ⟨e, rfl, he⟩)
    · rename_i he
      exact refused k (Bool.eq_false_iff.mpr he)

theorem eq_pair {c : Coder (.pair κ ω)} (h : BindsOutput key output (.ok (some c))) :
    ∃ k o, key = some k ∧ c = .pair k o := by
  cases key with
  | none => cases h.keyless rfl
  | some k =>
    cases output with
    | ok o =>
      cases h.bound k o rfl rfl
      exact ⟨k, o, rfl, rfl⟩
    | error e =>
      cases he : e.isCannotProvide with
      | true => cases h.unavailable e rfl he
      | false => cases (h.refused_iff (.coder e)).mpr ⟨rfl, e, rfl, he, rfl⟩

end BindsOutput

/-- A key coder that is unavailable passes over whatever the output coder fails with. -/
theorem bindPairCoder_unavailable {e : CoderError} (he : e.isCannotProvide = true)
    (out : Collection (.pair κ ω)) (output : Except CoderError (Coder ω)) :
    bindPairCoder out (.error e) output = .ok out := by
  cases output with
  | ok o => exact if_pos he
  | error f => exact if_pos (by rw [he, Bool.true_or])

end Binding

namespace KeyedCombiner
variable (comb : KeyedCombiner κ ι α ω) (r : CoderRegistry B) {key : Option (Coder κ)}
  {input : Option (Coder ι)}

/-- The coder that the combiner gives its outputs over a grouping with these coders, which passes on
both or neither. -/
def groupedOutput (key : Option (Coder κ)) (input : Option (Coder ι)) :
    Except CoderError (Coder ω) :=
  match key, input with
  | some k, some i => comb.outputCoder r (some k) (some i)
  | _, _ => comb.outputCoder r none none

theorem pairCoder_bindsOutput (key : Option (Coder κ)) (input : Option (Coder ι)) :
    BindsOutput (key.orElse fun _ => r.find? κ) (comb.outputCoder r key input)
      (comb.pairCoder r key input) := by
  cases key with
  | some k => exact .of_key k _
  | none =>
    cases hfind : r.find? κ with
    | some k =>
      have hcoder : inputOrRegistered r κ none = .ok k := by
        rw [inputOrRegistered, CoderRegistry.coderFor, hfind]
      rw [pairCoder, hcoder]
      exact .of_key k _
    | none =>
      have hcoder : inputOrRegistered r κ none =
          .error (.cannotProvide κ.typeName "no coder registered for this type") := by
        rw [inputOrRegistered, CoderRegistry.coderFor, hfind]
      rw [pairCoder, hcoder, bindPairCoder_unavailable rfl]
      exact .deferred (.inl rfl)

theorem groupedCoder_bindsOutput (hkey : key = r.find? κ ∨ key.isSome ∧ input.isSome) :
    BindsOutput key (comb.groupedOutput r key input) (comb.groupedCoder r key input) := by
  have hregistered (hkey : key = r.find? κ) :
      BindsOutput key (comb.outputCoder r none none) (comb.pairCoder r none none) := by
    rw [hkey]
    exact comb.pairCoder_bindsOutput r none none
  cases key with
  | none =>
    obtain hkey | ⟨hnone, _⟩ := hkey
    · exact hregistered hkey
    · cases hnone
  | some k =>
    cases input with
    | none =>
      obtain hkey | ⟨_, hnone⟩ := hkey
      · exact hregistered hkey
      · cases hnone
    | some i => exact comb.pairCoder_bindsOutput r (some k) (some i)

theorem eq_pair_of_groupedCoder {comb : KeyedCombiner κ ι α ω} {r : CoderRegistry B}
    {c : Coder (.pair κ ω)} (hkey : key = r.find? κ ∨ key.isSome ∧ input.isSome)
    (h : comb.groupedCoder r key input = .ok (some c)) : ∃ k o, key = some k ∧ c = .pair k o := by
  have hbinds := comb.groupedCoder_bindsOutput r hkey
  rw [h] at hbinds
  exact hbinds.eq_pair

end KeyedCombiner
end KeyedFlow
