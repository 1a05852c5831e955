import ShadeIndexer.Bytecode.SignatureFile

/-!
The names of a signature file. They are meant for telemetry, but the scan looks
for one of them: a signature that has it raises no flag, and with it the
heuristic asks for the transfer selector.
-/

namespace ShadeIndexer.Bytecode

open Lib.LastWins Lib.Masks

/-- What is left of a signature without its name. -/
def nameless (s : KnownSignature) : String × Flags := (s.selector, s.flag)

/-- `selectorBytes`, which does not read the name. -/
def namelessBytes (x : String × Flags) : List UInt8 :=
  (Lib.Hex.decodeChars (Lib.Hex.strip0x x.1.toList)).getD []

/-- The two lists agree, position by position, on selector and flag. -/
def SameButNames (items items' : List KnownSignature) : Prop :=
  items'.map nameless = items.map nameless

/-- A kept signature with another name than the transfer function raises the
bit. -/
def RaisedBySignature (items : List KnownSignature) (runtime : List UInt8) (i : Nat) : Prop :=
  ∃ s, Kept selectorBytes items s ∧ ¬ NamedTransfer s ∧ Occurs runtime (selectorBytes s) ∧
    s.flag.getLsbD i = true

/-- What the first list does not raise, because it gives a name that the second
list does not give, it raises otherwise: the flag of the signature that has the
name, and the honeypot bit of the heuristic that the name puts off. -/
structure MakesUpFor (items items' : List KnownSignature) (runtime : List UInt8) : Prop where
  flags : ∀ s t, Kept selectorBytes items s → Kept selectorBytes items' t →
    selectorBytes s = selectorBytes t → NamedTransfer s → ¬ NamedTransfer t →
    Occurs runtime (selectorBytes t) → ∀ i, t.flag.getLsbD i = true →
      RaisedBySignature items runtime i ∨
        (ListFires items runtime ∧ BYTECODE_HONEYPOT.getLsbD i = true)
  heuristic : (∃ s, Kept selectorBytes items s ∧ NamedTransfer s) →
    (∀ t, Kept selectorBytes items' t → ¬ NamedTransfer t) →
    TRANSFER_SELECTOR <:+: runtime → AdvertisesErc20 runtime →
    ∀ i, BYTECODE_HONEYPOT.getLsbD i = true → RaisedBySignature items runtime i

/-- Every signature under one name. -/
def renameAll (name : String) (items : List KnownSignature) : List KnownSignature :=
  items.map fun s => { s with name := name }

variable {items items' : List KnownSignature} {runtime : List UInt8} {i : Nat}

theorem SameButNames.symm (h : SameButNames items items') : SameButNames items' items :=
  Eq.symm h

/-- A property of selector and flag holds of a kept signature in both lists. -/
theorem SameButNames.exists_kept (h : SameButNames items items') (p : String × Flags → Prop) :
    (∃ s, Kept selectorBytes items s ∧ p (nameless s)) ↔
      ∃ s, Kept selectorBytes items' s ∧ p (nameless s) := by
  have hkept (l : List KnownSignature) : (∃ s, Kept selectorBytes l s ∧ p (nameless s)) ↔
      ∃ x, Kept namelessBytes (l.map nameless) x ∧ p x := by
    constructor
    · rintro ⟨s, hs, hp⟩
      exact ⟨nameless s, (kept_map nameless l _).mpr ⟨s, hs, rfl⟩, hp⟩
    · rintro ⟨x, hx, hp⟩
      obtain ⟨s, hs, rfl⟩ := (kept_map nameless l _).mp hx
      exact ⟨s, hs, hp⟩
  rw [hkept, hkept, h]

theorem selectorBytes_of_nameless {s t : KnownSignature} (h : nameless s = nameless t) :
    selectorBytes s = selectorBytes t := by
  have hselector : s.selector = t.selector := congrArg Prod.fst h
  rw [selectorBytes, selectorBytes, selectorBytes?, selectorBytes?, hselector]

theorem sameButNames_renameAll (name : String) (items : List KnownSignature) :
    SameButNames items (renameAll name items) := by
  simp [SameButNames, renameAll, nameless]

/-- The first list raises every bit that the second one raises, exactly if it
makes up for the names that only it gives. -/
theorem raises_iff_makesUpFor {sigs sigs' : SignatureSet} (hsame : SameButNames items items')
    (hloads : Loads items sigs) (hloads' : Loads items' sigs') :
    Raises (scanBytecode runtime sigs).1 (scanBytecode runtime sigs').1 ↔
      MakesUpFor items items' runtime := by
  constructor
  · intro hraises
    constructor
    · intro s t _ ht _ _ hname hoccurs i hbit
      have hraised := (hloads'.bit_iff runtime i).mpr (Or.inl ⟨t, ht, hname, hoccurs, hbit⟩)
      exact (hloads.bit_iff runtime i).mp (hraises i hraised)
    · intro hnamed hplain hoccurs hadvertises i hhoneypot
      have hfires : ListFires items' runtime :=
        ⟨fun h => hplain _ h.1.choose_spec.1 h.1.choose_spec.2, hadvertises⟩
      have hraised := (hloads'.bit_iff runtime i).mpr (Or.inr ⟨hfires, hhoneypot⟩)
      rcases (hloads.bit_iff runtime i).mp (hraises i hraised) with hflag | ⟨hfires, _⟩
      · exact hflag
      · exact absurd ⟨hnamed, hoccurs⟩ hfires.1
  · intro hmakes i hbit
    rw [hloads.bit_iff]
    rcases (hloads'.bit_iff runtime i).mp hbit with
      ⟨t, ht, hname, hoccurs, hflag⟩ | ⟨hfires, hhoneypot⟩
    · obtain ⟨s, hs, heq⟩ := (hsame.exists_kept fun x => x = nameless t).mpr ⟨t, ht, rfl⟩
      have hkey := selectorBytes_of_nameless heq
      by_cases hnamed : NamedTransfer s
      · exact hmakes.flags s t hs ht hkey hnamed hname hoccurs i hflag
      · have hsameFlag : s.flag = t.flag := congrArg Prod.snd heq
        exact Or.inl ⟨s, hs, hnamed, hkey ▸ hoccurs, hsameFlag ▸ hflag⟩
    · by_cases hown : ListFires items runtime
      · exact Or.inr ⟨hown, hhoneypot⟩
      · obtain ⟨hnamed, hoccurs⟩ := not_not.mp fun hsafe => hown ⟨hsafe, hfires.2⟩
        have hplain : ∀ t, Kept selectorBytes items' t → ¬ NamedTransfer t :=
          fun t ht hname => hfires.1 ⟨⟨t, ht, hname⟩, hoccurs⟩
        exact Or.inl (hmakes.heuristic hnamed hplain hoccurs hfires.2 i hhoneypot)

/-- Two lists that differ in names only give the same mask on a runtime exactly
if each makes up for the names that only it gives. -/
theorem sameMask_iff (items items' : List KnownSignature) (sigs sigs' : SignatureSet)
    (runtime : List UInt8) (hsame : SameButNames items items') (hloads : Loads items sigs)
    (hloads' : Loads items' sigs') :
    (scanBytecode runtime sigs').1 = (scanBytecode runtime sigs).1 ↔
      MakesUpFor items items' runtime ∧ MakesUpFor items' items runtime := by
  rw [← raises_iff_makesUpFor hsame hloads hloads',
    ← raises_iff_makesUpFor hsame.symm hloads' hloads, ext_iff]
  constructor
  · intro h
    exact ⟨fun i => (h i).mp, fun i => (h i).mpr⟩
  · rintro ⟨hto, hfrom⟩ i
    exact ⟨hto i, hfrom i⟩

/-- A renaming that never takes the transfer name away leaves nothing to make
up for. -/
theorem makesUpFor_of_agreeing (hsame : SameButNames items items')
    (h : ∀ s ∈ items, ∀ t ∈ items', selectorBytes s = selectorBytes t →
      NamedTransfer s → NamedTransfer t) : MakesUpFor items items' runtime where
  flags := by
    intro s t hs ht hkey hnamed hplain
    exact absurd (h s hs.mem t ht.mem hkey hnamed) hplain
  heuristic := by
    rintro ⟨s, hs, hnamed⟩ hplain
    obtain ⟨t, ht, heq⟩ := (hsame.exists_kept fun x => x = nameless s).mp ⟨s, hs, rfl⟩
    have hkey := selectorBytes_of_nameless heq
    exact absurd (h s hs.mem t ht.mem hkey.symm hnamed) (hplain t ht)

/-- The builtin list with another name for `pause()`. -/
def haltItems : List KnownSignature :=
  SignatureSet.builtinItems.map fun s =>
    if s.name = "pause()" then { s with name := "halt()" } else s

/-- The runtime contains the selector of the renamed signature. -/
theorem sameMask_halt :
    (scanBytecode mintableToken ⟨loadSignatures haltItems⟩).1 =
        (scanBytecode mintableToken ⟨loadSignatures SignatureSet.builtinItems⟩).1 ∧
      (scanBytecode mintableToken ⟨loadSignatures haltItems⟩).2 =
        ["halt()", "mint(address,uint256)"] := by
  have hsame : SameButNames SignatureSet.builtinItems haltItems := rfl
  refine ⟨?_, by decide⟩
  apply (sameMask_iff _ _ _ _ mintableToken hsame (loads_of_accepted (by decide))
    (loads_of_accepted (by decide))).mpr
  exact ⟨makesUpFor_of_agreeing hsame (by decide), makesUpFor_of_agreeing hsame.symm (by decide)⟩

/-- The blacklist selector is not reported under the name of the transfer
function. -/
theorem name_decides_over_flag :
    ¬ ∀ (items items' : List KnownSignature) (sigs sigs' : SignatureSet) (runtime : List UInt8),
      SameButNames items items' → Loads items sigs → Loads items' sigs' →
        (scanBytecode runtime sigs').1 = (scanBytecode runtime sigs).1 := by
  intro h
  have hmask := h blacklistItems (renameAll "transfer(address,uint256)" blacklistItems) _ _
    [0xf9, 0xf9, 0x2b, 0xe4] (sameButNames_renameAll _ _) (loads_of_accepted (by decide))
    (loads_of_accepted (by decide))
  revert hmask
  decide

end ShadeIndexer.Bytecode
