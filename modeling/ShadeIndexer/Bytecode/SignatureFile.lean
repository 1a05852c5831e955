import ShadeIndexer.Bytecode.ScanSpec
import ShadeIndexer.Lib.LastWins

/-!
A signature file and what a scan makes of it. Loading keeps one signature for
each selector, the last that spells it, and the scan passes over the flags of a
signature that has the name of the transfer function. So two things that a file
does not show decide over the mask: what comes last, and what it is called.
-/

namespace ShadeIndexer.Bytecode

open Lib.LastWins Lib.Masks

/-- The bytes that the text of the selector spells. -/
def selectorBytes? (s : KnownSignature) : Option (List UInt8) :=
  Lib.Hex.decodeChars (Lib.Hex.strip0x s.selector.toList)

def selectorBytes (s : KnownSignature) : List UInt8 := (selectorBytes? s).getD []

/-- The map of the signatures, keyed by what their selectors spell. -/
abbrev loadSignatures (items : List KnownSignature) :
    AList (fun _ : List UInt8 => Flags × String) :=
  load selectorBytes (fun s => (s.flag, s.name)) items

/-- The signature has the name that the scan looks for. -/
def NamedTransfer (s : KnownSignature) : Prop := s.name = "transfer(address,uint256)"

instance (s : KnownSignature) : Decidable (NamedTransfer s) :=
  inferInstanceAs (Decidable (_ = _))

/-- The list is accepted, and the set holds what it loads, in some iteration
order. -/
def Loads (items : List KnownSignature) (sigs : SignatureSet) : Prop :=
  ∃ set, SignatureSet.tryFromIter items = .ok set ∧
    sigs.bySelector.entries.Perm set.bySelector.entries

theorem foldlM_insertSignature (items : List KnownSignature) (set : SignatureSet) :
    (items.foldlM SignatureSet.insertSignature set).toOption =
      if ∀ s ∈ items, (selectorBytes? s).isSome then
        some ⟨items.foldl (fun m s => m.insert (selectorBytes s) (s.flag, s.name))
          set.bySelector⟩
      else none := by
  induction items generalizing set with
  | nil => simp [Except.toOption, pure, Except.pure]
  | cons s rest ih =>
      rw [List.foldlM_cons]
      cases hbytes : selectorBytes? s with
      | none =>
          have hfail : SignatureSet.insertSignature set s = .error (.hex s.selector) := by
            unfold selectorBytes? at hbytes
            rw [SignatureSet.insertSignature, hbytes]
          rw [hfail, if_neg]
          · rfl
          · intro hall
            have hsome := hall s (List.mem_cons_self ..)
            rw [hbytes] at hsome
            cases hsome
      | some bytes =>
          have hinsert : SignatureSet.insertSignature set s =
              .ok ⟨set.bySelector.insert (selectorBytes s) (s.flag, s.name)⟩ := by
            have hspelled : selectorBytes s = bytes := by rw [selectorBytes, hbytes]; rfl
            unfold selectorBytes? at hbytes
            rw [SignatureSet.insertSignature, hbytes, hspelled]
          rw [hinsert]
          refine (ih _).trans ?_
          simp [hbytes]

theorem tryFromIter_iff (items : List KnownSignature) (set : SignatureSet) :
    SignatureSet.tryFromIter items = .ok set ↔
      (∀ s ∈ items, (selectorBytes? s).isSome) ∧ set.bySelector = loadSignatures items := by
  have hfold := foldlM_insertSignature items ⟨∅⟩
  have hok : SignatureSet.tryFromIter items = .ok set ↔
      (SignatureSet.tryFromIter items).toOption = some set := by
    cases SignatureSet.tryFromIter items <;> simp [Except.toOption]
  rw [hok, SignatureSet.tryFromIter, hfold]
  split
  next hall =>
    rw [Option.some.injEq]
    constructor
    · rintro rfl
      exact ⟨hall, rfl⟩
    · rintro ⟨_, hset⟩
      cases set
      cases hset
      rfl
  next hall => simp [hall]

theorem Loads.accepted {items : List KnownSignature} {sigs : SignatureSet}
    (h : Loads items sigs) : ∀ s ∈ items, (selectorBytes? s).isSome := by
  obtain ⟨set, hset, _⟩ := h
  exact ((tryFromIter_iff items set).mp hset).1

theorem loads_of_accepted {items : List KnownSignature}
    (h : ∀ s ∈ items, (selectorBytes? s).isSome) : Loads items ⟨loadSignatures items⟩ :=
  ⟨_, (tryFromIter_iff items _).mpr ⟨h, rfl⟩, List.Perm.refl _⟩

/-- The entries of a loaded set are the signatures that are kept. -/
theorem Loads.mem_iff {items : List KnownSignature} {sigs : SignatureSet} (h : Loads items sigs)
    (entry : Entry) :
    entry ∈ sigs.bySelector.entries ↔
      ∃ s, Kept selectorBytes items s ∧ entry = ⟨selectorBytes s, (s.flag, s.name)⟩ := by
  obtain ⟨set, hset, hperm⟩ := h
  have hload := ((tryFromIter_iff items set).mp hset).2
  obtain ⟨selector, value⟩ := entry
  rw [hperm.mem_iff, hload, mem_load]
  constructor
  · rintro ⟨s, hkept, rfl, rfl⟩
    exact ⟨s, hkept, rfl⟩
  · rintro ⟨s, hkept, heq⟩
    cases heq
    exact ⟨s, hkept, rfl, rfl⟩

/-- The heuristic fires on a loaded list, given which signatures are kept. -/
def ListFires (items : List KnownSignature) (runtime : List UInt8) : Prop :=
  ¬ ((∃ s, Kept selectorBytes items s ∧ NamedTransfer s) ∧ TRANSFER_SELECTOR <:+: runtime) ∧
    AdvertisesErc20 runtime

theorem Loads.fires_iff {items : List KnownSignature} {sigs : SignatureSet} (h : Loads items sigs)
    (runtime : List UInt8) : HoneypotFires sigs runtime ↔ ListFires items runtime := by
  have hlisted : TransferListed sigs ↔ ∃ s, Kept selectorBytes items s ∧ NamedTransfer s := by
    constructor
    · rintro ⟨entry, hentry, hname⟩
      obtain ⟨s, hkept, rfl⟩ := (h.mem_iff entry).mp hentry
      exact ⟨s, hkept, hname⟩
    · rintro ⟨s, hkept, hname⟩
      exact ⟨_, (h.mem_iff _).mpr ⟨s, hkept, rfl⟩, hname⟩
  rw [HoneypotFires, ListFires, hlisted]

/-- A bit of the mask comes from a kept signature whose selector occurs and
that is not named after the transfer function, or from the heuristic. -/
theorem Loads.bit_iff {items : List KnownSignature} {sigs : SignatureSet} (h : Loads items sigs)
    (runtime : List UInt8) (i : Nat) :
    (scanBytecode runtime sigs).1.getLsbD i = true ↔
      (∃ s, Kept selectorBytes items s ∧ ¬ NamedTransfer s ∧ Occurs runtime (selectorBytes s) ∧
        s.flag.getLsbD i = true) ∨
      (ListFires items runtime ∧ BYTECODE_HONEYPOT.getLsbD i = true) := by
  rw [scanBytecode_bit, h.fires_iff]
  apply or_congr_left
  constructor
  · rintro ⟨entry, hentry, ⟨hname, hoccurs⟩, hbit⟩
    obtain ⟨s, hkept, rfl⟩ := (h.mem_iff entry).mp hentry
    exact ⟨s, hkept, hname, hoccurs, hbit⟩
  · rintro ⟨s, hkept, hname, hoccurs, hbit⟩
    exact ⟨_, (h.mem_iff _).mpr ⟨s, hkept, rfl⟩, ⟨hname, hoccurs⟩, hbit⟩

end ShadeIndexer.Bytecode
