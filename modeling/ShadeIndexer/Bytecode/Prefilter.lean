import ShadeIndexer.Bytecode.Bloom
import ShadeIndexer.Bytecode.Scan

/-!
The layered usage that the crate documents: the scan runs only if the Bloom
filter accepts some window of the runtime whose length is that of a selector.
The filter misses no selector, but the scan also raises a flag for what is not
in the runtime.
-/

namespace ShadeIndexer.Bytecode

open ShadeIndexer.Core Lib.Rust Lib.Subsequence

/-- The windows of the runtime that are as long as some selector of the set. -/
def selectorWindows (sigs : SignatureSet) (runtime : Bytes) : List Bytes :=
  sigs.bySelector.entries.flatMap fun entry => windows entry.1.length runtime

/-- Whether the filter accepts one of them. -/
def prefilter (digest : Digest) (bloom : Bloom) (sigs : SignatureSet) (runtime : Bytes) : Bool :=
  (selectorWindows sigs runtime).any fun w => (bloom.contains digest w).toOption == some true

/-- The mask when the scan runs behind the filter. -/
def layeredScan (digest : Digest) (bloom : Bloom) (sigs : SignatureSet) (runtime : Bytes) :
    Flags :=
  if prefilter digest bloom sigs runtime then (scanBytecode runtime sigs).1 else 0

/-- The filter loses no detection on the runtime: if the scan raises a flag,
some window is accepted, and the layers together raise what the scan raises. -/
structure Lossless (digest : Digest) (bloom : Bloom) (sigs : SignatureSet) (runtime : Bytes) :
    Prop where
  window : (scanBytecode runtime sigs).1 ≠ 0 →
    ∃ w, w <:+: runtime ∧ (∃ entry ∈ sigs.bySelector.entries, w.length = entry.1.length) ∧
      bloom.contains digest w = .ok true
  sameMask : layeredScan digest bloom sigs runtime = (scanBytecode runtime sigs).1

/-- A filter into which every selector of the set has been inserted, and
possibly more. -/
def Covers (digest : Digest) (bloom : Bloom) (sigs : SignatureSet) : Prop :=
  ∃ mBits k start items, Bloom.new mBits k = some start ∧
    Bloom.insertAll digest items start = .ok bloom ∧
    ∀ entry ∈ sigs.bySelector.entries, entry.1 ∈ items

theorem prefilter_iff (digest : Digest) (bloom : Bloom) (sigs : SignatureSet) (runtime : Bytes) :
    prefilter digest bloom sigs runtime = true ↔
      ∃ w, w <:+: runtime ∧ (∃ entry ∈ sigs.bySelector.entries, w.length = entry.1.length) ∧
        bloom.contains digest w = .ok true := by
  have haccepts (w : Bytes) : ((bloom.contains digest w).toOption == some true) = true ↔
      bloom.contains digest w = .ok true := by
    cases bloom.contains digest w <;> simp [Except.toOption]
  simp only [prefilter, List.any_eq_true, haccepts, selectorWindows, List.mem_flatMap]
  constructor
  · rintro ⟨w, ⟨entry, hentry, hw⟩, haccepted⟩
    obtain ⟨hlength, hinfix⟩ := (mem_windows _ _ _).mp hw
    exact ⟨w, hinfix, ⟨entry, hentry, hlength⟩, haccepted⟩
  · rintro ⟨w, hinfix, ⟨entry, hentry, hlength⟩, haccepted⟩
    exact ⟨w, ⟨entry, hentry, (mem_windows _ _ _).mpr ⟨hlength, hinfix⟩⟩, haccepted⟩

/-- A filter that fires whenever the scan raises a flag is lossless. -/
theorem lossless_of_fires {digest : Digest} {bloom : Bloom} {sigs : SignatureSet}
    {runtime : Bytes}
    (h : (scanBytecode runtime sigs).1 ≠ 0 → prefilter digest bloom sigs runtime = true) :
    Lossless digest bloom sigs runtime where
  window := fun hmask => (prefilter_iff digest bloom sigs runtime).mp (h hmask)
  sameMask := by
    rw [layeredScan]
    split
    · rfl
    · rename_i hsilent
      exact (not_not.mp fun hmask => hsilent (h hmask)).symm

theorem Covers.contains {digest : Digest} {bloom : Bloom} {sigs : SignatureSet}
    (h : Covers digest bloom sigs) {entry : Entry} (hentry : entry ∈ sigs.bySelector.entries) :
    bloom.contains digest entry.1 = .ok true := by
  obtain ⟨mBits, k, start, items, hnew, hinsert, hitems⟩ := h
  have hholds := Bloom.built_holds digest hnew hinsert
  exact hholds.no_false_negative (hitems entry hentry)

theorem infix_of_containsSubseq {haystack needle : Bytes}
    (h : containsSubseq haystack needle = true) : needle <:+: haystack := by
  rcases eq_or_ne needle [] with rfl | hne
  · exact List.nil_infix
  · exact (containsSubseq_iff haystack needle hne).mp h

/-- The loop over the signatures raises a flag only for a selector that occurs. -/
theorem scanEntries_mask_ne_zero (runtime : Bytes) (entries : List Entry) (st : ScanState)
    (h : (scanEntries runtime entries st).mask ≠ 0) :
    st.mask ≠ 0 ∨ ∃ entry ∈ entries, entry.1 <:+: runtime := by
  induction entries generalizing st with
  | nil => exact Or.inl h
  | cons entry rest ih =>
      rcases ih (scanEntry runtime st entry) h with hstep | ⟨e, he, hoccurs⟩
      · simp only [scanEntry] at hstep
        split at hstep
        · exact Or.inl hstep
        · split at hstep
          · rename_i hraised
            have hcontains := (Bool.and_eq_true_iff.mp hraised).2
            exact Or.inr ⟨entry, List.mem_cons_self .., infix_of_containsSubseq hcontains⟩
          · exact Or.inl hstep
      · exact Or.inr ⟨e, List.mem_cons_of_mem _ he, hoccurs⟩

/-- A flag is raised for a selector that occurs or by the honeypot heuristic. -/
theorem scanBytecode_ne_zero (sigs : SignatureSet) (runtime : Bytes)
    (h : (scanBytecode runtime sigs).1 ≠ 0) :
    HoneypotFires sigs runtime ∨ ∃ entry ∈ sigs.bySelector.entries, entry.1 <:+: runtime := by
  rcases scanBytecode_mask runtime sigs with ⟨hfires, _⟩ | ⟨_, hmask⟩
  · exact Or.inl hfires
  · rw [hmask] at h
    rcases scanEntries_mask_ne_zero runtime _ _ h with hzero | hoccurs
    · exact absurd rfl hzero
    · exact Or.inr hoccurs

theorem scanBytecode_ne_zero_of_fires (sigs : SignatureSet) (runtime : Bytes)
    (h : HoneypotFires sigs runtime) : (scanBytecode runtime sigs).1 ≠ 0 := by
  rcases scanBytecode_mask runtime sigs with ⟨_, hmask⟩ | ⟨hsilent, _⟩
  · rw [hmask]
    intro hzero
    have hbit := (BitVec.or_eq_zero_iff.mp hzero).2
    revert hbit
    decide
  · exact absurd h hsilent

/-- A selector of the set that occurs is a window that the filter accepts. -/
theorem Covers.fires {digest : Digest} {bloom : Bloom} {sigs : SignatureSet} {runtime : Bytes}
    (hcovers : Covers digest bloom sigs)
    (h : ∃ entry ∈ sigs.bySelector.entries, entry.1 <:+: runtime) :
    prefilter digest bloom sigs runtime = true := by
  obtain ⟨entry, hentry, hoccurs⟩ := h
  rw [prefilter_iff]
  exact ⟨entry.1, hoccurs, ⟨entry, hentry, rfl⟩, hcovers.contains hentry⟩

/-- A digest that sends the selectors of the set to one position and every
other byte string to the next. -/
def markingDigest (sigs : SignatureSet) : Digest := fun item =>
  if item ∈ sigs.bySelector.entries.map Sigma.fst then .repeatByte 16 0
  else ⟨1 :: List.replicate 15 0, rfl⟩

theorem markingDigest_probes (sigs : SignatureSet) (item : Bytes) :
    probes (markingDigest sigs) 64 1 item =
      if item ∈ sigs.bySelector.entries.map Sigma.fst then [0] else [1] := by
  rcases em (item ∈ sigs.bySelector.entries.map Sigma.fst) with h | h
  · simp only [probes, doubleHash, markingDigest, if_pos h]
    rfl
  · simp only [probes, doubleHash, markingDigest, if_neg h]
    rfl

/-- With that digest a filter of the selectors accepts the selectors only. -/
theorem exists_sharp_filter (sigs : SignatureSet) :
    ∃ bloom, Covers (markingDigest sigs) bloom sigs ∧
      ∀ w, bloom.contains (markingDigest sigs) w = .ok true →
        w ∈ sigs.bySelector.entries.map Sigma.fst := by
  obtain ⟨bloom, hinsert, hholds⟩ := Bloom.insertAll_spec (markingDigest sigs)
    (sigs.bySelector.entries.map Sigma.fst) [] _
    (Bloom.empty_holds (markingDigest sigs) 64 1 (by decide) (by decide))
  have hnew := Bloom.new_eq 64 1 (by decide) (by decide)
  refine ⟨bloom, ⟨64, 1, _, _, hnew, hinsert, fun entry hentry =>
    List.mem_map_of_mem hentry⟩, ?_⟩
  intro w haccepted
  obtain ⟨answer, hrun, hanswer⟩ := hholds.contains w
  obtain rfl : answer = true := Except.ok.inj (hrun.symm.trans haccepted)
  have hcovered := hanswer.mp rfl
  by_contra hother
  have hprobe : (1 : UInt64) ∈ probes (markingDigest sigs) 64 1 w := by
    rw [markingDigest_probes, if_neg hother]
    exact List.mem_singleton_self _
  obtain ⟨x, hx, hshared⟩ := hcovered 1 hprobe
  rw [List.nil_append] at hx
  rw [markingDigest_probes, if_pos hx] at hshared
  revert hshared
  decide

/-- What a lossless filter needs: the sharp filter misses every window of a
runtime in which no selector occurs. -/
theorem occurs_of_lossless {sigs : SignatureSet} {runtime : Bytes}
    (hlossless : ∀ digest bloom, Covers digest bloom sigs → Lossless digest bloom sigs runtime)
    (hfires : HoneypotFires sigs runtime) :
    ∃ entry ∈ sigs.bySelector.entries, entry.1 <:+: runtime := by
  obtain ⟨bloom, hcovers, hsharp⟩ := exists_sharp_filter sigs
  obtain ⟨w, hoccurs, _, haccepted⟩ := (hlossless _ bloom hcovers).window
    (scanBytecode_ne_zero_of_fires sigs runtime hfires)
  obtain ⟨entry, hentry, rfl⟩ := List.mem_map.mp (hsharp w haccepted)
  exact ⟨entry, hentry, hoccurs⟩

/-- On a runtime no filter for the set loses a detection, exactly if the
honeypot heuristic does not fire or some selector of the set occurs. -/
theorem lossless_iff (sigs : SignatureSet) (runtime : Bytes) :
    (∀ digest bloom, Covers digest bloom sigs → Lossless digest bloom sigs runtime) ↔
      (¬ HoneypotFires sigs runtime ∨
        ∃ entry ∈ sigs.bySelector.entries, entry.1 <:+: runtime) := by
  constructor
  · intro hlossless
    exact or_iff_not_imp_left.mpr fun hfires =>
      occurs_of_lossless hlossless (not_not.mp hfires)
  · intro hcondition digest bloom hcovers
    apply lossless_of_fires
    intro hmask
    apply hcovers.fires
    rcases scanBytecode_ne_zero sigs runtime hmask with hfires | hoccurs
    · exact hcondition.resolve_left (not_not.mpr hfires)
    · exact hoccurs

/-- A runtime that has nothing but `balanceOf` is flagged as a honeypot, and a
filter for the builtin set need not accept any of its windows. -/
theorem bare_balanceOf_is_lost :
    ¬ ∀ (sigs : SignatureSet) (digest : Digest) (bloom : Bloom) (runtime : Bytes),
      Covers digest bloom sigs → Lossless digest bloom sigs runtime := by
  intro h
  have hfires : HoneypotFires SignatureSet.builtin BALANCE_OF_SELECTOR := by
    refine ⟨fun hlisted => ?_, Or.inl (List.infix_refl _)⟩
    have hequal := hlisted.2.eq_of_length rfl
    revert hequal
    decide
  obtain ⟨entry, hentry, hoccurs⟩ := occurs_of_lossless
    (fun digest bloom => h SignatureSet.builtin digest bloom BALANCE_OF_SELECTOR) hfires
  have hbuiltin : ∀ entry ∈ SignatureSet.builtin.bySelector.entries,
      entry.1.length = BALANCE_OF_SELECTOR.length ∧ entry.1 ≠ BALANCE_OF_SELECTOR := by
    decide
  obtain ⟨hlength, hne⟩ := hbuiltin entry hentry
  exact hne (hoccurs.eq_of_length hlength)

end ShadeIndexer.Bytecode
