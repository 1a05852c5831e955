import Mathlib.Algebra.Order.Group.Multiset
import ShadeIndexer.Bytecode.Scan
import ShadeIndexer.Lib.Masks

/-!
The scan against a specification that knows no order. Each entry of the map is
judged on its own, the flags of those that are reported are put together, and
the names are counted. So the order in which the loop meets the entries does
not matter.
-/

namespace ShadeIndexer.Bytecode

open Lib.Subsequence Lib.Masks

/-- `runtime[i..i + selector.len()] == selector` for some `i`. An empty selector
is found nowhere. -/
def Occurs (runtime selector : List UInt8) : Prop :=
  selector ≠ [] ∧ ∃ i, i + selector.length ≤ runtime.length ∧
    (runtime.drop i).take selector.length = selector

theorem infix_iff_slice (runtime selector : List UInt8) :
    selector <:+: runtime ↔ ∃ i, i + selector.length ≤ runtime.length ∧
      (runtime.drop i).take selector.length = selector := by
  have hwindow := mem_windows selector.length runtime selector
  rw [windows, List.mem_map] at hwindow
  constructor
  · intro h
    obtain ⟨i, hi, hslice⟩ := hwindow.mpr ⟨rfl, h⟩
    have hbound := List.mem_range.mp hi
    exact ⟨i, by omega, hslice⟩
  · rintro ⟨i, hi, hslice⟩
    exact (hwindow.mp ⟨i, List.mem_range.mpr (by omega), hslice⟩).2

theorem occurs_iff_isInfix (runtime selector : List UInt8) :
    Occurs runtime selector ↔ selector ≠ [] ∧ selector <:+: runtime := by
  rw [Occurs, infix_iff_slice]

theorem containsSubseq_iff_occurs (runtime selector : List UInt8) :
    containsSubseq runtime selector = true ↔ Occurs runtime selector := by
  rw [occurs_iff_isInfix]
  rcases eq_or_ne selector [] with rfl | hne
  · simp [containsSubseq]
  · rw [containsSubseq_iff runtime selector hne]
    exact ⟨fun h => ⟨hne, h⟩, fun h => h.2⟩

instance (runtime selector : List UInt8) : Decidable (Occurs runtime selector) :=
  decidable_of_iff _ (containsSubseq_iff_occurs runtime selector)

/-- The entry is not the one kept for the transfer check, and its selector
occurs. -/
def Reported (runtime : List UInt8) (entry : Entry) : Prop :=
  entry.2.2 ≠ "transfer(address,uint256)" ∧ Occurs runtime entry.1

instance (runtime : List UInt8) (entry : Entry) : Decidable (Reported runtime entry) :=
  inferInstanceAs (Decidable (_ ∧ _))

instance (sigs : SignatureSet) : Decidable (TransferListed sigs) :=
  inferInstanceAs (Decidable (∃ _ ∈ _, _))

instance (sigs : SignatureSet) (runtime : List UInt8) : Decidable (HoneypotFires sigs runtime) :=
  inferInstanceAs (Decidable (¬ (_ ∧ _) ∧ (_ ∨ _)))

/-- The flags of the reported entries, put together. -/
def reportedFlags (entries : List Entry) (runtime : List UInt8) : Flags :=
  orAll ((entries.filter fun entry => Reported runtime entry).map fun entry => entry.2.1)

/-- The names of the reported entries that carry a flag. -/
def reportedNames (entries : List Entry) (runtime : List UInt8) : List String :=
  (entries.filter fun entry => Reported runtime entry ∧ entry.2.1 ≠ 0).map fun entry => entry.2.2

/-- What a scan of the runtime returns, whatever the order of the map. -/
structure ScanExact (sigs : SignatureSet) (runtime : List UInt8)
    (result : Flags × List String) : Prop where
  flags : result.1 &&& ~~~BYTECODE_HONEYPOT =
    reportedFlags sigs.bySelector.entries runtime &&& ~~~BYTECODE_HONEYPOT
  honeypot : result.1 = reportedFlags sigs.bySelector.entries runtime |||
    if HoneypotFires sigs runtime then BYTECODE_HONEYPOT else 0
  names : (result.2 : Multiset String) =
    (reportedNames sigs.bySelector.entries runtime : Multiset String) +
      if HoneypotFires sigs runtime then {"honeypot:no-transfer"} else 0
  detected : result.1 ≠ 0 ↔ result.2 ≠ []

/-- What one entry adds to the mask and the names. -/
theorem scanEntry_spec (runtime : List UInt8) (st : ScanState) (entry : Entry) :
    (scanEntry runtime st entry).mask = st.mask ||| reportedFlags [entry] runtime ∧
      (scanEntry runtime st entry).hitNames = st.hitNames ++ reportedNames [entry] runtime := by
  obtain ⟨selector, flag, name⟩ := entry
  have hcontains := containsSubseq_iff_occurs runtime selector
  by_cases hname : name = "transfer(address,uint256)"
  · simp [scanEntry, reportedFlags, reportedNames, Reported, hname, orAll]
  · by_cases hoccurs : Occurs runtime selector
    · have hfound := hcontains.mpr hoccurs
      by_cases hflag : flag = 0#32
      · simp [scanEntry, reportedFlags, reportedNames, Reported, hname, hoccurs, hflag, orAll]
      · simp [scanEntry, reportedFlags, reportedNames, Reported, hname, hoccurs, hflag, hfound,
          orAll]
    · have habsent : containsSubseq runtime selector = false := by
        rw [← Bool.not_eq_true, hcontains]
        exact hoccurs
      simp [scanEntry, reportedFlags, reportedNames, Reported, hname, hoccurs, habsent, orAll]

theorem reportedFlags_cons (entry : Entry) (rest : List Entry) (runtime : List UInt8) :
    reportedFlags (entry :: rest) runtime =
      reportedFlags [entry] runtime ||| reportedFlags rest runtime := by
  have hsplit : entry :: rest = [entry] ++ rest := rfl
  rw [hsplit]
  simp only [reportedFlags, List.filter_append, List.map_append, orAll_append]

theorem reportedNames_cons (entry : Entry) (rest : List Entry) (runtime : List UInt8) :
    reportedNames (entry :: rest) runtime =
      reportedNames [entry] runtime ++ reportedNames rest runtime := by
  have hsplit : entry :: rest = [entry] ++ rest := rfl
  rw [hsplit]
  simp only [reportedNames, List.filter_append, List.map_append]

theorem scanEntries_spec (runtime : List UInt8) (entries : List Entry) (st : ScanState) :
    (scanEntries runtime entries st).mask = st.mask ||| reportedFlags entries runtime ∧
      (scanEntries runtime entries st).hitNames =
        st.hitNames ++ reportedNames entries runtime := by
  induction entries generalizing st with
  | nil => simp [scanEntries, reportedFlags, reportedNames, orAll]
  | cons entry rest ih =>
      obtain ⟨hmask, hnames⟩ := scanEntry_spec runtime st entry
      obtain ⟨hmaskRest, hnamesRest⟩ := ih (scanEntry runtime st entry)
      have hstep : scanEntries runtime (entry :: rest) st =
          scanEntries runtime rest (scanEntry runtime st entry) := rfl
      rw [hstep, hmaskRest, hnamesRest, hmask, hnames]
      constructor
      · rw [reportedFlags_cons entry rest, BitVec.or_assoc]
      · rw [reportedNames_cons entry rest, List.append_assoc]

theorem scanBytecode_fst (runtime : List UInt8) (sigs : SignatureSet) :
    (scanBytecode runtime sigs).1 = reportedFlags sigs.bySelector.entries runtime |||
      if HoneypotFires sigs runtime then BYTECODE_HONEYPOT else 0 := by
  obtain ⟨hmask, _⟩ := scanEntries_spec runtime sigs.bySelector.entries ⟨0, [], false⟩
  rcases scanBytecode_cases runtime sigs with ⟨hfires, hscan⟩ | ⟨hsilent, hscan⟩
  · rw [hscan, hmask, if_pos hfires]
    simp
  · rw [hscan, hmask, if_neg hsilent]
    simp

theorem scanBytecode_snd (runtime : List UInt8) (sigs : SignatureSet) :
    (scanBytecode runtime sigs).2 = reportedNames sigs.bySelector.entries runtime ++
      if HoneypotFires sigs runtime then ["honeypot:no-transfer"] else [] := by
  obtain ⟨_, hnames⟩ := scanEntries_spec runtime sigs.bySelector.entries ⟨0, [], false⟩
  rcases scanBytecode_cases runtime sigs with ⟨hfires, hscan⟩ | ⟨hsilent, hscan⟩
  · rw [hscan, hnames, if_pos hfires, List.nil_append]
  · rw [hscan, hnames, if_neg hsilent, List.nil_append, List.append_nil]

theorem reportedFlags_bit (entries : List Entry) (runtime : List UInt8) (i : Nat) :
    (reportedFlags entries runtime).getLsbD i = true ↔
      ∃ entry ∈ entries, Reported runtime entry ∧ entry.2.1.getLsbD i = true := by
  rw [reportedFlags, getLsbD_orAll]
  constructor
  · rintro ⟨flag, hflag, hbit⟩
    obtain ⟨entry, hentry, rfl⟩ := List.mem_map.mp hflag
    obtain ⟨hmem, hreported⟩ := List.mem_filter.mp hentry
    exact ⟨entry, hmem, of_decide_eq_true hreported, hbit⟩
  · rintro ⟨entry, hmem, hreported, hbit⟩
    refine ⟨entry.2.1, List.mem_map_of_mem (List.mem_filter.mpr ⟨hmem, ?_⟩), hbit⟩
    exact decide_eq_true hreported

/-- A bit of the mask comes from a reported entry or from the heuristic. -/
theorem scanBytecode_bit (runtime : List UInt8) (sigs : SignatureSet) (i : Nat) :
    (scanBytecode runtime sigs).1.getLsbD i = true ↔
      (∃ entry ∈ sigs.bySelector.entries, Reported runtime entry ∧
        entry.2.1.getLsbD i = true) ∨
      (HoneypotFires sigs runtime ∧ BYTECODE_HONEYPOT.getLsbD i = true) := by
  rw [scanBytecode_fst, getLsbD_or_iff, reportedFlags_bit]
  apply or_congr_right
  split <;> simp [*]

/-- Flags are raised exactly if a name is given for them. -/
theorem reportedFlags_eq_zero_iff (entries : List Entry) (runtime : List UInt8) :
    reportedFlags entries runtime = 0 ↔ reportedNames entries runtime = [] := by
  rw [reportedFlags, orAll_eq_zero_iff, reportedNames, List.map_eq_nil_iff,
    List.filter_eq_nil_iff, List.forall_mem_map]
  simp only [List.mem_filter, decide_eq_true_eq, and_imp, not_and, not_not, ne_eq]

theorem scanBytecode_detected (runtime : List UInt8) (sigs : SignatureSet) :
    (scanBytecode runtime sigs).1 ≠ 0 ↔ (scanBytecode runtime sigs).2 ≠ [] := by
  rw [scanBytecode_fst, scanBytecode_snd]
  apply not_congr
  split
  next =>
    have hbit : BYTECODE_HONEYPOT ≠ 0 := by decide
    constructor
    · intro hzero
      exact absurd (BitVec.or_eq_zero_iff.mp hzero).2 hbit
    · simp
  next =>
    have hunchanged : reportedFlags sigs.bySelector.entries runtime ||| 0 =
        reportedFlags sigs.bySelector.entries runtime := BitVec.or_zero
    rw [List.append_nil, hunchanged, reportedFlags_eq_zero_iff]

theorem scanBytecode_exact (runtime : List UInt8) (sigs : SignatureSet) :
    ScanExact sigs runtime (scanBytecode runtime sigs) where
  flags := by
    have hhoneypot : BYTECODE_HONEYPOT &&& ~~~BYTECODE_HONEYPOT = 0 := by decide
    rw [scanBytecode_fst, BitVec.and_or_distrib_right]
    split
    next => rw [hhoneypot]; exact BitVec.or_zero
    next => simp
  honeypot := scanBytecode_fst runtime sigs
  names := by
    rw [scanBytecode_snd, ← Multiset.coe_add]
    split <;> rfl
  detected := scanBytecode_detected runtime sigs

theorem reported_perm {entries entries' : List Entry} (h : entries.Perm entries')
    (runtime : List UInt8) :
    reportedFlags entries runtime = reportedFlags entries' runtime ∧
      (reportedNames entries runtime).Perm (reportedNames entries' runtime) :=
  ⟨orAll_perm ((h.filter _).map _), (h.filter _).map _⟩

theorem honeypotFires_perm {sigs sigs' : SignatureSet}
    (h : sigs.bySelector.entries.Perm sigs'.bySelector.entries) (runtime : List UInt8) :
    HoneypotFires sigs runtime ↔ HoneypotFires sigs' runtime := by
  simp only [HoneypotFires, TransferListed, h.mem_iff]

/-- A scan is exact with respect to the entries of the set in whatever order the
map yields them, and two orders give the same mask and the same names. -/
theorem scan_ignores_map_order (sigs order : SignatureSet) (runtime : List UInt8)
    (horder : order.bySelector.entries.Perm sigs.bySelector.entries) :
    ScanExact sigs runtime (scanBytecode runtime order) ∧
      (scanBytecode runtime order).1 = (scanBytecode runtime sigs).1 ∧
      (scanBytecode runtime order).2.Perm (scanBytecode runtime sigs).2 := by
  obtain ⟨hflags, hnames⟩ := reported_perm horder runtime
  have hfires := honeypotFires_perm horder runtime
  have hmask : (scanBytecode runtime order).1 = (scanBytecode runtime sigs).1 := by
    simp only [scanBytecode_fst, hflags, hfires]
  have hperm : (scanBytecode runtime order).2.Perm (scanBytecode runtime sigs).2 := by
    simp only [scanBytecode_snd, hfires]
    exact hnames.append_right _
  have hexact := scanBytecode_exact runtime sigs
  refine ⟨⟨?_, ?_, ?_, scanBytecode_detected runtime order⟩, hmask, hperm⟩
  · rw [hmask, hexact.flags]
  · rw [hmask, hexact.honeypot]
  · rw [Multiset.coe_eq_coe.mpr hperm, hexact.names]

/-- The builtin set in the opposite iteration order. -/
def SignatureSet.builtinBackwards : SignatureSet where
  bySelector :=
    { entries := SignatureSet.builtin.bySelector.entries.reverse
      nodupKeys := (List.perm_nodupKeys (List.reverse_perm _)).mpr
        SignatureSet.builtin.bySelector.nodupKeys }

/-- A runtime that advertises an ERC-20 surface and contains `pause`, but not
`transfer`. -/
def pausableCode : List UInt8 := [0x84, 0x56, 0xcb, 0x59] ++ BALANCE_OF_SELECTOR

/-- The same code between `mint` and `transfer`. -/
def mintableToken : List UInt8 := [0x40, 0xc1, 0x0f, 0x19] ++ pausableCode ++ TRANSFER_SELECTOR

/-- Two names are reported, and they come in the order of the map. -/
theorem scan_ignores_map_order_builtin :
    (ScanExact .builtin mintableToken (scanBytecode mintableToken .builtinBackwards) ∧
      (scanBytecode mintableToken .builtinBackwards).1 =
        (scanBytecode mintableToken .builtin).1 ∧
      (scanBytecode mintableToken .builtinBackwards).2.Perm
        (scanBytecode mintableToken .builtin).2) ∧
      (scanBytecode mintableToken .builtinBackwards).2 =
        ["mint(address,uint256)", "pause()"] ∧
      (scanBytecode mintableToken .builtin).2 = ["pause()", "mint(address,uint256)"] :=
  ⟨scan_ignores_map_order _ _ _ (List.reverse_perm _), by decide, by decide⟩

end ShadeIndexer.Bytecode
