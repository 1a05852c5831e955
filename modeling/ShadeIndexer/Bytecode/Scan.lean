import ShadeIndexer.Bytecode.Signatures
import ShadeIndexer.Lib.Subsequence

/-!
The deterministic scan over runtime bytecode, and the honeypot heuristic.
-/

namespace ShadeIndexer.Bytecode

open Lib.Subsequence

def TRANSFER_SELECTOR : List UInt8 := [0xa9, 0x05, 0x9c, 0xbb]
def BALANCE_OF_SELECTOR : List UInt8 := [0x70, 0xa0, 0x82, 0x31]
def TOTAL_SUPPLY_SELECTOR : List UInt8 := [0x18, 0x16, 0x0d, 0xdd]

def containsSubseq (haystack needle : List UInt8) : Bool :=
  if needle.isEmpty || haystack.length < needle.length then false
  else (windows needle.length haystack).any fun w => w == needle

structure ScanState where
  mask : Flags
  hitNames : List String
  transferSeen : Bool

/-- The body of the loop over the signature map. -/
def scanEntry (runtime : List UInt8) (st : ScanState) (entry : Entry) : ScanState :=
  let selector := entry.1
  let (flag, name) := entry.2
  if name == "transfer(address,uint256)" then
    { st with transferSeen := containsSubseq runtime TRANSFER_SELECTOR }
  else if flag != 0 && containsSubseq runtime selector then
    { st with mask := st.mask ||| flag, hitNames := st.hitNames ++ [name] }
  else st

def scanEntries (runtime : List UInt8) (entries : List Entry) (st : ScanState) : ScanState :=
  entries.foldl (scanEntry runtime) st

def scanBytecode (runtime : List UInt8) (sigs : SignatureSet) : Flags × List String :=
  let st := scanEntries runtime sigs.bySelector.entries ⟨0, [], false⟩
  if !st.transferSeen &&
      (containsSubseq runtime BALANCE_OF_SELECTOR ||
        containsSubseq runtime TOTAL_SUPPLY_SELECTOR) then
    (st.mask ||| BYTECODE_HONEYPOT, st.hitNames ++ ["honeypot:no-transfer"])
  else (st.mask, st.hitNames)

theorem containsSubseq_iff (haystack needle : List UInt8) (hne : needle ≠ []) :
    containsSubseq haystack needle = true ↔ needle <:+: haystack := by
  unfold containsSubseq
  split
  · rename_i hshort
    have hlength : haystack.length < needle.length := by
      simpa [List.isEmpty_iff, hne] using hshort
    constructor
    · intro h
      cases h
    · intro h
      have hle := h.length_le
      omega
  · exact windows_any_iff haystack needle

def HasFlag (mask flag : Flags) : Prop := mask &&& flag ≠ 0

instance (mask flag : Flags) : Decidable (HasFlag mask flag) :=
  inferInstanceAs (Decidable (_ ≠ _))

/-- Whether the set lists an entry under the name that the scan looks for. -/
def TransferListed (sigs : SignatureSet) : Prop :=
  ∃ entry ∈ sigs.bySelector.entries, entry.2.2 = "transfer(address,uint256)"

/-- No entry of the set raises the honeypot bit itself. -/
def NoHoneypotEntry (sigs : SignatureSet) : Prop :=
  ∀ entry ∈ sigs.bySelector.entries, ¬ HasFlag entry.2.1 BYTECODE_HONEYPOT

/-- The flag survives the loop as it was if no entry has the looked-for name,
and otherwise it tells whether the runtime contains the transfer selector. -/
theorem scanEntries_transferSeen (runtime : List UInt8) (entries : List Entry) (st : ScanState) :
    (scanEntries runtime entries st).transferSeen =
      if entries.any (fun entry => entry.2.2 == "transfer(address,uint256)") then
        containsSubseq runtime TRANSFER_SELECTOR
      else st.transferSeen := by
  induction entries generalizing st with
  | nil => rfl
  | cons entry rest ih =>
      have hstep : scanEntries runtime (entry :: rest) st =
          scanEntries runtime rest (scanEntry runtime st entry) := rfl
      rw [hstep, ih, List.any_cons]
      cases hname : entry.2.2 == "transfer(address,uint256)" with
      | true => simp [scanEntry, hname]
      | false =>
          have hkeep : (scanEntry runtime st entry).transferSeen = st.transferSeen := by
            simp only [scanEntry, hname, Bool.false_eq_true, if_false]
            split <;> rfl
          rw [hkeep, Bool.false_or]

theorem HasFlag.or_iff (a b flag : Flags) :
    HasFlag (a ||| b) flag ↔ HasFlag a flag ∨ HasFlag b flag := by
  simp only [HasFlag, BitVec.and_or_distrib_right]
  constructor
  · intro h
    by_contra hnone
    push Not at hnone
    exact h (by simp [hnone.1, hnone.2])
  · rintro h hzero
    have hparts := BitVec.or_eq_zero_iff.mp hzero
    exact h.elim (fun ha => ha hparts.1) fun hb => hb hparts.2

/-- The loop raises no bit that none of the entries carries. -/
theorem scanEntries_not_hasFlag (runtime : List UInt8) (entries : List Entry) (st : ScanState)
    (flag : Flags) (hentries : ∀ entry ∈ entries, ¬ HasFlag entry.2.1 flag)
    (hst : ¬ HasFlag st.mask flag) :
    ¬ HasFlag (scanEntries runtime entries st).mask flag := by
  induction entries generalizing st with
  | nil => exact hst
  | cons entry rest ih =>
      have hhead := hentries entry (List.mem_cons_self ..)
      apply ih (scanEntry runtime st entry)
      · intro e he
        exact hentries e (List.mem_cons_of_mem _ he)
      · simp only [scanEntry]
        split
        · exact hst
        · split
          · rw [HasFlag.or_iff]
            exact fun h => h.elim hst hhead
          · exact hst

/-- The two selectors of which one is enough for an ERC-20 surface. -/
def AdvertisesErc20 (runtime : List UInt8) : Prop :=
  BALANCE_OF_SELECTOR <:+: runtime ∨ TOTAL_SUPPLY_SELECTOR <:+: runtime

/-- The heuristic as the scan computes it: a set that does not list the
transfer entry counts as one whose runtime lacks the selector. -/
def HoneypotFires (sigs : SignatureSet) (runtime : List UInt8) : Prop :=
  ¬ (TransferListed sigs ∧ TRANSFER_SELECTOR <:+: runtime) ∧ AdvertisesErc20 runtime

/-- The scan returns what the loop over the signatures collects, and adds the
honeypot bit and its name if the heuristic fires. -/
theorem scanBytecode_cases (runtime : List UInt8) (sigs : SignatureSet) :
    (HoneypotFires sigs runtime ∧ scanBytecode runtime sigs =
        ((scanEntries runtime sigs.bySelector.entries ⟨0, [], false⟩).mask ||| BYTECODE_HONEYPOT,
          (scanEntries runtime sigs.bySelector.entries ⟨0, [], false⟩).hitNames ++
            ["honeypot:no-transfer"])) ∨
      (¬ HoneypotFires sigs runtime ∧ scanBytecode runtime sigs =
        ((scanEntries runtime sigs.bySelector.entries ⟨0, [], false⟩).mask,
          (scanEntries runtime sigs.bySelector.entries ⟨0, [], false⟩).hitNames)) := by
  have hseen := scanEntries_transferSeen runtime sigs.bySelector.entries ⟨0, [], false⟩
  have hlisted : (sigs.bySelector.entries.any fun entry =>
      entry.2.2 == "transfer(address,uint256)") = true ↔ TransferListed sigs := by
    simp [TransferListed, List.any_eq_true]
  have htransfer := containsSubseq_iff runtime TRANSFER_SELECTOR (List.cons_ne_nil _ _)
  have hbalance := containsSubseq_iff runtime BALANCE_OF_SELECTOR (List.cons_ne_nil _ _)
  have hsupply := containsSubseq_iff runtime TOTAL_SUPPLY_SELECTOR (List.cons_ne_nil _ _)
  have hadvertises : AdvertisesErc20 runtime ↔
      (containsSubseq runtime BALANCE_OF_SELECTOR ||
        containsSubseq runtime TOTAL_SUPPLY_SELECTOR) = true := by
    rw [AdvertisesErc20, Bool.or_eq_true, hbalance, hsupply]
  rw [HoneypotFires, hadvertises, ← hlisted, ← htransfer]
  unfold scanBytecode
  dsimp only
  generalize scanEntries runtime sigs.bySelector.entries ⟨0, [], false⟩ = st at hseen ⊢
  rw [hseen]
  generalize sigs.bySelector.entries.any
    (fun entry => entry.2.2 == "transfer(address,uint256)") = listed
  generalize (containsSubseq runtime BALANCE_OF_SELECTOR ||
    containsSubseq runtime TOTAL_SUPPLY_SELECTOR) = advertises
  generalize containsSubseq runtime TRANSFER_SELECTOR = present
  cases listed <;> cases present <;> cases advertises <;> simp

/-- The mask is what the loop over the signatures raises, and the honeypot bit
if the heuristic fires. -/
theorem scanBytecode_mask (runtime : List UInt8) (sigs : SignatureSet) :
    (HoneypotFires sigs runtime ∧ (scanBytecode runtime sigs).1 =
        (scanEntries runtime sigs.bySelector.entries ⟨0, [], false⟩).mask |||
          BYTECODE_HONEYPOT) ∨
      (¬ HoneypotFires sigs runtime ∧ (scanBytecode runtime sigs).1 =
        (scanEntries runtime sigs.bySelector.entries ⟨0, [], false⟩).mask) := by
  rcases scanBytecode_cases runtime sigs with ⟨hfires, hscan⟩ | ⟨hsilent, hscan⟩
  · exact Or.inl ⟨hfires, congrArg Prod.fst hscan⟩
  · exact Or.inr ⟨hsilent, congrArg Prod.fst hscan⟩

theorem scanBytecode_honeypot (runtime : List UInt8) (sigs : SignatureSet)
    (hset : NoHoneypotEntry sigs) :
    HasFlag (scanBytecode runtime sigs).1 BYTECODE_HONEYPOT ↔
      ¬ (TransferListed sigs ∧ TRANSFER_SELECTOR <:+: runtime) ∧ AdvertisesErc20 runtime := by
  have hloop := scanEntries_not_hasFlag runtime sigs.bySelector.entries ⟨0, [], false⟩
    BYTECODE_HONEYPOT hset (by decide)
  rcases scanBytecode_mask runtime sigs with ⟨hfires, hmask⟩ | ⟨hsilent, hmask⟩
  · have hraised : HasFlag (scanBytecode runtime sigs).1 BYTECODE_HONEYPOT := by
      rw [hmask]
      exact (HasFlag.or_iff _ _ _).mpr (Or.inr (by decide))
    exact iff_of_true hraised hfires
  · rw [hmask]
    exact iff_of_false hloop hsilent

/-- What the honeypot bit is documented to mean. -/
def HoneypotExact (sigs : SignatureSet) (runtime : List UInt8) : Prop :=
  HasFlag (scanBytecode runtime sigs).1 BYTECODE_HONEYPOT ↔
    ¬ TRANSFER_SELECTOR <:+: runtime ∧ AdvertisesErc20 runtime

/-- The bit is exact on a runtime unless the set does not list the transfer
entry and the runtime has both the transfer selector and an ERC-20 surface. -/
theorem honeypotExact_iff (sigs : SignatureSet) (runtime : List UInt8)
    (hset : NoHoneypotEntry sigs) :
    HoneypotExact sigs runtime ↔
      (TransferListed sigs ∨ ¬ TRANSFER_SELECTOR <:+: runtime ∨ ¬ AdvertisesErc20 runtime) := by
  rw [HoneypotExact, scanBytecode_honeypot runtime sigs hset]
  tauto

theorem builtin_noHoneypotEntry : NoHoneypotEntry SignatureSet.builtin := by
  unfold NoHoneypotEntry
  decide

theorem builtin_transferListed : TransferListed SignatureSet.builtin := by
  unfold TransferListed
  decide

/-- A signature file that lists one blacklist selector and no transfer entry. -/
def blacklistItems : List KnownSignature :=
  [⟨"0xf9f92be4", BYTECODE_BLACKLIST, "blacklist(address)"⟩]

/-- A runtime that contains both `transfer` and `balanceOf`. -/
def plainToken : List UInt8 := TRANSFER_SELECTOR ++ BALANCE_OF_SELECTOR

theorem honeypotExact_plainToken : HoneypotExact SignatureSet.builtin plainToken :=
  (honeypotExact_iff _ _ builtin_noHoneypotEntry).mpr (Or.inl builtin_transferListed)

/-- With a signature file that omits the transfer entry, the plain token is
flagged as a honeypot. -/
theorem plain_token_flagged :
    ¬ ∀ (items : List KnownSignature) (sigs : SignatureSet) (runtime : List UInt8),
      SignatureSet.tryFromIter items = .ok sigs → NoHoneypotEntry sigs →
        HoneypotExact sigs runtime := by
  intro h
  have hset := h blacklistItems ⟨AList.insert [0xf9, 0xf9, 0x2b, 0xe4]
    (BYTECODE_BLACKLIST, "blacklist(address)") ∅⟩ plainToken (by rfl)
    (by unfold NoHoneypotEntry; decide)
  unfold HoneypotExact at hset
  have hsafe := hset.mp (by decide)
  exact hsafe.1 ⟨[], BALANCE_OF_SELECTOR, rfl⟩

end ShadeIndexer.Bytecode
