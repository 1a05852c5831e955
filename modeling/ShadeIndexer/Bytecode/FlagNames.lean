import ShadeIndexer.Bytecode.SignatureFile

/-!
The names that a mask is shown with, and what a scan finds when the code around
a token grows. The names of a mask carry all of its public bits. Code that
contains other code keeps what was found there, except for the honeypot bit,
which four bytes anywhere take away.
-/

namespace ShadeIndexer.Bytecode

open Lib.Subsequence Lib.Masks

/-- One `if` of `flag_names`. -/
def pushIf (mask flag : Flags) (name : String) (out : List String) : List String :=
  if mask &&& flag ≠ 0 then out ++ [name] else out

def flagNames (mask : Flags) : List String :=
  let out := []
  let out := pushIf mask BYTECODE_HONEYPOT "honeypot" out
  let out := pushIf mask BYTECODE_MINT_BACKDOOR "mint_backdoor" out
  let out := pushIf mask BYTECODE_FEE_ON_TRANSFER "fee_on_transfer" out
  let out := pushIf mask BYTECODE_BLACKLIST "blacklist" out
  let out := pushIf mask BYTECODE_PAUSABLE "pausable" out
  let out := pushIf mask BYTECODE_OWNERSHIP_TRAP "ownership_trap" out
  out

/-- The public bits with their names. -/
def flagTable : List (Flags × String) :=
  [(BYTECODE_HONEYPOT, "honeypot"), (BYTECODE_MINT_BACKDOOR, "mint_backdoor"),
    (BYTECODE_FEE_ON_TRANSFER, "fee_on_transfer"), (BYTECODE_BLACKLIST, "blacklist"),
    (BYTECODE_PAUSABLE, "pausable"), (BYTECODE_OWNERSHIP_TRAP, "ownership_trap")]

theorem pushIf_eq (mask flag : Flags) (name : String) (out : List String) :
    pushIf mask flag name out =
      out ++ (([(flag, name)].filter fun row => HasFlag mask row.1).map Prod.snd) := by
  have hpush : pushIf mask flag name out = if HasFlag mask flag then out ++ [name] else out := rfl
  rw [hpush]
  split
  · rename_i hflag
    simp [hflag]
  · rename_i hflag
    simp [hflag]

theorem flagNames_eq (mask : Flags) :
    flagNames mask = (flagTable.filter fun row => HasFlag mask row.1).map Prod.snd := by
  have htable : flagTable = [(BYTECODE_HONEYPOT, "honeypot")] ++
      [(BYTECODE_MINT_BACKDOOR, "mint_backdoor")] ++
      [(BYTECODE_FEE_ON_TRANSFER, "fee_on_transfer")] ++ [(BYTECODE_BLACKLIST, "blacklist")] ++
      [(BYTECODE_PAUSABLE, "pausable")] ++ [(BYTECODE_OWNERSHIP_TRAP, "ownership_trap")] := rfl
  unfold flagNames
  simp only [pushIf_eq, List.nil_append]
  rw [htable]
  simp only [List.filter_append, List.map_append]

/-- The bits that the names stand for. -/
def maskOfNames (names : List String) : Flags :=
  orAll ((flagTable.filter fun row => row.2 ∈ names).map Prod.fst)

/-- All public bits. -/
def publicFlags : Flags := orAll (flagTable.map Prod.fst)

/-- No name is used twice. -/
theorem flagTable_names_inj :
    ∀ row ∈ flagTable, ∀ row' ∈ flagTable, row.2 = row'.2 → row = row' := by
  decide

/-- Every public flag is one bit. -/
theorem flagTable_bits : ∀ row ∈ flagTable, ∃ i < 32, row.1 = BitVec.twoPow 32 i := by decide

theorem mem_flagNames {mask : Flags} {row : Flags × String} (hrow : row ∈ flagTable) :
    row.2 ∈ flagNames mask ↔ HasFlag mask row.1 := by
  rw [flagNames_eq, List.mem_map]
  constructor
  · rintro ⟨other, hother, hname⟩
    obtain ⟨hmem, hflag⟩ := List.mem_filter.mp hother
    obtain rfl := flagTable_names_inj other hmem row hrow hname
    exact of_decide_eq_true hflag
  · intro hflag
    exact ⟨row, List.mem_filter.mpr ⟨hrow, decide_eq_true hflag⟩, rfl⟩

theorem hasFlag_twoPow (mask : Flags) (i : Nat) (hi : i < 32) :
    HasFlag mask (BitVec.twoPow 32 i) ↔ mask.getLsbD i = true := by
  rw [HasFlag, BitVec.and_twoPow]
  cases mask.getLsbD i with
  | false => simp
  | true =>
      have hbit : (BitVec.twoPow 32 i).getLsbD i = true := by simp [hi]
      have hne : BitVec.twoPow 32 i ≠ 0 := by
        intro hzero
        rw [hzero] at hbit
        simp at hbit
      simp only [if_true]
      exact iff_of_true hne trivial

/-- A public flag is raised in a mask that has its bit. -/
theorem hasFlag_bit {mask : Flags} {row : Flags × String} (hrow : row ∈ flagTable) {i : Nat}
    (hbit : row.1.getLsbD i = true) : HasFlag mask row.1 ↔ mask.getLsbD i = true := by
  obtain ⟨j, hj, hone⟩ := flagTable_bits row hrow
  rw [hone] at hbit
  obtain rfl : j = i := by
    have hpair : j < 32 ∧ j = i := by simpa [BitVec.getLsbD_twoPow] using hbit
    exact hpair.2
  rw [hone]
  exact hasFlag_twoPow mask j hj

/-- The names carry every public bit. -/
theorem maskOfNames_flagNames (mask : Flags) :
    maskOfNames (flagNames mask) = mask &&& publicFlags := by
  rw [ext_iff]
  intro i
  rw [BitVec.getLsbD_and, Bool.and_eq_true, maskOfNames, publicFlags, getLsbD_orAll, getLsbD_orAll]
  constructor
  · rintro ⟨flag, hflag, hbit⟩
    obtain ⟨row, hrow, rfl⟩ := List.mem_map.mp hflag
    obtain ⟨hmem, hnamed⟩ := List.mem_filter.mp hrow
    have hraised := (mem_flagNames hmem).mp (of_decide_eq_true hnamed)
    exact ⟨(hasFlag_bit hmem hbit).mp hraised, row.1, List.mem_map_of_mem hmem, hbit⟩
  · rintro ⟨hmask, flag, hflag, hbit⟩
    obtain ⟨row, hmem, rfl⟩ := List.mem_map.mp hflag
    have hnamed := (mem_flagNames hmem).mpr ((hasFlag_bit hmem hbit).mpr hmask)
    refine ⟨row.1, List.mem_map_of_mem (List.mem_filter.mpr ⟨hmem, ?_⟩), hbit⟩
    exact decide_eq_true hnamed

theorem hasFlag_orAll (masks : List Flags) (flag : Flags) :
    HasFlag (orAll masks) flag ↔ ∃ mask ∈ masks, HasFlag mask flag := by
  induction masks with
  | nil => simp [orAll, HasFlag]
  | cons mask rest ih =>
      rw [orAll_cons, HasFlag.or_iff, ih]
      simp

theorem hasFlag_reportedFlags (entries : List Entry) (runtime : List UInt8) (flag : Flags) :
    HasFlag (reportedFlags entries runtime) flag ↔
      ∃ entry ∈ entries, Reported runtime entry ∧ HasFlag entry.2.1 flag := by
  rw [reportedFlags, hasFlag_orAll]
  constructor
  · rintro ⟨mask, hmask, hflag⟩
    obtain ⟨entry, hentry, rfl⟩ := List.mem_map.mp hmask
    obtain ⟨hmem, hreported⟩ := List.mem_filter.mp hentry
    exact ⟨entry, hmem, of_decide_eq_true hreported, hflag⟩
  · rintro ⟨entry, hmem, hreported, hflag⟩
    refine ⟨entry.2.1, List.mem_map_of_mem (List.mem_filter.mpr ⟨hmem, ?_⟩), hflag⟩
    exact decide_eq_true hreported

theorem honeypot_of_table : ∀ row ∈ flagTable, HasFlag BYTECODE_HONEYPOT row.1 ↔
    row.1 = BYTECODE_HONEYPOT := by
  decide

/-- A flag of the mask of a scan, public or not. -/
theorem hasFlag_scan (sigs : SignatureSet) (runtime : List UInt8) (flag : Flags) :
    HasFlag (scanBytecode runtime sigs).1 flag ↔
      (∃ entry ∈ sigs.bySelector.entries, Reported runtime entry ∧ HasFlag entry.2.1 flag) ∨
        (HoneypotFires sigs runtime ∧ HasFlag BYTECODE_HONEYPOT flag) := by
  have hzero : ¬ HasFlag 0#32 flag := by simp [HasFlag]
  rw [scanBytecode_fst, HasFlag.or_iff, hasFlag_reportedFlags]
  apply or_congr_right
  split
  · rename_i hfires
    simp [hfires]
  · rename_i hsilent
    simp [hsilent, hzero]

/-- The names of the mask that a scan returns, in the order of the table: each
tells that a reported signature carries its bit or that the heuristic fires, and
together they carry all public bits of the mask. -/
theorem flag_names_of_scan (sigs : SignatureSet) (runtime : List UInt8) :
    (flagNames (scanBytecode runtime sigs).1).Sublist (flagTable.map Prod.snd) ∧
      (∀ flag name, (flag, name) ∈ flagTable →
        (name ∈ flagNames (scanBytecode runtime sigs).1 ↔
          (∃ entry ∈ sigs.bySelector.entries, Reported runtime entry ∧ HasFlag entry.2.1 flag) ∨
            (flag = BYTECODE_HONEYPOT ∧ HoneypotFires sigs runtime))) ∧
      maskOfNames (flagNames (scanBytecode runtime sigs).1) =
        (scanBytecode runtime sigs).1 &&& publicFlags := by
  refine ⟨?_, ?_, maskOfNames_flagNames _⟩
  · rw [flagNames_eq]
    exact List.filter_sublist.map Prod.snd
  · intro flag name hrow
    have hnamed : name ∈ flagNames (scanBytecode runtime sigs).1 ↔
        HasFlag (scanBytecode runtime sigs).1 flag := mem_flagNames hrow
    rw [hnamed, hasFlag_scan, honeypot_of_table _ hrow]
    apply or_congr_right
    exact And.comm

/-- The heuristic is silenced only by the transfer selector. -/
theorem HoneypotFires.silenced {sigs : SignatureSet} {code larger : List UInt8}
    (hcontains : code <:+: larger) (h : HoneypotFires sigs code)
    (hsilent : ¬ HoneypotFires sigs larger) :
    TransferListed sigs ∧ TRANSFER_SELECTOR <:+: larger ∧ ¬ TRANSFER_SELECTOR <:+: code := by
  obtain ⟨hmissing, hadvertises⟩ := h
  have hstill : AdvertisesErc20 larger :=
    hadvertises.imp (fun hin => hin.trans hcontains) fun hin => hin.trans hcontains
  by_cases hpresent : TransferListed sigs ∧ TRANSFER_SELECTOR <:+: larger
  · exact ⟨hpresent.1, hpresent.2, fun hin => hmissing ⟨hpresent.1, hin⟩⟩
  · exact absurd ⟨hpresent, hstill⟩ hsilent

end ShadeIndexer.Bytecode
