import Mathlib.Tactic.Ring
import ShadeIndexer.Enrich.HolderFold
import ShadeIndexer.Lib.Ledger

/-!
The holder fold against the ledger that the logs record. The sums wrap, as they
do in the release profile; a build with overflow checks panics where they do. So
the map of deltas holds every balance modulo `2 ^ 128`, and interim signs do not
matter. What matters is the final reading as an `i128`: a balance of `2 ^ 127` or
more is negative there, and the filter drops it.
-/

namespace ShadeIndexer.Enrich

open ShadeIndexer.Core Lib.Rust Lib.BigEndian Lib.Accumulator Lib.Ledger RpcEnrichmentSource

/-- An account of the ledger. The zero address marks mints and burns. -/
abbrev Holder := {a : Address // a ≠ Address.ZERO}

def addressOf (account : Option Holder) : Address :=
  account.elim Address.ZERO Subtype.val

/-- The Transfer log of a movement, with any signature topic and any values in
the fields that the fold does not read. -/
structure RecordedBy (m : Movement Holder) (log : Log) : Prop where
  topics : ∃ sig, log.topics =
    [sig, (addressOf m.source).intoWord, (addressOf m.target).intoWord]
  data : log.data = beBytes 32 m.amount

/-- A log that the fold skips. -/
def Malformed (log : Log) : Prop := log.topics.length < 3 ∨ log.data.length < 32

/-- The logs record the history, in order, with malformed logs anywhere between. -/
inductive Records : List (Movement Holder) → List Log → Prop where
  | nil : Records [] []
  | movement {m : Movement Holder} {log : Log} {history : List (Movement Holder)}
      {logs : List Log} (hlog : RecordedBy m log) (hrest : Records history logs) :
      Records (m :: history) (log :: logs)
  | malformed {log : Log} {history : List (Movement Holder)} {logs : List Log}
      (hlog : Malformed log) (hrest : Records history logs) : Records history (log :: logs)

def U128_MAX : Nat := 2 ^ 128 - 1

/-- The balances after a history that starts from nothing. -/
noncomputable def ledgerOf (history : List (Movement Holder)) : Holder →₀ Nat :=
  final history 0

theorem transferOf_malformed (log : Log) (h : Malformed log) : transferOf log = none := by
  unfold transferOf
  split
  · rename_i sig fromTopic toTopic rest htopics
    rcases h with hfew | hshort
    · rw [htopics] at hfew
      simp only [List.length_cons] at hfew
      omega
    · rw [if_pos hshort]
  · rfl

theorem saturatingToU128_of_le (n : Nat) (h : n ≤ U128_MAX) :
    U256.saturatingToU128 (BitVec.ofNat 256 n) = (n : U128) := by
  have hsmall : n < 2 ^ 128 := by
    unfold U128_MAX at h
    omega
  have hword : (BitVec.ofNat 256 n).toNat = n := by
    rw [BitVec.toNat_ofNat, Nat.mod_eq_of_lt (by omega)]
  rw [U256.saturatingToU128, hword, if_pos hsmall]
  rfl

theorem transferOf_recordedBy (m : Movement Holder) (log : Log) (h : RecordedBy m log)
    (hamount : m.amount ≤ U128_MAX) :
    transferOf log = some ⟨addressOf m.source, addressOf m.target, (m.amount : U128)⟩ := by
  obtain ⟨⟨sig, htopics⟩, hdata⟩ := h
  have hlength : log.data.length = 32 := by rw [hdata, beBytes_length]
  have hnat : beNat (log.data.take 32) = m.amount := by
    rw [List.take_of_length_le (by omega), hdata]
    apply beNat_beBytes
    unfold U128_MAX at hamount
    omega
  unfold transferOf
  rw [htopics]
  simp only [hlength, lt_self_iff_false, if_false, hnat, Address.fromWord_intoWord]
  rw [saturatingToU128_of_le m.amount hamount]

theorem addressOf_eq_iff (account : Option Holder) (a : Holder) :
    a.val = addressOf account ↔ account = some a := by
  cases account with
  | none => exact ⟨fun h => (a.property h).elim, fun h => (by cases h)⟩
  | some b =>
      rw [Option.some.injEq]
      exact ⟨fun h => (Subtype.ext h).symm, fun h => congrArg Subtype.val h.symm⟩

/-- The map holds every balance of the ledger modulo `2 ^ 128`, and nothing
for the zero address. -/
structure Simulates (deltas : Totals Address U128) (balances : Holder →₀ Nat) : Prop where
  holders : ∀ a : Holder, value deltas a.val = ((balances a : Nat) : U128)
  zero : value deltas Address.ZERO = 0

theorem simulates_empty : Simulates ∅ (0 : Holder →₀ Nat) :=
  ⟨fun _ => rfl, rfl⟩

theorem moveTokens_simulates (deltas : Totals Address U128) (balances : Holder →₀ Nat)
    (m : Movement Holder) (hsim : Simulates deltas balances)
    (hcovered : ∀ a, m.source = some a → m.amount ≤ balances a) :
    Simulates (moveTokens deltas ⟨addressOf m.source, addressOf m.target, (m.amount : U128)⟩)
      (post balances m) := by
  constructor
  · intro a
    rw [value_moveTokens, if_neg a.property, hsim.holders a, cast_post balances m hcovered a]
    simp only [addressOf_eq_iff]
  · rw [value_moveTokens, if_pos rfl, hsim.zero]

/-- Along a valid history the fold keeps following the ledger. -/
theorem foldTransfers_simulates (history : List (Movement Holder)) (logs : List Log)
    (deltas : Totals Address U128) (balances : Holder →₀ Nat)
    (hrecords : Records history logs) (hvalid : Valid U128_MAX history balances)
    (hsim : Simulates deltas balances) :
    Simulates (foldTransfers logs deltas) (final history balances) := by
  induction hrecords generalizing deltas balances with
  | nil => exact hsim
  | movement hlog _ ih =>
      cases hvalid with
      | cons _ hamount hcovered hrest =>
          have hstep := moveTokens_simulates deltas balances _ hsim hcovered
          rw [foldTransfers, List.filterMap_cons_some (transferOf_recordedBy _ _ hlog hamount)]
          exact ih _ _ hrest hstep
  | malformed hlog _ ih =>
      rw [foldTransfers, List.filterMap_cons_none (transferOf_malformed _ hlog)]
      exact ih deltas balances hvalid hsim

/-- The balances that the filter keeps, those which are positive as an `i128`. -/
def Visible (n : Nat) : Prop := 0 < n ∧ n < 2 ^ 127

instance (n : Nat) : Decidable (Visible n) := inferInstanceAs (Decidable (_ ∧ _))

theorem toInt_pos_iff (v : U128) : 0 < v.toInt ↔ Visible v.toNat := by
  have hlt := v.isLt
  unfold Visible
  rw [BitVec.toInt_eq_toNat_cond]
  split <;> omega

theorem cast_toNat_of_le (n : Nat) (h : n ≤ U128_MAX) : ((n : U128)).toNat = n := by
  have hcast : (n : U128) = BitVec.ofNat 128 n := rfl
  rw [hcast, BitVec.toNat_ofNat]
  unfold U128_MAX at h
  omega

/-- The multiset that the scan collects: the visible balances of the ledger. -/
theorem visible_values (deltas : Totals Address U128) (balances : Holder →₀ Nat)
    (hsim : Simulates deltas balances) (hcap : ∀ a, balances a ≤ U128_MAX) :
    ((((values deltas).filter fun v => 0 < v.toInt).map BitVec.toNat : List Nat) : Multiset Nat) =
      (balances.support.val.map balances).filter Visible := by
  have hread (a : Holder) : (value deltas a.val).toNat = balances a := by
    rw [hsim.holders a, cast_toNat_of_le _ (hcap a)]
  have hcover : ∀ k, 0 < (value deltas k).toInt →
      k ∈ balances.support.map ⟨Subtype.val, Subtype.val_injective⟩ := by
    intro k hpos
    have hvisible := (toInt_pos_iff _).mp hpos
    have hne : k ≠ Address.ZERO := by
      rintro rfl
      rw [hsim.zero] at hvisible
      exact absurd hvisible.1 (by decide)
    rw [hread ⟨k, hne⟩] at hvisible
    exact Finset.mem_map.mpr ⟨⟨k, hne⟩, Finsupp.mem_support_iff.mpr hvisible.1.ne', rfl⟩
  have hvalues := values_filter_eq deltas (fun v => 0 < v.toInt) (by decide)
    (balances.support.map ⟨Subtype.val, Subtype.val_injective⟩) hcover
  rw [← Multiset.map_coe, hvalues, Finset.filter_map, Finset.map_val, Multiset.map_map,
    Multiset.map_map, Multiset.filter_map, Finset.filter_val]
  have hfilter : Multiset.filter
      ((fun k => 0 < (value deltas k).toInt) ∘ fun a : Holder => a.val) balances.support.val =
        Multiset.filter (Visible ∘ balances) balances.support.val := by
    apply Multiset.filter_congr
    intro a _
    simp only [Function.comp_apply, toInt_pos_iff, hread a]
  refine Eq.trans ?_ (congrArg (Multiset.map balances) hfilter)
  apply Multiset.map_congr rfl
  intro a _
  exact hread a

/-- The list that the scan returns: the visible balances in descending order,
cut off after the first `k`. -/
theorem topBalances_toNat (deltas : Totals Address U128) (balances : Holder →₀ Nat)
    (hsim : Simulates deltas balances) (hcap : ∀ a, balances a ≤ U128_MAX) (k : Nat) :
    (topBalances (values deltas) k).map BitVec.toNat =
      (((balances.support.val.map balances).filter Visible).sort (· ≥ ·)).take k := by
  have horder : ∀ a ∈ (values deltas).filter (fun v => 0 < v.toInt),
      ∀ b ∈ (values deltas).filter (fun v => 0 < v.toInt),
        (b ≤ a ↔ a.toNat ≥ b.toNat) := fun _ _ _ _ => Iff.rfl
  rw [← visible_values deltas balances hsim hcap, topBalances, List.map_take, sortDescending,
    List.map_insertionSort _ _ BitVec.toNat _ horder, Multiset.coe_sort,
    List.mergeSort_eq_insertionSort]

/-- With no balance beyond the sign bit, the visible balances are all the
positive ones. -/
theorem filter_visible (balances : Holder →₀ Nat) (hsmall : ∀ a, balances a < 2 ^ 127) :
    (balances.support.val.map balances).filter Visible =
      balances.support.val.map balances := by
  rw [Multiset.filter_eq_self]
  intro n hn
  obtain ⟨hpos, a, rfl⟩ := (mem_positive balances n).mp hn
  exact ⟨hpos, hsmall a⟩

/-- For the logs of a valid history the holder scan returns the `holder_top_k`
largest positive balances of the ledger exactly if none of the balances
reaches `2 ^ 127`, or if it is asked for none. -/
theorem fetchHolderBalances_refines_iff (src : RpcEnrichmentSource) (token : Address)
    (fromBlock : UInt64) (history : List (Movement Holder)) (logs : List Log)
    (hlogs : src.provider.getLogs (src.holderFilter token fromBlock) = some logs)
    (hrecords : Records history logs) (hvalid : Valid U128_MAX history 0) :
    (∃ balances, src.fetchHolderBalances token fromBlock = .ok balances ∧
        balances.map BitVec.toNat = largest (ledgerOf history) src.cfg.holderTopK) ↔
      src.cfg.holderTopK = 0 ∨ ∀ a, ledgerOf history a < 2 ^ 127 := by
  have hcap : ∀ a, ledgerOf history a ≤ U128_MAX := hvalid.final_le
  have hsim := foldTransfers_simulates history logs ∅ 0 hrecords hvalid simulates_empty
  have hread := topBalances_toNat _ (ledgerOf history) hsim hcap src.cfg.holderTopK
  rw [src.fetchHolderBalances_eq, hlogs]
  simp only [Option.elim_some, Except.ok.injEq, exists_eq_left']
  rw [hread]
  constructor
  · intro heq
    by_contra hnone
    push Not at hnone
    obtain ⟨hk, a, ha⟩ := hnone
    obtain ⟨n, hmem, hn⟩ := largest_of_exceeds (ledgerOf history) src.cfg.holderTopK (2 ^ 127)
      hk (by norm_num) a ha
    rw [← heq] at hmem
    have hvisible := List.mem_of_mem_take hmem
    rw [Multiset.mem_sort, Multiset.mem_filter] at hvisible
    exact absurd hvisible.2.2 (by omega)
  · rintro (hk | hsmall)
    · rw [largest, hk, List.take_zero, List.take_zero]
    · rw [filter_visible _ hsmall, largest]

/-- A node that serves the given logs, over the default scan settings. -/
def serving (logs : List Log) : RpcEnrichmentSource where
  provider :=
    { getCodeAt := fun _ => none
      call := fun _ _ => none
      getLogs := fun _ => some logs }
  cfg := .default
  signatures := .builtin

/-- The log that a token emits for a movement. -/
def transferLog (m : Movement Holder) : Log where
  address := .repeatByte 20 0x11
  topics := [TRANSFER_TOPIC, (addressOf m.source).intoWord, (addressOf m.target).intoWord]
  data := beBytes 32 m.amount
  blockNumber := some 1
  blockTimestamp := none
  transactionHash := none
  logIndex := none
  removed := false

theorem records_transferLog (history : List (Movement Holder)) :
    Records history (history.map transferLog) := by
  induction history with
  | nil => exact .nil
  | cons m rest ih => exact .movement ⟨⟨TRANSFER_TOPIC, rfl⟩, rfl⟩ ih

def alice : Holder := ⟨.repeatByte 20 0xA1, by decide⟩
def bob : Holder := ⟨.repeatByte 20 0xB0, by decide⟩

/-- Alice gets everything and passes a part of it on to Bob. -/
def mintAndPass (minted passed : Nat) : List (Movement Holder) :=
  [.mint alice minted, .transfer alice bob passed]

theorem mintAndPass_le (minted passed : Nat) (hpassed : passed ≤ minted) (a : Holder) :
    post 0 (.mint alice minted) a ≤ minted ∧
      ledgerOf (mintAndPass minted passed) a ≤ minted := by
  have hne : alice ≠ bob := by decide
  have hminted : post 0 (.mint alice minted) a = if alice = a then minted else 0 := by
    simp [post_apply]
  have hfinal : ledgerOf (mintAndPass minted passed) a =
      post 0 (.mint alice minted) a - (if alice = a then passed else 0) +
        if bob = a then passed else 0 := by
    simp [ledgerOf, final, mintAndPass, post_apply]
  rw [hfinal, hminted]
  by_cases ha : alice = a
  · have hb : bob ≠ a := fun h => hne (ha.trans h.symm)
    rw [if_pos ha, if_pos ha, if_neg hb]
    omega
  · rw [if_neg ha, if_neg ha]
    split <;> omega

theorem valid_mintAndPass (minted passed : Nat) (hcap : minted ≤ U128_MAX)
    (hpassed : passed ≤ minted) : Valid U128_MAX (mintAndPass minted passed) 0 := by
  refine .cons (fun a => Nat.zero_le _) hcap (fun a hsource => (by cases hsource)) ?_
  refine .cons ?_ (hpassed.trans hcap) ?_ (.nil ?_)
  · intro a
    exact (mintAndPass_le minted passed hpassed a).1.trans hcap
  · intro a hsource
    obtain rfl : alice = a := Option.some.inj hsource
    simpa [post_apply] using hpassed
  · intro a
    exact (mintAndPass_le minted passed hpassed a).2.trans hcap

theorem fetchHolderBalances_refines_small :
    ∃ balances, (serving ((mintAndPass 5 2).map transferLog)).fetchHolderBalances
        (.repeatByte 20 0x11) 1 = .ok balances ∧
        balances.map BitVec.toNat = largest (ledgerOf (mintAndPass 5 2)) 100 := by
  refine (fetchHolderBalances_refines_iff _ _ _ _ _ rfl (records_transferLog _)
    (valid_mintAndPass 5 2 (by decide) (by omega))).mpr (Or.inr ?_)
  intro a
  have hle := (mintAndPass_le 5 2 (by omega) a).2
  omega

/-- A holder of `2 ^ 127` units is missing from the snapshot, which lists only
the account it passed one unit to. -/
theorem whale_disappears :
    ¬ ∀ (src : RpcEnrichmentSource) (token : Address) (fromBlock : UInt64)
      (history : List (Movement Holder)) (logs : List Log),
      src.provider.getLogs (src.holderFilter token fromBlock) = some logs →
        Records history logs → Valid U128_MAX history 0 →
          ∃ balances, src.fetchHolderBalances token fromBlock = .ok balances ∧
            balances.map BitVec.toNat = largest (ledgerOf history) src.cfg.holderTopK := by
  intro h
  obtain ⟨balances, hrun, heq⟩ := h (serving ((mintAndPass (2 ^ 127 + 1) 1).map transferLog))
    (.repeatByte 20 0x11) 1 (mintAndPass (2 ^ 127 + 1) 1) _ rfl (records_transferLog _)
    (valid_mintAndPass (2 ^ 127 + 1) 1 (by decide) (by omega))
  have hscan : (serving ((mintAndPass (2 ^ 127 + 1) 1).map transferLog)).fetchHolderBalances
      (.repeatByte 20 0x11) 1 = .ok [1] := by
    rfl
  rw [hscan, Except.ok.injEq] at hrun
  subst hrun
  have halice : 2 ^ 127 ≤ ledgerOf (mintAndPass (2 ^ 127 + 1) 1) alice := by
    have hne : bob ≠ alice := by decide
    simp [ledgerOf, final, mintAndPass, post_apply, hne]
  obtain ⟨n, hmem, hn⟩ := largest_of_exceeds _ 100 (2 ^ 127) (by omega) (by omega) alice halice
  have hlist : [1] = largest (ledgerOf (mintAndPass (2 ^ 127 + 1) 1)) 100 := heq
  rw [← hlist, List.mem_singleton] at hmem
  omega

end ShadeIndexer.Enrich
