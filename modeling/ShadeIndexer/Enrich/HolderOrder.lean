import ShadeIndexer.Enrich.HolderLedger
import ShadeIndexer.Enrich.MetricsSpec
import ShadeIndexer.Lib.Postings

/-!
What the holder scan depends on. With wrapping arithmetic the balances follow
from what each address received and sent, so neither the order of the logs nor
that of the map is visible in the list that the scan returns.
-/

namespace ShadeIndexer.Enrich

open ShadeIndexer.Core Lib.Rust Lib.Accumulator Lib.Wrapping Lib.Postings RpcEnrichmentSource

/-- The two sides of a Transfer. The zero address has no account. -/
def sides (t : Transfer) : List (Posting Address U128) :=
  (if t.fromAddr ≠ Address.ZERO then [.debit t.fromAddr t.amount] else []) ++
    if t.toAddr ≠ Address.ZERO then [.credit t.toAddr t.amount] else []

/-- What a list of logs posts, in order. -/
def postings (logs : List Log) : List (Posting Address U128) :=
  (logs.filterMap transferOf).flatMap sides

/-- What the logs move to an address, in raw units. An amount that does not
fit into a `u128` counts as the largest one. -/
def received (logs : List Log) (a : Address) : Nat :=
  (((logs.filterMap transferOf).filter fun t => t.toAddr = a).map fun t => t.amount.toNat).sum

def sent (logs : List Log) (a : Address) : Nat :=
  (((logs.filterMap transferOf).filter fun t => t.fromAddr = a).map fun t => t.amount.toNat).sum

/-- Incoming minus outgoing. -/
def netFlow (logs : List Log) (a : Address) : ℤ := received logs a - sent logs a

theorem moveTokens_eq (balances : Totals Address U128) (t : Transfer) :
    moveTokens balances t = (sides t).foldl post balances := by
  unfold moveTokens sides
  by_cases hfrom : t.fromAddr = Address.ZERO <;> by_cases hto : t.toAddr = Address.ZERO <;>
    simp [hfrom, hto, post]

theorem foldTransfers_eq (logs : List Log) (balances : Totals Address U128) :
    foldTransfers logs balances = (postings logs).foldl post balances := by
  rw [foldTransfers, postings]
  induction logs.filterMap transferOf generalizing balances with
  | nil => rfl
  | cons t rest ih =>
      rw [List.foldl_cons, List.flatMap_cons, List.foldl_append, ← moveTokens_eq, ih]

theorem net_sides (t : Transfer) (a : Address) (ha : a ≠ Address.ZERO) :
    net (fun x : U128 => (x.toNat : ℤ)) (sides t) a =
      (if t.toAddr = a then (t.amount.toNat : ℤ) else 0) -
        if t.fromAddr = a then (t.amount.toNat : ℤ) else 0 := by
  have hdebit : net (fun x : U128 => (x.toNat : ℤ))
      (if t.fromAddr ≠ Address.ZERO then [.debit t.fromAddr t.amount] else []) a =
        -if t.fromAddr = a then (t.amount.toNat : ℤ) else 0 := by
    by_cases hzero : t.fromAddr = Address.ZERO
    · simp [hzero, ha.symm]
    · rw [if_pos hzero, net_cons, net_nil, add_zero, effect]
      by_cases h : t.fromAddr = a
      · rw [if_pos h, if_pos h.symm]
      · rw [if_neg h, if_neg (Ne.symm h), neg_zero]
  have hcredit : net (fun x : U128 => (x.toNat : ℤ))
      (if t.toAddr ≠ Address.ZERO then [.credit t.toAddr t.amount] else []) a =
        if t.toAddr = a then (t.amount.toNat : ℤ) else 0 := by
    by_cases hzero : t.toAddr = Address.ZERO
    · simp [hzero, ha.symm]
    · rw [if_pos hzero, net_cons, net_nil, add_zero, effect]
      by_cases h : t.toAddr = a
      · rw [if_pos h, if_pos h.symm]
      · rw [if_neg h, if_neg (Ne.symm h)]
  rw [sides, net_append, hdebit, hcredit]
  omega

/-- The exact balance of the postings is what the logs move in less what they
move out. -/
theorem net_postings (logs : List Log) (a : Address) (ha : a ≠ Address.ZERO) :
    net (fun x : U128 => (x.toNat : ℤ)) (postings logs) a = netFlow logs a := by
  unfold postings netFlow received sent
  induction logs.filterMap transferOf with
  | nil => rfl
  | cons t rest ih =>
      rw [List.flatMap_cons, net_append, net_sides t a ha, ih, List.filter_cons, List.filter_cons]
      by_cases hfrom : t.fromAddr = a <;> by_cases hto : t.toAddr = a <;>
        simp [hfrom, hto] <;> omega

theorem netFlow_perm {logs order : List Log} (h : order.Perm logs) (a : Address) :
    netFlow order a = netFlow logs a := by
  have hmoved := h.filterMap transferOf
  have hreceived : received order a = received logs a := ((hmoved.filter _).map _).sum_eq
  have hsent : sent order a = sent logs a := ((hmoved.filter _).map _).sum_eq
  rw [netFlow, netFlow, hreceived, hsent]

/-- The register of an address is its net flow modulo `2 ^ 128`. -/
theorem value_foldTransfers (logs : List Log) (a : Address) (ha : a ≠ Address.ZERO) :
    value (foldTransfers logs ∅) a = ((netFlow logs a : ℤ) : U128) := by
  have hempty : value (∅ : Totals Address U128) a = 0 := rfl
  rw [foldTransfers_eq, value_foldl_post _ intCast_toNat, net_postings logs a ha, hempty, zero_add]

/-- The zero address never gets an entry: mints and burns move one side only. -/
theorem zero_not_mem_foldTransfers (logs : List Log) :
    Address.ZERO ∉ foldTransfers logs ∅ := by
  have hkeep (ts : List Transfer) (balances : Totals Address U128)
      (h : Address.ZERO ∉ balances) : Address.ZERO ∉ ts.foldl moveTokens balances := by
    induction ts generalizing balances with
    | nil => exact h
    | cons t rest ih =>
        apply ih
        unfold moveTokens
        by_cases hfrom : t.fromAddr = Address.ZERO <;> by_cases hto : t.toAddr = Address.ZERO <;>
          simp [hfrom, hto, debit, credit, AList.mem_insert, h, Ne.symm]
  exact hkeep _ ∅ (AList.notMem_empty _)

theorem value_foldTransfers_perm {logs order : List Log} (h : order.Perm logs) (a : Address) :
    value (foldTransfers order ∅) a = value (foldTransfers logs ∅) a := by
  by_cases ha : a = Address.ZERO
  · have hnone (scanned : List Log) : value (foldTransfers scanned ∅) Address.ZERO = 0 := by
      rw [value, AList.lookup_eq_none.mpr (zero_not_mem_foldTransfers scanned), Option.getD_none]
    rw [ha, hnone, hnone]
  · rw [value_foldTransfers _ a ha, value_foldTransfers _ a ha, netFlow_perm h]

theorem topBalances_perm {xs ys : List U128} (h : xs.Perm ys) (k : Nat) :
    topBalances xs k = topBalances ys k := by
  rw [topBalances, topBalances, sortDescending_congr (h.filter _)]

theorem topBalances_congr {deltas deltas' : Totals Address U128}
    (h : ∀ a, value deltas a = value deltas' a) (k : Nat) :
    topBalances (values deltas) k = topBalances (values deltas') k := by
  have hpositive := values_filter_perm (fun v : U128 => 0 < v.toInt) (by decide) h
  rw [topBalances, topBalances, sortDescending_congr hpositive]

/-- What one scan of the given logs depends on. The map is iterated in any
order, and a register is read as an `i128`. -/
structure FollowsTransfers (src : RpcEnrichmentSource) (logs : List Log)
    (balances : List U128) (deltas : Totals Address U128) : Prop where
  fold : logs.foldlM transferStep ∅ = .ok deltas
  anyOrder : ∀ order : List U128, order.Perm (values deltas) →
    topBalances order src.cfg.holderTopK = balances
  zero : Address.ZERO ∉ deltas
  residue : ∀ a, a ≠ Address.ZERO → SignedResidue 128 (netFlow logs a) (value deltas a).toInt
  exactInRange : ∀ a, a ≠ Address.ZERO → InSignedRange 128 (netFlow logs a) →
    (value deltas a).toInt = netFlow logs a

/-- Two nodes that serve the same logs in different orders make the scan
return the same list. -/
theorem fetchHolderBalances_order_free (src src' : RpcEnrichmentSource) (token : Address)
    (fromBlock : UInt64) (logs logs' : List Log)
    (hlogs : src.provider.getLogs (src.holderFilter token fromBlock) = some logs)
    (hlogs' : src'.provider.getLogs (src'.holderFilter token fromBlock) = some logs')
    (hcfg : src'.cfg = src.cfg) (hperm : logs'.Perm logs) :
    ∃ balances deltas deltas', src.fetchHolderBalances token fromBlock = .ok balances ∧
      src'.fetchHolderBalances token fromBlock = .ok balances ∧
      FollowsTransfers src logs balances deltas ∧
      FollowsTransfers src' logs' balances deltas' := by
  have hsame := topBalances_congr (value_foldTransfers_perm hperm) src.cfg.holderTopK
  have hresidue (scanned : List Log) (a : Address) (ha : a ≠ Address.ZERO) :
      SignedResidue 128 (netFlow scanned a) (value (foldTransfers scanned ∅) a).toInt := by
    rw [value_foldTransfers scanned a ha]
    exact signedResidue_toInt (by decide) _
  refine ⟨topBalances (values (foldTransfers logs ∅)) src.cfg.holderTopK,
    foldTransfers logs ∅, foldTransfers logs' ∅, ?_, ?_, ?_, ?_⟩
  · rw [src.fetchHolderBalances_eq, hlogs, Option.elim_some]
  · rw [src'.fetchHolderBalances_eq, hlogs', Option.elim_some, hcfg, hsame]
  · exact
      { fold := foldlM_transferStep logs ∅
        anyOrder := fun order h => topBalances_perm h _
        zero := zero_not_mem_foldTransfers logs
        residue := hresidue logs
        exactInRange := fun a ha hrange => (hresidue logs a ha).exact hrange }
  · exact
      { fold := foldlM_transferStep logs' ∅
        anyOrder := fun order h => by rw [hcfg, topBalances_perm h, hsame]
        zero := zero_not_mem_foldTransfers logs'
        residue := hresidue logs'
        exactInRange := fun a ha hrange => (hresidue logs' a ha).exact hrange }

/-- A mint and a transfer, served in both orders. -/
theorem fetchHolderBalances_order_free_pair :
    ∃ balances deltas deltas',
      (serving ((mintAndPass 5 2).map transferLog)).fetchHolderBalances (.repeatByte 20 0x11) 1 =
        .ok balances ∧
      (serving ((mintAndPass 5 2).map transferLog).reverse).fetchHolderBalances
        (.repeatByte 20 0x11) 1 = .ok balances ∧
      FollowsTransfers (serving ((mintAndPass 5 2).map transferLog))
        ((mintAndPass 5 2).map transferLog) balances deltas ∧
      FollowsTransfers (serving ((mintAndPass 5 2).map transferLog).reverse)
        ((mintAndPass 5 2).map transferLog).reverse balances deltas' :=
  fetchHolderBalances_order_free (serving ((mintAndPass 5 2).map transferLog))
    (serving ((mintAndPass 5 2).map transferLog).reverse) (.repeatByte 20 0x11) 1 _ _ rfl rfl rfl
    (List.reverse_perm _)

end ShadeIndexer.Enrich
