import ShadeIndexer.Enrich.RpcSource

/-!
The fold over the Transfer logs. A log either moves an amount or is skipped,
no log makes the fold panic, and the map it returns holds for every address
the sum of what was moved there, modulo `2 ^ 128`.
-/

namespace ShadeIndexer.Enrich

open ShadeIndexer.Core Lib.Rust Lib.BigEndian Lib.Accumulator RpcEnrichmentSource

structure Transfer where
  fromAddr : Address
  toAddr : Address
  amount : U128

/-- What a log moves, if the loop does not skip it. -/
def transferOf (log : Log) : Option Transfer :=
  match log.topics with
  | _ :: fromTopic :: toTopic :: _ =>
    if log.data.length < 32 then none
    else some
      { fromAddr := Address.fromWord fromTopic
        toAddr := Address.fromWord toTopic
        amount := U256.saturatingToU128 (BitVec.ofNat 256 (beNat (log.data.take 32))) }
  | _ => none

def moveTokens (balances : Totals Address U128) (t : Transfer) : Totals Address U128 :=
  let balances :=
    if t.fromAddr ≠ Address.ZERO then debit balances t.fromAddr t.amount else balances
  if t.toAddr ≠ Address.ZERO then credit balances t.toAddr t.amount else balances

/-- The map after the loop over the logs. -/
def foldTransfers (logs : List Log) (balances : Totals Address U128) : Totals Address U128 :=
  (logs.filterMap transferOf).foldl moveTokens balances

/-- The loop body skips a log or moves what it says, and never panics. -/
theorem transferStep_eq (balances : Totals Address U128) (log : Log) :
    transferStep balances log =
      .ok ((transferOf log).elim balances (moveTokens balances)) := by
  unfold transferStep transferOf
  rcases htopics : log.topics with _ | ⟨sig, _ | ⟨fromTopic, _ | ⟨toTopic, rest⟩⟩⟩
  · simp
  · simp
  · simp
  · have hlong : ¬ (sig :: fromTopic :: toTopic :: rest).length < 3 := by
      simp only [List.length_cons]
      omega
    by_cases hshort : log.data.length < 32
    · simp [index, hshort]
    · obtain ⟨hslice, _, hword⟩ := @firstWord AnyhowError log.data (by omega)
      simp only [hlong, if_false, index, List.getElem?_cons_succ, List.getElem?_cons_zero,
        ok_bind, hshort, hslice, hword, Option.elim_some]
      rfl

theorem foldlM_transferStep (logs : List Log) (balances : Totals Address U128) :
    logs.foldlM transferStep balances = .ok (foldTransfers logs balances) := by
  induction logs generalizing balances with
  | nil => rfl
  | cons log rest ih =>
      rw [List.foldlM_cons, transferStep_eq, ok_bind, ih, foldTransfers, foldTransfers]
      cases htransfer : transferOf log with
      | none => simp [htransfer]
      | some t => simp [htransfer]

/-- What one movement changes: it subtracts at its source and adds at its
target, and it never changes the zero address. -/
theorem value_moveTokens (balances : Totals Address U128) (t : Transfer) (a : Address) :
    value (moveTokens balances t) a =
      if a = Address.ZERO then value balances a
      else value balances a - (if a = t.fromAddr then t.amount else 0) +
        (if a = t.toAddr then t.amount else 0) := by
  have hdebit : value (if t.fromAddr ≠ Address.ZERO then debit balances t.fromAddr t.amount
      else balances) a =
        if a = Address.ZERO then value balances a
        else value balances a - if a = t.fromAddr then t.amount else 0 := by
    by_cases hzero : t.fromAddr = Address.ZERO
    · by_cases ha : a = Address.ZERO <;> simp [hzero, ha]
    · rw [if_pos hzero, value_debit]
      by_cases ha : a = Address.ZERO
      · simp [ha, Ne.symm hzero]
      · rw [if_neg ha]
  unfold moveTokens
  dsimp only
  by_cases hzero : t.toAddr = Address.ZERO
  · rw [if_neg (not_not.mpr hzero), hdebit]
    by_cases ha : a = Address.ZERO <;> simp [hzero, ha]
  · rw [if_pos hzero, value_credit, hdebit]
    by_cases ha : a = Address.ZERO
    · simp [ha, Ne.symm hzero]
    · rw [if_neg ha, if_neg ha]

namespace RpcEnrichmentSource

/-- The holder scan returns a list whatever the provider answers. -/
theorem fetchHolderBalances_eq (src : RpcEnrichmentSource) (token : Address)
    (fromBlock : UInt64) :
    src.fetchHolderBalances token fromBlock =
      .ok ((src.provider.getLogs (src.holderFilter token fromBlock)).elim [] fun logs =>
        topBalances (values (foldTransfers logs ∅)) src.cfg.holderTopK) := by
  unfold fetchHolderBalances
  cases src.provider.getLogs (src.holderFilter token fromBlock) with
  | none => rfl
  | some logs =>
      simp only [foldlM_transferStep, ok_bind, Option.elim_some]
      rfl

end RpcEnrichmentSource

end ShadeIndexer.Enrich
