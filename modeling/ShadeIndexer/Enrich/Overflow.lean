import ShadeIndexer.Enrich.Concentration
import ShadeIndexer.Enrich.HolderOrder

/-!
Overflow between the logs and the metrics. The logs come from a contract that
can be anything, and nothing bounds what they add up to. The dev profile checks
every addition and panics where the release profile wraps. Both agree with
exact arithmetic if and only if every balance stays an `i128` along the way and
no `holder_top_k` addresses end up with `2 ^ 128` or more between them.
-/

namespace ShadeIndexer.Enrich

open ShadeIndexer.Core Lib Lib.Rust Lib.Accumulator Lib.Wrapping Lib.Postings Lib.Majorization
  Lib.Dispersion Lib.Ledger RpcEnrichmentSource

/-- `moveTokens` with overflow checks. `none` stands for the panic. -/
def moveTokensChecked (balances : Totals Address U128) (t : Transfer) :
    Option (Totals Address U128) := do
  let balances ←
    if t.fromAddr ≠ Address.ZERO then postChecked balances (.debit t.fromAddr t.amount)
    else some balances
  if t.toAddr ≠ Address.ZERO then postChecked balances (.credit t.toAddr t.amount)
  else some balances

namespace RpcEnrichmentSource

def fetchHolderBalancesChecked (src : RpcEnrichmentSource) (token : Address)
    (fromBlock : UInt64) : Option (List U128) :=
  match src.provider.getLogs (src.holderFilter token fromBlock) with
  | none => some []
  | some logs => do
    let balances ← (logs.filterMap transferOf).foldlM moveTokensChecked ∅
    some (topBalances (values balances) src.cfg.holderTopK)

end RpcEnrichmentSource

def topNShareChecked (balances : List U128) (n : Nat) (total : U128) : Option ℚ :=
  if total = 0 then some 0
  else do
    let topn ← checkedSum ((sortDescending balances).take n)
    some (topn.toNat / total.toNat)

def Enrichment.fromSnapshotChecked (s : HolderSnapshot) : Option Enrichment := do
  let total ← checkedSum s.balances
  let top10Share ← topNShareChecked s.balances 10 total
  some
    { top10Share := .finite top10Share
      gini := .finite (Enrich.gini s.balances total)
      hhi := .finite (Enrich.hhi s.balances total)
      liqToFdvRatio := if s.fdvUsd.isPos then s.liquidityUsd.divPos s.fdvUsd else .finite 0
      liqLocked := s.liquidityLocked
      bytecodeFlags := s.bytecodeFlags }

/-- The scan returns these balances in both profiles, and the metrics over them
are those of exact arithmetic. -/
structure NoOverflow (src : RpcEnrichmentSource) (token : Address) (fromBlock : UInt64)
    (balances : List U128) : Prop where
  scanChecked : src.fetchHolderBalancesChecked token fromBlock = some balances
  scan : src.fetchHolderBalances token fromBlock = .ok balances
  metricsChecked : ∀ s : HolderSnapshot, s.balances = balances →
    Enrichment.fromSnapshotChecked s = some (Enrichment.fromSnapshot s)
  total : (sumU128 balances).toNat = totalOf balances
  shares : ∀ s : HolderSnapshot, s.balances = balances → ∃ top10Share gini hhi,
    HasMetrics (Enrichment.fromSnapshot s) top10Share gini hhi ∧
      0 ≤ top10Share ∧ top10Share ≤ 1 ∧ 0 ≤ hhi ∧ hhi ≤ 1

/-- The exact balances fit. An amount is read as an `i128`, as the cast does. -/
structure WithinRange (logs : List Log) (k : Nat) : Prop where
  running : ∀ done, done <+: postings logs → ∀ a,
    InSignedRange 128 (net BitVec.toInt done a)
  total : ∀ holders : Finset Address, holders.card ≤ k →
    ∑ a ∈ holders, net BitVec.toInt (postings logs) a < 2 ^ 128

theorem moveTokensChecked_eq (balances : Totals Address U128) (t : Transfer) :
    moveTokensChecked balances t = (sides t).foldlM postChecked balances := by
  unfold moveTokensChecked sides
  by_cases hfrom : t.fromAddr = Address.ZERO <;> by_cases hto : t.toAddr = Address.ZERO <;>
    simp [hfrom, hto]

theorem foldlM_moveTokensChecked (ts : List Transfer) (balances : Totals Address U128) :
    ts.foldlM moveTokensChecked balances = (ts.flatMap sides).foldlM postChecked balances := by
  induction ts generalizing balances with
  | nil => rfl
  | cons t rest ih =>
      rw [List.foldlM_cons, List.flatMap_cons, List.foldlM_append, moveTokensChecked_eq]
      exact bind_congr fun next => ih next

/-- The dev profile gets through the logs exactly if every exact balance is an
`i128` after each posting. -/
theorem fetchHolderBalancesChecked_eq_some_iff (src : RpcEnrichmentSource) (token : Address)
    (fromBlock : UInt64) (logs : List Log) (balances : List U128)
    (hlogs : src.provider.getLogs (src.holderFilter token fromBlock) = some logs) :
    src.fetchHolderBalancesChecked token fromBlock = some balances ↔
      (∀ done, done <+: postings logs → ∀ a, InSignedRange 128 (net BitVec.toInt done a)) ∧
        balances = topBalances (values (foldTransfers logs ∅)) src.cfg.holderTopK := by
  have hempty (a : Address) : (value (∅ : Totals Address U128) a).toInt = 0 := rfl
  have hfold (deltas : Totals Address U128) :
      (logs.filterMap transferOf).foldlM moveTokensChecked ∅ = some deltas ↔
        (∀ done, done <+: postings logs → ∀ a, InSignedRange 128 (net BitVec.toInt done a)) ∧
          deltas = foldTransfers logs ∅ := by
    have hrun := foldlM_postChecked_eq_some_iff (by decide) (postings logs) ∅ deltas
    simp only [StaysInRange, hempty, zero_add] at hrun
    rw [foldlM_moveTokensChecked, foldTransfers_eq]
    exact hrun
  rw [fetchHolderBalancesChecked, hlogs]
  simp only [Option.bind_eq_bind, Option.bind_eq_some_iff, hfold, Option.some.injEq]
  constructor
  · rintro ⟨deltas, ⟨hrunning, rfl⟩, rfl⟩
    exact ⟨hrunning, rfl⟩
  · rintro ⟨hrunning, rfl⟩
    exact ⟨_, ⟨hrunning, rfl⟩, rfl⟩

/-- A register whose exact balance is in range holds that balance. -/
theorem toInt_foldTransfers (logs : List Log) (a : Address)
    (h : InSignedRange 128 (net BitVec.toInt (postings logs) a)) :
    (value (foldTransfers logs ∅) a).toInt = net BitVec.toInt (postings logs) a := by
  have hempty : value (∅ : Totals Address U128) a = 0 := rfl
  rw [foldTransfers_eq, value_foldl_post _ intCast_toInt, hempty, zero_add]
  exact (signedResidue_toInt (by decide) _).exact h

/-- Amounts that are small when read as `u128` are not negative as `i128`. -/
theorem toInt_eq_toNat {x : U128} (h : x.toNat < 2 ^ 127) : x.toInt = x.toNat := by
  rw [BitVec.toInt_eq_toNat_cond, if_pos (by omega)]

theorem toNat_of_toInt_pos {x : U128} (h : 0 < x.toInt) : (x.toNat : ℤ) = x.toInt :=
  (toInt_eq_toNat ((toInt_pos_iff x).mp h).2).symm

/-- The addresses whose register is positive. -/
def positiveKeys (deltas : Totals Address U128) : Finset Address :=
  deltas.keys.toFinset.filter fun a => 0 < (value deltas a).toInt

theorem mem_positiveKeys (deltas : Totals Address U128) (a : Address) :
    a ∈ positiveKeys deltas ↔ 0 < (value deltas a).toInt := by
  rw [positiveKeys, Finset.mem_filter, and_iff_right_iff_imp]
  have hzero : ¬ 0 < (0 : U128).toInt := by decide
  exact fun hpositive => mem_keys_of_value (p := fun v : U128 => 0 < v.toInt) deltas hzero hpositive

/-- The list that the scan returns adds up to the largest registers. -/
theorem totalOf_topBalances (deltas : Totals Address U128) (k : Nat) :
    (totalOf (topBalances (values deltas) k) : ℚ) =
      largestSum k ((positiveKeys deltas).toList.map fun a => ((value deltas a).toInt : ℚ)) := by
  have hcover (a : Address) (ha : 0 < (value deltas a).toInt) : a ∈ positiveKeys deltas :=
    (mem_positiveKeys deltas a).mpr ha
  have hkept : (positiveKeys deltas).filter (fun a => 0 < (value deltas a).toInt) =
      positiveKeys deltas :=
    Finset.filter_true_of_mem fun a ha => (mem_positiveKeys deltas a).mp ha
  have hvalues := values_filter_eq deltas (fun v => 0 < v.toInt) (by decide) _ hcover
  rw [hkept] at hvalues
  have hperm : (amounts ((values deltas).filter fun v => 0 < v.toInt)).Perm
      ((positiveKeys deltas).toList.map fun a => ((value deltas a).toInt : ℚ)) := by
    rw [← Multiset.coe_eq_coe, amounts, ← Multiset.map_coe, hvalues, Multiset.map_map,
      ← Multiset.map_coe, Finset.coe_toList]
    apply Multiset.map_congr rfl
    intro a ha
    have hread := toNat_of_toInt_pos ((mem_positiveKeys deltas a).mp ha)
    rw [Function.comp_apply, ← hread, Int.cast_natCast]
  have htake : amounts (topBalances (values deltas) k) =
      (amounts (sortDescending ((values deltas).filter fun v => 0 < v.toInt))).take k :=
    List.map_take
  rw [← sum_amounts, htake]
  exact (largestSum_of_descending k ((amounts_perm (sortDescending_perm _)).trans hperm)
    (amounts_sortDescending _)).symm

/-- The list adds up to less than a bound if and only if no `k` addresses hold
that much. -/
theorem totalOf_topBalances_lt_iff (deltas : Totals Address U128) (k : Nat) :
    totalOf (topBalances (values deltas) k) < 2 ^ 128 ↔
      ∀ holders : Finset Address, holders.card ≤ k →
        ∑ a ∈ holders, (value deltas a).toInt < 2 ^ 128 := by
  have htotal := totalOf_topBalances deltas k
  constructor
  · intro hbound holders hcard
    have hsubset : holders.filter (fun a => 0 < (value deltas a).toInt) ⊆ positiveKeys deltas := by
      intro a ha
      exact (mem_positiveKeys deltas a).mpr (Finset.mem_filter.mp ha).2
    have hmost := sum_le_largestSum (fun a => ((value deltas a).toInt : ℚ)) k hsubset
      ((Finset.card_filter_le _ _).trans hcard) fun a ha => by
        exact_mod_cast ((mem_positiveKeys deltas a).mp ha).le
    rw [← htotal] at hmost
    have hpositive : ∑ a ∈ holders, (value deltas a).toInt ≤
        ∑ a ∈ holders.filter (fun a => 0 < (value deltas a).toInt), (value deltas a).toInt := by
      rw [Finset.sum_filter]
      apply Finset.sum_le_sum
      intro a _
      split <;> omega
    have hsum : ∑ a ∈ holders.filter (fun a => 0 < (value deltas a).toInt),
        (value deltas a).toInt ≤ totalOf (topBalances (values deltas) k) := by
      exact_mod_cast hmost
    omega
  · intro hholders
    obtain ⟨holders, _, hcard, hsum⟩ := exists_sum_eq_largestSum
      (fun a => ((value deltas a).toInt : ℚ)) (positiveKeys deltas) k
    rw [← htotal] at hsum
    have hexact : ∑ a ∈ holders, (value deltas a).toInt =
        totalOf (topBalances (values deltas) k) := by
      exact_mod_cast hsum
    have hlt := hholders holders hcard
    omega

theorem checkedSum_exact {xs : List U128} (h : totalOf xs < 2 ^ 128) :
    checkedSum xs = some (sumU128 xs) :=
  (checkedSum_eq_some_iff xs _).mpr ⟨h, rfl⟩

theorem topNShareChecked_eq (balances : List U128) (n : Nat) (h : totalOf balances < 2 ^ 128) :
    topNShareChecked balances n (sumU128 balances) =
      some (topNShare balances n (sumU128 balances)) := by
  rw [topNShareChecked, topNShare, checkedSum_exact (totalOf_top_lt n h)]
  split <;> rfl

theorem fromSnapshotChecked_eq (s : HolderSnapshot) (h : totalOf s.balances < 2 ^ 128) :
    Enrichment.fromSnapshotChecked s = some (Enrichment.fromSnapshot s) := by
  rw [Enrichment.fromSnapshotChecked, checkedSum_exact h, Option.bind_eq_bind, Option.bind_some,
    topNShareChecked_eq _ _ h]
  rfl

/-- Over balances whose sum does not wrap the shares are between 0 and 1. -/
theorem shares_in_unit (s : HolderSnapshot) (h : totalOf s.balances < 2 ^ 128) :
    ∃ top10Share gini hhi, HasMetrics (Enrichment.fromSnapshot s) top10Share gini hhi ∧
      0 ≤ top10Share ∧ top10Share ≤ 1 ∧ 0 ≤ hhi ∧ hhi ≤ 1 := by
  have hnonneg := amounts_nonneg s.balances
  have hsum := List.sum_nonneg hnonneg
  have hsquares := sumSq_le_mul_sum _ _ fun x hx => ⟨hnonneg x hx, List.single_le_sum hnonneg x hx⟩
  refine ⟨_, _, _, fromSnapshot_exact s h, ?_, ?_, ?_, ?_⟩
  · exact div_nonneg (largestSum_nonneg 10 _ hnonneg) hsum
  · exact div_le_one_of_le₀ (largestSum_le_sum 10 _ hnonneg) hsum
  · exact div_nonneg (sumSq_nonneg _) (mul_self_nonneg _)
  · exact div_le_one_of_le₀ hsquares (mul_self_nonneg _)

/-- All that the logs move, in raw units. -/
def moved (logs : List Log) : Nat :=
  ((logs.filterMap transferOf).map fun t => t.amount.toNat).sum

theorem sides_amount (t : Transfer) : ∀ p ∈ sides t, p.amount = t.amount := by
  intro p hp
  rcases List.mem_append.mp hp with hdebit | hcredit
  · split at hdebit
    · rw [List.mem_singleton.mp hdebit, Posting.amount]
    · cases hdebit
  · split at hcredit
    · rw [List.mem_singleton.mp hcredit, Posting.amount]
    · cases hcredit

theorem sides_length_le (t : Transfer) : (sides t).length ≤ 2 := by
  unfold sides
  split <;> split <;> simp

theorem turnover_sides_le (t : Transfer) (hsmall : t.amount.toNat < 2 ^ 127) :
    turnover BitVec.toInt (sides t) ≤ 2 * t.amount.toNat := by
  have hamounts : ∀ x ∈ (sides t).map fun p => p.amount.toInt, x ≤ (t.amount.toNat : ℤ) := by
    intro x hx
    obtain ⟨p, hp, rfl⟩ := List.mem_map.mp hx
    rw [sides_amount t p hp, toInt_eq_toNat hsmall]
  have hsum := List.sum_le_card_nsmul _ _ hamounts
  have hlength := sides_length_le t
  rw [List.length_map, nsmul_eq_mul] at hsum
  calc
    turnover BitVec.toInt (sides t) ≤ (sides t).length * t.amount.toNat := hsum
    _ ≤ 2 * t.amount.toNat := by gcongr; exact_mod_cast hlength

/-- Each log posts its amount twice at most. -/
theorem turnover_postings_le (logs : List Log)
    (hsmall : ∀ t ∈ logs.filterMap transferOf, t.amount.toNat < 2 ^ 127) :
    turnover BitVec.toInt (postings logs) ≤ 2 * moved logs := by
  unfold postings moved
  generalize logs.filterMap transferOf = ts at hsmall
  induction ts with
  | nil => simp [turnover]
  | cons t rest ih =>
      obtain ⟨ht, hrest⟩ := List.forall_mem_cons.mp hsmall
      have hside := turnover_sides_le t ht
      have htail := ih hrest
      rw [List.flatMap_cons, turnover_append, List.map_cons, List.sum_cons]
      omega

/-- Logs that move less than `2 ^ 126` units altogether overflow nothing. -/
theorem withinRange_of_moved (logs : List Log) (k : Nat) (h : moved logs < 2 ^ 126) :
    WithinRange logs k := by
  have hsmall : ∀ t ∈ logs.filterMap transferOf, t.amount.toNat < 2 ^ 127 := by
    intro t ht
    have hle : t.amount.toNat ≤ moved logs := List.le_sum_of_mem (List.mem_map_of_mem ht)
    omega
  have hnonneg : ∀ p ∈ postings logs, 0 ≤ p.amount.toInt := by
    intro p hp
    obtain ⟨t, ht, hside⟩ := List.mem_flatMap.mp hp
    rw [sides_amount t p hside, toInt_eq_toNat (hsmall t ht)]
    exact Int.natCast_nonneg _
  have hturnover := turnover_postings_le logs hsmall
  constructor
  · intro done hdone a
    have hprefix := turnover_mono BitVec.toInt hnonneg hdone
    have habs := abs_sum_net_le BitVec.toInt done (fun p hp => hnonneg p (hdone.subset hp)) {a}
    rw [Finset.sum_singleton, abs_le] at habs
    exact ⟨by omega, by omega⟩
  · intro holders _
    have habs := abs_sum_net_le BitVec.toInt (postings logs) hnonneg holders
    rw [abs_le] at habs
    omega

/-- Nothing overflows between the logs and the metrics exactly if the exact
balances fit. -/
theorem noOverflow_iff (src : RpcEnrichmentSource) (token : Address) (fromBlock : UInt64)
    (logs : List Log)
    (hlogs : src.provider.getLogs (src.holderFilter token fromBlock) = some logs) :
    (∃ balances, NoOverflow src token fromBlock balances) ↔
      WithinRange logs src.cfg.holderTopK := by
  have hchecked := fetchHolderBalancesChecked_eq_some_iff src token fromBlock logs
  have hfinal (hrunning : ∀ done, done <+: postings logs → ∀ a,
      InSignedRange 128 (net BitVec.toInt done a)) (a : Address) :
      (value (foldTransfers logs ∅) a).toInt = net BitVec.toInt (postings logs) a :=
    toInt_foldTransfers logs a (hrunning _ (List.prefix_refl _) a)
  have hlist := totalOf_topBalances_lt_iff (foldTransfers logs ∅) src.cfg.holderTopK
  constructor
  · rintro ⟨balances, hfits⟩
    obtain ⟨hrunning, rfl⟩ := (hchecked balances hlogs).mp hfits.scanChecked
    have hbound := (sumU128 (topBalances (values (foldTransfers logs ∅)) src.cfg.holderTopK)).isLt
    rw [hfits.total, hlist] at hbound
    simp only [hfinal hrunning] at hbound
    exact ⟨hrunning, hbound⟩
  · rintro ⟨hrunning, hholders⟩
    simp only [hfinal hrunning] at hlist
    have hbound := hlist.mpr hholders
    refine ⟨topBalances (values (foldTransfers logs ∅)) src.cfg.holderTopK, ?_⟩
    exact
      { scanChecked := (hchecked _ hlogs).mpr ⟨hrunning, rfl⟩
        scan := by rw [src.fetchHolderBalances_eq, hlogs, Option.elim_some]
        metricsChecked := by
          intro s hs
          exact fromSnapshotChecked_eq s (by rwa [hs])
        total := sumU128_exact hbound
        shares := by
          intro s hs
          exact shares_in_unit s (by rwa [hs]) }

theorem noOverflow_iff_small :
    ∃ balances, NoOverflow (serving ((mintAndPass 5 2).map transferLog)) (.repeatByte 20 0x11) 1
      balances :=
  (noOverflow_iff (serving ((mintAndPass 5 2).map transferLog)) (.repeatByte 20 0x11) 1 _ rfl).mpr
    (withinRange_of_moved _ 100 (by decide))

def carol : Holder := ⟨.repeatByte 20 0xC4, by decide⟩

/-- Three accounts that are given as much as an `i128` can hold. -/
def threeWhales : List (Movement Holder) :=
  [.mint alice (2 ^ 127 - 1), .mint bob (2 ^ 127 - 1), .mint carol (2 ^ 127 - 1)]

/-- Each balance of the three whales fits, and their sum wraps to about a third
of what it is. -/
theorem total_wraps :
    ¬ ∀ (src : RpcEnrichmentSource) (token : Address) (fromBlock : UInt64) (logs : List Log),
      src.provider.getLogs (src.holderFilter token fromBlock) = some logs →
        ∃ balances, NoOverflow src token fromBlock balances := by
  intro h
  obtain ⟨balances, hfits⟩ := h (serving (threeWhales.map transferLog)) (.repeatByte 20 0x11) 1
    _ rfl
  have hscan : (serving (threeWhales.map transferLog)).fetchHolderBalances
      (.repeatByte 20 0x11) 1 = .ok (List.replicate 3 (BitVec.ofNat 128 (2 ^ 127 - 1))) := by
    rfl
  have hbalances := hfits.scan
  rw [hscan, Except.ok.injEq] at hbalances
  subst hbalances
  exact absurd hfits.total (by decide)

example : 2 < hhi (List.replicate 3 (BitVec.ofNat 128 (2 ^ 127 - 1)))
    (sumU128 (List.replicate 3 (BitVec.ofNat 128 (2 ^ 127 - 1)))) := by
  decide +kernel

end ShadeIndexer.Enrich
