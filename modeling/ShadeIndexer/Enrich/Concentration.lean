import ShadeIndexer.Enrich.MetricsSpec

/-!
What the metrics say about concentration. The shares bound one another, they
grow when a balance moves to a richer holder, they ignore the unit of account,
and cutting the list off after the largest holders does not lower them.
-/

namespace ShadeIndexer.Enrich

open ShadeIndexer.Core Lib Lib.Dispersion Lib.Majorization

/-- The metrics of a snapshot whose balances add up without wrapping. -/
theorem fromSnapshot_exact (s : HolderSnapshot) (h : totalOf s.balances < 2 ^ 128) :
    HasMetrics (Enrichment.fromSnapshot s)
      (largestSum 10 (amounts s.balances) / (amounts s.balances).sum)
      (spread (amounts s.balances) / (2 * (s.balances.length * (amounts s.balances).sum)))
      (sumSq (amounts s.balances) / ((amounts s.balances).sum * (amounts s.balances).sum)) where
  top10Share := congrArg F64.finite (topNShare_eq 10 h)
  gini := congrArg F64.finite (gini_eq h)
  hhi := congrArg F64.finite (hhi_eq h)

/-- The bounds on the shares of `n` holders. -/
structure Consistent (balances : List U128) (top10Share hhi : ℚ) : Prop where
  top_ge : ((min 10 balances.length : Nat) : ℚ) / balances.length ≤ top10Share
  top_le : top10Share ≤ 1
  top_eq_one : top10Share = 1 ↔ (balances.filter fun x => x ≠ 0).length ≤ 10
  hhi_ge : 1 / balances.length ≤ hhi
  hhi_le : hhi ≤ 1
  top_sq_le : top10Share ^ 2 / 10 ≤ hhi
  hhi_le_top : hhi ≤ top10Share

theorem filter_amounts_length (balances : List U128) :
    ((amounts balances).filter fun x => x ≠ 0).length =
      (balances.filter fun x => x ≠ 0).length := by
  have hzero (x : U128) : decide ((x.toNat : ℚ) ≠ 0) = decide (x ≠ 0) := by
    rw [decide_eq_decide, Nat.cast_ne_zero, ne_eq, ne_eq, not_iff_not, ← BitVec.toNat_inj]
    rfl
  simp only [amounts, List.filter_map, List.length_map, Function.comp_def, hzero]

theorem consistent_of_pos {balances : List U128} (hpositive : 0 < totalOf balances) :
    Consistent balances (largestSum 10 (amounts balances) / (amounts balances).sum)
      (sumSq (amounts balances) / ((amounts balances).sum * (amounts balances).sum)) := by
  have hnonneg := amounts_nonneg balances
  have hne := ne_nil_of_totalOf_pos hpositive
  have hlength : (0 : ℚ) < balances.length := Nat.cast_pos.mpr (List.length_pos_iff.mpr hne)
  have hsum := sum_amounts_pos hpositive
  have hmean := min_mul_sum_le 10 _ hnonneg
  have htop := largestSum_le_sum 10 _ hnonneg
  have hall := largestSum_eq_sum_iff 10 _ hnonneg
  have hcauchy := sum_sq_le (amounts balances)
  have hsquares := largestSum_sq_le 10 (amounts balances)
  have hlargest := sumSq_le_mul_sum _ _ fun x hx =>
    ⟨hnonneg x hx, le_largestSum 10 (by decide) _ hnonneg x hx⟩
  rw [amounts_length] at hmean hcauchy
  rw [filter_amounts_length] at hall
  push_cast at hsquares
  generalize (amounts balances).sum = total at *
  generalize largestSum 10 (amounts balances) = top at *
  generalize sumSq (amounts balances) = squares at *
  have hsquare : 0 < total * total := mul_pos hsum hsum
  have htotal : squares ≤ total * total :=
    hlargest.trans (mul_le_mul_of_nonneg_right htop hsum.le)
  constructor
  · rw [div_le_div_iff₀ hlength hsum, mul_comm top]
    exact hmean
  · rw [div_le_one hsum]
    exact htop
  · rw [div_eq_one_iff_eq hsum.ne']
    exact hall
  · rw [div_le_div_iff₀ hlength hsquare, one_mul, mul_comm squares]
    exact hcauchy
  · rw [div_le_one hsquare]
    exact htotal
  · rw [div_pow, div_div, div_le_div_iff₀ (by positivity) hsquare]
    calc
      top ^ 2 * (total * total) = top * top * (total * total) := by ring
      _ ≤ 10 * squares * (total * total) := mul_le_mul_of_nonneg_right hsquares hsquare.le
      _ = squares * (total ^ 2 * 10) := by ring
  · rw [div_le_div_iff₀ hsquare hsum]
    calc
      squares * total ≤ top * total * total := mul_le_mul_of_nonneg_right hlargest hsum.le
      _ = top * (total * total) := by ring

theorem shares_consistent (s : HolderSnapshot) (hbound : totalOf s.balances < 2 ^ 128) :
    ∃ top10Share gini hhi, HasMetrics (Enrichment.fromSnapshot s) top10Share gini hhi ∧
      (0 < totalOf s.balances → Consistent s.balances top10Share hhi) ∧
      (totalOf s.balances = 0 ∨ s.balances = [] → top10Share = 0 ∧ gini = 0 ∧ hhi = 0) := by
  refine ⟨_, _, _, fromSnapshot_exact s hbound, consistent_of_pos, ?_⟩
  intro hnothing
  have hzero : (amounts s.balances).sum = 0 := by
    rw [sum_amounts, Nat.cast_eq_zero]
    rcases hnothing with hzero | hempty
    · exact hzero
    · rw [hempty]
      rfl
  simp only [hzero, mul_zero, div_zero, and_self]

/-- Holders of the given balances, and no liquidity. -/
def holding (balances : List U128) : HolderSnapshot where
  balances := balances
  liquidityUsd := .finite 0
  fdvUsd := .finite 0
  liquidityLocked := false
  bytecodeFlags := 0

theorem shares_consistent_three :
    ∃ top10Share gini hhi,
      HasMetrics (Enrichment.fromSnapshot (holding [5, 3, 2])) top10Share gini hhi ∧
      (0 < totalOf [5, 3, 2] → Consistent [5, 3, 2] top10Share hhi) ∧
      (totalOf [5, 3, 2] = 0 ∨ ([5, 3, 2] : List U128) = [] →
        top10Share = 0 ∧ gini = 0 ∧ hhi = 0) :=
  shares_consistent (holding [5, 3, 2]) (by decide)

/-- The balances after `d` has moved from holder `i` to holder `j`. -/
def moveBalance (balances : List U128) (i j : Fin balances.length) (d : U128) : List U128 :=
  (balances.set i (balances[i] - d)).set j (balances[j] + d)

theorem le_totalOf {balances : List U128} {x : U128} (hx : x ∈ balances) :
    x.toNat ≤ totalOf balances :=
  List.le_sum_of_mem (List.mem_map_of_mem hx)

/-- A pair of holders has no more than the total. -/
theorem pair_le_totalOf {balances : List U128} {i j : Fin balances.length} (hij : i ≠ j) :
    balances[i].toNat + balances[j].toNat ≤ totalOf balances := by
  obtain ⟨rest, hrest⟩ := exists_rest_of_ne i.isLt j.isLt (Fin.val_ne_of_ne hij)
  have hsame := hrest balances[i] balances[j]
  have hself : (balances.set i balances[i]).set j balances[j] = balances := by
    simp [List.set_getElem_self]
  rw [hself] at hsame
  have hsum : totalOf (balances[i] :: balances[j] :: rest) =
      balances[i].toNat + (balances[j].toNat + totalOf rest) := rfl
  rw [totalOf_perm hsame, hsum]
  omega

theorem moveBalance_transfer {balances : List U128} {i j : Fin balances.length} {d : U128}
    (hij : i ≠ j) (hricher : balances[i] ≤ balances[j]) (hd : d ≤ balances[i])
    (hbound : totalOf balances < 2 ^ 128) :
    Transfer (d.toNat : ℚ) (amounts balances) (amounts (moveBalance balances i j d)) := by
  have hpair := pair_le_totalOf hij
  have hdle : d.toNat ≤ balances[i].toNat := BitVec.le_def.mp hd
  have hpaid : (((balances[i] - d).toNat : Nat) : ℚ) = balances[i].toNat - d.toNat := by
    rw [BitVec.toNat_sub_of_le hd, Nat.cast_sub hdle]
  have hreceived : (((balances[j] + d).toNat : Nat) : ℚ) = balances[j].toNat + d.toNat := by
    rw [BitVec.toNat_add, Nat.mod_eq_of_lt (by omega), Nat.cast_add]
  have hi : (i : Nat) < (amounts balances).length := (amounts_length balances).symm ▸ i.isLt
  have hj : (j : Nat) < (amounts balances).length := (amounts_length balances).symm ▸ j.isLt
  have hle : (amounts balances)[(i : Nat)] ≤ (amounts balances)[(j : Nat)] := by
    simp only [amounts, List.getElem_map]
    exact_mod_cast BitVec.le_def.mp hricher
  have hmove := transfer_set (d := (d.toNat : ℚ)) hi hj (Fin.val_ne_of_ne hij) hle
  have hlist : amounts (moveBalance balances i j d) =
      ((amounts balances).set i ((amounts balances)[(i : Nat)] - d.toNat)).set j
        ((amounts balances)[(j : Nat)] + d.toNat) := by
    simp only [amounts, moveBalance, List.map_set, List.getElem_map, hpaid, hreceived]
    rfl
  rw [hlist]
  exact hmove

theorem totalOf_moveBalance {balances : List U128} {i j : Fin balances.length} {d : U128}
    (h : Transfer (d.toNat : ℚ) (amounts balances) (amounts (moveBalance balances i j d))) :
    totalOf (moveBalance balances i j d) = totalOf balances := by
  have hsum := h.sum_eq
  rw [sum_amounts, sum_amounts] at hsum
  exact_mod_cast hsum

theorem transfer_concentrates (s : HolderSnapshot) (i j : Fin s.balances.length) (d : U128)
    (hij : i ≠ j) (hricher : s.balances[i] ≤ s.balances[j]) (hd : d ≤ s.balances[i])
    (hpositive : 0 < totalOf s.balances) (hbound : totalOf s.balances < 2 ^ 128) :
    ∃ top gini hhi top' gini' hhi', HasMetrics (Enrichment.fromSnapshot s) top gini hhi ∧
      HasMetrics
        (Enrichment.fromSnapshot { s with balances := moveBalance s.balances i j d })
        top' gini' hhi' ∧
      top ≤ top' ∧ gini ≤ gini' ∧ hhi ≤ hhi' ∧ (0 < d → gini < gini' ∧ hhi < hhi') := by
  have hmove := moveBalance_transfer hij hricher hd hbound
  have htotal := totalOf_moveBalance hmove
  have hlength : (moveBalance s.balances i j d).length = s.balances.length := by
    simp [moveBalance]
  have hmoved := fromSnapshot_exact { s with balances := moveBalance s.balances i j d }
    (htotal ▸ hbound)
  rw [hmove.sum_eq, hlength] at hmoved
  refine ⟨_, _, _, _, _, _, fromSnapshot_exact s hbound, hmoved, ?_⟩
  have hn : (0 : ℚ) < s.balances.length :=
    Nat.cast_pos.mpr (Nat.pos_of_ne_zero fun hzero => (hzero ▸ i).elim0)
  have hsum := sum_amounts_pos hpositive
  have hdnonneg : (0 : ℚ) ≤ d.toNat := Nat.cast_nonneg _
  have htop := hmove.largestSum_le hdnonneg (amounts_nonneg _) 10
  have hspread := hmove.spread_le hdnonneg
  have hsquares := hmove.sumSq_le hdnonneg
  have hsquare := mul_self_nonneg (d.toNat : ℚ)
  refine ⟨?_, ?_, ?_, fun hpos => ⟨?_, ?_⟩⟩
  · exact div_le_div_of_nonneg_right htop hsum.le
  · exact div_le_div_of_nonneg_right (by linarith) (by positivity)
  · exact div_le_div_of_nonneg_right (by linarith) (by positivity)
  · have hdpos : (0 : ℚ) < d.toNat := Nat.cast_pos.mpr (BitVec.lt_def.mp hpos)
    exact div_lt_div_of_pos_right (by linarith) (by positivity)
  · have hdpos : (0 : ℚ) < d.toNat := Nat.cast_pos.mpr (BitVec.lt_def.mp hpos)
    have hdsquare := mul_pos hdpos hdpos
    exact div_lt_div_of_pos_right (by linarith) (mul_pos hsum hsum)

theorem transfer_concentrates_one :
    ∃ top gini hhi top' gini' hhi',
      HasMetrics (Enrichment.fromSnapshot (holding [2, 3])) top gini hhi ∧
      HasMetrics (Enrichment.fromSnapshot (holding [1, 4])) top' gini' hhi' ∧
      top ≤ top' ∧ gini ≤ gini' ∧ hhi ≤ hhi' ∧ ((0 : U128) < 1 → gini < gini' ∧ hhi < hhi') :=
  transfer_concentrates (holding [2, 3]) (0 : Fin 2) (1 : Fin 2) 1
    (fun h => absurd (congrArg Fin.val h) (by decide)) (by decide) (by decide) (by decide)
    (by decide)

/-- The ten largest amounts are among the first `k`, as long as `k` is ten or
more. -/
theorem largestSum_take {ds xs : List ℚ} (hperm : ds.Perm xs) (hsorted : ds.Pairwise (· ≥ ·))
    {k : Nat} (hk : 10 ≤ k) : largestSum 10 (ds.take k) = largestSum 10 xs := by
  have hfront : (ds.take k).Pairwise (· ≥ ·) := hsorted.sublist (List.take_sublist _ _)
  rw [largestSum_of_descending 10 (List.Perm.refl _) hfront,
    largestSum_of_descending 10 hperm hsorted, List.take_take, Nat.min_eq_left hk]

/-- With at least ten holders kept, what the snapshot leaves out does not lower
the share of the top ten nor the index. -/
theorem truncation_overstates (s : HolderSnapshot) (k : Nat) (hk : 10 ≤ k)
    (hheld : ∀ x ∈ s.balances, 0 < x) (hbound : totalOf s.balances < 2 ^ 128) :
    ∃ top gini hhi top' gini' hhi', HasMetrics (Enrichment.fromSnapshot s) top gini hhi ∧
      HasMetrics
        (Enrichment.fromSnapshot { s with balances := (sortDescending s.balances).take k })
        top' gini' hhi' ∧
      top ≤ top' ∧ hhi ≤ hhi' := by
  have hperm := sortDescending_perm s.balances
  have hsorted := amounts_sortDescending s.balances
  have hnonneg := amounts_nonneg (sortDescending s.balances)
  have htake : amounts ((sortDescending s.balances).take k) =
      (amounts (sortDescending s.balances)).take k := List.map_take
  have hcut := fromSnapshot_exact { s with balances := (sortDescending s.balances).take k }
    (totalOf_top_lt k hbound)
  refine ⟨_, _, _, _, _, _, fromSnapshot_exact s hbound, hcut, ?_⟩
  have hlargest := largestSum_take (amounts_perm hperm) hsorted hk
  have hsquares := sumSq_take_ge _ hsorted hnonneg k
  have hdropped := List.sum_take_add_sum_drop (amounts (sortDescending s.balances)) k
  have hrest : 0 ≤ ((amounts (sortDescending s.balances)).drop k).sum :=
    List.sum_nonneg fun x hx => hnonneg x (List.mem_of_mem_drop hx)
  have hfront : largestSum 10 ((amounts (sortDescending s.balances)).take k) ≤
      ((amounts (sortDescending s.balances)).take k).sum :=
    largestSum_le_sum 10 _ fun x hx => hnonneg x (List.mem_of_mem_take hx)
  rw [(amounts_perm hperm).sum_eq] at hdropped hsquares
  rw [sumSq_perm (amounts_perm hperm)] at hsquares
  simp only [htake]
  rw [hlargest] at hfront ⊢
  cases hbalances : s.balances with
  | nil => simp [amounts, sortDescending]
  | cons x rest =>
      have hx : x ∈ s.balances := hbalances ▸ List.mem_cons_self ..
      have hxpos : (0 : ℚ) < x.toNat := Nat.cast_pos.mpr (BitVec.lt_def.mp (hheld x hx))
      have hle := le_largestSum 10 (by decide) _ (amounts_nonneg s.balances) _
        (List.mem_map_of_mem hx)
      rw [← hbalances]
      have hkept : 0 < ((amounts (sortDescending s.balances)).take k).sum := by linarith
      have htotal : 0 < (amounts s.balances).sum := by linarith
      constructor
      · exact div_le_div_of_nonneg_left (by linarith) hkept (by linarith)
      · rw [div_le_div_iff₀ (mul_pos htotal htotal) (mul_pos hkept hkept)]
        exact hsquares

/-- Twelve holders, of which two are cut off. -/
def twelveBalances : List U128 := [1, 2, 3, 4, 5, 6, 7, 8, 9, 10, 11, 12]

theorem truncation_overstates_twelve :
    (∃ top gini hhi top' gini' hhi',
      HasMetrics (Enrichment.fromSnapshot (holding twelveBalances)) top gini hhi ∧
      HasMetrics
        (Enrichment.fromSnapshot (holding ((sortDescending twelveBalances).take 10)))
        top' gini' hhi' ∧
      top ≤ top' ∧ hhi ≤ hhi') ∧
      (sortDescending twelveBalances).take 10 = [12, 11, 10, 9, 8, 7, 6, 5, 4, 3] :=
  ⟨truncation_overstates (holding twelveBalances) 10 (by decide)
    (by simp [holding, twelveBalances]) (by decide), by decide⟩

/-- The three metrics of the enrichments agree. -/
structure SameMetrics (e e' : Enrichment) : Prop where
  top10Share : e'.top10Share = e.top10Share
  gini : e'.gini = e.gini
  hhi : e'.hhi = e.hhi

/-- The balances in a unit of which the old one is worth `c`. -/
def scaleBalances (c : Nat) (balances : List U128) : List U128 :=
  balances.map fun x => BitVec.ofNat 128 (c * x.toNat)

theorem toNat_scaled {c : Nat} {balances : List U128} (hbound : c * totalOf balances < 2 ^ 128) :
    ∀ x ∈ balances, (BitVec.ofNat 128 (c * x.toNat)).toNat = c * x.toNat := by
  intro x hx
  have hle := Nat.mul_le_mul_left c (le_totalOf hx)
  rw [BitVec.toNat_ofNat, Nat.mod_eq_of_lt (by omega)]

theorem amounts_scale {c : Nat} {balances : List U128} (hbound : c * totalOf balances < 2 ^ 128) :
    amounts (scaleBalances c balances) = (amounts balances).map ((c : ℚ) * ·) := by
  rw [scaleBalances, amounts, amounts, List.map_map, List.map_map]
  apply List.map_congr_left
  intro x hx
  simp only [Function.comp_apply, toNat_scaled hbound x hx, Nat.cast_mul]

theorem totalOf_scale {c : Nat} {balances : List U128} (hbound : c * totalOf balances < 2 ^ 128) :
    totalOf (scaleBalances c balances) = c * totalOf balances := by
  have hsum := sum_amounts (scaleBalances c balances)
  rw [amounts_scale hbound, sum_scale, sum_amounts] at hsum
  exact_mod_cast hsum.symm

/-- The metrics do not depend on the order of the holders, for any balances. -/
theorem sameMetrics_perm (s : HolderSnapshot) {order : List U128} (h : order.Perm s.balances) :
    SameMetrics (Enrichment.fromSnapshot s)
      (Enrichment.fromSnapshot { s with balances := order }) := by
  have htotal := sumU128_perm h
  refine ⟨congrArg F64.finite ?_, congrArg F64.finite ?_, congrArg F64.finite ?_⟩
  · simp only [topNShare, htotal, sortDescending_congr h]
  · rw [htotal]
    exact gini_perm h _
  · simp only [hhi, htotal, foldl_squares, sumSq_perm (amounts_perm h)]

theorem metrics_ignore_decimals (s : HolderSnapshot) (c : Nat) (hc : 1 ≤ c)
    (hbound : c * totalOf s.balances < 2 ^ 128) :
    SameMetrics (Enrichment.fromSnapshot s)
        (Enrichment.fromSnapshot { s with balances := scaleBalances c s.balances }) ∧
      ∀ order : List U128, order.Perm s.balances →
        SameMetrics (Enrichment.fromSnapshot s)
          (Enrichment.fromSnapshot { s with balances := order }) := by
  refine ⟨?_, fun order h => sameMetrics_perm s h⟩
  have hbase : totalOf s.balances < 2 ^ 128 := by
    have hle := Nat.mul_le_mul_right (totalOf s.balances) hc
    omega
  have hscaled := fromSnapshot_exact { s with balances := scaleBalances c s.balances }
    (totalOf_scale hbound ▸ hbound)
  have hexact := fromSnapshot_exact s hbase
  have hcpos : (0 : ℚ) < c := Nat.cast_pos.mpr hc
  have hlength : (scaleBalances c s.balances).length = s.balances.length := List.length_map _
  simp only [amounts_scale hbound, hlength, largestSum_scale hcpos.le, spread_scale hcpos.le,
    sumSq_scale, sum_scale] at hscaled
  refine ⟨?_, ?_, ?_⟩
  · rw [hscaled.top10Share, hexact.top10Share, mul_div_mul_left _ _ hcpos.ne']
  · have hdenominator : (2 : ℚ) * (s.balances.length * (c * (amounts s.balances).sum)) =
        c * (2 * (s.balances.length * (amounts s.balances).sum)) := by
      ring
    rw [hscaled.gini, hexact.gini, hdenominator, mul_div_mul_left _ _ hcpos.ne']
  · rw [hscaled.hhi, hexact.hhi, mul_mul_mul_comm,
      mul_div_mul_left _ _ (mul_pos hcpos hcpos).ne']

theorem metrics_ignore_decimals_thousand :
    SameMetrics (Enrichment.fromSnapshot (holding [2, 3]))
        (Enrichment.fromSnapshot (holding (scaleBalances 1000 [2, 3]))) ∧
      ∀ order : List U128, order.Perm [2, 3] →
        SameMetrics (Enrichment.fromSnapshot (holding [2, 3]))
          (Enrichment.fromSnapshot (holding order)) :=
  metrics_ignore_decimals (holding [2, 3]) 1000 (by decide) (by decide)

end ShadeIndexer.Enrich
