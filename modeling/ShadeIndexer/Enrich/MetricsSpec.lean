import ShadeIndexer.Enrich.Metrics
import ShadeIndexer.Lib.Majorization

/-!
What the metrics compute, in exact arithmetic. As long as the balances add up
below `2 ^ 128` the wrapping sums are the sums, the share of the top holders is
that of the largest amounts, the index of squared shares is one quotient, and
the formula over the sorted balances is the mean difference of all pairs.
-/

namespace ShadeIndexer.Enrich

open ShadeIndexer.Core Lib Lib.Dispersion Lib.Majorization

/-- The balances as rational numbers. -/
def amounts (balances : List U128) : List ℚ := balances.map fun x => (x.toNat : ℚ)

/-- The exact sum of the balances. -/
def totalOf (balances : List U128) : Nat := (balances.map BitVec.toNat).sum

/-- The three metrics of an enrichment are these finite values. -/
structure HasMetrics (e : Enrichment) (top10Share gini hhi : ℚ) : Prop where
  top10Share : e.top10Share = .finite top10Share
  gini : e.gini = .finite gini
  hhi : e.hhi = .finite hhi

theorem amounts_nonneg (balances : List U128) : ∀ x ∈ amounts balances, 0 ≤ x := by
  intro x hx
  obtain ⟨y, _, rfl⟩ := List.mem_map.mp hx
  exact Nat.cast_nonneg _

theorem amounts_length (balances : List U128) : (amounts balances).length = balances.length :=
  List.length_map _

theorem amounts_perm {xs ys : List U128} (h : xs.Perm ys) : (amounts xs).Perm (amounts ys) :=
  h.map _

theorem sum_amounts (balances : List U128) : (amounts balances).sum = totalOf balances := by
  induction balances with
  | nil => simp [amounts, totalOf]
  | cons x xs ih =>
      have hsum : (amounts (x :: xs)).sum = x.toNat + (amounts xs).sum := List.sum_cons
      have htotal : totalOf (x :: xs) = x.toNat + totalOf xs := List.sum_cons
      rw [hsum, ih, htotal, Nat.cast_add]

theorem sumU128_eq_sum (xs : List U128) : sumU128 xs = xs.sum :=
  List.sum_eq_foldl.symm

theorem sumU128_perm {xs ys : List U128} (h : xs.Perm ys) : sumU128 xs = sumU128 ys := by
  rw [sumU128_eq_sum, sumU128_eq_sum, h.sum_eq]

theorem sumU128_toNat (xs : List U128) : (sumU128 xs).toNat = totalOf xs % 2 ^ 128 := by
  rw [sumU128_eq_sum]
  induction xs with
  | nil => simp [totalOf]
  | cons x xs ih =>
      have htotal : totalOf (x :: xs) = x.toNat + totalOf xs := List.sum_cons
      rw [List.sum_cons, BitVec.toNat_add, ih, htotal, Nat.add_mod_mod]

theorem sumU128_exact {xs : List U128} (h : totalOf xs < 2 ^ 128) :
    (sumU128 xs).toNat = totalOf xs := by
  rw [sumU128_toNat, Nat.mod_eq_of_lt h]

theorem sumU128_eq_zero_iff {xs : List U128} (h : totalOf xs < 2 ^ 128) :
    sumU128 xs = 0 ↔ totalOf xs = 0 := by
  rw [← BitVec.toNat_inj, sumU128_exact h]
  rfl

theorem totalOf_take_le (xs : List U128) (k : Nat) : totalOf (xs.take k) ≤ totalOf xs := by
  have hsplit := List.sum_take_add_sum_drop (xs.map BitVec.toNat) k
  rw [totalOf, totalOf, List.map_take]
  omega

theorem ne_nil_of_totalOf_pos {xs : List U128} (h : 0 < totalOf xs) : xs ≠ [] := by
  rintro rfl
  exact absurd h (by decide)

theorem sum_amounts_pos {xs : List U128} (h : 0 < totalOf xs) : 0 < (amounts xs).sum := by
  rw [sum_amounts]
  exact Nat.cast_pos.mpr h

theorem totalOf_perm {xs ys : List U128} (h : xs.Perm ys) : totalOf xs = totalOf ys :=
  (h.map _).sum_eq

theorem sortDescending_perm (xs : List U128) : (sortDescending xs).Perm xs :=
  List.perm_insertionSort _ xs

theorem sortAscending_perm (xs : List U128) : (sortAscending xs).Perm xs :=
  List.perm_insertionSort _ xs

theorem sortDescending_congr {xs ys : List U128} (h : xs.Perm ys) :
    sortDescending xs = sortDescending ys := by
  have hperm := (sortDescending_perm xs).trans (h.trans (sortDescending_perm ys).symm)
  exact hperm.eq_of_pairwise' (List.pairwise_insertionSort _ xs) (List.pairwise_insertionSort _ ys)

theorem sortAscending_congr {xs ys : List U128} (h : xs.Perm ys) :
    sortAscending xs = sortAscending ys := by
  have hperm := (sortAscending_perm xs).trans (h.trans (sortAscending_perm ys).symm)
  exact hperm.eq_of_pairwise' (List.pairwise_insertionSort _ xs) (List.pairwise_insertionSort _ ys)

theorem amounts_sortDescending (xs : List U128) :
    (amounts (sortDescending xs)).Pairwise (· ≥ ·) := by
  have hsorted := List.pairwise_insertionSort (fun a b : U128 => b ≤ a) xs
  refine hsorted.map _ fun a b h => ?_
  exact_mod_cast BitVec.le_def.mp h

theorem amounts_sortAscending (xs : List U128) :
    (amounts (sortAscending xs)).Pairwise (· ≤ ·) := by
  have hsorted := List.pairwise_insertionSort (fun a b : U128 => a ≤ b) xs
  refine hsorted.map _ fun a b h => ?_
  exact_mod_cast BitVec.le_def.mp h

/-- The largest balances add up without wrapping if all of them do. -/
theorem totalOf_top_lt {balances : List U128} (n : Nat) (h : totalOf balances < 2 ^ 128) :
    totalOf ((sortDescending balances).take n) < 2 ^ 128 := by
  have hle := totalOf_take_le (sortDescending balances) n
  rw [totalOf_perm (sortDescending_perm balances)] at hle
  omega

theorem topNShare_eq {balances : List U128} (n : Nat) (h : totalOf balances < 2 ^ 128) :
    topNShare balances n (sumU128 balances) =
      largestSum n (amounts balances) / (amounts balances).sum := by
  have hperm := sortDescending_perm balances
  have hlargest := largestSum_of_descending n (amounts_perm hperm)
    (amounts_sortDescending balances)
  have htake : (amounts (sortDescending balances)).take n =
      amounts ((sortDescending balances).take n) := List.map_take.symm
  rw [topNShare, hlargest, htake, sum_amounts, sum_amounts]
  split
  next hzero => rw [(sumU128_eq_zero_iff h).mp hzero, Nat.cast_zero, div_zero]
  next => rw [sumU128_exact (totalOf_top_lt n h), sumU128_exact h]

theorem foldl_squares (balances : List U128) (denom acc : ℚ) :
    balances.foldl (fun acc x => acc + (x.toNat / denom) * (x.toNat / denom)) acc =
      acc + sumSq (amounts balances) / (denom * denom) := by
  induction balances generalizing acc with
  | nil => simp [amounts]
  | cons x xs ih =>
      have hamounts : amounts (x :: xs) = (x.toNat : ℚ) :: amounts xs := rfl
      rw [List.foldl_cons, ih, hamounts, sumSq_cons, add_div, div_mul_div_comm, add_assoc]

theorem hhi_eq {balances : List U128} (h : totalOf balances < 2 ^ 128) :
    hhi balances (sumU128 balances) =
      sumSq (amounts balances) / ((amounts balances).sum * (amounts balances).sum) := by
  rw [hhi, sum_amounts]
  split
  next hzero => rw [(sumU128_eq_zero_iff h).mp hzero, Nat.cast_zero, mul_zero, div_zero]
  next => rw [foldl_squares, zero_add, sumU128_exact h]

/-- The value that `gini` clamps. -/
def giniUnclamped (balances : List U128) (total : U128) : ℚ :=
  let sorted := sortAscending balances
  let n : ℚ := sorted.length
  let weighted : ℚ := sorted.zipIdx.foldl (fun acc x => acc + (x.2 + 1) * x.1.toNat) 0
  let sum : ℚ := total.toNat
  (2 * weighted - (n + 1) * sum) / (n * sum)

theorem gini_of_pos {balances : List U128} {total : U128} (hne : balances ≠ [])
    (htotal : total ≠ 0) : gini balances total = clampUnit (giniUnclamped balances total) := by
  have hguard : ¬ (balances.isEmpty ∨ total = 0) := by
    rintro (hempty | hzero)
    · exact hne (List.isEmpty_iff.mp hempty)
    · exact htotal hzero
  rw [gini, if_neg hguard]
  rfl

theorem foldl_weighted (sorted : List U128) (n : Nat) (acc : ℚ) :
    (sorted.zipIdx n).foldl (fun acc x => acc + ((x.2 : ℚ) + 1) * x.1.toNat) acc =
      acc + (((amounts sorted).zipIdx n).map fun x => ((x.2 : ℚ) + 1) * x.1).sum := by
  induction sorted generalizing n acc with
  | nil => simp [amounts]
  | cons x xs ih =>
      have hamounts : amounts (x :: xs) = (x.toNat : ℚ) :: amounts xs := rfl
      rw [List.zipIdx_cons, List.foldl_cons, ih, hamounts, List.zipIdx_cons, List.map_cons,
        List.sum_cons, add_assoc]

/-- The sorted one-pass formula is the mean difference over twice the mean. -/
theorem giniUnclamped_eq {balances : List U128} {total : U128}
    (htotal : total.toNat = totalOf balances) :
    giniUnclamped balances total =
      spread (amounts balances) / (2 * (balances.length * total.toNat)) := by
  have hperm := sortAscending_perm balances
  have hspread := spread_of_ascending _ (amounts_sortAscending balances)
  rw [spread_perm (amounts_perm hperm), amounts_length, sum_amounts, totalOf_perm hperm,
    hperm.length_eq, ← htotal] at hspread
  have hweighted := foldl_weighted (sortAscending balances) 0 0
  rw [zero_add] at hweighted
  rw [hspread, mul_div_mul_left _ _ two_ne_zero, giniUnclamped, hweighted, hperm.length_eq]
  rfl

theorem clampUnit_of_mem {g : ℚ} (hlow : 0 ≤ g) (hhigh : g ≤ 1) : clampUnit g = g := by
  rw [clampUnit, if_neg (not_lt.mpr hlow), if_neg (not_lt.mpr hhigh)]

theorem giniUnclamped_nonneg {balances : List U128} {total : U128}
    (htotal : total.toNat = totalOf balances) : 0 ≤ giniUnclamped balances total := by
  rw [giniUnclamped_eq htotal]
  exact div_nonneg (spread_nonneg _) (by positivity)

/-- The value is furthest from zero when one of `n` holders has everything. -/
theorem giniUnclamped_le {balances : List U128} {total : U128} (hne : balances ≠ [])
    (htotal : total.toNat = totalOf balances) (hpositive : 0 < totalOf balances) :
    giniUnclamped balances total ≤ (balances.length - 1) / balances.length := by
  have hspread := spread_le _ (amounts_nonneg balances)
  have hlength : (0 : ℚ) < balances.length := Nat.cast_pos.mpr (List.length_pos_iff.mpr hne)
  have hsum : (0 : ℚ) < total.toNat := by
    rw [htotal]
    exact Nat.cast_pos.mpr hpositive
  rw [amounts_length, sum_amounts, ← htotal] at hspread
  rw [giniUnclamped_eq htotal, div_le_div_iff₀ (by positivity) hlength]
  calc
    spread (amounts balances) * balances.length
        ≤ 2 * (balances.length - 1) * total.toNat * balances.length := by gcongr
    _ = (balances.length - 1) * (2 * (balances.length * total.toNat)) := by ring

theorem gini_eq_unclamped {balances : List U128} {total : U128} (hne : balances ≠ [])
    (htotal : total.toNat = totalOf balances) (hpositive : 0 < totalOf balances) :
    gini balances total = giniUnclamped balances total := by
  have hlength : (0 : ℚ) < balances.length := Nat.cast_pos.mpr (List.length_pos_iff.mpr hne)
  have hbelow : ((balances.length : ℚ) - 1) / balances.length ≤ 1 := by
    rw [div_le_one hlength]
    linarith
  have htotalNe : total ≠ 0 := by
    rintro rfl
    rw [← htotal] at hpositive
    exact absurd hpositive (by decide)
  rw [gini_of_pos hne htotalNe]
  exact clampUnit_of_mem (giniUnclamped_nonneg htotal)
    ((giniUnclamped_le hne htotal hpositive).trans hbelow)

/-- The Gini coefficient, for every list whose sum does not wrap. -/
theorem gini_eq {balances : List U128} (h : totalOf balances < 2 ^ 128) :
    gini balances (sumU128 balances) =
      spread (amounts balances) / (2 * (balances.length * (amounts balances).sum)) := by
  have htotal := sumU128_exact h
  rw [sum_amounts, ← htotal]
  rcases Nat.eq_zero_or_pos (totalOf balances) with hzero | hpositive
  · have hguard : balances.isEmpty ∨ sumU128 balances = 0 :=
      Or.inr ((sumU128_eq_zero_iff h).mpr hzero)
    rw [gini, if_pos hguard, htotal, hzero, Nat.cast_zero, mul_zero, mul_zero, div_zero]
  · have hne := ne_nil_of_totalOf_pos hpositive
    rw [gini_eq_unclamped hne htotal hpositive, giniUnclamped_eq htotal]

theorem gini_perm {xs ys : List U128} (h : xs.Perm ys) (total : U128) :
    gini xs total = gini ys total := by
  have hempty : xs.isEmpty = ys.isEmpty := by
    rw [Bool.eq_iff_iff, List.isEmpty_iff_length_eq_zero, List.isEmpty_iff_length_eq_zero,
      h.length_eq]
  rw [gini, gini, hempty, sortAscending_congr h]

/-- What `gini` computes over balances that add up to `total`. -/
structure GiniExact (balances : List U128) (total : U128) : Prop where
  coefficient : gini balances total =
    spread (amounts balances) / (2 * (balances.length * total.toNat))
  nonneg : 0 ≤ giniUnclamped balances total
  le : giniUnclamped balances total ≤ (balances.length - 1) / balances.length
  unclamped : gini balances total = giniUnclamped balances total
  zero_iff : gini balances total = 0 ↔ ∀ x ∈ balances, ∀ y ∈ balances, x = y
  order : ∀ order : List U128, order.Perm balances → gini order total = gini balances total

theorem gini_exact (balances : List U128) (total : U128) (hne : balances ≠ [])
    (htotal : total.toNat = totalOf balances) (hpositive : 0 < totalOf balances) :
    GiniExact balances total := by
  have hunclamped := gini_eq_unclamped hne htotal hpositive
  have hcoefficient := hunclamped.trans (giniUnclamped_eq htotal)
  refine ⟨hcoefficient, giniUnclamped_nonneg htotal, giniUnclamped_le hne htotal hpositive,
    hunclamped, ?_, fun order h => gini_perm h total⟩
  have hlength : (balances.length : ℚ) ≠ 0 :=
    Nat.cast_ne_zero.mpr (List.length_pos_iff.mpr hne).ne'
  have hsum : (total.toNat : ℚ) ≠ 0 := by
    rw [htotal]
    exact Nat.cast_ne_zero.mpr hpositive.ne'
  have hdenominator : (2 : ℚ) * (balances.length * total.toNat) ≠ 0 :=
    mul_ne_zero two_ne_zero (mul_ne_zero hlength hsum)
  rw [hcoefficient, div_eq_zero_iff, or_iff_left hdenominator, spread_eq_zero_iff]
  simp only [amounts, List.forall_mem_map, Nat.cast_inj, BitVec.toNat_inj]

theorem gini_exact_pair : GiniExact [1, 3] 4 :=
  gini_exact [1, 3] 4 (by decide) (by decide) (by decide)

end ShadeIndexer.Enrich
