import Mathlib.Data.List.Sort
import ShadeIndexer.Lib.Dispersion

/-!
The largest amounts of a list, and what happens to inequality when an amount
moves from a poorer to a richer place. The sum of the `k` largest amounts is
the least value of `k·t + Σ max (x − t) 0` over all `t`, which forgets the order
of the list, and a convex function only grows when amounts move apart.
-/

namespace ShadeIndexer.Lib.Majorization

open Lib.Dispersion

theorem exists_descending {α : Type} [LinearOrder α] (xs : List α) :
    ∃ ds : List α, ds.Perm xs ∧ ds.Pairwise (· ≥ ·) :=
  ⟨_, List.perm_insertionSort (· ≥ ·) xs, List.pairwise_insertionSort _ xs⟩

/-- Two positions of a list, apart from the others. -/
theorem exists_rest_of_ne {α : Type} {xs : List α} {i j : Nat} (hi : i < xs.length)
    (hj : j < xs.length) (hij : i ≠ j) :
    ∃ rest : List α, ∀ u v, ((xs.set i u).set j v).Perm (u :: v :: rest) := by
  have hother (u v : α) : ((xs.set i u).set j v).Perm (v :: (xs.set i u).eraseIdx j) :=
    List.set_perm_cons_eraseIdx (by simpa using hj) v
  rcases Nat.lt_or_gt_of_ne hij with hlt | hgt
  · refine ⟨(xs.eraseIdx j).eraseIdx i, fun u v => (hother u v).trans ?_⟩
    rw [List.eraseIdx_set_gt hlt]
    have hbound : i < (xs.eraseIdx j).length := by
      rw [List.length_eraseIdx_of_lt hj]
      omega
    exact ((List.set_perm_cons_eraseIdx hbound u).cons v).trans (List.Perm.swap u v _)
  · refine ⟨(xs.eraseIdx j).eraseIdx (i - 1), fun u v => (hother u v).trans ?_⟩
    rw [List.eraseIdx_set_lt hgt]
    have hbound : i - 1 < (xs.eraseIdx j).length := by
      rw [List.length_eraseIdx_of_lt hj]
      omega
    exact ((List.set_perm_cons_eraseIdx hbound u).cons v).trans (List.Perm.swap u v _)

variable {K : Type} [Field K] [LinearOrder K]

/-- The sum of the `k` largest amounts. -/
def largestSum (k : Nat) (xs : List K) : K := ((xs.insertionSort (· ≥ ·)).take k).sum

/-- What the amounts exceed `t` by. -/
def excess (t : K) (xs : List K) : K := (xs.map fun x => max (x - t) 0).sum

@[simp] theorem excess_nil (t : K) : excess t [] = 0 := rfl

@[simp] theorem excess_cons (t x : K) (xs : List K) :
    excess t (x :: xs) = max (x - t) 0 + excess t xs := by
  simp [excess]

theorem excess_append (t : K) (xs ys : List K) :
    excess t (xs ++ ys) = excess t xs + excess t ys := by
  simp [excess]

theorem excess_perm {xs ys : List K} (h : xs.Perm ys) (t : K) : excess t xs = excess t ys :=
  (h.map _).sum_eq

/-- Any descending arrangement has the largest amounts in front. -/
theorem largestSum_of_descending {xs ds : List K} (k : Nat) (hperm : ds.Perm xs)
    (h : ds.Pairwise (· ≥ ·)) : largestSum k xs = (ds.take k).sum := by
  have hsorted := List.pairwise_insertionSort (· ≥ ·) xs
  have hsame : (xs.insertionSort (· ≥ ·)).Perm ds :=
    (List.perm_insertionSort _ xs).trans hperm.symm
  rw [largestSum, hsame.eq_of_pairwise' hsorted h]

variable [IsStrictOrderedRing K]

theorem largestSum_scale {c : K} (hc : 0 ≤ c) (k : Nat) (xs : List K) :
    largestSum k (xs.map (c * ·)) = c * largestSum k xs := by
  obtain ⟨ds, hperm, hsorted⟩ := exists_descending xs
  have hscaled : (ds.map (c * ·)).Pairwise (· ≥ ·) :=
    hsorted.map _ fun _ _ h => mul_le_mul_of_nonneg_left h hc
  rw [largestSum_of_descending k (hperm.map _) hscaled, largestSum_of_descending k hperm hsorted,
    ← List.map_take, sum_scale]

/-- A value that no amount in front is below and no amount behind is above, and
that is zero unless there are `k` amounts in front. -/
structure Cut (k : Nat) (front behind : List K) (t : K) : Prop where
  nonneg : 0 ≤ t
  above : ∀ x ∈ front, t ≤ x
  below : ∀ x ∈ behind, x ≤ t
  full : (front.length : K) * t = k * t

theorem exists_cut {ds : List K} (k : Nat) (hsorted : ds.Pairwise (· ≥ ·))
    (hnonneg : ∀ x ∈ ds, 0 ≤ x) : ∃ t, Cut k (ds.take k) (ds.drop k) t := by
  rw [← List.take_append_drop k ds, List.pairwise_append] at hsorted
  obtain ⟨_, hdrop, hcross⟩ := hsorted
  cases hbehind : ds.drop k with
  | nil =>
      refine ⟨0, le_refl 0, fun x hx => hnonneg x (List.mem_of_mem_take hx), ?_, by simp⟩
      intro x hx
      cases hx
  | cons t rest =>
      have ht : t ∈ ds.drop k := by
        rw [hbehind]
        exact List.mem_cons_self ..
      have hlength : (ds.take k).length = k := by
        have hpositive : 0 < (ds.drop k).length := List.length_pos_of_mem ht
        rw [List.length_drop] at hpositive
        rw [List.length_take]
        omega
      rw [hbehind] at hdrop
      refine ⟨t, hnonneg t (List.mem_of_mem_drop ht), fun x hx => hcross x hx t ht, ?_, ?_⟩
      · intro x hx
        rcases List.mem_cons.mp hx with rfl | hrest
        · exact le_refl x
        · exact List.rel_of_pairwise_cons hdrop hrest
      · rw [hlength]

theorem excess_of_ge (t : K) (xs : List K) (h : ∀ x ∈ xs, t ≤ x) :
    excess t xs = xs.sum - xs.length * t := by
  induction xs with
  | nil => simp
  | cons x xs ih =>
      obtain ⟨hx, hxs⟩ := List.forall_mem_cons.mp h
      rw [excess_cons, ih hxs, max_eq_left (sub_nonneg.mpr hx), List.sum_cons, List.length_cons,
        Nat.cast_succ]
      ring

theorem excess_of_le (t : K) (xs : List K) (h : ∀ x ∈ xs, x ≤ t) : excess t xs = 0 := by
  induction xs with
  | nil => rfl
  | cons x xs ih =>
      obtain ⟨hx, hxs⟩ := List.forall_mem_cons.mp h
      rw [excess_cons, ih hxs, max_eq_right (sub_nonpos.mpr hx), add_zero]

/-- No `k` amounts add up to more than `k·t` and the excess over `t`. -/
theorem take_sum_le (t : K) (ht : 0 ≤ t) (k : Nat) (xs : List K) :
    (xs.take k).sum ≤ k * t + excess t xs := by
  induction xs generalizing k with
  | nil => simpa using mul_nonneg (Nat.cast_nonneg k) ht
  | cons x xs ih =>
      cases k with
      | zero =>
          have hrest := ih 0
          have hx := le_max_right (x - t) 0
          rw [List.take_zero, excess_cons] at *
          linarith
      | succ k =>
          have hrest := ih k
          have hx := le_max_left (x - t) 0
          rw [List.take_succ_cons, List.sum_cons, excess_cons, Nat.cast_succ]
          linarith

theorem largestSum_le (t : K) (ht : 0 ≤ t) (k : Nat) (xs : List K) :
    largestSum k xs ≤ k * t + excess t xs := by
  rw [← excess_perm (List.perm_insertionSort (· ≥ ·) xs)]
  exact take_sum_le t ht k _

theorem exists_largestSum_eq (k : Nat) (xs : List K) (hnonneg : ∀ x ∈ xs, 0 ≤ x) :
    ∃ t, 0 ≤ t ∧ largestSum k xs = k * t + excess t xs := by
  obtain ⟨ds, hperm, hsorted⟩ := exists_descending xs
  have hds : ∀ x ∈ ds, 0 ≤ x := fun x hx => hnonneg x (hperm.mem_iff.mp hx)
  obtain ⟨t, hcut⟩ := exists_cut k hsorted hds
  have hsplit : excess t ds = excess t (ds.take k) + excess t (ds.drop k) := by
    rw [← excess_append, List.take_append_drop]
  refine ⟨t, hcut.nonneg, ?_⟩
  rw [largestSum_of_descending k hperm hsorted, ← excess_perm hperm, hsplit,
    excess_of_ge t _ hcut.above, excess_of_le t _ hcut.below, hcut.full]
  ring

/-- More excess over every value means more in the largest amounts. -/
theorem largestSum_mono {xs ys : List K} (hnonneg : ∀ y ∈ ys, 0 ≤ y)
    (h : ∀ t, excess t xs ≤ excess t ys) (k : Nat) : largestSum k xs ≤ largestSum k ys := by
  obtain ⟨t, ht, hlargest⟩ := exists_largestSum_eq k ys hnonneg
  calc
    largestSum k xs ≤ k * t + excess t xs := largestSum_le t ht k xs
    _ ≤ k * t + excess t ys := by linarith [h t]
    _ = largestSum k ys := hlargest.symm

theorem largestSum_nonneg (k : Nat) (xs : List K) (hnonneg : ∀ x ∈ xs, 0 ≤ x) :
    0 ≤ largestSum k xs := by
  apply List.sum_nonneg
  intro x hx
  exact hnonneg x ((List.perm_insertionSort _ xs).mem_iff.mp (List.mem_of_mem_take hx))

theorem largestSum_le_sum (k : Nat) (xs : List K) (hnonneg : ∀ x ∈ xs, 0 ≤ x) :
    largestSum k xs ≤ xs.sum := by
  obtain ⟨ds, hperm, hsorted⟩ := exists_descending xs
  have hrest : 0 ≤ (ds.drop k).sum := by
    apply List.sum_nonneg
    intro x hx
    exact hnonneg x (hperm.mem_iff.mp (List.mem_of_mem_drop hx))
  have hsplit := List.sum_take_add_sum_drop ds k
  rw [largestSum_of_descending k hperm hsorted, ← hperm.sum_eq]
  linarith

omit [IsStrictOrderedRing K] in
/-- If an amount behind the first `k` is not zero, then all of these are there
and none of them is zero. -/
theorem filter_take_length {ds : List K} (k : Nat) (hsorted : ds.Pairwise (· ≥ ·))
    (hnonneg : ∀ x ∈ ds, 0 ≤ x) (h : ¬ ∀ x ∈ ds.drop k, x = 0) :
    ((ds.take k).filter fun x => x ≠ 0).length = k := by
  push Not at h
  obtain ⟨y, hy, hne⟩ := h
  rw [← List.take_append_drop k ds, List.pairwise_append] at hsorted
  have hpositive : 0 < y := lt_of_le_of_ne (hnonneg y (List.mem_of_mem_drop hy)) hne.symm
  have hall : (ds.take k).filter (fun x => x ≠ 0) = ds.take k := by
    rw [List.filter_eq_self]
    intro x hx
    have hge : y ≤ x := hsorted.2.2 x hx y hy
    exact decide_eq_true (hpositive.trans_le hge).ne'
  have hlength := List.length_pos_of_mem hy
  rw [List.length_drop] at hlength
  rw [hall, List.length_take]
  omega

/-- The largest amounts are all there is if and only if no more than `k`
amounts are not zero. -/
theorem largestSum_eq_sum_iff (k : Nat) (xs : List K) (hnonneg : ∀ x ∈ xs, 0 ≤ x) :
    largestSum k xs = xs.sum ↔ (xs.filter fun x => x ≠ 0).length ≤ k := by
  obtain ⟨ds, hperm, hsorted⟩ := exists_descending xs
  have hds : ∀ x ∈ ds, 0 ≤ x := fun x hx => hnonneg x (hperm.mem_iff.mp hx)
  have hsplit := List.sum_take_add_sum_drop ds k
  have hcount : (xs.filter fun x => x ≠ 0).length =
      ((ds.take k).filter fun x => x ≠ 0).length + ((ds.drop k).filter fun x => x ≠ 0).length := by
    rw [← (hperm.filter _).length_eq, ← List.length_append, ← List.filter_append,
      List.take_append_drop]
  have hzero : (ds.drop k).sum = 0 ↔ ∀ x ∈ ds.drop k, x = 0 := by
    constructor
    · intro hsum x hx
      exact List.all_zero_of_le_zero_le_of_sum_eq_zero
        (fun y hy => hds y (List.mem_of_mem_drop hy)) hsum hx
    · exact List.sum_eq_zero
  have hnone : ((ds.drop k).filter fun x => x ≠ 0).length = 0 ↔ ∀ x ∈ ds.drop k, x = 0 := by
    simp [List.filter_eq_nil_iff]
  rw [largestSum_of_descending k hperm hsorted, ← hperm.sum_eq, hcount]
  constructor
  · intro heq
    have hrest : (ds.drop k).sum = 0 := by linarith
    have hfront := (List.length_filter_le (fun x => x ≠ 0) (ds.take k)).trans
      (List.length_take_le k ds)
    rw [hnone.mpr (hzero.mp hrest), Nat.add_zero]
    exact hfront
  · intro hle
    have hrest : ∀ x ∈ ds.drop k, x = 0 := by
      by_contra hsome
      have hfront := filter_take_length k hsorted hds hsome
      have hbehind := mt hnone.mp hsome
      omega
    rw [hzero.mpr hrest] at hsplit
    linarith

/-- The largest amounts are not below the average. -/
theorem min_mul_sum_le (k : Nat) (xs : List K) (hnonneg : ∀ x ∈ xs, 0 ≤ x) :
    (min k xs.length : Nat) * xs.sum ≤ xs.length * largestSum k xs := by
  obtain ⟨ds, hperm, hsorted⟩ := exists_descending xs
  have hds : ∀ x ∈ ds, 0 ≤ x := fun x hx => hnonneg x (hperm.mem_iff.mp hx)
  obtain ⟨t, hcut⟩ := exists_cut k hsorted hds
  have hsplit := List.sum_take_add_sum_drop ds k
  have hfront : (ds.take k).length * t ≤ (ds.take k).sum := by
    simpa using List.card_nsmul_le_sum _ t hcut.above
  have hbehind : (ds.drop k).sum ≤ (ds.drop k).length * t := by
    simpa using List.sum_le_card_nsmul _ t hcut.below
  have hlength : ((ds.take k).length : K) + (ds.drop k).length = ds.length := by
    rw [← Nat.cast_add, ← List.length_append, List.take_append_drop]
  have hcross : ((ds.take k).length : K) * (ds.drop k).sum ≤
      (ds.drop k).length * (ds.take k).sum := by
    calc
      ((ds.take k).length : K) * (ds.drop k).sum
          ≤ (ds.take k).length * ((ds.drop k).length * t) := by gcongr
      _ = (ds.drop k).length * ((ds.take k).length * t) := by ring
      _ ≤ (ds.drop k).length * (ds.take k).sum := by gcongr
  rw [largestSum_of_descending k hperm hsorted, ← hperm.sum_eq, ← hperm.length_eq, ← hlength,
    ← List.length_take, ← hsplit]
  linarith

/-- One amount is at most the sum of the largest ones. -/
theorem le_largestSum (k : Nat) (hk : k ≠ 0) (xs : List K) (hnonneg : ∀ x ∈ xs, 0 ≤ x) :
    ∀ x ∈ xs, x ≤ largestSum k xs := by
  intro x hx
  obtain ⟨ds, hperm, hsorted⟩ := exists_descending xs
  obtain ⟨j, rfl⟩ := Nat.exists_eq_succ_of_ne_zero hk
  rw [largestSum_of_descending _ hperm hsorted]
  have hmem := hperm.mem_iff.mpr hx
  cases hlist : ds with
  | nil =>
      rw [hlist] at hmem
      cases hmem
  | cons first rest =>
      rw [hlist] at hmem hsorted
      have hfirst : x ≤ first := by
        rcases List.mem_cons.mp hmem with rfl | hrest
        · exact le_refl x
        · exact List.rel_of_pairwise_cons hsorted hrest
      have hothers : 0 ≤ (rest.take j).sum := by
        apply List.sum_nonneg
        intro y hy
        have hy' : y ∈ ds := hlist ▸ List.mem_cons_of_mem _ (List.mem_of_mem_take hy)
        exact hnonneg y (hperm.mem_iff.mp hy')
      rw [List.take_succ_cons, List.sum_cons]
      linarith

/-- The squares of the largest amounts make up for their sum. -/
theorem largestSum_sq_le (k : Nat) (xs : List K) :
    largestSum k xs * largestSum k xs ≤ k * sumSq xs := by
  obtain ⟨ds, hperm, hsorted⟩ := exists_descending xs
  have hcauchy := sum_sq_le (ds.take k)
  have hlength : ((ds.take k).length : K) ≤ k := by
    rw [List.length_take]
    exact_mod_cast min_le_left k ds.length
  have hsquares : sumSq (ds.take k) ≤ sumSq ds := by
    have hsplit := sumSq_append (ds.take k) (ds.drop k)
    have hbehind := sumSq_nonneg (ds.drop k)
    rw [List.take_append_drop] at hsplit
    linarith
  rw [largestSum_of_descending k hperm hsorted, ← sumSq_perm hperm]
  calc
    (ds.take k).sum * (ds.take k).sum ≤ (ds.take k).length * sumSq (ds.take k) := hcauchy
    _ ≤ k * sumSq (ds.take k) := mul_le_mul_of_nonneg_right hlength (sumSq_nonneg _)
    _ ≤ k * sumSq ds := mul_le_mul_of_nonneg_left hsquares (Nat.cast_nonneg k)

omit [IsStrictOrderedRing K] in
theorem excess_toList {α : Type} (f : α → K) (s : Finset α) (t : K) :
    excess t (s.toList.map f) = ∑ a ∈ s, max (f a - t) 0 := by
  rw [excess, List.map_map, ← Finset.sum_map_toList]
  rfl

/-- No `k` members of the set have values that add up to more than the largest
ones do. -/
theorem sum_le_largestSum {α : Type} (f : α → K) {s subset : Finset α} (k : Nat)
    (hsubset : subset ⊆ s) (hcard : subset.card ≤ k) (hnonneg : ∀ a ∈ s, 0 ≤ f a) :
    ∑ a ∈ subset, f a ≤ largestSum k (s.toList.map f) := by
  have hvalues : ∀ x ∈ s.toList.map f, 0 ≤ x := by
    intro x hx
    obtain ⟨a, ha, rfl⟩ := List.mem_map.mp hx
    exact hnonneg a (Finset.mem_toList.mp ha)
  obtain ⟨t, ht, hlargest⟩ := exists_largestSum_eq k _ hvalues
  have hcount : (subset.card : K) ≤ k := Nat.cast_le.mpr hcard
  calc
    ∑ a ∈ subset, f a ≤ ∑ a ∈ subset, (t + max (f a - t) 0) := by
          apply Finset.sum_le_sum
          intro a _
          linarith [le_max_left (f a - t) 0]
    _ = subset.card * t + ∑ a ∈ subset, max (f a - t) 0 := by
          rw [Finset.sum_add_distrib, Finset.sum_const, nsmul_eq_mul]
    _ ≤ k * t + ∑ a ∈ s, max (f a - t) 0 := by
          apply add_le_add (mul_le_mul_of_nonneg_right hcount ht)
          exact Finset.sum_le_sum_of_subset_of_nonneg hsubset fun a _ _ => le_max_right _ _
    _ = largestSum k (s.toList.map f) := by rw [hlargest, excess_toList]

omit [IsStrictOrderedRing K] in
/-- Some `k` or fewer members have the values that are the largest. -/
theorem exists_sum_eq_largestSum {α : Type} [DecidableEq α] (f : α → K) (s : Finset α) (k : Nat) :
    ∃ subset ⊆ s, subset.card ≤ k ∧ ∑ a ∈ subset, f a = largestSum k (s.toList.map f) := by
  have htotal : Std.Total fun a b : α => f b ≤ f a := ⟨fun a b => le_total (f b) (f a)⟩
  have htrans : IsTrans α fun a b => f b ≤ f a := ⟨fun _ _ _ hab hbc => hbc.trans hab⟩
  have hperm := List.perm_insertionSort (fun a b => f b ≤ f a) s.toList
  have hsorted := List.pairwise_insertionSort (fun a b => f b ≤ f a) s.toList
  generalize s.toList.insertionSort (fun a b => f b ≤ f a) = ds at hperm hsorted
  have hnodup : (ds.take k).Nodup :=
    (hperm.nodup_iff.mpr s.nodup_toList).sublist (List.take_sublist k ds)
  refine ⟨(ds.take k).toFinset, ?_, ?_, ?_⟩
  · intro a ha
    have hmem := List.mem_of_mem_take (List.mem_toFinset.mp ha)
    exact Finset.mem_toList.mp (hperm.mem_iff.mp hmem)
  · exact (List.toFinset_card_le _).trans (List.length_take_le k ds)
  · rw [List.sum_toFinset f hnodup, List.map_take]
    exact (largestSum_of_descending k (hperm.map f) (hsorted.map f fun _ _ h => h)).symm

/-- The second list is the first after `d` has moved from one amount to another
that is not smaller. -/
def Transfer (d : K) (xs ys : List K) : Prop :=
  ∃ a b rest, a ≤ b ∧ xs.Perm (a :: b :: rest) ∧ ys.Perm ((a - d) :: (b + d) :: rest)

section Transfer

variable {d : K} {xs ys : List K}

omit [IsStrictOrderedRing K] in
theorem transfer_set {i j : Nat} (hi : i < xs.length) (hj : j < xs.length) (hij : i ≠ j)
    (hle : xs[i] ≤ xs[j]) : Transfer d xs ((xs.set i (xs[i] - d)).set j (xs[j] + d)) := by
  obtain ⟨rest, hrest⟩ := exists_rest_of_ne hi hj hij
  have hsame := hrest xs[i] xs[j]
  rw [List.set_getElem_self, List.set_getElem_self] at hsame
  exact ⟨xs[i], xs[j], rest, hle, hsame, hrest _ _⟩

omit [IsStrictOrderedRing K] in
theorem Transfer.sum_eq (h : Transfer d xs ys) : ys.sum = xs.sum := by
  obtain ⟨a, b, rest, _, hxs, hys⟩ := h
  rw [hys.sum_eq, hxs.sum_eq]
  simp only [List.sum_cons]
  ring

theorem Transfer.sumSq_le (h : Transfer d xs ys) (hd : 0 ≤ d) :
    sumSq xs + 2 * (d * d) ≤ sumSq ys := by
  obtain ⟨a, b, rest, hab, hxs, hys⟩ := h
  have hmove := mul_nonneg hd (sub_nonneg.mpr hab)
  rw [sumSq_perm hxs, sumSq_perm hys]
  simp only [sumSq_cons]
  linarith

/-- Moved apart, two amounts are further from any third one. -/
theorem abs_move_apart (a b c d : K) (hab : a ≤ b) (hd : 0 ≤ d) :
    |a - c| + |b - c| ≤ |a - d - c| + |b + d - c| := by
  rcases abs_cases (a - c) with ⟨ha, _⟩ | ⟨ha, _⟩ <;>
    rcases abs_cases (b - c) with ⟨hb, _⟩ | ⟨hb, _⟩ <;>
      linarith [le_abs_self (a - d - c), neg_le_abs (a - d - c), le_abs_self (b + d - c),
        neg_le_abs (b + d - c)]

theorem distances_move_apart (a b d : K) (hab : a ≤ b) (hd : 0 ≤ d) (rest : List K) :
    distances a rest + distances b rest ≤
      distances (a - d) rest + distances (b + d) rest := by
  induction rest with
  | nil => simp
  | cons c rest ih =>
      have hmove := abs_move_apart a b c d hab hd
      simp only [distances_cons, abs_sub_comm c]
      linarith

theorem Transfer.spread_le (h : Transfer d xs ys) (hd : 0 ≤ d) :
    spread xs + 4 * d ≤ spread ys := by
  obtain ⟨a, b, rest, hab, hxs, hys⟩ := h
  have hrest := distances_move_apart a b d hab hd rest
  have hbefore : |b - a| = b - a := abs_of_nonneg (sub_nonneg.mpr hab)
  have hafter : |b + d - (a - d)| = b + d - (a - d) := abs_of_nonneg (by linarith)
  rw [spread_perm hxs, spread_perm hys]
  simp only [spread_cons, distances_cons, hbefore, hafter]
  linarith

theorem Transfer.excess_le (h : Transfer d xs ys) (hd : 0 ≤ d) (t : K) :
    excess t xs ≤ excess t ys := by
  obtain ⟨a, b, rest, hab, hxs, hys⟩ := h
  have hmove : max (a - t) 0 + max (b - t) 0 ≤ max (a - d - t) 0 + max (b + d - t) 0 := by
    rcases max_cases (a - t) 0 with ⟨ha, _⟩ | ⟨ha, _⟩ <;>
      rcases max_cases (b - t) 0 with ⟨hb, _⟩ | ⟨hb, _⟩ <;>
        linarith [le_max_left (a - d - t) 0, le_max_right (a - d - t) 0,
          le_max_left (b + d - t) 0, le_max_right (b + d - t) 0]
  rw [excess_perm hxs, excess_perm hys]
  simp only [excess_cons]
  linarith

theorem Transfer.largestSum_le (h : Transfer d xs ys) (hd : 0 ≤ d) (hnonneg : ∀ y ∈ ys, 0 ≤ y)
    (k : Nat) : largestSum k xs ≤ largestSum k ys :=
  largestSum_mono hnonneg (h.excess_le hd) k

end Transfer

/-- The index of squared shares does not fall when the smallest amounts are left
out. -/
theorem sumSq_take_ge (ds : List K) (hsorted : ds.Pairwise (· ≥ ·)) (hnonneg : ∀ x ∈ ds, 0 ≤ x)
    (k : Nat) :
    sumSq ds * ((ds.take k).sum * (ds.take k).sum) ≤ sumSq (ds.take k) * (ds.sum * ds.sum) := by
  obtain ⟨t, hcut⟩ := exists_cut k hsorted hnonneg
  have hfront := mul_sum_le_sumSq t (ds.take k) fun x hx =>
    ⟨hnonneg x (List.mem_of_mem_take hx), hcut.above x hx⟩
  have hbehind := sumSq_le_mul_sum t (ds.drop k) fun x hx =>
    ⟨hnonneg x (List.mem_of_mem_drop hx), hcut.below x hx⟩
  have hsum := List.sum_take_add_sum_drop ds k
  have hsquares := sumSq_append (ds.take k) (ds.drop k)
  rw [List.take_append_drop] at hsquares
  have hfrontNonneg : 0 ≤ (ds.take k).sum :=
    List.sum_nonneg fun x hx => hnonneg x (List.mem_of_mem_take hx)
  have hbehindNonneg : 0 ≤ (ds.drop k).sum :=
    List.sum_nonneg fun x hx => hnonneg x (List.mem_of_mem_drop hx)
  have hsquaresNonneg := sumSq_nonneg (ds.take k)
  rw [hsquares, ← hsum]
  generalize (ds.take k).sum = A at *
  generalize (ds.drop k).sum = B at *
  generalize sumSq (ds.take k) = P at *
  generalize sumSq (ds.drop k) = R at *
  have hdropped : R * (A * A) ≤ P * (A * B) := by
    calc
      R * (A * A) ≤ t * B * (A * A) :=
        mul_le_mul_of_nonneg_right hbehind (mul_nonneg hfrontNonneg hfrontNonneg)
      _ = t * A * (A * B) := by ring
      _ ≤ P * (A * B) := mul_le_mul_of_nonneg_right hfront (mul_nonneg hfrontNonneg hbehindNonneg)
  have hmixed : 0 ≤ P * (A * B) := mul_nonneg hsquaresNonneg (mul_nonneg hfrontNonneg hbehindNonneg)
  have hsquareB : 0 ≤ P * (B * B) := mul_nonneg hsquaresNonneg (mul_self_nonneg B)
  linarith

end ShadeIndexer.Lib.Majorization
