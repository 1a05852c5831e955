import Mathlib.Algebra.BigOperators.Fin
import Mathlib.Algebra.Order.Chebyshev
import Mathlib.Algebra.Order.Field.Basic
import Mathlib.Tactic.LinearCombination
import Mathlib.Tactic.Linarith
import Mathlib.Tactic.Ring

/-!
How unequal a list of amounts is. `sumSq` adds up the squares, and `spread` the
distances of all pairs. Both forget the order of the list. Over an ascending
list the spread is a sum weighted by rank.
-/

namespace ShadeIndexer.Lib.Dispersion

variable {K : Type} [Field K]

def sumSq (xs : List K) : K := (xs.map fun x => x * x).sum

/-- `Σ_i i·x_i`, with ranks from one. -/
def rankedSum (xs : List K) : K := (xs.zipIdx.map fun x => ((x.2 : K) + 1) * x.1).sum

@[simp] theorem sumSq_nil : sumSq ([] : List K) = 0 := rfl

@[simp] theorem sumSq_cons (a : K) (xs : List K) : sumSq (a :: xs) = a * a + sumSq xs := by
  simp [sumSq]

theorem sumSq_append (xs ys : List K) : sumSq (xs ++ ys) = sumSq xs + sumSq ys := by
  simp [sumSq]

theorem sumSq_perm {xs ys : List K} (h : xs.Perm ys) : sumSq xs = sumSq ys :=
  (h.map _).sum_eq

theorem sum_scale (c : K) (xs : List K) : (xs.map (c * ·)).sum = c * xs.sum := by
  rw [List.sum_map_mul_left, List.map_id']

theorem sumSq_scale (c : K) (xs : List K) : sumSq (xs.map (c * ·)) = c * c * sumSq xs := by
  induction xs with
  | nil => simp
  | cons a xs ih =>
      rw [List.map_cons, sumSq_cons, ih, sumSq_cons]
      ring

theorem zipIdx_weighted (xs : List K) (n : Nat) :
    ((xs.zipIdx n).map fun x => ((x.2 : K) + 1) * x.1).sum = rankedSum xs + n * xs.sum := by
  induction xs generalizing n with
  | nil => simp [rankedSum]
  | cons a xs ih =>
      have hone := ih 1
      rw [rankedSum, List.zipIdx_cons, List.zipIdx_cons, List.map_cons, List.sum_cons,
        List.map_cons, List.sum_cons, ih (n + 1), zero_add, hone, List.sum_cons]
      push_cast
      ring

theorem rankedSum_cons (a : K) (xs : List K) :
    rankedSum (a :: xs) = a + rankedSum xs + xs.sum := by
  rw [rankedSum, List.zipIdx_cons, List.map_cons, List.sum_cons, zero_add, zipIdx_weighted]
  push_cast
  ring

variable [LinearOrder K]

/-- The distances of one amount to all of the list. -/
def distances (a : K) (xs : List K) : K := (xs.map fun x => |x - a|).sum

/-- `Σ_i Σ_j |x_i − x_j|` -/
def spread (xs : List K) : K := (xs.map fun a => distances a xs).sum

@[simp] theorem distances_nil (a : K) : distances a [] = 0 := rfl

@[simp] theorem distances_cons (a x : K) (xs : List K) :
    distances a (x :: xs) = |x - a| + distances a xs := by
  simp [distances]

@[simp] theorem spread_nil : spread ([] : List K) = 0 := rfl

theorem distances_perm {xs ys : List K} (h : xs.Perm ys) (a : K) :
    distances a xs = distances a ys :=
  (h.map _).sum_eq

theorem spread_perm {xs ys : List K} (h : xs.Perm ys) : spread xs = spread ys := by
  have hdistances : (fun a => distances a xs) = fun a => distances a ys := by
    funext a
    exact distances_perm h a
  rw [spread, spread, hdistances]
  exact (h.map _).sum_eq

theorem sum_distances_cons (a : K) (xs ys : List K) :
    (ys.map fun y => distances y (a :: xs)).sum =
      distances a ys + (ys.map fun y => distances y xs).sum := by
  induction ys with
  | nil => simp
  | cons y ys ih =>
      rw [List.map_cons, List.sum_cons, ih, List.map_cons, List.sum_cons, distances_cons,
        distances_cons, abs_sub_comm a y]
      ring

variable [IsStrictOrderedRing K]

theorem distances_scale {c : K} (hc : 0 ≤ c) (a : K) (xs : List K) :
    distances (c * a) (xs.map (c * ·)) = c * distances a xs := by
  induction xs with
  | nil => simp
  | cons x xs ih =>
      rw [List.map_cons, distances_cons, ih, distances_cons, ← mul_sub, abs_mul, abs_of_nonneg hc]
      ring

theorem spread_scale {c : K} (hc : 0 ≤ c) (xs : List K) :
    spread (xs.map (c * ·)) = c * spread xs := by
  simp only [spread, List.map_map, Function.comp_def, distances_scale hc]
  exact List.sum_map_mul_left _ _ _

/-- One more amount is compared with every other twice. -/
theorem spread_cons (a : K) (xs : List K) :
    spread (a :: xs) = spread xs + 2 * distances a xs := by
  rw [spread, List.map_cons, List.sum_cons, sum_distances_cons, distances_cons, sub_self,
    abs_zero, spread]
  ring

theorem distances_nonneg (a : K) (xs : List K) : 0 ≤ distances a xs :=
  List.sum_nonneg (by simp)

theorem spread_nonneg (xs : List K) : 0 ≤ spread xs := by
  apply List.sum_nonneg
  simp only [List.mem_map, forall_exists_index, and_imp, forall_apply_eq_imp_iff₂]
  exact fun a _ => distances_nonneg a xs

theorem distances_eq_zero_iff (a : K) (xs : List K) : distances a xs = 0 ↔ ∀ x ∈ xs, x = a := by
  induction xs with
  | nil => simp
  | cons x xs ih =>
      rw [distances_cons, add_eq_zero_iff_of_nonneg (abs_nonneg _) (distances_nonneg a xs), ih,
        abs_eq_zero, sub_eq_zero, List.forall_mem_cons]

theorem spread_eq_zero_iff (xs : List K) : spread xs = 0 ↔ ∀ x ∈ xs, ∀ y ∈ xs, x = y := by
  induction xs with
  | nil => simp
  | cons a xs ih =>
      have htwice := mul_nonneg (zero_le_two (α := K)) (distances_nonneg a xs)
      rw [spread_cons, add_eq_zero_iff_of_nonneg (spread_nonneg xs) htwice, mul_eq_zero,
        or_iff_right (two_ne_zero (α := K)), distances_eq_zero_iff, ih]
      constructor
      · rintro ⟨_, hhead⟩ x hx y hy
        have hequal : ∀ z ∈ a :: xs, z = a := List.forall_mem_cons.mpr ⟨rfl, hhead⟩
        rw [hequal x hx, hequal y hy]
      · intro h
        refine ⟨fun x hx y hy => ?_, fun x hx => ?_⟩
        · exact h x (List.mem_cons_of_mem _ hx) y (List.mem_cons_of_mem _ hy)
        · exact h x (List.mem_cons_of_mem _ hx) a (List.mem_cons_self ..)

/-- The distances to a smallest amount. -/
theorem distances_of_le (a : K) (xs : List K) (h : ∀ x ∈ xs, a ≤ x) :
    distances a xs = xs.sum - xs.length * a := by
  induction xs with
  | nil => simp
  | cons x xs ih =>
      obtain ⟨hx, hxs⟩ := List.forall_mem_cons.mp h
      rw [distances_cons, ih hxs, abs_of_nonneg (sub_nonneg.mpr hx), List.sum_cons,
        List.length_cons, Nat.cast_succ]
      ring

/-- Two amounts that are not negative differ by no more than their sum. -/
theorem distances_le (a : K) (ha : 0 ≤ a) (xs : List K) (h : ∀ x ∈ xs, 0 ≤ x) :
    distances a xs ≤ xs.sum + xs.length * a := by
  induction xs with
  | nil => simp
  | cons x xs ih =>
      obtain ⟨hx, hxs⟩ := List.forall_mem_cons.mp h
      have hdistance : |x - a| ≤ x + a := abs_sub_le_iff.mpr ⟨by linarith, by linarith⟩
      have hrest := ih hxs
      rw [distances_cons, List.sum_cons, List.length_cons, Nat.cast_succ]
      linarith

theorem spread_le (xs : List K) (h : ∀ x ∈ xs, 0 ≤ x) :
    spread xs ≤ 2 * (xs.length - 1) * xs.sum := by
  induction xs with
  | nil => simp
  | cons a xs ih =>
      obtain ⟨ha, hxs⟩ := List.forall_mem_cons.mp h
      have hhead := distances_le a ha xs hxs
      have hrest := ih hxs
      calc
        spread (a :: xs) = spread xs + 2 * distances a xs := spread_cons a xs
        _ ≤ 2 * (xs.length - 1) * xs.sum + 2 * (xs.sum + xs.length * a) := by linarith
        _ = 2 * ((a :: xs).length - 1) * (a :: xs).sum := by
          rw [List.length_cons, List.sum_cons, Nat.cast_succ]
          ring

/-- Over an ascending list the ranks count, for every amount, how many are on
either side of it. -/
theorem spread_of_ascending (xs : List K) (h : xs.Pairwise (· ≤ ·)) :
    spread xs = 2 * (2 * rankedSum xs - (xs.length + 1) * xs.sum) := by
  induction xs with
  | nil => simp [rankedSum]
  | cons a xs ih =>
      obtain ⟨hhead, hrest⟩ := List.pairwise_cons.mp h
      rw [spread_cons, ih hrest, distances_of_le a xs hhead, rankedSum_cons, List.sum_cons,
        List.length_cons, Nat.cast_succ]
      ring

/-- Cauchy-Schwarz, for a list. -/
theorem sum_sq_le (xs : List K) : xs.sum * xs.sum ≤ xs.length * sumSq xs := by
  have hfinset := sq_sum_le_card_mul_sum_sq (s := Finset.univ) (f := fun i : Fin xs.length => xs[i])
  have hsum : ∑ i : Fin xs.length, xs[i] = xs.sum := by
    have hlist : List.ofFn (fun i : Fin xs.length => xs[i]) = xs := List.ofFn_getElem ..
    rw [← List.sum_ofFn, hlist]
  have hsquares : ∑ i : Fin xs.length, xs[i] ^ 2 = sumSq xs := by
    have hmap : List.ofFn (fun i : Fin xs.length => xs[i] ^ 2) = xs.map fun x => x * x := by
      apply List.ext_getElem
      · simp
      · intro i _ _
        simp [pow_two]
    rw [← List.sum_ofFn, hmap, sumSq]
  rw [hsum, hsquares, Finset.card_univ, Fintype.card_fin, pow_two] at hfinset
  exact hfinset

theorem sumSq_nonneg (xs : List K) : 0 ≤ sumSq xs := by
  apply List.sum_nonneg
  simp only [List.mem_map, forall_exists_index, and_imp, forall_apply_eq_imp_iff₂]
  exact fun x _ => mul_self_nonneg x

theorem sumSq_le_mul_sum (m : K) (xs : List K) (h : ∀ x ∈ xs, 0 ≤ x ∧ x ≤ m) :
    sumSq xs ≤ m * xs.sum := by
  induction xs with
  | nil => simp
  | cons x xs ih =>
      obtain ⟨⟨hx, hle⟩, hxs⟩ := List.forall_mem_cons.mp h
      have hsquare := mul_le_mul_of_nonneg_right hle hx
      have hrest := ih hxs
      rw [sumSq_cons, List.sum_cons]
      linarith

theorem mul_sum_le_sumSq (m : K) (xs : List K) (h : ∀ x ∈ xs, 0 ≤ x ∧ m ≤ x) :
    m * xs.sum ≤ sumSq xs := by
  induction xs with
  | nil => simp
  | cons x xs ih =>
      obtain ⟨⟨hx, hle⟩, hxs⟩ := List.forall_mem_cons.mp h
      have hsquare := mul_le_mul_of_nonneg_right hle hx
      have hrest := ih hxs
      rw [sumSq_cons, List.sum_cons]
      linarith

end ShadeIndexer.Lib.Dispersion
