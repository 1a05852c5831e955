import Mathlib.Data.BitVec
import Mathlib.Data.Int.ModEq

/-!
Machine integers that are read as signed. With wrapping arithmetic a register
holds an exact integer modulo `2 ^ w`, and reading it back gives the one
integer of the signed range that has that residue. With overflow checks an
operation returns nothing if the exact result is out of range.
-/

namespace ShadeIndexer.Lib.Wrapping

variable {w : Nat}

def InSignedRange (w : Nat) (n : ℤ) : Prop := -2 ^ (w - 1) ≤ n ∧ n < 2 ^ (w - 1)

instance (w : Nat) (n : ℤ) : Decidable (InSignedRange w n) :=
  inferInstanceAs (Decidable (_ ∧ _))

/-- `v` is the only integer of the signed range that is congruent to `n`. -/
structure SignedResidue (w : Nat) (n v : ℤ) : Prop where
  congruent : v ≡ n [ZMOD 2 ^ w]
  inRange : InSignedRange w v
  unique : ∀ u, InSignedRange w u → u ≡ n [ZMOD 2 ^ w] → u = v

theorem inSignedRange_toInt (x : BitVec w) : InSignedRange w x.toInt :=
  ⟨BitVec.le_toInt x, BitVec.toInt_lt⟩

theorem toInt_intCast (n : ℤ) : (n : BitVec w).toInt = n.bmod (2 ^ w) := by
  have hcast : (n : BitVec w) = BitVec.ofInt w n := rfl
  rw [hcast, BitVec.toInt_ofInt]

theorem bmod_modEq (n : ℤ) : n.bmod (2 ^ w) ≡ n [ZMOD 2 ^ w] := by
  have hmod := @Int.bmod_emod n (2 ^ w)
  push_cast at hmod
  exact hmod

theorem bmod_of_inSignedRange (hw : 0 < w) {n : ℤ} (h : InSignedRange w n) :
    n.bmod (2 ^ w) = n := by
  obtain ⟨k, rfl⟩ := Nat.exists_eq_succ_of_ne_zero hw.ne'
  obtain ⟨hlow, hhigh⟩ := h
  rw [Nat.succ_sub_one] at hlow hhigh
  apply Int.bmod_eq_of_le_mul_two
  · push_cast
    rw [pow_succ]
    omega
  · push_cast
    rw [pow_succ]
    omega

/-- A register that holds an exact integer is read as its signed residue. -/
theorem signedResidue_toInt (hw : 0 < w) (n : ℤ) : SignedResidue w n (n : BitVec w).toInt where
  congruent := by
    rw [toInt_intCast]
    exact bmod_modEq n
  inRange := inSignedRange_toInt _
  unique := by
    intro u hrange hmod
    have hsame : u.bmod (2 ^ w) = n.bmod (2 ^ w) := by
      have hemod : u % ((2 ^ w : Nat) : ℤ) = n % ((2 ^ w : Nat) : ℤ) := by
        push_cast
        exact hmod
      rw [← Int.emod_bmod, hemod, Int.emod_bmod]
    rw [toInt_intCast, ← hsame, bmod_of_inSignedRange hw hrange]

/-- An integer of the signed range is read back as it is. -/
theorem SignedResidue.exact {n v : ℤ} (h : SignedResidue w n v) (hrange : InSignedRange w n) :
    v = n :=
  (h.unique n hrange (Int.ModEq.refl n)).symm

theorem intCast_toInt (x : BitVec w) : ((x.toInt : ℤ) : BitVec w) = x :=
  BitVec.ofInt_toInt

theorem intCast_toNat (x : BitVec w) : ((x.toNat : ℤ) : BitVec w) = x := by
  simp

/-- Signed addition that fails if the exact sum is out of range. -/
def checkedAdd (a b : BitVec w) : Option (BitVec w) :=
  if a.saddOverflow b then none else some (a + b)

/-- Signed subtraction that fails if the exact difference is out of range. -/
def checkedSub (a b : BitVec w) : Option (BitVec w) :=
  if a.ssubOverflow b then none else some (a - b)

/-- The sum of unsigned numbers from the left, which fails at the first partial
sum that does not fit. -/
def checkedSum (xs : List (BitVec w)) : Option (BitVec w) :=
  xs.foldlM (fun acc x => if acc.uaddOverflow x then none else some (acc + x)) 0

theorem not_saddOverflow_iff (a b : BitVec w) :
    ¬ a.saddOverflow b = true ↔ InSignedRange w (a.toInt + b.toInt) := by
  simp only [BitVec.saddOverflow, InSignedRange, Bool.or_eq_true, decide_eq_true_eq]
  omega

theorem not_ssubOverflow_iff (a b : BitVec w) :
    ¬ a.ssubOverflow b = true ↔ InSignedRange w (a.toInt - b.toInt) := by
  simp only [BitVec.ssubOverflow, InSignedRange, Bool.or_eq_true, decide_eq_true_eq]
  omega

theorem checkedAdd_eq_some_iff (a b c : BitVec w) :
    checkedAdd a b = some c ↔ InSignedRange w (a.toInt + b.toInt) ∧ c = a + b := by
  rw [checkedAdd, ← not_saddOverflow_iff]
  split
  next hover => simp [hover]
  next hfits => simp [hfits, eq_comm]

theorem checkedSub_eq_some_iff (a b c : BitVec w) :
    checkedSub a b = some c ↔ InSignedRange w (a.toInt - b.toInt) ∧ c = a - b := by
  rw [checkedSub, ← not_ssubOverflow_iff]
  split
  next hover => simp [hover]
  next hfits => simp [hfits, eq_comm]

theorem foldlM_uadd_eq_some_iff (xs : List (BitVec w)) (acc total : BitVec w) :
    xs.foldlM (fun acc x => if acc.uaddOverflow x then none else some (acc + x)) acc =
        some total ↔
      acc.toNat + (xs.map BitVec.toNat).sum < 2 ^ w ∧ total = xs.foldl (· + ·) acc := by
  induction xs generalizing acc with
  | nil =>
      have hfits := acc.isLt
      simp only [List.foldlM_nil, List.map_nil, List.sum_nil, List.foldl_nil, Nat.add_zero, hfits,
        true_and]
      exact ⟨fun h => (Option.some.inj h).symm, fun h => congrArg some h.symm⟩
  | cons x xs ih =>
      rw [List.foldlM_cons, List.map_cons, List.sum_cons, List.foldl_cons]
      by_cases hover : acc.uaddOverflow x = true
      · have hlarge : 2 ^ w ≤ acc.toNat + x.toNat := by
          simpa [BitVec.uaddOverflow] using hover
        rw [if_pos hover, Option.bind_eq_bind, Option.bind_none]
        constructor
        · intro h
          cases h
        · rintro ⟨hfits, _⟩
          omega
      · rw [if_neg hover, Option.bind_eq_bind, Option.bind_some, ih,
          BitVec.toNat_add_of_not_uaddOverflow hover, Nat.add_assoc]

/-- The partial sums grow, so the sum succeeds exactly if the exact total fits. -/
theorem checkedSum_eq_some_iff (xs : List (BitVec w)) (total : BitVec w) :
    checkedSum xs = some total ↔
      (xs.map BitVec.toNat).sum < 2 ^ w ∧ total = xs.foldl (· + ·) 0 := by
  have hzero : (0 : BitVec w).toNat = 0 := BitVec.toNat_zero
  rw [checkedSum, foldlM_uadd_eq_some_iff, hzero, Nat.zero_add]

end ShadeIndexer.Lib.Wrapping
