import Mathlib.Data.BitVec

/-!
Bits that are packed into 64-bit words, bit `i` into bit `i % 64` of word
`i / 64`. `bitAt` is what the words mean: a set of positions, in which nothing
beyond the last word is set.
-/

namespace ShadeIndexer.Lib.BitWords

abbrev Words (n : Nat) := Vector (BitVec 64) n

variable {n : Nat}

def bitAt (words : Words n) (i : Nat) : Bool :=
  if h : i / 64 < n then words[i / 64].getLsbD (i % 64) else false

/-- `words[i / 64] |= 1 << (i % 64)` -/
def raise (words : Words n) (i : Nat) (h : i / 64 < n) : Words n :=
  words.set (i / 64) (words[i / 64] ||| 1#64 <<< (i % 64))

/-- The mask of one bit. -/
theorem getLsbD_mask (i j : Nat) (hj : j < 64) :
    (1#64 <<< i).getLsbD j = decide (i = j) := by
  simp only [BitVec.getLsbD_shiftLeft, BitVec.getLsbD_one, hj]
  rcases Nat.lt_trichotomy i j with h | h | h
  · simp [Nat.not_lt.mpr h.le, Nat.ne_of_lt h]
    omega
  · simp [h]
  · simp [h, Nat.ne_of_gt h]

/-- Shifting a bit down and masking it reads it. -/
theorem shift_and_one (x : BitVec 64) (i : Nat) :
    ((x >>> i) &&& 1#64 == 1#64) = x.getLsbD i := by
  have hmask : (x >>> i) &&& 1#64 = BitVec.setWidth 64 (BitVec.ofBool (x.getLsbD i)) := by
    have hlow := @BitVec.and_one_eq_setWidth_ofBool_getLsbD 64 (x >>> i)
    rw [BitVec.getLsbD_ushiftRight, Nat.add_zero] at hlow
    exact hlow
  rw [hmask]
  cases x.getLsbD i <;> rfl

@[simp] theorem bitAt_replicate_zero (i : Nat) : bitAt (Vector.replicate n 0#64) i = false := by
  unfold bitAt
  split <;> simp

/-- Raising a bit sets it and changes no other. -/
theorem bitAt_raise (words : Words n) (i j : Nat) (h : i / 64 < n) :
    bitAt (raise words i h) j = (decide (i = j) || bitAt words j) := by
  unfold bitAt raise
  split
  · rename_i hj
    rw [Vector.getElem_set]
    split
    · rename_i hword
      have hsame : words[i / 64] = words[j / 64] := by simp only [hword]
      rw [BitVec.getLsbD_or, getLsbD_mask _ _ (Nat.mod_lt _ (by omega)),
        Bool.or_comm, hsame]
      congr 1
      rw [decide_eq_decide]
      omega
    · rename_i hword
      have hne : i ≠ j := fun heq => hword (by rw [heq])
      simp [hne]
  · rename_i hj
    have hne : i ≠ j := fun heq => hj (heq ▸ h)
    simp [hne]

end ShadeIndexer.Lib.BitWords
