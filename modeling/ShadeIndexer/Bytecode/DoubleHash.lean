import Mathlib.Data.Nat.ModEq
import Mathlib.Data.Nat.Prime.Basic
import ShadeIndexer.Bytecode.Bloom

/-!
Double hashing on a power-of-two width. The step is odd, so it is coprime with
the width and the probes run through different positions; and reduction modulo
the width commutes with the wrap-around modulo `2 ^ 64`.
-/

namespace ShadeIndexer.Bytecode

open ShadeIndexer.Core Lib.BigEndian

/-- An arithmetic progression does not return to a residue before it has gone
through all of them, if its step is coprime with the modulus. -/
theorem progression_injective {a b m i j : Nat} (hcoprime : Nat.Coprime m b) (hi : i < m)
    (hj : j < m) (h : (a + i * b) % m = (a + j * b) % m) : i = j := by
  have hstep : i * b ≡ j * b [MOD m] := Nat.ModEq.add_left_cancel' a h
  have hindex : i ≡ j [MOD m] := Nat.ModEq.cancel_right_of_coprime hcoprime hstep
  rw [Nat.ModEq, Nat.mod_eq_of_lt hi, Nat.mod_eq_of_lt hj] at hindex
  exact hindex

/-- The step of every item is odd. -/
theorem doubleHash_odd (digest : Digest) (item : Bytes) :
    Odd (doubleHash digest item).2.toNat := by
  rw [Nat.odd_iff, doubleHash]
  dsimp only
  rw [UInt64.toNat_or, Nat.mod_two_eq_one_iff_testBit_zero, Nat.testBit_or]
  simp

/-- On a width that divides `2 ^ 64` the wrapping computation is exact. -/
theorem combine_exact (a b : UInt64) (i : UInt32) (mBits : UInt64) (h : mBits.toNat ∣ 2 ^ 64) :
    (combine a b i mBits).toNat = (a.toNat + i.toNat * b.toNat) % mBits.toNat := by
  rw [combine, UInt64.toNat_mod, UInt64.toNat_add, UInt64.toNat_mul, UInt32.toNat_toUInt64,
    Nat.mod_mod_of_dvd _ h, Nat.add_mod, Nat.mod_mod_of_dvd _ h, ← Nat.add_mod]

theorem powerOfTwo_dvd (mBits : UInt64) (h : mBits.toNat.isPowerOfTwo) :
    mBits.toNat ∣ 2 ^ 64 := by
  obtain ⟨e, he⟩ := h
  have hlt := mBits.toNat_lt
  rw [he] at hlt ⊢
  exact Nat.pow_dvd_pow 2 ((Nat.pow_lt_pow_iff_right (by omega)).mp hlt).le

/-- Every index of the loop is its position in it. -/
theorem hashIndices_toNat (k : UInt32) (i : Nat) (h : i < k.toNat) :
    (UInt32.ofNat i).toNat = i := by
  have hlt := k.toNat_lt
  rw [UInt32.toNat_ofNat']
  omega

/-- On a power-of-two width every probe is the exact integer computation, and
the probes of an item are pairwise different. -/
theorem probes_distinct (digest : Digest) (mBits : UInt64) (k : UInt32) (item : Bytes)
    (hpow : mBits.toNat.isPowerOfTwo) (hk : k.toNat ≤ mBits.toNat) :
    (∀ i < k.toNat, (combine (doubleHash digest item).1 (doubleHash digest item).2
        (UInt32.ofNat i) mBits).toNat =
      ((doubleHash digest item).1.toNat + i * (doubleHash digest item).2.toNat) %
        mBits.toNat) ∧
      (probes digest mBits k item).Nodup := by
  have hdvd := powerOfTwo_dvd mBits hpow
  have hexact : ∀ i < k.toNat, (combine (doubleHash digest item).1 (doubleHash digest item).2
      (UInt32.ofNat i) mBits).toNat =
        ((doubleHash digest item).1.toNat + i * (doubleHash digest item).2.toNat) %
          mBits.toNat := by
    intro i hi
    rw [combine_exact _ _ _ _ hdvd, hashIndices_toNat k i hi]
  refine ⟨hexact, ?_⟩
  have hcoprime : Nat.Coprime mBits.toNat (doubleHash digest item).2.toNat := by
    obtain ⟨e, he⟩ := hpow
    rw [he]
    exact (Nat.coprime_two_left.mpr (doubleHash_odd digest item)).pow_left e
  rw [probes, hashIndices]
  dsimp only
  rw [List.map_map]
  apply List.Nodup.map_on _ List.nodup_range
  intro i hi j hj heq
  rw [List.mem_range] at hi hj
  have hvalue := congrArg UInt64.toNat heq
  simp only [Function.comp_apply, hexact i hi, hexact j hj] at hvalue
  exact progression_injective hcoprime (by omega) (by omega) hvalue

/-- The largest digest: every probe but the first wraps around. -/
def allOnes : Bytes := List.replicate 16 0xff

theorem probes_distinct_wrapping :
    ((∀ i < (64 : UInt32).toNat, (combine (doubleHash Bloom.paddedDigest allOnes).1
        (doubleHash Bloom.paddedDigest allOnes).2 (UInt32.ofNat i) 64).toNat =
      ((doubleHash Bloom.paddedDigest allOnes).1.toNat +
        i * (doubleHash Bloom.paddedDigest allOnes).2.toNat) % (64 : UInt64).toNat) ∧
      (probes Bloom.paddedDigest 64 64 allOnes).Nodup) ∧
      2 ^ 64 ≤ (doubleHash Bloom.paddedDigest allOnes).1.toNat +
        (doubleHash Bloom.paddedDigest allOnes).2.toNat :=
  ⟨probes_distinct Bloom.paddedDigest 64 64 allOnes ⟨6, rfl⟩ (by decide), by decide⟩

/-- `usize::next_power_of_two`. A power that does not fit wraps to zero, as it
does in the release profile. -/
def nextPowerOfTwo (m : UInt64) : UInt64 := UInt64.ofNat m.toNat.nextPowerOfTwo

/-- `with_capacity` behind its float formulas: `mBits` and `k` are what they
come to. -/
def Bloom.withCapacity (mBits : UInt64) (k : UInt32) : Option Bloom :=
  Bloom.new (max (nextPowerOfTwo mBits) 64) k

/-- Whatever the formulas come to, the width is a power of two. -/
theorem Bloom.withCapacity_powerOfTwo (mBits : UInt64) (k : UInt32) (self : Bloom)
    (h : Bloom.withCapacity mBits k = some self) : self.mBits.toNat.isPowerOfTwo := by
  have hwidth : self.mBits = max (nextPowerOfTwo mBits) 64 := by
    unfold Bloom.withCapacity Bloom.new at h
    split at h
    · split at h
      · obtain rfl := Option.some.inj h
        rfl
      · cases h
    · cases h
  have hmax : max (nextPowerOfTwo mBits) 64 =
      if nextPowerOfTwo mBits ≤ 64 then 64 else nextPowerOfTwo mBits := rfl
  rw [hwidth, hmax]
  split
  · exact ⟨6, rfl⟩
  · rename_i hlarge
    obtain ⟨e, he⟩ := Nat.isPowerOfTwo_nextPowerOfTwo mBits.toNat
    rw [nextPowerOfTwo, he] at hlarge ⊢
    rcases Nat.lt_or_ge e 64 with hfits | hover
    · refine ⟨e, ?_⟩
      rw [UInt64.toNat_ofNat', Nat.mod_eq_of_lt (Nat.pow_lt_pow_right (by omega) hfits)]
    · -- the power has wrapped to zero, and the floor of 64 bits replaces it
      exfalso
      apply hlarge
      rw [UInt64.le_iff_toNat_le, UInt64.toNat_ofNat',
        Nat.mod_eq_zero_of_dvd (Nat.pow_dvd_pow 2 hover)]
      exact Nat.zero_le _

end ShadeIndexer.Bytecode
