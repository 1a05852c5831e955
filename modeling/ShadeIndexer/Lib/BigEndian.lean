import Mathlib.Algebra.Order.Ring.Nat
import Mathlib.Data.List.Induction

/-!
Big-endian byte strings as natural numbers, and back. `beBytes` is the
fixed-length encoding: it is defined for every number and exact for those that
fit in the given number of bytes.
-/

namespace ShadeIndexer.Lib.BigEndian

/-- The number a big-endian byte string spells. -/
def beNat (bytes : List UInt8) : Nat :=
  bytes.foldl (fun acc b => acc * 256 + b.toNat) 0

/-- The `len` low-order bytes of `n`, most significant first. -/
def beBytes : Nat → Nat → List UInt8
  | 0, _ => []
  | len + 1, n => beBytes len (n / 256) ++ [UInt8.ofNat n]

@[simp] theorem beNat_nil : beNat [] = 0 := rfl

@[simp] theorem beNat_snoc (bytes : List UInt8) (b : UInt8) :
    beNat (bytes ++ [b]) = beNat bytes * 256 + b.toNat := by
  simp [beNat]

@[simp] theorem beBytes_length (len n : Nat) : (beBytes len n).length = len := by
  induction len generalizing n with
  | zero => rfl
  | succ len ih => simp [beBytes, ih]

theorem beNat_lt (bytes : List UInt8) : beNat bytes < 256 ^ bytes.length := by
  induction bytes using List.reverseRecOn with
  | nil => simp
  | append_singleton bytes b ih =>
    have hb : b.toNat < 256 := b.toNat_lt
    rw [beNat_snoc, List.length_append, List.length_singleton, pow_succ]
    omega

/-- Encoding loses nothing from a number that fits. -/
theorem beNat_beBytes (len n : Nat) (h : n < 256 ^ len) : beNat (beBytes len n) = n := by
  induction len generalizing n with
  | zero => simp at h; simp [beBytes, h]
  | succ len ih =>
    have hquot : n / 256 < 256 ^ len := by
      rw [pow_succ] at h
      omega
    have hdigit : (UInt8.ofNat n).toNat = n % 256 := UInt8.toNat_ofNat'
    rw [beBytes, beNat_snoc, ih _ hquot, hdigit]
    omega

end ShadeIndexer.Lib.BigEndian
