import Mathlib.Data.BitVec
import ShadeIndexer.Lib.BigEndian
import ShadeIndexer.Lib.Rust

/-!
The Ethereum primitives the indexer is written over: addresses, 32-byte words,
256-bit numbers and RPC logs. A byte string of a fixed size carries the proof
of its size, so a topic is never anything but 32 bytes.

A `u128` and an `i128` are both `BitVec 128`. A cast between them changes no
bit, and `+` and `-` wrap, as they do in the release profile. The signed
reading of a word is `BitVec.toInt`.
-/

namespace ShadeIndexer.Core

open Lib.Rust Lib.BigEndian

abbrev Bytes := List UInt8

structure FixedBytes (n : Nat) where
  bytes : Bytes
  size : bytes.length = n
  deriving DecidableEq

abbrev Address := FixedBytes 20
abbrev B256 := FixedBytes 32
abbrev U256 := BitVec 256
abbrev U128 := BitVec 128

theorem FixedBytes.ext {n : Nat} {a b : FixedBytes n} (h : a.bytes = b.bytes) : a = b := by
  cases a
  cases b
  cases h
  rfl

/-- Every byte equal to `b`, as in `Address::from([0x11; 20])`. -/
def FixedBytes.repeatByte (n : Nat) (b : UInt8) : FixedBytes n :=
  ⟨List.replicate n b, List.length_replicate⟩

def Address.ZERO : Address := FixedBytes.repeatByte 20 0

/-- `FixedBytes::<32>::from_slice`, which panics on any other length. -/
def B256.fromSlice {ε : Type} (bytes : Bytes) : Result ε B256 :=
  if h : bytes.length = 32 then .ok ⟨bytes, h⟩ else .error (.panic .sliceIndex)

/-- The last 20 bytes of a word. -/
def Address.fromWord (word : B256) : Address :=
  ⟨word.bytes.drop 12, by simp [word.size]⟩

/-- The left-padded word that an event topic holds for an address. -/
def Address.intoWord (a : Address) : B256 :=
  ⟨List.replicate 12 0 ++ a.bytes, by simp [a.size]⟩

@[simp] theorem Address.fromWord_intoWord (a : Address) : Address.fromWord a.intoWord = a := by
  apply FixedBytes.ext
  simp [Address.fromWord, Address.intoWord]

/-- `U256::from_be_slice` panics if the number needs more than 256 bits. -/
def U256.fromBeSlice {ε : Type} (bytes : Bytes) : Result ε U256 :=
  if beNat bytes < 2 ^ 256 then .ok (BitVec.ofNat 256 (beNat bytes))
  else .error (.panic .uintConversion)

/-- `Uint::to::<u128>()` panics if the value does not fit. -/
def U256.toU128 {ε : Type} (x : U256) : Result ε U128 :=
  if x.toNat < 2 ^ 128 then .ok (BitVec.ofNat 128 x.toNat)
  else .error (.panic .uintConversion)

/-- `Uint::saturating_to::<u128>()`. -/
def U256.saturatingToU128 (x : U256) : U128 :=
  if x.toNat < 2 ^ 128 then BitVec.ofNat 128 x.toNat else BitVec.allOnes 128

/-- Thirty-two bytes always fit: this is what every length check before a
`from_be_slice` is for. -/
theorem U256.fromBeSlice_of_length {ε : Type} (bytes : Bytes) (h : bytes.length = 32) :
    (U256.fromBeSlice bytes : Result ε U256) = .ok (BitVec.ofNat 256 (beNat bytes)) := by
  have hlt : beNat bytes < 2 ^ 256 := by
    have hbound := beNat_lt bytes
    rw [h] at hbound
    exact hbound
  rw [U256.fromBeSlice, if_pos hlt]

theorem B256.fromSlice_of_length {ε : Type} (bytes : Bytes) (h : bytes.length = 32) :
    (B256.fromSlice bytes : Result ε B256) = .ok ⟨bytes, h⟩ := by
  simp [B256.fromSlice, h]

/-- Behind a length check, the first word can be sliced off and read. -/
theorem firstWord {ε : Type} (raw : Bytes) (h : 32 ≤ raw.length) :
    (sliceTo raw 32 : Result ε Bytes) = .ok (raw.take 32) ∧
      (raw.take 32).length = 32 ∧
      (U256.fromBeSlice (raw.take 32) : Result ε U256) =
        .ok (BitVec.ofNat 256 (beNat (raw.take 32))) := by
  have hlength : (raw.take 32).length = 32 := by
    rw [List.length_take]
    omega
  exact ⟨sliceTo_of_le raw 32 h, hlength, U256.fromBeSlice_of_length _ hlength⟩

/-- An RPC log, with the fields that the decoders and the holder fold read.
`removed` is what a node sets on a log of a block that was reorganised out. -/
structure Log where
  address : Address
  topics : List B256
  data : Bytes
  blockNumber : Option UInt64
  blockTimestamp : Option UInt64
  transactionHash : Option B256
  logIndex : Option UInt64
  removed : Bool
  deriving DecidableEq

end ShadeIndexer.Core
