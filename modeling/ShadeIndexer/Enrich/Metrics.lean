import Mathlib.Data.List.Sort
import ShadeIndexer.Bytecode.Signatures
import ShadeIndexer.Core.Primitives
import ShadeIndexer.Lib.F64

/-!
The distribution metrics over a holder snapshot. Shares and indices are exact
rationals, where the source computes with `f64` and rounds. The `u128` sums wrap,
as they do in the release profile.
-/

namespace ShadeIndexer.Enrich

open ShadeIndexer.Core Lib

structure HolderSnapshot where
  balances : List U128
  liquidityUsd : F64
  fdvUsd : F64
  liquidityLocked : Bool
  bytecodeFlags : Bytecode.Flags
  deriving DecidableEq

structure Enrichment where
  top10Share : F64
  gini : F64
  hhi : F64
  liqToFdvRatio : F64
  liqLocked : Bool
  bytecodeFlags : Bytecode.Flags
  deriving DecidableEq

/-- `iter().sum::<u128>()`. -/
def sumU128 (xs : List U128) : U128 := xs.foldl (· + ·) 0

/-- `sort_unstable_by(|a, b| b.cmp(a))`. Equal numbers are indistinguishable,
so every sorting algorithm returns the same list. -/
def sortDescending (xs : List U128) : List U128 := xs.insertionSort (fun a b => b ≤ a)

def sortAscending (xs : List U128) : List U128 := xs.insertionSort (fun a b => a ≤ b)

def topNShare (balances : List U128) (n : Nat) (total : U128) : ℚ :=
  if total = 0 then 0
  else (sumU128 ((sortDescending balances).take n)).toNat / total.toNat

def clampUnit (g : ℚ) : ℚ := if g < 0 then 0 else if 1 < g then 1 else g

/-- `G = (2·Σ(i·x_i) − (n+1)·Σx_i) / (n·Σx_i)` over the ascending balances. -/
def gini (balances : List U128) (total : U128) : ℚ :=
  if balances.isEmpty ∨ total = 0 then 0
  else
    let sorted := sortAscending balances
    let n : ℚ := sorted.length
    let weighted : ℚ := sorted.zipIdx.foldl (fun acc x => acc + (x.2 + 1) * x.1.toNat) 0
    let sum : ℚ := total.toNat
    clampUnit ((2 * weighted - (n + 1) * sum) / (n * sum))

/-- `Σ s_i²` where `s_i` is a share. -/
def hhi (balances : List U128) (total : U128) : ℚ :=
  if total = 0 then 0
  else
    let denom : ℚ := total.toNat
    balances.foldl (fun acc x => acc + (x.toNat / denom) * (x.toNat / denom)) 0

def Enrichment.fromSnapshot (s : HolderSnapshot) : Enrichment :=
  let total := sumU128 s.balances
  { top10Share := .finite (topNShare s.balances 10 total)
    gini := .finite (Enrich.gini s.balances total)
    hhi := .finite (Enrich.hhi s.balances total)
    liqToFdvRatio := if s.fdvUsd.isPos then s.liquidityUsd.divPos s.fdvUsd else .finite 0
    liqLocked := s.liquidityLocked
    bytecodeFlags := s.bytecodeFlags }

end ShadeIndexer.Enrich
