import ShadeIndexer.Enrich.HolderFold

/-!
Which answers of the provider can crash a fetch. Every slice and every index
in the source stands behind a length check, so the only panics left are the
two narrowing conversions to `u128`: of the total supply, and of the liquidity
of the pool that the tier loop finds.
-/

namespace ShadeIndexer.Enrich

open ShadeIndexer.Core Lib.Rust Lib.BigEndian Lib.Accumulator

/-- The first word of an answer, as a number, if it is long enough. -/
def wordOf (answer : Option Bytes) : Option U256 :=
  answer.bind fun raw =>
    if raw.length < 32 then none else some (BitVec.ofNat 256 (beNat (raw.take 32)))

/-- An answer whose first word, if it has one, fits in a `u128`. -/
def Fits (raw : Bytes) : Prop := 32 ≤ raw.length → beNat (raw.take 32) < 2 ^ 128

instance (raw : Bytes) : Decidable (Fits raw) :=
  inferInstanceAs (Decidable (_ → _))

/-- The pool that an answer of the factory names: its first word, if that is
there and is not the zero address. -/
def poolIn (raw : Bytes) : Option Address :=
  if h : 32 ≤ raw.length then
    let pool := Address.fromWord ⟨raw.take 32, by simp [h]⟩
    if pool ≠ Address.ZERO then some pool else none
  else none

/-- The pool that the answers of the tiers lead to. A tier that names no pool
is passed over, and one that fails ends the search. -/
def firstPool (answer : Nat → Option Bytes) : List Nat → Option Address
  | [] => none
  | fee :: rest =>
    match answer fee with
    | none => none
    | some raw =>
      match poolIn raw with
      | some pool => some pool
      | none => firstPool answer rest

/-- The length check and the two reads behind it, as `wordOf`. -/
theorem readWord {β : Type} (raw : Bytes) (next : U256 → Fetched (Option β)) :
    (if raw.length < 32 then (.ok none : Fetched (Option β))
      else do
        let word ← sliceTo raw 32
        let x ← U256.fromBeSlice word
        next x) = (wordOf (some raw)).elim (.ok none) next := by
  by_cases hshort : raw.length < 32
  · simp [wordOf, hshort]
  · obtain ⟨hslice, _, hword⟩ := @firstWord AnyhowError raw (by omega)
    simp only [hshort, if_false, hslice, hword, ok_bind, wordOf, Option.bind_some,
      Option.elim_some]

/-- A word fits in a `u128` exactly if narrowing it does not panic. -/
theorem toU128_ok_iff (raw : Bytes) (h : 32 ≤ raw.length) :
    (∃ x, (U256.toU128 (BitVec.ofNat 256 (beNat (raw.take 32))) : Fetched U128) = .ok x) ↔
      Fits raw := by
  have hbound : beNat (raw.take 32) < 2 ^ 256 := by
    have hlt := beNat_lt (raw.take 32)
    rw [(@firstWord AnyhowError raw h).2.1] at hlt
    exact hlt
  rw [U256.toU128, BitVec.toNat_ofNat, Nat.mod_eq_of_lt hbound, Fits]
  split
  · rename_i hfits
    exact ⟨fun _ _ => hfits, fun _ => ⟨_, rfl⟩⟩
  · rename_i hbig
    constructor
    · rintro ⟨x, hx⟩
      cases hx
    · intro hfits
      exact (hbig (hfits h)).elim

/-- Narrowing the word of an answer, or the zero it falls back to, does not
panic exactly if the answer fits. -/
theorem narrow_ok_iff (answer : Option Bytes) :
    (∃ x, (U256.toU128 ((wordOf answer).getD 0) : Fetched U128) = .ok x) ↔
      ∀ raw, answer = some raw → Fits raw := by
  cases answer with
  | none => exact ⟨fun _ raw hraw => (by cases hraw), fun _ => ⟨0, rfl⟩⟩
  | some raw =>
      simp only [Option.some.injEq, forall_eq']
      by_cases hshort : raw.length < 32
      · have hfits : Fits raw := fun h => absurd h (by omega)
        have hword : wordOf (some raw) = none := by simp [wordOf, hshort]
        exact ⟨fun _ => hfits, fun _ => ⟨0, by rw [hword]; rfl⟩⟩
      · rw [← toU128_ok_iff raw (by omega)]
        simp only [wordOf, Option.bind_some, hshort, if_false, Option.getD_some]

namespace RpcEnrichmentSource

variable (src : RpcEnrichmentSource)

/-- What the factory answers for the token and WETH at a fee tier. -/
def poolAnswer (token : Address) (fee : Nat) : Option Bytes :=
  src.provider.call UNI_V3_FACTORY_BASE (.getPool token WETH_BASE fee)

theorem fetchTotalSupply_eq (token : Address) :
    src.fetchTotalSupply token = .ok (wordOf (src.provider.call token .totalSupply)) := by
  unfold fetchTotalSupply ethCall
  cases src.provider.call token .totalSupply with
  | none => rfl
  | some raw =>
      apply (readWord raw fun x => pure (some x)).trans
      cases wordOf (some raw) <;> rfl

theorem fetchPoolLiquidity_eq (pool : Address) :
    src.fetchPoolLiquidity pool =
      (wordOf (src.provider.call pool .liquidity)).elim (.ok none) fun x =>
        some <$> (U256.toU128 x) := by
  unfold fetchPoolLiquidity ethCall
  cases src.provider.call pool .liquidity with
  | none => rfl
  | some raw => exact readWord raw fun x => some <$> U256.toU128 x

theorem fetchPoolLiquidity_ok_iff (pool : Address) :
    (∃ liquidity, src.fetchPoolLiquidity pool = .ok liquidity) ↔
      ∀ raw, src.provider.call pool .liquidity = some raw → Fits raw := by
  rw [← narrow_ok_iff, fetchPoolLiquidity_eq]
  cases wordOf (src.provider.call pool .liquidity) with
  | none => exact ⟨fun _ => ⟨0, rfl⟩, fun _ => ⟨none, rfl⟩⟩
  | some x =>
      simp only [Option.elim_some, Option.getD_some]
      cases (U256.toU128 x : Fetched U128) with
      | ok y => exact ⟨fun _ => ⟨y, rfl⟩, fun _ => ⟨some y, rfl⟩⟩
      | error e =>
          constructor
          · rintro ⟨liquidity, h⟩
            cases h
          · rintro ⟨y, h⟩
            cases h

/-- The tier loop never panics, and it returns the pool the answers lead to. -/
theorem probeTiers_eq (token : Address) (tiers : List Nat) :
    src.probeTiers token tiers = .ok (firstPool (src.poolAnswer token) tiers) := by
  induction tiers with
  | nil => rfl
  | cons fee rest ih =>
      unfold probeTiers firstPool ethCall poolAnswer
      cases src.provider.call UNI_V3_FACTORY_BASE (.getPool token WETH_BASE fee) with
      | none => rfl
      | some raw =>
          dsimp only
          unfold poolIn
          by_cases hlength : 32 ≤ raw.length
          · obtain ⟨hslice, hsize, _⟩ := @firstWord AnyhowError raw hlength
            have hword := @B256.fromSlice_of_length AnyhowError _ hsize
            rw [if_pos hlength, dif_pos hlength, hslice, ok_bind, hword, ok_bind]
            dsimp only
            split
            · rfl
            · exact ih
          · rw [if_neg hlength, dif_neg hlength]
            exact ih

theorem findUniV3Pool_eq (token : Address) :
    src.findUniV3Pool token = .ok (firstPool (src.poolAnswer token) feeTiers) :=
  src.probeTiers_eq token feeTiers

/-- The total supply that the token reports, if any, fits in a `u128`. -/
def SupplyFits (token : Address) : Prop :=
  ∀ raw, src.provider.call token .totalSupply = some raw → Fits raw

/-- The liquidity of the token's pool, if one is found, fits in a `u128`. -/
def LiquidityFits (token : Address) : Prop :=
  ∀ pool, firstPool (src.poolAnswer token) feeTiers = some pool →
    ∀ raw, src.provider.call pool .liquidity = some raw → Fits raw

/-- What a fetch does: it narrows the liquidity of the pool and the supply, and
the rest cannot fail. -/
theorem fetch_ok_iff_narrows (deploy : NormalizedDeploy) :
    (∃ snapshot, src.fetch deploy = .ok snapshot) ↔
      (∃ x, (U256.toU128 ((wordOf (src.provider.call deploy.token .totalSupply)).getD 0) :
        Fetched U128) = .ok x) ∧
      ∀ pool, firstPool (src.poolAnswer deploy.token) feeTiers = some pool →
        ∃ liquidity, src.fetchPoolLiquidity pool = .ok liquidity := by
  unfold fetch
  simp only [findUniV3Pool_eq, ok_bind, fetchTotalSupply_eq, fetchHolderBalances_eq]
  generalize (U256.toU128 ((wordOf (src.provider.call deploy.token .totalSupply)).getD 0) :
    Fetched U128) = supply
  cases firstPool (src.poolAnswer deploy.token) feeTiers with
  | none =>
      cases supply with
      | error e => simp
      | ok s =>
          constructor
          · intro _
            refine ⟨⟨s, rfl⟩, ?_⟩
            intro pool h
            cases h
          · intro _
            exact ⟨_, rfl⟩
  | some p =>
      simp only [Option.some.injEq, forall_eq']
      cases src.fetchPoolLiquidity p with
      | error e => simp
      | ok l =>
          cases supply with
          | error e => simp
          | ok s => exact ⟨fun _ => ⟨⟨s, rfl⟩, l, rfl⟩, fun _ => ⟨_, rfl⟩⟩

/-- A fetch returns a snapshot exactly if the two numbers that it narrows
without a guard fit: the supply of the token and the liquidity of its pool. -/
theorem fetch_ok_iff (deploy : NormalizedDeploy) :
    (∃ snapshot, src.fetch deploy = .ok snapshot) ↔
      src.SupplyFits deploy.token ∧ src.LiquidityFits deploy.token := by
  rw [src.fetch_ok_iff_narrows deploy, narrow_ok_iff]
  simp only [fetchPoolLiquidity_ok_iff]
  rfl

/-- A token that answers `totalSupply` with 32 bytes `0xff`, and a node that
refuses every other request. -/
def hugeSupply : RpcEnrichmentSource where
  provider :=
    { getCodeAt := fun _ => none
      call := fun _ data => if data = .totalSupply then some (List.replicate 32 0xff) else none
      getLogs := fun _ => none }
  cfg := .default
  signatures := .builtin

/-- A token that reports a supply beyond `u128::MAX` crashes the fetch. -/
theorem huge_supply_panics :
    ¬ ∀ (src : RpcEnrichmentSource) (deploy : NormalizedDeploy),
      ∃ snapshot, src.fetch deploy = .ok snapshot := by
  intro h
  obtain ⟨snapshot, hok⟩ := h hugeSupply
    { launchpad := .clanker, token := .repeatByte 20 0x11, deployer := .repeatByte 20 0x22
      blockNumber := 1, blockTimestamp := 1700000000, txHash := .repeatByte 32 0xBB
      logIndex := 0, initialSupply := none, raw := .null }
  cases hok

end RpcEnrichmentSource

end ShadeIndexer.Enrich
