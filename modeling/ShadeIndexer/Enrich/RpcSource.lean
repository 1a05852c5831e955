import ShadeIndexer.Bytecode.Scan
import ShadeIndexer.Core.Types
import ShadeIndexer.Enrich.Metrics
import ShadeIndexer.Lib.Accumulator

/-!
The RPC enrichment source. A provider answers each request with a value or
with an error, which `none` stands for. One fetch makes no request twice, so a
function from requests to answers covers every assignment of outcomes. The
ABI encoding of a call belongs to another crate, and a call is kept as a term.
-/

namespace ShadeIndexer.Enrich

open ShadeIndexer.Core Lib Lib.Rust Lib.BigEndian Lib.Accumulator

def WETH_BASE : Address :=
  ⟨[0x42, 0x00, 0x00, 0x00, 0x00, 0x00, 0x00, 0x00, 0x00, 0x00,
    0x00, 0x00, 0x00, 0x00, 0x00, 0x00, 0x00, 0x00, 0x00, 0x06], rfl⟩

def UNI_V3_FACTORY_BASE : Address :=
  ⟨[0x33, 0x12, 0x8a, 0x8f, 0xC1, 0x78, 0x69, 0x89, 0x7d, 0xcE,
    0x68, 0xEd, 0x02, 0x6d, 0x69, 0x46, 0x21, 0xf6, 0xFD, 0xfD], rfl⟩

/-- keccak256("Transfer(address,address,uint256)") -/
def TRANSFER_TOPIC : B256 :=
  ⟨[0xdd, 0xf2, 0x52, 0xad, 0x1b, 0xe2, 0xc8, 0x9b, 0x69, 0xc2, 0xb0, 0x68, 0xfc, 0x37, 0x8d, 0xaa,
    0x95, 0x2b, 0xa7, 0xf1, 0x63, 0xc4, 0xa1, 0x16, 0x28, 0xf5, 0x5a, 0x4d, 0xf5, 0x23, 0xb3, 0xef],
    rfl⟩

/-- The view functions the source calls. -/
inductive SolCall where
  | totalSupply
  | getPool (tokenA tokenB : Address) (fee : Nat)
  | liquidity
  deriving DecidableEq

structure Filter where
  address : Address
  eventSignature : B256
  fromBlock : UInt64
  toBlock : UInt64
  deriving DecidableEq

structure Provider where
  getCodeAt : Address → Option Bytes
  call : Address → SolCall → Option Bytes
  getLogs : Filter → Option (List Log)

structure RpcSourceConfig where
  holderScanWindow : UInt64
  holderTopK : Nat

def RpcSourceConfig.default : RpcSourceConfig := ⟨256, 100⟩

structure RpcEnrichmentSource where
  provider : Provider
  cfg : RpcSourceConfig
  signatures : Bytecode.SignatureSet

inductive AnyhowError where
  | message (text : String)
  deriving DecidableEq, Repr

abbrev Fetched := Result AnyhowError

namespace RpcEnrichmentSource

def fetchBytecodeFlags (src : RpcEnrichmentSource) (token : Address) : Bytecode.Flags :=
  match src.provider.getCodeAt token with
  | none => 0
  | some code => if code.isEmpty then 0 else (Bytecode.scanBytecode code src.signatures).1

def ethCall (src : RpcEnrichmentSource) (target : Address) (data : SolCall) :
    Option Bytes :=
  src.provider.call target data

def fetchTotalSupply (src : RpcEnrichmentSource) (token : Address) : Fetched (Option U256) :=
  match src.ethCall token .totalSupply with
  | none => .ok none
  | some raw =>
    if raw.length < 32 then .ok none
    else do
      let word ← sliceTo raw 32
      let supply ← U256.fromBeSlice word
      pure (some supply)

/-- The loop over the fee tiers. A failed call leaves the function, a short
answer or the zero address goes on to the next tier. -/
def probeTiers (src : RpcEnrichmentSource) (token : Address) :
    List Nat → Fetched (Option Address)
  | [] => .ok none
  | fee :: rest =>
    match src.ethCall UNI_V3_FACTORY_BASE (.getPool token WETH_BASE fee) with
    | none => .ok none
    | some raw =>
      if 32 ≤ raw.length then do
        let slice ← sliceTo raw 32
        let word ← B256.fromSlice slice
        let pool := Address.fromWord word
        if pool ≠ Address.ZERO then pure (some pool) else src.probeTiers token rest
      else src.probeTiers token rest

def feeTiers : List Nat := [500, 3000, 10000]

def findUniV3Pool (src : RpcEnrichmentSource) (token : Address) : Fetched (Option Address) :=
  src.probeTiers token feeTiers

def fetchPoolLiquidity (src : RpcEnrichmentSource) (pool : Address) : Fetched (Option U128) :=
  match src.ethCall pool .liquidity with
  | none => .ok none
  | some raw =>
    if raw.length < 32 then .ok none
    else do
      let word ← sliceTo raw 32
      let liquidity ← U256.fromBeSlice word
      let narrowed ← U256.toU128 liquidity
      pure (some narrowed)

/-- The body of the loop over the Transfer logs. -/
def transferStep (balances : Totals Address U128) (log : Log) :
    Fetched (Totals Address U128) :=
  if log.topics.length < 3 then .ok balances
  else do
    let fromAddr := Address.fromWord (← index log.topics 1)
    let toAddr := Address.fromWord (← index log.topics 2)
    if log.data.length < 32 then pure balances
    else
      let word ← sliceTo log.data 32
      let amt := U256.saturatingToU128 (← U256.fromBeSlice word)
      let balances := if fromAddr ≠ Address.ZERO then debit balances fromAddr amt else balances
      let balances := if toAddr ≠ Address.ZERO then credit balances toAddr amt else balances
      pure balances

/-- The positive values, read as `i128`, cast back, sorted and truncated. -/
def topBalances (values : List U128) (k : Nat) : List U128 :=
  (sortDescending (values.filter fun v => 0 < v.toInt)).take k

def saturatingAdd (a b : UInt64) : UInt64 :=
  if a.toNat + b.toNat < 2 ^ 64 then a + b else UInt64.ofNat (2 ^ 64 - 1)

def holderFilter (src : RpcEnrichmentSource) (token : Address) (fromBlock : UInt64) : Filter where
  address := token
  eventSignature := TRANSFER_TOPIC
  fromBlock := fromBlock
  toBlock := saturatingAdd fromBlock src.cfg.holderScanWindow

def fetchHolderBalances (src : RpcEnrichmentSource) (token : Address) (fromBlock : UInt64) :
    Fetched (List U128) :=
  match src.provider.getLogs (src.holderFilter token fromBlock) with
  | none => .ok []
  | some logs => do
    let balances ← logs.foldlM transferStep ∅
    pure (topBalances (values balances) src.cfg.holderTopK)

/-- A placeholder in the source: it never reports a lock. -/
def detectLock (_src : RpcEnrichmentSource) (_pool : Address) : Bool := false

def fetch (src : RpcEnrichmentSource) (deploy : NormalizedDeploy) : Fetched HolderSnapshot := do
  let bytecodeFlags := src.fetchBytecodeFlags deploy.token
  let pool ← src.findUniV3Pool deploy.token
  let liquidityRaw ← match pool with
    | some p => (·.getD 0) <$> src.fetchPoolLiquidity p
    | none => pure 0
  let totalSupply := (← src.fetchTotalSupply deploy.token).getD 0
  let fdv := F64.ofUnsigned (← U256.toU128 totalSupply)
  let balances ← src.fetchHolderBalances deploy.token deploy.blockNumber
  let liquidityLocked := match pool with
    | some p => src.detectLock p
    | none => false
  pure { balances, liquidityUsd := F64.ofUnsigned liquidityRaw, fdvUsd := fdv,
         liquidityLocked, bytecodeFlags }

end RpcEnrichmentSource

end ShadeIndexer.Enrich
