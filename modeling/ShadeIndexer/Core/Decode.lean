import ShadeIndexer.Core.Types

/-!
Decoding a raw log to a `NormalizedDeploy`. All four launchpads put the token
and the deployer in topics 1 and 2. They differ in the names of their errors,
in the supply and in the extras.
-/

namespace ShadeIndexer.Core

open Lib.Rust

abbrev DecodeOut := Address × Address × Option U256 × Json

def decodeError {α : Type} (message : String) : Result IndexerError α :=
  .error (.error (.decode message))

def topicToAddress (topics : List B256) (idx : Nat) (what : String) :
    Result IndexerError Address :=
  match topics[idx]? with
  | some t => .ok (Address.fromWord t)
  | none => decodeError (what ++ ": topic[" ++ toString idx ++ "] missing")

def dataToU256 (data : Bytes) (slot : Nat) : Result IndexerError U256 :=
  let start := slot * 32
  let stop := start + 32
  match getRange data start stop with
  | some chunk => U256.fromBeSlice chunk
  | none => decodeError ("data slot[" ++ toString slot ++ "] out of range")

/-- The part that the four layouts share. -/
def indexedPair (name : String) (topics : List B256) :
    Result IndexerError (Address × Address) := do
  let token ← topicToAddress topics 1 (name ++ ".token")
  let deployer ← topicToAddress topics 2 (name ++ ".deployer")
  pure (token, deployer)

/-- `TokenCreated(address indexed token, address indexed deployer, uint256 supply)` -/
def decodeClanker (topics : List B256) (data : Bytes) : Result IndexerError DecodeOut := do
  let (token, deployer) ← indexedPair "clanker" topics
  let supply ← (dataToU256 data 0).ok?
  pure (token, deployer, supply, .object [("layout", .string "TokenCreated")])

/-- `Flaunched(address indexed token, address indexed deployer, bytes32 salt)` -/
def decodeFlaunch (topics : List B256) (data : Bytes) : Result IndexerError DecodeOut := do
  let (token, deployer) ← indexedPair "flaunch" topics
  let salt := ((getRange data 0 32).map fun b => "0x" ++ Lib.Hex.encode b).getD ""
  pure (token, deployer, none,
    .object [("layout", .string "Flaunched"), ("salt", .string salt)])

/-- An event that carries nothing but the two indexed addresses. -/
def decodeAddressesOnly (name layout : String) (topics : List B256) :
    Result IndexerError DecodeOut := do
  let (token, deployer) ← indexedPair name topics
  pure (token, deployer, none, .object [("layout", .string layout)])

/-- `Spawn(address indexed token, address indexed deployer)` -/
def decodeBankr (topics : List B256) (_data : Bytes) : Result IndexerError DecodeOut :=
  decodeAddressesOnly "bankr" "Spawn" topics

/-- `Created1155(address indexed token, address indexed deployer, ...)` -/
def decodeZora (topics : List B256) (_data : Bytes) : Result IndexerError DecodeOut :=
  decodeAddressesOnly "zora" "Created1155" topics

def decodeLayout : Launchpad → List B256 → Bytes → Result IndexerError DecodeOut
  | .clanker => decodeClanker
  | .flaunch => decodeFlaunch
  | .bankr => decodeBankr
  | .zora => decodeZora

def okOr {α : Type} (field : Option α) (message : String) : Result IndexerError α :=
  match field with
  | some a => .ok a
  | none => decodeError message

def decodeDeploy (launchpad : Launchpad) (log : Log) : Result IndexerError NormalizedDeploy := do
  let blockNumber ← okOr log.blockNumber "log missing block_number"
  let blockTimestamp := log.blockTimestamp.getD 0
  let txHash ← okOr log.transactionHash "log missing tx_hash"
  let logIndex ← okOr log.logIndex "log missing log_index"
  let (token, deployer, initialSupply, raw) ← decodeLayout launchpad log.topics log.data
  pure { launchpad, token, deployer, blockNumber, blockTimestamp, txHash, logIndex,
         initialSupply, raw }

theorem topicToAddress_panicFree (topics : List B256) (idx : Nat) (what : String) :
    PanicFree (topicToAddress topics idx what) := by
  unfold topicToAddress
  split <;> trivial

/-- A slot is read only when all of its 32 bytes are there, so the number
always fits. -/
theorem dataToU256_panicFree (data : Bytes) (slot : Nat) :
    PanicFree (dataToU256 data slot) := by
  unfold dataToU256
  dsimp only
  split
  · rename_i chunk hchunk
    have hlength : chunk.length = 32 := by
      rw [getRange_length _ _ _ _ hchunk]
      omega
    rw [U256.fromBeSlice_of_length chunk hlength]
    trivial
  · trivial

theorem indexedPair_panicFree (name : String) (topics : List B256) :
    PanicFree (indexedPair name topics) := by
  apply PanicFree.bind (topicToAddress_panicFree topics 1 _)
  intro token _
  apply PanicFree.bind (topicToAddress_panicFree topics 2 _)
  intro deployer _
  trivial

theorem decodeLayout_panicFree (launchpad : Launchpad) (topics : List B256) (data : Bytes) :
    PanicFree (decodeLayout launchpad topics data) := by
  cases launchpad with
  | clanker =>
      apply PanicFree.bind (indexedPair_panicFree "clanker" topics)
      rintro ⟨token, deployer⟩ _
      exact (dataToU256_panicFree data 0).ok?.bind fun supply _ => trivial
  | flaunch =>
      apply PanicFree.bind (indexedPair_panicFree "flaunch" topics)
      rintro ⟨token, deployer⟩ _
      trivial
  | bankr =>
      apply PanicFree.bind (indexedPair_panicFree "bankr" topics)
      rintro ⟨token, deployer⟩ _
      trivial
  | zora =>
      apply PanicFree.bind (indexedPair_panicFree "zora" topics)
      rintro ⟨token, deployer⟩ _
      trivial

theorem okOr_ok {α : Type} {field : Option α} {message : String} {a : α}
    (h : okOr field message = .ok a) : field = some a := by
  cases field with
  | none => cases h
  | some b => rw [Except.ok.inj h]

theorem okOr_panicFree {α : Type} (field : Option α) (message : String) :
    PanicFree (okOr field message) := by
  cases field <;> trivial

/-- The tolerance the decoders are written for: whatever the log, decoding it
ends in a deploy or in an error value. -/
theorem decodeDeploy_panicFree (launchpad : Launchpad) (log : Log) :
    PanicFree (decodeDeploy launchpad log) := by
  apply PanicFree.bind (okOr_panicFree log.blockNumber _)
  intro blockNumber _
  apply PanicFree.bind (okOr_panicFree log.transactionHash _)
  intro txHash _
  apply PanicFree.bind (okOr_panicFree log.logIndex _)
  intro logIndex _
  apply PanicFree.bind (decodeLayout_panicFree launchpad log.topics log.data)
  rintro ⟨token, deployer, supply, raw⟩ _
  trivial

/-- The two ways in which decoding a log can end. -/
theorem decodeDeploy_cases (launchpad : Launchpad) (log : Log) :
    (∃ deploy, decodeDeploy launchpad log = .ok deploy) ∨
      ∃ e, decodeDeploy launchpad log = .error (.error e) := by
  have hdecode := decodeDeploy_panicFree launchpad log
  cases hrun : decodeDeploy launchpad log with
  | ok deploy => exact Or.inl ⟨deploy, rfl⟩
  | error fault =>
      rw [hrun] at hdecode
      cases fault with
      | panic p => exact hdecode.elim
      | error e => exact Or.inr ⟨e, rfl⟩

end ShadeIndexer.Core
