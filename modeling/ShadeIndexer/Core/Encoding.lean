import ShadeIndexer.Core.Decode

/-!
The events that the decoders are written for, and what decoding makes of them.
An event is encoded as Solidity does it: the signature and the indexed
addresses are topics, and the other argument is a word of the data. A later
version of an event may add topics and data behind these.
-/

namespace ShadeIndexer.Core

open Lib.Rust Lib.BigEndian

inductive LaunchEvent where
  | tokenCreated (token deployer : Address) (supply : U256)
  | flaunched (token deployer : Address) (salt : B256)
  | spawn (token deployer : Address)
  | created1155 (token deployer : Address)

def LaunchEvent.launchpad : LaunchEvent → Launchpad
  | .tokenCreated .. => .clanker
  | .flaunched .. => .flaunch
  | .spawn .. => .bankr
  | .created1155 .. => .zora

def LaunchEvent.token : LaunchEvent → Address
  | .tokenCreated token .. => token
  | .flaunched token .. => token
  | .spawn token _ => token
  | .created1155 token _ => token

def LaunchEvent.deployer : LaunchEvent → Address
  | .tokenCreated _ deployer _ => deployer
  | .flaunched _ deployer _ => deployer
  | .spawn _ deployer => deployer
  | .created1155 _ deployer => deployer

def LaunchEvent.supply : LaunchEvent → Option U256
  | .tokenCreated _ _ supply => some supply
  | _ => none

def LaunchEvent.salt : LaunchEvent → Option Bytes
  | .flaunched _ _ salt => some salt.bytes
  | _ => none

/-- `to_be_bytes::<32>()` -/
def U256.toBeBytes (x : U256) : Bytes := beBytes 32 x.toNat

/-- The arguments that are not indexed. -/
def LaunchEvent.payload : LaunchEvent → Bytes
  | .tokenCreated _ _ supply => supply.toBeBytes
  | .flaunched _ _ salt => salt.bytes
  | _ => []

/-- Where and when an event is emitted, and what the launchpad puts behind the
documented arguments. -/
structure Emission where
  address : Address
  signature : B256
  moreTopics : List B256
  trailing : Bytes
  blockNumber : UInt64
  blockTimestamp : Option UInt64
  transactionHash : B256
  logIndex : UInt64
  removed : Bool

def LaunchEvent.encode (event : LaunchEvent) (emission : Emission) : Log where
  address := emission.address
  topics := emission.signature :: event.token.intoWord :: event.deployer.intoWord ::
    emission.moreTopics
  data := event.payload ++ emission.trailing
  blockNumber := some emission.blockNumber
  blockTimestamp := emission.blockTimestamp
  transactionHash := some emission.transactionHash
  logIndex := some emission.logIndex
  removed := emission.removed

/-- The bytes that the extras of a deploy spell as its salt. -/
def saltOf : Json → Option Bytes
  | .object [_, ("salt", .string text)] => Lib.Hex.decodeChars (Lib.Hex.strip0x text.toList)
  | _ => none

/-- The supply that a layout reads from the data. -/
def dataSupply : Launchpad → Bytes → Option U256
  | .clanker, data => (getRange data 0 32).map fun chunk => BitVec.ofNat 256 (beNat chunk)
  | _, _ => none

/-- The extras that a layout reads from the data. -/
def dataExtras : Launchpad → Bytes → Json
  | .clanker, _ => .object [("layout", .string "TokenCreated")]
  | .flaunch, data => .object [("layout", .string "Flaunched"),
      ("salt", .string (((getRange data 0 32).map fun b => "0x" ++ Lib.Hex.encode b).getD ""))]
  | .bankr, _ => .object [("layout", .string "Spawn")]
  | .zora, _ => .object [("layout", .string "Created1155")]

theorem dataToU256_ok? (data : Bytes) :
    ((dataToU256 data 0).ok? : Result IndexerError (Option U256)) =
      .ok ((getRange data 0 32).map fun chunk => BitVec.ofNat 256 (beNat chunk)) := by
  unfold dataToU256
  dsimp only
  rw [Nat.zero_mul, Nat.zero_add]
  cases hchunk : getRange data 0 32 with
  | none => rfl
  | some chunk =>
      have hlength : chunk.length = 32 := getRange_length _ _ _ _ hchunk
      dsimp only
      rw [U256.fromBeSlice_of_length chunk hlength]
      rfl

/-- With three topics every layout decodes, whatever the data. -/
theorem decodeLayout_of_topics (launchpad : Launchpad) (signature token deployer : B256)
    (more : List B256) (data : Bytes) :
    decodeLayout launchpad (signature :: token :: deployer :: more) data =
      .ok (Address.fromWord token, Address.fromWord deployer, dataSupply launchpad data,
        dataExtras launchpad data) := by
  cases launchpad with
  | clanker =>
      have hsupply := dataToU256_ok? data
      show ((dataToU256 data 0).ok? >>= _) = _
      rw [hsupply]
      rfl
  | flaunch => rfl
  | bankr => rfl
  | zora => rfl

/-- Every layout needs both indexed addresses. -/
theorem decodeLayout_topics (launchpad : Launchpad) (topics : List B256) (data : Bytes)
    (out : DecodeOut) (h : decodeLayout launchpad topics data = .ok out) : 3 ≤ topics.length := by
  have hpair : ∃ name pair, indexedPair name topics = .ok pair := by
    cases launchpad with
    | clanker => exact ⟨_, (bind_eq_ok h).imp fun _ hpair => hpair.1⟩
    | flaunch => exact ⟨_, (bind_eq_ok h).imp fun _ hpair => hpair.1⟩
    | bankr => exact ⟨_, (bind_eq_ok h).imp fun _ hpair => hpair.1⟩
    | zora => exact ⟨_, (bind_eq_ok h).imp fun _ hpair => hpair.1⟩
  obtain ⟨name, pair, hpair⟩ := hpair
  match topics, hpair with
  | _ :: _ :: _ :: rest, _ =>
      simp only [List.length_cons]
      omega

/-- What a log needs in order to decode: where it was emitted, and the topics
of the two addresses. -/
theorem decodeDeploy_ok_iff (launchpad : Launchpad) (log : Log) :
    (∃ deploy, decodeDeploy launchpad log = .ok deploy) ↔
      log.blockNumber.isSome ∧ log.transactionHash.isSome ∧ log.logIndex.isSome ∧
        3 ≤ log.topics.length := by
  constructor
  · rintro ⟨deploy, hdeploy⟩
    obtain ⟨blockNumber, hnumber, hrest⟩ := bind_eq_ok hdeploy
    obtain ⟨txHash, hhash, hrest⟩ := bind_eq_ok hrest
    obtain ⟨logIndex, hindex, hrest⟩ := bind_eq_ok hrest
    obtain ⟨out, hlayout, -⟩ := bind_eq_ok hrest
    rw [okOr_ok hnumber, okOr_ok hhash, okOr_ok hindex]
    exact ⟨rfl, rfl, rfl, decodeLayout_topics launchpad log.topics log.data out hlayout⟩
  · rintro ⟨hnumber, hhash, hindex, htopics⟩
    obtain ⟨blockNumber, hnumber⟩ := Option.isSome_iff_exists.mp hnumber
    obtain ⟨txHash, hhash⟩ := Option.isSome_iff_exists.mp hhash
    obtain ⟨logIndex, hindex⟩ := Option.isSome_iff_exists.mp hindex
    match hlist : log.topics, htopics with
    | signature :: token :: deployer :: more, _ =>
        have hlayout := decodeLayout_of_topics launchpad signature token deployer more log.data
        simp only [decodeDeploy, hnumber, hhash, hindex, hlist, hlayout, okOr, ok_bind]
        exact ⟨_, rfl⟩

theorem U256.ofNat_toBeBytes (x : U256) : BitVec.ofNat 256 (beNat x.toBeBytes) = x := by
  have hbound : x.toNat < 256 ^ 32 := x.isLt
  rw [U256.toBeBytes, beNat_beBytes 32 x.toNat hbound, BitVec.ofNat_toNat, BitVec.setWidth_eq]

/-- A word at the front of the data is read as it was written. -/
theorem firstWord_append (word trailing : Bytes) (h : word.length = 32) :
    getRange (word ++ trailing) 0 32 = some word := by
  rw [← h]
  exact getRange_append word trailing

theorem saltOf_flaunched (salt : Bytes) :
    saltOf (.object [("layout", .string "Flaunched"),
      ("salt", .string ("0x" ++ Lib.Hex.encode salt))]) = some salt := by
  rw [saltOf, String.toList_append]
  exact Lib.Hex.decodeChars_encode salt

theorem dataSupply_encode (event : LaunchEvent) (trailing : Bytes) :
    dataSupply event.launchpad (event.payload ++ trailing) = event.supply := by
  cases event with
  | tokenCreated token deployer supply =>
      have hword := firstWord_append supply.toBeBytes trailing (beBytes_length 32 _)
      simp only [LaunchEvent.launchpad, LaunchEvent.payload, LaunchEvent.supply, dataSupply, hword,
        Option.map_some, U256.ofNat_toBeBytes]
  | flaunched token deployer salt => rfl
  | spawn token deployer => rfl
  | created1155 token deployer => rfl

theorem saltOf_encode (event : LaunchEvent) (trailing : Bytes) :
    saltOf (dataExtras event.launchpad (event.payload ++ trailing)) = event.salt := by
  cases event with
  | tokenCreated token deployer supply => rfl
  | flaunched token deployer salt =>
      have hword := firstWord_append salt.bytes trailing salt.size
      simp only [LaunchEvent.launchpad, LaunchEvent.payload, LaunchEvent.salt, dataExtras, hword,
        Option.map_some, Option.getD_some]
      exact saltOf_flaunched salt.bytes
  | spawn token deployer => rfl
  | created1155 token deployer => rfl

/-- Decoding never panics, it fails only on a log without a place in the chain
or without both addresses, and it undoes the encoding of every event: the
deploy carries the token, the deployer and the supply of the event, and a salt
can be read back from its extras. -/
theorem decodeDeploy_undoes_encode :
    (∀ (launchpad : Launchpad) (log : Log), PanicFree (decodeDeploy launchpad log) ∧
      ((∃ deploy, decodeDeploy launchpad log = .ok deploy) ↔
        log.blockNumber.isSome ∧ log.transactionHash.isSome ∧ log.logIndex.isSome ∧
          3 ≤ log.topics.length)) ∧
      ∀ (event : LaunchEvent) (emission : Emission),
        ∃ raw, decodeDeploy event.launchpad (event.encode emission) =
            .ok { launchpad := event.launchpad, token := event.token, deployer := event.deployer,
                  blockNumber := emission.blockNumber,
                  blockTimestamp := emission.blockTimestamp.getD 0,
                  txHash := emission.transactionHash, logIndex := emission.logIndex,
                  initialSupply := event.supply, raw } ∧
          saltOf raw = event.salt := by
  constructor
  · intro launchpad log
    exact ⟨decodeDeploy_panicFree launchpad log, decodeDeploy_ok_iff launchpad log⟩
  · intro event emission
    refine ⟨dataExtras event.launchpad (event.payload ++ emission.trailing), ?_,
      saltOf_encode event emission.trailing⟩
    have hlayout := decodeLayout_of_topics event.launchpad emission.signature event.token.intoWord
      event.deployer.intoWord emission.moreTopics (event.payload ++ emission.trailing)
    simp only [Address.fromWord_intoWord, dataSupply_encode] at hlayout
    simp only [decodeDeploy, LaunchEvent.encode, okOr, ok_bind, hlayout]
    rfl

end ShadeIndexer.Core
