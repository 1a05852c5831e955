import ShadeIndexer.Core.Primitives
import ShadeIndexer.Lib.Hex

/-!
The normalized deploy schema.
-/

namespace ShadeIndexer.Core

/-- `serde_json::Value`. -/
inductive Json where
  | null
  | bool (b : Bool)
  | number (n : Int)
  | string (s : String)
  | array (items : List Json)
  | object (fields : List (String × Json))

inductive Launchpad where
  | clanker
  | flaunch
  | bankr
  | zora
  deriving DecidableEq, Repr

def Launchpad.asStr : Launchpad → String
  | .clanker => "clanker"
  | .flaunch => "flaunch"
  | .bankr => "bankr"
  | .zora => "zora"

def Launchpad.topic : Launchpad → String
  | .clanker => "shade.launches.clanker"
  | .flaunch => "shade.launches.flaunch"
  | .bankr => "shade.launches.bankr"
  | .zora => "shade.launches.zora"

structure NormalizedDeploy where
  launchpad : Launchpad
  token : Address
  deployer : Address
  blockNumber : UInt64
  blockTimestamp : UInt64
  txHash : B256
  logIndex : UInt64
  initialSupply : Option U256
  raw : Json

/-- The Kafka key: `format!("{:#x}", self.token)`. -/
def NormalizedDeploy.key (d : NormalizedDeploy) : String :=
  "0x" ++ Lib.Hex.encode d.token.bytes

inductive IndexerError where
  | config (message : String)
  | decode (message : String)
  | subscription (message : String)
  | io (message : String)
  | json (message : String)
  | other (message : String)
  deriving DecidableEq, Repr

end ShadeIndexer.Core
