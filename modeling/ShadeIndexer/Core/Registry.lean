import Mathlib.Data.List.AList
import ShadeIndexer.Core.Types

/-!
The factory registry: which contract and which event topic announce a launch
of which launchpad. The three text parsers belong to other crates and are
parameters. A hash map is an association list without repeated keys whose
order stands for the map's iteration order.
-/

namespace ShadeIndexer.Core

structure RawFactory where
  address : String
  eventTopic : String
  abiPath : Option String
  deriving DecidableEq, Repr

structure RawFactories where
  clanker : Option RawFactory
  flaunch : Option RawFactory
  bankr : Option RawFactory
  zora : Option RawFactory
  deriving DecidableEq, Repr

structure FactorySpec where
  launchpad : Launchpad
  address : Address
  eventTopic : B256
  abiPath : Option String
  deriving DecidableEq

structure FactoryRegistry where
  byLaunchpad : AList (fun _ : Launchpad => FactorySpec)
  /-- Lookup table: (address, topic0) → launchpad. -/
  routing : AList (fun _ : Address × B256 => Launchpad)

/-- `toml::from_str`, `Address::from_str` and `B256::from_str`, each with the
text of its error. -/
structure TextParsers where
  tomlFromStr : String → Except String RawFactories
  addressFromStr : String → Except String Address
  b256FromStr : String → Except String B256

/-- The characters that `str::trim` removes: Unicode `White_Space`. -/
def isWhitespace (c : Char) : Bool :=
  let n := c.toNat
  (9 ≤ n && n ≤ 13) || n == 0x20 || n == 0x85 || n == 0xA0 || n == 0x1680 ||
    (0x2000 ≤ n && n ≤ 0x200A) || n == 0x2028 || n == 0x2029 || n == 0x202F ||
    n == 0x205F || n == 0x3000

def trim (s : String) : String :=
  String.ofList (((s.toList.dropWhile isWhitespace).reverse.dropWhile isWhitespace).reverse)

namespace FactoryRegistry

def empty : FactoryRegistry := ⟨∅, ∅⟩

def insert (parsers : TextParsers) (reg : FactoryRegistry) (lp : Launchpad)
    (raw : RawFactory) : Except IndexerError FactoryRegistry := do
  let address ← (parsers.addressFromStr (trim raw.address)).mapError
    fun e => .config (lp.asStr ++ " address: " ++ e)
  let eventTopic ← (parsers.b256FromStr (trim raw.eventTopic)).mapError
    fun e => .config (lp.asStr ++ " event_topic: " ++ e)
  pure {
    routing := reg.routing.insert (address, eventTopic) lp
    byLaunchpad := reg.byLaunchpad.insert lp ⟨lp, address, eventTopic, raw.abiPath⟩ }

/-- The sections in the order in which the loader visits them. -/
def sections (parsed : RawFactories) : List (Launchpad × Option RawFactory) :=
  [(.clanker, parsed.clanker), (.flaunch, parsed.flaunch),
    (.bankr, parsed.bankr), (.zora, parsed.zora)]

def insertSection (parsers : TextParsers) (reg : FactoryRegistry)
    (entry : Launchpad × Option RawFactory) : Except IndexerError FactoryRegistry :=
  match entry.2 with
  | some raw => reg.insert parsers entry.1 raw
  | none => .ok reg

def fromTomlStr (parsers : TextParsers) (body : String) :
    Except IndexerError FactoryRegistry := do
  let parsed ← (parsers.tomlFromStr body).mapError
    fun e => .config ("factories.toml: " ++ e)
  let reg ← (sections parsed).foldlM (insertSection parsers) empty
  if reg.byLaunchpad.entries.isEmpty then
    throw (.config "factories.toml has no launchpad entries")
  pure reg

def allAddresses (reg : FactoryRegistry) : List Address :=
  reg.byLaunchpad.entries.map fun entry => entry.2.address

def allTopics (reg : FactoryRegistry) : List B256 :=
  reg.byLaunchpad.entries.map fun entry => entry.2.eventTopic

def matchLog (reg : FactoryRegistry) (address : Address) (topic0 : B256) : Option Launchpad :=
  reg.routing.lookup (address, topic0)

end FactoryRegistry

end ShadeIndexer.Core
