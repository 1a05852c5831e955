import ShadeIndexer.Core.Decode
import ShadeIndexer.Lib.JsonRoundTrip

/-!
The JSON text of a deploy. The fields stand in the order of the struct. A
supply that is not known and extras that are null are left out.
-/

namespace ShadeIndexer.Core

open Lib.Rust
open Lib.Json (Value)

mutual

def Json.toValue : Json → Value Int String
  | .null => .null
  | .bool b => .bool b
  | .number n => .number n
  | .string s => .string s
  | .array items => .array (toValues items)
  | .object fields => .object (toFields fields)

def toValues : List Json → List (Value Int String)
  | [] => []
  | item :: rest => item.toValue :: toValues rest

def toFields : List (String × Json) → List (String × Value Int String)
  | [] => []
  | (key, item) :: rest => (key, item.toValue) :: toFields rest

end

/-- `serde_json::Value::is_null` -/
def Json.isNull : Json → Bool
  | .null => true
  | _ => false

/-- `#[serde(rename_all = "lowercase")]` -/
def Launchpad.serialize : Launchpad → String
  | .clanker => "clanker"
  | .flaunch => "flaunch"
  | .bankr => "bankr"
  | .zora => "zora"

/-- An address or a hash: every byte as two lowercase digits. -/
def FixedBytes.serialize {n : Nat} (b : FixedBytes n) : String := "0x" ++ Lib.Hex.encode b.bytes

/-- A number in lowercase hexadecimal, without leading zeros. -/
def U256.serialize (x : U256) : String := "0x" ++ String.ofList (Nat.toDigits 16 x.toNat)

namespace NormalizedDeploy

/-- The fields that are always written. -/
def requiredFields (d : NormalizedDeploy) : List (String × Value Int String) :=
  [("launchpad", .string d.launchpad.serialize),
    ("token", .string d.token.serialize),
    ("deployer", .string d.deployer.serialize),
    ("block_number", .number d.blockNumber.toNat),
    ("block_timestamp", .number d.blockTimestamp.toNat),
    ("tx_hash", .string d.txHash.serialize),
    ("log_index", .number d.logIndex.toNat)]

/-- `skip_serializing_if = "Option::is_none"` -/
def supplyField (d : NormalizedDeploy) : List (String × Value Int String) :=
  match d.initialSupply with
  | none => []
  | some supply => [("initial_supply", .string supply.serialize)]

/-- `skip_serializing_if = "serde_json::Value::is_null"` -/
def rawField (d : NormalizedDeploy) : List (String × Value Int String) :=
  if d.raw.isNull then [] else [("raw", d.raw.toValue)]

def serialize (d : NormalizedDeploy) : List (String × Value Int String) :=
  d.requiredFields ++ d.supplyField ++ d.rawField

end NormalizedDeploy

/-- The bytes of a text. -/
def utf8 (text : String) : Bytes := text.toUTF8.data.toList

/-- `serde_json::to_vec(deploy)` -/
def NormalizedDeploy.toVec (d : NormalizedDeploy) : Bytes :=
  utf8 (String.ofList (Lib.Json.write (.object d.serialize)))

/-- The extras that the four layouts produce. -/
inductive DecodedRaw : Json → Prop where
  | layout (name : String) : DecodedRaw (.object [("layout", .string name)])
  | salted (name salt : String) :
      DecodedRaw (.object [("layout", .string name), ("salt", .string salt)])

theorem DecodedRaw.not_null {raw : Json} (h : DecodedRaw raw) : raw.isNull = false := by
  cases h <;> rfl

theorem DecodedRaw.distinct {raw : Json} (h : DecodedRaw raw) : raw.toValue.Distinct := by
  cases h with
  | layout name => exact ⟨List.nodup_singleton _, trivial, trivial⟩
  | salted name salt =>
      have hkeys : ["layout", "salt"].Nodup := by decide
      exact ⟨hkeys, trivial, trivial, trivial⟩

theorem decodeLayout_raw {launchpad : Launchpad} {topics : List B256} {data : Bytes}
    {out : DecodeOut} (h : decodeLayout launchpad topics data = .ok out) :
    DecodedRaw out.2.2.2 := by
  cases launchpad with
  | clanker =>
      obtain ⟨⟨token, deployer⟩, -, hrest⟩ := bind_eq_ok h
      obtain ⟨supply, -, hlast⟩ := bind_eq_ok hrest
      obtain rfl := Except.ok.inj hlast
      exact .layout _
  | flaunch =>
      obtain ⟨⟨token, deployer⟩, -, hlast⟩ := bind_eq_ok h
      obtain rfl := Except.ok.inj hlast
      exact .salted _ _
  | bankr | zora =>
      obtain ⟨⟨token, deployer⟩, -, hlast⟩ := bind_eq_ok h
      obtain rfl := Except.ok.inj hlast
      exact .layout _

theorem decodeDeploy_spec {launchpad : Launchpad} {log : Log} {d : NormalizedDeploy}
    (h : decodeDeploy launchpad log = .ok d) : d.launchpad = launchpad ∧ DecodedRaw d.raw := by
  obtain ⟨blockNumber, -, h⟩ := bind_eq_ok h
  obtain ⟨txHash, -, h⟩ := bind_eq_ok h
  obtain ⟨logIndex, -, h⟩ := bind_eq_ok h
  obtain ⟨⟨token, deployer, supply, raw⟩, hlayout, h⟩ := bind_eq_ok h
  obtain rfl := Except.ok.inj h
  exact ⟨rfl, decodeLayout_raw hlayout⟩

/-- The fields of a deploy have different names, whichever are left out. -/
theorem NormalizedDeploy.serialize_distinct {d : NormalizedDeploy} (h : d.raw.toValue.Distinct) :
    (Value.object d.serialize : Value Int String).Distinct := by
  cases hsupply : d.initialSupply with
  | none | some _ =>
      cases hraw : d.raw.isNull with
      | true | false =>
          simp [serialize, requiredFields, supplyField, rawField, hsupply, hraw, h, Value.Distinct,
            Lib.Json.DistinctFields]

end ShadeIndexer.Core
