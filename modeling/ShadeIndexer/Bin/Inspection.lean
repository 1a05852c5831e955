import ShadeIndexer.Bin.InspectConfig
import ShadeIndexer.Core.Payload
import ShadeIndexer.Core.Precedence
import ShadeIndexer.Lib.JsonPretty

/-!
The text that `inspect-config` prints, and what it tells about an indexer with
that configuration: all but the credentials of the database. In particular it
tells which logs the indexer asks for and what it makes of them.
-/

namespace ShadeIndexer.Bin.InspectConfig

open ShadeIndexer.Core FactoryRegistry Lib.Json

def FactorySummary.serialize (s : FactorySummary) : Value Int String :=
  .object [("launchpad", .string s.launchpad), ("address", .string s.address),
    ("event_topic", .string s.eventTopic)]

def serializeOption : Option String → Value Int String
  | none => .null
  | some text => .string text

def Inspection.serialize (i : Inspection) : Value Int String :=
  .object [("config_path", .string i.configPath), ("rpc_ws_url", .string i.rpcWsUrl),
    ("rpc_http_url", serializeOption i.rpcHttpUrl), ("kafka_brokers", .string i.kafkaBrokers),
    ("kafka_transactional_id", .string i.kafkaTransactionalId),
    ("postgres_url_redacted", .string i.postgresUrlRedacted),
    ("metrics_bind", .string i.metricsBind),
    ("factories", .array (i.factories.map FactorySummary.serialize))]

/-- `serde_json::to_string_pretty(&inspection)` -/
def Inspection.text (i : Inspection) : List Char := pretty 0 i.serialize

theorem FactorySummary.serialize_injective : Function.Injective FactorySummary.serialize := by
  rintro ⟨launchpad, address, eventTopic⟩ ⟨launchpad', address', eventTopic'⟩ h
  simpa [FactorySummary.serialize] using h

theorem serializeOption_injective : Function.Injective serializeOption := by
  intro o o' h
  cases o with
  | none =>
      cases o' with
      | none => rfl
      | some text' => cases h
  | some text =>
      cases o' with
      | none => cases h
      | some text' => rw [Value.string.inj h]

theorem Inspection.serialize_injective : Function.Injective Inspection.serialize := by
  rintro ⟨path, ws, http, brokers, transactional, postgres, metrics, factories⟩
    ⟨path', ws', http', brokers', transactional', postgres', metrics', factories'⟩ h
  simp only [Inspection.serialize, Value.object.injEq, List.cons.injEq, Prod.mk.injEq,
    Value.string.injEq, Value.array.injEq, true_and, and_true] at h
  obtain ⟨rfl, rfl, hhttp, rfl, rfl, rfl, rfl, hfactories⟩ := h
  rw [serializeOption_injective hhttp,
    FactorySummary.serialize_injective.list_map hfactories]

theorem distinct_factories (factories : List FactorySummary) :
    DistinctItems (factories.map FactorySummary.serialize) := by
  induction factories with
  | nil => trivial
  | cons s rest ih =>
      have hkeys : ["launchpad", "address", "event_topic"].Nodup := by decide
      exact ⟨⟨hkeys, trivial, trivial, trivial, trivial⟩, ih⟩

theorem Inspection.serialize_distinct (i : Inspection) : i.serialize.Distinct := by
  have hkeys : ["config_path", "rpc_ws_url", "rpc_http_url", "kafka_brokers",
      "kafka_transactional_id", "postgres_url_redacted", "metrics_bind", "factories"].Nodup := by
    decide
  have hhttp : (serializeOption i.rpcHttpUrl).Distinct := by
    cases i.rpcHttpUrl <;> trivial
  exact ⟨hkeys, trivial, trivial, hhttp, trivial, trivial, trivial, trivial,
    distinct_factories i.factories, trivial⟩

end ShadeIndexer.Bin.InspectConfig
