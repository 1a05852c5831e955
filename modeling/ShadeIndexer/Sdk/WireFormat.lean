import ShadeIndexer.Core.Serialize
import ShadeIndexer.Kafka.Producer
import ShadeIndexer.Lib.Binary64
import ShadeIndexer.Sdk.Client

/-!
The payload between the Kafka producer and the SDK. What the producer writes of
a decoded deploy is read by the SDK as the same deploy.
-/

namespace ShadeIndexer.Sdk

open ShadeIndexer.Core (Bytes Log NormalizedDeploy U256 decodeDeploy utf8)
open Lib (F64)
open Lib.Json (Units utf16 readBack readBackFields)

/-- `Number.MAX_SAFE_INTEGER` -/
def MAX_SAFE_INTEGER : Nat := 2 ^ 53 - 1

/-- `JSON.parse`. The text of the error is left out. -/
def jsonParse (text : String) : Except Unit JsValue :=
  match Lib.Json.read Lib.Binary64.nearest text.toList with
  | some v => .ok v
  | none => .error ()

/-- How the callback of a stream reads a payload. -/
def deployCodec {ε : Type} (bufferToString : Bytes → String)
    (safeParse : Schema → Option JsValue → Except ε (Option JsValue)) :
    Codec JsValue Unit ε (Option JsValue) where
  toString := bufferToString
  jsonParse := jsonParse
  safeParse v := safeParse Deploy (some v)

theorem utf16_append (s t : String) : utf16 (s ++ t) = utf16 s ++ utf16 t := by
  simp [utf16]

theorem hexDigit_unit : ∀ n < 16,
    ((Lib.Json.encodeChar (Lib.Hex.digit n)).length = 1) ∧
      (Lib.Json.encodeChar (Lib.Hex.digit n)).all isHexUnit = true := by
  decide

theorem encode_units (bytes : Bytes) :
    (utf16 (Lib.Hex.encode bytes)).length = 2 * bytes.length ∧
      (utf16 (Lib.Hex.encode bytes)).all isHexUnit = true := by
  unfold utf16 Lib.Hex.encode
  rw [String.toList_ofList]
  induction bytes with
  | nil => exact ⟨rfl, rfl⟩
  | cons b rest ih =>
      have hhigh := hexDigit_unit (b.toNat / 16) (by have := b.toNat_lt; omega)
      have hlow := hexDigit_unit (b.toNat % 16) (by omega)
      simp only [List.flatMap_cons, List.flatMap_append, List.flatMap_nil, List.length_append,
        List.all_append, List.append_nil, List.length_cons, hhigh, hlow, ih]
      exact ⟨by omega, rfl⟩

/-- The text of an address or a hash has the form its schema asks for. -/
theorem hexPattern_serialize {n : Nat} (b : Core.FixedBytes n) :
    hexPattern (2 * n) (utf16 b.serialize) = true := by
  obtain ⟨hlength, hall⟩ := encode_units b.bytes
  have hprefix : utf16 "0x" = [0x30, 0x78] := by decide
  rw [Core.FixedBytes.serialize, utf16_append, hprefix]
  rw [List.cons_append, List.cons_append, List.nil_append, hexPattern, hlength, b.size, hall]
  simp

/-- What the SDK reads from the object that the producer writes. -/
def written (d : NormalizedDeploy) : List (Units × JsValue) :=
  readBackFields Lib.Binary64.nearest d.serialize

theorem written_lookup (d : NormalizedDeploy) (key : String) :
    (written d).lookup (utf16 key) =
      (d.serialize.lookup key).map (readBack Lib.Binary64.nearest) :=
  Lib.Json.lookup_mapFields Lib.Json.utf16_injective d.serialize key

theorem nearest_safe {x : UInt64} (h : x.toNat ≤ MAX_SAFE_INTEGER) :
    Lib.Binary64.nearest ((x.toNat : Int) : ℚ) = .finite (x.toNat : ℚ) := by
  rw [Lib.Binary64.nearest_intCast]
  · simp
  · rw [MAX_SAFE_INTEGER] at h
    rw [Int.natAbs_natCast]
    omega

/-- The data of the deploy in an object of the SDK. -/
structure Carries (d : NormalizedDeploy) (data : List (Units × JsValue)) : Prop where
  launchpad : data.lookup (utf16 "launchpad") = some (.string (utf16 d.launchpad.asStr))
  token : data.lookup (utf16 "token") = some (.string (utf16 d.token.serialize))
  deployer : data.lookup (utf16 "deployer") = some (.string (utf16 d.deployer.serialize))
  blockNumber :
    data.lookup (utf16 "block_number") = some (.number (.finite d.blockNumber.toNat))
  blockTimestamp :
    data.lookup (utf16 "block_timestamp") = some (.number (.finite d.blockTimestamp.toNat))
  txHash : data.lookup (utf16 "tx_hash") = some (.string (utf16 d.txHash.serialize))
  logIndex : data.lookup (utf16 "log_index") = some (.number (.finite d.logIndex.toNat))
  initialSupply :
    data.lookup (utf16 "initial_supply") =
      d.initialSupply.map fun supply => .string (utf16 supply.serialize)
  raw : data.lookup (utf16 "raw") = some (readBack Lib.Binary64.nearest d.raw.toValue)

/-- The numbers of a deploy that JavaScript represents exactly. -/
structure Safe (d : NormalizedDeploy) : Prop where
  blockNumber : d.blockNumber.toNat ≤ MAX_SAFE_INTEGER
  blockTimestamp : d.blockTimestamp.toNat ≤ MAX_SAFE_INTEGER
  logIndex : d.logIndex.toNat ≤ MAX_SAFE_INTEGER

theorem written_carries {d : NormalizedDeploy} (hsafe : Safe d) (hraw : d.raw.isNull = false) :
    Carries d (written d) := by
  have hlaunchpad : d.launchpad.serialize = d.launchpad.asStr := by
    cases d.launchpad <;> rfl
  have hsupply : d.serialize.lookup "initial_supply" =
      d.initialSupply.map fun supply => .string supply.serialize := by
    cases hsome : d.initialSupply <;>
      simp [NormalizedDeploy.serialize, NormalizedDeploy.requiredFields,
        NormalizedDeploy.supplyField, NormalizedDeploy.rawField, hsome, hraw, List.lookup_cons]
  have hextras : d.serialize.lookup "raw" = some d.raw.toValue := by
    cases hsome : d.initialSupply <;>
      simp [NormalizedDeploy.serialize, NormalizedDeploy.requiredFields,
        NormalizedDeploy.supplyField, NormalizedDeploy.rawField, hsome, hraw, List.lookup_cons]
  constructor
  case initialSupply =>
    rw [written_lookup, hsupply, Option.map_map]
    rfl
  case raw =>
    rw [written_lookup, hextras]
    rfl
  case launchpad =>
    rw [written_lookup, ← hlaunchpad]
    rfl
  case token | deployer | txHash =>
    rw [written_lookup]
    rfl
  case blockNumber =>
    rw [written_lookup, ← nearest_safe hsafe.blockNumber]
    rfl
  case blockTimestamp =>
    rw [written_lookup, ← nearest_safe hsafe.blockTimestamp]
    rfl
  case logIndex =>
    rw [written_lookup, ← nearest_safe hsafe.logIndex]
    rfl

theorem unsigned_parses (n : Nat) :
    Parses (.number [.int, .nonnegative]) (some (.number (.finite n)))
      (some (.number (.finite n))) := by
  apply Parses.number (by simp)
  intro c hc
  cases c with
  | int => simp [NumberCheck.test]
  | nonnegative => simp [NumberCheck.test]

theorem hex_parses {n : Nat} (b : Core.FixedBytes n) (message : String) :
    Parses (.string [.regex (hexPattern (2 * n)) message]) (some (.string (utf16 b.serialize)))
      (some (.string (utf16 b.serialize))) := by
  apply Parses.string
  intro c hc
  obtain rfl := List.mem_singleton.mp hc
  exact hexPattern_serialize b

theorem supply_parses (supply : Option U256) :
    Parses (.optional (.nullable (.string [])))
      (supply.map fun supply => .string (utf16 supply.serialize))
      (supply.map fun supply => .string (utf16 supply.serialize)) := by
  cases supply with
  | none => exact .undefined
  | some supply =>
      apply Parses.defined
      apply Parses.notNull
      · simp
      · exact .string (by simp)

/-- The schema names every property that is written, in the same order. -/
theorem keep_written {d : NormalizedDeploy} (hraw : d.raw.isNull = false) :
    keep Deploy.shape (written d) = written d := by
  simp only [keep, Deploy.shape, List.foldr_cons, List.foldr_nil, written_lookup]
  cases hsome : d.initialSupply <;>
    simp [written, NormalizedDeploy.serialize, NormalizedDeploy.requiredFields,
      NormalizedDeploy.supplyField, NormalizedDeploy.rawField, hsome, hraw, attach,
      Lib.Json.mapFields, List.lookup_cons]

theorem written_parses {d : NormalizedDeploy} (hsafe : Safe d) (hraw : d.raw.isNull = false) :
    Parses Deploy (some (.object (written d))) (some (.object (written d))) := by
  have h := written_carries hsafe hraw
  have hmember : d.launchpad.asStr ∈ Launchpad.options := by
    cases d.launchpad <;> decide
  have hsame : ∀ property ∈ Deploy.shape,
      Parses property.2 ((written d).lookup (utf16 property.1))
        ((written d).lookup (utf16 property.1)) := by
    simp only [Deploy.shape, List.forall_mem_cons, List.not_mem_nil, false_imp_iff,
      implies_true, and_true, h.launchpad, h.token, h.deployer, h.blockNumber, h.blockTimestamp,
      h.txHash, h.logIndex, h.initialSupply, h.raw]
    exact ⟨.enum hmember, hex_parses d.token _, hex_parses d.deployer _, unsigned_parses _,
      unsigned_parses _, hex_parses d.txHash _, unsigned_parses _, supply_parses _,
      .defined .unknown⟩
  have hshape := ParsesShape.same hsame
  rw [keep_written hraw] at hshape
  exact .object hshape

theorem jsonParse_written {d : NormalizedDeploy} (hraw : d.raw.toValue.Distinct) :
    jsonParse (String.ofList (Lib.Json.write (.object d.serialize))) =
      .ok (.object (written d)) := by
  have hread := Lib.Json.read_write Lib.Binary64.nearest (.object d.serialize)
    (NormalizedDeploy.serialize_distinct hraw)
  rw [jsonParse, String.toList_ofList, hread]
  rfl

/-- The launchpad of the SDK that a launchpad of the indexer is. -/
def sdkLaunchpad (launchpad : Core.Launchpad) : Launchpad :=
  ⟨launchpad.asStr, by cases launchpad <;> decide⟩

theorem topic_listed (launchpad : Core.Launchpad) :
    launchpad.topic ∈ allTopics [sdkLaunchpad launchpad] := by
  cases launchpad <;> decide

/-- The key is the text that the payload has for the token. -/
theorem record_key (d : NormalizedDeploy) (payload : Bytes) :
    (Kafka.record d payload).key = d.token.serialize := rfl

/-- Whatever log the indexer decodes, the SDK reads the record that the producer
sends for it as the same deploy, on a topic of its launchpad and under the text
of its token. -/
theorem wire_format_agrees {ε : Type} (bufferToString : Bytes → String)
    (safeParse : Schema → Option JsValue → Except ε (Option JsValue))
    (hbuffer : ∀ text, bufferToString (utf8 text) = text)
    (hzod : ∀ t v out, Parses t v out → safeParse t v = .ok out)
    (launchpad : Core.Launchpad) (log : Log) {d : NormalizedDeploy}
    (hdecode : decodeDeploy launchpad log = .ok d)
    (hblockNumber : d.blockNumber.toNat ≤ MAX_SAFE_INTEGER)
    (hblockTimestamp : d.blockTimestamp.toNat ≤ MAX_SAFE_INTEGER)
    (hlogIndex : d.logIndex.toNat ≤ MAX_SAFE_INTEGER) :
    ∃ data,
      (deployCodec bufferToString safeParse).parse
          (bufferToString (Kafka.record d d.toVec).payload) = .ok (some (.object data)) ∧
        d.launchpad = launchpad ∧
        Carries d data ∧
        (Kafka.record d d.toVec).topic ∈ allTopics [sdkLaunchpad launchpad] ∧
        data.lookup (utf16 "token") = some (.string (utf16 (Kafka.record d d.toVec).key)) := by
  obtain ⟨rfl, hraw⟩ := Core.decodeDeploy_spec hdecode
  have hsafe : Safe d := ⟨hblockNumber, hblockTimestamp, hlogIndex⟩
  have hcarries := written_carries hsafe hraw.not_null
  refine ⟨written d, ?_, rfl, hcarries, topic_listed d.launchpad, ?_⟩
  · have htext : bufferToString (Kafka.record d d.toVec).payload =
        String.ofList (Lib.Json.write (.object d.serialize)) := hbuffer _
    have hjson := jsonParse_written hraw.distinct
    have hschema := hzod _ _ _ (written_parses hsafe hraw.not_null)
    simp only [htext, deployCodec, Codec.parse, hjson, hschema]
  · rw [record_key]
    exact hcarries.token

mutual

def Schema.safeParse : Schema → Option JsValue → Except Unit (Option JsValue)
  | .enum options, v =>
    match v with
    | some (.string s) => if s ∈ options.map utf16 then .ok (some (.string s)) else .error ()
    | _ => .error ()
  | .string checks, v =>
    match v with
    | some (.string s) =>
      if checks.all (StringCheck.test s) then .ok (some (.string s)) else .error ()
    | _ => .error ()
  | .number checks, v =>
    match v with
    | some (.number x) =>
      if x ≠ .nan ∧ checks.all (NumberCheck.test x) then .ok (some (.number x)) else .error ()
    | _ => .error ()
  | .unknown, v => .ok v
  | .nullable inner, v =>
    match v with
    | some .null => .ok (some .null)
    | v => inner.safeParse v
  | .optional inner, v =>
    match v with
    | none => .ok none
    | some v => inner.safeParse (some v)
  | .object shape, v =>
    match v with
    | some (.object fields) => (safeParseShape shape fields).map fun data => some (.object data)
    | _ => .error ()

def safeParseShape : List (String × Schema) → List (Units × JsValue) →
    Except Unit (List (Units × JsValue))
  | [], _ => .ok []
  | (key, t) :: shape, fields => do
      let out ← t.safeParse (fields.lookup (utf16 key))
      let data ← safeParseShape shape fields
      pure (attach key out data)

end

mutual

theorem safeParse_of_parses : ∀ {t : Schema} {v out : Option JsValue}, Parses t v out →
    t.safeParse v = .ok out
  | _, _, _, .enum h => by
      have hmem := List.mem_map_of_mem (f := utf16) h
      rw [Schema.safeParse, if_pos hmem]
  | _, _, _, .string h => by rw [Schema.safeParse, if_pos (List.all_eq_true.mpr h)]
  | _, _, _, .number hx h => by rw [Schema.safeParse, if_pos ⟨hx, List.all_eq_true.mpr h⟩]
  | _, _, _, .unknown => rfl
  | _, _, _, .null => rfl
  | _, _, _, .notNull hv h => by
      rw [Schema.safeParse]
      · exact safeParse_of_parses h
      · exact hv
  | _, _, _, .undefined => rfl
  | _, _, _, .defined h => by
      rw [Schema.safeParse]
      exact safeParse_of_parses h
  | _, _, _, .object h => by
      rw [Schema.safeParse, safeParseShape_of_parses h]
      rfl

theorem safeParseShape_of_parses : ∀ {shape : List (String × Schema)}
    {fields data : List (Units × JsValue)}, ParsesShape shape fields data →
      safeParseShape shape fields = .ok data
  | _, _, _, .nil => rfl
  | _, _, _, .cons h hrest => by
      rw [safeParseShape, safeParse_of_parses h, safeParseShape_of_parses hrest]
      rfl

end

/-- `Buffer.toString` on the bytes of a text, and the empty text on others. -/
def textOfBytes (bytes : Bytes) : String := (String.fromUTF8? ⟨bytes.toArray⟩).getD ""

theorem textOfBytes_utf8 (text : String) : textOfBytes (utf8 text) = text := by
  have hbytes : (⟨(utf8 text).toArray⟩ : ByteArray) = text.toUTF8 := by
    rw [utf8, Array.toArray_toList]
  have hdecoded : String.fromUTF8? text.toUTF8 = some text := dif_pos text.isValidUTF8
  rw [textOfBytes, hbytes, hdecoded, Option.getD_some]

/-- The log of a launch with a supply of a million. -/
def clankerLog : Log where
  address := Core.Address.ZERO
  topics :=
    [Core.FixedBytes.repeatByte 32 0xaa,
      Core.Address.intoWord (Core.FixedBytes.repeatByte 20 0x11),
      Core.Address.intoWord (Core.FixedBytes.repeatByte 20 0x22)]
  data := List.replicate 29 0 ++ [0x0f, 0x42, 0x40]
  blockNumber := some 1
  blockTimestamp := some 1700000000
  transactionHash := some (Core.FixedBytes.repeatByte 32 0xbb)
  logIndex := some 0
  removed := false

def clankerDeploy : NormalizedDeploy where
  launchpad := .clanker
  token := Core.FixedBytes.repeatByte 20 0x11
  deployer := Core.FixedBytes.repeatByte 20 0x22
  blockNumber := 1
  blockTimestamp := 1700000000
  txHash := Core.FixedBytes.repeatByte 32 0xbb
  logIndex := 0
  initialSupply := some 1000000
  raw := .object [("layout", .string "TokenCreated")]

theorem clankerLog_decodes : decodeDeploy .clanker clankerLog = .ok clankerDeploy := by
  rfl

theorem wire_format_agrees_clanker :
    ∃ data,
      (deployCodec textOfBytes Schema.safeParse).parse
          (textOfBytes (Kafka.record clankerDeploy clankerDeploy.toVec).payload) =
          .ok (some (.object data)) ∧
        data.lookup (utf16 "initial_supply") = some (.string (utf16 "0xf4240")) := by
  obtain ⟨data, hparse, -, hcarries, -⟩ := wire_format_agrees textOfBytes Schema.safeParse
    textOfBytes_utf8 (fun _ _ _ => safeParse_of_parses) .clanker clankerLog clankerLog_decodes
    (by decide) (by decide) (by decide)
  exact ⟨data, hparse, hcarries.initialSupply⟩

end ShadeIndexer.Sdk
