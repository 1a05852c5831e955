import ShadeIndexer.Bin.Publication
import ShadeIndexer.Lib.Redelivery
import ShadeIndexer.Sdk.Fifo
import ShadeIndexer.Sdk.WireFormat

/-!
From the logs of the node to the consumer of the SDK. The stream reads records
of the committed log. Those that share a topic and a key are in one partition,
which is read in order. After a rebalance or a restart of its consumer the
partition is read from the committed offset again, which may be behind what was
already delivered.
-/

namespace ShadeIndexer.Sdk

open ShadeIndexer.Core (Bytes NormalizedDeploy FactoryRegistry decodeDeploy zoraOnly)
open ShadeIndexer.Kafka (Publication Record recordOf visibleRecords)
open ShadeIndexer.Bin (Capacities Indexer unitCapacities)
open ShadeIndexer.Enrich (Database)
open Lib.Redelivery Lib.Transition

def Action.payload? : Action → Option Bytes
  | .message value => value
  | _ => none

/-- The messages of a run are records of the log, given by their offsets. In each
partition the new ones come in order, and the others have come before. -/
structure Delivered (log : List Record) (fed : List (Fin log.length)) (actions : List Action) :
    Prop where
  messages : actions.filterMap Action.payload? = fed.map fun i => log[i].payload
  resuming : Resuming (fun i j => log[i].topic = log[j].topic ∧ log[i].key = log[j].key) fed

section

variable {JsonValue SyntaxError ZodError Deploy : Type}
  {codec : Codec JsonValue SyntaxError ZodError Deploy}

theorem payload_none {action : Action} (h : action.payload? = none) :
    validDeploys codec action = [] ∧ parseErrors codec action = [] := by
  cases action with
  | message value =>
      obtain rfl : value = none := h
      exact ⟨rfl, rfl⟩
  | next | connected | subscribed | running | setupFailed | resumed | delivered | close
  | closeReturned => exact ⟨rfl, rfl⟩

theorem payload_valid {action : Action} {bytes : Bytes} {d : Deploy}
    (h : action.payload? = some bytes) (hparse : codec.parse (codec.toString bytes) = .ok d) :
    validDeploys codec action = [d] ∧ parseErrors codec action = [] := by
  cases action with
  | message value =>
      obtain rfl : value = some bytes := h
      simp [validDeploys, parseErrors, hparse]
  | next | connected | subscribed | running | setupFailed | resumed | delivered | close
  | closeReturned => cases h

/-- Messages that are all valid are passed on and none is reported. -/
theorem messages_valid {α : Type} {actions : List Action} {items : List α}
    {payload : α → Bytes} {value : α → Deploy}
    (hitems : actions.filterMap Action.payload? = items.map payload)
    (hvalid : ∀ a ∈ items, codec.parse (codec.toString (payload a)) = .ok (value a)) :
    actions.flatMap (validDeploys codec) = items.map value ∧
      actions.flatMap (parseErrors codec) = [] := by
  induction actions generalizing items with
  | nil =>
      obtain rfl := List.map_eq_nil_iff.mp hitems.symm
      exact ⟨rfl, rfl⟩
  | cons action rest ih =>
      rw [List.flatMap_cons, List.flatMap_cons]
      cases hpayload : action.payload? with
      | none =>
          rw [List.filterMap_cons_none hpayload] at hitems
          obtain ⟨hvalues, herrors⟩ := ih hitems hvalid
          obtain ⟨hnone, hnone'⟩ : validDeploys codec action = [] ∧ parseErrors codec action = [] :=
            payload_none hpayload
          rw [hnone, hnone', hvalues, herrors]
          exact ⟨rfl, rfl⟩
      | some bytes =>
          rw [List.filterMap_cons_some hpayload] at hitems
          obtain ⟨a, later, rfl, rfl, hlater⟩ := List.map_eq_cons_iff.mp hitems.symm
          obtain ⟨hvalues, herrors⟩ :=
            ih hlater.symm fun b hb => hvalid b (List.mem_cons_of_mem _ hb)
          obtain ⟨hone, hnone⟩ := payload_valid hpayload (hvalid a (List.mem_cons_self ..))
          rw [hone, hnone, hvalues, herrors]
          exact ⟨rfl, rfl⟩

/-- A consumer that receives takes every message. -/
theorem Stream.run_messages (codec : Codec JsonValue SyntaxError ZodError Deploy)
    (s : Stream SyntaxError ZodError Deploy) (values : List (Option Bytes))
    (hreceiving : s.receiving = true) :
    ∃ t, run (Stream.step codec) s (values.map .message) = some t := by
  induction values generalizing s with
  | nil => exact ⟨s, rfl⟩
  | cons value rest ih =>
      have hstill : (s.eachMessage codec value).receiving = true := by
        unfold eachMessage push
        split
        · exact hreceiving
        · dsimp only
          split
          · split <;> exact hreceiving
          · split <;> exact hreceiving
      obtain ⟨t, ht⟩ := ih _ hstill
      have hstep : Stream.step codec s (.message value) = some (s.eachMessage codec value) := by
        simp [Stream.step, hreceiving]
      refine ⟨t, ?_⟩
      rw [List.map_cons, run, hstep]
      exact ht

/-- What a stream has passed on and what it has reported. -/
theorem Stream.run_passes {client : IndexerClient} {actions : List Action}
    {t : Stream SyntaxError ZodError Deploy}
    (hrun : run (Stream.step codec) client.stream actions = some t) :
    t.yielded ++ t.held ++ t.queue = actions.flatMap (validDeploys codec) ∧
      (actions.flatMap (parseErrors codec) = [] → t.reported = []) := by
  have hflow := run_output Stream.Handover Stream.flow (validDeploys codec)
    (fun _ _ _ hinv hstep => Stream.step_handover hinv hstep) (Stream.stream_handover client) hrun
  refine ⟨hflow, ?_⟩
  intro hnone
  have hreported := run_output (fun u => u.client = client) Stream.reported
    (fun a => if client.opts.onParseError then parseErrors codec a else [])
    (fun u a next hinv hstep => by
      obtain ⟨hclient, hreported⟩ := Stream.step_reported hstep
      exact ⟨hclient.trans hinv, by rw [hreported, hinv]⟩)
    rfl hrun
  rw [hreported]
  cases client.opts.onParseError with
  | true =>
      simp only [if_true, hnone]
      rfl
  | false => simp [IndexerClient.stream]

end

/-- A deploy as the consumer gets it. -/
def consumed (d : NormalizedDeploy) : Option JsValue := some (.object (written d))

section

variable {ε : Type} {bufferToString : Bytes → String}
  {safeParse : Schema → Option JsValue → Except ε (Option JsValue)}

/-- The SDK reads the record of a deploy that was decoded from a log. -/
theorem parse_recordOf (hbuffer : ∀ text, bufferToString (Core.utf8 text) = text)
    (hzod : ∀ t v out, Parses t v out → safeParse t v = .ok out) {d : NormalizedDeploy}
    (hsafe : Safe d) (hraw : Core.DecodedRaw d.raw) :
    (deployCodec bufferToString safeParse).parse (bufferToString (recordOf d).payload) =
      .ok (consumed d) := by
  have htext : bufferToString (recordOf d).payload =
      String.ofList (Lib.Json.write (.object d.serialize)) := hbuffer _
  have hjson := jsonParse_written hraw.distinct
  have hschema := hzod _ _ _ (written_parses hsafe hraw.not_null)
  simp only [htext, deployCodec, Codec.parse, hjson, hschema]
  rfl

end

/-- An announced deploy was decoded. -/
theorem decoded_of_announced {s : Indexer} {d : NormalizedDeploy} (h : d ∈ s.announced) :
    Core.DecodedRaw d.raw := by
  obtain ⟨log, -, hdeploy⟩ := List.mem_filterMap.mp h
  obtain ⟨topic0, launchpad, -, -, hdecode⟩ := Core.deployOf_decodes hdeploy
  exact (Core.decodeDeploy_spec hdecode).2

/-- The two announcements are of one launchpad and one token. -/
def SameToken (announced : List NormalizedDeploy) (i j : Fin announced.length) : Prop :=
  announced[i].launchpad = announced[j].launchpad ∧ announced[i].token = announced[j].token

/-- Every record that consumers see is that of an announcement, and the records
are in the order of the announcements. -/
theorem places_of_visible {caps : Capacities} {db : Database} {reg : FactoryRegistry}
    {indexing : List Indexer.Action} {s : Indexer} (hserializes : Indexer.Serializing indexing)
    (hrun : run Indexer.step (Indexer.launch caps db reg) indexing = some s) :
    ∃ place : Fin s.pipeline.broker.visible.length → Fin s.announced.length,
      StrictMono place ∧ ∀ i, s.pipeline.broker.visible[i] = recordOf s.announced[place i] := by
  obtain ⟨log, hlog, hprefix⟩ := Indexer.run_published hserializes hrun
  have hcommitted : List.Sublist ((log.filter Publication.committed).map Publication.deploy)
      s.announced := (List.filter_sublist.map _).trans hprefix.sublist
  have hvisible : List.Sublist s.pipeline.broker.visible (s.announced.map recordOf) := by
    rw [hlog.visible, visibleRecords, ← Function.comp_def, ← List.map_map]
    exact hcommitted.map recordOf
  obtain ⟨place, hmono, hplace⟩ := places_of_sublist hvisible
  refine ⟨fun i => (place i).cast (List.length_map _), fun i j hij => hmono hij, ?_⟩
  intro i
  rw [← hplace]
  simp

/-- Of one token and launchpad, what is told once is told in the order of the
announcements. -/
theorem sublist_of_token {announced : List NormalizedDeploy}
    {places : List (Fin announced.length)} (h : Resuming (SameToken announced) places)
    (honce : places.Nodup) (launchpad : Core.Launchpad) (token : Core.Address) :
    List.Sublist ((places.map fun i => announced[i]).filter fun d =>
      d.launchpad = launchpad ∧ d.token = token) announced := by
  apply filter_picked_sublist
  apply (h.pairwise honce).imp
  intro i j hordered hi hj
  obtain ⟨hlaunchpad, htoken⟩ := of_decide_eq_true hi
  obtain ⟨hlaunchpad', htoken'⟩ := of_decide_eq_true hj
  exact hordered ⟨hlaunchpad.trans hlaunchpad'.symm, htoken.trans htoken'.symm⟩

/-- Whatever fails and however the tasks on both sides are scheduled, the
consumer of the SDK gets nothing but announced deploys, every field of which is
that of the announcement: one for each record that Kafka delivers. It is never
told of a parse error. Of one token and launchpad, those that it gets for the first
time come in the order of their logs, and it gets one again only if Kafka delivers
a record again. -/
theorem consumer_sees_announcements {ε : Type} (bufferToString : Bytes → String)
    (safeParse : Schema → Option JsValue → Except ε (Option JsValue))
    (hbuffer : ∀ text, bufferToString (Core.utf8 text) = text)
    (hzod : ∀ t v out, Parses t v out → safeParse t v = .ok out)
    (caps : Capacities) (db : Database) (reg : FactoryRegistry) (indexing : List Indexer.Action)
    (s : Indexer) (hserializes : Indexer.Serializing indexing)
    (hrun : run Indexer.step (Indexer.launch caps db reg) indexing = some s)
    (hsafe : ∀ d ∈ s.announced, Safe d)
    (client : IndexerClient) (reading : List Action) (t : Stream Unit ε (Option JsValue))
    (hstream : run (Stream.step (deployCodec bufferToString safeParse)) client.stream reading =
      some t)
    (fed : List (Fin s.pipeline.broker.visible.length))
    (hdelivered : Delivered s.pipeline.broker.visible fed reading) :
    ∃ places : List (Fin s.announced.length), places.length = fed.length ∧
      t.yielded ++ t.held ++ t.queue = places.map (fun i => consumed s.announced[i]) ∧
      t.reported = [] ∧
      (∀ i ∈ places, Carries s.announced[i] (written s.announced[i])) ∧
      Resuming (SameToken s.announced) places ∧
      (fed.Nodup → places.Nodup ∧ ∀ launchpad token, List.Sublist
        ((places.map fun i => s.announced[i]).filter fun d =>
          d.launchpad = launchpad ∧ d.token = token) s.announced) := by
  obtain ⟨place, hplace, hrecord⟩ := places_of_visible hserializes hrun
  have hmember (i : Fin s.announced.length) : s.announced[i] ∈ s.announced := List.getElem_mem _
  have hvalid : ∀ i ∈ fed, (deployCodec bufferToString safeParse).parse
      (bufferToString s.pipeline.broker.visible[i].payload) =
        .ok (consumed s.announced[place i]) := by
    intro i _
    rw [hrecord]
    exact parse_recordOf hbuffer hzod (hsafe _ (hmember _)) (decoded_of_announced (hmember _))
  obtain ⟨hvalues, herrors⟩ := messages_valid hdelivered.messages hvalid
  obtain ⟨hpasses, hsilent⟩ := Stream.run_passes hstream
  have hresuming : Resuming (SameToken s.announced) (fed.map place) := by
    apply hdelivered.resuming.map hplace
    rintro i j ⟨hlaunchpad, htoken⟩
    rw [hrecord, hrecord]
    exact ⟨congrArg Core.Launchpad.topic hlaunchpad, congrArg Core.FixedBytes.serialize htoken⟩
  refine ⟨fed.map place, List.length_map _, ?_, hsilent herrors, ?_, hresuming, ?_⟩
  · rw [hpasses, hvalues, List.map_map]
    rfl
  · intro i _
    exact written_carries (hsafe _ (hmember i)) (decoded_of_announced (hmember i)).not_null
  · intro honce
    have hplaces : (fed.map place).Nodup := honce.map hplace.injective
    exact ⟨hplaces, sublist_of_token hresuming hplaces⟩

/-- One launch, whose record is delivered again. -/
theorem consumer_sees_announcements_redelivered :
    ∃ (s : Indexer) (t : Stream Unit Unit (Option JsValue))
      (places : List (Fin s.announced.length)),
      run Indexer.step (Indexer.launch unitCapacities .empty zoraOnly) Indexer.publishedLaunch =
        some s ∧
      t.yielded ++ t.held ++ t.queue = places.map (fun i => consumed s.announced[i]) ∧
      t.reported = [] ∧ places.length = 2 ∧ Resuming (SameToken s.announced) places := by
  obtain ⟨s, hrun⟩ : ∃ s, run Indexer.step (Indexer.launch unitCapacities .empty zoraOnly)
      Indexer.publishedLaunch = some s := Option.isSome_iff_exists.mp rfl
  have hend : (run Indexer.step (Indexer.launch unitCapacities .empty zoraOnly)
      Indexer.publishedLaunch).map (fun s => (s.pipeline.broker.visible.length, s.announced.map
        fun d => (d.blockNumber, d.blockTimestamp, d.logIndex))) =
      some (1, [(7, 1700000000, 0)]) := rfl
  rw [hrun, Option.map_some, Option.some.injEq, Prod.mk.injEq] at hend
  have hsafe : ∀ d ∈ s.announced, Safe d := by
    intro d hd
    have hmem := List.mem_map_of_mem (f := fun d : NormalizedDeploy =>
      (d.blockNumber, d.blockTimestamp, d.logIndex)) hd
    rw [hend.2, List.mem_singleton, Prod.mk.injEq, Prod.mk.injEq] at hmem
    obtain ⟨hnumber, htimestamp, hindex⟩ := hmem
    exact ⟨by rw [hnumber]; decide, by rw [htimestamp]; decide, by rw [hindex]; decide⟩
  let first : Fin s.pipeline.broker.visible.length := ⟨0, by rw [hend.1]; exact Nat.one_pos⟩
  let message : Action := .message (some s.pipeline.broker.visible[first].payload)
  obtain ⟨t, hstream⟩ : ∃ t, run (Stream.step (deployCodec textOfBytes Schema.safeParse))
      Stream.defaultClient.stream (Stream.setup ++ [message, message]) = some t := by
    have hsetup : (run (Stream.step (deployCodec textOfBytes Schema.safeParse))
        Stream.defaultClient.stream Stream.setup).map Stream.receiving = some true := rfl
    obtain ⟨u, hu, hreceiving⟩ := Option.map_eq_some_iff.mp hsetup
    obtain ⟨t, ht⟩ := Stream.run_messages (deployCodec textOfBytes Schema.safeParse) u
      (List.replicate 2 (some s.pipeline.broker.visible[first].payload)) hreceiving
    exact ⟨t, by rw [run_append, hu]; exact ht⟩
  have hdelivered : Delivered s.pipeline.broker.visible [first, first]
      (Stream.setup ++ [message, message]) := by
    refine ⟨rfl, ?_⟩
    intro before i after hsplit j hj _ _
    have hmem : j ∈ [first, first] := by
      rw [hsplit]
      exact List.mem_append_left _ hj
    have hmem' : i ∈ [first, first] := by
      rw [hsplit]
      simp
    obtain rfl : j = first := by simpa using hmem
    obtain rfl : i = first := by simpa using hmem'
    exact hj
  obtain ⟨places, htwo, hpassed, hreported, -, hresuming, -⟩ :=
    consumer_sees_announcements textOfBytes Schema.safeParse textOfBytes_utf8
      (fun _ _ _ => safeParse_of_parses) unitCapacities .empty zoraOnly Indexer.publishedLaunch s
      Indexer.publishedLaunch_serializes hrun hsafe Stream.defaultClient _ t hstream
      [first, first] hdelivered
  exact ⟨s, t, places, hrun, hpassed, hreported, htwo, hresuming⟩

end ShadeIndexer.Sdk
