import ShadeIndexer.Bin.Ingestion
import ShadeIndexer.Bin.Readiness
import ShadeIndexer.Core.Serialize
import ShadeIndexer.Kafka.Transactions

/-!
The Kafka log of a running indexer. Each publish either adds the record of its
deploy or nothing, and a publish that reports success has added it. A publish
that leaves its transaction open is the last one that adds anything: every later
one is refused, and the readiness answer stays negative.
-/

namespace ShadeIndexer.Kafka

open ShadeIndexer.Core Lib.Transaction

/-- `serde_json::to_vec` is what it is documented to be, and never fails on a
deploy. -/
def CallEnv.Serializes (env : CallEnv) : Prop := ∀ i d, env.toVec i d = .ok d.toVec

/-- The record of a deploy. -/
def recordOf (d : NormalizedDeploy) : Record := record d d.toVec

/-- A publish that has returned: what it returned, and whether consumers of
committed messages see its record. -/
structure Publication where
  deploy : NormalizedDeploy
  ok : Bool
  committed : Bool
  committed_of_ok : ok = true → committed = true

/-- The records that a sequence of publishes leaves visible. -/
def visibleRecords (log : List Publication) : List Record :=
  (log.filter Publication.committed).map fun entry => recordOf entry.deploy

theorem visibleRecords_append (log : List Publication) (entry : Publication) :
    visibleRecords (log ++ [entry]) =
      visibleRecords log ++ if entry.committed then [recordOf entry.deploy] else [] := by
  cases hcommitted : entry.committed <;> simp [visibleRecords, hcommitted]

/-- One publish, whatever the session it starts from. -/
theorem publish_publication (env : CallEnv) (henv : env.Serializes) (d : NormalizedDeploy)
    (s : Broker) :
    ∃ entry : Publication, entry.deploy = d ∧ entry.ok = (publish env d s).1.isOk ∧
      (publish env d s).2.visible =
        s.visible ++ if entry.committed then [recordOf d] else [] := by
  obtain ⟨mark, hcontribution, hvisible⟩ := run_contributes ⟨.publish d, env⟩ s
  have hpayloads : Invocation.payloads ⟨.publish d, env⟩ = [recordOf d] := by
    simp [Invocation.payloads, Invocation.records, Call.deploys, recordsFrom, henv 0 d, recordOf]
  rw [hpayloads] at hvisible
  refine ⟨⟨d, (publish env d s).1.isOk, mark, ?_⟩, rfl, rfl, hvisible⟩
  intro hok
  apply hcontribution.of_ok
  cases hresult : (publish env d s).1 with
  | ok _ => exact hresult
  | error e =>
      rw [hresult] at hok
      cases hok

/-- A publish that finds a transaction open changes nothing and fails. -/
theorem publish_blocked (env : CallEnv) (d : NormalizedDeploy) (s : Broker)
    (h : s.staged.isSome = true) :
    (publish env d s).2 = s ∧ (publish env d s).1.isOk = false := by
  obtain ⟨staged, visible⟩ := s
  cases staged with
  | none => cases h
  | some ms =>
      unfold publish
      cases env.toVec 0 d with
      | error e => exact ⟨rfl, rfl⟩
      | ok payload => exact ⟨rfl, rfl⟩

/-- A publish that leaves a transaction open has failed. -/
theorem publish_open (env : CallEnv) (d : NormalizedDeploy) (s : Broker)
    (h : (publish env d s).2.staged.isSome = true) : (publish env d s).1.isOk = false := by
  have hspec := publish_spec env d s
  generalize (publish env d s).2 = after at hspec h
  generalize (publish env d s).1 = result at hspec ⊢
  generalize Invocation.exit ⟨.publish d, env⟩ s.staged.isSome = exit at hspec
  cases hspec with
  | nothingToDo hcall => cases hcall
  | committed rs hrecords => cases h
  | refused e | unserialized e hcall | leftOpen e left hcall | sendFailed e left habort
  | commitFailed e rs applied closed hrecords hcommit => rfl

end ShadeIndexer.Kafka

namespace ShadeIndexer.Bin

open ShadeIndexer.Core Enrich Kafka Lib.Mpsc Lib.Transition

/-- The deploy whose publish is under way. -/
def ProducerLoop.inHand : ProducerLoop → List NormalizedDeploy
  | .publishing d => [d]
  | _ => []

namespace Pipeline

/-- The publishes that have returned: they are those of the deploys taken from
the channel, and their results are those of the history, behind that of the
producer's initialisation. -/
structure Logged (p : Pipeline) (log : List Publication) : Prop where
  deploys : log.map Publication.deploy ++ p.producer.inHand = p.published
  results : p.history.filterMap Event.kafka? = true :: log.map Publication.ok
  visible : p.broker.visible = visibleRecords log

theorem logged_launch (caps : Capacities) (db : Database) : (launch caps db).Logged [] :=
  ⟨rfl, rfl, rfl⟩

/-- The environments of the publishes of a run serialize. -/
def Serializing (action : Action) : Prop :=
  match action with
  | .producer env => env.Serializes
  | _ => True

theorem logged_step {p next : Pipeline} {action : Action} {log : List Publication}
    (haction : Serializing action) (h : p.Logged log) (hstep : StepSpec p action next) :
    ∃ later, next.Logged (log ++ later) := by
  obtain ⟨hdeploys, hresults, hvisible⟩ := h
  have hnothing (hnext : next.Logged log) : ∃ later, next.Logged (log ++ later) :=
    ⟨[], by rw [List.append_nil]; exact hnext⟩
  have hsilent (event : Event) (hevent : event.kafka? = none) :
      (p.history ++ [event]).filterMap Event.kafka? = true :: log.map Publication.ok := by
    rw [List.filterMap_append, hresults]
    simp [hevent]
  cases hstep with
  | producerReceived hphase hrecv =>
      rw [hphase] at hdeploys
      apply hnothing
      refine ⟨?_, hresults, hvisible⟩
      rw [← hdeploys]
      simp [ProducerLoop.inHand]
  | producerFinished hphase hrecv =>
      rw [hphase] at hdeploys
      exact hnothing ⟨hdeploys, hresults, hvisible⟩
  | @publishReturned d env hphase =>
      obtain ⟨entry, hentry, hok, hrecord⟩ := publish_publication env haction d p.broker
      rw [hphase] at hdeploys
      refine ⟨[entry], ?_, ?_, ?_⟩
      · rw [← hdeploys, List.map_append, List.map_singleton, hentry]
        simp [ProducerLoop.inHand]
      · rw [List.filterMap_append, hresults, List.map_append, List.map_singleton, hok]
        rfl
      · rw [visibleRecords_append, hentry, ← hvisible]
        exact hrecord
  | fanoutReceived hphase hrecv => exact hnothing ⟨hdeploys, hsilent _ rfl, hvisible⟩
  | upsertFailed hphase hrun => exact hnothing ⟨hdeploys, hsilent _ rfl, hvisible⟩
  | upsertReturned hphase hrun => exact hnothing ⟨hdeploys, hsilent _ rfl, hvisible⟩
  | writeReturned hphase => exact hnothing ⟨hdeploys, hsilent _ rfl, hvisible⟩
  | _ => exact hnothing ⟨hdeploys, hresults, hvisible⟩

/-- Along every run the visible log is that of the publishes that have returned. -/
theorem run_logged {caps : Capacities} {db : Database} {actions : List Action} {p : Pipeline}
    (hserializes : ∀ action ∈ actions, Serializing action)
    (hrun : run step (launch caps db) actions = some p) : ∃ log, p.Logged log :=
  run_invariant_of Serializing (fun p => ∃ log, p.Logged log)
    (fun _ _ _ haction hinv hstep => by
      obtain ⟨log, hlog⟩ := hinv
      obtain ⟨later, hlater⟩ := logged_step haction hlog (step_spec hstep)
      exact ⟨log ++ later, hlater⟩)
    hserializes ⟨[], logged_launch caps db⟩ hrun

/-- An open transaction is never behind a positive answer. -/
def Alarmed (p : Pipeline) : Prop :=
  p.broker.staged.isSome = true → p.liveness.kafkaConnected = false

theorem alarmed_step {p next : Pipeline} {action : Action} (h : p.Alarmed)
    (hstep : StepSpec p action next) : next.Alarmed := by
  cases hstep with
  | publishReturned hphase => exact fun hopen => publish_open _ _ _ hopen
  | _ => exact h

theorem run_alarmed {caps : Capacities} {db : Database} {actions : List Action} {p : Pipeline}
    (hrun : run step (launch caps db) actions = some p) : p.Alarmed :=
  run_invariant Alarmed (fun _ _ _ hinv hstep => alarmed_step hinv (step_spec hstep))
    (fun hopen => by cases hopen) hrun

/-- A step from a state with an open transaction leaves the broker as it is. -/
theorem wedged_step {p next : Pipeline} {action : Action} (hopen : p.broker.staged.isSome = true)
    (hstep : StepSpec p action next) : next.broker = p.broker := by
  cases hstep with
  | publishReturned hphase => exact (publish_blocked _ _ _ hopen).1
  | _ => rfl

/-- Once a publish has returned with its transaction open, nothing more is ever
published, whatever librdkafka answers from then on, and `readyz` never answers
`ready` again. -/
theorem open_transaction_wedges (caps : Capacities) (db : Database) (actions : List Action)
    (p : Pipeline) (hrun : run step (launch caps db) actions = some p)
    (hopen : p.broker.staged.isSome = true) (later : List Action) (q : Pipeline)
    (hlater : run step p later = some q) :
    q.broker = p.broker ∧ ∀ clock, (readyz q.liveness clock).2.ready = false := by
  have hwedged : q.broker = p.broker ∧ q.Alarmed :=
    run_invariant (fun r => r.broker = p.broker ∧ r.Alarmed)
      (fun r action next hinv hstep => by
        obtain ⟨hbroker, halarmed⟩ := hinv
        have hspec := step_spec hstep
        have hsame := wedged_step (by rw [hbroker]; exact hopen) hspec
        exact ⟨hsame.trans hbroker, alarmed_step halarmed hspec⟩)
      ⟨rfl, run_alarmed hrun⟩ hlater
  refine ⟨hwedged.1, ?_⟩
  intro clock
  have hdown := hwedged.2 (by rw [hwedged.1]; exact hopen)
  simp [readyz, hdown]

/-- The first publish of a run, whose commit times out, up to its return. -/
def timedOutCommit : List Action :=
  [.accept sampleDeploy, .fanout 1700000000000000000, .fanout 1700000000000000000,
    .fanout 1700000000000000000,
    .producer (sampleEnv true), .producer (sampleEnv true)]

/-- A second publish, which meets no fault at all. -/
def faultlessPublish : List Action :=
  [.accept sampleDeploy, .fanout 1700000001000000000, .fanout 1700000001000000000,
    .producer (sampleEnv false),
    .producer (sampleEnv false)]

theorem open_transaction_wedges_timedOut :
    ∃ p q, run step (launch unitCapacities .empty) timedOutCommit = some p ∧
      run step p faultlessPublish = some q ∧
      q.broker = p.broker ∧ (readyz q.liveness 1700000001000000000).2.ready = false := by
  obtain ⟨q, hboth⟩ : ∃ q, run step (launch unitCapacities .empty)
      (timedOutCommit ++ faultlessPublish) = some q := Option.isSome_iff_exists.mp rfl
  obtain ⟨p, hrun, hlater⟩ := run_split hboth
  have hopen : p.broker.staged.isSome = true := by
    have hleft : (run step (launch unitCapacities .empty) timedOutCommit).any
        (fun p => p.broker.staged.isSome) = true := rfl
    rw [hrun] at hleft
    exact hleft
  obtain ⟨hbroker, hready⟩ := open_transaction_wedges unitCapacities .empty timedOutCommit p hrun
    hopen faultlessPublish q hlater
  exact ⟨p, q, hrun, hlater, hbroker, hready 1700000001000000000⟩

end Pipeline

namespace Indexer

/-- The publishes of a run of the indexer serialize. -/
def Serializing (actions : List Action) : Prop :=
  ∀ env, .task (.producer env) ∈ actions → env.Serializes

theorem serializing_matched {actions : List Action} (h : Serializing actions)
    {abstract : List Bin.Action} (hfrom : ∀ a ∈ abstract, ∃ b ∈ actions, Stands b a) :
    ∀ a ∈ abstract, Pipeline.Serializing a := by
  intro a ha
  obtain ⟨b, hb, hstands⟩ := hfrom a ha
  cases hstands with
  | accepted d | dropped => trivial
  | task t =>
      cases t with
      | fanout clock | worker env => trivial
      | producer env => exact h env hb

/-- The publishes that have returned are those of the first announced deploys. -/
theorem run_published {caps : Capacities} {db : Database} {reg : FactoryRegistry}
    {actions : List Action} {s : Indexer} (hserializes : Serializing actions)
    (hrun : run step (launch caps db reg) actions = some s) :
    ∃ log, s.pipeline.Logged log ∧ log.map Publication.deploy <+: s.announced := by
  obtain ⟨haccounted, abstract, habstract, hfrom⟩ := run_accounted hrun
  obtain ⟨log, hlog⟩ := Pipeline.run_logged (serializing_matched hserializes hfrom) habstract
  refine ⟨log, hlog, ?_⟩
  rw [haccounted.traced.kafka, ← hlog.deploys]
  simp only [List.append_assoc]
  exact List.prefix_append _ _

/-- The committed Kafka log of an indexer: it has gone through a beginning of
the announced deploys in their order, each once, and holds the record of every
deploy but those whose publish has reported an error. -/
theorem committed_log_follows_announcements (caps : Capacities) (db : Database)
    (reg : FactoryRegistry) (actions : List Action) (s : Indexer)
    (hserializes : Serializing actions) (hrun : run step (launch caps db reg) actions = some s) :
    ∃ log : List Publication,
      log.map Publication.deploy <+: s.announced ∧
      s.pipeline.broker.visible = visibleRecords log ∧
      s.pipeline.history.filterMap Event.kafka? = true :: log.map Publication.ok := by
  obtain ⟨log, hlog, hprefix⟩ := run_published hserializes hrun
  exact ⟨log, hprefix, hlog.visible, hlog.results⟩

/-- No operation fails. -/
def faultless : CallEnv where
  toVec := fun _ d => .ok d.toVec
  beginTransaction := none
  send := fun _ => .ok
  abortTransaction := .ok
  commitTransaction := .ok

/-- One launch, from its log to the return of its publish. -/
def publishedLaunch : List Action :=
  [.connected, .subscribed, .log zoraLaunch, .sent, .task (.fanout 1700000000000000000),
    .task (.fanout 1700000000000000000), .task (.producer faultless), .task (.producer faultless)]

theorem publishedLaunch_serializes : Serializing publishedLaunch := by
  intro env henv
  have hfaultless : env = faultless := by simpa [publishedLaunch] using henv
  rw [hfaultless]
  exact fun i d => rfl

theorem committed_log_follows_announcements_oneLaunch :
    ∃ s log, run step (launch unitCapacities .empty zoraOnly) publishedLaunch = some s ∧
      s.pipeline.broker.visible = visibleRecords log ∧ s.pipeline.broker.visible.length = 1 := by
  have hrun : run step (launch unitCapacities .empty zoraOnly) publishedLaunch = some _ := rfl
  obtain ⟨log, -, hvisible, -⟩ := committed_log_follows_announcements unitCapacities .empty zoraOnly
    publishedLaunch _ publishedLaunch_serializes hrun
  exact ⟨_, log, hrun, hvisible, rfl⟩

end Indexer

end ShadeIndexer.Bin
