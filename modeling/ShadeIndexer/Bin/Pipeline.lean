import ShadeIndexer.Bin.Health
import ShadeIndexer.Enrich.Worker
import ShadeIndexer.Kafka.Producer
import ShadeIndexer.Lib.Mpsc
import ShadeIndexer.Lib.Transition

/-!
The running pipeline: the fan-out task, the Kafka loop and the enrichment
worker, the channels between them, the broker session, the database and the
heartbeats. A task is where it waits, and a step takes one task from one await
to the next. Code between two awaits runs in one step, so a publish and the
flag it sets change together.

A fetch can panic. The release profile aborts on a panic: the process is gone,
with every deploy that had not reached its sinks, and a run has no state behind
such an answer. A build that unwinds would only end the worker, which loses the
deploy in its hands and the queue before it. The fan-out task would then end at
its next send to the worker, and the subscriber at its next send to that task.

The lists `accepted`, `published` and `processed` and the `history` of events
are not part of the source. They record what happened and nothing reads them.
-/

namespace ShadeIndexer.Bin

open ShadeIndexer.Core Enrich Kafka Lib.Mpsc Lib.Transition

inductive Fanout where
  | receiving
  | sendingKafka (d : NormalizedDeploy)
  | sendingEnrich (d : NormalizedDeploy)
  | ended

inductive ProducerLoop where
  | receiving
  | publishing (d : NormalizedDeploy)
  | ended

inductive WorkerRun where
  | receiving
  | upserting (d : NormalizedDeploy)
  | fetching (d : NormalizedDeploy) (id : Nat)
  | writing (d : NormalizedDeploy) (id : Nat) (e : Enrichment)
  | ended

/-- What the operations of the pipeline came to, and the clock of each mark. -/
inductive Event where
  | marked (clock : Int)
  | kafka (ok : Bool)
  | postgres (ok : Bool)
  deriving DecidableEq, Repr

structure Pipeline where
  deployCh : Channel NormalizedDeploy
  kafkaCh : Channel NormalizedDeploy
  enrichCh : Channel NormalizedDeploy
  fanout : Fanout
  producer : ProducerLoop
  worker : WorkerRun
  liveness : Liveness
  broker : Broker
  db : Database
  accepted : List NormalizedDeploy
  published : List NormalizedDeploy
  processed : List NormalizedDeploy
  history : List Event

structure Capacities where
  deploy : Nat
  kafka : Nat
  enrich : Nat
  deploy_pos : 0 < deploy
  kafka_pos : 0 < kafka
  enrich_pos : 0 < enrich

def unitCapacities : Capacities := ⟨1, 1, 1, Nat.one_pos, Nat.one_pos, Nat.one_pos⟩

/-- The state that `launch` returns, after the producer has been initialised
and the database connected. -/
def launch (caps : Capacities) (db : Database) : Pipeline where
  deployCh := .new caps.deploy caps.deploy_pos
  kafkaCh := .new caps.kafka caps.kafka_pos
  enrichCh := .new caps.enrich caps.enrich_pos
  fanout := .receiving
  producer := .receiving
  worker := .receiving
  liveness := (Liveness.new.setKafka true).setPostgres true
  broker := .fresh
  db := db
  accepted := []
  published := []
  processed := []
  history := [.kafka true, .postgres true]

/-- What the operations awaited by the worker come to. -/
structure WorkerEnv where
  now : DateTime
  upsertFault : Option SqlxError
  fetched : Fetched HolderSnapshot
  write : WriteCall

/-- The `process` call of a deploy whose operations answer as the environment
says. -/
def WorkerEnv.call (env : WorkerEnv) (d : NormalizedDeploy) : ProcessCall where
  upsert := ⟨d, env.now, env.upsertFault⟩
  fetched := env.fetched
  write := env.write

inductive Action where
  | accept (d : NormalizedDeploy)
  | dropSubscriber
  | fanout (clock : Int)
  | producer (env : CallEnv)
  | worker (env : WorkerEnv)

namespace Pipeline

/-- The end of the fan-out task drops the three ends that it holds. -/
def endFanout (p : Pipeline) : Pipeline :=
  { p with
    fanout := .ended
    deployCh := p.deployCh.dropReceiver
    kafkaCh := p.kafkaCh.dropSender
    enrichCh := p.enrichCh.dropSender }

def endProducer (p : Pipeline) : Pipeline :=
  { p with producer := .ended, kafkaCh := p.kafkaCh.dropReceiver }

def endWorker (p : Pipeline) : Pipeline :=
  { p with worker := .ended, enrichCh := p.enrichCh.dropReceiver }

/-- The subscriber hands over a deploy, as long as it runs. -/
def accept (p : Pipeline) (d : NormalizedDeploy) : Option Pipeline :=
  if p.deployCh.senderAlive then
    match p.deployCh.send d with
    | .delivered ch => some { p with deployCh := ch, accepted := p.accepted ++ [d] }
    | .full => none
    | .closed => none
  else none

/-- The subscriber is aborted, or it returns. -/
def dropSubscriber (p : Pipeline) : Option Pipeline :=
  if p.deployCh.senderAlive then some { p with deployCh := p.deployCh.dropSender } else none

def stepFanout (p : Pipeline) (clock : Int) : Option Pipeline :=
  match p.fanout with
  | .receiving =>
    match p.deployCh.recv with
    | .item d ch => some
        { p with
          fanout := .sendingKafka d
          deployCh := ch
          liveness := p.liveness.markEvent clock
          history := p.history ++ [.marked clock] }
    | .ended => some p.endFanout
    | .pending => none
  | .sendingKafka d =>
    match p.kafkaCh.send d with
    | .delivered ch => some { p with fanout := .sendingEnrich d, kafkaCh := ch }
    -- the kafka sink is closed
    | .closed => some p.endFanout
    | .full => none
  | .sendingEnrich d =>
    match p.enrichCh.send d with
    | .delivered ch => some { p with fanout := .receiving, enrichCh := ch }
    -- the enrich sink is closed
    | .closed => some p.endFanout
    | .full => none
  | .ended => none

def stepProducer (p : Pipeline) (env : CallEnv) : Option Pipeline :=
  match p.producer with
  | .receiving =>
    match p.kafkaCh.recv with
    | .item d ch => some
        { p with producer := .publishing d, kafkaCh := ch, published := p.published ++ [d] }
    | .ended => some p.endProducer
    | .pending => none
  | .publishing d =>
    let ok := (publish env d p.broker).1.isOk
    some
      { p with
        producer := .receiving
        broker := (publish env d p.broker).2
        liveness := p.liveness.setKafka ok
        history := p.history ++ [.kafka ok] }
  | .ended => none

def stepWorker (p : Pipeline) (env : WorkerEnv) : Option Pipeline :=
  match p.worker with
  | .receiving =>
    match p.enrichCh.recv with
    | .item d ch => some
        { p with worker := .upserting d, enrichCh := ch, processed := p.processed ++ [d] }
    | .ended => some p.endWorker
    | .pending => none
  | .upserting d =>
    match upsertDeploy ⟨d, env.now, env.upsertFault⟩ p.db with
    | (.error _, db) =>
        some { p with worker := .receiving, db, history := p.history ++ [.postgres false] }
    | (.ok id, db) =>
        some { p with worker := .fetching d id, db, history := p.history ++ [.postgres true] }
  | .fetching d id =>
    match env.fetched with
    -- `panic = "abort"`: there is no process any more
    | .error (.panic _) => none
    | .error (.error _) => some { p with worker := .receiving }
    | .ok snapshot =>
        some { p with worker := .writing d id (Enrichment.fromSnapshot snapshot) }
  | .writing _ id e =>
    let ok := (writeEnrichment id e env.write p.db).1.isOk
    some
      { p with
        worker := .receiving
        db := (writeEnrichment id e env.write p.db).2
        history := p.history ++ [.postgres ok] }
  | .ended => none

def step (p : Pipeline) : Action → Option Pipeline
  | .accept d => p.accept d
  | .dropSubscriber => p.dropSubscriber
  | .fanout clock => p.stepFanout clock
  | .producer env => p.stepProducer env
  | .worker env => p.stepWorker env

/-- Everything a step can do. -/
inductive StepSpec (p : Pipeline) : Action → Pipeline → Prop where
  | accepted {d : NormalizedDeploy} {ch : Channel NormalizedDeploy}
      (halive : p.deployCh.senderAlive = true) (hsend : p.deployCh.send d = .delivered ch) :
      StepSpec p (.accept d) { p with deployCh := ch, accepted := p.accepted ++ [d] }
  | subscriberDropped (halive : p.deployCh.senderAlive = true) :
      StepSpec p .dropSubscriber { p with deployCh := p.deployCh.dropSender }
  | fanoutReceived {d : NormalizedDeploy} {ch : Channel NormalizedDeploy} {clock : Int}
      (hphase : p.fanout = .receiving) (hrecv : p.deployCh.recv = .item d ch) :
      StepSpec p (.fanout clock)
        { p with
          fanout := .sendingKafka d
          deployCh := ch
          liveness := p.liveness.markEvent clock
          history := p.history ++ [.marked clock] }
  | fanoutFinished {clock : Int} (hphase : p.fanout = .receiving)
      (hrecv : p.deployCh.recv = .ended) : StepSpec p (.fanout clock) p.endFanout
  | kafkaSent {d : NormalizedDeploy} {ch : Channel NormalizedDeploy} {clock : Int}
      (hphase : p.fanout = .sendingKafka d) (hsend : p.kafkaCh.send d = .delivered ch) :
      StepSpec p (.fanout clock) { p with fanout := .sendingEnrich d, kafkaCh := ch }
  | kafkaSinkClosed {d : NormalizedDeploy} {clock : Int} (hphase : p.fanout = .sendingKafka d)
      (hsend : p.kafkaCh.send d = .closed) : StepSpec p (.fanout clock) p.endFanout
  | enrichSent {d : NormalizedDeploy} {ch : Channel NormalizedDeploy} {clock : Int}
      (hphase : p.fanout = .sendingEnrich d) (hsend : p.enrichCh.send d = .delivered ch) :
      StepSpec p (.fanout clock) { p with fanout := .receiving, enrichCh := ch }
  | enrichSinkClosed {d : NormalizedDeploy} {clock : Int} (hphase : p.fanout = .sendingEnrich d)
      (hsend : p.enrichCh.send d = .closed) : StepSpec p (.fanout clock) p.endFanout
  | producerReceived {d : NormalizedDeploy} {ch : Channel NormalizedDeploy} {env : CallEnv}
      (hphase : p.producer = .receiving) (hrecv : p.kafkaCh.recv = .item d ch) :
      StepSpec p (.producer env)
        { p with producer := .publishing d, kafkaCh := ch, published := p.published ++ [d] }
  | producerFinished {env : CallEnv} (hphase : p.producer = .receiving)
      (hrecv : p.kafkaCh.recv = .ended) : StepSpec p (.producer env) p.endProducer
  | publishReturned {d : NormalizedDeploy} {env : CallEnv} (hphase : p.producer = .publishing d) :
      StepSpec p (.producer env)
        { p with
          producer := .receiving
          broker := (publish env d p.broker).2
          liveness := p.liveness.setKafka (publish env d p.broker).1.isOk
          history := p.history ++ [.kafka (publish env d p.broker).1.isOk] }
  | workerReceived {d : NormalizedDeploy} {ch : Channel NormalizedDeploy} {env : WorkerEnv}
      (hphase : p.worker = .receiving) (hrecv : p.enrichCh.recv = .item d ch) :
      StepSpec p (.worker env)
        { p with worker := .upserting d, enrichCh := ch, processed := p.processed ++ [d] }
  | workerFinished {env : WorkerEnv} (hphase : p.worker = .receiving)
      (hrecv : p.enrichCh.recv = .ended) : StepSpec p (.worker env) p.endWorker
  | upsertFailed {d : NormalizedDeploy} {env : WorkerEnv} {e : StoreError} {db : Database}
      (hphase : p.worker = .upserting d)
      (hrun : upsertDeploy ⟨d, env.now, env.upsertFault⟩ p.db = (.error e, db)) :
      StepSpec p (.worker env)
        { p with worker := .receiving, db := db, history := p.history ++ [.postgres false] }
  | upsertReturned {d : NormalizedDeploy} {env : WorkerEnv} {id : Nat} {db : Database}
      (hphase : p.worker = .upserting d)
      (hrun : upsertDeploy ⟨d, env.now, env.upsertFault⟩ p.db = (.ok id, db)) :
      StepSpec p (.worker env)
        { p with worker := .fetching d id, db := db, history := p.history ++ [.postgres true] }
  | fetchFailed {d : NormalizedDeploy} {id : Nat} {env : WorkerEnv} {e : AnyhowError}
      (hphase : p.worker = .fetching d id) (hfetched : env.fetched = .error (.error e)) :
      StepSpec p (.worker env) { p with worker := .receiving }
  | fetchReturned {d : NormalizedDeploy} {id : Nat} {env : WorkerEnv} {snapshot : HolderSnapshot}
      (hphase : p.worker = .fetching d id) (hfetched : env.fetched = .ok snapshot) :
      StepSpec p (.worker env)
        { p with worker := .writing d id (Enrichment.fromSnapshot snapshot) }
  | writeReturned {d : NormalizedDeploy} {id : Nat} {e : Enrichment} {env : WorkerEnv}
      (hphase : p.worker = .writing d id e) :
      StepSpec p (.worker env)
        { p with
          worker := .receiving
          db := (writeEnrichment id e env.write p.db).2
          history := p.history ++ [.postgres (writeEnrichment id e env.write p.db).1.isOk] }

theorem stepFanout_spec {p next : Pipeline} {clock : Int}
    (h : p.stepFanout clock = some next) : StepSpec p (.fanout clock) next := by
  unfold stepFanout at h
  cases hphase : p.fanout with
  | receiving =>
      simp only [hphase] at h
      cases hrecv : p.deployCh.recv with
      | item d ch =>
          simp only [hrecv, Option.some.injEq] at h
          exact h ▸ .fanoutReceived hphase hrecv
      | ended =>
          simp only [hrecv, Option.some.injEq] at h
          exact h ▸ .fanoutFinished hphase hrecv
      | pending => simp [hrecv] at h
  | sendingKafka d =>
      simp only [hphase] at h
      cases hsend : p.kafkaCh.send d with
      | delivered ch =>
          simp only [hsend, Option.some.injEq] at h
          exact h ▸ .kafkaSent hphase hsend
      | closed =>
          simp only [hsend, Option.some.injEq] at h
          exact h ▸ .kafkaSinkClosed hphase hsend
      | full => simp [hsend] at h
  | sendingEnrich d =>
      simp only [hphase] at h
      cases hsend : p.enrichCh.send d with
      | delivered ch =>
          simp only [hsend, Option.some.injEq] at h
          exact h ▸ .enrichSent hphase hsend
      | closed =>
          simp only [hsend, Option.some.injEq] at h
          exact h ▸ .enrichSinkClosed hphase hsend
      | full => simp [hsend] at h
  | ended => simp [hphase] at h

theorem stepProducer_spec {p next : Pipeline} {env : CallEnv}
    (h : p.stepProducer env = some next) : StepSpec p (.producer env) next := by
  unfold stepProducer at h
  cases hphase : p.producer with
  | receiving =>
      simp only [hphase] at h
      cases hrecv : p.kafkaCh.recv with
      | item d ch =>
          simp only [hrecv, Option.some.injEq] at h
          exact h ▸ .producerReceived hphase hrecv
      | ended =>
          simp only [hrecv, Option.some.injEq] at h
          exact h ▸ .producerFinished hphase hrecv
      | pending => simp [hrecv] at h
  | publishing d =>
      simp only [hphase, Option.some.injEq] at h
      exact h ▸ .publishReturned hphase
  | ended => simp [hphase] at h

theorem stepWorker_spec {p next : Pipeline} {env : WorkerEnv}
    (h : p.stepWorker env = some next) : StepSpec p (.worker env) next := by
  unfold stepWorker at h
  cases hphase : p.worker with
  | receiving =>
      simp only [hphase] at h
      cases hrecv : p.enrichCh.recv with
      | item d ch =>
          simp only [hrecv, Option.some.injEq] at h
          exact h ▸ .workerReceived hphase hrecv
      | ended =>
          simp only [hrecv, Option.some.injEq] at h
          exact h ▸ .workerFinished hphase hrecv
      | pending => simp [hrecv] at h
  | upserting d =>
      simp only [hphase] at h
      rcases hupsert : upsertDeploy ⟨d, env.now, env.upsertFault⟩ p.db with ⟨result, db⟩
      cases result with
      | error e =>
          simp only [hupsert, Option.some.injEq] at h
          exact h ▸ .upsertFailed hphase hupsert
      | ok id =>
          simp only [hupsert, Option.some.injEq] at h
          exact h ▸ .upsertReturned hphase hupsert
  | fetching d id =>
      simp only [hphase] at h
      cases hfetched : env.fetched with
      | error fault =>
          cases fault with
          | panic reason => simp [hfetched] at h
          | error e =>
              simp only [hfetched, Option.some.injEq] at h
              exact h ▸ .fetchFailed hphase hfetched
      | ok snapshot =>
          simp only [hfetched, Option.some.injEq] at h
          exact h ▸ .fetchReturned hphase hfetched
  | writing d id e =>
      simp only [hphase, Option.some.injEq] at h
      exact h ▸ .writeReturned hphase
  | ended => simp [hphase] at h

theorem step_spec {p next : Pipeline} {action : Action} (h : p.step action = some next) :
    StepSpec p action next := by
  cases action with
  | accept d =>
      simp only [step, accept] at h
      split at h
      · rename_i halive
        split at h
        · rename_i ch hsend
          exact Option.some.inj h ▸ .accepted halive hsend
        · cases h
        · cases h
      · cases h
  | dropSubscriber =>
      simp only [step, dropSubscriber] at h
      split at h
      · rename_i halive
        exact Option.some.inj h ▸ .subscriberDropped halive
      · cases h
  | fanout clock => exact stepFanout_spec h
  | producer env => exact stepProducer_spec h
  | worker env => exact stepWorker_spec h

end Pipeline

end ShadeIndexer.Bin
