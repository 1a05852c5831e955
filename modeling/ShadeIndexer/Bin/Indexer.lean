import ShadeIndexer.Bin.Shutdown
import ShadeIndexer.Core.Delivery
import ShadeIndexer.Lib.Simulation

/-!
The assembled indexer: the subscriber as a fourth task beside those of the
pipeline, with the channel between them. Its awaits are the connection, the
subscription, the next log, the send and the backoff.

The attempts that have ended, the logs of the current stream, the delays and the
deploy that an abort loses are not part of the source. They record what happened
and nothing reads them.
-/

namespace ShadeIndexer.Bin

open ShadeIndexer.Core Enrich Kafka Lib.Rust Lib.Mpsc Lib.Transition

/-- `handle_log` up to its await: the deploy to send, if there is one. -/
def handleLogToSend (reg : FactoryRegistry) (log : Log) :
    Result IndexerError (Option NormalizedDeploy) :=
  match log.topics.head? with
  | none => decodeError "log without topic0"
  | some topic0 =>
    match reg.matchLog log.address topic0 with
    | none => .ok none
    | some launchpad =>
      match decodeDeploy launchpad log with
      | .error e => .error e
      | .ok deploy => .ok (some deploy)

inductive SubscriberTask where
  | connecting
  | subscribing
  | streaming
  | sending (d : NormalizedDeploy)
  | sleeping
  | ended

def SubscriberTask.running : SubscriberTask → Bool
  | .ended => false
  | _ => true

/-- The phases in which `run_once` has the floor. -/
def SubscriberTask.Awake (task : SubscriberTask) : Prop := task.running = true ∧ task ≠ .sleeping

/-- The deploy that waits for a place in the channel. -/
def SubscriberTask.holding : SubscriberTask → List NormalizedDeploy
  | .sending d => [d]
  | _ => []

structure Indexer where
  registry : FactoryRegistry
  subscriber : SubscriberTask
  backoff : Nat
  pipeline : Pipeline
  past : List Attempt
  current : List Log
  slept : List Nat
  lost : List NormalizedDeploy

/-- The step of a task of the pipeline. -/
inductive Task where
  | fanout (clock : Int)
  | producer (env : CallEnv)
  | worker (env : WorkerEnv)

def Task.action : Task → Action
  | .fanout clock => .fanout clock
  | .producer env => .producer env
  | .worker env => .worker env

namespace Indexer

inductive Action where
  | connectFailed (e : String)
  | connected
  | subscribeFailed (e : String)
  | subscribed
  | log (l : Log)
  | streamEnded
  | sent
  | woke
  /-- `subscriber_h.abort()` -/
  | aborted
  | task (t : Task)

def launch (caps : Capacities) (db : Database) (registry : FactoryRegistry) : Indexer where
  registry := registry
  subscriber := .connecting
  backoff := initialBackoff
  pipeline := Bin.launch caps db
  past := []
  current := []
  slept := []
  lost := []

/-- `run_once` returns with an error, and `run` sleeps. -/
def fail (s : Indexer) (outcome : Outcome) : Indexer :=
  { s with
    subscriber := .sleeping
    past := s.past ++ [⟨false, outcome⟩]
    slept := s.slept ++ [s.backoff] }

/-- The stream is over. -/
def endStream (s : Indexer) : Indexer :=
  { s.fail (.established (s.current.map .undisturbed)) with current := [] }

/-- The subscriber returns or is aborted, and its sender is dropped. -/
def finish (s : Indexer) : Indexer :=
  { s with
    subscriber := .ended
    pipeline := { s.pipeline with deployCh := s.pipeline.deployCh.dropSender } }

/-- The end of the loop body: `if self.out.is_closed() { return Ok(()) }`. -/
def loopBack (s : Indexer) : Indexer :=
  if s.pipeline.deployCh.receiverAlive then { s with subscriber := .streaming } else s.finish

def hear (s : Indexer) (l : Log) : Indexer := { s with current := s.current ++ [l] }

/-- The channel has taken the deploy. -/
def hand (s : Indexer) (d : NormalizedDeploy) (ch : Channel NormalizedDeploy) : Indexer :=
  { s with
    pipeline := { s.pipeline with deployCh := ch, accepted := s.pipeline.accepted ++ [d] } }

def stepLog (s : Indexer) (l : Log) : Indexer :=
  match handleLogToSend s.registry l with
  | .ok (some d) => { s.hear l with subscriber := .sending d }
  | .ok none => (s.hear l).loopBack
  -- the error is logged and the loop goes on
  | .error (.error _) => (s.hear l).loopBack
  | .error (.panic _) => (s.hear l).finish

def stepSent (s : Indexer) (d : NormalizedDeploy) : Option Indexer :=
  match s.pipeline.deployCh.send d with
  | .delivered ch => some (s.hand d ch).loopBack
  | .full => none
  | .closed => some s.loopBack

def step (s : Indexer) (action : Action) : Option Indexer :=
  match action, s.subscriber with
  | .connectFailed e, .connecting => some (s.fail (.connectFailed e))
  | .connected, .connecting => some { s with subscriber := .subscribing }
  | .subscribeFailed e, .subscribing => some (s.fail (.subscribeFailed e))
  | .subscribed, .subscribing => some { s with subscriber := .streaming }
  | .log l, .streaming => some (s.stepLog l)
  | .streamEnded, .streaming => some s.endStream
  | .sent, .sending d => s.stepSent d
  | .woke, .sleeping =>
      some { s with
        subscriber := .connecting
        backoff := min (s.backoff * 2) reconnectBackoffMax }
  | .aborted, .ended => none
  | .aborted, _ => some { s.finish with lost := s.lost ++ s.subscriber.holding }
  | .task t, _ => (s.pipeline.step t.action).map fun p => { s with pipeline := p }
  | _, _ => none

/-- The logs that the node has sent in established subscriptions. -/
def receivedLogs (s : Indexer) : List Log :=
  s.past.flatMap (fun attempt => attempt.arrivals.map Arrival.log) ++ s.current

/-- The deploys that these logs announce. -/
def announced (s : Indexer) : List NormalizedDeploy :=
  s.receivedLogs.filterMap (deployOf s.registry)

/-- With an immediate send behind it, it is the whole of `handle_log`. -/
theorem handleLog_eq (reg : FactoryRegistry) (log : Log) (out : Sender) :
    handleLog reg log out =
      match handleLogToSend reg log with
      | .error e => (.error e, out)
      | .ok none => (.ok (), out)
      | .ok (some deploy) =>
        match out.send deploy with
        | (.error _, out) => (.error (.error (.subscription "downstream channel closed")), out)
        | (.ok (), out) => (.ok (), out) := by
  unfold handleLog handleLogToSend
  cases log.topics.head? with
  | none => rfl
  | some topic0 =>
      dsimp only
      cases reg.matchLog log.address topic0 with
      | none => rfl
      | some launchpad =>
          dsimp only
          cases decodeDeploy launchpad log with
          | error e => rfl
          | ok deploy => rfl

/-- A log that announces a deploy leads to its send. Any other log leads back to
the stream, with or without an error. -/
theorem handleLogToSend_cases (reg : FactoryRegistry) (log : Log) :
    (∃ d, deployOf reg log = some d ∧ handleLogToSend reg log = .ok (some d)) ∨
      (deployOf reg log = none ∧
        (handleLogToSend reg log = .ok none ∨
          ∃ e, handleLogToSend reg log = .error (.error e))) := by
  unfold handleLogToSend deployOf
  cases log.topics.head? with
  | none => exact Or.inr ⟨rfl, Or.inr ⟨_, rfl⟩⟩
  | some topic0 =>
      cases hroute : reg.matchLog log.address topic0 with
      | none => exact Or.inr (by simp [hroute])
      | some launchpad =>
          rcases decodeDeploy_cases launchpad log with ⟨deploy, hdecode⟩ | ⟨e, hdecode⟩
          · exact Or.inl ⟨deploy, by simp [hroute, hdecode, Except.toOption]⟩
          · exact Or.inr (by simp [hroute, hdecode, Except.toOption])

/-- Everything a step can do. -/
inductive StepSpec (s : Indexer) : Action → Indexer → Prop where
  | connectFailed {e : String} (hphase : s.subscriber = .connecting) :
      StepSpec s (.connectFailed e) (s.fail (.connectFailed e))
  | connected (hphase : s.subscriber = .connecting) :
      StepSpec s .connected { s with subscriber := .subscribing }
  | subscribeFailed {e : String} (hphase : s.subscriber = .subscribing) :
      StepSpec s (.subscribeFailed e) (s.fail (.subscribeFailed e))
  | subscribed (hphase : s.subscriber = .subscribing) :
      StepSpec s .subscribed { s with subscriber := .streaming }
  | ignored {l : Log} (hphase : s.subscriber = .streaming)
      (hdeploy : deployOf s.registry l = none) : StepSpec s (.log l) (s.hear l).loopBack
  | announced {l : Log} {d : NormalizedDeploy} (hphase : s.subscriber = .streaming)
      (hdeploy : deployOf s.registry l = some d) :
      StepSpec s (.log l) { s.hear l with subscriber := .sending d }
  | streamEnded (hphase : s.subscriber = .streaming) : StepSpec s .streamEnded s.endStream
  | handed {d : NormalizedDeploy} {ch : Channel NormalizedDeploy}
      (hphase : s.subscriber = .sending d) (hsend : s.pipeline.deployCh.send d = .delivered ch) :
      StepSpec s .sent (s.hand d ch).loopBack
  | refused {d : NormalizedDeploy} (hphase : s.subscriber = .sending d)
      (hsend : s.pipeline.deployCh.send d = .closed) : StepSpec s .sent s.loopBack
  | woke (hphase : s.subscriber = .sleeping) :
      StepSpec s .woke
        { s with
          subscriber := .connecting
          backoff := min (s.backoff * 2) reconnectBackoffMax }
  | aborted (hrunning : s.subscriber.running = true) :
      StepSpec s .aborted { s.finish with lost := s.lost ++ s.subscriber.holding }
  | task {t : Task} {p : Pipeline} (hstep : s.pipeline.step t.action = some p) :
      StepSpec s (.task t) { s with pipeline := p }

theorem stepLog_spec {s : Indexer} {l : Log} (hphase : s.subscriber = .streaming) :
    StepSpec s (.log l) (s.stepLog l) := by
  unfold stepLog
  rcases handleLogToSend_cases s.registry l with
    ⟨d, hdeploy, hrun⟩ | ⟨hdeploy, hrun | ⟨e, hrun⟩⟩
  · rw [hrun]
    exact .announced hphase hdeploy
  · rw [hrun]
    exact .ignored hphase hdeploy
  · rw [hrun]
    exact .ignored hphase hdeploy

theorem stepSent_spec {s next : Indexer} {d : NormalizedDeploy}
    (hphase : s.subscriber = .sending d) (h : s.stepSent d = some next) :
    StepSpec s .sent next := by
  unfold stepSent at h
  cases hsend : s.pipeline.deployCh.send d with
  | delivered ch =>
      simp only [hsend, Option.some.injEq] at h
      exact h ▸ .handed hphase hsend
  | full => simp [hsend] at h
  | closed =>
      simp only [hsend, Option.some.injEq] at h
      exact h ▸ .refused hphase hsend

theorem step_spec {s next : Indexer} {action : Action} (h : s.step action = some next) :
    StepSpec s action next := by
  unfold step at h
  split at h
  case h_1 e hphase => exact Option.some.inj h ▸ .connectFailed hphase
  case h_2 hphase => exact Option.some.inj h ▸ .connected hphase
  case h_3 e hphase => exact Option.some.inj h ▸ .subscribeFailed hphase
  case h_4 hphase => exact Option.some.inj h ▸ .subscribed hphase
  case h_5 l hphase => exact Option.some.inj h ▸ stepLog_spec hphase
  case h_6 hphase => exact Option.some.inj h ▸ .streamEnded hphase
  case h_7 d hphase => exact stepSent_spec hphase h
  case h_8 hphase => exact Option.some.inj h ▸ .woke hphase
  case h_9 hphase => cases h
  case h_10 hrunning =>
    have htask : s.subscriber.running = true := by
      cases hphase : s.subscriber with
      | ended => exact absurd hphase hrunning
      | _ => rfl
    exact Option.some.inj h ▸ .aborted htask
  case h_11 t _ =>
    obtain ⟨p, hstep, rfl⟩ := Option.map_eq_some_iff.mp h
    exact .task hstep
  case h_12 => cases h

/-- The log that an action brings. -/
def Action.logs : Action → List Log
  | .log l => [l]
  | _ => []

@[simp] theorem receivedLogs_finish (s : Indexer) : s.finish.receivedLogs = s.receivedLogs := rfl

@[simp] theorem receivedLogs_loopBack (s : Indexer) : s.loopBack.receivedLogs = s.receivedLogs := by
  unfold loopBack
  split <;> rfl

theorem receivedLogs_hear (s : Indexer) (l : Log) :
    (s.hear l).receivedLogs = s.receivedLogs ++ [l] := (List.append_assoc _ _ _).symm

theorem receivedLogs_fail (s : Indexer) (outcome : Outcome)
    (h : Attempt.arrivals ⟨false, outcome⟩ = []) :
    (s.fail outcome).receivedLogs = s.receivedLogs := by
  simp [receivedLogs, fail, h]

theorem receivedLogs_endStream (s : Indexer) : s.endStream.receivedLogs = s.receivedLogs := by
  have hlogs : (s.current.map Arrival.undisturbed).map Arrival.log = s.current := by
    rw [List.map_map]
    exact List.map_id _
  simp [receivedLogs, endStream, fail, Attempt.arrivals, hlogs]

/-- Only the arrival of a log adds one. -/
theorem receivedLogs_step {s next : Indexer} {action : Action} (h : StepSpec s action next) :
    next.receivedLogs = s.receivedLogs ++ action.logs := by
  cases h with
  | connectFailed hphase | subscribeFailed hphase =>
      rw [receivedLogs_fail _ _ rfl]
      exact (List.append_nil _).symm
  | ignored hphase hdeploy =>
      rw [receivedLogs_loopBack]
      exact receivedLogs_hear s _
  | announced hphase hdeploy => exact receivedLogs_hear s _
  | streamEnded hphase =>
      rw [receivedLogs_endStream]
      exact (List.append_nil _).symm
  | handed hphase hsend | refused hphase hsend =>
      rw [receivedLogs_loopBack]
      exact (List.append_nil _).symm
  | connected hphase | subscribed hphase | woke hphase | aborted hrunning | task hstep =>
      exact (List.append_nil _).symm

/-- The logs of a run are those of its actions. -/
theorem run_receivedLogs {caps : Capacities} {db : Database} {reg : FactoryRegistry}
    {actions : List Action} {s : Indexer} (hrun : run step (launch caps db reg) actions = some s) :
    s.receivedLogs = actions.flatMap Action.logs :=
  run_output (fun _ => True) receivedLogs Action.logs
    (fun _ _ _ _ hstep => ⟨trivial, receivedLogs_step (step_spec hstep)⟩) trivial hrun

end Indexer

end ShadeIndexer.Bin
