import ShadeIndexer.Bin.Indexer

/-!
From the logs of the node to the two sinks, over every interleaving of the four
tasks. The indexer simulates the pipeline, so what holds of every run of the
pipeline holds of the indexer. The fan-out task outlives the subscriber, and so
the subscriber never finds its channel closed.
-/

namespace ShadeIndexer.Bin

open ShadeIndexer.Core Enrich Kafka Lib.Rust Lib.Mpsc Lib.Transition

namespace Indexer

/-- What an action of the indexer is to the pipeline. -/
inductive Stands : Action → Bin.Action → Prop where
  | accepted (d : NormalizedDeploy) : Stands .sent (.accept d)
  | dropped : Stands .aborted .dropSubscriber
  | task (t : Task) : Stands (.task t) t.action

/-- Every deploy that the node has announced is in one place: handed over to the
pipeline, held by the subscriber, or lost with it. -/
structure Accounted (s : Indexer) : Prop where
  pipeline : s.pipeline.Invariant
  sender : s.pipeline.deployCh.senderAlive = s.subscriber.running
  announced : s.announced = s.pipeline.accepted ++ s.subscriber.holding ++ s.lost
  kept : s.subscriber.running = true → s.lost = []
  lost_length : s.lost.length ≤ 1

theorem accounted_launch (caps : Capacities) (db : Database) (reg : FactoryRegistry) :
    (launch caps db reg).Accounted where
  pipeline := ⟨Pipeline.ends_launch caps db, Pipeline.conserved_launch caps db⟩
  sender := rfl
  announced := rfl
  kept := fun _ => rfl
  lost_length := Nat.zero_le _

/-- While the subscriber runs, the fan-out task receives. -/
theorem Accounted.receiverAlive {s : Indexer} (h : s.Accounted)
    (hrunning : s.subscriber.running = true) : s.pipeline.deployCh.receiverAlive = true := by
  have hlink := h.pipeline.1.deploy
  rw [h.sender, hrunning] at hlink
  rw [hlink.receiver]
  exact hlink.receiving_of_sending

theorem loopBack_of_open {s : Indexer} (h : s.pipeline.deployCh.receiverAlive = true) :
    s.loopBack = { s with subscriber := .streaming } := by
  rw [loopBack, if_pos h]

theorem announced_hear (s : Indexer) (l : Log) :
    (s.hear l).announced = s.announced ++ (deployOf s.registry l).toList := by
  rw [announced, receivedLogs_hear, List.filterMap_append]
  have hregistry : (s.hear l).registry = s.registry := rfl
  rw [hregistry]
  cases hdeploy : deployOf s.registry l <;> simp [hdeploy, announced]

theorem announced_fail (s : Indexer) (outcome : Outcome)
    (h : Attempt.arrivals ⟨false, outcome⟩ = []) : (s.fail outcome).announced = s.announced := by
  rw [announced, receivedLogs_fail s outcome h]
  rfl

theorem announced_endStream (s : Indexer) : s.endStream.announced = s.announced := by
  rw [announced, receivedLogs_endStream]
  rfl

/-- The pipeline sees a send that the channel takes, the drop of the sender and
the steps of its own tasks. -/
theorem matched_step {s next : Indexer} {action : Action} (h : s.Accounted)
    (hstep : StepSpec s action next) :
    Matched Pipeline.step Stands s.pipeline [action] next.pipeline := by
  have hquiet : Matched Pipeline.step Stands s.pipeline [action] s.pipeline := ⟨[], rfl, by simp⟩
  have hone (a : Bin.Action) (p : Pipeline) (hstands : Stands action a)
      (hrun : s.pipeline.step a = some p) : Matched Pipeline.step Stands s.pipeline [action] p := by
    refine ⟨[a], ?_, ?_⟩
    · simp [run, hrun]
    · simpa using hstands
  cases hstep with
  | connectFailed hphase | connected hphase | subscribeFailed hphase | subscribed hphase
  | announced hphase hdeploy | streamEnded hphase | woke hphase => exact hquiet
  | ignored hphase hdeploy =>
      have hopen := h.receiverAlive (by rw [hphase]; rfl)
      rw [loopBack_of_open (by exact hopen)]
      exact hquiet
  | @handed d ch hphase hsend =>
      have halive := h.sender
      rw [hphase] at halive
      obtain ⟨hreceiver, hmoved⟩ := Channel.send_delivered hsend
      have hopen : (s.hand d ch).pipeline.deployCh.receiverAlive = true :=
        hmoved.receiverAlive.trans hreceiver
      rw [loopBack_of_open hopen]
      apply hone (.accept d) _ (.accepted d)
      simp only [Pipeline.step, Pipeline.accept, halive, hsend]
      rfl
  | @refused d hphase hsend =>
      have hopen := h.receiverAlive (by rw [hphase]; rfl)
      rw [Channel.send_closed hsend] at hopen
      cases hopen
  | aborted hrunning =>
      apply hone .dropSubscriber _ .dropped
      simp only [Pipeline.step, Pipeline.dropSubscriber, h.sender, hrunning]
      rfl
  | @task t p hstep => exact hone t.action p (.task t) hstep

/-- No task of the pipeline gives or takes the sender of the subscriber. -/
theorem task_senderAlive {p next : Pipeline} {t : Task} (h : p.step t.action = some next) :
    next.deployCh.senderAlive = p.deployCh.senderAlive ∧ next.accepted = p.accepted := by
  have hspec := Pipeline.step_spec h
  cases t with
  | fanout clock =>
      cases hspec with
      | fanoutReceived hphase hrecv =>
          obtain ⟨_, _, hmoved⟩ := Channel.recv_item hrecv
          exact ⟨hmoved.senderAlive, rfl⟩
      | fanoutFinished | kafkaSent | kafkaSinkClosed | enrichSent | enrichSinkClosed =>
          exact ⟨rfl, rfl⟩
  | producer env => cases hspec <;> exact ⟨rfl, rfl⟩
  | worker env => cases hspec <;> exact ⟨rfl, rfl⟩

theorem accounted_step {s next : Indexer} {action : Action} (h : s.Accounted)
    (hstep : StepSpec s action next) : next.Accounted := by
  obtain ⟨abstract, hrun, -⟩ := matched_step h hstep
  have hinv : next.pipeline.Invariant :=
    run_invariant Pipeline.Invariant (fun _ _ _ => Pipeline.invariant_step) h.pipeline hrun
  clear hrun
  have hsender := h.sender
  have hannounced := h.announced
  cases hstep with
  | connectFailed hphase | subscribeFailed hphase =>
      rw [hphase] at hsender hannounced
      have hkept := h.kept (by rw [hphase]; rfl)
      exact ⟨hinv, hsender, (announced_fail s _ rfl).trans hannounced, fun _ => hkept,
        h.lost_length⟩
  | connected hphase | subscribed hphase | woke hphase =>
      rw [hphase] at hsender hannounced
      have hkept := h.kept (by rw [hphase]; rfl)
      exact ⟨hinv, hsender, hannounced, fun _ => hkept, h.lost_length⟩
  | @ignored l hphase hdeploy =>
      have hopen := h.receiverAlive (by rw [hphase]; rfl)
      have hkept := h.kept (by rw [hphase]; rfl)
      have hheard := announced_hear s l
      rw [hdeploy, hannounced, hphase] at hheard
      rw [hphase] at hsender
      rw [loopBack_of_open (by exact hopen)] at hinv ⊢
      exact ⟨hinv, hsender, hheard.trans (List.append_nil _), fun _ => hkept, h.lost_length⟩
  | @announced l d hphase hdeploy =>
      have hkept := h.kept (by rw [hphase]; rfl)
      have hheard := announced_hear s l
      rw [hdeploy, hannounced, hphase, hkept] at hheard
      rw [hphase] at hsender
      refine ⟨hinv, hsender, ?_, fun _ => hkept, h.lost_length⟩
      refine hheard.trans ?_
      simp [hear, SubscriberTask.holding, hkept]
  | streamEnded hphase =>
      rw [hphase] at hsender hannounced
      have hkept := h.kept (by rw [hphase]; rfl)
      exact ⟨hinv, hsender, (announced_endStream s).trans hannounced, fun _ => hkept,
        h.lost_length⟩
  | @handed d ch hphase hsend =>
      have hkept := h.kept (by rw [hphase]; rfl)
      obtain ⟨hreceiver, hmoved⟩ := Channel.send_delivered hsend
      have hopen : (s.hand d ch).pipeline.deployCh.receiverAlive = true :=
        hmoved.receiverAlive.trans hreceiver
      rw [hphase] at hsender hannounced
      rw [loopBack_of_open hopen] at hinv ⊢
      refine ⟨hinv, hmoved.senderAlive.trans hsender, ?_, fun _ => hkept, h.lost_length⟩
      refine hannounced.trans ?_
      simp [hand, SubscriberTask.holding]
  | @refused d hphase hsend =>
      have hopen := h.receiverAlive (by rw [hphase]; rfl)
      rw [Channel.send_closed hsend] at hopen
      cases hopen
  | aborted hrunning =>
      have hkept := h.kept hrunning
      refine ⟨hinv, rfl, ?_, ?_, ?_⟩
      · refine hannounced.trans ?_
        simp [finish, SubscriberTask.holding, hkept]
      · intro hended
        cases hended
      · rw [hkept]
        cases s.subscriber <;> simp [SubscriberTask.holding]
  | @task t p hstep =>
      obtain ⟨halive, haccepted⟩ := task_senderAlive hstep
      refine ⟨hinv, halive.trans hsender, ?_, h.kept, h.lost_length⟩
      refine hannounced.trans ?_
      rw [haccepted]

/-- A run of the indexer is a run of the pipeline that the subscriber feeds, and
nothing that was announced is unaccounted for. -/
theorem run_accounted {caps : Capacities} {db : Database} {reg : FactoryRegistry}
    {actions : List Action} {s : Indexer} (hrun : run step (launch caps db reg) actions = some s) :
    s.Accounted ∧ Matched Pipeline.step Stands (Bin.launch caps db) actions s.pipeline :=
  run_simulates Stands Indexer.pipeline Accounted
    (fun _ _ _ hinv hstep => ⟨accounted_step hinv (step_spec hstep),
      matched_step hinv (step_spec hstep)⟩)
    (accounted_launch caps db reg) hrun

/-- The two sinks, each with everything that is still on its way to it. -/
structure Traced (s : Indexer) : Prop where
  kafka : s.announced =
    s.pipeline.published ++ s.pipeline.kafkaCh.queue ++ s.pipeline.fanout.unpublished ++
      s.pipeline.deployCh.queue ++ s.subscriber.holding ++ s.lost
  enrichment : s.announced =
    s.pipeline.processed ++ s.pipeline.enrichCh.queue ++ s.pipeline.fanout.unprocessed ++
      s.pipeline.fanout.unpublished ++ s.pipeline.deployCh.queue ++ s.subscriber.holding ++ s.lost

theorem Accounted.traced {s : Indexer} (h : s.Accounted) : s.Traced := by
  obtain ⟨haccepted, hpublished⟩ := h.pipeline.2
  have hkafka := h.announced
  rw [haccepted] at hkafka
  refine ⟨hkafka, ?_⟩
  rw [hkafka, hpublished]

theorem running_step {s next : Indexer} {action : Action} (hkept : action ≠ .aborted)
    (h : s.Accounted ∧ s.subscriber.running = true) (hstep : StepSpec s action next) :
    next.Accounted ∧ next.subscriber.running = true := by
  refine ⟨accounted_step h.1 hstep, ?_⟩
  have hopen := h.1.receiverAlive h.2
  cases hstep with
  | connectFailed | connected | subscribeFailed | subscribed | announced | streamEnded | woke =>
      rfl
  | ignored hphase hdeploy =>
      rw [loopBack_of_open (by exact hopen)]
      rfl
  | @handed d ch hphase hsend =>
      obtain ⟨hreceiver, hmoved⟩ := Channel.send_delivered hsend
      have hstill : (s.hand d ch).pipeline.deployCh.receiverAlive = true :=
        hmoved.receiverAlive.trans hreceiver
      rw [loopBack_of_open hstill]
      rfl
  | refused hphase hsend =>
      rw [Channel.send_closed hsend] at hopen
      cases hopen
  | aborted => exact absurd rfl hkept
  | task hstep => exact h.2

/-- Whatever the node sends, as long as no fetch panics on it, and however the
tasks are scheduled, every deploy that a received log announces is in exactly one
place on its way to either sink, in the order of the logs. At most one is lost, and
only by an abort. The subscriber itself never returns. -/
theorem announced_deploys_accounted (caps : Capacities) (db : Database) (reg : FactoryRegistry)
    (actions : List Action) (s : Indexer) (hrun : run step (launch caps db reg) actions = some s) :
    s.Traced ∧ s.lost.length ≤ 1 ∧
      (.aborted ∉ actions → s.lost = [] ∧ s.subscriber.running = true) := by
  have haccounted := (run_accounted hrun).1
  refine ⟨haccounted.traced, haccounted.lost_length, ?_⟩
  intro hkept
  have hrunning : s.Accounted ∧ s.subscriber.running = true :=
    run_invariant_of (· ≠ .aborted) (fun s => s.Accounted ∧ s.subscriber.running = true)
      (fun _ _ _ hne hinv hstep => running_step hne hinv (step_spec hstep))
      (fun action haction heq => by
        subst heq
        exact hkept haction)
      ⟨accounted_launch caps db reg, rfl⟩ hrun
  exact ⟨haccounted.kept hrunning.2, hrunning.2⟩

/-- The log of a Zora launch. -/
def zoraLaunch : Log := { retractedLaunch with removed := false }

/-- The abort comes while the deploy of the only log waits to be sent. -/
def abortedSend : List Action := [.connected, .subscribed, .log zoraLaunch, .aborted]

theorem announced_deploys_accounted_abortedSend :
    ∃ s, run step (launch unitCapacities .empty zoraOnly) abortedSend = some s ∧
      s.lost.length = 1 ∧ s.Traced := by
  have hrun : run step (launch unitCapacities .empty zoraOnly) abortedSend = some _ := rfl
  obtain ⟨htraced, -⟩ := announced_deploys_accounted unitCapacities .empty zoraOnly abortedSend _
    hrun
  exact ⟨_, hrun, rfl, htraced⟩

/-- What the task has recorded, against the loop of `run`. -/
structure Paced (reg : FactoryRegistry) (s : Indexer) : Prop where
  registry : s.registry = reg
  undisturbed : ∀ attempt ∈ s.past, attempt.drops = false
  slept : s.slept = (List.range' 0 s.past.length).map backoffAfter
  backoff : s.subscriber.running = true → ∃ n, s.backoff = backoffAfter n ∧
    s.past.length = match s.subscriber with
      | .sleeping => n + 1
      | _ => n

theorem paced_launch (caps : Capacities) (db : Database) (reg : FactoryRegistry) :
    (launch caps db reg).Paced reg :=
  ⟨rfl, by simp [launch], rfl, fun _ => ⟨0, rfl, rfl⟩⟩

/-- In such a phase the backoff is the one for the attempts that have failed. -/
theorem Paced.backoff_awake {reg : FactoryRegistry} {s : Indexer} (h : s.Paced reg)
    (hs : s.subscriber.Awake) : s.backoff = backoffAfter s.past.length := by
  obtain ⟨n, hn, hlength⟩ := h.backoff hs.1
  split at hlength
  · rename_i hsleeping
    exact absurd hsleeping hs.2
  · rw [hn, hlength]

/-- Between two backoffs the record stays as it is. -/
theorem Paced.awake {reg : FactoryRegistry} {s next : Indexer} (h : s.Paced reg)
    (hregistry : next.registry = s.registry) (hpast : next.past = s.past)
    (hslept : next.slept = s.slept) (hbackoff : next.backoff = s.backoff)
    (hs : s.subscriber.Awake) (hnext : next.subscriber ≠ .sleeping) : next.Paced reg := by
  refine ⟨hregistry.trans h.registry, ?_, ?_, fun _ => ⟨s.past.length, ?_, ?_⟩⟩
  · rw [hpast]
    exact h.undisturbed
  · rw [hslept, hpast]
    exact h.slept
  · exact hbackoff.trans (h.backoff_awake hs)
  · rw [hpast]
    split
    · rename_i hsleeping
      exact absurd hsleeping hnext
    · rfl

/-- An attempt fails: its delay is the one that the number of attempts so far
calls for. -/
theorem Paced.fail {reg : FactoryRegistry} {s : Indexer} (h : s.Paced reg) (outcome : Outcome)
    (hs : s.subscriber.Awake) (houtcome : Attempt.drops ⟨false, outcome⟩ = false) :
    (s.fail outcome).Paced reg := by
  have hbackoff := h.backoff_awake hs
  refine ⟨h.registry, ?_, ?_, fun _ => ⟨s.past.length, hbackoff, ?_⟩⟩
  · intro attempt hattempt
    rcases List.mem_append.mp hattempt with hpast | hnew
    · exact h.undisturbed attempt hpast
    · rw [List.mem_singleton.mp hnew]
      exact houtcome
  · simp only [Indexer.fail, List.length_append, List.length_singleton]
    rw [h.slept, hbackoff, List.range'_concat, List.map_append]
    simp
  · simp [Indexer.fail]

theorem drops_undisturbed (logs : List Log) :
    Attempt.drops ⟨false, .established (logs.map .undisturbed)⟩ = false := by
  simp [Attempt.drops, Arrival.undisturbed, Arrival.drops]

theorem loopBack_phase (s : Indexer) :
    s.loopBack.subscriber = .streaming ∨ s.loopBack.subscriber = .ended := by
  unfold loopBack
  split
  · exact Or.inl rfl
  · exact Or.inr rfl

theorem loopBack_record (s : Indexer) :
    s.loopBack.registry = s.registry ∧ s.loopBack.past = s.past ∧ s.loopBack.slept = s.slept ∧
      s.loopBack.backoff = s.backoff := by
  unfold loopBack
  split <;> exact ⟨rfl, rfl, rfl, rfl⟩

theorem Paced.loopBack {reg : FactoryRegistry} {s before : Indexer} (h : before.Paced reg)
    (hbefore : before.subscriber.Awake) (hregistry : s.registry = before.registry)
    (hpast : s.past = before.past) (hslept : s.slept = before.slept)
    (hbackoff : s.backoff = before.backoff) : s.loopBack.Paced reg := by
  obtain ⟨hr, hp, hsl, hb⟩ := loopBack_record s
  apply h.awake (hr.trans hregistry) (hp.trans hpast) (hsl.trans hslept) (hb.trans hbackoff) hbefore
  rcases loopBack_phase s with hphase | hphase
  · rw [hphase]
    simp
  · rw [hphase]
    simp

theorem paced_step {reg : FactoryRegistry} {s next : Indexer} {action : Action}
    (h : s.Paced reg) (hstep : StepSpec s action next) : next.Paced reg := by
  have hawake (task : SubscriberTask) (hphase : s.subscriber = task) (htask : task.Awake) :
      s.subscriber.Awake := hphase ▸ htask
  cases hstep with
  | connectFailed hphase | subscribeFailed hphase =>
      exact h.fail _ (hawake _ hphase ⟨rfl, by simp⟩) rfl
  | streamEnded hphase =>
      obtain ⟨hregistry, hundisturbed, hslept, hbackoff⟩ :=
        h.fail (.established (s.current.map .undisturbed)) (hawake _ hphase ⟨rfl, by simp⟩)
          (drops_undisturbed s.current)
      exact ⟨hregistry, hundisturbed, hslept, hbackoff⟩
  | connected hphase | subscribed hphase | announced hphase hdeploy =>
      exact h.awake rfl rfl rfl rfl (hawake _ hphase ⟨rfl, by simp⟩) (by simp)
  | ignored hphase hdeploy | handed hphase hsend | refused hphase hsend =>
      exact h.loopBack (hawake _ hphase ⟨rfl, by simp⟩) rfl rfl rfl rfl
  | woke hphase =>
      have hbackoff := h.backoff
      rw [hphase] at hbackoff
      obtain ⟨n, hn, hlength⟩ := hbackoff rfl
      refine ⟨h.registry, h.undisturbed, h.slept, fun _ => ⟨n + 1, ?_, hlength⟩⟩
      rw [hn, backoffAfter_succ]
  | aborted hrunning =>
      refine ⟨h.registry, h.undisturbed, h.slept, ?_⟩
      intro hended
      cases hended
  | task hstep => exact ⟨h.registry, h.undisturbed, h.slept, h.backoff⟩

/-- The task does what the loop of `run` does on the attempts that it has been
through: it has slept the same delays, and it has taken from the same logs the
same deploys, up to the one that it still holds or that was lost with it. -/
theorem subscriber_refines_run (caps : Capacities) (db : Database) (reg : FactoryRegistry)
    (actions : List Action) (s : Indexer) (hrun : run step (launch caps db reg) actions = some s) :
    (LaunchpadSubscriber.run reg s.past).slept = s.slept ∧
      (LaunchpadSubscriber.run reg
          (s.past ++ [⟨false, .established (s.current.map .undisturbed)⟩])).out.delivered =
        s.pipeline.accepted ++ s.subscriber.holding ++ s.lost := by
  have hpaced : s.Paced reg :=
    run_invariant (Paced reg) (fun _ _ _ hinv hstep => paced_step hinv (step_spec hstep))
      (paced_launch caps db reg) hrun
  have hall : ∀ attempt ∈ s.past ++ [⟨false, .established (s.current.map .undisturbed)⟩],
      attempt.drops = false := by
    intro attempt hattempt
    rcases List.mem_append.mp hattempt with hpast | hnow
    · exact hpaced.undisturbed attempt hpast
    · rw [List.mem_singleton.mp hnow]
      exact drops_undisturbed s.current
  have hlogs : (s.current.map Arrival.undisturbed).map Arrival.log = s.current := by
    rw [List.map_map]
    exact List.map_id _
  constructor
  · rw [run_slept, reconnects_undisturbed hpaced.undisturbed, hpaced.slept]
  · have hannounced := (run_accounted hrun).1.announced
    rw [← hannounced, run_heard, heard_undisturbed hall, announced, hpaced.registry]
    simp [receivedLogs, Attempt.arrivals, hlogs]

/-- A failed connect, and a subscription that drops behind one launch. -/
def failureAndDrop : List Action :=
  [.connectFailed "refused", .woke, .connected, .subscribed, .log zoraLaunch, .sent, .streamEnded]

theorem subscriber_refines_run_failureAndDrop :
    ∃ s, run step (launch unitCapacities .empty zoraOnly) failureAndDrop = some s ∧
      s.slept = [250, 500] ∧ (LaunchpadSubscriber.run zoraOnly s.past).slept = s.slept := by
  have hrun : run step (launch unitCapacities .empty zoraOnly) failureAndDrop = some _ := rfl
  obtain ⟨hslept, -⟩ := subscriber_refines_run unitCapacities .empty zoraOnly failureAndDrop _ hrun
  exact ⟨_, hrun, rfl, hslept⟩

end Indexer

end ShadeIndexer.Bin
