import ShadeIndexer.Bin.Ingestion

/-!
A running indexer to which the node sends nothing. Its tasks come to rest after a
bounded number of steps, with the subscriber still there, and at rest both sinks
have been given everything. Before that, what is on its way to them is bounded
by the channels.
-/

namespace ShadeIndexer.Bin

open ShadeIndexer.Core Enrich Kafka Lib.Rust Lib.Mpsc Lib.Transition

namespace Pipeline

/-- The same pipeline, as if its subscriber were gone. -/
def silenced (p : Pipeline) : Pipeline := { p with deployCh := p.deployCh.dropSender }

theorem Ends.silenced {p : Pipeline} (h : p.Ends) : p.silenced.Ends where
  deploy := ⟨rfl, h.deploy.receiver, fun hreceiving => ⟨rfl, (h.deploy.drained hreceiving).2⟩⟩
  kafka := h.kafka
  enrich := h.enrich

/-- No task can tell the difference before its next deploy is due. -/
theorem step_silenced {p next : Pipeline} {t : Task} (h : StepSpec p t.action next) :
    StepSpec p.silenced t.action next.silenced := by
  cases t with
  | fanout clock =>
      cases h with
      | fanoutReceived hphase hrecv =>
          exact .fanoutReceived hphase (Channel.recv_dropSender hrecv)
      | fanoutFinished hphase hrecv =>
          obtain ⟨-, hsender⟩ := Channel.recv_ended hrecv
          have hsame : p.deployCh.dropSender = p.deployCh := by
            rw [Channel.dropSender, ← hsender]
          exact .fanoutFinished hphase (by rw [silenced, hsame, hrecv])
      | kafkaSent hphase hsend => exact .kafkaSent hphase hsend
      | kafkaSinkClosed hphase hsend => exact .kafkaSinkClosed hphase hsend
      | enrichSent hphase hsend => exact .enrichSent hphase hsend
      | enrichSinkClosed hphase hsend => exact .enrichSinkClosed hphase hsend
  | producer env =>
      cases h with
      | producerReceived hphase hrecv => exact .producerReceived hphase hrecv
      | producerFinished hphase hrecv => exact .producerFinished hphase hrecv
      | publishReturned hphase => exact .publishReturned hphase
  | worker env =>
      cases h with
      | workerReceived hphase hrecv => exact .workerReceived hphase hrecv
      | workerFinished hphase hrecv => exact .workerFinished hphase hrecv
      | upsertFailed hphase hrun => exact .upsertFailed hphase hrun
      | upsertReturned hphase hrun => exact .upsertReturned hphase hrun
      | fetchFailed hphase hfetched => exact .fetchFailed hphase hfetched
      | fetchReturned hphase hfetched => exact .fetchReturned hphase hfetched
      | writeReturned hphase => exact .writeReturned hphase

/-- So every step of a task is work done, as it is during shutdown. -/
theorem work_task {p next : Pipeline} {t : Task} (hends : p.Ends)
    (h : StepSpec p t.action next) : next.work < p.work :=
  (work_step hends.silenced rfl (step_silenced h)).2.2

/-- Nothing is on its way to a sink. -/
structure AtRest (p : Pipeline) : Prop where
  deployCh : p.deployCh.queue = []
  kafkaCh : p.kafkaCh.queue = []
  enrichCh : p.enrichCh.queue = []
  unpublished : p.fanout.unpublished = []
  unprocessed : p.fanout.unprocessed = []

/-- Tasks that cannot go on have nothing left to do. -/
theorem atRest_of_idle {p : Pipeline} (hends : p.Ends)
    (hidle : ∀ t : Task, p.step t.action = none) : p.AtRest := by
  have hproducer : p.producer.running = false ∨ p.kafkaCh.recv = .pending :=
    (stepProducer_eq_none (hidle (.producer default))).imp_left fun h => by rw [h]; rfl
  have hworker : p.worker.running = false ∨ p.enrichCh.recv = .pending :=
    (stepWorker_eq_none (hidle (.worker default))).imp_left fun h => by rw [h]; rfl
  obtain ⟨hkafkaQueue, -⟩ := idle_receiver hends.kafka hproducer
  obtain ⟨henrichQueue, -⟩ := idle_receiver hends.enrich hworker
  rcases stepFanout_eq_none (hidle (.fanout 0)) with
    hended | ⟨hphase, hpending⟩ | ⟨d, -, hfull⟩ | ⟨d, -, hfull⟩
  · have hdeployQueue := (hends.deploy.drained (by rw [hended]; rfl)).2
    exact ⟨hdeployQueue, hkafkaQueue, henrichQueue, by rw [hended]; rfl, by rw [hended]; rfl⟩
  · have hdeployQueue := (Channel.recv_pending hpending).1
    exact ⟨hdeployQueue, hkafkaQueue, henrichQueue, by rw [hphase]; rfl, by rw [hphase]; rfl⟩
  · exact (Channel.send_full hfull hkafkaQueue).elim
  · exact (Channel.send_full hfull henrichQueue).elim

end Pipeline

namespace Indexer

/-- The steps that the node has no part in: those of the other tasks, and the
send that the subscriber waits in. -/
def Internal : Action → Prop
  | .sent | .task _ => True
  | _ => False

/-- A deploy that waits to be sent has one more step to go than a queued one. -/
def pending (s : Indexer) : Nat := s.pipeline.work + 10 * s.subscriber.holding.length

theorem internal_step {s next : Indexer} {action : Action} (h : s.Accounted)
    (hinternal : Internal action) (hstep : StepSpec s action next) :
    next.announced = s.announced ∧ next.pending < s.pending := by
  cases hstep with
  | connectFailed | connected | subscribeFailed | subscribed | ignored | announced | streamEnded
  | woke | aborted => exact hinternal.elim
  | @handed d ch hphase hsend =>
      obtain ⟨hreceiver, hmoved⟩ := Channel.send_delivered hsend
      have hopen : (s.hand d ch).pipeline.deployCh.receiverAlive = true :=
        hmoved.receiverAlive.trans hreceiver
      rw [loopBack_of_open hopen]
      refine ⟨rfl, ?_⟩
      simp only [pending, hand, Pipeline.work, hmoved.queue, hphase, SubscriberTask.holding,
        List.length_append, List.length_singleton, List.length_nil]
      omega
  | refused hphase hsend =>
      have hopen := h.receiverAlive (by rw [hphase]; rfl)
      rw [Channel.send_closed hsend] at hopen
      cases hopen
  | task hstep =>
      have hwork := Pipeline.work_task h.pipeline.1 (Pipeline.step_spec hstep)
      exact ⟨rfl, Nat.add_lt_add_right hwork _⟩

/-- An indexer without an internal step holds nothing back. -/
theorem Accounted.atRest {s : Indexer} (h : s.Accounted)
    (hidle : ∀ a, Internal a → s.step a = none) :
    s.pipeline.AtRest ∧ s.subscriber.holding = [] := by
  have hrest : s.pipeline.AtRest := by
    apply Pipeline.atRest_of_idle h.pipeline.1
    intro t
    have hnone := hidle (.task t) trivial
    simp only [step] at hnone
    exact Option.map_eq_none_iff.mp hnone
  refine ⟨hrest, ?_⟩
  cases hphase : s.subscriber with
  | connecting | subscribing | streaming | sleeping | ended => rfl
  | sending d =>
      have hnone := hidle .sent trivial
      simp only [step, hphase, stepSent] at hnone
      cases hsend : s.pipeline.deployCh.send d with
      | delivered ch => simp [hsend] at hnone
      | full => exact (Channel.send_full hsend hrest.deployCh).elim
      | closed => simp [hsend] at hnone

/-- However the tasks are scheduled, an indexer that hears nothing more from the
node comes to rest after a bounded number of steps. It never rests before both
sinks have been given every announced deploy, once and in order, but for one
that an abort has lost. The tasks do not have to end for that. -/
theorem silence_settles (caps : Capacities) (db : Database) (reg : FactoryRegistry)
    (actions : List Action) (s : Indexer) (hrun : run step (launch caps db reg) actions = some s)
    (later : List Action) (hinternal : ∀ a ∈ later, Internal a) (t : Indexer)
    (hlater : run step s later = some t) :
    later.length ≤ s.pending ∧ t.announced = s.announced ∧ t.lost.length ≤ 1 ∧
      ((∀ a, Internal a → t.step a = none) →
        t.announced = t.pipeline.published ++ t.lost ∧
          t.announced = t.pipeline.processed ++ t.lost) := by
  have hstart := (run_accounted hrun).1
  have hsettling : t.Accounted ∧ t.announced = s.announced :=
    run_invariant_of Internal (fun u => u.Accounted ∧ u.announced = s.announced)
      (fun u a next ha hu hnext => ⟨accounted_step hu.1 (step_spec hnext),
        (internal_step hu.1 ha (step_spec hnext)).1.trans hu.2⟩)
      hinternal ⟨hstart, rfl⟩ hlater
  refine ⟨?_, hsettling.2, hsettling.1.lost_length, ?_⟩
  · exact run_length_le_of Internal Accounted pending
      (fun u a next ha hu hnext => ⟨accounted_step hu (step_spec hnext),
        (internal_step hu ha (step_spec hnext)).2⟩)
      hinternal hstart hlater
  · intro hidle
    obtain ⟨hrest, hholding⟩ := hsettling.1.atRest hidle
    obtain ⟨hkafka, henrichment⟩ := hsettling.1.traced
    rw [hrest.kafkaCh, hrest.unpublished, hrest.deployCh, hholding] at hkafka
    rw [hrest.enrichCh, hrest.unprocessed, hrest.unpublished, hrest.deployCh, hholding]
      at henrichment
    simp only [List.append_nil] at hkafka henrichment
    exact ⟨hkafka, henrichment⟩

/-- A launch that the subscriber is about to send. -/
def heardLaunch : List Action := [.connected, .subscribed, .log zoraLaunch]

/-- Its way to both sinks, with the subscriber waiting for more. -/
def settledLaunch : List Action :=
  [.sent, .task (.fanout 1700000000000000000), .task (.fanout 1700000000000000000),
    .task (.fanout 1700000000000000000),
    .task (.producer default), .task (.producer default), .task (.worker default),
    .task (.worker default), .task (.worker default)]

theorem settledLaunch_internal : ∀ a ∈ settledLaunch, Internal a := by
  simp [settledLaunch, Internal]

/-- Tasks that wait for a deploy which is not there, behind a subscriber that
waits for a log. -/
theorem idle_of_waiting {s : Indexer} (hsubscriber : s.subscriber = .streaming)
    (hfanout : s.pipeline.fanout = .receiving) (hproducer : s.pipeline.producer = .receiving)
    (hworker : s.pipeline.worker = .receiving) (hdeploy : s.pipeline.deployCh.recv = .pending)
    (hkafka : s.pipeline.kafkaCh.recv = .pending) (henrich : s.pipeline.enrichCh.recv = .pending) :
    ∀ a, Internal a → s.step a = none := by
  intro a ha
  cases a with
  | sent => simp [step, hsubscriber]
  | task t =>
      have hnone : s.pipeline.step t.action = none := by
        cases t with
        | fanout clock =>
            simp [Task.action, Pipeline.step, Pipeline.stepFanout, hfanout, hdeploy]
        | producer env =>
            simp [Task.action, Pipeline.step, Pipeline.stepProducer, hproducer, hkafka]
        | worker env => simp [Task.action, Pipeline.step, Pipeline.stepWorker, hworker, henrich]
      simp [step, hnone]
  | _ => exact ha.elim

theorem silence_settles_oneLaunch :
    ∃ s t, run step (launch unitCapacities .empty zoraOnly) heardLaunch = some s ∧
      run step s settledLaunch = some t ∧ settledLaunch.length ≤ s.pending ∧
      t.announced = s.announced ∧ t.announced.length = 1 ∧
      t.announced = t.pipeline.published ++ t.lost ∧
      t.announced = t.pipeline.processed ++ t.lost := by
  obtain ⟨t, hboth⟩ : ∃ t, run step (launch unitCapacities .empty zoraOnly)
      (heardLaunch ++ settledLaunch) = some t := Option.isSome_iff_exists.mp rfl
  obtain ⟨s, hrun, hlater⟩ := run_split hboth
  have hend : (run step (launch unitCapacities .empty zoraOnly)
      (heardLaunch ++ settledLaunch)).map (fun t => (t.subscriber, t.pipeline.fanout,
        t.pipeline.producer, t.pipeline.worker, t.pipeline.deployCh.recv, t.pipeline.kafkaCh.recv,
        t.pipeline.enrichCh.recv)) =
      some (.streaming, .receiving, .receiving, .receiving, .pending, .pending, .pending) := rfl
  have hone : (run step (launch unitCapacities .empty zoraOnly)
      (heardLaunch ++ settledLaunch)).map (fun t => t.announced.length) = some 1 := rfl
  rw [hboth, Option.map_some, Option.some.injEq] at hend hone
  obtain ⟨hsubscriber, hfanout, hproducer, hworker, hdeploy, hkafka, henrich⟩ := by
    simpa only [Prod.mk.injEq] using hend
  obtain ⟨hlength, hannounced, -, hrest⟩ := silence_settles unitCapacities .empty zoraOnly
    heardLaunch s hrun settledLaunch settledLaunch_internal t hlater
  obtain ⟨hpublished, hprocessed⟩ := hrest
    (idle_of_waiting hsubscriber hfanout hproducer hworker hdeploy hkafka henrich)
  exact ⟨s, t, hrun, hlater, hlength, hannounced, hone, hpublished, hprocessed⟩

/-- The channels keep their sizes. -/
structure Sized (caps : Capacities) (p : Pipeline) : Prop where
  deploy : p.deployCh.capacity = caps.deploy
  kafka : p.kafkaCh.capacity = caps.kafka
  enrich : p.enrichCh.capacity = caps.enrich

theorem sized_step {caps : Capacities} {p next : Pipeline} {action : Bin.Action}
    (h : Sized caps p) (hstep : Pipeline.StepSpec p action next) : Sized caps next := by
  obtain ⟨hdeploy, hkafka, henrich⟩ := h
  cases hstep with
  | accepted halive hsend => exact ⟨(Channel.send_capacity hsend).trans hdeploy, hkafka, henrich⟩
  | fanoutReceived hphase hrecv =>
      exact ⟨(Channel.recv_capacity hrecv).trans hdeploy, hkafka, henrich⟩
  | kafkaSent hphase hsend => exact ⟨hdeploy, (Channel.send_capacity hsend).trans hkafka, henrich⟩
  | enrichSent hphase hsend => exact ⟨hdeploy, hkafka, (Channel.send_capacity hsend).trans henrich⟩
  | producerReceived hphase hrecv =>
      exact ⟨hdeploy, (Channel.recv_capacity hrecv).trans hkafka, henrich⟩
  | workerReceived hphase hrecv =>
      exact ⟨hdeploy, hkafka, (Channel.recv_capacity hrecv).trans henrich⟩
  | _ => exact ⟨hdeploy, hkafka, henrich⟩

/-- The fan-out task holds one deploy at most. -/
theorem fanout_holds (f : Fanout) : f.unpublished.length + f.unprocessed.length ≤ 1 := by
  cases f <;> simp [Fanout.unpublished, Fanout.unprocessed]

theorem Accounted.held {s : Indexer} (h : s.Accounted) :
    s.subscriber.holding.length + s.lost.length ≤ 1 := by
  have hlost := h.lost_length
  have hkept := h.kept
  cases hphase : s.subscriber with
  | sending d =>
      rw [hphase] at hkept
      simp [SubscriberTask.holding, hkept rfl]
  | connecting | subscribing | streaming | sleeping | ended =>
      simpa [SubscriberTask.holding] using hlost

/-- Memory is bounded however slow the sinks are and however long the run: each
sink is behind the node by what fits into the channels before it and by two
deploys in between, and neither sink is ahead of the other by more than that. -/
theorem in_flight_bounded (caps : Capacities) (db : Database) (reg : FactoryRegistry)
    (actions : List Action) (s : Indexer) (hrun : run step (launch caps db reg) actions = some s) :
    s.announced.length ≤ s.pipeline.published.length + caps.kafka + caps.deploy + 2 ∧
      s.announced.length ≤ s.pipeline.processed.length + caps.enrich + caps.deploy + 2 ∧
      s.pipeline.published.length ≤ s.pipeline.processed.length + caps.enrich + 1 ∧
      s.pipeline.processed.length ≤ s.pipeline.published.length + caps.kafka := by
  obtain ⟨haccounted, abstract, habstract, -⟩ := run_accounted hrun
  have hsized : Sized caps s.pipeline :=
    run_invariant (Sized caps) (fun _ _ _ h hstep => sized_step h (Pipeline.step_spec hstep))
      ⟨rfl, rfl, rfl⟩ habstract
  have hdeployCh := s.pipeline.deployCh.bounded
  have hkafkaCh := s.pipeline.kafkaCh.bounded
  have henrichCh := s.pipeline.enrichCh.bounded
  rw [hsized.deploy] at hdeployCh
  rw [hsized.kafka] at hkafkaCh
  rw [hsized.enrich] at henrichCh
  have hfanout := fanout_holds s.pipeline.fanout
  have hheld := haccounted.held
  have hkafka := congrArg List.length haccounted.traced.kafka
  have henrichment := congrArg List.length haccounted.traced.enrichment
  simp only [List.length_append] at hkafka henrichment
  refine ⟨?_, ?_, ?_, ?_⟩ <;> omega

/-- Four launches while neither sink receives: every place before Kafka is taken. -/
def congestedLaunches : List Action :=
  [.connected, .subscribed, .log zoraLaunch, .sent, .task (.fanout 1700000000000000000),
    .task (.fanout 1700000000000000000), .task (.fanout 1700000000000000000), .log zoraLaunch,
    .sent, .task (.fanout 1700000001000000000), .log zoraLaunch, .sent, .log zoraLaunch]

theorem in_flight_bounded_congestedLaunches :
    ∃ s, run step (launch unitCapacities .empty zoraOnly) congestedLaunches = some s ∧
      s.announced.length = 4 ∧ s.pipeline.published = [] ∧
      s.announced.length ≤ s.pipeline.published.length + 1 + 1 + 2 := by
  have hrun : run step (launch unitCapacities .empty zoraOnly) congestedLaunches = some _ := rfl
  obtain ⟨hkafka, -⟩ := in_flight_bounded unitCapacities .empty zoraOnly congestedLaunches _ hrun
  exact ⟨_, hrun, rfl, rfl, hkafka⟩

end Indexer

end ShadeIndexer.Bin
