import ShadeIndexer.Bin.Publication
import ShadeIndexer.Bin.Provenance

/-!
What `serve` leaves when it returns. It aborts the subscriber and awaits the
other three tasks. These stop after a bounded number of steps, and then the
Kafka log and the tables have been through the same deploys, the announced ones.
-/

namespace ShadeIndexer.Bin

open ShadeIndexer.Core Enrich Kafka Lib Lib.Rust Lib.Mpsc Lib.Relational Lib.Transition

namespace Indexer

/-- The two sinks side by side, on a database as it was at launch: the publishes
and the `process` calls of the same deploys in the same order. -/
structure SinksAgree (db : Database) (s : Indexer) (log : List Publication)
    (calls : List ProcessCall) : Prop where
  same : log.map Publication.deploy = calls.map fun call => call.upsert.deploy
  announced : s.announced = log.map Publication.deploy ++ s.lost
  lost : s.lost.length ≤ 1
  visible : s.pipeline.broker.visible = visibleRecords log
  results : s.pipeline.history.filterMap Event.kafka? = true :: log.map Publication.ok
  database : s.pipeline.db = processAll calls db
  accepted : .postgres false ∉ s.pipeline.history → ∀ call ∈ calls, call.upsert.Accepted
  keys : ∀ k, (∃ row ∈ s.pipeline.db.deploys.rows, row.key = k) ↔
    (∃ row ∈ db.deploys.rows, row.key = k) ∨
      ∃ call ∈ calls, call.upsert.Accepted ∧ call.upsert.key = k

/-- The subscriber is gone, and its sender with it. -/
structure Aborted (s : Indexer) : Prop where
  accounted : s.Accounted
  ended : s.subscriber = .ended

theorem Aborted.gone {s : Indexer} (h : s.Aborted) : s.pipeline.deployCh.senderAlive = false := by
  rw [h.accounted.sender, h.ended]
  rfl

/-- Only the other three tasks go on. -/
theorem Aborted.task {s next : Indexer} {action : Action} (h : s.Aborted)
    (hstep : StepSpec s action next) :
    ∃ (t : Task) (p : Pipeline), s.pipeline.step t.action = some p ∧
      next = { s with pipeline := p } := by
  have hended := h.ended
  cases hstep with
  | connectFailed hphase | connected hphase | subscribeFailed hphase | subscribed hphase
  | ignored hphase hdeploy | announced hphase hdeploy | streamEnded hphase | handed hphase hsend
  | refused hphase hsend | woke hphase =>
      rw [hphase] at hended
      cases hended
  | aborted hrunning =>
      rw [hended] at hrunning
      cases hrunning
  | task hstep => exact ⟨_, _, hstep, rfl⟩

theorem aborted_step (s : Indexer) (action : Action) (next : Indexer) (h : s.Aborted)
    (hstep : s.step action = some next) :
    next.Aborted ∧ next.pipeline.work < s.pipeline.work := by
  have hspec := step_spec hstep
  obtain ⟨t, p, htask, rfl⟩ := h.task hspec
  obtain ⟨-, -, hwork⟩ :=
    Pipeline.work_step h.accounted.pipeline.1 h.gone (Pipeline.step_spec htask)
  exact ⟨⟨accounted_step h.accounted hspec, h.ended⟩, hwork⟩

/-- The pipeline of an indexer that can do nothing more can do nothing more. -/
theorem Aborted.pipeline_stuck {s : Indexer} (h : s.Aborted) (hstuck : Stuck step s) :
    Stuck Pipeline.step s.pipeline := by
  have htask (t : Task) : s.pipeline.step t.action = none := by
    have hnone := hstuck (.task t)
    simp only [step] at hnone
    exact Option.map_eq_none_iff.mp hnone
  intro action
  cases action with
  | accept d => simp [Pipeline.step, Pipeline.accept, h.gone]
  | dropSubscriber => simp [Pipeline.step, Pipeline.dropSubscriber, h.gone]
  | fanout clock => exact htask (.fanout clock)
  | producer env => exact htask (.producer env)
  | worker env => exact htask (.worker env)

/-- The fan-out task ends only behind the subscriber. -/
theorem Accounted.ended_of_allEnded {s : Indexer} (h : s.Accounted) (hall : s.pipeline.AllEnded) :
    s.subscriber = .ended := by
  have hlink := h.pipeline.1.deploy
  have hsender : s.pipeline.deployCh.senderAlive = false :=
    (hlink.drained (by rw [hall.fanout]; rfl)).1
  rw [h.sender] at hsender
  cases hphase : s.subscriber with
  | ended => rfl
  | connecting | subscribing | streaming | sending d | sleeping =>
      rw [hphase] at hsender
      cases hsender

/-- Both sinks of an indexer all of whose tasks have ended. -/
theorem sinksAgree_of_allEnded {caps : Capacities} {db : Database} {reg : FactoryRegistry}
    {actions : List Action} {s : Indexer} (hserializes : Serializing actions)
    (hrun : run step (launch caps db reg) actions = some s) (hall : s.pipeline.AllEnded) :
    ∃ log calls, SinksAgree db s log calls := by
  have haccounted := (run_accounted hrun).1
  obtain ⟨log, hlog, -⟩ := run_published hserializes hrun
  obtain ⟨calls, hcalls⟩ := run_processed hrun
  obtain ⟨hpublished, hprocessed⟩ := hall.complete haccounted.pipeline.1 haccounted.pipeline.2
  have hdeploys : log.map Publication.deploy = s.pipeline.accepted := by
    have hlogged := hlog.deploys
    rw [hall.producer, hpublished] at hlogged
    simpa [ProducerLoop.inHand] using hlogged
  have htaken := (hcalls.finished (Or.inr hall.worker)).trans hprocessed
  have hannounced := haccounted.announced
  rw [haccounted.ended_of_allEnded hall] at hannounced
  refine ⟨log, calls, hdeploys.trans htaken.symm, ?_, haccounted.lost_length, hlog.visible,
    hlog.results, hcalls.database, hcalls.accepted, ?_⟩
  · rw [hannounced, hdeploys]
    simp [SubscriberTask.holding]
  · rw [hcalls.database]
    exact key_mem_processAll calls db

/-- Once `serve` has aborted the subscriber, the other tasks take a bounded
number of steps, in whatever order. When none can take another one, they have
ended, and the Kafka log and the tables have been through the same deploys:
every one that a received log announces, once and in order, but for the last if
the abort has lost it. -/
theorem shutdown_settles (caps : Capacities) (db : Database) (reg : FactoryRegistry)
    (actions : List Action) (s : Indexer) (hrun : run step (launch caps db reg) actions = some s)
    (hended : s.subscriber = .ended) (later : List Action) (t : Indexer)
    (hserializes : Serializing (actions ++ later)) (hlater : run step s later = some t) :
    later.length ≤ s.pipeline.work ∧
      (Stuck step t → t.pipeline.AllEnded ∧ ∃ log calls, SinksAgree db t log calls) := by
  have haborted : s.Aborted := ⟨(run_accounted hrun).1, hended⟩
  have hstill : t.Aborted :=
    run_invariant Aborted (fun u a next hu hnext => (aborted_step u a next hu hnext).1) haborted
      hlater
  refine ⟨run_length_le Aborted (fun u => u.pipeline.work) aborted_step haborted hlater, ?_⟩
  intro hstuck
  have hall := Pipeline.allEnded_of_stuck hstill.accounted.pipeline.1 hstill.gone
    (hstill.pipeline_stuck hstuck)
  have hwhole : run step (launch caps db reg) (actions ++ later) = some t := by
    rw [run_append, hrun]
    exact hlater
  exact ⟨hall, sinksAgree_of_allEnded hserializes hwhole hall⟩

/-- Tasks that have ended take no step. -/
theorem stuck_of_ended {s : Indexer} (hended : s.subscriber = .ended)
    (hall : s.pipeline.AllEnded) : Stuck step s := by
  intro action
  cases action with
  | task t =>
      have hnone : s.pipeline.step t.action = none := by
        cases t with
        | fanout clock => simp [Task.action, Pipeline.step, Pipeline.stepFanout, hall.fanout]
        | producer env => simp [Task.action, Pipeline.step, Pipeline.stepProducer, hall.producer]
        | worker env => simp [Task.action, Pipeline.step, Pipeline.stepWorker, hall.worker]
      simp [step, hnone]
  | _ => simp [step, hended]

/-- An abort behind one launch. -/
def abortedLaunch : List Action := [.connected, .subscribed, .log zoraLaunch, .sent, .aborted]

/-- The other tasks on their own, up to the end. The snapshot is not to be had. -/
def drainedLaunch : List Action :=
  [.task (.fanout 1700000000000000000), .task (.fanout 1700000000000000000),
    .task (.fanout 1700000000000000000), .task (.producer faultless), .task (.worker default),
    .task (.producer faultless), .task (.worker default), .task (.fanout 1700000000000000000),
    .task (.worker default), .task (.worker default), .task (.producer faultless)]

theorem drainedLaunch_serializes : Serializing (abortedLaunch ++ drainedLaunch) := by
  intro env henv
  have hfaultless : env = faultless := by simpa [abortedLaunch, drainedLaunch] using henv
  rw [hfaultless]
  exact fun i d => rfl

/-- A database with a launch of an earlier process. -/
def earlierLaunch : Database := processAll [successfulCall .clanker 0] .empty

/-- How the run ends: every task has, and no operation has failed. -/
theorem drainedLaunch_ends :
    ∃ s t, run step (launch unitCapacities earlierLaunch zoraOnly) abortedLaunch = some s ∧
      run step s drainedLaunch = some t ∧
      run step (launch unitCapacities earlierLaunch zoraOnly)
        (abortedLaunch ++ drainedLaunch) = some t ∧
      s.subscriber = .ended ∧ t.subscriber = .ended ∧ t.pipeline.AllEnded ∧
      t.pipeline.history =
        [.kafka true, .postgres true, .marked 1700000000000000000, .kafka true,
          .postgres true] := by
  obtain ⟨t, hboth⟩ : ∃ t, run step (launch unitCapacities earlierLaunch zoraOnly)
      (abortedLaunch ++ drainedLaunch) = some t := Option.isSome_iff_exists.mp rfl
  obtain ⟨s, hrun, hlater⟩ := run_split hboth
  have hleft : (run step (launch unitCapacities earlierLaunch zoraOnly) abortedLaunch).map
      (fun s => s.subscriber) = some .ended := rfl
  have hend : (run step (launch unitCapacities earlierLaunch zoraOnly)
      (abortedLaunch ++ drainedLaunch)).map (fun t => (t.subscriber, t.pipeline.fanout,
        t.pipeline.producer, t.pipeline.worker, t.pipeline.history)) =
      some (.ended, .ended, .ended, .ended,
        [.kafka true, .postgres true, .marked 1700000000000000000, .kafka true,
          .postgres true]) := rfl
  rw [hrun, Option.map_some, Option.some.injEq] at hleft
  rw [hboth, Option.map_some, Option.some.injEq] at hend
  obtain ⟨hended, hfanout, hproducer, hworker, hhistory⟩ := by simpa only [Prod.mk.injEq] using hend
  exact ⟨s, t, hrun, hlater, hboth, hleft, hended, ⟨hfanout, hproducer, hworker⟩, hhistory⟩

theorem shutdown_settles_oneLaunch :
    ∃ s t, run step (launch unitCapacities earlierLaunch zoraOnly) abortedLaunch = some s ∧
      run step s drainedLaunch = some t ∧ drainedLaunch.length ≤ s.pipeline.work ∧
      t.pipeline.AllEnded ∧ ∃ log calls, SinksAgree earlierLaunch t log calls := by
  obtain ⟨s, t, hrun, hlater, -, hended, hstill, hall, -⟩ := drainedLaunch_ends
  obtain ⟨hlength, hsettles⟩ := shutdown_settles unitCapacities earlierLaunch zoraOnly
    abortedLaunch s hrun hended drainedLaunch t drainedLaunch_serializes hlater
  exact ⟨s, t, hrun, hlater, hlength, hsettles (stuck_of_ended hstill hall)⟩

theorem eq_kafka_of_kafka? {event : Event} {ok : Bool} (h : event.kafka? = some ok) :
    event = .kafka ok := by
  cases event with
  | kafka b => rw [Option.some.inj h]
  | marked clock | postgres b => cases h

/-- If no publish and no statement has reported an error, nothing is missing:
the committed Kafka log is that of the announced deploys, each once and in their
order, and the table has got the keys of these deploys and no others. -/
theorem unreported_is_delivered (caps : Capacities) (db : Database) (reg : FactoryRegistry)
    (actions : List Action) (s : Indexer) (hserializes : Serializing actions)
    (hrun : run step (launch caps db reg) actions = some s) (hall : s.pipeline.AllEnded)
    (hkafka : .kafka false ∉ s.pipeline.history)
    (hpostgres : .postgres false ∉ s.pipeline.history) :
    ∃ delivered, s.announced = delivered ++ s.lost ∧ s.lost.length ≤ 1 ∧
      s.pipeline.broker.visible = delivered.map recordOf ∧
      ∀ k, (∃ row ∈ s.pipeline.db.deploys.rows, row.key = k) ↔
        (∃ row ∈ db.deploys.rows, row.key = k) ∨
          ∃ d ∈ delivered, (d.txHash.bytes, d.token.bytes) = k := by
  obtain ⟨log, calls, hagree⟩ := sinksAgree_of_allEnded hserializes hrun hall
  have hcommitted : ∀ entry ∈ log, entry.committed = true := by
    intro entry hentry
    apply entry.committed_of_ok
    cases hok : entry.ok with
    | true => rfl
    | false =>
        have hmem : false ∈ s.pipeline.history.filterMap Event.kafka? := by
          rw [hagree.results]
          exact List.mem_cons_of_mem _ (List.mem_map.mpr ⟨entry, hentry, hok⟩)
        obtain ⟨event, hevent, hfalse⟩ := List.mem_filterMap.mp hmem
        obtain rfl := eq_kafka_of_kafka? hfalse
        exact absurd hevent hkafka
  refine ⟨log.map Publication.deploy, hagree.announced, hagree.lost, ?_, ?_⟩
  · rw [hagree.visible, visibleRecords, List.filter_eq_self.mpr hcommitted, List.map_map]
    rfl
  · intro k
    rw [hagree.keys, hagree.same]
    apply or_congr_right
    constructor
    · rintro ⟨call, hcall, -, hkey⟩
      exact ⟨_, List.mem_map_of_mem hcall, hkey⟩
    · rintro ⟨d, hd, hkey⟩
      obtain ⟨call, hcall, rfl⟩ := List.mem_map.mp hd
      exact ⟨call, hcall, hagree.accepted hpostgres call hcall, hkey⟩

theorem unreported_is_delivered_oneLaunch :
    ∃ s delivered, run step (launch unitCapacities earlierLaunch zoraOnly)
        (abortedLaunch ++ drainedLaunch) = some s ∧
      s.announced = delivered ++ s.lost ∧ s.pipeline.broker.visible = delivered.map recordOf ∧
      ∀ k, (∃ row ∈ s.pipeline.db.deploys.rows, row.key = k) ↔
        (∃ row ∈ earlierLaunch.deploys.rows, row.key = k) ∨
          ∃ d ∈ delivered, (d.txHash.bytes, d.token.bytes) = k := by
  obtain ⟨-, s, -, -, hrun, -, -, hall, hhistory⟩ := drainedLaunch_ends
  obtain ⟨delivered, hannounced, -, hvisible, hkeys⟩ := unreported_is_delivered unitCapacities
    earlierLaunch zoraOnly (abortedLaunch ++ drainedLaunch) s drainedLaunch_serializes hrun hall
    (by simp [hhistory]) (by simp [hhistory])
  exact ⟨s, delivered, hrun, hannounced, hvisible, hkeys⟩

end Indexer

end ShadeIndexer.Bin
