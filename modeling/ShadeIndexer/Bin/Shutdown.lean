import ShadeIndexer.Bin.Conservation

/-!
Shutdown. Once the subscriber is gone every step brings the pipeline nearer to
its end, and a pipeline that can take no step has ended all three tasks. What
the conservation invariant then says is that nothing was left behind.
-/

namespace ShadeIndexer.Bin

open ShadeIndexer.Core Enrich Kafka Lib.Mpsc Lib.Transition

/-- How many steps are left at most for the deploy that a task holds, and for
ending the task. -/
def Fanout.work : Fanout → Nat
  | .receiving => 1
  | .sendingKafka _ => 9
  | .sendingEnrich _ => 6
  | .ended => 0

def ProducerLoop.work : ProducerLoop → Nat
  | .receiving => 1
  | .publishing _ => 2
  | .ended => 0

def WorkerRun.work : WorkerRun → Nat
  | .receiving => 1
  | .upserting _ => 4
  | .fetching _ _ => 3
  | .writing _ _ _ => 2
  | .ended => 0

namespace Pipeline

/-- A queued deploy counts for every await that it still has to pass. -/
def work (p : Pipeline) : Nat :=
  9 * p.deployCh.queue.length + p.fanout.work + 2 * p.kafkaCh.queue.length +
    p.producer.work + 4 * p.enrichCh.queue.length + p.worker.work

/-- Without a subscriber nothing more is accepted, and every step is work done. -/
theorem work_step {p next : Pipeline} {action : Action} (hends : p.Ends)
    (hgone : p.deployCh.senderAlive = false) (hstep : StepSpec p action next) :
    next.deployCh.senderAlive = false ∧ next.accepted = p.accepted ∧ next.work < p.work := by
  cases hstep with
  | accepted halive hsend =>
      rw [hgone] at halive
      cases halive
  | subscriberDropped halive =>
      rw [hgone] at halive
      cases halive
  | fanoutReceived hphase hrecv =>
      obtain ⟨rest, hqueue, hmoved⟩ := Channel.recv_item hrecv
      refine ⟨hmoved.senderAlive.trans hgone, rfl, ?_⟩
      simp only [work, hphase, hqueue, hmoved.queue, Fanout.work, List.length_cons]
      omega
  | fanoutFinished hphase hrecv =>
      refine ⟨hgone, rfl, ?_⟩
      simp only [work, endFanout, hphase, Fanout.work, Channel.dropReceiver, Channel.dropSender,
        List.length_nil]
      omega
  | kafkaSent hphase hsend =>
      obtain ⟨_, hmoved⟩ := Channel.send_delivered hsend
      refine ⟨hgone, rfl, ?_⟩
      simp only [work, hphase, hmoved.queue, Fanout.work, List.length_append,
        List.length_singleton]
      omega
  | kafkaSinkClosed hphase hsend => exact (hends.kafkaOpen hphase hsend).elim
  | enrichSent hphase hsend =>
      obtain ⟨_, hmoved⟩ := Channel.send_delivered hsend
      refine ⟨hgone, rfl, ?_⟩
      simp only [work, hphase, hmoved.queue, Fanout.work, List.length_append,
        List.length_singleton]
      omega
  | enrichSinkClosed hphase hsend => exact (hends.enrichOpen hphase hsend).elim
  | producerReceived hphase hrecv =>
      obtain ⟨rest, hqueue, hmoved⟩ := Channel.recv_item hrecv
      refine ⟨hgone, rfl, ?_⟩
      simp only [work, hphase, hqueue, hmoved.queue, ProducerLoop.work, List.length_cons]
      omega
  | producerFinished hphase hrecv =>
      refine ⟨hgone, rfl, ?_⟩
      simp only [work, endProducer, hphase, ProducerLoop.work, Channel.dropReceiver,
        List.length_nil]
      omega
  | publishReturned hphase =>
      refine ⟨hgone, rfl, ?_⟩
      simp only [work, hphase, ProducerLoop.work]
      omega
  | workerReceived hphase hrecv =>
      obtain ⟨rest, hqueue, hmoved⟩ := Channel.recv_item hrecv
      refine ⟨hgone, rfl, ?_⟩
      simp only [work, hphase, hqueue, hmoved.queue, WorkerRun.work, List.length_cons]
      omega
  | workerFinished hphase hrecv =>
      refine ⟨hgone, rfl, ?_⟩
      simp only [work, endWorker, hphase, WorkerRun.work, Channel.dropReceiver, List.length_nil]
      omega
  | upsertFailed hphase hrun | upsertReturned hphase hrun | fetchFailed hphase hfetched
  | fetchReturned hphase hfetched | writeReturned hphase =>
      refine ⟨hgone, rfl, ?_⟩
      simp only [work, hphase, WorkerRun.work]
      omega

structure AllEnded (p : Pipeline) : Prop where
  fanout : p.fanout = .ended
  producer : p.producer = .ended
  worker : p.worker = .ended

instance : Inhabited CallEnv where
  default :=
    { toVec := fun _ _ => .ok []
      beginTransaction := none
      send := fun _ => .ok
      abortTransaction := .ok
      commitTransaction := .ok }

instance : Inhabited WorkerEnv where
  default :=
    { now := 0
      upsertFault := none
      fetched := .error (.error (.message ""))
      write := ⟨0, none⟩ }

theorem stepFanout_eq_none {p : Pipeline} {clock : Int} (h : p.stepFanout clock = none) :
    p.fanout = .ended ∨ (p.fanout = .receiving ∧ p.deployCh.recv = .pending) ∨
      (∃ d, p.fanout = .sendingKafka d ∧ p.kafkaCh.send d = .full) ∨
      ∃ d, p.fanout = .sendingEnrich d ∧ p.enrichCh.send d = .full := by
  unfold stepFanout at h
  cases hphase : p.fanout with
  | receiving =>
      cases hrecv : p.deployCh.recv with
      | pending => exact Or.inr (Or.inl ⟨rfl, rfl⟩)
      | item d ch => simp [hphase, hrecv] at h
      | ended => simp [hphase, hrecv] at h
  | sendingKafka d =>
      cases hsend : p.kafkaCh.send d with
      | full => exact Or.inr (Or.inr (Or.inl ⟨d, rfl, hsend⟩))
      | delivered ch => simp [hphase, hsend] at h
      | closed => simp [hphase, hsend] at h
  | sendingEnrich d =>
      cases hsend : p.enrichCh.send d with
      | full => exact Or.inr (Or.inr (Or.inr ⟨d, rfl, hsend⟩))
      | delivered ch => simp [hphase, hsend] at h
      | closed => simp [hphase, hsend] at h
  | ended => exact Or.inl rfl

theorem stepProducer_eq_none {p : Pipeline} {env : CallEnv} (h : p.stepProducer env = none) :
    p.producer = .ended ∨ p.kafkaCh.recv = .pending := by
  unfold stepProducer at h
  cases hphase : p.producer with
  | receiving =>
      cases hrecv : p.kafkaCh.recv with
      | pending => exact Or.inr rfl
      | item d ch => simp [hphase, hrecv] at h
      | ended => simp [hphase, hrecv] at h
  | publishing d => simp [hphase] at h
  | ended => exact Or.inl rfl

/-- A worker that cannot go on, even if its next operation answers. -/
theorem stepWorker_eq_none {p : Pipeline} (h : p.stepWorker default = none) :
    p.worker = .ended ∨ p.enrichCh.recv = .pending := by
  unfold stepWorker at h
  cases hphase : p.worker with
  | receiving =>
      cases hrecv : p.enrichCh.recv with
      | pending => exact Or.inr rfl
      | item d ch => simp [hphase, hrecv] at h
      | ended => simp [hphase, hrecv] at h
  | upserting d =>
      rcases hupsert : upsertDeploy ⟨d, (default : WorkerEnv).now,
        (default : WorkerEnv).upsertFault⟩ p.db with ⟨result, db⟩
      cases result <;> simp [hphase, hupsert] at h
  | fetching d id =>
      have hfetched : (default : WorkerEnv).fetched = .error (.error (.message "")) := rfl
      simp [hphase, hfetched] at h
  | writing d id e => simp [hphase] at h
  | ended => exact Or.inl rfl

/-- Behind a receiver that cannot go on the queue is empty, and if its sender
has ended, so has it. -/
theorem idle_receiver {ch : Channel NormalizedDeploy} {sending receiving : Bool}
    (hlink : ch.Link sending receiving) (h : receiving = false ∨ ch.recv = .pending) :
    ch.queue = [] ∧ (sending = false → receiving = false) := by
  rcases h with hended | hpending
  · exact ⟨(hlink.drained hended).2, fun _ => hended⟩
  · obtain ⟨hqueue, hsender⟩ := Channel.recv_pending hpending
    refine ⟨hqueue, ?_⟩
    intro hsending
    rw [hlink.sender, hsending] at hsender
    cases hsender

/-- Capacities are positive, so no two tasks wait for each other: without a
subscriber, a pipeline in which no step is possible has ended every task. -/
theorem allEnded_of_stuck {p : Pipeline} (hends : p.Ends)
    (hgone : p.deployCh.senderAlive = false) (hstuck : Stuck step p) : p.AllEnded := by
  have hproducer : p.producer.running = false ∨ p.kafkaCh.recv = .pending :=
    (stepProducer_eq_none (hstuck (.producer default))).imp_left fun h => by rw [h]; rfl
  have hworker : p.worker.running = false ∨ p.enrichCh.recv = .pending :=
    (stepWorker_eq_none (hstuck (.worker default))).imp_left fun h => by rw [h]; rfl
  obtain ⟨hkafkaQueue, hproducerEnds⟩ := idle_receiver hends.kafka hproducer
  obtain ⟨henrichQueue, hworkerEnds⟩ := idle_receiver hends.enrich hworker
  have hfanout : p.fanout = .ended := by
    rcases stepFanout_eq_none (hstuck (.fanout 0)) with
      hended | ⟨_, hpending⟩ | ⟨d, _, hfull⟩ | ⟨d, _, hfull⟩
    · exact hended
    · have halive := (Channel.recv_pending hpending).2
      rw [hgone] at halive
      cases halive
    · exact (Channel.send_full hfull hkafkaQueue).elim
    · exact (Channel.send_full hfull henrichQueue).elim
  have hidle : p.fanout.running = false := by
    rw [hfanout]
    rfl
  have hproducerEnded := ProducerLoop.eq_ended (hproducerEnds hidle)
  have hworkerEnded := WorkerRun.eq_ended (hworkerEnds hidle)
  exact ⟨hfanout, hproducerEnded, hworkerEnded⟩

/-- When every task has ended, both sinks have seen everything. -/
theorem AllEnded.complete {p : Pipeline} (h : p.AllEnded) (hends : p.Ends)
    (hconserved : p.Conserved) : p.published = p.accepted ∧ p.processed = p.accepted := by
  have hdeployQueue : p.deployCh.queue = [] := (hends.deploy.drained (by rw [h.fanout]; rfl)).2
  have hkafkaQueue : p.kafkaCh.queue = [] := (hends.kafka.drained (by rw [h.producer]; rfl)).2
  have henrichQueue : p.enrichCh.queue = [] := (hends.enrich.drained (by rw [h.worker]; rfl)).2
  obtain ⟨haccepted, hpublished⟩ := hconserved
  simp only [h.fanout, hdeployQueue, hkafkaQueue, Fanout.unpublished, List.append_nil]
    at haccepted
  simp only [h.fanout, hkafkaQueue, henrichQueue, Fanout.unprocessed, List.append_nil]
    at hpublished
  exact ⟨haccepted.symm, hpublished.symm.trans haccepted.symm⟩

def Invariant (p : Pipeline) : Prop := p.Ends ∧ p.Conserved

theorem invariant_step {p next : Pipeline} {action : Action} (h : p.Invariant)
    (hstep : p.step action = some next) : next.Invariant :=
  ⟨ends_step h.1 (step_spec hstep), conserved_step h.1 h.2 (step_spec hstep)⟩

theorem invariant_run {caps : Capacities} {db : Database} {actions : List Action} {p : Pipeline}
    (hrun : run step (launch caps db) actions = some p) : p.Invariant :=
  run_invariant Invariant (fun _ _ _ => invariant_step)
    ⟨ends_launch caps db, conserved_launch caps db⟩ hrun

/-- What becomes of a pipeline whose subscriber is gone: however its tasks are
scheduled, they take a bounded number of steps, they do not stop before all of
them have ended, and then everything accepted has been handed to both sinks,
once and in order. -/
structure Drains (p : Pipeline) : Prop where
  bounded : ∀ actions q, run step p actions = some q → actions.length ≤ p.work
  ends : ∀ actions q, run step p actions = some q → Stuck step q → q.AllEnded
  complete : ∀ actions q, run step p actions = some q → q.AllEnded →
    q.published = p.accepted ∧ q.processed = p.accepted

/-- A state on the way from shutdown to the end. -/
structure Draining (accepted : List NormalizedDeploy) (p : Pipeline) : Prop where
  invariant : p.Invariant
  gone : p.deployCh.senderAlive = false
  accepted_eq : p.accepted = accepted

theorem draining_step {accepted : List NormalizedDeploy} (p : Pipeline) (action : Action)
    (next : Pipeline) (h : p.Draining accepted) (hstep : p.step action = some next) :
    next.Draining accepted ∧ next.work < p.work := by
  obtain ⟨hinv, hgone, haccepted⟩ := h
  obtain ⟨hstillGone, hsame, hwork⟩ := work_step hinv.1 hgone (step_spec hstep)
  exact ⟨⟨invariant_step hinv hstep, hstillGone, hsame.trans haccepted⟩, hwork⟩

theorem drains {p : Pipeline} (h : p.Invariant) (hgone : p.deployCh.senderAlive = false) :
    p.Drains := by
  have hstart : p.Draining p.accepted := ⟨h, hgone, rfl⟩
  have hreach : ∀ actions q, run step p actions = some q → q.Draining p.accepted :=
    fun actions q hrun =>
      run_invariant _ (fun s a next hs hnext => (draining_step s a next hs hnext).1) hstart hrun
  refine ⟨?_, ?_, ?_⟩
  · intro actions q hrun
    exact run_length_le _ work draining_step hstart hrun
  · intro actions q hrun hstuck
    obtain ⟨hinv, hdown, _⟩ := hreach actions q hrun
    exact allEnded_of_stuck hinv.1 hdown hstuck
  · intro actions q hrun hall
    obtain ⟨hinv, _, haccepted⟩ := hreach actions q hrun
    rw [← haccepted]
    exact hall.complete hinv.1 hinv.2

/-- In every state of every run the three sequences form a chain of prefixes,
and from a state whose subscriber is gone the pipeline drains. -/
theorem run_conserves (caps : Capacities) (db : Database) (actions : List Action) (p : Pipeline)
    (hrun : run step (launch caps db) actions = some p) :
    p.PrefixChain ∧ (p.deployCh.senderAlive = false → p.Drains) := by
  have hinv := invariant_run hrun
  exact ⟨hinv.2.prefixChain, drains hinv⟩

theorem run_conserves_aborted :
    ∃ p, run step (launch unitCapacities .empty)
        [.accept (launchAt 1 1700000000).deploy, .fanout 1700000000000000000,
          .dropSubscriber] = some p ∧
      p.PrefixChain ∧ p.Drains := by
  refine ⟨_, rfl, ?_⟩
  obtain ⟨hchain, hdrains⟩ := run_conserves unitCapacities .empty
    [.accept (launchAt 1 1700000000).deploy, .fanout 1700000000000000000, .dropSubscriber] _ rfl
  exact ⟨hchain, hdrains rfl⟩

end Pipeline

end ShadeIndexer.Bin
