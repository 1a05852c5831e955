import ShadeIndexer.Bin.Pipeline

/-!
Conservation along every interleaving. What the subscriber handed over is at
any moment in one place: already published, queued for Kafka, held by the
fan-out task or queued for it. The worker sees the same sequence, at most the
one deploy behind that the fan-out task holds.
-/

namespace ShadeIndexer.Bin

open ShadeIndexer.Core Enrich Kafka Lib.Mpsc Lib.Transition

/-- The deploy that has yet to be sent to the Kafka channel. -/
def Fanout.unpublished : Fanout → List NormalizedDeploy
  | .sendingKafka d => [d]
  | _ => []

/-- The deploy that the Kafka channel has got and the other one has not. -/
def Fanout.unprocessed : Fanout → List NormalizedDeploy
  | .sendingEnrich d => [d]
  | _ => []

def Fanout.running : Fanout → Bool
  | .ended => false
  | _ => true

def ProducerLoop.running : ProducerLoop → Bool
  | .ended => false
  | _ => true

def WorkerRun.running : WorkerRun → Bool
  | .ended => false
  | _ => true

theorem ProducerLoop.eq_ended {loop : ProducerLoop} (h : loop.running = false) :
    loop = .ended := by
  cases loop with
  | ended => rfl
  | receiving => cases h
  | publishing d => cases h

theorem WorkerRun.eq_ended {w : WorkerRun} (h : w.running = false) : w = .ended := by
  cases w with
  | ended => rfl
  | receiving => cases h
  | upserting d => cases h
  | fetching id => cases h
  | writing id e => cases h

namespace Pipeline

structure Ends (p : Pipeline) : Prop where
  deploy : p.deployCh.Link p.deployCh.senderAlive p.fanout.running
  kafka : p.kafkaCh.Link p.fanout.running p.producer.running
  enrich : p.enrichCh.Link p.fanout.running p.worker.running

theorem ends_launch (caps : Capacities) (db : Database) : (launch caps db).Ends :=
  ⟨.new _ caps.deploy_pos, .new _ caps.kafka_pos, .new _ caps.enrich_pos⟩

/-- The fan-out task never meets the closed Kafka sink that it checks for. -/
theorem Ends.kafkaOpen {p : Pipeline} (h : p.Ends) {d : NormalizedDeploy}
    (hphase : p.fanout = .sendingKafka d) : p.kafkaCh.send d ≠ .closed := by
  have hlink := h.kafka
  rw [hphase] at hlink
  exact hlink.send_ne_closed

/-- Nor the closed enrichment sink. -/
theorem Ends.enrichOpen {p : Pipeline} (h : p.Ends) {d : NormalizedDeploy}
    (hphase : p.fanout = .sendingEnrich d) : p.enrichCh.send d ≠ .closed := by
  have hlink := h.enrich
  rw [hphase] at hlink
  exact hlink.send_ne_closed

/-- Every step keeps the ends as they should be. -/
theorem ends_step {p next : Pipeline} {action : Action} (h : p.Ends)
    (hstep : StepSpec p action next) : next.Ends := by
  have hdeploy := h.deploy
  have hkafka := h.kafka
  have henrich := h.enrich
  cases hstep with
  | accepted halive hsend =>
      have hsent := hdeploy.sent hsend
      exact ⟨hsent.sender.symm ▸ hsent, hkafka, henrich⟩
  | subscriberDropped halive =>
      rw [halive] at hdeploy
      exact ⟨hdeploy.senderFinished, hkafka, henrich⟩
  | fanoutReceived hphase hrecv =>
      rw [hphase] at hdeploy hkafka henrich
      have hreceived := hdeploy.received hrecv
      exact ⟨hreceived.sender.symm ▸ hreceived, hkafka, henrich⟩
  | fanoutFinished hphase hrecv =>
      rw [hphase] at hdeploy hkafka henrich
      exact ⟨hdeploy.receiverFinished hrecv, hkafka.senderFinished, henrich.senderFinished⟩
  | kafkaSent hphase hsend =>
      rw [hphase] at hdeploy hkafka henrich
      exact ⟨hdeploy, hkafka.sent hsend, henrich⟩
  | kafkaSinkClosed hphase hsend => exact (h.kafkaOpen hphase hsend).elim
  | enrichSent hphase hsend =>
      rw [hphase] at hdeploy hkafka henrich
      exact ⟨hdeploy, hkafka, henrich.sent hsend⟩
  | enrichSinkClosed hphase hsend => exact (h.enrichOpen hphase hsend).elim
  | producerReceived hphase hrecv =>
      rw [hphase] at hkafka
      exact ⟨hdeploy, hkafka.received hrecv, henrich⟩
  | producerFinished hphase hrecv =>
      rw [hphase] at hkafka
      exact ⟨hdeploy, hkafka.receiverFinished hrecv, henrich⟩
  | publishReturned hphase =>
      rw [hphase] at hkafka
      exact ⟨hdeploy, hkafka, henrich⟩
  | workerReceived hphase hrecv =>
      rw [hphase] at henrich
      exact ⟨hdeploy, hkafka, henrich.received hrecv⟩
  | workerFinished hphase hrecv =>
      rw [hphase] at henrich
      exact ⟨hdeploy, hkafka, henrich.receiverFinished hrecv⟩
  | upsertFailed hphase hrun | upsertReturned hphase hrun | fetchFailed hphase hfetched
  | fetchReturned hphase hfetched | writeReturned hphase =>
      rw [hphase] at henrich
      exact ⟨hdeploy, hkafka, henrich⟩

structure Conserved (p : Pipeline) : Prop where
  accepted : p.accepted =
    p.published ++ p.kafkaCh.queue ++ p.fanout.unpublished ++ p.deployCh.queue
  published : p.published ++ p.kafkaCh.queue =
    p.processed ++ p.enrichCh.queue ++ p.fanout.unprocessed

theorem conserved_launch (caps : Capacities) (db : Database) : (launch caps db).Conserved :=
  ⟨rfl, rfl⟩

theorem conserved_step {p next : Pipeline} {action : Action} (hends : p.Ends)
    (h : p.Conserved) (hstep : StepSpec p action next) : next.Conserved := by
  obtain ⟨haccepted, hpublished⟩ := h
  cases hstep with
  | accepted halive hsend =>
      obtain ⟨_, hmoved⟩ := Channel.send_delivered hsend
      refine ⟨?_, hpublished⟩
      rw [hmoved.queue, haccepted, List.append_assoc _ p.deployCh.queue]
  | subscriberDropped halive => exact ⟨haccepted, hpublished⟩
  | fanoutReceived hphase hrecv =>
      obtain ⟨rest, hqueue, hmoved⟩ := Channel.recv_item hrecv
      rw [hphase] at haccepted hpublished
      refine ⟨?_, hpublished⟩
      rw [haccepted, hqueue, hmoved.queue]
      simp [Fanout.unpublished]
  | fanoutFinished hphase hrecv =>
      obtain ⟨hqueue, _⟩ := Channel.recv_ended hrecv
      rw [hphase, hqueue] at haccepted
      rw [hphase] at hpublished
      exact ⟨haccepted, hpublished⟩
  | kafkaSent hphase hsend =>
      obtain ⟨_, hmoved⟩ := Channel.send_delivered hsend
      rw [hphase] at haccepted hpublished
      constructor
      · simp only [haccepted, hmoved.queue, Fanout.unpublished, List.append_assoc,
          List.nil_append]
      · rw [hmoved.queue, ← List.append_assoc, hpublished]
        simp [Fanout.unprocessed]
  | kafkaSinkClosed hphase hsend => exact (hends.kafkaOpen hphase hsend).elim
  | enrichSent hphase hsend =>
      obtain ⟨_, hmoved⟩ := Channel.send_delivered hsend
      rw [hphase] at haccepted hpublished
      refine ⟨haccepted, ?_⟩
      rw [hpublished, hmoved.queue]
      simp [Fanout.unprocessed]
  | enrichSinkClosed hphase hsend => exact (hends.enrichOpen hphase hsend).elim
  | producerReceived hphase hrecv =>
      obtain ⟨rest, hqueue, hmoved⟩ := Channel.recv_item hrecv
      rw [hqueue] at haccepted hpublished
      constructor
      · simpa [hmoved.queue] using haccepted
      · simpa [hmoved.queue] using hpublished
  | producerFinished hphase hrecv =>
      obtain ⟨hqueue, _⟩ := Channel.recv_ended hrecv
      rw [hqueue] at haccepted hpublished
      exact ⟨haccepted, hpublished⟩
  | publishReturned hphase => exact ⟨haccepted, hpublished⟩
  | workerReceived hphase hrecv =>
      obtain ⟨rest, hqueue, hmoved⟩ := Channel.recv_item hrecv
      rw [hqueue] at hpublished
      refine ⟨haccepted, ?_⟩
      simpa [hmoved.queue] using hpublished
  | workerFinished hphase hrecv =>
      obtain ⟨hqueue, _⟩ := Channel.recv_ended hrecv
      rw [hqueue] at hpublished
      exact ⟨haccepted, hpublished⟩
  | upsertFailed hphase hrun | upsertReturned hphase hrun | fetchFailed hphase hfetched
  | fetchReturned hphase hfetched | writeReturned hphase => exact ⟨haccepted, hpublished⟩

/-- What the three sequences say of each other in every state. -/
structure PrefixChain (p : Pipeline) : Prop where
  processed : p.processed ++ p.enrichCh.queue <+: p.published ++ p.kafkaCh.queue
  published : p.published ++ p.kafkaCh.queue <+: p.accepted
  lag : (p.published ++ p.kafkaCh.queue).length ≤
    (p.processed ++ p.enrichCh.queue).length + 1

theorem Conserved.prefixChain {p : Pipeline} (h : p.Conserved) : p.PrefixChain := by
  obtain ⟨haccepted, hpublished⟩ := h
  refine ⟨?_, ?_, ?_⟩
  · rw [hpublished]
    exact List.prefix_append _ _
  · rw [haccepted, List.append_assoc]
    exact List.prefix_append _ _
  · have hheld : p.fanout.unprocessed.length ≤ 1 := by
      cases p.fanout <;> simp [Fanout.unprocessed]
    rw [hpublished, List.length_append]
    omega

end Pipeline

end ShadeIndexer.Bin
