import ShadeIndexer.Sdk.Fifo

/-!
How a stream ends. The generator reads the closed flag only at the head of its
loop, and `close` resolves no waiter. So a generator that waits for a message
when the client is closed goes on waiting, and only a valid message that comes
before the consumer is disconnected ends the wait.
-/

namespace ShadeIndexer.Sdk

open ShadeIndexer.Core (Bytes)
open Lib.Transition

variable {JsonValue SyntaxError ZodError Deploy : Type}

/-- Whether the generator runs, which it only does for a call of `next()`. -/
def Generator.running : Generator Deploy → Bool
  | .suspendedStart => false
  | .suspendedYield => false
  | .completed => false
  | _ => true

namespace Stream

/-- `close()` has returned, and the promise that a `next()` call waits for stays
pending whatever happens from here on. -/
def Hung (codec : Codec JsonValue SyntaxError ZodError Deploy)
    (s : Stream SyntaxError ZodError Deploy) : Prop :=
  s.closeCall = .returned ∧ 0 < s.requests ∧
    ∃ p, s.generator = .awaiting p ∧
      ∀ actions after, run (step codec) s actions = some after →
        after.promises[p]? = some none

variable {codec : Codec JsonValue SyntaxError ZodError Deploy}
  {s after : Stream SyntaxError ZodError Deploy}

structure Invariant (s : Stream SyntaxError ZodError Deploy) : Prop where
  handover : Handover s
  pending : s.generator.running = true → 0 < s.requests
  started : s.generator = .suspendedStart ∨ s.consumer.isSome
  called : s.closed = false ↔ s.closeCall = .notCalled
  disconnecting : ∀ p, s.generator = .awaiting p → s.closeCall ≠ .waiting false
  disconnected : ∀ p, s.generator = .awaiting p → s.closeCall = .returned → s.receiving = false

theorem stream_invariant (client : IndexerClient) :
    Invariant (client.stream : Stream SyntaxError ZodError Deploy) where
  handover := stream_handover client
  pending := by simp [IndexerClient.stream, Generator.running]
  started := Or.inl rfl
  called := by simp [IndexerClient.stream]
  disconnecting := by simp [IndexerClient.stream]
  disconnected := by simp [IndexerClient.stream]

/-- The generator is not on its way into the wait for a message. -/
theorem Invariant.elsewhere (h : Invariant s) (hkept : Kept s after) (hhandover : Handover after)
    (hafter : ∀ p, after.generator ≠ .awaiting p)
    (hpending : after.generator.running = true → 0 < after.requests)
    (hstarted : after.generator = .suspendedStart ∨ after.consumer.isSome) : Invariant after where
  handover := hhandover
  pending := hpending
  started := hstarted
  called := by rw [hkept.closed, hkept.closeCall, h.called]
  disconnecting p hp := absurd hp (hafter p)
  disconnected p hp := absurd hp (hafter p)

theorem loop_awaiting {p : Nat} (h : s.loop.generator = .awaiting p) : s.closed = false := by
  cases hclosed : s.closed with
  | false => rfl
  | true => simp [loop, hclosed, complete] at h

theorem loop_invariant (hwaiters : s.waiters = []) (hpending : 0 < s.requests)
    (hstarted : s.consumer.isSome) (hcalled : s.closed = false ↔ s.closeCall = .notCalled) :
    Invariant s.loop where
  handover := (loop_spec hwaiters).1
  called := by rw [loop_kept.closed, loop_kept.closeCall, hcalled]
  pending := by
    unfold loop
    split
    · simp [complete, Generator.running]
    · split <;> simpa using fun _ => hpending
  started := by
    right
    unfold loop
    split
    · exact hstarted
    · split <;> exact hstarted
  disconnecting p hp := by
    rw [loop_kept.closeCall, hcalled.mp (loop_awaiting hp)]
    simp
  disconnected p hp hreturned := by
    rw [loop_kept.closeCall, hcalled.mp (loop_awaiting hp)] at hreturned
    cases hreturned

/-- What the invariant does not read may change, and calls may be added. -/
theorem Invariant.frame (h : Invariant s) (hhandover : Handover after)
    (hgenerator : after.generator = s.generator) (hrequests : s.requests ≤ after.requests)
    (hconsumer : after.consumer = s.consumer) (hclosed : after.closed = s.closed)
    (hcloseCall : after.closeCall = s.closeCall) : Invariant after where
  handover := hhandover
  pending hrunning := Nat.lt_of_lt_of_le (h.pending (hgenerator ▸ hrunning)) hrequests
  started := by rw [hgenerator, hconsumer]; exact h.started
  called := by rw [hclosed, hcloseCall, h.called]
  disconnecting p hp := by rw [hcloseCall]; exact h.disconnecting p (hgenerator ▸ hp)
  disconnected p hp hreturned := by
    rw [receiving, hconsumer]
    exact h.disconnected p (hgenerator ▸ hp) (hcloseCall ▸ hreturned)

theorem Invariant.isSome (h : Invariant s) (hstart : s.generator ≠ .suspendedStart) :
    s.consumer.isSome := h.started.resolve_left hstart

theorem Invariant.next (h : Invariant s) : Invariant s.next := by
  have hhandover := h.handover.next.1
  revert hhandover
  unfold Stream.next
  split
  next hgenerator =>
    intro hhandover
    refine h.elsewhere ⟨rfl, rfl, rfl, rfl⟩ hhandover ?_ ?_ ?_
    · simp
    · simp
    · exact Or.inr rfl
  next hgenerator =>
    intro _
    have hwaiters := h.handover.waiters_elsewhere (by simp [hgenerator])
    apply loop_invariant
    · exact hwaiters
    · exact Nat.succ_pos _
    · exact h.isSome (by simp [hgenerator])
    · exact h.called
  next hgenerator =>
    intro hhandover
    exact h.frame hhandover rfl (Nat.le_refl _) rfl rfl rfl
  next =>
    intro hhandover
    exact h.frame hhandover rfl (Nat.le_succ _) rfl rfl rfl

theorem running_of_settingUp {g : Generator Deploy} (h : g.settingUp = true) :
    g.running = true := by
  cases g with
  | connecting | subscribing _ _ | startingRun => rfl
  | suspendedStart | awaiting _ | yielding _ | suspendedYield | completed => cases h

theorem Invariant.subscribeAll (h : Invariant s) (hsetting : s.generator.settingUp = true)
    (topics : List String) : Invariant (s.subscribeAll topics) := by
  obtain ⟨hs, hoperand⟩ := settingUp_elsewhere hsetting
  have hhandover := (h.handover.subscribeAll hs hoperand topics).1
  have hpending := h.pending (running_of_settingUp hsetting)
  have hstart : s.generator ≠ .suspendedStart := by
    intro hgenerator
    simp [hgenerator, Generator.settingUp] at hsetting
  have hstarted := h.isSome hstart
  cases topics with
  | nil =>
      apply h.elsewhere (subscribeAll_kept _) hhandover
      · simp [Stream.subscribeAll]
      · exact fun _ => hpending
      · right
        simpa [Stream.subscribeAll] using hstarted
  | cons topic rest =>
      apply h.elsewhere (subscribeAll_kept _) hhandover
      · simp [Stream.subscribeAll]
      · exact fun _ => hpending
      · exact Or.inr hstarted

theorem Invariant.deliver (h : Invariant s) {d : Deploy} (hgenerator : s.generator = .yielding d) :
    Invariant (s.deliver d) := by
  have hhandover := (h.handover.deliver hgenerator).1
  have hstarted := h.isSome (by simp [hgenerator])
  revert hhandover
  unfold Stream.deliver
  simp only
  split
  next =>
    intro hhandover
    refine h.elsewhere ⟨rfl, rfl, rfl, rfl⟩ hhandover ?_ ?_ ?_
    · simp
    · simp [Generator.running]
    · exact Or.inr hstarted
  next hrequests =>
    intro _
    have hwaiters := h.handover.waiters_elsewhere (by simp [hgenerator])
    exact loop_invariant hwaiters (Nat.pos_of_ne_zero hrequests) hstarted h.called

theorem push_frame (d : Deploy) :
    (s.push d).generator = s.generator ∧ (s.push d).requests = s.requests ∧
      (s.push d).consumer = s.consumer := by
  unfold push
  split <;> exact ⟨rfl, rfl, rfl⟩

theorem Invariant.eachMessage (h : Invariant s) (value : Option Bytes) :
    Invariant (s.eachMessage codec value) := by
  have hhandover := (h.handover.eachMessage codec value).1
  cases hvalid : validDeploys codec (.message value) with
  | nil =>
      rw [eachMessage_ignored codec hvalid] at hhandover ⊢
      exact h.frame hhandover rfl (Nat.le_refl _) rfl rfl rfl
  | cons d rest =>
      have hpush := eachMessage_valid (s := s) hvalid
      obtain ⟨hgenerator, hrequests, hconsumer⟩ := push_frame (s := s) d
      rw [hpush] at hhandover ⊢
      exact h.frame hhandover hgenerator hrequests.ge hconsumer (push_kept d).closed
        (push_kept d).closeCall

theorem Invariant.close (h : Invariant s) : Invariant s.close where
  handover := h.handover.frame rfl rfl rfl rfl
  pending := h.pending
  started := h.started
  called := by simp [Stream.close]
  disconnecting p hp := by
    have hsome := h.isSome (by rw [show s.generator = .awaiting p from hp]; simp)
    simp [Stream.close, hsome]
  disconnected p hp hreturned := by simp [Stream.close] at hreturned

theorem Invariant.closeReturned (h : Invariant s) {disconnecting : Bool}
    (hcall : s.closeCall = .waiting disconnecting) : Invariant (s.closeReturned disconnecting) where
  handover := h.handover.frame rfl rfl rfl rfl
  pending := h.pending
  started := by
    refine h.started.imp_right fun hsome => ?_
    cases disconnecting <;> simpa [Stream.closeReturned] using hsome
  called := by
    have hclosed := h.called
    rw [hcall] at hclosed
    simpa [Stream.closeReturned] using hclosed
  disconnecting p hp := by simp [Stream.closeReturned]
  disconnected p hp hreturned := by
    have hdisconnecting : disconnecting = true := by
      have hwaiting := h.disconnecting p hp
      cases disconnecting with
      | true => rfl
      | false => exact absurd hcall hwaiting
    subst hdisconnecting
    cases hconsumer : s.consumer <;> simp [Stream.closeReturned, receiving, hconsumer]

theorem step_invariant {action : Action} (h : Invariant s)
    (hstep : step codec s action = some after) : Invariant after := by
  cases step_spec hstep with
  | next => exact h.next
  | connected hgenerator => exact h.subscribeAll (by rw [hgenerator]; rfl) _
  | @subscribed topic rest hgenerator =>
      have hsetting : s.generator.settingUp = true := by rw [hgenerator]; rfl
      have hnamed : Invariant
          { s with
            consumer := s.consumer.map fun c =>
              { c with subscriptions := c.subscriptions ++ [(topic, s.client.fromBeginning)] } } := by
        refine h.elsewhere ⟨rfl, rfl, rfl, rfl⟩ (h.handover.frame rfl rfl rfl rfl) ?_ ?_ ?_
        · exact (settingUp_elsewhere hsetting).1
        · exact h.pending
        · right
          simpa using h.isSome (by simp [hgenerator])
      exact hnamed.subscribeAll hsetting rest
  | running hgenerator =>
      have hwaiters := h.handover.waiters_elsewhere (by simp [hgenerator])
      apply loop_invariant hwaiters
      · exact h.pending (by rw [hgenerator]; rfl)
      · exact h.isSome (by simp [hgenerator])
      · exact h.called
  | setupFailed hsetting =>
      obtain ⟨hs, hoperand⟩ := settingUp_elsewhere hsetting
      have hstart : s.generator ≠ .suspendedStart := fun hgenerator => by
        simp [hgenerator, Generator.settingUp] at hsetting
      refine h.elsewhere ⟨rfl, rfl, rfl, rfl⟩ (h.handover.fail hs hoperand).1 ?_ ?_ ?_
      · simp [Stream.fail]
      · simp [Stream.fail, Generator.running]
      · exact Or.inr (h.isSome hstart)
  | message => exact h.eachMessage _
  | resumed hgenerator hpromise =>
      refine h.elsewhere ⟨rfl, rfl, rfl, rfl⟩ (h.handover.resume hgenerator hpromise).1 ?_ ?_ ?_
      · simp
      · exact fun _ => h.pending (by rw [hgenerator]; rfl)
      · exact Or.inr (h.isSome (by simp [hgenerator]))
  | delivered hgenerator => exact h.deliver hgenerator
  | close => exact h.close
  | closeReturned hcall => exact h.closeReturned hcall

theorem reachable_invariant {client : IndexerClient} {actions : List Action}
    (hrun : run (step codec) client.stream actions = some s) : Invariant s :=
  run_invariant Invariant (fun _ _ _ hinv hstep => step_invariant hinv hstep)
    (stream_invariant client) hrun

/-- The promise the generator waits for is pending, and no message may come. -/
structure Stranded (p : Nat) (s : Stream SyntaxError ZodError Deploy) : Prop where
  returned : s.closeCall = .returned
  silent : s.receiving = false
  awaiting : s.generator = .awaiting p
  unresolved : s.promises[p]? = some none

theorem step_stranded {p : Nat} {action : Action} (h : Stranded p s)
    (hstep : step codec s action = some after) : Stranded p after := by
  cases step_spec hstep with
  | next =>
      have hnext : s.next = { s with requests := s.requests + 1 } := by
        simp [Stream.next, h.awaiting]
      rw [hnext]
      exact ⟨h.returned, h.silent, h.awaiting, h.unresolved⟩
  | connected hgenerator | subscribed hgenerator | running hgenerator | delivered hgenerator =>
      rw [h.awaiting] at hgenerator
      cases hgenerator
  | setupFailed hgenerator =>
      rw [h.awaiting] at hgenerator
      cases hgenerator
  | message hreceiving =>
      rw [h.silent] at hreceiving
      cases hreceiving
  | resumed hgenerator hpromise =>
      rw [h.awaiting] at hgenerator
      cases hgenerator
      rw [h.unresolved] at hpromise
      cases hpromise
  | close hcall | closeReturned hcall =>
      rw [h.returned] at hcall
      cases hcall

/-- A stream hangs exactly if `close()` returns with a waiter registered. -/
theorem Invariant.hung_iff (h : Invariant s) :
    s.Hung codec ↔ s.closeCall = .returned ∧ s.waiters ≠ [] := by
  constructor
  · rintro ⟨hreturned, _, p, hawaiting, hpending⟩
    have hnone := hpending [] s rfl
    refine ⟨hreturned, ?_⟩
    cases h.handover with
    | elsewhere hgenerator => exact absurd hawaiting (hgenerator p)
    | waiting _ _ hwaiters => simp [hwaiters]
    | resolved q d hgenerator _ hpromise =>
        obtain rfl : p = q := by simpa [hawaiting] using hgenerator
        rw [hnone] at hpromise
        cases hpromise
  · rintro ⟨hreturned, hwaiters⟩
    cases h.handover with
    | elsewhere _ hnone | resolved _ _ _ hnone => exact absurd hnone hwaiters
    | waiting p hgenerator _ hpromise =>
        have hstranded : Stranded p s :=
          ⟨hreturned, h.disconnected p hgenerator hreturned, hgenerator, hpromise⟩
        refine ⟨hreturned, h.pending (by rw [hgenerator]; rfl), p, hgenerator, ?_⟩
        intro actions after hrun
        have hafter := run_invariant (Stranded p)
          (fun _ _ _ hinv hstep => step_stranded hinv hstep) hstranded hrun
        exact hafter.unresolved

theorem loop_closed (hclosed : s.closed = true) : s.loop = s.complete := by
  rw [loop, if_pos hclosed]

theorem next_closed_waiters (hclosed : s.closed = true) : s.next.waiters = s.waiters := by
  unfold Stream.next
  split
  · rfl
  · rw [loop_closed (s := { s with requests := s.requests + 1 }) hclosed]
    rfl
  · rfl
  · rfl

theorem deliver_closed_waiters (hclosed : s.closed = true) (d : Deploy) :
    (s.deliver d).waiters = s.waiters := by
  unfold Stream.deliver
  simp only
  split
  · rfl
  · rw [loop_closed
      (s := { s with answers := s.answers ++ [.value d], requests := s.requests - 1 }) hclosed]
    rfl

theorem subscribeAll_waiters (topics : List String) :
    (s.subscribeAll topics).waiters = s.waiters := by
  cases topics <;> rfl

theorem push_waiters (h : Handover s) (d : Deploy) : (s.push d).waiters = [] := by
  cases h with
  | elsewhere _ hwaiters | resolved _ _ _ hwaiters => simp [push, hwaiters]
  | waiting _ _ hwaiters => simp [push, hwaiters]

/-- Once the client is closed no waiter is registered any more, and one that is
there stays until a valid message comes. -/
theorem closed_step {action : Action} (h : Handover s) (hclosed : s.closed = true)
    (hstep : step codec s action = some after) :
    after.waiters ≠ [] ↔ s.waiters ≠ [] ∧ validDeploys codec action = [] := by
  have hsame (hwaiters : after.waiters = s.waiters) (hnone : validDeploys codec action = []) :
      after.waiters ≠ [] ↔ s.waiters ≠ [] ∧ validDeploys codec action = [] := by
    simp [hwaiters, hnone]
  cases step_spec hstep with
  | next => exact hsame (next_closed_waiters hclosed) rfl
  | connected => exact hsame (subscribeAll_waiters _) rfl
  | subscribed => exact hsame (subscribeAll_waiters _) rfl
  | running => exact hsame (by rw [loop_closed hclosed]; rfl) rfl
  | delivered => exact hsame (deliver_closed_waiters hclosed _) rfl
  | setupFailed | resumed | close | closeReturned => exact hsame rfl rfl
  | @message value =>
      cases hvalid : validDeploys codec (.message value) with
      | nil =>
          rw [eachMessage_ignored codec hvalid]
          simp
      | cons d rest =>
          rw [eachMessage_valid hvalid, push_waiters h d]
          simp

theorem step_closed {action : Action} (hclosed : s.closed = true)
    (hstep : step codec s action = some after) : after.closed = true := by
  obtain ⟨-, rfl⟩ | ⟨-, -, hkept⟩ | ⟨hkept, -⟩ := step_closeCall hstep
  · rfl
  · exact hkept.trans hclosed
  · exact hkept.trans hclosed

theorem closed_run {actions : List Action} (h : Handover s) (hclosed : s.closed = true)
    (hrun : run (step codec) s actions = some after) :
    after.waiters ≠ [] ↔ s.waiters ≠ [] ∧ actions.flatMap (validDeploys codec) = [] := by
  induction actions generalizing s with
  | nil =>
      obtain rfl := Option.some.inj hrun
      simp
  | cons a rest ih =>
      obtain ⟨t, hstep, hrest⟩ := run_cons hrun
      rw [ih (step_handover h hstep).1 (step_closed hclosed hstep) hrest,
        closed_step h hclosed hstep, List.flatMap_cons, List.append_eq_nil_iff, and_assoc]

/-- No waiter is left registered from the call of `close()` to its return. -/
def WaiterServed (codec : Codec JsonValue SyntaxError ZodError Deploy) (client : IndexerClient)
    (actions : List Action) : Prop :=
  ∀ before between after s,
    actions = before ++ .close :: (between ++ .closeReturned :: after) →
      run (step codec) (client.stream : Stream SyntaxError ZodError Deploy) before = some s →
        s.waiters = [] ∨ between.flatMap (validDeploys codec) ≠ []

/-- A run in whose end `close()` has returned called it and came back from it. -/
theorem run_returned {client : IndexerClient} {actions : List Action}
    (hrun : run (step codec) client.stream actions = some s) (hreturned : s.closeCall = .returned) :
    ∃ before between after t, actions = before ++ .close :: (between ++ .closeReturned :: after) ∧
      run (step codec) client.stream before = some t ∧
      run (step codec) t (.close :: (between ++ .closeReturned :: after)) = some s := by
  obtain ⟨before, a, rest, t, u, rfl, hbefore, hopen, hcall, hcalled, hrest⟩ :=
    run_crossing (fun t : Stream SyntaxError ZodError Deploy => t.closeCall ≠ .notCalled)
      (by simp [IndexerClient.stream]) (by simp [hreturned]) hrun
  rw [not_not] at hopen
  obtain ⟨rfl, rfl⟩ | ⟨-, hnot, -⟩ | ⟨-, hkept⟩ := step_closeCall hcall
  · obtain ⟨between, b, after, v, w, rfl, -, hwaiting, hback, hdone, -⟩ :=
      run_crossing (fun t : Stream SyntaxError ZodError Deploy => t.closeCall = .returned)
        (by simp [Stream.close]) hreturned hrest
    obtain ⟨-, rfl⟩ | ⟨rfl, -, -⟩ | ⟨-, hkept⟩ := step_closeCall hback
    · simp [Stream.close] at hdone
    · refine ⟨before, between, after, t, rfl, hbefore, ?_⟩
      rw [run, hcall]
      exact hrest
    · exact absurd (hkept ▸ hdone) hwaiting
  · exact absurd hopen hnot
  · exact absurd (hkept.trans hopen) hcalled

/-- After `close()` has returned, a stream hangs if a waiter was registered when
it was called and no valid message has come since. -/
theorem hung_after_close {client : IndexerClient} {before rest : List Action}
    (hbefore : run (step codec) client.stream before = some s)
    (hrest : run (step codec) s (.close :: rest) = some after)
    (hreturned : after.closeCall = .returned) :
    after.Hung codec ↔ s.waiters ≠ [] ∧ rest.flatMap (validDeploys codec) = [] := by
  have hafter : run (step codec) client.stream (before ++ .close :: rest) = some after := by
    rw [run_append, hbefore]
    exact hrest
  obtain ⟨t, hclose, hrun⟩ := run_cons hrest
  cases step_spec hclose
  have hclosed : Handover s.close := (run_handover (stream_handover client) hbefore).frame
    rfl rfl rfl rfl
  rw [(reachable_invariant hafter).hung_iff, closed_run hclosed rfl hrun]
  exact and_iff_right hreturned

/-- No `next()` call of a run is left hanging by `close()` if and only if no
waiter is registered when it is called, or a valid message comes before it
returns. -/
theorem neverHung_iff (codec : Codec JsonValue SyntaxError ZodError Deploy)
    (client : IndexerClient) {actions : List Action}
    (hrun : run (step codec) client.stream actions = some s) :
    (∀ before after t, actions = before ++ after →
      run (step codec) client.stream before = some t → ¬ t.Hung codec) ↔
      WaiterServed codec client actions := by
  constructor
  · intro hnever before between after t hactions hbefore
    by_contra hserved
    obtain ⟨hwaiters, hnone⟩ := not_or.mp hserved
    rw [not_not] at hnone
    have hsplit : actions = (before ++ .close :: (between ++ [.closeReturned])) ++ after := by
      simp [hactions]
    obtain ⟨u, hreturn, -⟩ := run_split (hsplit ▸ hrun)
    have hclosing : run (step codec) t (.close :: (between ++ [.closeReturned])) = some u := by
      rwa [run_append, hbefore] at hreturn
    have hreturned : u.closeCall = .returned := by
      obtain ⟨_, _, hrest⟩ := run_cons hclosing
      obtain ⟨_, _, hlast⟩ := run_split hrest
      obtain ⟨v, hback, hend⟩ := run_cons hlast
      obtain rfl := Option.some.inj hend
      cases step_spec hback
      rfl
    apply hnever _ after u hsplit hreturn
    apply (hung_after_close hbefore hclosing hreturned).mpr
    exact ⟨hwaiters, by simp [hnone, validDeploys]⟩
  · intro hserved before after t hactions hbefore hhung
    obtain ⟨first, between, last, u, rfl, hfirst, hclosing⟩ := run_returned hbefore hhung.1
    obtain ⟨hwaiters, hnone⟩ := (hung_after_close hfirst hclosing hhung.1).mp hhung
    rw [List.flatMap_append, List.append_eq_nil_iff] at hnone
    rcases hserved first between (last ++ after) u (by simp [hactions]) hfirst with hidle | hvalid
    · exact hwaiters hidle
    · exact hvalid hnone.1

/-- The consumer waits for its first deploy when the client is closed. -/
def closedWhileWaiting : List Action := setup ++ [.close, .closeReturned]

theorem closedWhileWaiting_run :
    ∃ s, run (step characterCodec) defaultClient.stream closedWhileWaiting = some s ∧
      s.Hung characterCodec := by
  have hrun : run (step characterCodec) defaultClient.stream closedWhileWaiting = some _ := rfl
  exact ⟨_, hrun, (reachable_invariant hrun).hung_iff.mpr ⟨rfl, by decide⟩⟩

theorem closed_next_left_hanging :
    ¬ ∀ (client : IndexerClient) (actions : List Action) (s : Stream Unit Unit String),
      run (step characterCodec) client.stream actions = some s → ¬ s.Hung characterCodec := by
  intro hnever
  obtain ⟨s, hrun, hhung⟩ := closedWhileWaiting_run
  exact hnever defaultClient closedWhileWaiting s hrun hhung

theorem neverHung_iff_closedWhileWaiting :
    ¬ WaiterServed characterCodec defaultClient closedWhileWaiting := by
  intro hserved
  obtain ⟨s, hrun, hhung⟩ := closedWhileWaiting_run
  have hnever := (neverHung_iff characterCodec defaultClient hrun).mpr hserved
  exact hnever closedWhileWaiting [] s (List.append_nil _).symm hrun hhung

end Stream

end ShadeIndexer.Sdk
