import ShadeIndexer.Lib.Simulation
import ShadeIndexer.Sdk.Streams

/-!
What becomes of the consumers of a client with several streams. Each stream runs
as if it were the only one, and only `close()` takes a consumer away, from one of
them. The others go on receiving, with nobody to read what they receive.
-/

namespace ShadeIndexer.Sdk

open Lib.Transition

variable {JsonValue SyntaxError ZodError Deploy : Type}

namespace Stream

variable {codec : Codec JsonValue SyntaxError ZodError Deploy}
  {s after : Stream SyntaxError ZodError Deploy} {action : Action}

theorem own_closeCall (hown : action.own = true) (hstep : step codec s action = some after) :
    after.closeCall = s.closeCall := by
  obtain ⟨rfl, -⟩ | ⟨rfl, -, -⟩ | ⟨-, hsame⟩ := step_closeCall hstep
  · cases hown
  · cases hown
  · exact hsame

/-- Before the body runs there is no consumer. -/
def Unstarted (s : Stream SyntaxError ZodError Deploy) : Prop :=
  s.generator = .suspendedStart → s.consumer = none

/-- No step of the stream itself takes its consumer away. -/
structure ConsumerKept (s after : Stream SyntaxError ZodError Deploy) : Prop where
  unstarted : Unstarted after
  isSome : s.consumer.isSome → after.consumer.isSome
  receiving : s.receiving = true → after.receiving = true

theorem consumerKept_of_eq (h : Unstarted s) (hconsumer : after.consumer = s.consumer)
    (hgenerator : after.generator = .suspendedStart → s.generator = .suspendedStart) :
    ConsumerKept s after where
  unstarted hstart := hconsumer.trans (h (hgenerator hstart))
  isSome hsome := by rwa [hconsumer]
  receiving hreceiving := by rwa [Stream.receiving, hconsumer]

theorem loop_consumer : s.loop.consumer = s.consumer ∧ s.loop.generator ≠ .suspendedStart := by
  unfold loop
  split
  · exact ⟨rfl, by simp [complete]⟩
  · split
    · exact ⟨rfl, by simp⟩
    · exact ⟨rfl, by simp⟩

theorem subscribeAll_consumerKept (hgenerator : s.generator ≠ .suspendedStart)
    (topics : List String) : ConsumerKept s (s.subscribeAll topics) := by
  cases topics with
  | cons topic rest =>
      exact consumerKept_of_eq (fun hstart => absurd hstart hgenerator) rfl (by simp [subscribeAll])
  | nil =>
      refine ⟨by simp [Unstarted, subscribeAll], by simp [subscribeAll], ?_⟩
      intro hreceiving
      simp only [subscribeAll, Stream.receiving] at hreceiving ⊢
      cases hconsumer : s.consumer with
      | none => simp [hconsumer] at hreceiving
      | some c => rfl

theorem own_consumerKept (h : Unstarted s) (hown : action.own = true)
    (hstep : step codec s action = some after) : ConsumerKept s after := by
  cases step_spec hstep with
  | next =>
      unfold Stream.next
      split
      next hgenerator =>
        have hnone := h hgenerator
        exact ⟨by simp [Unstarted], by simp, by simp [Stream.receiving, hnone]⟩
      next hgenerator =>
        obtain ⟨hconsumer, hstart⟩ := loop_consumer (s := { s with requests := s.requests + 1 })
        exact consumerKept_of_eq h hconsumer fun hagain => absurd hagain hstart
      next => exact consumerKept_of_eq h rfl id
      next => exact consumerKept_of_eq h rfl id
  | connected hgenerator => exact subscribeAll_consumerKept (by simp [hgenerator]) _
  | @subscribed topic rest hgenerator =>
      have hrest : ConsumerKept _ (s.subscribed topic rest) :=
        subscribeAll_consumerKept (by simp [hgenerator]) rest
      refine ⟨hrest.unstarted, fun hsome => hrest.isSome (by simpa using hsome), ?_⟩
      intro hreceiving
      apply hrest.receiving
      rw [Stream.receiving, Option.any_map]
      exact hreceiving
  | running =>
      obtain ⟨hconsumer, hstart⟩ := loop_consumer (s := s)
      exact consumerKept_of_eq h hconsumer fun hagain => absurd hagain hstart
  | setupFailed => exact consumerKept_of_eq h rfl (by simp [fail])
  | @message value =>
      cases hvalid : validDeploys codec (.message value) with
      | nil =>
          rw [eachMessage_ignored codec hvalid]
          exact consumerKept_of_eq h rfl id
      | cons d rest =>
          obtain ⟨hgenerator, -, hconsumer⟩ := push_frame (s := s) d
          rw [eachMessage_valid hvalid]
          exact consumerKept_of_eq h hconsumer fun hstart => hgenerator.symm.trans hstart
  | resumed hgenerator => exact consumerKept_of_eq h rfl (by simp)
  | @delivered d hgenerator =>
      unfold deliver
      dsimp only
      split
      · exact consumerKept_of_eq h rfl (by simp)
      · obtain ⟨hconsumer, hstart⟩ := loop_consumer
          (s := { s with answers := s.answers ++ [.value d], requests := s.requests - 1 })
        exact consumerKept_of_eq h hconsumer fun hagain => absurd hagain hstart
  | close | closeReturned => cases hown

/-- A message is one deploy at most. -/
theorem validDeploys_one {d : Deploy} {rest : List Deploy}
    (h : validDeploys codec action = d :: rest) : rest = [] := by
  unfold validDeploys at h
  split at h
  · split at h
    · exact (List.cons.inj h).2.symm
    · cases h
  · cases h

/-- While nobody calls `next()`, a generator that does not run only collects. -/
theorem idle_step (h : Handover s) (hidle : s.generator.running = false)
    (hown : action.own = true) (hnext : action ≠ .next)
    (hstep : step codec s action = some after) :
    after.generator = s.generator ∧ after.yielded = s.yielded ∧
      after.queue = s.queue ++ validDeploys codec action := by
  have hcontra (hrunning : s.generator.running = true) : False := by
    rw [hidle] at hrunning
    cases hrunning
  cases step_spec hstep with
  | next => exact absurd rfl hnext
  | connected hgenerator | subscribed hgenerator | running hgenerator | resumed hgenerator
  | delivered hgenerator => exact (hcontra (by rw [hgenerator]; rfl)).elim
  | setupFailed hsetting => exact (hcontra (running_of_settingUp hsetting)).elim
  | close | closeReturned => cases hown
  | @message value =>
      cases hvalid : validDeploys codec (.message value) with
      | nil =>
          rw [eachMessage_ignored codec hvalid]
          exact ⟨rfl, rfl, (List.append_nil _).symm⟩
      | cons d rest =>
          have hwaiters : s.waiters = [] := by
            apply h.waiters_elsewhere
            intro p hawaiting
            exact hcontra (by rw [hawaiting]; rfl)
          obtain rfl := validDeploys_one hvalid
          rw [eachMessage_valid hvalid]
          simp [push, hwaiters, yielded]

end Stream

namespace ClientState

variable {codec : Codec JsonValue SyntaxError ZodError Deploy}
  {s after : ClientState SyntaxError ZodError Deploy} {a : ClientAction}

/-- A stream and what the client knows of it. -/
structure Tracks (s : ClientState SyntaxError ZodError Deploy) (i : Nat)
    (h : Handle SyntaxError ZodError Deploy) : Prop where
  handover : Stream.Handover h.stream
  unstarted : Stream.Unstarted h.stream
  idle : h.returned = true → h.stream.generator.running = false
  unclosed : s.closeCall = .notCalled → h.stream.closeCall = .notCalled
  closing : s.closeCall = .waiting (some i) → h.stream.closeCall = .waiting true
  current : s.consumer = some i → h.stream.consumer.isSome

structure Invariant (s : ClientState SyntaxError ZodError Deploy) : Prop where
  tracks : ∀ i h, s.handles[i]? = some h → Tracks s i h
  absent : ∀ i, s.handles[i]? = none → s.consumer ≠ some i ∧ s.closeCall ≠ .waiting (some i)

theorem Tracks.elsewhere {i : Nat} {h : Handle SyntaxError ZodError Deploy} (ht : Tracks s i h)
    (helsewhere : Elsewhere s i after) : Tracks after i h where
  handover := ht.handover
  unstarted := ht.unstarted
  idle := ht.idle
  unclosed hcall := ht.unclosed (helsewhere.unclosed hcall)
  closing hcall := ht.closing (helsewhere.closing hcall)
  current hconsumer := ht.current (helsewhere.current hconsumer)

theorem Tracks.fresh {i : Nat} (hconsumer : s.consumer ≠ some i)
    (hcall : s.closeCall ≠ .waiting (some i)) : Tracks s i s.fresh where
  handover := by
    have hstart : Stream.Handover (s.client.stream : Stream SyntaxError ZodError Deploy) :=
      Stream.stream_handover s.client
    unfold ClientState.fresh
    dsimp only
    split
    · exact hstart
    · exact hstart.frame rfl rfl rfl rfl
  unstarted := by
    intro _
    unfold ClientState.fresh
    dsimp only
    split <;> rfl
  idle := fun hreturned => by cases hreturned
  unclosed := by
    intro hnot
    rw [ClientState.fresh, if_pos hnot]
    rfl
  closing hwaiting := absurd hwaiting hcall
  current hsome := absurd hsome hconsumer

/-- A stream that starts has a consumer. -/
theorem isSome_of_starts {stream stream' : Stream SyntaxError ZodError Deploy} {action : Action}
    (hstarts : stream.starts action = true) (hstep : stream.step codec action = some stream') :
    stream'.consumer.isSome := by
  unfold Stream.starts at hstarts
  split at hstarts
  · rename_i hgenerator
    obtain rfl := Option.some.inj hstep
    simp [Stream.next, hgenerator]
  · cases hstarts

theorem HandleStep.tracks {i : Nat} {h h' : Handle SyntaxError ZodError Deploy}
    (ht : Tracks s i h) (hstep : HandleStep codec s i h a after h') : Tracks after i h' := by
  cases hstep with
  | untouched _ helsewhere => exact ht.elsewhere helsewhere
  | late _ helsewhere =>
      have hold := ht.elsewhere helsewhere
      exact ⟨hold.handover, hold.unstarted, hold.idle, hold.unclosed, hold.closing, hold.current⟩
  | left hidle helsewhere =>
      have hold := ht.elsewhere helsewhere
      exact ⟨hold.handover, hold.unstarted, fun _ => hidle, hold.unclosed, hold.closing,
        hold.current⟩
  | @own action stream _ hown hactive hstream hclose hcurrent =>
      have hkept := Stream.own_consumerKept ht.unstarted hown hstream
      have hcall := Stream.own_closeCall hown hstream
      refine ⟨(Stream.step_handover ht.handover hstream).1, hkept.unstarted, ?_, ?_, ?_, ?_⟩
      · intro hreturned
        obtain ⟨hgenerator, -⟩ := Stream.idle_step ht.handover (ht.idle hreturned) hown
          (hactive hreturned) hstream
        rw [hgenerator]
        exact ht.idle hreturned
      · intro hnot
        exact hcall.trans (ht.unclosed (hclose.symm.trans hnot))
      · intro hwaiting
        exact hcall.trans (ht.closing (hclose.symm.trans hwaiting))
      · intro hconsumer
        rcases hcurrent hconsumer with hold | hstarts
        · exact hkept.isSome (ht.current hold)
        · exact isSome_of_starts hstarts hstream
  | close hcall =>
      refine ⟨ht.handover.frame rfl rfl rfl rfl, ht.unstarted, ht.idle, ?_, ?_, ht.current⟩
      · intro hnot
        cases hnot
      · intro hwaiting
        have hconsumer : s.consumer = some i := by simpa [ClientState.close] using hwaiting
        simp [Stream.close, ht.current hconsumer]
  | disconnected hcall =>
      refine ⟨ht.handover.frame rfl rfl rfl rfl, ?_, ht.idle, ?_, ?_, ?_⟩
      · intro hstart
        have hnone := ht.unstarted hstart
        simp [Stream.closeReturned, hnone]
      · intro hnot
        cases hnot
      · intro hwaiting
        cases hwaiting
      · intro hconsumer
        have hsome := ht.current hconsumer
        simpa [Stream.closeReturned] using hsome

theorem step_invariant (h : Invariant s) (hstep : step codec s a = some after) :
    Invariant after where
  tracks := by
    intro i h' hi
    obtain ⟨hnone, rfl, rfl⟩ | ⟨handle, hhandle, hspec⟩ := step_handle hstep hi
    · obtain rfl := Option.some.inj hstep
      have hfresh := Tracks.fresh (h.absent i hnone).1 (h.absent i hnone).2
      exact hfresh.elsewhere (elsewhere_of_eq rfl rfl)
    · exact hspec.tracks (h.tracks i handle hhandle)
  absent := by
    intro i hi
    obtain ⟨hnone, -, hkept⟩ := step_absent hstep hi
    exact hkept (h.absent i hnone)

theorem state_invariant (client : IndexerClient) :
    Invariant (client.state : ClientState SyntaxError ZodError Deploy) where
  tracks := by
    intro i h hi
    cases hi
  absent := fun i _ => ⟨by simp [IndexerClient.state], by simp [IndexerClient.state]⟩

theorem reachable_invariant {client : IndexerClient} {actions : List ClientAction}
    (hrun : run (step codec) client.state actions = some s) : Invariant s :=
  run_invariant Invariant (fun _ _ _ hinv hstep => step_invariant hinv hstep)
    (state_invariant client) hrun

/-- A step of the client is a run of the stream. -/
theorem HandleStep.run_own {i : Nat} {h h' : Handle SyntaxError ZodError Deploy}
    (ht : Tracks s i h) (hstep : HandleStep codec s i h a after h') :
    ∃ own, run (Stream.step codec) h.stream own = some h'.stream ∧
      own.flatMap (validDeploys codec) = a.received codec i := by
  cases hstep with
  | untouched hreceived => exact ⟨[], rfl, hreceived.symm⟩
  | late => exact ⟨[], rfl, (if_pos rfl).symm⟩
  | left => exact ⟨[], rfl, rfl⟩
  | @own action stream _ _ _ hstream =>
      refine ⟨[action], ?_, ?_⟩
      · rw [run, hstream]
        rfl
      · rw [ClientAction.received, if_pos rfl, List.flatMap_singleton]
  | close hcall =>
      refine ⟨[.close], ?_, rfl⟩
      rw [run, Stream.step, if_pos (ht.unclosed hcall)]
      rfl
  | disconnected hcall =>
      refine ⟨[.closeReturned], ?_, rfl⟩
      simp only [run, Stream.step, ht.closing hcall, Option.bind_some]

theorem fresh_run : ∃ own, run (Stream.step codec) s.client.stream own = some s.fresh.stream ∧
    own.flatMap (validDeploys codec) = [] := by
  unfold fresh
  dsimp only
  split
  · exact ⟨[], rfl, rfl⟩
  · exact ⟨[.close], rfl, rfl⟩

/-- Each stream of a client runs as a stream that is the only one. -/
theorem run_stream {client : IndexerClient} {actions : List ClientAction}
    (hrun : run (step codec) client.state actions = some s) {i : Nat}
    {h : Handle SyntaxError ZodError Deploy} (hi : s.handles[i]? = some h) :
    ∃ own, run (Stream.step codec) client.stream own = some h.stream ∧
      own.flatMap (validDeploys codec) = actions.flatMap (ClientAction.received codec i) := by
  have hcomponent : (s.handles.map Handle.stream)[i]? = some h.stream := by
    rw [List.getElem?_map, hi]
    rfl
  refine run_components (fun s => s.client = client ∧ Invariant s)
    (fun s => s.handles.map Handle.stream) client.stream (validDeploys codec)
    (ClientAction.received codec) ?_ ⟨rfl, state_invariant client⟩ hrun i h.stream hcomponent
  rintro s a after ⟨rfl, hinv⟩ hstep
  refine ⟨⟨step_client hstep, step_invariant hinv hstep⟩, ?_, ?_⟩
  · intro i hi
    rw [List.getElem?_map, Option.map_eq_none_iff] at hi
    obtain ⟨hnone, hsilent, -⟩ := step_absent hstep hi
    exact ⟨by rw [List.getElem?_map, hnone]; rfl, hsilent⟩
  · intro i stream hi
    rw [List.getElem?_map] at hi
    obtain ⟨h', hh', rfl⟩ := Option.map_eq_some_iff.mp hi
    obtain ⟨hnone, rfl, rfl⟩ | ⟨h, hh, hspec⟩ := step_handle hstep hh'
    · rw [List.getElem?_map, hnone]
      exact fresh_run
    · rw [List.getElem?_map, hh]
      exact hspec.run_own (hinv.tracks i h hh)

/-- A consumer receives, or `close()` has disconnected it. -/
def StillReceives (i : Nat) (s : ClientState SyntaxError ZodError Deploy) : Prop :=
  ∃ h, s.handles[i]? = some h ∧ (h.stream.receiving = true ∨ s.closeCall = .returned (some i))

theorem step_stillReceives (hinv : Invariant s) (hstep : step codec s a = some after) {i : Nat}
    (h : StillReceives i s) : StillReceives i after := by
  obtain ⟨handle, hhandle, hreceives⟩ := h
  obtain ⟨handle', hhandle', hspec⟩ := step_present hstep hhandle
  refine ⟨handle', hhandle', ?_⟩
  rcases hreceives with hreceiving | hreturned
  · cases hspec with
    | untouched | late | left => exact Or.inl hreceiving
    | own hown _ hstream =>
        have hkept := Stream.own_consumerKept (hinv.tracks i handle hhandle).unstarted hown hstream
        exact Or.inl (hkept.receiving hreceiving)
    | close => exact Or.inl hreceiving
    | disconnected => exact Or.inr rfl
  · right
    cases step_spec hstep with
    | stream | late | own | left => exact hreturned
    | close hcall | closeReturned hcall =>
        rw [hreturned] at hcall
        cases hcall

/-- What nobody has read of one of the streams. -/
def queueOf (i : Nat) (s : ClientState SyntaxError ZodError Deploy) : List Deploy :=
  match s.handles[i]? with
  | some h => h.stream.queue
  | none => []

/-- The caller has left the stream behind these deploys. -/
def Left (i : Nat) (yielded : List Deploy) (s : ClientState SyntaxError ZodError Deploy) : Prop :=
  ∃ h, s.handles[i]? = some h ∧ h.returned = true ∧ h.stream.yielded = yielded

theorem step_left (hinv : Invariant s) (hstep : step codec s a = some after) {i : Nat}
    {yielded : List Deploy} (h : Left i yielded s) :
    Left i yielded after ∧ queueOf i after = queueOf i s ++ a.received codec i := by
  obtain ⟨handle, hhandle, hreturned, hyielded⟩ := h
  obtain ⟨handle', hhandle', hspec⟩ := step_present hstep hhandle
  have hframe (hflag : handle'.returned = handle.returned)
      (hkept : handle'.stream.yielded = handle.stream.yielded)
      (hqueue : handle'.stream.queue = handle.stream.queue ++ a.received codec i) :
      Left i yielded after ∧ queueOf i after = queueOf i s ++ a.received codec i := by
    refine ⟨⟨handle', hhandle', hflag.trans hreturned, hkept.trans hyielded⟩, ?_⟩
    rw [queueOf, queueOf, hhandle, hhandle']
    exact hqueue
  cases hspec with
  | untouched hreceived => exact hframe rfl rfl (by rw [hreceived, List.append_nil])
  | late => exact hframe rfl rfl (by simp [ClientAction.received, validDeploys])
  | left => exact hframe hreturned.symm rfl (List.append_nil _).symm
  | @own action stream _ hown hactive hstream =>
      have ht := hinv.tracks i handle hhandle
      obtain ⟨-, hkept, hqueue⟩ := Stream.idle_step ht.handover (ht.idle hreturned) hown
        (hactive hreturned) hstream
      refine hframe rfl hkept ?_
      rw [ClientAction.received, if_pos rfl]
      exact hqueue
  | close | disconnected => exact hframe rfl rfl (List.append_nil _).symm

/-- The streams of a client do not disturb each other: each of them runs as if it
were the only one. But nothing except `close()` stops a consumer, and the one call
of it stops only that of the stream started last. The others go on receiving, and
so does a stream that its caller has left: what it receives from then on stays in
its queue. -/
theorem only_close_stops_one (codec : Codec JsonValue SyntaxError ZodError Deploy)
    (client : IndexerClient) (actions later : List ClientAction)
    (s t : ClientState SyntaxError ZodError Deploy)
    (hrun : run (step codec) client.state actions = some s)
    (hlater : run (step codec) s later = some t) (i : Nat)
    (before after : Handle SyntaxError ZodError Deploy) (hbefore : s.handles[i]? = some before)
    (hafter : t.handles[i]? = some after) :
    (∃ own, run (Stream.step codec) client.stream own = some after.stream ∧
        own.flatMap (validDeploys codec) =
          (actions ++ later).flatMap (ClientAction.received codec i)) ∧
      (before.stream.receiving = true →
        after.stream.receiving = true ∨ t.closeCall = .returned (some i)) ∧
      (before.returned = true → after.stream.yielded = before.stream.yielded ∧
        after.stream.queue =
          before.stream.queue ++ later.flatMap (ClientAction.received codec i)) := by
  have hinv : Invariant s := reachable_invariant hrun
  refine ⟨?_, ?_, ?_⟩
  · apply run_stream _ hafter
    rw [run_append, hrun]
    exact hlater
  · intro hreceiving
    have hstill : Invariant t ∧ StillReceives i t :=
      run_invariant (fun u => Invariant u ∧ StillReceives i u)
        (fun _ _ _ h hstep => ⟨step_invariant h.1 hstep, step_stillReceives h.1 hstep h.2⟩)
        ⟨hinv, before, hbefore, Or.inl hreceiving⟩ hlater
    obtain ⟨handle, hhandle, hreceives⟩ := hstill.2
    rw [hafter] at hhandle
    obtain rfl := Option.some.inj hhandle
    exact hreceives
  · intro hreturned
    have hleft : Left i before.stream.yielded s := ⟨before, hbefore, hreturned, rfl⟩
    have hend : Invariant t ∧ Left i before.stream.yielded t :=
      run_invariant (fun u => Invariant u ∧ Left i before.stream.yielded u)
        (fun _ _ _ h hstep => ⟨step_invariant h.1 hstep, (step_left h.1 hstep h.2).1⟩)
        ⟨hinv, hleft⟩ hlater
    have hqueue : queueOf i t = queueOf i s ++ later.flatMap (ClientAction.received codec i) :=
      run_output (fun u => Invariant u ∧ Left i before.stream.yielded u) (queueOf i)
        (ClientAction.received codec i)
        (fun _ _ _ h hstep => ⟨⟨step_invariant h.1 hstep, (step_left h.1 hstep h.2).1⟩,
          (step_left h.1 hstep h.2).2⟩) ⟨hinv, hleft⟩ hlater
    obtain ⟨handle, hhandle, -, hyielded⟩ := hend.2
    rw [hafter] at hhandle
    obtain rfl := Option.some.inj hhandle
    rw [queueOf, queueOf, hbefore, hafter] at hqueue
    exact ⟨hyielded, hqueue⟩

/-- Two streams, of which the caller leaves the first behind one deploy. -/
def twoStreams : List ClientAction :=
  .stream :: Stream.setup.map (.on 0) ++
    [.on 0 (.message (some [0x61])), .on 0 .resumed, .on 0 .delivered, .left 0, .stream] ++
    Stream.setup.map (.on 1)

/-- The client is closed, and the first stream receives another deploy. -/
def closedTwoStreams : List ClientAction :=
  [.close, .closeReturned, .on 0 (.message (some [0x62]))]

theorem only_close_stops_one_twoStreams :
    ∃ s t before after, run (step Stream.characterCodec) Stream.defaultClient.state twoStreams =
        some s ∧
      run (step Stream.characterCodec) s closedTwoStreams = some t ∧
      s.handles[0]? = some before ∧ t.handles[0]? = some after ∧
      t.closeCall = .returned (some 1) ∧ after.stream.receiving = true ∧
      after.stream.queue = before.stream.queue ++ ["b"] := by
  obtain ⟨t, hboth⟩ : ∃ t, run (step Stream.characterCodec) Stream.defaultClient.state
      (twoStreams ++ closedTwoStreams) = some t := Option.isSome_iff_exists.mp rfl
  obtain ⟨s, hrun, hlater⟩ := run_split hboth
  have hfirst : (run (step Stream.characterCodec) Stream.defaultClient.state twoStreams).map
      (fun s => s.handles[0]?.map fun h => (h.returned, h.stream.receiving)) =
        some (some (true, true)) := rfl
  have hlast : (run (step Stream.characterCodec) Stream.defaultClient.state
      (twoStreams ++ closedTwoStreams)).map (fun t => (t.closeCall, t.handles.length)) =
        some (.returned (some 1), 2) := rfl
  rw [hrun, Option.map_some, Option.some.injEq] at hfirst
  rw [hboth, Option.map_some, Option.some.injEq, Prod.mk.injEq] at hlast
  obtain ⟨hclose, hlength⟩ := hlast
  obtain ⟨before, hbefore, hflags⟩ := Option.map_eq_some_iff.mp hfirst
  obtain ⟨hreturned, hreceiving⟩ := Prod.mk.inj hflags
  have hafter : t.handles[0]? = some t.handles[0] := List.getElem?_eq_getElem (by omega)
  obtain ⟨-, hreceives, hleft⟩ := only_close_stops_one Stream.characterCodec Stream.defaultClient
    twoStreams closedTwoStreams s t hrun hlater 0 before t.handles[0] hbefore hafter
  refine ⟨s, t, before, t.handles[0], hrun, hlater, hbefore, hafter, hclose, ?_,
    (hleft hreturned).2⟩
  rcases hreceives hreceiving with hstill | hclosed
  · exact hstill
  · rw [hclose] at hclosed
    cases hclosed

end ClientState

end ShadeIndexer.Sdk
