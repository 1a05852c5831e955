import ShadeIndexer.Sdk.Client

/-!
What a stream does with the messages it is given. A deploy on its way to the
consumer is in one of three places: the queue, a promise that is resolved while
the generator has not resumed yet, or the operand of a `yield`. No step lets
one overtake another, since the queue is only used while no waiter is
registered and a waiter only while the queue is empty.
-/

namespace ShadeIndexer.Sdk

open ShadeIndexer.Core (Bytes)
open Lib.Transition

variable {JsonValue SyntaxError ZodError Deploy : Type}

def Generator.operand : Generator Deploy → List Deploy
  | .yielding d => [d]
  | _ => []

/-- The valid deploy that a step takes in. -/
def validDeploys (codec : Codec JsonValue SyntaxError ZodError Deploy) : Action → List Deploy
  | .message (some bytes) =>
    match codec.parse (codec.toString bytes) with
    | .ok d => [d]
    | .error _ => []
  | _ => []

/-- The raw text and the error of the invalid message that a step takes in. -/
def parseErrors (codec : Codec JsonValue SyntaxError ZodError Deploy) :
    Action → List (String × ParseError SyntaxError ZodError)
  | .message (some bytes) =>
    match codec.parse (codec.toString bytes) with
    | .ok _ => []
    | .error e => [(codec.toString bytes, e)]
  | _ => []

namespace Stream

/-- The deploys that `yield` was executed on. -/
def yielded (s : Stream SyntaxError ZodError Deploy) : List Deploy :=
  s.answers.filterMap Answer.value? ++ s.generator.operand

/-- The deploy of a resolved promise that the generator has yet to take. -/
def held (s : Stream SyntaxError ZodError Deploy) : List Deploy :=
  match s.generator with
  | .awaiting p => s.promises[p]?.join.toList
  | _ => []

/-- Every deploy taken in so far, from the oldest to the newest. -/
def flow (s : Stream SyntaxError ZodError Deploy) : List Deploy :=
  s.yielded ++ s.held ++ s.queue

inductive Handover (s : Stream SyntaxError ZodError Deploy) : Prop where
  | elsewhere (hgenerator : ∀ p, s.generator ≠ .awaiting p) (hwaiters : s.waiters = [])
  | waiting (p : Nat) (hgenerator : s.generator = .awaiting p) (hwaiters : s.waiters = [p])
      (hpromise : s.promises[p]? = some none) (hqueue : s.queue = [])
  | resolved (p : Nat) (d : Deploy) (hgenerator : s.generator = .awaiting p)
      (hwaiters : s.waiters = []) (hpromise : s.promises[p]? = some (some d))

variable {s after : Stream SyntaxError ZodError Deploy}

theorem Handover.waiters_length (h : Handover s) : s.waiters.length ≤ 1 := by
  cases h with
  | elsewhere _ hwaiters | resolved _ _ _ hwaiters => simp [hwaiters]
  | waiting _ _ hwaiters => simp [hwaiters]

theorem Handover.queue_empty (h : Handover s) (hwaiters : s.waiters ≠ []) : s.queue = [] := by
  cases h with
  | elsewhere _ hnone | resolved _ _ _ hnone => exact absurd hnone hwaiters
  | waiting _ _ _ _ hqueue => exact hqueue

theorem held_elsewhere (h : ∀ p, s.generator ≠ .awaiting p) : s.held = [] := by
  unfold held
  split
  · exact absurd ‹_› (h _)
  · rfl

theorem held_awaiting {p : Nat} {d : Option Deploy} (hgenerator : s.generator = .awaiting p)
    (hpromise : s.promises[p]? = some d) : s.held = d.toList := by
  simp [held, hgenerator, hpromise]

theorem Handover.push (h : Handover s) (d : Deploy) :
    Handover (s.push d) ∧ (s.push d).flow = s.flow ++ [d] := by
  cases h with
  | elsewhere hgenerator hwaiters =>
      have hpush : s.push d = { s with queue := s.queue ++ [d] } := by
        simp [Stream.push, hwaiters]
      rw [hpush]
      exact ⟨.elsewhere hgenerator hwaiters, (List.append_assoc ..).symm⟩
  | resolved p first hgenerator hwaiters hpromise =>
      have hpush : s.push d = { s with queue := s.queue ++ [d] } := by
        simp [Stream.push, hwaiters]
      rw [hpush]
      exact ⟨.resolved p first hgenerator hwaiters hpromise, (List.append_assoc ..).symm⟩
  | waiting p hgenerator hwaiters hpromise hqueue =>
      have hpush : s.push d = { s with waiters := [], promises := s.promises.set p (some d) } := by
        simp [Stream.push, hwaiters]
      have hbound : p < s.promises.length := (List.getElem?_eq_some_iff.mp hpromise).1
      have hset : (s.promises.set p (some d))[p]? = some (some d) := by
        rw [List.getElem?_set_self hbound]
      rw [hpush]
      refine ⟨.resolved p d hgenerator rfl hset, ?_⟩
      -- The waiter was the only one before `d`, so it takes what comes first.
      have hbefore : s.flow = s.yielded := by
        simp [flow, held_awaiting hgenerator hpromise, hqueue]
      rw [hbefore]
      simp [flow, yielded, held, hgenerator, hset, hqueue]

/-- What the loop finds in the queue it yields or leaves there. -/
theorem loop_spec (hwaiters : s.waiters = []) :
    Handover s.loop ∧ s.loop.flow = s.answers.filterMap Answer.value? ++ s.queue := by
  unfold loop
  split
  · refine ⟨.elsewhere (fun p => by simp [complete]) hwaiters, ?_⟩
    simp [complete, flow, yielded, held, Generator.operand, Answer.value?]
  · split
    · refine ⟨.elsewhere (fun p => by simp) hwaiters, ?_⟩
      simp [flow, yielded, held, Generator.operand, *]
    · refine ⟨.waiting s.promises.length rfl ?_ ?_ ‹_›, ?_⟩
      · simp [hwaiters]
      · simp
      · simp [flow, yielded, held, Generator.operand, *]

/-- What the hand-over and the flow do not read may change. -/
theorem Handover.frame (h : Handover s) (hgenerator : after.generator = s.generator)
    (hwaiters : after.waiters = s.waiters) (hpromises : after.promises = s.promises)
    (hqueue : after.queue = s.queue) : Handover after := by
  cases h with
  | elsewhere hg hw => exact .elsewhere (by rwa [hgenerator]) (hwaiters.trans hw)
  | waiting p hg hw hp hq =>
      exact .waiting p (hgenerator.trans hg) (hwaiters.trans hw) (by rwa [hpromises])
        (hqueue.trans hq)
  | resolved p d hg hw hp =>
      exact .resolved p d (hgenerator.trans hg) (hwaiters.trans hw) (by rwa [hpromises])

theorem Handover.waiters_elsewhere (h : Handover s) (hs : ∀ p, s.generator ≠ .awaiting p) :
    s.waiters = [] := by
  cases h with
  | elsewhere _ hwaiters => exact hwaiters
  | waiting p hgenerator | resolved p _ hgenerator => exact absurd hgenerator (hs p)

/-- The generator moves between two awaits that no waiter is about. -/
theorem Handover.moved (h : Handover s) (hs : ∀ p, s.generator ≠ .awaiting p)
    (hafter : ∀ p, after.generator ≠ .awaiting p) (hwaiters : after.waiters = s.waiters)
    (hyielded : after.yielded = s.yielded) (hqueue : after.queue = s.queue) :
    Handover after ∧ after.flow = s.flow := by
  refine ⟨.elsewhere hafter (hwaiters.trans (h.waiters_elsewhere hs)), ?_⟩
  rw [flow, flow, held_elsewhere hs, held_elsewhere hafter, hyielded, hqueue]

theorem Handover.next (h : Handover s) : Handover s.next ∧ s.next.flow = s.flow := by
  unfold Stream.next
  split
  next hgenerator =>
    apply h.moved <;> simp [hgenerator, yielded, Generator.operand]
  next hgenerator =>
    have hs : ∀ p, s.generator ≠ .awaiting p := by simp [hgenerator]
    obtain ⟨hhandover, hflow⟩ :=
      loop_spec (s := { s with requests := s.requests + 1 }) (h.waiters_elsewhere hs)
    refine ⟨hhandover, hflow.trans ?_⟩
    simp [flow, yielded, held_elsewhere hs, hgenerator, Generator.operand]
  next hgenerator =>
    apply h.moved <;> simp [hgenerator, yielded, Generator.operand, Answer.value?]
  next => exact ⟨h.frame rfl rfl rfl rfl, rfl⟩

theorem Handover.subscribeAll (h : Handover s) (hs : ∀ p, s.generator ≠ .awaiting p)
    (hoperand : s.generator.operand = []) (topics : List String) :
    Handover (s.subscribeAll topics) ∧ (s.subscribeAll topics).flow = s.flow := by
  have hyielded : s.yielded = s.answers.filterMap Answer.value? ++ [] := by
    rw [yielded, hoperand]
  cases topics with
  | nil => exact h.moved hs (fun p => by simp [Stream.subscribeAll]) rfl hyielded.symm rfl
  | cons => exact h.moved hs (fun p => by simp [Stream.subscribeAll]) rfl hyielded.symm rfl

theorem Handover.running (h : Handover s) (hgenerator : s.generator = .startingRun) :
    Handover s.loop ∧ s.loop.flow = s.flow := by
  have hs : ∀ p, s.generator ≠ .awaiting p := by simp [hgenerator]
  obtain ⟨hhandover, hflow⟩ := loop_spec (h.waiters_elsewhere hs)
  refine ⟨hhandover, hflow.trans ?_⟩
  simp [flow, yielded, held_elsewhere hs, hgenerator, Generator.operand]

theorem Handover.fail (h : Handover s) (hs : ∀ p, s.generator ≠ .awaiting p)
    (hoperand : s.generator.operand = []) : Handover s.fail ∧ s.fail.flow = s.flow := by
  have hyielded : s.yielded = s.answers.filterMap Answer.value? ++ [] := by
    rw [yielded, hoperand]
  have hfail : s.fail.yielded = s.yielded := by
    rw [hyielded]
    simp [Stream.fail, yielded, Generator.operand, Answer.value?]
  exact h.moved hs (fun p => by simp [Stream.fail]) rfl hfail rfl

theorem Handover.deliver (h : Handover s) {d : Deploy} (hgenerator : s.generator = .yielding d) :
    Handover (s.deliver d) ∧ (s.deliver d).flow = s.flow := by
  have hs : ∀ p, s.generator ≠ .awaiting p := by simp [hgenerator]
  have hwaiters := h.waiters_elsewhere hs
  have hbefore : s.flow = (s.answers ++ [Answer.value d]).filterMap Answer.value? ++ s.queue := by
    simp [flow, yielded, held_elsewhere hs, hgenerator, Generator.operand, Answer.value?]
  unfold Stream.deliver
  simp only
  split
  · refine ⟨.elsewhere (fun p => by simp) hwaiters, ?_⟩
    rw [hbefore]
    simp [flow, yielded, held, Generator.operand]
  · obtain ⟨hhandover, hflow⟩ := loop_spec
      (s := { s with answers := s.answers ++ [.value d], requests := s.requests - 1 }) hwaiters
    exact ⟨hhandover, hflow.trans hbefore.symm⟩

theorem Handover.eachMessage (codec : Codec JsonValue SyntaxError ZodError Deploy)
    (h : Handover s) (value : Option Bytes) :
    Handover (s.eachMessage codec value) ∧
      (s.eachMessage codec value).flow = s.flow ++ validDeploys codec (.message value) := by
  cases value with
  | none => exact ⟨h, (List.append_nil _).symm⟩
  | some bytes =>
      cases hparse : codec.parse (codec.toString bytes) with
      | ok d =>
          simp only [Stream.eachMessage, validDeploys, hparse]
          exact h.push d
      | error e =>
          simp only [Stream.eachMessage, validDeploys, hparse, List.append_nil]
          split
          · exact ⟨h.frame rfl rfl rfl rfl, rfl⟩
          · exact ⟨h, rfl⟩

theorem Handover.resume (h : Handover s) {p : Nat} {d : Deploy}
    (hgenerator : s.generator = .awaiting p) (hpromise : s.promises[p]? = some (some d)) :
    Handover { s with generator := .yielding d } ∧
      Stream.flow { s with generator := .yielding d } = s.flow := by
  have hwaiters : s.waiters = [] := by
    cases h with
    | elsewhere _ hwaiters | resolved _ _ _ hwaiters => exact hwaiters
    | waiting q hother _ hunresolved =>
        obtain rfl : p = q := by simpa [hgenerator] using hother
        simp [hpromise] at hunresolved
  refine ⟨.elsewhere (fun q => by simp) hwaiters, ?_⟩
  rw [flow, flow, held_awaiting hgenerator hpromise]
  simp [yielded, held, hgenerator, Generator.operand]

theorem settingUp_elsewhere (h : s.generator.settingUp = true) :
    (∀ p, s.generator ≠ .awaiting p) ∧ s.generator.operand = [] := by
  cases hgenerator : s.generator with
  | connecting | subscribing _ _ | startingRun => exact ⟨fun p => by simp, rfl⟩
  | suspendedStart | awaiting _ | yielding _ | suspendedYield | completed =>
      simp [hgenerator, Generator.settingUp] at h

theorem step_handover {codec : Codec JsonValue SyntaxError ZodError Deploy} {action : Action}
    (h : Handover s) (hstep : step codec s action = some after) :
    Handover after ∧ after.flow = s.flow ++ validDeploys codec action := by
  cases step_spec hstep with
  | message => exact h.eachMessage codec _
  | next => simpa [validDeploys] using h.next
  | connected hgenerator =>
      obtain ⟨hs, hoperand⟩ := settingUp_elsewhere (by rw [hgenerator]; rfl)
      simpa [validDeploys] using h.subscribeAll hs hoperand _
  | @subscribed topic rest hgenerator =>
      obtain ⟨hs, hoperand⟩ := settingUp_elsewhere (by rw [hgenerator]; rfl)
      have hframe : Handover
          { s with
            consumer := s.consumer.map fun c =>
              { c with subscriptions := c.subscriptions ++ [(topic, s.client.fromBeginning)] } } :=
        h.frame rfl rfl rfl rfl
      obtain ⟨hhandover, hflow⟩ := hframe.subscribeAll hs hoperand rest
      exact ⟨hhandover, hflow.trans (List.append_nil _).symm⟩
  | running hgenerator => simpa [validDeploys] using h.running hgenerator
  | setupFailed hgenerator =>
      obtain ⟨hs, hoperand⟩ := settingUp_elsewhere hgenerator
      simpa [validDeploys] using h.fail hs hoperand
  | resumed hgenerator hpromise => simpa [validDeploys] using h.resume hgenerator hpromise
  | delivered hgenerator => simpa [validDeploys] using h.deliver hgenerator
  | close | closeReturned => exact ⟨h.frame rfl rfl rfl rfl, (List.append_nil _).symm⟩

theorem eachMessage_reported (codec : Codec JsonValue SyntaxError ZodError Deploy)
    (value : Option Bytes) :
    (s.eachMessage codec value).client = s.client ∧
      (s.eachMessage codec value).reported =
        s.reported ++
          if s.client.opts.onParseError then parseErrors codec (.message value) else [] := by
  cases value with
  | none => simp [Stream.eachMessage, parseErrors]
  | some bytes =>
      cases hparse : codec.parse (codec.toString bytes) with
      | ok d =>
          have hkept := push_kept (s := s) d
          simp [Stream.eachMessage, parseErrors, hparse, hkept.client, hkept.reported]
      | error e =>
          simp only [Stream.eachMessage, parseErrors, hparse]
          split <;> simp

theorem step_reported {codec : Codec JsonValue SyntaxError ZodError Deploy} {action : Action}
    (hstep : step codec s action = some after) :
    after.client = s.client ∧
      after.reported =
        s.reported ++ if s.client.opts.onParseError then parseErrors codec action else [] := by
  have hkept (h : Kept s after) (hnone : parseErrors codec action = []) :
      after.client = s.client ∧
        after.reported =
          s.reported ++ if s.client.opts.onParseError then parseErrors codec action else [] := by
    simp [h.client, h.reported, hnone]
  cases step_spec hstep with
  | message => exact eachMessage_reported codec _
  | next => exact hkept next_kept rfl
  | connected => exact hkept (subscribeAll_kept _) rfl
  | subscribed => exact hkept (subscribed_kept _ _) rfl
  | running => exact hkept loop_kept rfl
  | delivered => exact hkept (deliver_kept _) rfl
  | setupFailed | resumed => exact hkept ⟨rfl, rfl, rfl, rfl⟩ rfl
  | close | closeReturned => exact ⟨rfl, by simp [Stream.close, Stream.closeReturned, parseErrors]⟩

/-- A message that is null-valued or not valid changes nothing but the reports. -/
theorem eachMessage_ignored (codec : Codec JsonValue SyntaxError ZodError Deploy)
    {value : Option Bytes} (h : validDeploys codec (.message value) = []) :
    s.eachMessage codec value = { s with reported := (s.eachMessage codec value).reported } := by
  cases value with
  | none => rfl
  | some bytes =>
      cases hparse : codec.parse (codec.toString bytes) with
      | ok d => simp [validDeploys, hparse] at h
      | error e =>
          simp only [Stream.eachMessage, hparse]
          split <;> rfl

theorem eachMessage_valid {codec : Codec JsonValue SyntaxError ZodError Deploy}
    {value : Option Bytes} {d : Deploy} {rest : List Deploy}
    (h : validDeploys codec (.message value) = d :: rest) :
    s.eachMessage codec value = s.push d := by
  cases value with
  | none => simp [validDeploys] at h
  | some bytes =>
      cases hparse : codec.parse (codec.toString bytes) with
      | ok d' =>
          obtain ⟨rfl, -⟩ : d' = d ∧ [] = rest := by simpa [validDeploys, hparse] using h
          simp [Stream.eachMessage, hparse]
      | error e => simp [validDeploys, hparse] at h

theorem stream_handover (client : IndexerClient) :
    Handover (client.stream : Stream SyntaxError ZodError Deploy) :=
  .elsewhere (fun p => by simp [IndexerClient.stream]) rfl

theorem run_handover {codec : Codec JsonValue SyntaxError ZodError Deploy}
    {actions : List Action} (h : Handover s) (hrun : run (step codec) s actions = some after) :
    Handover after :=
  run_invariant Handover (fun _ _ _ hinv hstep => (step_handover hinv hstep).1) h hrun

/-- A stream passes on the valid messages in the order of their arrival, each of
them once, and `onParseError` is told of each of the others once. -/
theorem fifo_exactly_once (codec : Codec JsonValue SyntaxError ZodError Deploy)
    (client : IndexerClient) {actions : List Action}
    (hrun : run (step codec) client.stream actions = some s) :
    s.waiters.length ≤ 1 ∧
      (s.waiters ≠ [] → s.queue = []) ∧
      s.yielded ++ s.held ++ s.queue = actions.flatMap (validDeploys codec) ∧
      (s.reported =
        if client.opts.onParseError then actions.flatMap (parseErrors codec) else []) ∧
      ∀ value, validDeploys codec (.message value) = [] →
        s.eachMessage codec value =
          { s with reported := (s.eachMessage codec value).reported } := by
  have hhandover := run_handover (stream_handover client) hrun
  have hflow := run_output Handover flow (validDeploys codec)
    (fun _ _ _ hinv hstep => step_handover hinv hstep) (stream_handover client) hrun
  have hreported := run_output (fun t => t.client = client) reported
    (fun a => if client.opts.onParseError then parseErrors codec a else [])
    (fun t a next hinv hstep => by
      obtain ⟨hclient, hreported⟩ := step_reported hstep
      exact ⟨hclient.trans hinv, by rw [hreported, hinv]⟩)
    rfl hrun
  refine ⟨hhandover.waiters_length, hhandover.queue_empty, hflow, ?_,
    fun value => eachMessage_ignored codec⟩
  rw [hreported]
  cases client.opts.onParseError <;> simp [IndexerClient.stream]

/-- A codec over payloads of one character: `x` is not JSON, `1` does not fit
the schema, and any other character stands for a deploy of its own. -/
def characterCodec : Codec String Unit Unit String where
  toString bytes := String.ofList (bytes.map fun b => Char.ofNat b.toNat)
  jsonParse raw := if raw = "x" then .error () else .ok raw
  safeParse value := if value = "1" then .error () else .ok value

def defaultClient : IndexerClient where
  opts := ⟨["localhost:9092"], "demo", none, none, true⟩
  clientId := "shade-indexer-demo"
  reachable := rfl

/-- The first call of `next()`, up to the wait for the first deploy. -/
def setup : List Action :=
  [.next, .connected, .subscribed, .subscribed, .subscribed, .subscribed, .running]

/-- The waiter takes `a`, and `b` arrives before the generator has resumed. -/
def resolvedWaiterRun : List Action :=
  setup ++ [.message none, .message (some [0x78]), .message (some [0x61]),
    .message (some [0x31]), .message (some [0x62])]

theorem fifo_exactly_once_resolvedWaiter :
    ∃ s, run (step characterCodec) defaultClient.stream resolvedWaiterRun = some s ∧
      s.yielded ++ s.held ++ s.queue = ["a", "b"] ∧
      s.reported = [("x", .json ()), ("1", .schema ())] := by
  have hrun : run (step characterCodec) defaultClient.stream resolvedWaiterRun = some _ := rfl
  obtain ⟨_, _, hflow, hreported, _⟩ := fifo_exactly_once characterCodec defaultClient hrun
  exact ⟨_, hrun, hflow.trans (by decide), hreported.trans (by decide)⟩

end Stream

end ShadeIndexer.Sdk
