import ShadeIndexer.Core.Primitives
import ShadeIndexer.Lib.Transition
import ShadeIndexer.Sdk.Schema

/-!
The client of the TypeScript SDK. JavaScript runs one piece of code at a time
up to its next await, so a step takes the generator, the `eachMessage` callback
or `close` from one await to the next, and steps come in any order the kafkajs
consumer, the promise queue and the caller allow.

A promise is known by its position in the list of those made so far, and a
waiter is the position of the promise whose `resolve` it holds. The answers are
what the promises returned by `next()` were settled with, in the order of the
calls.
-/

namespace ShadeIndexer.Sdk

open ShadeIndexer.Core (Bytes)
open Lib.Transition

structure IndexerClientOptions where
  brokers : List String
  groupId : String
  launchpads : Option (List Launchpad)
  fromBeginning : Option Bool
  /-- Whether the callback is given. -/
  onParseError : Bool

structure IndexerClient where
  opts : IndexerClientOptions
  clientId : String
  reachable : opts.brokers.isEmpty = false

def IndexerClient.new (opts : IndexerClientOptions) : Except String IndexerClient :=
  if h : opts.brokers.isEmpty then .error "brokers must be non-empty"
  else .ok ⟨opts, "shade-indexer-" ++ opts.groupId, by simpa using h⟩

def IndexerClient.topics (c : IndexerClient) : List String :=
  allTopics (c.opts.launchpads.getD Launchpad.all)

/-- `!!this.opts.fromBeginning` -/
def IndexerClient.fromBeginning (c : IndexerClient) : Bool := c.opts.fromBeginning.getD false

variable {JsonValue SyntaxError ZodError Deploy : Type}

/-- What the callback reads a payload with: `Buffer.toString`, `JSON.parse` and
`Deploy.safeParse`. -/
structure Codec (JsonValue SyntaxError ZodError Deploy : Type) where
  toString : Bytes → String
  jsonParse : String → Except SyntaxError JsonValue
  safeParse : JsonValue → Except ZodError Deploy

inductive ParseError (SyntaxError ZodError : Type) where
  | json (e : SyntaxError)
  | schema (e : ZodError)
  deriving DecidableEq, Repr

def Codec.parse (codec : Codec JsonValue SyntaxError ZodError Deploy) (raw : String) :
    Except (ParseError SyntaxError ZodError) Deploy :=
  match codec.jsonParse raw with
  | .error e => .error (.json e)
  | .ok parsedJson =>
    match codec.safeParse parsedJson with
    | .error e => .error (.schema e)
    | .ok data => .ok data

structure Consumer where
  /-- The topics subscribed to, with `fromBeginning`. -/
  subscriptions : List (String × Bool)
  receiving : Bool

inductive Generator (Deploy : Type) where
  | suspendedStart
  | connecting
  | subscribing (topic : String) (rest : List String)
  | startingRun
  | awaiting (promise : Nat)
  /-- In the await that `yield` makes of its operand. -/
  | yielding (next : Deploy)
  | suspendedYield
  | completed
  deriving DecidableEq, Repr

def Generator.settingUp : Generator Deploy → Bool
  | .connecting => true
  | .subscribing _ _ => true
  | .startingRun => true
  | _ => false

inductive CloseCall where
  | notCalled
  /-- In the await, with whether there was a consumer to disconnect. -/
  | waiting (disconnecting : Bool)
  | returned
  deriving DecidableEq, Repr

inductive Answer (Deploy : Type) where
  | value (d : Deploy)
  | done
  | rejected
  deriving DecidableEq, Repr

def Answer.value? : Answer Deploy → Option Deploy
  | .value d => some d
  | .done => none
  | .rejected => none

structure Stream (SyntaxError ZodError Deploy : Type) where
  client : IndexerClient
  consumer : Option Consumer
  closed : Bool
  closeCall : CloseCall
  queue : List Deploy
  waiters : List Nat
  promises : List (Option Deploy)
  generator : Generator Deploy
  /-- The `next()` calls that have no answer yet. -/
  requests : Nat
  answers : List (Answer Deploy)
  /-- The calls of `onParseError`. -/
  reported : List (String × ParseError SyntaxError ZodError)

def IndexerClient.stream (client : IndexerClient) : Stream SyntaxError ZodError Deploy where
  client := client
  consumer := none
  closed := false
  closeCall := .notCalled
  queue := []
  waiters := []
  promises := []
  generator := .suspendedStart
  requests := 0
  answers := []
  reported := []

inductive Action where
  | next
  | connected
  | subscribed
  | running
  /-- `connect`, `subscribe` or `run` rejects. -/
  | setupFailed
  | message (value : Option Bytes)
  | resumed
  | delivered
  | close
  /-- `close` goes on after its await. A `disconnect` that rejects is a call
  that never gets here. -/
  | closeReturned
  deriving DecidableEq, Repr

namespace Stream

def push (s : Stream SyntaxError ZodError Deploy) (d : Deploy) :
    Stream SyntaxError ZodError Deploy :=
  match s.waiters with
  | w :: rest => { s with waiters := rest, promises := s.promises.set w (some d) }
  | [] => { s with queue := s.queue ++ [d] }

def eachMessage (codec : Codec JsonValue SyntaxError ZodError Deploy)
    (s : Stream SyntaxError ZodError Deploy) (value : Option Bytes) :
    Stream SyntaxError ZodError Deploy :=
  match value with
  | none => s
  | some bytes =>
    let raw := codec.toString bytes
    match codec.parse raw with
    | .error e =>
      if s.client.opts.onParseError then { s with reported := s.reported ++ [(raw, e)] } else s
    | .ok d => s.push d

/-- The generator returns, which ends every call that still waits. -/
def complete (s : Stream SyntaxError ZodError Deploy) : Stream SyntaxError ZodError Deploy :=
  { s with
    generator := .completed
    answers := s.answers ++ List.replicate s.requests .done
    requests := 0 }

/-- The generator throws, which the first call that waits is told. -/
def fail (s : Stream SyntaxError ZodError Deploy) : Stream SyntaxError ZodError Deploy :=
  { s with
    generator := .completed
    answers := s.answers ++ .rejected :: List.replicate (s.requests - 1) .done
    requests := 0 }

/-- From the head of the `while` loop to the next await. -/
def loop (s : Stream SyntaxError ZodError Deploy) : Stream SyntaxError ZodError Deploy :=
  if s.closed then s.complete
  else
    match s.queue with
    | next :: rest => { s with queue := rest, generator := .yielding next }
    | [] =>
      { s with
        promises := s.promises ++ [none]
        waiters := s.waiters ++ [s.promises.length]
        generator := .awaiting s.promises.length }

/-- From the head of the `for` loop over the topics to the next await. -/
def subscribeAll (s : Stream SyntaxError ZodError Deploy) :
    List String → Stream SyntaxError ZodError Deploy
  | topic :: rest => { s with generator := .subscribing topic rest }
  | [] =>
    { s with
      consumer := s.consumer.map fun c => { c with receiving := true }
      generator := .startingRun }

def subscribed (s : Stream SyntaxError ZodError Deploy) (topic : String) (rest : List String) :
    Stream SyntaxError ZodError Deploy :=
  subscribeAll
    { s with
      consumer := s.consumer.map fun c =>
        { c with subscriptions := c.subscriptions ++ [(topic, s.client.fromBeginning)] } }
    rest

def next (s : Stream SyntaxError ZodError Deploy) : Stream SyntaxError ZodError Deploy :=
  match s.generator with
  | .suspendedStart =>
    { s with
      consumer := some ⟨[], false⟩
      generator := .connecting
      requests := s.requests + 1 }
  | .suspendedYield => loop { s with requests := s.requests + 1 }
  | .completed => { s with answers := s.answers ++ [.done] }
  | _ => { s with requests := s.requests + 1 }

/-- The first call that waits is given the operand of `yield`. Another one that
waits resumes the generator at once. -/
def deliver (s : Stream SyntaxError ZodError Deploy) (d : Deploy) :
    Stream SyntaxError ZodError Deploy :=
  let answered : Stream SyntaxError ZodError Deploy :=
    { s with answers := s.answers ++ [.value d], requests := s.requests - 1 }
  if answered.requests = 0 then { answered with generator := .suspendedYield } else answered.loop

def close (s : Stream SyntaxError ZodError Deploy) : Stream SyntaxError ZodError Deploy :=
  { s with closed := true, closeCall := .waiting s.consumer.isSome }

/-- Whatever `run` is called on receives, so a consumer that was disconnected
before its `run` receives again. -/
def closeReturned (s : Stream SyntaxError ZodError Deploy) (disconnecting : Bool) :
    Stream SyntaxError ZodError Deploy :=
  { s with
    closeCall := .returned
    consumer :=
      if disconnecting then s.consumer.map fun c => { c with receiving := false }
      else s.consumer }

/-- Whether `eachMessage` may be called. -/
def receiving (s : Stream SyntaxError ZodError Deploy) : Bool :=
  s.consumer.any fun c => c.receiving

def step (codec : Codec JsonValue SyntaxError ZodError Deploy)
    (s : Stream SyntaxError ZodError Deploy) :
    Action → Option (Stream SyntaxError ZodError Deploy)
  | .next => some s.next
  | .connected =>
    match s.generator with
    | .connecting => some (s.subscribeAll s.client.topics)
    | _ => none
  | .subscribed =>
    match s.generator with
    | .subscribing topic rest => some (s.subscribed topic rest)
    | _ => none
  | .running =>
    match s.generator with
    | .startingRun => some s.loop
    | _ => none
  | .setupFailed => if s.generator.settingUp then some s.fail else none
  | .message value => if s.receiving then some (s.eachMessage codec value) else none
  | .resumed =>
    match s.generator with
    | .awaiting p =>
      match s.promises[p]? with
      | some (some d) => some { s with generator := .yielding d }
      | _ => none
    | _ => none
  | .delivered =>
    match s.generator with
    | .yielding d => some (s.deliver d)
    | _ => none
  | .close => if s.closeCall = .notCalled then some s.close else none
  | .closeReturned =>
    match s.closeCall with
    | .waiting disconnecting => some (s.closeReturned disconnecting)
    | _ => none

/-- Everything a step can do. -/
inductive StepSpec (codec : Codec JsonValue SyntaxError ZodError Deploy)
    (s : Stream SyntaxError ZodError Deploy) :
    Action → Stream SyntaxError ZodError Deploy → Prop where
  | next : StepSpec codec s .next s.next
  | connected (hgenerator : s.generator = .connecting) :
      StepSpec codec s .connected (s.subscribeAll s.client.topics)
  | subscribed {topic : String} {rest : List String}
      (hgenerator : s.generator = .subscribing topic rest) :
      StepSpec codec s .subscribed (s.subscribed topic rest)
  | running (hgenerator : s.generator = .startingRun) : StepSpec codec s .running s.loop
  | setupFailed (hgenerator : s.generator.settingUp = true) :
      StepSpec codec s .setupFailed s.fail
  | message {value : Option Bytes} (hreceiving : s.receiving = true) :
      StepSpec codec s (.message value) (s.eachMessage codec value)
  | resumed {p : Nat} {d : Deploy} (hgenerator : s.generator = .awaiting p)
      (hpromise : s.promises[p]? = some (some d)) :
      StepSpec codec s .resumed { s with generator := .yielding d }
  | delivered {d : Deploy} (hgenerator : s.generator = .yielding d) :
      StepSpec codec s .delivered (s.deliver d)
  | close (hcall : s.closeCall = .notCalled) : StepSpec codec s .close s.close
  | closeReturned {disconnecting : Bool} (hcall : s.closeCall = .waiting disconnecting) :
      StepSpec codec s .closeReturned (s.closeReturned disconnecting)

theorem step_spec {codec : Codec JsonValue SyntaxError ZodError Deploy}
    {s after : Stream SyntaxError ZodError Deploy} {action : Action}
    (hstep : step codec s action = some after) : StepSpec codec s action after := by
  cases action with
  | next =>
      obtain rfl := Option.some.inj hstep
      exact .next
  | connected | subscribed | running | setupFailed | message _ | delivered | close
  | closeReturned =>
      simp only [step] at hstep
      split at hstep <;> cases hstep
      constructor
      assumption
  | resumed =>
      simp only [step] at hstep
      split at hstep
      next hgenerator =>
        split at hstep <;> cases hstep
        exact .resumed hgenerator ‹_›
      next => cases hstep

/-- Only `close` sets the flag, and only the callback calls `onParseError`. -/
structure Kept (s after : Stream SyntaxError ZodError Deploy) : Prop where
  client : after.client = s.client
  closed : after.closed = s.closed
  closeCall : after.closeCall = s.closeCall
  reported : after.reported = s.reported

variable {s : Stream SyntaxError ZodError Deploy}

theorem push_kept (d : Deploy) : Kept s (s.push d) := by
  unfold push
  split <;> exact ⟨rfl, rfl, rfl, rfl⟩

theorem loop_kept : Kept s s.loop := by
  unfold loop
  split
  · exact ⟨rfl, rfl, rfl, rfl⟩
  · split <;> exact ⟨rfl, rfl, rfl, rfl⟩

theorem subscribeAll_kept (topics : List String) : Kept s (s.subscribeAll topics) := by
  cases topics <;> exact ⟨rfl, rfl, rfl, rfl⟩

theorem subscribed_kept (topic : String) (rest : List String) :
    Kept s (s.subscribed topic rest) := by
  cases rest <;> exact ⟨rfl, rfl, rfl, rfl⟩

theorem next_kept : Kept s s.next := by
  unfold next
  split
  · exact ⟨rfl, rfl, rfl, rfl⟩
  · have h := loop_kept (s := { s with requests := s.requests + 1 })
    exact ⟨h.client, h.closed, h.closeCall, h.reported⟩
  · exact ⟨rfl, rfl, rfl, rfl⟩
  · exact ⟨rfl, rfl, rfl, rfl⟩

theorem deliver_kept (d : Deploy) : Kept s (s.deliver d) := by
  unfold deliver
  simp only
  split
  · exact ⟨rfl, rfl, rfl, rfl⟩
  · have h := loop_kept
      (s := { s with answers := s.answers ++ [.value d], requests := s.requests - 1 })
    exact ⟨h.client, h.closed, h.closeCall, h.reported⟩

theorem eachMessage_closed (codec : Codec JsonValue SyntaxError ZodError Deploy)
    (value : Option Bytes) :
    (s.eachMessage codec value).closed = s.closed ∧
      (s.eachMessage codec value).closeCall = s.closeCall := by
  unfold eachMessage
  split
  · exact ⟨rfl, rfl⟩
  · simp only
    split
    · split <;> exact ⟨rfl, rfl⟩
    · exact ⟨(push_kept _).closed, (push_kept _).closeCall⟩

/-- The flag and the call are only changed by `close` itself. -/
theorem step_closeCall {codec : Codec JsonValue SyntaxError ZodError Deploy}
    {after : Stream SyntaxError ZodError Deploy} {action : Action}
    (hstep : step codec s action = some after) :
    (action = .close ∧ after = s.close) ∨
      (action = .closeReturned ∧ s.closeCall ≠ .notCalled ∧ after.closed = s.closed) ∨
      (after.closed = s.closed ∧ after.closeCall = s.closeCall) := by
  cases step_spec hstep with
  | next => exact Or.inr (Or.inr ⟨next_kept.closed, next_kept.closeCall⟩)
  | connected =>
      exact Or.inr (Or.inr ⟨(subscribeAll_kept _).closed, (subscribeAll_kept _).closeCall⟩)
  | subscribed =>
      exact Or.inr (Or.inr ⟨(subscribed_kept _ _).closed, (subscribed_kept _ _).closeCall⟩)
  | running => exact Or.inr (Or.inr ⟨loop_kept.closed, loop_kept.closeCall⟩)
  | setupFailed | resumed => exact Or.inr (Or.inr ⟨rfl, rfl⟩)
  | message => exact Or.inr (Or.inr (eachMessage_closed codec _))
  | delivered => exact Or.inr (Or.inr ⟨(deliver_kept _).closed, (deliver_kept _).closeCall⟩)
  | close => exact Or.inl ⟨rfl, rfl⟩
  | closeReturned hcall => exact Or.inr (Or.inl ⟨rfl, by simp [hcall], rfl⟩)

end Stream

end ShadeIndexer.Sdk
