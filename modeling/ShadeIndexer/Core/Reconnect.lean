import ShadeIndexer.Core.Subscriber

/-!
The reconnect loop of the subscriber. An attempt is one call of `run_once`: the
connection fails, the subscription fails, or a stream of logs is established
and ends. The receiver may be dropped before an attempt, which covers the time
the subscriber sleeps and connects, and at two points of each log.

A run is a list of attempts. It has no result while the subscriber goes on
after the last of them. Durations are in milliseconds.
-/

namespace ShadeIndexer.Core

open Lib.Rust

inductive Outcome where
  | connectFailed (error : String)
  | subscribeFailed (error : String)
  | established (arrivals : List Arrival)

structure Attempt where
  dropBefore : Bool
  outcome : Outcome

def subscriptionError (message : String) : Result IndexerError Unit :=
  .error (.error (.subscription message))

def runOnce (reg : FactoryRegistry) (attempt : Attempt) (out : Sender) :
    Result IndexerError Unit × Sender :=
  let out := out.dropIf attempt.dropBefore
  match attempt.outcome with
  | .connectFailed e => (subscriptionError ("ws connect: " ++ e), out)
  | .subscribeFailed e => (subscriptionError ("subscribe_logs: " ++ e), out)
  | .established arrivals => streamLoop reg arrivals out

def initialBackoff : Nat := 250

def reconnectBackoffMax : Nat := 30000

structure RunEnd where
  result : Option (Result IndexerError Unit)
  /-- The delays, in the order in which they were slept. -/
  slept : List Nat
  out : Sender

/-- The loop of `LaunchpadSubscriber::run`. -/
def reconnectLoop (reg : FactoryRegistry) : List Attempt → Nat → Sender → RunEnd
  | [], _, out => ⟨none, [], out⟩
  | attempt :: rest, backoff, out =>
    match runOnce reg attempt out with
    | (.ok (), out) => ⟨some (.ok ()), [], out⟩
    | (.error (.error (.subscription _)), out) =>
        let later := reconnectLoop reg rest (min (backoff * 2) reconnectBackoffMax) out
        { later with slept := backoff :: later.slept }
    -- "subscriber fatal"
    | (.error fault, out) => ⟨some (.error fault), [], out⟩

def LaunchpadSubscriber.run (reg : FactoryRegistry) (attempts : List Attempt) : RunEnd :=
  reconnectLoop reg attempts initialBackoff .new

/-- The receiver has been dropped by the end of the attempt. -/
def Attempt.drops (attempt : Attempt) : Bool :=
  attempt.dropBefore ||
    match attempt.outcome with
    | .established arrivals => arrivals.any Arrival.drops
    | _ => false

/-- The attempt gets a log by which the receiver has been dropped. The
subscriber asks for the receiver only after a log. -/
def Attempt.noticesDrop (attempt : Attempt) (closed : Bool) : Bool :=
  match attempt.outcome with
  | .established arrivals => !arrivals.isEmpty && (closed || attempt.drops)
  | _ => false

/-- How the loop over an established stream ends: behind a log, because the
receiver has been dropped, or with the stream, and never otherwise. -/
theorem streamLoop_spec (reg : FactoryRegistry) (arrivals : List Arrival) (out : Sender) :
    (streamLoop reg arrivals out).1 =
        (if !arrivals.isEmpty && (out.closed || arrivals.any Arrival.drops) then .ok ()
         else subscriptionError "stream ended") ∧
      (streamLoop reg arrivals out).2.closed = (out.closed || arrivals.any Arrival.drops) := by
  induction arrivals generalizing out with
  | nil => simp [streamLoop, subscriptionError]
  | cons arrival rest ih =>
      have hclosed := afterLog_closed reg arrival out
      rw [streamLoop_cons, List.any_cons, ← Bool.or_assoc, ← hclosed]
      by_cases hafter : (afterLog reg arrival out).closed
      · simp [hafter]
      · obtain ⟨hresult, hlater⟩ := ih (afterLog reg arrival out)
        rw [if_neg hafter, hresult, hlater]
        cases rest with
        | nil => simp [hafter]
        | cons next rest => simp

/-- What one attempt comes to. It ends the run only if it notices that the
receiver has been dropped, and otherwise asks for a reconnect. -/
theorem runOnce_spec (reg : FactoryRegistry) (attempt : Attempt) (out : Sender) :
    (if attempt.noticesDrop out.closed then (runOnce reg attempt out).1 = .ok ()
      else ∃ message, (runOnce reg attempt out).1 = subscriptionError message) ∧
      (runOnce reg attempt out).2.closed = (out.closed || attempt.drops) := by
  obtain ⟨dropBefore, outcome⟩ := attempt
  cases outcome with
  | connectFailed e =>
      simp [Attempt.noticesDrop, runOnce, Attempt.drops, Sender.dropIf]
  | subscribeFailed e =>
      simp [Attempt.noticesDrop, runOnce, Attempt.drops, Sender.dropIf]
  | established arrivals =>
      obtain ⟨hresult, hclosed⟩ := streamLoop_spec reg arrivals (out.dropIf dropBefore)
      simp only [runOnce, Attempt.noticesDrop, Attempt.drops, hresult, hclosed]
      simp only [Sender.dropIf, Bool.or_assoc]
      split
      · simp
      · simp

/-- One turn of the reconnect loop. No attempt ends it with an error. -/
theorem reconnectLoop_cons (reg : FactoryRegistry) (attempt : Attempt) (rest : List Attempt)
    (backoff : Nat) (out : Sender) :
    reconnectLoop reg (attempt :: rest) backoff out =
      if attempt.noticesDrop out.closed then ⟨some (.ok ()), [], (runOnce reg attempt out).2⟩
      else
        let later := reconnectLoop reg rest (min (backoff * 2) reconnectBackoffMax)
          (runOnce reg attempt out).2
        { later with slept := backoff :: later.slept } := by
  obtain ⟨hresult, -⟩ := runOnce_spec reg attempt out
  rcases hrun : runOnce reg attempt out with ⟨result, next⟩
  rw [hrun] at hresult
  rw [reconnectLoop, hrun]
  by_cases hnotices : attempt.noticesDrop out.closed
  · rw [if_pos hnotices] at hresult ⊢
    dsimp only at hresult
    rw [hresult]
  · rw [if_neg hnotices] at hresult ⊢
    obtain ⟨message, hmessage⟩ := hresult
    dsimp only at hmessage
    rw [hmessage]
    rfl

theorem Attempt.noticesDrop_closed {attempt : Attempt} {closed : Bool}
    (h : attempt.noticesDrop closed = true) : (closed || attempt.drops) = true := by
  unfold Attempt.noticesDrop at h
  cases houtcome : attempt.outcome with
  | connectFailed e => simp [houtcome] at h
  | subscribeFailed e => simp [houtcome] at h
  | established arrivals =>
      simp only [houtcome, Bool.and_eq_true] at h
      exact h.2

/-- A run that returns does so with `Ok(())`, and the receiver is gone. -/
theorem reconnectLoop_returns (reg : FactoryRegistry) (attempts : List Attempt) (backoff : Nat)
    (out : Sender) (result : Result IndexerError Unit)
    (h : (reconnectLoop reg attempts backoff out).result = some result) :
    result = .ok () ∧ (reconnectLoop reg attempts backoff out).out.closed = true ∧
      (out.closed = true ∨ ∃ attempt ∈ attempts, attempt.drops = true) := by
  induction attempts generalizing backoff out with
  | nil => cases h
  | cons attempt rest ih =>
      have hclosed := (runOnce_spec reg attempt out).2
      rw [reconnectLoop_cons] at h ⊢
      by_cases hnotices : attempt.noticesDrop out.closed
      · have hdropped := Attempt.noticesDrop_closed hnotices
        rw [if_pos hnotices] at h ⊢
        refine ⟨(Option.some.inj h).symm, hclosed.trans hdropped, ?_⟩
        rcases Bool.or_eq_true_iff.mp hdropped with hbefore | hnow
        · exact Or.inl hbefore
        · exact Or.inr ⟨attempt, List.mem_cons_self, hnow⟩
      · rw [if_neg hnotices] at h ⊢
        obtain ⟨hok, hend, hdrop⟩ := ih _ _ h
        refine ⟨hok, hend, ?_⟩
        rw [hclosed, Bool.or_eq_true] at hdrop
        rcases hdrop with (hbefore | hnow) | ⟨later, hmem, hlater⟩
        · exact Or.inl hbefore
        · exact Or.inr ⟨attempt, List.mem_cons_self, hnow⟩
        · exact Or.inr ⟨later, List.mem_cons_of_mem _ hmem, hlater⟩

/-- Malformed logs cannot stop the subscriber: whatever connects, subscribes and
arrives, a run returns only with `Ok(())` and only once the receiver has been
dropped, and the loop over a stream goes on behind every log that leaves the
receiver open. -/
theorem subscriber_returns_only_when_dropped (reg : FactoryRegistry) :
    (∀ (attempts : List Attempt) (result : Result IndexerError Unit),
      (LaunchpadSubscriber.run reg attempts).result = some result →
        result = .ok () ∧ (LaunchpadSubscriber.run reg attempts).out.closed = true ∧
          ∃ attempt ∈ attempts, attempt.drops = true) ∧
      ∀ (arrival : Arrival) (rest : List Arrival) (out : Sender),
        (afterLog reg arrival out).closed = false →
          streamLoop reg (arrival :: rest) out =
            streamLoop reg rest (afterLog reg arrival out) := by
  constructor
  · intro attempts result h
    obtain ⟨hok, hclosed, hdrop⟩ := reconnectLoop_returns reg attempts initialBackoff .new result h
    refine ⟨hok, hclosed, ?_⟩
    rcases hdrop with hbefore | hdrop
    · cases hbefore
    · exact hdrop
  · intro arrival rest out hopen
    rw [streamLoop_cons, hopen]
    rfl

/-- A log without topics. -/
def topiclessLog : Log := { retractedLaunch with topics := [] }

theorem subscriber_returns_only_when_dropped_topicless :
    (∃ attempt ∈ [(⟨false, .connectFailed "refused"⟩ : Attempt),
        ⟨false, .established [.undisturbed topiclessLog, ⟨topiclessLog, false, true⟩]⟩],
      attempt.drops = true) ∧
      streamLoop zoraOnly [.undisturbed topiclessLog] .new = streamLoop zoraOnly [] .new :=
  ⟨((subscriber_returns_only_when_dropped zoraOnly).1
      [⟨false, .connectFailed "refused"⟩,
        ⟨false, .established [.undisturbed topiclessLog, ⟨topiclessLog, false, true⟩]⟩]
      (.ok ()) rfl).2.2,
    (subscriber_returns_only_when_dropped zoraOnly).2 (.undisturbed topiclessLog) [] .new rfl⟩

end ShadeIndexer.Core
