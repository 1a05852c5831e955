import ShadeIndexer.Core.Decode
import ShadeIndexer.Core.Registry

/-!
The subscriber's handling of one log and the loop over the logs of one
established subscription. The channel is reduced to what the subscriber can
see of it: what it accepted, and whether its receiver has been dropped.
-/

namespace ShadeIndexer.Core

open Lib.Rust

structure Sender where
  delivered : List NormalizedDeploy
  closed : Bool

def Sender.new : Sender := ⟨[], false⟩

/-- `mpsc::Sender::send` hands the value back if the receiver is gone. -/
def Sender.send (out : Sender) (deploy : NormalizedDeploy) :
    Except NormalizedDeploy Unit × Sender :=
  if out.closed then (.error deploy, out)
  else (.ok (), { out with delivered := out.delivered ++ [deploy] })

/-- The receiver may be dropped at any moment. -/
def Sender.dropIf (out : Sender) (dropped : Bool) : Sender :=
  { out with closed := out.closed || dropped }

def handleLog (reg : FactoryRegistry) (log : Log) (out : Sender) :
    Result IndexerError Unit × Sender :=
  match log.topics.head? with
  | none => (decodeError "log without topic0", out)
  | some topic0 =>
    match reg.matchLog log.address topic0 with
    | none => (.ok (), out)
    | some launchpad =>
      match decodeDeploy launchpad log with
      | .error e => (.error e, out)
      | .ok deploy =>
        match out.send deploy with
        | (.error _, out) =>
            (.error (.error (.subscription "downstream channel closed")), out)
        | (.ok (), out) => (.ok (), out)

/-- One item of the log stream, with the two points at which the receiver can
be dropped while the loop body runs. -/
structure Arrival where
  log : Log
  dropBeforeSend : Bool
  dropBeforeCheck : Bool

def Arrival.undisturbed (log : Log) : Arrival := ⟨log, false, false⟩

def Arrival.drops (a : Arrival) : Bool := a.dropBeforeSend || a.dropBeforeCheck

/-- The `while let Some(log) = stream.next().await` loop of `run_once`. -/
def streamLoop (reg : FactoryRegistry) : List Arrival → Sender → Result IndexerError Unit × Sender
  | [], out => (.error (.error (.subscription "stream ended")), out)
  | arrival :: rest, out =>
    match handleLog reg arrival.log (out.dropIf arrival.dropBeforeSend) with
    | (.error (.panic p), out) => (.error (.panic p), out)
    -- an error value is logged and the loop goes on
    | (_, out) =>
      let out := out.dropIf arrival.dropBeforeCheck
      if out.closed then (.ok (), out) else streamLoop reg rest out

/-- The deploy that a log announces: it has a first topic, the registry routes
it, and the decoder accepts it. -/
def deployOf (reg : FactoryRegistry) (log : Log) : Option NormalizedDeploy := do
  let topic0 ← log.topics.head?
  let launchpad ← reg.matchLog log.address topic0
  (decodeDeploy launchpad log).toOption

/-- Such a log is routed and decoded. -/
theorem deployOf_decodes {reg : FactoryRegistry} {log : Log} {d : NormalizedDeploy}
    (h : deployOf reg log = some d) :
    ∃ topic0 launchpad, log.topics.head? = some topic0 ∧
      reg.matchLog log.address topic0 = some launchpad ∧ decodeDeploy launchpad log = .ok d := by
  obtain ⟨topic0, htopic, h⟩ := Option.bind_eq_some_iff.mp h
  obtain ⟨launchpad, hroute, h⟩ := Option.bind_eq_some_iff.mp h
  refine ⟨topic0, launchpad, htopic, hroute, ?_⟩
  cases hdecode : decodeDeploy launchpad log with
  | ok deploy =>
      rw [hdecode] at h
      rw [Option.some.inj h]
  | error fault =>
      rw [hdecode] at h
      cases h

/-- No branch of the decoder reads `removed`. -/
theorem deployOf_removed (reg : FactoryRegistry) (log : Log) (flag : Bool) :
    deployOf reg { log with removed := flag } = deployOf reg log := rfl

theorem handleLog_panicFree (reg : FactoryRegistry) (log : Log) (out : Sender) :
    PanicFree (handleLog reg log out).1 := by
  unfold handleLog
  cases log.topics.head? with
  | none => trivial
  | some topic0 =>
      dsimp only
      cases reg.matchLog log.address topic0 with
      | none => trivial
      | some launchpad =>
          dsimp only
          rcases decodeDeploy_cases launchpad log with ⟨deploy, hrun⟩ | ⟨e, hrun⟩
          · rw [hrun]
            dsimp only [Sender.send]
            cases out.closed <;> trivial
          · rw [hrun]
            trivial

/-- What handling one log adds to an open channel: the deploy it announces,
once, or nothing. -/
theorem handleLog_delivers (reg : FactoryRegistry) (log : Log) (delivered : List NormalizedDeploy) :
    (handleLog reg log ⟨delivered, false⟩).2 =
      ⟨delivered ++ (deployOf reg log).toList, false⟩ := by
  unfold handleLog deployOf
  cases log.topics.head? with
  | none => simp
  | some topic0 =>
      cases hroute : reg.matchLog log.address topic0 with
      | none => simp [hroute]
      | some launchpad =>
          cases hdecode : decodeDeploy launchpad log with
          | error fault => simp [hroute, hdecode, Except.toOption]
          | ok deploy => simp [hroute, hdecode, Except.toOption, Sender.send]

/-- Handling a log neither opens nor closes the channel. -/
theorem handleLog_closed (reg : FactoryRegistry) (log : Log) (out : Sender) :
    (handleLog reg log out).2.closed = out.closed := by
  unfold handleLog
  cases log.topics.head? with
  | none => rfl
  | some topic0 =>
      dsimp only
      cases reg.matchLog log.address topic0 with
      | none => rfl
      | some launchpad =>
          dsimp only
          cases decodeDeploy launchpad log with
          | error e => rfl
          | ok deploy =>
              dsimp only [Sender.send]
              by_cases hclosed : out.closed
              · simp only [hclosed, if_true]
              · simp only [hclosed]
                simp

/-- The channel behind one log, the two moments of a drop included. -/
def afterLog (reg : FactoryRegistry) (arrival : Arrival) (out : Sender) : Sender :=
  (handleLog reg arrival.log (out.dropIf arrival.dropBeforeSend)).2.dropIf arrival.dropBeforeCheck

theorem afterLog_closed (reg : FactoryRegistry) (arrival : Arrival) (out : Sender) :
    (afterLog reg arrival out).closed = (out.closed || arrival.drops) := by
  simp only [afterLog, Sender.dropIf, handleLog_closed, Arrival.drops, Bool.or_assoc]

/-- One turn of the loop over the logs. Whatever the log, the loop ends behind
it only if the receiver has been dropped. -/
theorem streamLoop_cons (reg : FactoryRegistry) (arrival : Arrival) (rest : List Arrival)
    (out : Sender) :
    streamLoop reg (arrival :: rest) out =
      if (afterLog reg arrival out).closed then (.ok (), afterLog reg arrival out)
      else streamLoop reg rest (afterLog reg arrival out) := by
  have hpanic := handleLog_panicFree reg arrival.log (out.dropIf arrival.dropBeforeSend)
  rcases hrun : handleLog reg arrival.log (out.dropIf arrival.dropBeforeSend) with ⟨result, next⟩
  rw [hrun] at hpanic
  simp only [streamLoop, afterLog, hrun]
  cases result with
  | ok _ => rfl
  | error fault =>
      cases fault with
      | panic p => exact hpanic.elim
      | error e => rfl

/-- One iteration of the loop, with the receiver open throughout. -/
theorem streamLoop_undisturbed (reg : FactoryRegistry) (log : Log) (rest : List Arrival)
    (delivered : List NormalizedDeploy) :
    streamLoop reg (.undisturbed log :: rest) ⟨delivered, false⟩ =
      streamLoop reg rest ⟨delivered ++ (deployOf reg log).toList, false⟩ := by
  have hafter : afterLog reg (.undisturbed log) ⟨delivered, false⟩ =
      ⟨delivered ++ (deployOf reg log).toList, false⟩ := by
    simp only [afterLog, Arrival.undisturbed, Sender.dropIf, Bool.or_false, handleLog_delivers]
  rw [streamLoop_cons, hafter]
  rfl

/-- The loop over a stream whose receiver stays open delivers, in order, the
deploy of every log that announces one. -/
theorem streamLoop_delivers (reg : FactoryRegistry) (logs : List Log)
    (delivered : List NormalizedDeploy) :
    (streamLoop reg (logs.map .undisturbed) ⟨delivered, false⟩).2 =
      ⟨delivered ++ logs.filterMap (deployOf reg), false⟩ := by
  induction logs generalizing delivered with
  | nil => simp [streamLoop]
  | cons log rest ih =>
      rw [List.map_cons, streamLoop_undisturbed, ih]
      cases hdeploy : deployOf reg log <;> simp [hdeploy]

/-- No log ends the loop while the receiver is open. -/
theorem streamLoop_ends (reg : FactoryRegistry) (logs : List Log)
    (delivered : List NormalizedDeploy) :
    (streamLoop reg (logs.map .undisturbed) ⟨delivered, false⟩).1 =
      .error (.error (.subscription "stream ended")) := by
  induction logs generalizing delivered with
  | nil => rfl
  | cons log rest ih => rw [List.map_cons, streamLoop_undisturbed, ih]

/-- Delivery ignores `removed`: with the receiver open the channel gets exactly
the deploys of the matching, decodable logs, and setting or clearing the flag
of any log changes nothing about what that log announces. -/
theorem delivery_ignores_removed (reg : FactoryRegistry) (logs : List Log) :
    (streamLoop reg (logs.map .undisturbed) Sender.new).2.delivered =
        logs.filterMap (deployOf reg) ∧
      ∀ (log : Log) (flag : Bool),
        deployOf reg { log with removed := flag } = deployOf reg log := by
  constructor
  · have hrun := streamLoop_delivers reg logs []
    rw [Sender.new, hrun, List.nil_append]
  · intro log flag
    exact deployOf_removed reg log flag

/-- A registry that tracks one Zora factory. -/
def zoraOnly : FactoryRegistry where
  byLaunchpad := AList.insert .zora
    ⟨.zora, .repeatByte 20 0x77, .repeatByte 32 0x44, none⟩ ∅
  routing := AList.insert (.repeatByte 20 0x77, .repeatByte 32 0x44) .zora ∅

/-- The retraction of a Zora launch, as the node sends it after a reorg. -/
def retractedLaunch : Log where
  address := .repeatByte 20 0x77
  topics := [.repeatByte 32 0x44, Address.intoWord (.repeatByte 20 0x11),
    Address.intoWord (.repeatByte 20 0x22)]
  data := []
  blockNumber := some 7
  blockTimestamp := some 1700000000
  transactionHash := some (.repeatByte 32 0xBB)
  logIndex := some 0
  removed := true

/-- The retraction is announced as a launch, so the channel does not get only
the deploys of the logs that were not removed. -/
theorem retraction_is_announced :
    ¬ ∀ (reg : FactoryRegistry) (logs : List Log),
      (streamLoop reg (logs.map .undisturbed) Sender.new).2.delivered =
        (logs.filter fun log => !log.removed).filterMap (deployOf reg) := by
  intro h
  have hlength := congrArg List.length (h zoraOnly [retractedLaunch])
  revert hlength
  decide

end ShadeIndexer.Core
