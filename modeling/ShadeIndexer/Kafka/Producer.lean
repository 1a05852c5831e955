import ShadeIndexer.Core.Types
import ShadeIndexer.Lib.Transaction

/-!
The transactional producer. A call runs against the broker session and an
environment that fixes, for that call, what serialization and each librdkafka
operation answer. An environment is indexed by the position of the deploy in
the call, so every pattern of outcomes is some environment.

`Exit` is not part of the source: it names the place where a call ends, as a
function of its inputs and of whether a transaction is open. `run_spec` says
everything a call can do, exit by exit.
-/

namespace ShadeIndexer.Kafka

open ShadeIndexer.Core Lib.Transaction

inductive KafkaError where
  | wrongState
  | broker (code : Nat)
  deriving DecidableEq, Repr

inductive ProducerError where
  | kafka (e : KafkaError)
  | serialize (message : String)
  | sendCancelled
  deriving DecidableEq, Repr

structure Record where
  topic : String
  key : String
  payload : Bytes
  deriving DecidableEq

abbrev Broker := Session Record

structure CallEnv where
  /-- `serde_json::to_vec`. -/
  toVec : Nat → NormalizedDeploy → Except String Bytes
  beginTransaction : Option KafkaError
  send : Nat → SendOutcome KafkaError
  abortTransaction : AbortOutcome KafkaError
  commitTransaction : CommitOutcome KafkaError

def record (deploy : NormalizedDeploy) (payload : Bytes) : Record :=
  ⟨deploy.launchpad.topic, deploy.key, payload⟩

/-- The send arm of both functions: the result of the abort is discarded. -/
def sendOrAbort (env : CallEnv) (i : Nat) (r : Record) (s : Broker) :
    Except ProducerError Unit × Broker :=
  match s.send .wrongState r (env.send i) with
  | (.ok (), s) => (.ok (), s)
  | (.error e, s) => (.error (.kafka e), (s.abortTransaction env.abortTransaction).2)

/-- `commit_transaction(..)?` -/
def commit (env : CallEnv) (s : Broker) : Except ProducerError Unit × Broker :=
  match s.commitTransaction .wrongState env.commitTransaction with
  | (.ok (), s) => (.ok (), s)
  | (.error e, s) => (.error (.kafka e), s)

def publish (env : CallEnv) (deploy : NormalizedDeploy) (s : Broker) :
    Except ProducerError Unit × Broker :=
  match env.toVec 0 deploy with
  | .error e => (.error (.serialize e), s)
  | .ok payload =>
    match s.beginTransaction .wrongState env.beginTransaction with
    | (.error e, s) => (.error (.kafka e), s)
    | (.ok (), s) =>
      match sendOrAbort env 0 (record deploy payload) s with
      | (.error e, s) => (.error e, s)
      | (.ok (), s) => commit env s

/-- The `for deploy in deploys` loop. A serialization error leaves it at once,
with the transaction as it is. -/
def sendAll (env : CallEnv) : Nat → List NormalizedDeploy → Broker →
    Except ProducerError Unit × Broker
  | _, [], s => (.ok (), s)
  | i, deploy :: rest, s =>
    match env.toVec i deploy with
    | .error e => (.error (.serialize e), s)
    | .ok payload =>
      match sendOrAbort env i (record deploy payload) s with
      | (.error e, s) => (.error e, s)
      | (.ok (), s) => sendAll env (i + 1) rest s

def publishBatch (env : CallEnv) (deploys : List NormalizedDeploy) (s : Broker) :
    Except ProducerError Unit × Broker :=
  if deploys.isEmpty then (.ok (), s)
  else
    match s.beginTransaction .wrongState env.beginTransaction with
    | (.error e, s) => (.error (.kafka e), s)
    | (.ok (), s) =>
      match sendAll env 0 deploys s with
      | (.error e, s) => (.error e, s)
      | (.ok (), s) => commit env s

inductive Call where
  | publish (deploy : NormalizedDeploy)
  | publishBatch (deploys : List NormalizedDeploy)

structure Invocation where
  call : Call
  env : CallEnv

def Invocation.run (inv : Invocation) (s : Broker) : Except ProducerError Unit × Broker :=
  match inv.call with
  | .publish deploy => publish inv.env deploy s
  | .publishBatch deploys => publishBatch inv.env deploys s

inductive Exit where
  | done
  | atBegin
  | atSerialize
  | atSend
  | atCommit
  deriving DecidableEq, Repr

def commitExit (env : CallEnv) : Exit :=
  match env.commitTransaction with
  | .ok => .done
  | .err .. => .atCommit

/-- Where the loop is left early, or `none` if every record is sent. -/
def sendAllExit (env : CallEnv) : Nat → List NormalizedDeploy → Option Exit
  | _, [] => none
  | i, deploy :: rest =>
    match env.toVec i deploy, env.send i with
    | .error _, _ => some .atSerialize
    | .ok _, .err .. => some .atSend
    | .ok _, .ok => sendAllExit env (i + 1) rest

def Invocation.exit (inv : Invocation) (busy : Bool) : Exit :=
  let refused := busy || inv.env.beginTransaction.isSome
  match inv.call with
  | .publish deploy =>
    match inv.env.toVec 0 deploy with
    | .error _ => .atSerialize
    | .ok _ =>
      if refused then .atBegin
      else (sendAllExit inv.env 0 [deploy]).getD (commitExit inv.env)
  | .publishBatch deploys =>
    if deploys.isEmpty then .done
    else if refused then .atBegin
    else (sendAllExit inv.env 0 deploys).getD (commitExit inv.env)

def recordsFrom (env : CallEnv) : Nat → List NormalizedDeploy → Option (List Record)
  | _, [] => some []
  | i, deploy :: rest =>
    match env.toVec i deploy with
    | .error _ => none
    | .ok payload => (recordsFrom env (i + 1) rest).map (record deploy payload :: ·)

/-- The deploys a call is asked to publish. -/
def Call.deploys : Call → List NormalizedDeploy
  | .publish deploy => [deploy]
  | .publishBatch deploys => deploys

/-- The complete payload list of a call, if every deploy can be serialized. -/
def Invocation.records (inv : Invocation) : Option (List Record) :=
  recordsFrom inv.env 0 inv.call.deploys

/-- What the loop can do from an open transaction that holds `ms`. -/
inductive LoopSpec (env : CallEnv) (i : Nat) (deploys : List NormalizedDeploy)
    (ms visible : List Record) : Option Exit → Except ProducerError Unit → Broker → Prop where
  | sent (rs : List Record) (hrecords : recordsFrom env i deploys = some rs) :
      LoopSpec env i deploys ms visible none (.ok ()) ⟨some (ms ++ rs), visible⟩
  | unserialized (e : String) (left : List Record) :
      LoopSpec env i deploys ms visible (some .atSerialize) (.error (.serialize e))
        ⟨some left, visible⟩
  | sendFailed (e : KafkaError) (left : Option (List Record))
      (habort : env.abortTransaction = .ok → left = none) :
      LoopSpec env i deploys ms visible (some .atSend) (.error (.kafka e)) ⟨left, visible⟩

theorem sendOrAbort_ok (env : CallEnv) (i : Nat) (r : Record) (ms visible : List Record)
    (hsend : env.send i = .ok) :
    sendOrAbort env i r ⟨some ms, visible⟩ = (.ok (), ⟨some (ms ++ [r]), visible⟩) := by
  simp [sendOrAbort, Session.send, hsend]

/-- A failed send ends the call. The transaction is closed if the abort
succeeds, and what consumers see does not change either way. -/
theorem sendOrAbort_err (env : CallEnv) (i : Nat) (r : Record) (ms visible : List Record)
    (e : KafkaError) (reached : Bool) (hsend : env.send i = .err e reached) :
    ∃ left, sendOrAbort env i r ⟨some ms, visible⟩ = (.error (.kafka e), ⟨left, visible⟩) ∧
      (env.abortTransaction = .ok → left = none) := by
  cases habort : env.abortTransaction with
  | ok => exact ⟨none, by simp [sendOrAbort, Session.send, hsend, Session.abortTransaction, habort],
      fun _ => rfl⟩
  | err e' closed =>
      cases closed with
      | true => exact ⟨none, by
          simp [sendOrAbort, Session.send, hsend, Session.abortTransaction, habort], fun _ => rfl⟩
      | false => exact ⟨some (if reached then ms ++ [r] else ms), by
          simp [sendOrAbort, Session.send, hsend, Session.abortTransaction, habort],
          fun h => by cases h⟩

/-- The loop never touches the visible log. It ends with all of its records
staged, or at the first deploy that cannot be serialized, or at the first send
that fails. -/
theorem sendAll_spec (env : CallEnv) (i : Nat) (deploys : List NormalizedDeploy)
    (ms visible : List Record) :
    LoopSpec env i deploys ms visible (sendAllExit env i deploys)
      (sendAll env i deploys ⟨some ms, visible⟩).1
      (sendAll env i deploys ⟨some ms, visible⟩).2 := by
  induction deploys generalizing i ms with
  | nil =>
      have hspec : LoopSpec env i [] ms visible none (.ok ()) ⟨some (ms ++ []), visible⟩ :=
        .sent [] rfl
      simpa [sendAll, sendAllExit] using hspec
  | cons deploy rest ih =>
      cases hvec : env.toVec i deploy with
      | error e =>
          simp only [sendAll, sendAllExit, hvec]
          exact .unserialized e ms
      | ok payload =>
          cases hsend : env.send i with
          | err e reached =>
              obtain ⟨left, hrun, habort⟩ := sendOrAbort_err env i (record deploy payload)
                ms visible e reached hsend
              simp only [sendAll, sendAllExit, hvec, hsend, hrun]
              exact .sendFailed e left habort
          | ok =>
              have hrun := sendOrAbort_ok env i (record deploy payload) ms visible hsend
              have hrest := ih (i + 1) (ms ++ [record deploy payload])
              simp only [sendAll, sendAllExit, hvec, hsend, hrun]
              generalize sendAllExit env (i + 1) rest = exit at hrest ⊢
              generalize sendAll env (i + 1) rest ⟨some (ms ++ [record deploy payload]), visible⟩ =
                run at hrest ⊢
              obtain ⟨result, after⟩ := run
              cases hrest with
              | sent rs hrecords =>
                  have hall : recordsFrom env i (deploy :: rest) =
                      some (record deploy payload :: rs) := by
                    simp [recordsFrom, hvec, hrecords]
                  have hspec : LoopSpec env i (deploy :: rest) ms visible none (.ok ())
                      ⟨some (ms ++ record deploy payload :: rs), visible⟩ := .sent _ hall
                  simpa using hspec
              | unserialized e left => exact .unserialized e left
              | sendFailed e left habort => exact .sendFailed e left habort

/-- Everything one call can do to the session it starts from. -/
inductive CallSpec (inv : Invocation) (s : Broker) :
    Exit → Except ProducerError Unit → Broker → Prop where
  | nothingToDo (hcall : inv.call = .publishBatch []) : CallSpec inv s .done (.ok ()) s
  | refused (e : KafkaError) : CallSpec inv s .atBegin (.error (.kafka e)) s
  | unserialized (e : String) (hcall : ∃ deploy, inv.call = .publish deploy) :
      CallSpec inv s .atSerialize (.error (.serialize e)) s
  | leftOpen (e : String) (left : List Record)
      (hcall : ∃ deploys, inv.call = .publishBatch deploys) :
      CallSpec inv s .atSerialize (.error (.serialize e)) ⟨some left, s.visible⟩
  | sendFailed (e : KafkaError) (left : Option (List Record))
      (habort : inv.env.abortTransaction = .ok → left = none) :
      CallSpec inv s .atSend (.error (.kafka e)) ⟨left, s.visible⟩
  | commitFailed (e : KafkaError) (rs : List Record) (applied closed : Bool)
      (hrecords : inv.records = some rs)
      (hcommit : inv.env.commitTransaction = .err e applied closed) :
      CallSpec inv s .atCommit (.error (.kafka e))
        ⟨if closed then none else some (if applied then [] else rs),
          if applied then s.visible ++ rs else s.visible⟩
  | committed (rs : List Record) (hrecords : inv.records = some rs) :
      CallSpec inv s .done (.ok ()) ⟨none, s.visible ++ rs⟩

/-- The commit that ends a call whose records are all staged. -/
theorem commit_spec (inv : Invocation) (s : Broker) (rs : List Record)
    (hrecords : inv.records = some rs) :
    CallSpec inv s (commitExit inv.env) (commit inv.env ⟨some rs, s.visible⟩).1
      (commit inv.env ⟨some rs, s.visible⟩).2 := by
  cases hcommit : inv.env.commitTransaction with
  | ok =>
      simp only [commit, commitExit, Session.commitTransaction, hcommit]
      exact .committed rs hrecords
  | err e applied closed =>
      simp only [commit, commitExit, Session.commitTransaction, hcommit]
      exact .commitFailed e rs applied closed hrecords hcommit

theorem publish_spec (env : CallEnv) (deploy : NormalizedDeploy) (s : Broker) :
    CallSpec ⟨.publish deploy, env⟩ s
      (Invocation.exit ⟨.publish deploy, env⟩ s.staged.isSome)
      (publish env deploy s).1 (publish env deploy s).2 := by
  cases hvec : env.toVec 0 deploy with
  | error e =>
      simp only [publish, Invocation.exit, hvec]
      exact .unserialized e ⟨deploy, rfl⟩
  | ok payload =>
      rcases begin_cases KafkaError.wrongState s env.beginTransaction with
        ⟨hidle, hnone, hbegin⟩ | ⟨hrefused, e, hbegin⟩
      · have hrecords : Invocation.records ⟨.publish deploy, env⟩ =
            some [record deploy payload] := by
          simp [Invocation.records, Call.deploys, recordsFrom, hvec]
        cases hsend : env.send 0 with
        | ok =>
            have hrun := sendOrAbort_ok env 0 (record deploy payload) [] s.visible hsend
            simp only [publish, Invocation.exit, sendAllExit, hvec, hbegin, hsend, hrun, hidle,
              hnone]
            exact commit_spec ⟨.publish deploy, env⟩ s _ hrecords
        | err e reached =>
            obtain ⟨left, hrun, habort⟩ := sendOrAbort_err env 0 (record deploy payload)
              [] s.visible e reached hsend
            simp only [publish, Invocation.exit, sendAllExit, hvec, hbegin, hsend, hrun, hidle,
              hnone]
            exact .sendFailed e left habort
      · have hbusy : (s.staged.isSome || env.beginTransaction.isSome) = true := by
          simpa using hrefused
        simp only [publish, Invocation.exit, hvec, hbegin, hbusy]
        exact .refused e

theorem publishBatch_spec (env : CallEnv) (deploys : List NormalizedDeploy) (s : Broker) :
    CallSpec ⟨.publishBatch deploys, env⟩ s
      (Invocation.exit ⟨.publishBatch deploys, env⟩ s.staged.isSome)
      (publishBatch env deploys s).1 (publishBatch env deploys s).2 := by
  cases deploys with
  | nil => exact .nothingToDo rfl
  | cons first rest =>
      rcases begin_cases KafkaError.wrongState s env.beginTransaction with
        ⟨hidle, hnone, hbegin⟩ | ⟨hrefused, e, hbegin⟩
      · have hloop := sendAll_spec env 0 (first :: rest) [] s.visible
        simp only [publishBatch, Invocation.exit, hbegin, hidle, hnone, List.isEmpty_cons]
        generalize sendAllExit env 0 (first :: rest) = exit at hloop ⊢
        generalize sendAll env 0 (first :: rest) ⟨some [], s.visible⟩ = run at hloop ⊢
        obtain ⟨result, after⟩ := run
        cases hloop with
        | sent rs hrecords =>
            exact commit_spec ⟨.publishBatch (first :: rest), env⟩ s rs hrecords
        | unserialized e left => exact .leftOpen e left ⟨_, rfl⟩
        | sendFailed e left habort => exact .sendFailed e left habort
      · have hbusy : (s.staged.isSome || env.beginTransaction.isSome) = true := by
          simpa using hrefused
        simp only [publishBatch, Invocation.exit, hbegin, hbusy, List.isEmpty_cons]
        exact .refused e

theorem run_spec (inv : Invocation) (s : Broker) :
    CallSpec inv s (inv.exit s.staged.isSome) (inv.run s).1 (inv.run s).2 := by
  obtain ⟨call, env⟩ := inv
  cases call with
  | publish deploy => exact publish_spec env deploy s
  | publishBatch deploys => exact publishBatch_spec env deploys s

end ShadeIndexer.Kafka
