import ShadeIndexer.Kafka.Producer

/-!
What holds over whole sequences of producer calls. A trace records, for each
call, the broker session before and after it and its result.

Atomicity needs nothing from librdkafka beyond the session semantics: an abort
may fail, and a failed commit may or may not have been applied. Hygiene, the
absence of an open transaction between calls, is a different matter. Two exits
forget the abort, and hygiene holds exactly on the sequences that take neither.
-/

namespace ShadeIndexer.Kafka

open ShadeIndexer.Core Lib.Transaction

structure Step where
  inv : Invocation
  before : Broker
  result : Except ProducerError Unit
  after : Broker

def trace : List Invocation → Broker → List Step
  | [], _ => []
  | inv :: rest, s => ⟨inv, s, (inv.run s).1, (inv.run s).2⟩ :: trace rest (inv.run s).2

def runAll (invs : List Invocation) (s : Broker) : Broker :=
  invs.foldl (fun s inv => (inv.run s).2) s

def Step.exit (step : Step) : Exit := step.inv.exit step.before.staged.isSome

/-- The messages of a call whose deploys can all be serialized. -/
def Invocation.payloads (inv : Invocation) : List Record := inv.records.getD []

/-- What a mark may say about a call: only a complete payload list can be
committed, a call that returned `Ok` is committed, and one that failed before
its commit is not. A failed commit may be marked either way. -/
structure Step.Contribution (step : Step) (mark : Bool) : Prop where
  complete : mark = true → ∃ rs, step.inv.records = some rs
  of_ok : step.result = .ok () → mark = true
  of_early_failure : step.exit ∈ [.atBegin, .atSerialize, .atSend] → mark = false

/-- One call adds its complete payload list to the visible log, or nothing,
whatever the session it starts from has staged. -/
theorem run_contributes (inv : Invocation) (s : Broker) :
    ∃ mark, Step.Contribution ⟨inv, s, (inv.run s).1, (inv.run s).2⟩ mark ∧
      (inv.run s).2.visible = s.visible ++ if mark then inv.payloads else [] := by
  have hspec := run_spec inv s
  have hexit : Step.exit ⟨inv, s, (inv.run s).1, (inv.run s).2⟩ =
      inv.exit s.staged.isSome := rfl
  generalize (inv.run s).2 = after at hspec hexit ⊢
  generalize (inv.run s).1 = result at hspec hexit ⊢
  generalize inv.exit s.staged.isSome = exit at hspec hexit
  cases hspec with
  | nothingToDo hcall =>
      have hrecords : inv.records = some [] := by
        simp [Invocation.records, hcall, Call.deploys, recordsFrom]
      refine ⟨true, ⟨fun _ => ⟨[], hrecords⟩, fun _ => rfl, ?_⟩, ?_⟩
      · simp [hexit]
      · simp [Invocation.payloads, hrecords]
  | refused e =>
      exact ⟨false, ⟨by simp, by simp, fun _ => rfl⟩, by simp⟩
  | unserialized e hcall =>
      exact ⟨false, ⟨by simp, by simp, fun _ => rfl⟩, by simp⟩
  | leftOpen e left hcall =>
      exact ⟨false, ⟨by simp, by simp, fun _ => rfl⟩, by simp⟩
  | sendFailed e left habort =>
      exact ⟨false, ⟨by simp, by simp, fun _ => rfl⟩, by simp⟩
  | commitFailed e rs applied closed hrecords hcommit =>
      refine ⟨applied, ⟨fun _ => ⟨rs, hrecords⟩, by simp, by simp [hexit]⟩, ?_⟩
      cases applied <;> simp [Invocation.payloads, hrecords]
  | committed rs hrecords =>
      refine ⟨true, ⟨fun _ => ⟨rs, hrecords⟩, fun _ => rfl, by simp [hexit]⟩, ?_⟩
      simp [Invocation.payloads, hrecords]

theorem runAll_contributes (invs : List Invocation) (s : Broker) :
    ∃ marks, List.Forall₂ Step.Contribution (trace invs s) marks ∧
      (runAll invs s).visible =
        s.visible ++ committedLog ((invs.map Invocation.payloads).zip marks) := by
  induction invs generalizing s with
  | nil => exact ⟨[], .nil, by simp [runAll]⟩
  | cons inv rest ih =>
      obtain ⟨mark, hhead, hvisible⟩ := run_contributes inv s
      obtain ⟨marks, htail, hrest⟩ := ih (inv.run s).2
      refine ⟨mark :: marks, .cons hhead htail, ?_⟩
      calc
        (runAll (inv :: rest) s).visible = (runAll rest (inv.run s).2).visible := rfl
        _ = (inv.run s).2.visible ++
              committedLog ((rest.map Invocation.payloads).zip marks) := hrest
        _ = s.visible ++ committedLog
              (((inv :: rest).map Invocation.payloads).zip (mark :: marks)) := by
            rw [hvisible, List.append_assoc]
            rfl

/-- After any sequence of calls, consumers of committed messages see the
concatenation, in call order, of the complete payload lists of some of the
calls. Every call that returned `Ok` is among them, and none that failed
before its commit. -/
theorem published_all_or_nothing (invs : List Invocation) :
    ∃ marks, List.Forall₂ Step.Contribution (trace invs .fresh) marks ∧
      (runAll invs .fresh).visible =
        committedLog ((invs.map Invocation.payloads).zip marks) := by
  obtain ⟨marks, htrace, hvisible⟩ := runAll_contributes invs .fresh
  exact ⟨marks, htrace, by simpa [Session.fresh] using hvisible⟩

/-- What librdkafka promises about the two operations that close a transaction.
That `begin` is refused while a transaction is open is part of the session. -/
structure LibrdkafkaContract (env : CallEnv) : Prop where
  abort_succeeds : env.abortTransaction = .ok
  failed_commit_stays_open : ∀ e applied closed,
    env.commitTransaction = .err e applied closed → closed = false

def Call.isBatch : Call → Bool
  | .publish _ => false
  | .publishBatch _ => true

/-- The two exits that return from an open transaction without an abort: a
commit that fails, and a serialization error inside the loop of a batch. -/
def Invocation.Leaks (inv : Invocation) : Prop :=
  inv.exit false = .atCommit ∨ (inv.exit false = .atSerialize ∧ inv.call.isBatch = true)

/-- No transaction is open when a call returns, and so none when a call
begins. -/
structure Hygienic (steps : List Step) : Prop where
  closed_after : ∀ step ∈ steps, step.after.staged = none
  closed_before : ∀ step ∈ steps, step.before.staged = none

/-- A call that finds no transaction open leaves none open exactly if it does
not leak. -/
theorem run_closed_iff (inv : Invocation) (hcontract : LibrdkafkaContract inv.env)
    (s : Broker) (hs : s.staged = none) :
    (inv.run s).2.staged = none ↔ ¬ inv.Leaks := by
  have hspec := run_spec inv s
  rw [hs, Option.isSome_none] at hspec
  unfold Invocation.Leaks
  generalize (inv.run s).2 = after at hspec ⊢
  generalize (inv.run s).1 = result at hspec
  generalize inv.exit false = exit at hspec ⊢
  cases hspec with
  | nothingToDo hcall => simp [hs]
  | refused e => simp [hs]
  | unserialized e hcall =>
      obtain ⟨deploy, hcall⟩ := hcall
      simp [hs, hcall, Call.isBatch]
  | leftOpen e left hcall =>
      obtain ⟨deploys, hcall⟩ := hcall
      simp [hcall, Call.isBatch]
  | sendFailed e left habort =>
      simp [habort hcontract.abort_succeeds]
  | commitFailed e rs applied closed hrecords hcommit =>
      have hopen : closed = false :=
        hcontract.failed_commit_stays_open e applied closed hcommit
      simp [hopen]
  | committed rs hrecords => simp

theorem hygienic_cons (inv : Invocation) (rest : List Invocation) (s : Broker)
    (hs : s.staged = none) :
    Hygienic (trace (inv :: rest) s) ↔
      (inv.run s).2.staged = none ∧ Hygienic (trace rest (inv.run s).2) := by
  constructor
  · intro h
    refine ⟨h.closed_after _ (List.mem_cons_self ..), ?_, ?_⟩
    · intro step hstep
      exact h.closed_after step (List.mem_cons_of_mem _ hstep)
    · intro step hstep
      exact h.closed_before step (List.mem_cons_of_mem _ hstep)
  · rintro ⟨hhead, htail⟩
    constructor
    · intro step hstep
      rcases List.mem_cons.mp hstep with rfl | hstep
      · exact hhead
      · exact htail.closed_after step hstep
    · intro step hstep
      rcases List.mem_cons.mp hstep with rfl | hstep
      · exact hs
      · exact htail.closed_before step hstep

theorem hygienic_iff_from (invs : List Invocation)
    (hcontract : ∀ inv ∈ invs, LibrdkafkaContract inv.env)
    (s : Broker) (hs : s.staged = none) :
    Hygienic (trace invs s) ↔ ∀ inv ∈ invs, ¬ inv.Leaks := by
  induction invs generalizing s with
  | nil => exact ⟨by simp, fun _ => ⟨by simp [trace], by simp [trace]⟩⟩
  | cons inv rest ih =>
      have hinv := run_closed_iff inv (hcontract inv (List.mem_cons_self ..)) s hs
      have hrest : ∀ inv ∈ rest, LibrdkafkaContract inv.env :=
        fun i hi => hcontract i (List.mem_cons_of_mem _ hi)
      rw [hygienic_cons inv rest s hs, List.forall_mem_cons, hinv]
      constructor
      · rintro ⟨hhead, htail⟩
        exact ⟨hhead, (ih hrest _ (hinv.mpr hhead)).mp htail⟩
      · rintro ⟨hhead, htail⟩
        exact ⟨hhead, (ih hrest _ (hinv.mpr hhead)).mpr htail⟩

/-- Under librdkafka's promises, a sequence of calls is hygienic exactly if
none of its calls fails at its commit and no batch fails at serialization. -/
theorem hygienic_iff_no_leak (invs : List Invocation)
    (hcontract : ∀ inv ∈ invs, LibrdkafkaContract inv.env) :
    Hygienic (trace invs .fresh) ↔ ∀ inv ∈ invs, ¬ inv.Leaks :=
  hygienic_iff_from invs hcontract .fresh rfl

def sampleDeploy : NormalizedDeploy where
  launchpad := .clanker
  token := .repeatByte 20 0x11
  deployer := .repeatByte 20 0x22
  blockNumber := 1
  blockTimestamp := 1700000000
  txHash := .repeatByte 32 0xBB
  logIndex := 0
  initialSupply := none
  raw := .null

/-- Everything succeeds, except for the commit if it is told to time out. -/
def sampleEnv (commitTimesOut : Bool) : CallEnv where
  toVec := fun _ _ => .ok []
  beginTransaction := none
  send := fun _ => .ok
  abortTransaction := .ok
  commitTransaction := if commitTimesOut then .err (.broker 7) false false else .ok

theorem sampleEnv_contract (commitTimesOut : Bool) :
    LibrdkafkaContract (sampleEnv commitTimesOut) := by
  constructor
  · rfl
  · intro e applied closed hcommit
    cases commitTimesOut with
    | true =>
        simp [sampleEnv] at hcommit
        exact hcommit.2.2
    | false => simp [sampleEnv] at hcommit

theorem hygienic_publish_then_batch :
    Hygienic (trace [⟨.publish sampleDeploy, sampleEnv false⟩,
      ⟨.publishBatch [sampleDeploy, sampleDeploy], sampleEnv false⟩] .fresh) := by
  refine (hygienic_iff_no_leak _ ?_).mpr ?_
  · simp [sampleEnv_contract]
  · simp only [List.forall_mem_cons, Invocation.Leaks]
    decide

/-- A commit that times out leaves the transaction open, and the next call
starts with it. -/
theorem timed_out_commit_leaks :
    ¬ ∀ invs : List Invocation, (∀ inv ∈ invs, LibrdkafkaContract inv.env) →
      Hygienic (trace invs .fresh) := by
  intro h
  have hrun := h [⟨.publish sampleDeploy, sampleEnv true⟩,
    ⟨.publish sampleDeploy, sampleEnv false⟩] (by simp [sampleEnv_contract])
  have hopen := hrun.closed_after _ (List.mem_cons_self ..)
  revert hopen
  decide

end ShadeIndexer.Kafka
