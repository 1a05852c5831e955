import ShadeIndexer.Bin.Provenance

/-!
A service that is stopped at any point and started again, any number of times
and with a configuration of its own each time. The database is all that a process
leaves to the next. Its channels, the deploy at which its worker was and whatever
had not reached the worker are gone with it.
-/

namespace ShadeIndexer.Enrich

open ShadeIndexer.Core Lib Lib.Relational

theorem enrichmentOf_isSome_processAll (calls : List ProcessCall) {db : Database}
    {k : Bytes × Bytes} (h : (db.enrichmentOf k).isSome) :
    ((processAll calls db).enrichmentOf k).isSome := by
  induction calls generalizing db with
  | nil => exact h
  | cons call rest ih =>
      apply ih
      rw [enrichmentOf_process]
      split
      · rfl
      · exact h

end ShadeIndexer.Enrich

namespace ShadeIndexer.Bin

open ShadeIndexer.Core Enrich Lib Lib.Relational Lib.Transition

/-- One process, from its launch until it is gone. -/
structure Process where
  caps : Capacities
  registry : FactoryRegistry
  actions : List Indexer.Action

/-- The log arrives while the process runs. -/
def Process.Receives (p : Process) (log : Log) : Prop := log ∈ p.actions.flatMap Indexer.Action.logs

/-- The database behind one process after the other. -/
def history : List Process → Database → Option Database
  | [], db => some db
  | p :: rest, db => do
    let s ← run Indexer.step (Indexer.launch p.caps db p.registry) p.actions
    history rest s.pipeline.db

/-- The database has been through one sequence of calls, as if nothing had been
stopped. Each call is for a deploy that a log announced to one of the processes. -/
theorem history_processAll {processes : List Process} {db last : Database}
    (h : history processes db = some last) :
    ∃ calls, last = processAll calls db ∧ ∀ call ∈ calls, ∃ p ∈ processes, ∃ log,
      p.Receives log ∧ Announces p.registry log call.upsert.deploy := by
  induction processes generalizing db with
  | nil =>
      obtain rfl := Option.some.inj h
      exact ⟨[], rfl, by simp⟩
  | cons p rest ih =>
      obtain ⟨s, hrun, hrest⟩ := Option.bind_eq_some_iff.mp h
      obtain ⟨calls, hcalls⟩ := Indexer.run_processed hrun
      obtain ⟨later, hlater, hannounced⟩ := ih hrest
      refine ⟨calls ++ later, ?_, ?_⟩
      · rw [hlater, hcalls.database]
        exact List.foldl_append.symm
      · intro call hcall
        rcases List.mem_append.mp hcall with hfirst | hlast
        · have hmem : call.upsert.deploy ∈ s.pipeline.processed :=
            hcalls.deploys.subset (List.mem_map_of_mem hfirst)
          obtain ⟨log, hlog, hannounces⟩ :=
            (Indexer.run_accounted hrun).1.processed_announced hmem
          rw [Indexer.run_receivedLogs hrun] at hlog
          rw [Indexer.run_registry hrun] at hannounces
          exact ⟨p, List.mem_cons_self .., log, hlog, hannounces⟩
        · obtain ⟨q, hq, hlog⟩ := hannounced call hlast
          exact ⟨q, List.mem_cons_of_mem _ hq, hlog⟩

/-- Wherever the processes were stopped: every row is still there with its id
and its columns, up to the timestamp, and with an enrichment if it had one. A row
that was added shows a deploy that one of the processes was told of. -/
theorem restarts_lose_nothing (processes : List Process) (db last : Database)
    (h : history processes db = some last) :
    (∀ k row, db.deploys.find k = some row →
      ∃ later, last.deploys.find k = some later ∧ Kept row later ∧
        ((db.enrichmentOf k).isSome → (last.enrichmentOf k).isSome)) ∧
      ∀ row ∈ last.deploys.rows, db.deploys.find row.key = none →
        ∃ p ∈ processes, ∃ log d, p.Receives log ∧ Announces p.registry log d ∧ Shows row d ∧
          row.blockNumber = d.blockNumber.toInt64 := by
  obtain ⟨calls, rfl, hannounced⟩ := history_processAll h
  constructor
  · intro k row hrow
    obtain ⟨later, hlater, hkept⟩ := kept_processAll calls db hrow
    exact ⟨later, hlater, hkept, enrichmentOf_isSome_processAll calls⟩
  · intro row hrow hnew
    obtain ⟨call, hcall, -, -, hcolumns⟩ := row_of_processAll hrow hnew
    obtain ⟨p, hp, log, hlog, hannounces⟩ := hannounced call hcall
    refine ⟨p, hp, log, call.upsert.deploy, hlog, hannounces, ⟨?_, ?_, ?_, ?_⟩, ?_⟩
    · exact congrArg DeployColumns.launchpad hcolumns
    · exact congrArg DeployColumns.token hcolumns
    · exact congrArg DeployColumns.deployer hcolumns
    · exact congrArg DeployColumns.txHash hcolumns
    · exact congrArg DeployColumns.blockNumber hcolumns

/-- A process that is stopped between the two writes of a launch. -/
def stoppedBetween : Process := ⟨unitCapacities, zoraOnly, Indexer.storedLaunch⟩

/-- The launch is delivered again to its successor. -/
theorem restarts_lose_nothing_stoppedBetween :
    ∃ mid last, history [stoppedBetween] .empty = some mid ∧
      history [stoppedBetween] mid = some last ∧ mid.deploys.rows.length = 1 ∧
      ∀ row ∈ mid.deploys.rows,
        ∃ later, last.deploys.find row.key = some later ∧ Kept row later := by
  have hsecond (mid : Database) : ∃ last, history [stoppedBetween] mid = some last := ⟨_, rfl⟩
  have hlength : (history [stoppedBetween] .empty).map (fun db => db.deploys.rows.length) =
      some 1 := rfl
  obtain ⟨mid, hmid, hone⟩ := Option.map_eq_some_iff.mp hlength
  obtain ⟨last, hlast⟩ := hsecond mid
  refine ⟨mid, last, hmid, hlast, hone, ?_⟩
  intro row hrow
  obtain ⟨hkept, -⟩ := restarts_lose_nothing [stoppedBetween] mid last hlast
  obtain ⟨later, hlater, hlaterKept, -⟩ := hkept row.key row (Table.find_of_mem hrow)
  exact ⟨later, hlater, hlaterKept⟩

end ShadeIndexer.Bin
