import ShadeIndexer.Bin.Ingestion
import ShadeIndexer.Bin.Persistence
import ShadeIndexer.Core.Announcement
import ShadeIndexer.Enrich.Replay

/-!
Where the contents of the database come from. Every row can be traced to logs
that the node has sent, and every enrichment to a snapshot that was fetched.
-/

namespace ShadeIndexer.Bin

open ShadeIndexer.Core Enrich Kafka Lib Lib.Rust Lib.Mpsc Lib.Relational Lib.Transition

namespace Indexer

/-- The worker was in the phase when it met what the step of the run brought. -/
def MetIn (start : Indexer) (actions : List Action) (phase : WorkerRun) (env : WorkerEnv) : Prop :=
  ∃ before after s, actions = before ++ .task (.worker env) :: after ∧
    run step start before = some s ∧ s.pipeline.worker = phase

/-- The subscriber leaves the worker, its record and the database alone. -/
theorem elsewhere_step {s next : Indexer} {action : Action} (h : StepSpec s action next)
    (haction : ∀ t, action ≠ .task t) :
    next.pipeline.worker = s.pipeline.worker ∧ next.pipeline.processed = s.pipeline.processed ∧
      next.pipeline.history = s.pipeline.history ∧ next.pipeline.db = s.pipeline.db := by
  have hloop (s : Indexer) : s.loopBack.pipeline.worker = s.pipeline.worker ∧
      s.loopBack.pipeline.processed = s.pipeline.processed ∧
      s.loopBack.pipeline.history = s.pipeline.history ∧
      s.loopBack.pipeline.db = s.pipeline.db := by
    unfold loopBack
    split <;> exact ⟨rfl, rfl, rfl, rfl⟩
  cases h with
  | ignored hphase hdeploy | handed hphase hsend | refused hphase hsend => exact hloop _
  | task hstep => exact absurd rfl (haction _)
  | _ => exact ⟨rfl, rfl, rfl, rfl⟩

theorem persisted_step {met : WorkerRun → WorkerEnv → Prop} {db : Database} {s next : Indexer}
    {action : Action} (hmet : ∀ env, action = .task (.worker env) → met s.pipeline.worker env)
    (h : ∃ calls current, s.pipeline.Persisted met db calls current)
    (hstep : StepSpec s action next) :
    ∃ calls current, next.pipeline.Persisted met db calls current := by
  obtain ⟨calls, current, hs⟩ := h
  by_cases htask : ∃ t, action = .task t
  · obtain ⟨t, rfl⟩ := htask
    cases hstep with
    | task htaken =>
        refine Pipeline.persisted_step ?_ hs (Pipeline.step_spec htaken)
        cases t with
        | worker env => exact hmet env rfl
        | fanout clock | producer env => trivial
  · obtain ⟨hworker, hprocessed, hhistory, hdb⟩ :=
      elsewhere_step hstep fun t ht => htask ⟨t, ht⟩
    exact ⟨calls, current, hs.elsewhere hworker hprocessed (by rw [hhistory]; exact .refl _) hdb⟩

theorem run_processed {caps : Capacities} {db : Database} {reg : FactoryRegistry}
    {actions : List Action} {s : Indexer} (hrun : run step (launch caps db reg) actions = some s) :
    ∃ calls, s.pipeline.Processed (MetIn (launch caps db reg) actions) db calls := by
  have hpersisted : ∃ calls current,
      s.pipeline.Persisted (MetIn (launch caps db reg) actions) db calls current := by
    refine run_invariant_along (fun s => ∃ calls current,
      s.pipeline.Persisted (MetIn (launch caps db reg) actions) db calls current) ?_
      ⟨[], [], Pipeline.persisted_launch caps db⟩ hrun
    intro before action after u next hsplit hbefore hinv hstep
    refine persisted_step ?_ hinv (step_spec hstep)
    rintro env rfl
    exact ⟨before, after, u, hsplit, hbefore, rfl⟩
  obtain ⟨calls, current, hs⟩ := hpersisted
  exact hs.processed

theorem run_registry {caps : Capacities} {db : Database} {reg : FactoryRegistry}
    {actions : List Action} {s : Indexer} (hrun : run step (launch caps db reg) actions = some s) :
    s.registry = reg :=
  (run_invariant (Paced reg) (fun _ _ _ hinv hstep => paced_step hinv (step_spec hstep))
    (paced_launch caps db reg) hrun).registry

/-- What the worker has taken was announced by a log. -/
theorem Accounted.processed_announced {s : Indexer} (h : s.Accounted) {d : NormalizedDeploy}
    (hd : d ∈ s.pipeline.processed) :
    ∃ log ∈ s.receivedLogs, Announces s.registry log d := by
  have hmem : d ∈ s.announced := by
    rw [h.traced.enrichment]
    simp [hd]
  obtain ⟨log, hlog, hdeploy⟩ := List.mem_filterMap.mp hmem
  exact ⟨log, hlog, deployOf_announces hdeploy⟩

/-- A fetch that finds three holders. -/
def threeHolders : WorkerEnv :=
  { Pipeline.answering with
    fetched := .ok ⟨[5, 3, 2], .finite 10, .finite 40, false, 1⟩
    write := ⟨1700000004000000, none⟩ }

/-- One launch, from its log to the return of its upsert. -/
def storedLaunch : List Action :=
  [.connected, .subscribed, .log zoraLaunch, .sent, .task (.fanout 1700000000000000000),
    .task (.fanout 1700000000000000000), .task (.fanout 1700000000000000000),
    .task (.worker Pipeline.answering), .task (.worker Pipeline.answering)]

end Indexer

end ShadeIndexer.Bin
