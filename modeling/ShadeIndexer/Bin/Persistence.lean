import ShadeIndexer.Bin.Pipeline
import ShadeIndexer.Enrich.Isolation
import ShadeIndexer.Kafka.Transactions
import ShadeIndexer.Lib.Simulation

/-!
The worker of a running pipeline against calls of `process`. The worker awaits
in the middle of a call while the other tasks go on, and each of its awaits may
be answered differently. What the database has been through is still a sequence
of whole calls, and at most one more that has only upserted.
-/

namespace ShadeIndexer.Bin

open ShadeIndexer.Core Enrich Kafka Lib.Rust Lib.Mpsc Lib.Transition

variable (met : WorkerRun → WorkerEnv → Prop)

/-- What a call has written was answered at its own awaits: the upsert of its
deploy, the fetch for its deploy and the write of what that fetch returned. -/
structure Grounded (call : ProcessCall) : Prop where
  upsert : ∃ env, met (.upserting call.upsert.deploy) env ∧
    call.upsert = ⟨call.upsert.deploy, env.now, env.upsertFault⟩
  outcome : ∀ e, call.outcome = some e → ∃ id env env' snapshot,
    met (.fetching call.upsert.deploy id) env ∧ env.fetched = .ok snapshot ∧
      e = Enrichment.fromSnapshot snapshot ∧ met (.writing call.upsert.deploy id e) env' ∧
      call.write = env'.write

variable {met} in
/-- A call that writes nothing has only its upsert to answer for. -/
theorem grounded_of_upsert {call : ProcessCall} {env : WorkerEnv}
    (henv : met (.upserting call.upsert.deploy) env)
    (hupsert : call.upsert = ⟨call.upsert.deploy, env.now, env.upsertFault⟩)
    (hnone : call.outcome = none) : Grounded met call := by
  refine ⟨⟨env, henv, hupsert⟩, ?_⟩
  intro e he
  rw [hnone] at he
  cases he

/-- How far the worker is in its current call, from the database that the call
before left. -/
inductive InCall (before : Database) : WorkerRun → List NormalizedDeploy → Database → Prop where
  | receiving : InCall before .receiving [] before
  | ended : InCall before .ended [] before
  | upserting (d : NormalizedDeploy) : InCall before (.upserting d) [d] before
  | fetching (d : NormalizedDeploy) (env : WorkerEnv) (id : Nat) (after : Database)
      (henv : met (.upserting d) env)
      (hupsert : upsertDeploy ⟨d, env.now, env.upsertFault⟩ before = (.ok id, after)) :
      InCall before (.fetching d id) [d] after
  | writing (d : NormalizedDeploy) (env env' : WorkerEnv) (id : Nat) (snapshot : HolderSnapshot)
      (after : Database) (henv : met (.upserting d) env)
      (hupsert : upsertDeploy ⟨d, env.now, env.upsertFault⟩ before = (.ok id, after))
      (henv' : met (.fetching d id) env') (hfetched : env'.fetched = .ok snapshot) :
      InCall before (.writing d id (Enrichment.fromSnapshot snapshot)) [d] after

section

variable {met} {before after : Database} {current : List NormalizedDeploy}

theorem InCall.at_channel (h : InCall met before .receiving current after) :
    current = [] ∧ after = before := by
  cases h
  exact ⟨rfl, rfl⟩

theorem InCall.at_end (h : InCall met before .ended current after) :
    current = [] ∧ after = before := by
  cases h
  exact ⟨rfl, rfl⟩

theorem InCall.at_upsert {d : NormalizedDeploy}
    (h : InCall met before (.upserting d) current after) : current = [d] ∧ after = before := by
  cases h
  exact ⟨rfl, rfl⟩

theorem InCall.at_fetch {d : NormalizedDeploy} {id : Nat}
    (h : InCall met before (.fetching d id) current after) :
    ∃ env, met (.upserting d) env ∧ current = [d] ∧
      upsertDeploy ⟨d, env.now, env.upsertFault⟩ before = (.ok id, after) := by
  cases h with
  | fetching d env id after henv hupsert => exact ⟨env, henv, rfl, hupsert⟩

theorem InCall.at_write {d : NormalizedDeploy} {id : Nat} {e : Enrichment}
    (h : InCall met before (.writing d id e) current after) :
    ∃ env env' snapshot, met (.upserting d) env ∧ met (.fetching d id) env' ∧
      env'.fetched = .ok snapshot ∧ e = Enrichment.fromSnapshot snapshot ∧ current = [d] ∧
      upsertDeploy ⟨d, env.now, env.upsertFault⟩ before = (.ok id, after) := by
  cases h with
  | writing d env env' id snapshot after henv hupsert henv' hfetched =>
      exact ⟨env, env', snapshot, henv, henv', hfetched, rfl, rfl, hupsert⟩

end

theorem refused_of_error {call : UpsertCall} {before after : Database} {e : StoreError}
    (h : upsertDeploy call before = (.error e, after)) : ¬ call.Accepted := by
  rcases upsertDeploy_cases call before with ⟨hrefused, -, -⟩ | ⟨-, hok, -⟩
  · exact hrefused
  · rw [h] at hok
    cases hok

/-- What a call writes comes from the snapshot that it has fetched. -/
theorem outcome_of_fetched {call : ProcessCall} {snapshot : HolderSnapshot} {e : Enrichment}
    (hfetched : call.fetched = .ok snapshot) (houtcome : call.outcome = some e) :
    e = Enrichment.fromSnapshot snapshot := by
  unfold ProcessCall.outcome at houtcome
  split at houtcome
  · rw [hfetched] at houtcome
    exact (Option.some.inj houtcome).symm
  · cases houtcome

theorem accepted_of_ok {call : UpsertCall} {before after : Database} {id : Nat}
    (h : upsertDeploy call before = (.ok id, after)) : call.Accepted := by
  rcases upsertDeploy_cases call before with ⟨-, ⟨e, herror⟩, -⟩ | ⟨haccepted, -, -⟩
  · rw [h] at herror
    cases herror
  · exact haccepted

namespace Pipeline

/-- The calls that the worker has finished, and the deploy that it is at. -/
structure Persisted (db : Database) (p : Pipeline) (calls : List ProcessCall)
    (current : List NormalizedDeploy) : Prop where
  grounded : ∀ call ∈ calls, Grounded met call
  deploys : calls.map (fun call => call.upsert.deploy) ++ current = p.processed
  accepted : .postgres false ∉ p.history → ∀ call ∈ calls, call.upsert.Accepted
  database : InCall met (processAll calls db) p.worker current p.db

/-- If the step is one of the worker, its phase has met what the step brings. -/
def Meets (p : Pipeline) (action : Action) : Prop :=
  match action with
  | .worker env => met p.worker env
  | _ => True

variable {met}

/-- The worker is back at its channel, behind one more call. -/
theorem Persisted.finish {db : Database} {p next : Pipeline} {calls : List ProcessCall}
    {d : NormalizedDeploy} (h : p.Persisted met db calls [d]) (call : ProcessCall)
    (hgrounded : Grounded met call) (hdeploy : call.upsert.deploy = d)
    (hworker : next.worker = .receiving) (hprocessed : next.processed = p.processed)
    (hhistory : p.history ⊆ next.history)
    (haccepted : .postgres false ∉ next.history → call.upsert.Accepted)
    (hdb : (EnrichWorker.process call (processAll calls db)).2 = next.db) :
    next.Persisted met db (calls ++ [call]) [] := by
  refine ⟨?_, ?_, ?_, ?_⟩
  · rw [List.forall_mem_append, List.forall_mem_singleton]
    exact ⟨h.grounded, hgrounded⟩
  · rw [hprocessed, ← h.deploys, List.map_append, List.map_singleton, hdeploy, List.append_nil]
  · intro hfine
    have hbefore := h.accepted fun hmem => hfine (hhistory hmem)
    rw [List.forall_mem_append, List.forall_mem_singleton]
    exact ⟨hbefore, haccepted hfine⟩
  · have hstep : processAll (calls ++ [call]) db = next.db := by
      rw [← hdb]
      simp [processAll]
    rw [hworker, hstep]
    exact .receiving

/-- A step that neither the worker nor the database takes part in. -/
theorem Persisted.elsewhere {db : Database} {p next : Pipeline} {calls : List ProcessCall}
    {current : List NormalizedDeploy} (h : p.Persisted met db calls current)
    (hworker : next.worker = p.worker) (hprocessed : next.processed = p.processed)
    (hhistory : p.history ⊆ next.history) (hdb : next.db = p.db) :
    next.Persisted met db calls current := by
  refine ⟨h.grounded, h.deploys.trans hprocessed.symm, ?_, ?_⟩
  · exact fun hfine => h.accepted fun hmem => hfine (hhistory hmem)
  · rw [hworker, hdb]
    exact h.database

theorem persisted_step {db : Database} {p next : Pipeline} {action : Action}
    {calls : List ProcessCall} {current : List NormalizedDeploy} (hmeets : p.Meets met action)
    (h : p.Persisted met db calls current) (hstep : StepSpec p action next) :
    ∃ calls current, next.Persisted met db calls current := by
  have hdatabase := h.database
  cases hstep with
  | @workerReceived d ch env hphase hrecv =>
      rw [hphase] at hdatabase
      obtain ⟨rfl, hdb⟩ := hdatabase.at_channel
      refine ⟨calls, [d], h.grounded, ?_, h.accepted, ?_⟩
      · rw [← h.deploys, List.append_nil]
      · rw [hdb]
        exact .upserting d
  | workerFinished hphase hrecv =>
      rw [hphase] at hdatabase
      obtain ⟨rfl, hdb⟩ := hdatabase.at_channel
      refine ⟨calls, [], h.grounded, h.deploys, h.accepted, ?_⟩
      rw [endWorker, hdb]
      exact .ended
  | @upsertFailed d env e db' hphase hrun =>
      rw [Meets, hphase] at hmeets
      rw [hphase] at hdatabase
      obtain ⟨rfl, hdb⟩ := hdatabase.at_upsert
      rw [hdb] at hrun
      have hrefused : (env.call d).outcome = none := by
        rw [ProcessCall.outcome, if_neg]
        exact fun hboth => refused_of_error hrun hboth.1
      refine ⟨_, _, h.finish (env.call d) ?_ rfl rfl rfl ?_ ?_ ?_⟩
      · exact grounded_of_upsert hmeets rfl hrefused
      · exact List.subset_append_left _ _
      · exact fun hfine => absurd (List.mem_append_right _ (List.mem_singleton_self _)) hfine
      · simp [EnrichWorker.process, WorkerEnv.call, hrun]
  | @upsertReturned d env id db' hphase hrun =>
      rw [Meets, hphase] at hmeets
      rw [hphase] at hdatabase
      obtain ⟨rfl, hdb⟩ := hdatabase.at_upsert
      rw [hdb] at hrun
      have hgrown : p.history ⊆ p.history ++ [.postgres true] := List.subset_append_left _ _
      exact ⟨calls, [d], h.grounded, h.deploys,
        fun hfine => h.accepted fun hmem => hfine (hgrown hmem),
        .fetching d env id db' hmeets hrun⟩
  | @fetchFailed d id env e hphase hfetched =>
      rw [hphase] at hdatabase
      obtain ⟨env', henv', rfl, hupsert⟩ := hdatabase.at_fetch
      refine ⟨_, _, h.finish ⟨⟨d, env'.now, env'.upsertFault⟩, env.fetched, env.write⟩
        ?_ rfl rfl rfl (List.Subset.refl _) ?_ ?_⟩
      · apply grounded_of_upsert henv' rfl
        simp [ProcessCall.outcome, hfetched, Except.toOption]
      · exact fun _ => accepted_of_ok hupsert
      · simp [EnrichWorker.process, hupsert, hfetched]
  | @fetchReturned d id env snapshot hphase hfetched =>
      rw [Meets, hphase] at hmeets
      rw [hphase] at hdatabase
      obtain ⟨env', henv', rfl, hupsert⟩ := hdatabase.at_fetch
      exact ⟨calls, [d], h.grounded, h.deploys, h.accepted,
        .writing d env' env id snapshot p.db henv' hupsert hmeets hfetched⟩
  | @writeReturned d id e env hphase =>
      rw [Meets, hphase] at hmeets
      rw [hphase] at hdatabase
      obtain ⟨env₁, env₂, snapshot, henv₁, henv₂, hfetched, rfl, rfl, hupsert⟩ :=
        hdatabase.at_write
      refine ⟨_, _, h.finish ⟨⟨d, env₁.now, env₁.upsertFault⟩, env₂.fetched, env.write⟩
        ⟨⟨env₁, henv₁, rfl⟩, ?_⟩ rfl rfl rfl ?_ ?_ ?_⟩
      · intro e he
        obtain rfl := outcome_of_fetched hfetched he
        exact ⟨id, env₂, env, snapshot, henv₂, hfetched, rfl, hmeets, rfl⟩
      · exact List.subset_append_left _ _
      · exact fun _ => accepted_of_ok hupsert
      · simp only [EnrichWorker.process, hupsert, hfetched]
        rcases writeEnrichment id (Enrichment.fromSnapshot snapshot) env.write p.db with
          ⟨written, after⟩
        cases written <;> rfl
  | fanoutReceived hphase hrecv =>
      exact ⟨calls, current, h.elsewhere rfl rfl (List.subset_append_left _ _) rfl⟩
  | publishReturned hphase =>
      exact ⟨calls, current, h.elsewhere rfl rfl (List.subset_append_left _ _) rfl⟩
  | _ => exact ⟨calls, current, h.elsewhere rfl rfl (List.Subset.refl _) rfl⟩

theorem persisted_launch (caps : Capacities) (db : Database) :
    (launch caps db).Persisted met db [] [] :=
  ⟨by simp, rfl, by simp, .receiving⟩

/-- A call that has only upserted, as one whose fetch has failed. -/
def upserted (d : NormalizedDeploy) (env : WorkerEnv) : ProcessCall where
  upsert := ⟨d, env.now, env.upsertFault⟩
  fetched := .error (.error (.message ""))
  write := env.write

theorem upserted_grounded (d : NormalizedDeploy) {env : WorkerEnv}
    (henv : met (.upserting d) env) : Grounded met (upserted d env) :=
  grounded_of_upsert henv rfl (ite_self _)

theorem process_upserted {d : NormalizedDeploy} {env : WorkerEnv} {before after : Database}
    {id : Nat} (h : upsertDeploy ⟨d, env.now, env.upsertFault⟩ before = (.ok id, after)) :
    (EnrichWorker.process (upserted d env) before).2 = after := by
  simp [EnrichWorker.process, upserted, h]

/-- The database is one that calls of `process` leave, of the deploys taken so
far but perhaps the last. While no statement has failed, they have all upserted. -/
structure Processed (met : WorkerRun → WorkerEnv → Prop) (db : Database) (p : Pipeline)
    (calls : List ProcessCall) : Prop where
  grounded : ∀ call ∈ calls, Grounded met call
  database : p.db = processAll calls db
  deploys : calls.map (fun call => call.upsert.deploy) <+: p.processed
  current : p.processed.length ≤ calls.length + 1
  finished : p.worker = .receiving ∨ p.worker = .ended →
    calls.map (fun call => call.upsert.deploy) = p.processed
  accepted : .postgres false ∉ p.history → ∀ call ∈ calls, call.upsert.Accepted

theorem Persisted.half {db : Database} {p : Pipeline} {calls : List ProcessCall}
    {d : NormalizedDeploy} {env : WorkerEnv} {id : Nat}
    (h : p.Persisted met db calls [d]) (henv : met (.upserting d) env)
    (hupsert : upsertDeploy ⟨d, env.now, env.upsertFault⟩ (processAll calls db) = (.ok id, p.db)) :
    p.Processed met db (calls ++ [upserted d env]) := by
  have hdeploys : (calls ++ [upserted d env]).map (fun call => call.upsert.deploy) =
      p.processed := by
    rw [← h.deploys, List.map_append]
    rfl
  refine ⟨?_, ?_, ?_, ?_, fun _ => hdeploys, ?_⟩
  · rw [List.forall_mem_append, List.forall_mem_singleton]
    exact ⟨h.grounded, upserted_grounded d henv⟩
  · rw [← process_upserted hupsert]
    simp [processAll]
  · rw [hdeploys]
  · rw [← hdeploys, List.length_map]
    exact Nat.le_succ _
  · intro hfine
    rw [List.forall_mem_append, List.forall_mem_singleton]
    exact ⟨h.accepted hfine, accepted_of_ok hupsert⟩

theorem Persisted.whole {db : Database} {p : Pipeline} {calls : List ProcessCall}
    {current : List NormalizedDeploy} (h : p.Persisted met db calls current)
    (hdb : p.db = processAll calls db) (hlength : current.length ≤ 1)
    (hcurrent : p.worker = .receiving ∨ p.worker = .ended → current = []) :
    p.Processed met db calls := by
  refine ⟨h.grounded, hdb, ?_, ?_, ?_, h.accepted⟩
  · rw [← h.deploys]
    exact List.prefix_append _ _
  · rw [← h.deploys, List.length_append, List.length_map]
    exact Nat.add_le_add_left hlength _
  · intro hworker
    rw [← h.deploys, hcurrent hworker, List.append_nil]

/-- Between two of its awaits a call has upserted or it has not. -/
theorem Persisted.processed {db : Database} {p : Pipeline} {calls : List ProcessCall}
    {current : List NormalizedDeploy} (h : p.Persisted met db calls current) :
    ∃ calls, p.Processed met db calls := by
  have hdatabase := h.database
  cases hphase : p.worker with
  | receiving =>
      rw [hphase] at hdatabase
      obtain ⟨rfl, hdb⟩ := hdatabase.at_channel
      exact ⟨calls, h.whole hdb (Nat.zero_le _) fun _ => rfl⟩
  | upserting d =>
      rw [hphase] at hdatabase
      obtain ⟨rfl, hdb⟩ := hdatabase.at_upsert
      exact ⟨calls, h.whole hdb (Nat.le_refl _) (by simp [hphase])⟩
  | fetching d id =>
      rw [hphase] at hdatabase
      obtain ⟨env, henv, rfl, hupsert⟩ := hdatabase.at_fetch
      exact ⟨_, h.half henv hupsert⟩
  | writing d id e =>
      rw [hphase] at hdatabase
      obtain ⟨env, env', snapshot, henv, henv', hfetched, rfl, rfl, hupsert⟩ :=
        hdatabase.at_write
      exact ⟨_, h.half henv hupsert⟩
  | ended =>
      rw [hphase] at hdatabase
      obtain ⟨rfl, hdb⟩ := hdatabase.at_end
      exact ⟨calls, h.whole hdb (Nat.zero_le _) fun _ => rfl⟩

/-- The worker was in the phase when it met what the step of the run brought. -/
def MetIn (start : Pipeline) (actions : List Action) (phase : WorkerRun) (env : WorkerEnv) : Prop :=
  ∃ before after p, actions = before ++ .worker env :: after ∧ run step start before = some p ∧
    p.worker = phase

/-- Along every interleaving, the database is one that whole calls of `process`
leave, in the order in which the worker has taken their deploys. At most the
deploy that the worker is at has no call yet. -/
theorem worker_refines_process (caps : Capacities) (db : Database) (actions : List Action)
    (p : Pipeline) (hrun : run step (launch caps db) actions = some p) :
    ∃ calls, p.Processed (MetIn (launch caps db) actions) db calls := by
  have hpersisted : ∃ calls current,
      p.Persisted (MetIn (launch caps db) actions) db calls current := by
    refine run_invariant_along (fun p => ∃ calls current,
      p.Persisted (MetIn (launch caps db) actions) db calls current) ?_
      ⟨[], [], persisted_launch caps db⟩ hrun
    intro before action after u next hsplit hbefore hinv hstep
    obtain ⟨calls, current, hu⟩ := hinv
    refine persisted_step ?_ hu (step_spec hstep)
    cases action with
    | worker env => exact ⟨before, after, u, hsplit, hbefore, rfl⟩
    | accept d | dropSubscriber | fanout clock | producer env => trivial
  obtain ⟨calls, current, hp⟩ := hpersisted
  exact hp.processed

/-- No operation of the worker fails. -/
def answering : WorkerEnv where
  now := 0
  upsertFault := none
  fetched := .ok ⟨[], .finite 0, .finite 0, false, 0⟩
  write := ⟨0, none⟩

/-- A first deploy up to the return of its upsert. -/
def firstUpsert : List Action :=
  [.accept sampleDeploy, .fanout 1700000000000000000, .fanout 1700000000000000000,
    .fanout 1700000000000000000, .worker answering, .worker answering]

theorem worker_refines_process_firstUpsert :
    ∃ p calls, run step (launch unitCapacities .empty) firstUpsert = some p ∧
      p.worker = .fetching sampleDeploy 1 ∧ p.db = processAll calls .empty := by
  have hrun : run step (launch unitCapacities .empty) firstUpsert = some _ := rfl
  obtain ⟨calls, hcalls⟩ := worker_refines_process unitCapacities .empty firstUpsert _ hrun
  exact ⟨_, calls, hrun, rfl, hcalls.database⟩

end Pipeline

end ShadeIndexer.Bin
