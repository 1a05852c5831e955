import ShadeIndexer.Bin.Pipeline

/-!
What the readiness answer says about the run. The Kafka flag follows every
publish and the time of the last event follows every mark, cut to its second. The
Postgres flag is set when the pipeline is launched, and no later step touches it.
-/

namespace ShadeIndexer.Bin

open ShadeIndexer.Core Enrich Kafka Lib.Mpsc Lib.Transition

def Event.kafka? : Event → Option Bool
  | .kafka ok => some ok
  | _ => none

def Event.postgres? : Event → Option Bool
  | .postgres ok => some ok
  | _ => none

def Event.marked? : Event → Option Int
  | .marked clock => some clock
  | _ => none

/-- The result of the most recent Kafka operation. -/
def lastKafka (history : List Event) : Option Bool := (history.filterMap Event.kafka?).getLast?

/-- The result of the most recent Postgres operation. -/
def lastPostgres (history : List Event) : Option Bool :=
  (history.filterMap Event.postgres?).getLast?

/-- The reading of the most recent mark. -/
def lastMarked (history : List Event) : Option Int := (history.filterMap Event.marked?).getLast?

theorem mem_of_lastMarked {history : List Event} {clock : Int}
    (h : lastMarked history = some clock) : .marked clock ∈ history := by
  obtain ⟨event, hevent, hmarked⟩ := List.mem_filterMap.mp (List.mem_of_getLast? h)
  cases event with
  | marked reading =>
      obtain rfl := Option.some.inj hmarked
      exact hevent
  | kafka ok | postgres ok => cases hmarked

namespace Pipeline

/-- If `readyz` answers `ready`, the most recent operation of either kind has
succeeded and an event was marked no longer ago than the threshold. -/
def Truthful (p : Pipeline) (clock : Int) : Prop :=
  (readyz p.liveness clock).2.ready = true →
    lastKafka p.history = some true ∧ lastPostgres p.history = some true ∧
      ∃ marked, .marked marked ∈ p.history ∧ clock ≤ marked + STALE_THRESHOLD * NANOS_PER_SEC

/-- More than the threshold has passed since the last mark, but not yet in whole
seconds: `as_secs` drops the fraction that makes the difference. -/
def WithinDroppedFraction (p : Pipeline) (clock : Int) : Prop :=
  ∃ marked, lastMarked p.history = some marked ∧
    marked + STALE_THRESHOLD * NANOS_PER_SEC < clock ∧
    unixSeconds clock ≤ unixSeconds marked + STALE_THRESHOLD

/-- What the Postgres operation of a step comes to, if the step is one. -/
def postgresOutcome (p : Pipeline) : Action → Option Bool
  | .worker env =>
    match p.worker with
    | .upserting d => some (upsertDeploy ⟨d, env.now, env.upsertFault⟩ p.db).1.isOk
    | .writing _ id e => some (writeEnrichment id e env.write p.db).1.isOk
    | _ => none
  | _ => none

/-- No Postgres operation of the run fails. -/
def PostgresSucceeds : Pipeline → List Action → Prop
  | _, [] => True
  | p, action :: rest =>
    p.postgresOutcome action ≠ some false ∧
      match p.step action with
      | some next => next.PostgresSucceeds rest
      | none => True

/-- What a step does to the heartbeats, next to what it adds to the history. -/
inductive ReportSpec (p : Pipeline) (action : Action) (next : Pipeline) : Prop where
  | silent (hliveness : next.liveness = p.liveness) (hhistory : next.history = p.history)
  | marked (clock : Int) (hliveness : next.liveness = p.liveness.markEvent clock)
      (hhistory : next.history = p.history ++ [.marked clock])
  | kafka (ok : Bool) (hliveness : next.liveness = p.liveness.setKafka ok)
      (hhistory : next.history = p.history ++ [.kafka ok])
  | postgres (ok : Bool) (hliveness : next.liveness = p.liveness)
      (hhistory : next.history = p.history ++ [.postgres ok])
      (houtcome : p.postgresOutcome action = some ok)

theorem step_report {p next : Pipeline} {action : Action} (h : StepSpec p action next) :
    ReportSpec p action next := by
  cases h with
  | fanoutReceived hphase hrecv => exact .marked _ rfl rfl
  | publishReturned hphase => exact .kafka _ rfl rfl
  | upsertFailed hphase hrun =>
      refine .postgres false rfl rfl ?_
      simp only [postgresOutcome, hphase, hrun]
      rfl
  | upsertReturned hphase hrun =>
      refine .postgres true rfl rfl ?_
      simp only [postgresOutcome, hphase, hrun]
      rfl
  | writeReturned hphase =>
      refine .postgres _ rfl rfl ?_
      simp only [postgresOutcome, hphase]
  | _ => exact .silent rfl rfl

/-- The heartbeats against the history. -/
structure Reported (p : Pipeline) : Prop where
  kafka : lastKafka p.history = some p.liveness.kafkaConnected
  marked : p.liveness.lastEventUnix ≠ 0 →
    ∃ clock, lastMarked p.history = some clock ∧ p.liveness.lastEventUnix = unixSeconds clock

theorem reported_launch (caps : Capacities) (db : Database) : (launch caps db).Reported :=
  ⟨rfl, fun h => (h rfl).elim⟩

theorem reported_step {p next : Pipeline} {action : Action} (h : p.Reported)
    (hstep : ReportSpec p action next) : next.Reported := by
  obtain ⟨hkafka, hmarked⟩ := h
  cases hstep with
  | silent hliveness hhistory =>
      exact ⟨by rw [hhistory, hliveness, hkafka], by rw [hliveness, hhistory]; exact hmarked⟩
  | marked clock hliveness hhistory =>
      constructor
      · rw [hhistory, hliveness]
        simpa [lastKafka, Event.kafka?, Liveness.markEvent] using hkafka
      · intro _
        refine ⟨clock, ?_, ?_⟩
        · rw [hhistory]
          simp [lastMarked, Event.marked?]
        · rw [hliveness]
          rfl
  | kafka ok hliveness hhistory =>
      constructor
      · rw [hhistory, hliveness]
        simp [lastKafka, Event.kafka?, Liveness.setKafka]
      · rw [hhistory, hliveness]
        simpa [lastMarked, Event.marked?, Liveness.setKafka] using hmarked
  | postgres ok hliveness hhistory houtcome =>
      constructor
      · rw [hhistory, hliveness]
        simpa [lastKafka, Event.kafka?] using hkafka
      · rw [hhistory, hliveness]
        simpa [lastMarked, Event.marked?] using hmarked

/-- A step whose Postgres operation does not fail keeps the last one a success. -/
theorem lastPostgres_step {p next : Pipeline} {action : Action}
    (h : lastPostgres p.history = some true) (hok : p.postgresOutcome action ≠ some false)
    (hstep : ReportSpec p action next) : lastPostgres next.history = some true := by
  cases hstep with
  | silent hliveness hhistory =>
      rw [hhistory]
      exact h
  | marked clock hliveness hhistory =>
      rw [hhistory]
      simpa [lastPostgres, Event.postgres?] using h
  | kafka ok hliveness hhistory =>
      rw [hhistory]
      simpa [lastPostgres, Event.postgres?] using h
  | postgres ok hliveness hhistory houtcome =>
      cases ok with
      | false => exact (hok houtcome).elim
      | true =>
          rw [hhistory]
          simp [lastPostgres, Event.postgres?]

theorem truthful_of_reported {p : Pipeline} (h : p.Reported)
    (hpostgres : lastPostgres p.history = some true) {clock : Int}
    (hclock : ¬ p.WithinDroppedFraction clock) : p.Truthful clock := by
  intro hready
  obtain ⟨hkafka, _, hmarked, hfresh⟩ := (readyz_ready_iff p.liveness clock).mp hready
  obtain ⟨marked, hlast, hseconds⟩ := h.marked hmarked
  refine ⟨by rw [h.kafka, hkafka], hpostgres, marked, mem_of_lastMarked hlast, ?_⟩
  rw [hseconds] at hfresh
  by_contra hstale
  exact hclock ⟨marked, hlast, not_le.mp hstale, hfresh⟩

theorem run_reported {p q : Pipeline} {actions : List Action} (h : p.Reported)
    (hpostgres : lastPostgres p.history = some true) (hok : p.PostgresSucceeds actions)
    (hrun : run step p actions = some q) :
    q.Reported ∧ lastPostgres q.history = some true := by
  induction actions generalizing p with
  | nil =>
      obtain rfl := Option.some.inj hrun
      exact ⟨h, hpostgres⟩
  | cons action rest ih =>
      obtain ⟨next, hnext, hrest⟩ := run_cons hrun
      obtain ⟨houtcome, htail⟩ := hok
      rw [hnext] at htail
      have hreport := step_report (step_spec hnext)
      exact ih (reported_step h hreport) (lastPostgres_step hpostgres houtcome hreport) htail hrest

/-- In a run in which no Postgres operation fails the readiness answer is
truthful in every state, at every reading of the clock but those at which the
fraction that `as_secs` drops hides that the threshold has passed. -/
theorem readyz_truthful (caps : Capacities) (db : Database) (actions : List Action)
    (p : Pipeline) (clock : Int) (hrun : run step (launch caps db) actions = some p)
    (hok : (launch caps db).PostgresSucceeds actions)
    (hclock : ¬ p.WithinDroppedFraction clock) : p.Truthful clock := by
  obtain ⟨hreported, hpostgres⟩ := run_reported (reported_launch caps db) rfl hok hrun
  exact truthful_of_reported hreported hpostgres hclock

def upsertEnv (fault : Option SqlxError) : WorkerEnv where
  now := 0
  upsertFault := fault
  fetched := .error (.error (.message ""))
  write := ⟨0, none⟩

/-- One deploy goes through the fan-out task and reaches the worker, whose
upsert meets the given fault. -/
def oneUpsert (fault : Option SqlxError) : List Action :=
  [.accept (launchAt 1 1700000000).deploy, .fanout 1700000000250000000,
    .fanout 1700000000250000000, .fanout 1700000000250000000, .worker (upsertEnv fault),
    .worker (upsertEnv fault)]

/-- Asked 299.5 seconds after the mark. -/
theorem readyz_truthful_oneUpsert :
    ∃ p, run step (launch unitCapacities .empty) (oneUpsert none) = some p ∧
      (readyz p.liveness 1700000299750000000).2.ready = true ∧
      p.Truthful 1700000299750000000 := by
  refine ⟨_, rfl, by decide, readyz_truthful unitCapacities .empty (oneUpsert none) _
    1700000299750000000 rfl ⟨by decide, by decide, by decide, by decide, by decide, by decide,
      trivial⟩ ?_⟩
  rintro ⟨marked, hlast, hpassed, -⟩
  obtain rfl := Option.some.inj hlast
  revert hpassed
  decide

/-- An upsert fails and the answer is still `ready`. -/
theorem ready_after_failed_upsert :
    ¬ ∀ (caps : Capacities) (db : Database) (actions : List Action) (p : Pipeline) (clock : Int),
      run step (launch caps db) actions = some p → p.Truthful clock := by
  intro h
  have htruth := h unitCapacities .empty (oneUpsert (some (.connection "closed"))) _
    1700000000250000000 rfl
  have hlast := (htruth (by decide)).2.1
  revert hlast
  decide

end Pipeline

end ShadeIndexer.Bin
