import ShadeIndexer.Enrich.Deliveries
import ShadeIndexer.Enrich.RpcSource

/-!
The enrichment worker. It handles one deploy after the other: it upserts the
row, fetches a snapshot and writes the metrics. An error ends the handling of
that deploy at the step it occurs in and is then only logged.
-/

namespace ShadeIndexer.Enrich

open ShadeIndexer.Core Lib.Rust Lib.Relational

inductive ProcessError where
  | store (e : StoreError)
  | source (e : AnyhowError)
  deriving DecidableEq, Repr

/-- What the three awaited operations of one `process` call answer. -/
structure ProcessCall where
  upsert : UpsertCall
  fetched : Fetched HolderSnapshot
  write : WriteCall

namespace EnrichWorker

def process (call : ProcessCall) (db : Database) : Result ProcessError Unit × Database :=
  match upsertDeploy call.upsert db with
  | (.error e, db) => (.error (.error (.store e)), db)
  | (.ok id, db) =>
    match call.fetched with
    | .error (.panic p) => (.error (.panic p), db)
    | .error (.error e) => (.error (.error (.source e)), db)
    | .ok snapshot =>
      match writeEnrichment id (Enrichment.fromSnapshot snapshot) call.write db with
      | (.error e, db) => (.error (.error (.store e)), db)
      | (.ok (), db) => (.ok (), db)

/-- The loop of `run`. A panic ends the process and an error value does not. -/
def run : List ProcessCall → Database → Database
  | [], db => db
  | call :: rest, db =>
    match process call db with
    | (.error (.panic _), db) => db
    | (_, db) => run rest db

/-- Every call of the run returns `Ok`. -/
def Succeeds : List ProcessCall → Database → Prop
  | [], _ => True
  | call :: rest, db => (process call db).1 = .ok () ∧ Succeeds rest (process call db).2

theorem writeEnrichment_deploys (deployId : Nat) (e : Enrichment) (call : WriteCall)
    (db : Database) : (writeEnrichment deployId e call db).2.deploys = db.deploys := by
  unfold writeEnrichment
  split
  · rfl
  · split
    · rfl
    · split <;> rfl

/-- Whatever happens after the upsert, the deploys are what the upsert made of
them, and a call that returns `Ok` has upserted. -/
theorem process_spec (call : ProcessCall) (db : Database) :
    (process call db).2.deploys = (upsertDeploy call.upsert db).2.deploys ∧
      ((process call db).1 = .ok () → call.upsert.Accepted) := by
  unfold process
  have hupsert := upsertDeploy_cases call.upsert db
  cases hrun : upsertDeploy call.upsert db with
  | mk result after =>
      rw [hrun] at hupsert
      cases result with
      | error e =>
          refine ⟨rfl, ?_⟩
          intro hok
          cases hok
      | ok id =>
          have haccepted : call.upsert.Accepted := by
            rcases hupsert with ⟨_, ⟨e, he⟩, _⟩ | ⟨haccepted, _, _⟩
            · cases he
            · exact haccepted
          refine ⟨?_, fun _ => haccepted⟩
          dsimp only
          cases call.fetched with
          | error fault => cases fault <;> rfl
          | ok snapshot =>
              have hwrite := writeEnrichment_deploys id (Enrichment.fromSnapshot snapshot)
                call.write after
              dsimp only
              split
              · rename_i h
                rw [h] at hwrite
                exact hwrite
              · rename_i h
                rw [h] at hwrite
                exact hwrite

theorem columnsOf_process (call : ProcessCall) (db : Database) (k : Bytes × Bytes) :
    (process call db).2.columnsOf k = (upsertDeploy call.upsert db).2.columnsOf k := by
  unfold Database.columnsOf
  rw [(process_spec call db).1]

/-- A run of successful calls leaves the deploys that its upserts alone leave. -/
theorem columnsOf_run (calls : List ProcessCall) (db : Database) (hok : Succeeds calls db)
    (k : Bytes × Bytes) :
    (run calls db).columnsOf k =
      (deliveriesOf k (calls.map ProcessCall.upsert)).foldl
        (fun held call => some (absorb held call)) (db.columnsOf k) := by
  induction calls generalizing db with
  | nil => rfl
  | cons call rest ih =>
      obtain ⟨hhead, htail⟩ := hok
      have hstep : run (call :: rest) db = run rest (process call db).2 := by
        rw [run]
        cases hprocess : process call db with
        | mk result after =>
            rw [hprocess] at hhead
            dsimp only at hhead
            subst hhead
            rfl
      have haccepted := (process_spec call db).2 hhead
      rw [hstep, ih _ htail, columnsOf_process, columnsOf_upsertDeploy]
      by_cases hkey : call.upsert.key = k
      · simp [deliveriesOf, haccepted, hkey]
      · simp [deliveriesOf, hkey]

theorem Succeeds.accepted {calls : List ProcessCall} {db : Database} (hok : Succeeds calls db) :
    ∀ call ∈ calls, call.upsert.Accepted := by
  induction calls generalizing db with
  | nil => simp
  | cons call rest ih =>
      obtain ⟨hhead, htail⟩ := hok
      intro c hc
      rcases List.mem_cons.mp hc with rfl | hrest
      · exact (process_spec c db).2 hhead
      · exact ih htail c hrest

end EnrichWorker

/-- The row shows the event: its launchpad, token, deployer and transaction. -/
structure Shows (row : DeployRow) (d : NormalizedDeploy) : Prop where
  launchpad : row.launchpad = d.launchpad.asStr
  token : row.token = d.token.bytes
  deployer : row.deployer = d.deployer.bytes
  txHash : row.txHash = d.txHash.bytes

/-- The first processed call whose deploy has the given transaction and token. -/
def firstOf (calls : List ProcessCall) (k : Bytes × Bytes) : Option ProcessCall :=
  calls.find? fun call => call.upsert.key = k

/-- After a run of successful calls, the columns of a key come from its first
call, apart from the timestamp. -/
theorem columnsOf_processed (calls : List ProcessCall) (hok : EnrichWorker.Succeeds calls .empty)
    (call : ProcessCall) (hcall : call ∈ calls) :
    ∃ first timestamp, firstOf calls call.upsert.key = some first ∧
      (EnrichWorker.run calls .empty).columnsOf call.upsert.key =
        some { first.upsert.columns with blockTimestamp := timestamp } := by
  have hdeliveries : deliveriesOf call.upsert.key (calls.map ProcessCall.upsert) =
      (calls.map ProcessCall.upsert).filter fun u => u.key = call.upsert.key := by
    apply List.filter_congr
    intro u hu
    obtain ⟨c, hc, rfl⟩ := List.mem_map.mp hu
    simp [hok.accepted c hc]
  obtain ⟨first, hfirst⟩ : ∃ first, firstOf calls call.upsert.key = some first := by
    rw [← Option.isSome_iff_exists, firstOf, List.find?_isSome]
    exact ⟨call, hcall, by simp⟩
  have hhead : (deliveriesOf call.upsert.key (calls.map ProcessCall.upsert)).head? =
      some first.upsert := by
    rw [hdeliveries, List.head?_filter, List.find?_map]
    exact congrArg (Option.map ProcessCall.upsert) hfirst
  obtain ⟨last, hlast⟩ : ∃ last,
      (deliveriesOf call.upsert.key (calls.map ProcessCall.upsert)).getLast? = some last := by
    cases hlist : deliveriesOf call.upsert.key (calls.map ProcessCall.upsert) with
    | nil =>
        rw [hlist] at hhead
        cases hhead
    | cons head rest => exact ⟨_, rfl⟩
  refine ⟨first, last.timestamp, hfirst, ?_⟩
  rw [EnrichWorker.columnsOf_run calls .empty hok]
  exact foldl_absorb _ first.upsert last hhead hlast

/-- Every successfully processed deploy has exactly one row under its
transaction and token. The row has the launchpad and the deployer of the first
deploy processed for them, and so it shows the event itself exactly if these
are its own. -/
theorem processed_rows (calls : List ProcessCall) (hok : EnrichWorker.Succeeds calls .empty)
    (call : ProcessCall) (hcall : call ∈ calls) :
    ∃ first, firstOf calls call.upsert.key = some first ∧
      (∃ row ∈ (EnrichWorker.run calls .empty).deploys.rows,
        row.key = call.upsert.key ∧
          row.launchpad = first.upsert.deploy.launchpad.asStr ∧
          row.deployer = first.upsert.deploy.deployer.bytes ∧
          ∀ other ∈ (EnrichWorker.run calls .empty).deploys.rows,
            other.key = call.upsert.key → other = row) ∧
      ((∃ row ∈ (EnrichWorker.run calls .empty).deploys.rows, Shows row call.upsert.deploy) ↔
        first.upsert.deploy.launchpad = call.upsert.deploy.launchpad ∧
          first.upsert.deploy.deployer = call.upsert.deploy.deployer) := by
  obtain ⟨first, timestamp, hfirst, hcolumns⟩ := columnsOf_processed calls hok call hcall
  have hkey : first.upsert.key = call.upsert.key := by
    have hmatch := List.find?_some hfirst
    exact of_decide_eq_true hmatch
  generalize EnrichWorker.run calls .empty = db at hcolumns ⊢
  obtain ⟨row, hrow, hrowkey, heq⟩ := (columnsOf_eq_some_iff _ _ _).mp hcolumns
  have hlaunchpad : row.launchpad = first.upsert.deploy.launchpad.asStr :=
    congrArg DeployColumns.launchpad heq
  have hdeployer : row.deployer = first.upsert.deploy.deployer.bytes :=
    congrArg DeployColumns.deployer heq
  have hunique : ∀ other ∈ db.deploys.rows, other.key = call.upsert.key → other = row :=
    fun other hother hkey => Table.eq_of_key_eq hrow hother (hkey.trans hrowkey.symm)
  refine ⟨first, hfirst, ⟨row, hrow, hrowkey, hlaunchpad, hdeployer, hunique⟩, ?_⟩
  constructor
  · rintro ⟨other, hother, hshows⟩
    obtain rfl := hunique other hother (Prod.ext hshows.txHash hshows.token)
    exact ⟨asStr_injective (hlaunchpad.symm.trans hshows.launchpad),
      FixedBytes.ext (hdeployer.symm.trans hshows.deployer)⟩
  · rintro ⟨hsameLaunchpad, hsameDeployer⟩
    refine ⟨row, hrow, ?_, congrArg Prod.snd hrowkey, ?_, congrArg Prod.fst hrowkey⟩
    · rw [hlaunchpad, hsameLaunchpad]
    · rw [hdeployer, hsameDeployer]

/-- A call in which every step succeeds, for an event of one token that one
transaction emits on behalf of the given launchpad. -/
def successfulCall (launchpad : Launchpad) (logIndex : UInt64) : ProcessCall where
  upsert :=
    { deploy :=
        { launchpad, token := .repeatByte 20 0x11, deployer := .repeatByte 20 0x22
          blockNumber := 1, blockTimestamp := 1700000000, txHash := .repeatByte 32 0xBB
          logIndex, initialSupply := none, raw := .null }
      now := 0
      fault := none }
  fetched := .ok ⟨[], .finite 0, .finite 0, false, 0⟩
  write := ⟨0, none⟩

/-- Two launchpads report the same token in the same transaction. -/
def twoLaunchpads : List ProcessCall := [successfulCall .clanker 0, successfulCall .zora 1]

theorem twoLaunchpads_succeed : EnrichWorker.Succeeds twoLaunchpads .empty := by
  refine ⟨?_, ?_, trivial⟩ <;> decide +kernel

theorem processed_rows_twoLaunchpads :
    ∃ first, firstOf twoLaunchpads (successfulCall .clanker 0).upsert.key = some first ∧
      (∃ row ∈ (EnrichWorker.run twoLaunchpads .empty).deploys.rows,
        row.key = (successfulCall .clanker 0).upsert.key ∧
          row.launchpad = first.upsert.deploy.launchpad.asStr ∧
          row.deployer = first.upsert.deploy.deployer.bytes ∧
          ∀ other ∈ (EnrichWorker.run twoLaunchpads .empty).deploys.rows,
            other.key = (successfulCall .clanker 0).upsert.key → other = row) ∧
      ((∃ row ∈ (EnrichWorker.run twoLaunchpads .empty).deploys.rows,
          Shows row (successfulCall .clanker 0).upsert.deploy) ↔
        first.upsert.deploy.launchpad = .clanker ∧
          first.upsert.deploy.deployer = .repeatByte 20 0x22) :=
  processed_rows twoLaunchpads twoLaunchpads_succeed _ (List.mem_cons_self ..)

/-- The event of the second launchpad has no row of its own. -/
theorem second_launchpad_absorbed :
    ¬ ∀ calls : List ProcessCall,
      (calls.map fun c => (c.upsert.deploy.txHash, c.upsert.deploy.logIndex)).Nodup →
        EnrichWorker.Succeeds calls .empty → ∀ call ∈ calls,
          ∃ row ∈ (EnrichWorker.run calls .empty).deploys.rows, Shows row call.upsert.deploy := by
  intro h
  obtain ⟨row, hrow, hshows⟩ := h twoLaunchpads (by decide) twoLaunchpads_succeed
    (successfulCall .zora 1) (List.mem_cons_of_mem _ (List.mem_cons_self ..))
  have hall : ∀ row ∈ (EnrichWorker.run twoLaunchpads .empty).deploys.rows,
      row.launchpad = "clanker" := by
    decide +kernel
  have hlaunchpad := (hall row hrow).symm.trans hshows.launchpad
  revert hlaunchpad
  decide

end ShadeIndexer.Enrich
