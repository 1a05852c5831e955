import Mathlib.Algebra.Order.Floor.Defs
import Mathlib.Data.Rat.Floor
import ShadeIndexer.Core.Types
import ShadeIndexer.Enrich.Metrics
import ShadeIndexer.Lib.Relational

/-!
The Postgres store. The two tables carry what the schema promises of every
state: a unique key, ids handed out by a sequence, and no enrichment without
its deploy. Each method is one atomic statement, and a statement that fails
leaves the tables as they were.
-/

namespace ShadeIndexer.Enrich

open ShadeIndexer.Core Lib Lib.Relational

/-- Microseconds since the epoch, which is what a `TIMESTAMPTZ` keeps. -/
abbrev DateTime := Int

/-- `Utc.timestamp_opt(secs, 0).single()`, over the range of `chrono`. -/
def timestampOpt (secs : Int64) : Option DateTime :=
  if -8334601228800 ≤ secs.toInt ∧ secs.toInt ≤ 8210266876799 then some (secs.toInt * 1000000)
  else none

/-- The first instant that a `TIMESTAMPTZ` can hold. -/
def TIMESTAMPTZ_MIN : DateTime := -210866803200000000

inductive SqlxError where
  | connection (message : String)
  | datetimeOverflow
  | numericOverflow
  | foreignKeyViolation
  deriving DecidableEq, Repr

inductive StoreError where
  | sqlx (e : SqlxError)
  deriving DecidableEq, Repr

/-- The columns of `deploys` that an insert provides. -/
structure DeployColumns where
  launchpad : String
  token : Bytes
  deployer : Bytes
  blockNumber : Int64
  blockTimestamp : DateTime
  txHash : Bytes
  deriving DecidableEq

structure DeployRow extends DeployColumns where
  id : Nat
  deriving DecidableEq

/-- `UNIQUE (tx_hash, token)` -/
def DeployColumns.key (row : DeployColumns) : Bytes × Bytes := (row.txHash, row.token)

def DeployRow.key (row : DeployRow) : Bytes × Bytes := row.toDeployColumns.key

structure EnrichmentRow where
  deployId : Nat
  top10Share : ℚ
  gini : ℚ
  hhi : ℚ
  liqToFdvRatio : ℚ
  liqLocked : Bool
  bytecodeFlags : Bytecode.Flags
  enrichedAt : DateTime
  deriving DecidableEq

def ids (deploys : Table DeployRow.key) : List Nat := deploys.rows.map DeployRow.id

structure Database where
  deploys : Table DeployRow.key
  nextId : Nat
  enrichment : Table EnrichmentRow.deployId
  ids_unique : (ids deploys).Nodup
  ids_issued : ∀ id ∈ ids deploys, id < nextId
  references : ∀ id ∈ enrichment.rows.map EnrichmentRow.deployId, id ∈ ids deploys

def Database.empty : Database where
  deploys := .empty _
  nextId := 1
  enrichment := .empty _
  ids_unique := List.nodup_nil
  ids_issued := by simp [ids, Table.empty]
  references := by simp [Table.empty]

/-- `DO UPDATE SET block_timestamp = EXCLUDED.block_timestamp` -/
def setBlockTimestamp : ConflictClause DeployRow.key where
  apply := fun row excluded => { row with blockTimestamp := excluded.blockTimestamp }
  keeps_key := fun _ _ => rfl

/-- One call of `upsert_deploy`, with the clock that it may read and with the
error of the statement, if it fails. -/
structure UpsertCall where
  deploy : NormalizedDeploy
  now : DateTime
  fault : Option SqlxError

namespace UpsertCall

/-- The timestamp that the statement binds. -/
def timestamp (call : UpsertCall) : DateTime :=
  (timestampOpt call.deploy.blockTimestamp.toInt64).getD call.now

/-- The values that the statement binds. -/
def columns (call : UpsertCall) : DeployColumns where
  launchpad := call.deploy.launchpad.asStr
  token := call.deploy.token.bytes
  deployer := call.deploy.deployer.bytes
  blockNumber := call.deploy.blockNumber.toInt64
  blockTimestamp := call.timestamp
  txHash := call.deploy.txHash.bytes

end UpsertCall

/-- An insert keeps every id and adds its own at most. -/
theorem ids_upsert (deploys : Table DeployRow.key) (columns : DeployColumns) (id : Nat) :
    ids (deploys.upsert setBlockTimestamp ⟨columns, id⟩) = ids deploys ∨
      ids (deploys.upsert setBlockTimestamp ⟨columns, id⟩) = ids deploys ++ [id] := by
  rcases map_upsertRows setBlockTimestamp ⟨columns, id⟩ DeployRow.id (fun _ => rfl)
    deploys.rows with ⟨_, hmap⟩ | ⟨_, hmap⟩
  · exact Or.inl hmap
  · exact Or.inr hmap

/-- The insert, with its `DEFAULT nextval`, which a conflict uses up as well. -/
def Database.insertDeploy (db : Database) (columns : DeployColumns) : Database where
  deploys := db.deploys.upsert setBlockTimestamp ⟨columns, db.nextId⟩
  nextId := db.nextId + 1
  enrichment := db.enrichment
  ids_unique := by
    rcases ids_upsert db.deploys columns db.nextId with hids | hids
    · rw [hids]
      exact db.ids_unique
    · rw [hids]
      refine db.ids_unique.append (List.nodup_singleton _) ?_
      intro id hid hnext
      have hissued := db.ids_issued id hid
      rw [List.mem_singleton] at hnext
      omega
  ids_issued := by
    intro id hid
    rcases ids_upsert db.deploys columns db.nextId with hids | hids
    · rw [hids] at hid
      have hissued := db.ids_issued id hid
      omega
    · rw [hids, List.mem_append, List.mem_singleton] at hid
      rcases hid with hold | hnext
      · have hissued := db.ids_issued id hold
        omega
      · omega
  references := by
    intro id hid
    have hold := db.references id hid
    rcases ids_upsert db.deploys columns db.nextId with hids | hids
    · rw [hids]
      exact hold
    · rw [hids]
      exact List.mem_append_left _ hold

/-- `RETURNING id`. -/
def Database.idOf (db : Database) (k : Bytes × Bytes) : Nat :=
  (db.deploys.find k).elim 0 DeployRow.id

def upsertDeploy (call : UpsertCall) (db : Database) : Except StoreError Nat × Database :=
  match call.fault with
  | some e => (.error (.sqlx e), db)
  | none =>
    if call.timestamp < TIMESTAMPTZ_MIN then (.error (.sqlx .datetimeOverflow), db)
    else
      let db := db.insertDeploy call.columns
      (.ok (db.idOf call.columns.key), db)

/-- Bound a fractional value into the range Postgres can store for the given
`(precision, scale)` of `NUMERIC(p,s)`. -/
def clampDecimal (value : F64) (precision scale : Nat) : ℚ :=
  let bound : ℚ := 10 ^ (precision - scale) - 1 / 10 ^ scale
  let v := match value with
    | .finite q => q
    | _ => 0
  max (-bound) (min bound v)

/-- Rounding to a number of decimals, half away from zero. -/
def roundDecimals (q : ℚ) (scale : Nat) : ℚ :=
  let scaled : ℚ := ⌊|q| * 10 ^ scale + 1 / 2⌋ / 10 ^ scale
  if q < 0 then -scaled else scaled

/-- The assignment to a `NUMERIC(precision, scale)` column. -/
def toNumeric (q : ℚ) (precision scale : Nat) : Except SqlxError ℚ :=
  let rounded := roundDecimals q scale
  if |rounded| < 10 ^ (precision - scale) then .ok rounded else .error .numericOverflow

/-- `DO UPDATE SET` of every column but the key. -/
def setEnrichment : ConflictClause EnrichmentRow.deployId where
  apply := fun row excluded => { excluded with deployId := row.deployId }
  keeps_key := fun _ _ => rfl

def Database.insertEnrichment (db : Database) (row : EnrichmentRow)
    (hdeploy : row.deployId ∈ ids db.deploys) : Database where
  deploys := db.deploys
  nextId := db.nextId
  enrichment := db.enrichment.upsert setEnrichment row
  ids_unique := db.ids_unique
  ids_issued := db.ids_issued
  references := by
    intro id hid
    rcases map_upsertRows setEnrichment row EnrichmentRow.deployId (fun _ => rfl)
      db.enrichment.rows with ⟨_, hmap⟩ | ⟨_, hmap⟩
    · exact db.references id (hmap ▸ hid)
    · rw [Table.upsert, hmap, List.mem_append, List.mem_singleton] at hid
      rcases hid with hold | hnew
      · exact db.references id hold
      · exact hnew ▸ hdeploy

/-- One call of `write_enrichment`, with the clock of the server. -/
structure WriteCall where
  now : DateTime
  fault : Option SqlxError

def enrichmentRow (deployId : Nat) (e : Enrichment) (now : DateTime) :
    Except SqlxError EnrichmentRow := do
  let top10Share ← toNumeric (clampDecimal e.top10Share 6 4) 6 4
  let gini ← toNumeric (clampDecimal e.gini 6 4) 6 4
  let hhi ← toNumeric (clampDecimal e.hhi 8 4) 8 4
  let liqToFdvRatio ← toNumeric (clampDecimal e.liqToFdvRatio 10 6) 10 6
  pure { deployId, top10Share, gini, hhi, liqToFdvRatio, liqLocked := e.liqLocked
         bytecodeFlags := e.bytecodeFlags, enrichedAt := now }

def writeEnrichment (deployId : Nat) (e : Enrichment) (call : WriteCall) (db : Database) :
    Except StoreError Unit × Database :=
  match call.fault with
  | some err => (.error (.sqlx err), db)
  | none =>
    match enrichmentRow deployId e call.now with
    | .error err => (.error (.sqlx err), db)
    | .ok row =>
      if h : row.deployId ∈ ids db.deploys then
        (.ok (), db.insertEnrichment row h)
      else (.error (.sqlx .foreignKeyViolation), db)

end ShadeIndexer.Enrich
