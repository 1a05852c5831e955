import ShadeIndexer.Enrich.Worker

/-!
Sequences of `process` calls of which any may fail at any step. A call that
fails behind the upsert leaves its deploy row and no trace in the enrichments,
so the states between the two writes of a call are also states after a call.
A sequence may go on after a panic: that is a worker that has been restarted.
What a column stores is the exact metric, rounded to the decimals of the column;
the roundings of `f64` before that are left out.
-/

namespace ShadeIndexer.Enrich

open ShadeIndexer.Core Lib Lib.Rust Lib.Relational

/-- The value that a `NUMERIC(precision, scale)` column holds after a write. -/
def numericOf (value : F64) (precision scale : Nat) : ℚ :=
  roundDecimals (clampDecimal value precision scale) scale

def storedRow (deployId : Nat) (e : Enrichment) (now : DateTime) : EnrichmentRow where
  deployId := deployId
  top10Share := numericOf e.top10Share 6 4
  gini := numericOf e.gini 6 4
  hhi := numericOf e.hhi 8 4
  liqToFdvRatio := numericOf e.liqToFdvRatio 10 6
  liqLocked := e.liqLocked
  bytecodeFlags := e.bytecodeFlags
  enrichedAt := now

theorem abs_clampDecimal (value : F64) (precision scale : Nat) :
    |clampDecimal value precision scale| ≤ 10 ^ (precision - scale) - 1 / 10 ^ scale := by
  have hwhole : (1 : ℚ) ≤ 10 ^ (precision - scale) := one_le_pow₀ (by norm_num)
  have hunit : 1 / (10 : ℚ) ^ scale ≤ 1 := by
    rw [div_le_one (by positivity)]
    exact one_le_pow₀ (by norm_num)
  unfold clampDecimal
  dsimp only
  rw [abs_le]
  constructor
  · exact le_max_left _ _
  · apply max_le
    · linarith
    · exact min_le_left _ _

theorem abs_roundDecimals (q : ℚ) (scale : Nat) :
    |roundDecimals q scale| ≤ |q| + 1 / (2 * 10 ^ scale) := by
  have hscale : (0 : ℚ) < 10 ^ scale := by positivity
  have hfloor : (0 : ℤ) ≤ ⌊|q| * 10 ^ scale + 1 / 2⌋ := by
    apply Int.floor_nonneg.mpr
    positivity
  have hcast : (0 : ℚ) ≤ ⌊|q| * 10 ^ scale + 1 / 2⌋ := by exact_mod_cast hfloor
  have habs : |roundDecimals q scale| = ⌊|q| * 10 ^ scale + 1 / 2⌋ / 10 ^ scale := by
    unfold roundDecimals
    dsimp only
    split
    · rw [abs_neg, abs_of_nonneg (by positivity)]
    · rw [abs_of_nonneg (by positivity)]
  have hle := Int.floor_le (|q| * 10 ^ scale + 1 / 2)
  rw [habs, div_le_iff₀ hscale]
  calc (⌊|q| * 10 ^ scale + 1 / 2⌋ : ℚ) ≤ |q| * 10 ^ scale + 1 / 2 := hle
    _ = (|q| + 1 / (2 * 10 ^ scale)) * 10 ^ scale := by field_simp

/-- A clamped value never overflows its column. -/
theorem toNumeric_clampDecimal (value : F64) (precision scale : Nat) :
    toNumeric (clampDecimal value precision scale) precision scale =
      .ok (numericOf value precision scale) := by
  have hscale : (0 : ℚ) < 10 ^ scale := by positivity
  have hhalf : 1 / (2 * (10 : ℚ) ^ scale) < 1 / 10 ^ scale := by
    apply one_div_lt_one_div_of_lt hscale
    linarith
  have hround := abs_roundDecimals (clampDecimal value precision scale) scale
  have hclamp := abs_clampDecimal value precision scale
  unfold toNumeric
  dsimp only
  rw [if_pos (by linarith)]
  rfl

theorem enrichmentRow_eq (deployId : Nat) (e : Enrichment) (now : DateTime) :
    enrichmentRow deployId e now = .ok (storedRow deployId e now) := by
  unfold enrichmentRow
  simp only [toNumeric_clampDecimal]
  rfl

/-- The enrichment of a key, if its deploy has one. -/
def Database.enrichmentOf (db : Database) (k : Bytes × Bytes) : Option EnrichmentRow :=
  (db.deploys.find k).bind fun row => db.enrichment.find row.id

/-- What a call enriches with, if all three of its steps succeed. -/
def ProcessCall.outcome (call : ProcessCall) : Option Enrichment :=
  if call.upsert.Accepted ∧ call.write.fault = none then
    call.fetched.toOption.map Enrichment.fromSnapshot
  else none

theorem Database.id_mem (db : Database) {k : Bytes × Bytes} {row : DeployRow}
    (h : db.deploys.find k = some row) : row.id ∈ ids db.deploys :=
  List.mem_map_of_mem (Table.mem_of_find h)

/-- Ids are unique, so an id belongs to one key. -/
theorem Database.key_of_id (db : Database) {k k' : Bytes × Bytes} {row row' : DeployRow}
    (h : db.deploys.find k = some row) (h' : db.deploys.find k' = some row')
    (hid : row.id = row'.id) : k = k' := by
  have hrow : row = row' := List.inj_on_of_nodup_map db.ids_unique (Table.mem_of_find h)
    (Table.mem_of_find h') hid
  rw [← Table.find_key h, ← Table.find_key h', hrow]

/-- The key of an insert has a row afterwards, and `idOf` is its id. -/
theorem Database.find_inserted (db : Database) (columns : DeployColumns) :
    ∃ row, (db.insertDeploy columns).deploys.find columns.key = some row ∧
      row.id = (db.insertDeploy columns).idOf columns.key := by
  have hfind : (db.insertDeploy columns).deploys.find columns.key = some
      (setBlockTimestamp.absorb (db.deploys.find columns.key) ⟨columns, db.nextId⟩) := by
    rw [Database.insertDeploy, Table.find_upsert]
    exact if_pos rfl
  exact ⟨_, hfind, by rw [Database.idOf, hfind]; rfl⟩

/-- An insert keeps the row of every key that has one, up to its timestamp. -/
theorem Database.find_insertDeploy (db : Database) (columns : DeployColumns) {k : Bytes × Bytes}
    {row : DeployRow} (h : db.deploys.find k = some row) :
    ∃ row', (db.insertDeploy columns).deploys.find k = some row' ∧ row'.id = row.id := by
  rw [Database.insertDeploy, Table.find_upsert, h]
  split
  · exact ⟨_, rfl, rfl⟩
  · exact ⟨row, rfl, rfl⟩

/-- An id that has not been handed out has no enrichment. -/
theorem Database.no_enrichment_ahead (db : Database) : db.enrichment.find db.nextId = none := by
  cases hfind : db.enrichment.find db.nextId with
  | none => rfl
  | some row =>
      have hkey : row.deployId = db.nextId := Table.find_key hfind
      have hmem : row.deployId ∈ db.enrichment.rows.map EnrichmentRow.deployId :=
        List.mem_map_of_mem (Table.mem_of_find hfind)
      have hissued := db.ids_issued _ (db.references _ hmem)
      omega

/-- The upsert changes the enrichment of no key. A key that it adds gets a
fresh id, and that has none. -/
theorem Database.enrichmentOf_insertDeploy (db : Database) (columns : DeployColumns)
    (k : Bytes × Bytes) : (db.insertDeploy columns).enrichmentOf k = db.enrichmentOf k := by
  have hahead := db.no_enrichment_ahead
  unfold Database.enrichmentOf Database.insertDeploy
  dsimp only
  rw [Table.find_upsert]
  split
  · cases db.deploys.find k with
    | none => exact hahead
    | some row => rfl
  · rfl

/-- The write sets the enrichment of the key whose id it names, and no other. -/
theorem Database.enrichmentOf_insertEnrichment (db : Database) (row : EnrichmentRow)
    (hdeploy : row.deployId ∈ ids db.deploys) {key : Bytes × Bytes} {deploy : DeployRow}
    (hfind : db.deploys.find key = some deploy) (hid : deploy.id = row.deployId)
    (k : Bytes × Bytes) :
    (db.insertEnrichment row hdeploy).enrichmentOf k =
      if key = k then some row else db.enrichmentOf k := by
  unfold Database.enrichmentOf Database.insertEnrichment
  dsimp only
  cases hk : db.deploys.find k with
  | none =>
      have hne : key ≠ k := by
        rintro rfl
        rw [hfind] at hk
        cases hk
      rw [if_neg hne]
      rfl
  | some other =>
      dsimp only [Option.bind_some]
      rw [Table.find_upsert]
      rcases eq_or_ne key k with rfl | hne
      · obtain rfl : deploy = other := Option.some.inj (hfind.symm.trans hk)
        rw [if_pos hid.symm, if_pos rfl, hid]
        unfold ConflictClause.absorb setEnrichment
        cases hold : db.enrichment.find row.deployId with
        | none => rfl
        | some old =>
            have hkey : old.deployId = row.deployId := Table.find_key hold
            simp [hkey]
      · have hother : row.deployId ≠ other.id :=
          fun heq => hne (db.key_of_id hfind hk (hid.trans heq))
        rw [if_neg hother, if_neg hne]

/-- The write fails only with the fault of its statement, once the deploy is
there. -/
theorem writeEnrichment_ok (deployId : Nat) (e : Enrichment) (call : WriteCall) (db : Database)
    (hfault : call.fault = none) (hdeploy : deployId ∈ ids db.deploys) :
    writeEnrichment deployId e call db =
      (.ok (), db.insertEnrichment (storedRow deployId e call.now) hdeploy) := by
  unfold writeEnrichment
  simp only [hfault, enrichmentRow_eq]
  exact dif_pos hdeploy

/-- Everything one call can do. It enriches its key and returns `Ok`, or it
leaves at most the upserted row behind. -/
theorem process_cases (call : ProcessCall) (db : Database) :
    (call.outcome = none ∧ (EnrichWorker.process call db).1 ≠ .ok () ∧
        ((EnrichWorker.process call db).2 = db ∨
          (EnrichWorker.process call db).2 = db.insertDeploy call.upsert.columns)) ∨
      ∃ e h, call.outcome = some e ∧ (EnrichWorker.process call db).1 = .ok () ∧
        (EnrichWorker.process call db).2 = (db.insertDeploy call.upsert.columns).insertEnrichment
          (storedRow ((db.insertDeploy call.upsert.columns).idOf call.upsert.key) e
            call.write.now) h := by
  unfold EnrichWorker.process
  rcases upsertDeploy_cases call.upsert db with ⟨hrejected, ⟨e, herror⟩, hdb⟩ |
    ⟨haccepted, hid, hdb⟩
  · have hrun : upsertDeploy call.upsert db = (.error e, db) := Prod.ext herror hdb
    have houtcome : call.outcome = none := if_neg fun h => hrejected h.1
    rw [hrun]
    exact Or.inl ⟨houtcome, by simp, Or.inl rfl⟩
  · have hrun : upsertDeploy call.upsert db =
        (.ok ((db.insertDeploy call.upsert.columns).idOf call.upsert.key),
          db.insertDeploy call.upsert.columns) := Prod.ext hid hdb
    obtain ⟨row, hfind, hrow⟩ := db.find_inserted call.upsert.columns
    rw [hrun]
    dsimp only
    cases hfetched : call.fetched with
    | error fault =>
        have houtcome : call.outcome = none := by
          simp [ProcessCall.outcome, hfetched, Except.toOption]
        cases fault with
        | panic p => exact Or.inl ⟨houtcome, by simp, Or.inr rfl⟩
        | error e => exact Or.inl ⟨houtcome, by simp, Or.inr rfl⟩
    | ok snapshot =>
        dsimp only
        cases hfault : call.write.fault with
        | some e =>
            have houtcome : call.outcome = none := by simp [ProcessCall.outcome, hfault]
            have hwrite (deployId : Nat) (row : Enrichment) (after : Database) :
                writeEnrichment deployId row call.write after = (.error (.sqlx e), after) := by
              simp only [writeEnrichment, hfault]
            rw [hwrite]
            exact Or.inl ⟨houtcome, by simp, Or.inr rfl⟩
        | none =>
            have houtcome : call.outcome = some (Enrichment.fromSnapshot snapshot) := by
              simp [ProcessCall.outcome, haccepted, hfault, hfetched, Except.toOption]
            have hmem : (db.insertDeploy call.upsert.columns).idOf call.upsert.key ∈
                ids (db.insertDeploy call.upsert.columns).deploys := by
              rw [UpsertCall.key, ← hrow]
              exact Database.id_mem _ hfind
            rw [writeEnrichment_ok _ _ _ _ hfault hmem]
            exact Or.inr ⟨_, hmem, houtcome, rfl, rfl⟩

/-- A call never moves a key to another id. -/
theorem find_process (call : ProcessCall) (db : Database) {k : Bytes × Bytes} {row : DeployRow}
    (h : db.deploys.find k = some row) :
    ∃ row', (EnrichWorker.process call db).2.deploys.find k = some row' ∧ row'.id = row.id := by
  rcases process_cases call db with ⟨_, _, hdb | hdb⟩ | ⟨e, hmem, _, _, hdb⟩
  · rw [hdb]
    exact ⟨row, h, rfl⟩
  · rw [hdb]
    exact db.find_insertDeploy call.upsert.columns h
  · rw [hdb]
    exact db.find_insertDeploy call.upsert.columns h

/-- A call changes the enrichment of its own key if all of its steps succeed,
and otherwise that of no key. -/
theorem enrichmentOf_process (call : ProcessCall) (db : Database) (k : Bytes × Bytes) :
    (EnrichWorker.process call db).2.enrichmentOf k =
      match if call.upsert.key = k then call.outcome else none with
      | some e => some (storedRow ((EnrichWorker.process call db).2.idOf k) e call.write.now)
      | none => db.enrichmentOf k := by
  rcases process_cases call db with ⟨houtcome, _, hdb⟩ | ⟨e, hmem, houtcome, _, hdb⟩
  · rw [houtcome, ite_self]
    rcases hdb with hdb | hdb
    · rw [hdb]
    · rw [hdb, Database.enrichmentOf_insertDeploy]
  · obtain ⟨row, hfind, hrow⟩ := db.find_inserted call.upsert.columns
    rw [hdb, houtcome, Database.enrichmentOf_insertEnrichment _ _ _ hfind hrow,
      Database.enrichmentOf_insertDeploy]
    have hkey : call.upsert.columns.key = call.upsert.key := rfl
    rw [hkey]
    rcases eq_or_ne call.upsert.key k with rfl | hne
    · simp only [if_true]
      rfl
    · simp only [if_neg hne]

/-- A sequence of `process` calls, each on the state the one before left. -/
def processAll (calls : List ProcessCall) (db : Database) : Database :=
  calls.foldl (fun db call => (EnrichWorker.process call db).2) db

/-- The calls for a key in which all three steps succeeded, each with what it
enriched the key with and when. -/
def writesTo (k : Bytes × Bytes) (calls : List ProcessCall) : List (Enrichment × DateTime) :=
  calls.filterMap fun call =>
    (if call.upsert.key = k then call.outcome else none).map fun e => (e, call.write.now)

/-- A key keeps its id through every later sequence of calls. -/
theorem find_processAll (later : List ProcessCall) (db : Database) {k : Bytes × Bytes}
    {row : DeployRow} (h : db.deploys.find k = some row) :
    ∃ row', (processAll later db).deploys.find k = some row' ∧ row'.id = row.id := by
  induction later generalizing db row with
  | nil => exact ⟨row, h, rfl⟩
  | cons call rest ih =>
      obtain ⟨next, hnext, hid⟩ := find_process call db h
      obtain ⟨last, hlast, hid'⟩ := ih _ hnext
      exact ⟨last, hlast, hid'.trans hid⟩

/-- The enrichment of a key is what the last successful call for it wrote, and
without one it is what it was. -/
theorem enrichmentOf_processAll_from (calls : List ProcessCall) (db : Database)
    (k : Bytes × Bytes) :
    (processAll calls db).enrichmentOf k =
      match (writesTo k calls).getLast? with
      | some w => some (storedRow ((processAll calls db).idOf k) w.1 w.2)
      | none => db.enrichmentOf k := by
  induction calls using List.reverseRecOn with
  | nil => rfl
  | append_singleton earlier call ih =>
      have hstep : processAll (earlier ++ [call]) db =
          (EnrichWorker.process call (processAll earlier db)).2 := by
        simp [processAll]
      have hprocess := enrichmentOf_process call (processAll earlier db) k
      rw [hstep, hprocess, writesTo, List.filterMap_append]
      cases hwrites : if call.upsert.key = k then call.outcome else none with
      | some e => simp [hwrites]
      | none =>
          simp only [List.filterMap_cons, hwrites, Option.map_none, List.filterMap_nil,
            List.append_nil]
          rw [ih, writesTo]
          cases hlast : (writesTo k earlier).getLast? with
          | none =>
              rw [writesTo] at hlast
              rw [hlast]
          | some w =>
              rw [hlast] at ih
              obtain ⟨row, hfind, _⟩ := Option.bind_eq_some_iff.mp ih
              obtain ⟨row', hfind', hid⟩ := find_process call _ hfind
              have hsame : (EnrichWorker.process call (processAll earlier db)).2.idOf k =
                  (processAll earlier db).idOf k := by
                rw [Database.idOf, Database.idOf, hfind, hfind']
                exact hid
              rw [writesTo] at hlast
              rw [hlast, hsame]

theorem enrichmentOf_processAll (calls : List ProcessCall) (k : Bytes × Bytes) :
    (processAll calls .empty).enrichmentOf k =
      (writesTo k calls).getLast?.map fun w =>
        storedRow ((processAll calls .empty).idOf k) w.1 w.2 := by
  rw [enrichmentOf_processAll_from]
  cases (writesTo k calls).getLast? <;> rfl

/-- A call returns `Ok` exactly if its three steps succeed, and then it
enriches with the metrics of the snapshot that it fetched. -/
theorem process_ok_iff (call : ProcessCall) (db : Database) :
    (EnrichWorker.process call db).1 = .ok () ↔
      ∃ snapshot, call.fetched = .ok snapshot ∧
        call.outcome = some (Enrichment.fromSnapshot snapshot) := by
  rcases process_cases call db with ⟨houtcome, hfailed, _⟩ | ⟨e, _, houtcome, hok, _⟩
  · simp [houtcome, hfailed]
  · refine ⟨fun _ => ?_, fun _ => hok⟩
    cases hfetched : call.fetched with
    | error fault => simp [ProcessCall.outcome, hfetched, Except.toOption] at houtcome
    | ok snapshot =>
        refine ⟨snapshot, rfl, ?_⟩
        simp only [ProcessCall.outcome, hfetched, Except.toOption, Option.map_some] at houtcome ⊢
        split at houtcome
        · rename_i h
          rw [if_pos h]
        · cases houtcome

/-- The store isolates failures. After every sequence of calls, whatever fails
in them: keys are unique and keep their ids, every enrichment belongs to one
deploy and every deploy has at most one, and a key is enriched with what its
last successful call fetched, as the columns hold it. A failing call leaves
every enrichment as it was. -/
theorem failures_isolated (calls : List ProcessCall) :
    ((processAll calls .empty).deploys.rows.map DeployRow.key).Nodup ∧
      (∀ later k row, (processAll calls .empty).deploys.find k = some row →
        ∃ row', (processAll (calls ++ later) .empty).deploys.find k = some row' ∧
          row'.id = row.id) ∧
      (∀ row ∈ (processAll calls .empty).enrichment.rows,
        ∃ deploy ∈ (processAll calls .empty).deploys.rows, deploy.id = row.deployId) ∧
      ((processAll calls .empty).enrichment.rows.map EnrichmentRow.deployId).Nodup ∧
      (∀ call db, (EnrichWorker.process call db).1 = .ok () ↔
        ∃ snapshot, call.fetched = .ok snapshot ∧
          call.outcome = some (Enrichment.fromSnapshot snapshot)) ∧
      (∀ k, (processAll calls .empty).enrichmentOf k =
        (writesTo k calls).getLast?.map fun w =>
          storedRow ((processAll calls .empty).idOf k) w.1 w.2) ∧
      ∀ call, (EnrichWorker.process call (processAll calls .empty)).1 ≠ .ok () →
        ∀ k, (EnrichWorker.process call (processAll calls .empty)).2.enrichmentOf k =
          (processAll calls .empty).enrichmentOf k := by
  refine ⟨(processAll calls .empty).deploys.unique, ?_, ?_,
    (processAll calls .empty).enrichment.unique, process_ok_iff,
    enrichmentOf_processAll calls, ?_⟩
  · intro later k row hfind
    have happend : processAll (calls ++ later) .empty =
        processAll later (processAll calls .empty) := List.foldl_append
    rw [happend]
    exact find_processAll later _ hfind
  · intro row hrow
    have hid := (processAll calls .empty).references _ (List.mem_map_of_mem hrow)
    obtain ⟨deploy, hdeploy, heq⟩ := List.mem_map.mp hid
    exact ⟨deploy, hdeploy, heq⟩
  · intro call hfailed k
    have hprocess := enrichmentOf_process call (processAll calls .empty) k
    rcases process_cases call (processAll calls .empty) with ⟨houtcome, _, _⟩ | ⟨_, _, _, hok, _⟩
    · rw [houtcome, ite_self] at hprocess
      exact hprocess
    · exact absurd hok hfailed

/-- The row holds the metrics themselves. -/
structure HoldsExactly (row : EnrichmentRow) (e : Enrichment) : Prop where
  top10Share : e.top10Share = .finite row.top10Share
  gini : e.gini = .finite row.gini
  hhi : e.hhi = .finite row.hhi
  liqToFdvRatio : e.liqToFdvRatio = .finite row.liqToFdvRatio
  liqLocked : e.liqLocked = row.liqLocked
  bytecodeFlags : e.bytecodeFlags = row.bytecodeFlags

/-- A token with three equal holders. -/
def threeHolders : ProcessCall :=
  { successfulCall .clanker 0 with fetched := .ok ⟨[1, 1, 1], .finite 0, .finite 0, false, 0⟩ }

/-- Three equal shares have the index 1/3, and the column holds 0.3333. -/
theorem third_is_rounded :
    ¬ ∀ calls k w row, (writesTo k calls).getLast? = some w →
      (processAll calls .empty).enrichmentOf k = some row → HoldsExactly row w.1 := by
  intro h
  have hwrites : (writesTo threeHolders.upsert.key [threeHolders]).getLast? =
      some (Enrichment.fromSnapshot ⟨[1, 1, 1], .finite 0, .finite 0, false, 0⟩, 0) := by
    decide +kernel
  have hstored := enrichmentOf_processAll [threeHolders] threeHolders.upsert.key
  rw [hwrites, Option.map_some] at hstored
  have hexact := (h _ _ _ _ hwrites hstored).hhi
  revert hexact
  decide +kernel

end ShadeIndexer.Enrich
