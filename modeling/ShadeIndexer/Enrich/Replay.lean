import ShadeIndexer.Enrich.Isolation

/-!
The store under repetition. Deliveries that agree on what happened leave the set
of what happened, in any order and however often they come. And a worker that
goes through the end of its calls again, as after a restart, changes nothing.
-/

namespace ShadeIndexer.Enrich

open ShadeIndexer.Core Lib Lib.Rust Lib.Relational

/-- Whatever fails behind the upserts, the columns of a key are what its
deliveries made of them. -/
theorem columnsOf_processAll (calls : List ProcessCall) (db : Database) (k : Bytes × Bytes) :
    (processAll calls db).columnsOf k =
      (deliveriesOf k (calls.map ProcessCall.upsert)).foldl
        (fun held call => some (absorb held call)) (db.columnsOf k) := by
  induction calls generalizing db with
  | nil => rfl
  | cons call rest ih =>
      have hstep : processAll (call :: rest) db =
          processAll rest (EnrichWorker.process call db).2 := rfl
      rw [hstep, ih, EnrichWorker.columnsOf_process, columnsOf_upsertDeploy]
      by_cases h : call.upsert.Accepted ∧ call.upsert.key = k
      · simp [deliveriesOf, h]
      · simp [deliveriesOf, h]

/-- A key has a row as soon as it has a delivery, with the columns of the first
and the timestamp of the last. -/
theorem columnsOf_processAll_eq (calls : List ProcessCall) (k : Bytes × Bytes) :
    (processAll calls .empty).columnsOf k =
      match (deliveriesOf k (calls.map ProcessCall.upsert)).head?,
        (deliveriesOf k (calls.map ProcessCall.upsert)).getLast? with
      | some first, some last => some { first.columns with blockTimestamp := last.timestamp }
      | _, _ => none := by
  have hempty : Database.empty.columnsOf k = none := rfl
  rw [columnsOf_processAll, hempty]
  cases hdeliveries : deliveriesOf k (calls.map ProcessCall.upsert) with
  | nil => rfl
  | cons first rest =>
      obtain ⟨last, hlast⟩ : ∃ last, (first :: rest).getLast? = some last := ⟨_, rfl⟩
      rw [foldl_absorb _ first last rfl hlast, hlast]
      rfl

/-- Two deliveries of one key say the same. -/
def Agree (calls : List ProcessCall) : Prop :=
  ∀ c ∈ calls, ∀ c' ∈ calls, c.upsert.Accepted → c'.upsert.Accepted →
    c.upsert.key = c'.upsert.key → c.upsert.columns = c'.upsert.columns

/-- What the `deploys` table says, its ids aside. -/
def deploySet (db : Database) : Set DeployColumns :=
  {columns | ∃ row ∈ db.deploys.rows, row.toDeployColumns = columns}

/-- What the deliveries that reached the table say. -/
def deliveredSet (calls : List ProcessCall) : Set DeployColumns :=
  {columns | ∃ call ∈ calls, call.upsert.Accepted ∧ call.upsert.columns = columns}

theorem mem_deploySet {db : Database} {columns : DeployColumns} :
    columns ∈ deploySet db ↔ db.columnsOf columns.key = some columns := by
  rw [columnsOf_eq_some_iff]
  constructor
  · rintro ⟨row, hrow, rfl⟩
    exact ⟨row, hrow, rfl, rfl⟩
  · rintro ⟨row, hrow, -, hcolumns⟩
    exact ⟨row, hrow, hcolumns⟩

theorem mem_deliveriesOf {calls : List ProcessCall} {k : Bytes × Bytes} {u : UpsertCall} :
    u ∈ deliveriesOf k (calls.map ProcessCall.upsert) ↔
      ∃ call ∈ calls, call.upsert = u ∧ u.Accepted ∧ u.key = k := by
  simp only [deliveriesOf, List.mem_filter, List.mem_map, decide_eq_true_eq]
  constructor
  · rintro ⟨⟨call, hcall, rfl⟩, hreached⟩
    exact ⟨call, hcall, rfl, hreached⟩
  · rintro ⟨call, hcall, rfl, hreached⟩
    exact ⟨⟨call, hcall, rfl⟩, hreached⟩

/-- If the deliveries of each key agree, a key holds what any of them says. -/
theorem columnsOf_of_agree {calls : List ProcessCall} (h : Agree calls) {call : ProcessCall}
    (hcall : call ∈ calls) (haccepted : call.upsert.Accepted) :
    (processAll calls .empty).columnsOf call.upsert.key = some call.upsert.columns := by
  have hmem : call.upsert ∈ deliveriesOf call.upsert.key (calls.map ProcessCall.upsert) :=
    mem_deliveriesOf.mpr ⟨call, hcall, rfl, haccepted, rfl⟩
  have hsaid : ∀ u ∈ deliveriesOf call.upsert.key (calls.map ProcessCall.upsert),
      u.columns = call.upsert.columns := by
    intro u hu
    obtain ⟨other, hother, rfl, hreached, hkey⟩ := mem_deliveriesOf.mp hu
    exact h other hother call hcall hreached haccepted hkey
  rw [columnsOf_processAll_eq]
  generalize deliveriesOf call.upsert.key (calls.map ProcessCall.upsert) = deliveries at hmem hsaid
  have hne := List.ne_nil_of_mem hmem
  obtain ⟨first, hfirst⟩ : ∃ first, deliveries.head? = some first :=
    ⟨_, List.head?_eq_some_head hne⟩
  obtain ⟨last, hlast⟩ : ∃ last, deliveries.getLast? = some last :=
    ⟨_, List.getLast?_eq_some_getLast hne⟩
  have hcolumns := hsaid first (List.mem_of_mem_head? hfirst)
  have htimestamp : last.timestamp = call.upsert.timestamp :=
    congrArg DeployColumns.blockTimestamp (hsaid last (List.mem_of_getLast? hlast))
  simp only [hfirst, hlast, hcolumns, htimestamp]
  rfl

/-- Deliveries that agree leave the set of what they say, in any order, with any
repetitions, and whatever else fails in their calls. -/
theorem deploys_are_the_delivered_set (calls : List ProcessCall) (hagree : Agree calls) :
    deploySet (processAll calls .empty) = deliveredSet calls := by
  ext columns
  rw [mem_deploySet]
  constructor
  · intro hcolumns
    have hkey := hcolumns
    rw [columnsOf_processAll_eq] at hkey
    cases hdeliveries : deliveriesOf columns.key (calls.map ProcessCall.upsert) with
    | nil =>
        rw [hdeliveries] at hkey
        cases hkey
    | cons first rest =>
        have hmem : first ∈ deliveriesOf columns.key (calls.map ProcessCall.upsert) := by
          rw [hdeliveries]
          exact List.mem_cons_self ..
        obtain ⟨call, hcall, rfl, haccepted, hcallKey⟩ := mem_deliveriesOf.mp hmem
        have hheld := columnsOf_of_agree hagree hcall haccepted
        rw [hcallKey, hcolumns, Option.some.injEq] at hheld
        exact ⟨call, hcall, haccepted, hheld.symm⟩
  · rintro ⟨call, hcall, haccepted, rfl⟩
    exact columnsOf_of_agree hagree hcall haccepted

/-- A launch that is delivered twice. The second call cannot write. -/
def redelivered : List ProcessCall :=
  [successfulCall .clanker 0,
    { successfulCall .clanker 0 with write := ⟨0, some (.connection "")⟩ }]

theorem redelivered_agree : Agree redelivered := by
  intro c hc c' hc' _ _ _
  simp only [redelivered, List.mem_cons, List.not_mem_nil, or_false] at hc hc'
  rcases hc with rfl | rfl <;> rcases hc' with rfl | rfl <;> rfl

theorem deploys_are_the_delivered_set_redelivered :
    deploySet (processAll redelivered .empty) = deliveredSet redelivered :=
  deploys_are_the_delivered_set redelivered redelivered_agree

/-- A deploy that has an id is found under its key. -/
theorem Database.find_of_id {db : Database} {id : Nat} (h : id ∈ ids db.deploys) :
    ∃ k row, db.deploys.find k = some row ∧ row.id = id := by
  obtain ⟨row, hrow, hid⟩ := List.mem_map.mp h
  exact ⟨row.key, row, Table.find_of_mem hrow, hid⟩

/-- A row of the enrichments that a call did not find there is the one that it
has written. -/
theorem enrichment_of_process {call : ProcessCall} {db : Database} {row : EnrichmentRow}
    (h : row ∈ (EnrichWorker.process call db).2.enrichment.rows) :
    row ∈ db.enrichment.rows ∨
      ∃ e, call.outcome = some e ∧ row = storedRow row.deployId e call.write.now := by
  rcases process_cases call db with ⟨_, _, hdb | hdb⟩ | ⟨e, hmem, houtcome, _, hdb⟩
  · rw [hdb] at h
    exact Or.inl h
  · rw [hdb] at h
    exact Or.inl h
  · rw [hdb] at h
    have hfind := Table.find_of_mem h
    rw [Database.insertEnrichment, Table.find_upsert] at hfind
    split at hfind
    · rename_i hkey
      refine Or.inr ⟨e, houtcome, ?_⟩
      have hrow := Option.some.inj hfind
      cases hold : (db.insertDeploy call.upsert.columns).enrichment.find row.deployId with
      | none =>
          rw [hold] at hrow
          rw [← hkey]
          exact hrow.symm
      | some old =>
          have hid : old.deployId = row.deployId := Table.find_key hold
          rw [hold] at hrow
          rw [← hid]
          exact hrow.symm
    · exact Or.inl (Table.mem_of_find hfind)

theorem enrichment_of_processAll (calls : List ProcessCall) {db : Database} {row : EnrichmentRow}
    (h : row ∈ (processAll calls db).enrichment.rows) :
    row ∈ db.enrichment.rows ∨
      ∃ call ∈ calls, ∃ e, call.outcome = some e ∧
        row = storedRow row.deployId e call.write.now := by
  induction calls generalizing db with
  | nil => exact Or.inl h
  | cons call rest ih =>
      rcases ih h with hfound | ⟨later, hlater, hwritten⟩
      · rcases enrichment_of_process hfound with hbefore | hwritten
        · exact Or.inl hbefore
        · exact Or.inr ⟨call, List.mem_cons_self .., hwritten⟩
      · exact Or.inr ⟨later, List.mem_cons_of_mem _ hlater, hwritten⟩

/-- A key has a row exactly if it had one or one of the calls has upserted it. -/
theorem key_mem_processAll (calls : List ProcessCall) (db : Database) (k : Bytes × Bytes) :
    (∃ row ∈ (processAll calls db).deploys.rows, row.key = k) ↔
      (∃ row ∈ db.deploys.rows, row.key = k) ∨
        ∃ call ∈ calls, call.upsert.Accepted ∧ call.upsert.key = k := by
  have hrows (db : Database) : (∃ row ∈ db.deploys.rows, row.key = k) ↔
      (db.columnsOf k).isSome := by
    rw [Option.isSome_iff_exists]
    constructor
    · rintro ⟨row, hrow, hkey⟩
      exact ⟨_, (columnsOf_eq_some_iff _ _ _).mpr ⟨row, hrow, hkey, rfl⟩⟩
    · rintro ⟨columns, hcolumns⟩
      obtain ⟨row, hrow, hkey, -⟩ := (columnsOf_eq_some_iff _ _ _).mp hcolumns
      exact ⟨row, hrow, hkey⟩
  have hcalls : (∃ call ∈ calls, call.upsert.Accepted ∧ call.upsert.key = k) ↔
      deliveriesOf k (calls.map ProcessCall.upsert) ≠ [] := by
    constructor
    · rintro ⟨call, hcall, haccepted, hkey⟩
      exact List.ne_nil_of_mem (mem_deliveriesOf.mpr ⟨call, hcall, rfl, haccepted, hkey⟩)
    · intro hne
      obtain ⟨u, hu⟩ := List.exists_mem_of_ne_nil _ hne
      obtain ⟨call, hcall, rfl, haccepted, hkey⟩ := mem_deliveriesOf.mp hu
      exact ⟨call, hcall, haccepted, hkey⟩
  rw [hrows, hrows, hcalls, columnsOf_processAll]
  cases hlast : (deliveriesOf k (calls.map ProcessCall.upsert)).getLast? with
  | none =>
      rw [List.getLast?_eq_none_iff.mp hlast]
      simp
  | some last =>
      obtain ⟨row, hrow, -⟩ := foldl_absorb_last _ (db.columnsOf k) last hlast
      have hne : deliveriesOf k (calls.map ProcessCall.upsert) ≠ [] := by
        intro hnil
        rw [hnil] at hlast
        cases hlast
      simp [hrow, hne]

/-- The end of a list, repeated behind it, is its own end. -/
theorem getLast?_append_suffix {α : Type} {l suffix : List α} (h : suffix <:+ l) :
    (l ++ suffix).getLast? = l.getLast? := by
  obtain ⟨before, rfl⟩ := h
  cases suffix with
  | nil => simp
  | cons a rest => simp [List.getLast?_append, List.getLast?_cons]

theorem writesTo_append (k : Bytes × Bytes) (calls later : List ProcessCall) :
    writesTo k (calls ++ later) = writesTo k calls ++ writesTo k later := List.filterMap_append

theorem writesTo_suffix (k : Bytes × Bytes) {calls later : List ProcessCall}
    (h : later <:+ calls) : writesTo k later <:+ writesTo k calls := by
  obtain ⟨before, rfl⟩ := h
  rw [writesTo_append]
  exact List.suffix_append _ _

theorem deliveriesOf_suffix (k : Bytes × Bytes) {calls later : List ProcessCall}
    (h : later <:+ calls) :
    deliveriesOf k (later.map ProcessCall.upsert) <:+
      deliveriesOf k (calls.map ProcessCall.upsert) := by
  obtain ⟨before, rfl⟩ := h
  rw [List.map_append, deliveriesOf, deliveriesOf, List.filter_append]
  exact List.suffix_append _ _

theorem getLast?_of_suffix {α : Type} {l suffix : List α} (h : suffix <:+ l)
    (hne : suffix ≠ []) : suffix.getLast? = l.getLast? := by
  obtain ⟨before, rfl⟩ := h
  rw [List.getLast?_append_of_ne_nil _ hne]

theorem columnsOf_replay {calls suffix : List ProcessCall} (h : suffix <:+ calls) (db : Database)
    (k : Bytes × Bytes) :
    (processAll (calls ++ suffix) db).columnsOf k = (processAll calls db).columnsOf k := by
  have hdeliveries : deliveriesOf k ((calls ++ suffix).map ProcessCall.upsert) =
      deliveriesOf k (calls.map ProcessCall.upsert) ++
        deliveriesOf k (suffix.map ProcessCall.upsert) := by
    rw [List.map_append, deliveriesOf, List.filter_append]
    rfl
  rw [columnsOf_processAll, columnsOf_processAll, hdeliveries]
  exact foldl_absorb_again _ _ _ (getLast?_of_suffix (deliveriesOf_suffix k h))

/-- A row is its columns and its id, and a later call keeps the id. -/
theorem find_replay {calls suffix : List ProcessCall} (h : suffix <:+ calls) (db : Database)
    (k : Bytes × Bytes) :
    (processAll (calls ++ suffix) db).deploys.find k = (processAll calls db).deploys.find k := by
  have hcolumns := columnsOf_replay h db k
  have happend : processAll (calls ++ suffix) db = processAll suffix (processAll calls db) :=
    List.foldl_append
  unfold Database.columnsOf at hcolumns
  cases hold : (processAll calls db).deploys.find k with
  | none =>
      rw [hold, Option.map_none, Option.map_eq_none_iff] at hcolumns
      exact hcolumns
  | some row =>
      obtain ⟨row', hnew, hid⟩ := find_processAll suffix _ hold
      rw [← happend] at hnew
      rw [hold, hnew, Option.map_some, Option.map_some, Option.some.injEq] at hcolumns
      rw [hnew]
      obtain ⟨columns, id⟩ := row
      obtain ⟨columns', id'⟩ := row'
      dsimp only at hcolumns hid
      rw [hcolumns, hid]

theorem enrichmentOf_replay {calls suffix : List ProcessCall} (h : suffix <:+ calls)
    (db : Database) (k : Bytes × Bytes) :
    (processAll (calls ++ suffix) db).enrichmentOf k = (processAll calls db).enrichmentOf k := by
  have hid : (processAll (calls ++ suffix) db).idOf k = (processAll calls db).idOf k := by
    rw [Database.idOf, Database.idOf, find_replay h]
  rw [enrichmentOf_processAll_from, enrichmentOf_processAll_from, writesTo_append,
    getLast?_append_suffix (writesTo_suffix k h), hid]

/-- Two databases with the same deploys hold the same enrichments if they hold
the same for every key. -/
theorem Database.enrichment_find_eq {db db' : Database} (hdeploys : db'.deploys = db.deploys)
    (henrichment : ∀ k, db'.enrichmentOf k = db.enrichmentOf k) (id : Nat) :
    db'.enrichment.find id = db.enrichment.find id := by
  by_cases hid : id ∈ ids db.deploys
  · obtain ⟨k, row, hfind, rfl⟩ := Database.find_of_id hid
    have hsame := henrichment k
    unfold Database.enrichmentOf at hsame
    rw [hdeploys, hfind] at hsame
    exact hsame
  · have hnone (d : Database) (h : id ∉ ids d.deploys) : d.enrichment.find id = none := by
      cases hfind : d.enrichment.find id with
      | none => rfl
      | some row =>
          have hkey : row.deployId = id := Table.find_key hfind
          have hmem := d.references _ (List.mem_map_of_mem (Table.mem_of_find hfind))
          rw [hkey] at hmem
          exact absurd hmem h
    rw [hnone db hid, hnone db' (by rw [hdeploys]; exact hid)]

/-- A call keeps the rows of both tables where they are. -/
theorem keys_process (call : ProcessCall) (db : Database) :
    (db.deploys.rows.map DeployRow.key <+:
        (EnrichWorker.process call db).2.deploys.rows.map DeployRow.key) ∧
      (db.enrichment.rows.map EnrichmentRow.deployId <+:
        (EnrichWorker.process call db).2.enrichment.rows.map EnrichmentRow.deployId) := by
  have hinsert : db.deploys.rows.map DeployRow.key <+:
      (db.insertDeploy call.upsert.columns).deploys.rows.map DeployRow.key :=
    Table.keys_upsert db.deploys setBlockTimestamp ⟨call.upsert.columns, db.nextId⟩
  rcases process_cases call db with ⟨_, _, hdb | hdb⟩ | ⟨e, hmem, _, _, hdb⟩
  · rw [hdb]
    exact ⟨List.prefix_refl _, List.prefix_refl _⟩
  · rw [hdb]
    exact ⟨hinsert, List.prefix_refl _⟩
  · rw [hdb]
    exact ⟨hinsert, Table.keys_upsert db.enrichment setEnrichment _⟩

theorem keys_processAll (calls : List ProcessCall) (db : Database) :
    (db.deploys.rows.map DeployRow.key <+: (processAll calls db).deploys.rows.map DeployRow.key) ∧
      (db.enrichment.rows.map EnrichmentRow.deployId <+:
        (processAll calls db).enrichment.rows.map EnrichmentRow.deployId) := by
  induction calls generalizing db with
  | nil => exact ⟨List.prefix_refl _, List.prefix_refl _⟩
  | cons call rest ih =>
      obtain ⟨hdeploys, henrichment⟩ := keys_process call db
      obtain ⟨hdeploys', henrichment'⟩ := ih (EnrichWorker.process call db).2
      exact ⟨hdeploys.trans hdeploys', henrichment.trans henrichment'⟩

/-- A worker that repeats the last of its calls, as many as there may be, leaves
both tables as they were. -/
theorem processAll_replay {calls suffix : List ProcessCall} (h : suffix <:+ calls)
    (db : Database) :
    (processAll (calls ++ suffix) db).deploys = (processAll calls db).deploys ∧
      (processAll (calls ++ suffix) db).enrichment = (processAll calls db).enrichment := by
  have happend : processAll (calls ++ suffix) db = processAll suffix (processAll calls db) :=
    List.foldl_append
  have hkeys := keys_processAll suffix (processAll calls db)
  rw [← happend] at hkeys
  have hdeploys := Table.eq_of_grown hkeys.1 (find_replay h db)
  exact ⟨hdeploys,
    Table.eq_of_grown hkeys.2 (Database.enrichment_find_eq hdeploys (enrichmentOf_replay h db))⟩

/-- The row of the same key later on. -/
structure Kept (row later : DeployRow) : Prop where
  id : later.id = row.id
  columns : later.toDeployColumns =
    { row.toDeployColumns with blockTimestamp := later.blockTimestamp }

theorem kept_processAll (calls : List ProcessCall) (db : Database) {k : Bytes × Bytes}
    {row : DeployRow} (h : db.deploys.find k = some row) :
    ∃ later, (processAll calls db).deploys.find k = some later ∧ Kept row later := by
  obtain ⟨later, hlater, hid⟩ := find_processAll calls db h
  have hcolumns := columnsOf_processAll calls db k
  obtain ⟨timestamp, hfold⟩ := foldl_absorb_some
    (deliveriesOf k (calls.map ProcessCall.upsert)) row.toDeployColumns
  rw [Database.columnsOf, Database.columnsOf, hlater, h, Option.map_some, Option.map_some, hfold,
    Option.some.injEq] at hcolumns
  refine ⟨later, hlater, hid, ?_⟩
  rw [hcolumns]

/-- A row that was not there shows the first of the calls for its key. -/
theorem row_of_processAll {calls : List ProcessCall} {db : Database} {row : DeployRow}
    (h : row ∈ (processAll calls db).deploys.rows) (hnew : db.deploys.find row.key = none) :
    ∃ call ∈ calls, call.upsert.Accepted ∧ call.upsert.key = row.key ∧
      row.toDeployColumns = { call.upsert.columns with blockTimestamp := row.blockTimestamp } := by
  have hcolumns : (processAll calls db).columnsOf row.key = some row.toDeployColumns :=
    (columnsOf_eq_some_iff _ _ _).mpr ⟨row, h, rfl, rfl⟩
  have hnone : db.columnsOf row.key = none := by
    rw [Database.columnsOf, hnew]
    rfl
  rw [columnsOf_processAll, hnone] at hcolumns
  cases hdeliveries : deliveriesOf row.key (calls.map ProcessCall.upsert) with
  | nil =>
      rw [hdeliveries] at hcolumns
      cases hcolumns
  | cons first rest =>
      have hmem : first ∈ deliveriesOf row.key (calls.map ProcessCall.upsert) := by
        rw [hdeliveries]
        exact List.mem_cons_self ..
      obtain ⟨call, hcall, rfl, haccepted, hkey⟩ := mem_deliveriesOf.mp hmem
      obtain ⟨timestamp, hfold⟩ := foldl_absorb_some rest call.upsert.columns
      rw [hdeliveries] at hcolumns
      have hrow := Option.some.inj (hfold.symm.trans hcolumns)
      refine ⟨call, hcall, haccepted, hkey, ?_⟩
      rw [← hrow]

/-- The call is made again for the same deploy. The clocks may say something
else, a statement may now fail or no longer fail, and the source may answer
something else. -/
def Repeats (call again : ProcessCall) : Prop := again.upsert.deploy = call.upsert.deploy

/-- The upsert of the repeated call also fares as it did before: it is accepted if
it was, and it binds the same timestamp. -/
structure UpsertsAgain (call again : ProcessCall) : Prop where
  deploy : Repeats call again
  accepted : again.upsert.Accepted ↔ call.upsert.Accepted
  timestamp : again.upsert.timestamp = call.upsert.timestamp

theorem repeated_of_mem {calls again : List ProcessCall} (h : List.Forall₂ Repeats calls again)
    {repeated : ProcessCall} (hmem : repeated ∈ again) : ∃ call ∈ calls, Repeats call repeated := by
  induction h with
  | nil => cases hmem
  | cons hhead _ ih =>
      rcases List.mem_cons.mp hmem with rfl | hrest
      · exact ⟨_, List.mem_cons_self .., hhead⟩
      · obtain ⟨call, hcall, hsame⟩ := ih hrest
        exact ⟨call, List.mem_cons_of_mem _ hcall, hsame⟩

theorem Repeats.key {call again : ProcessCall} (h : Repeats call again) :
    again.upsert.key = call.upsert.key := by
  rw [UpsertCall.key, UpsertCall.key, UpsertCall.columns, UpsertCall.columns, h]
  rfl

theorem UpsertsAgain.columns {call again : ProcessCall} (h : UpsertsAgain call again) :
    again.upsert.columns = call.upsert.columns := by
  rw [UpsertCall.columns, UpsertCall.columns, h.deploy, h.timestamp]

/-- A row without the time of its write. -/
def EnrichmentRow.timeless (row : EnrichmentRow) : EnrichmentRow := { row with enrichedAt := 0 }

/-- The databases have the same deploys, and the next id is the same. -/
structure SameDeploys (db db' : Database) : Prop where
  deploys : db'.deploys = db.deploys
  nextId : db'.nextId = db.nextId

/-- The databases differ at most in the times of their enrichments. -/
structure SameContents (db db' : Database) : Prop extends SameDeploys db db' where
  enrichment :
    db'.enrichment.rows.map EnrichmentRow.timeless = db.enrichment.rows.map EnrichmentRow.timeless

theorem process_rejected {call : ProcessCall} (h : ¬ call.upsert.Accepted) (db : Database) :
    (EnrichWorker.process call db).2 = db := by
  rcases upsertDeploy_cases call.upsert db with ⟨_, ⟨e, herror⟩, hdb⟩ | ⟨haccepted, _, _⟩
  · have hrun : upsertDeploy call.upsert db = (.error e, db) := Prod.ext herror hdb
    rw [EnrichWorker.process, hrun]
  · exact absurd haccepted h

/-- An upsert without a write leaves its row. -/
theorem process_unfinished {call : ProcessCall} (h : call.upsert.Accepted)
    (houtcome : call.outcome = none) (db : Database) :
    (EnrichWorker.process call db).2 = db.insertDeploy call.upsert.columns := by
  rcases upsertDeploy_cases call.upsert db with ⟨hrejected, _, _⟩ | ⟨_, hid, hdb⟩
  · exact absurd h hrejected
  · have hrun : upsertDeploy call.upsert db =
        (.ok ((db.insertDeploy call.upsert.columns).idOf call.upsert.key),
          db.insertDeploy call.upsert.columns) := Prod.ext hid hdb
    rw [EnrichWorker.process, hrun]
    dsimp only
    cases hfetched : call.fetched with
    | error fault => cases fault <;> rfl
    | ok snapshot =>
        -- The fetch has succeeded, so it is the statement that has failed.
        cases hfault : call.write.fault with
        | none => simp [ProcessCall.outcome, h, hfault, hfetched, Except.toOption] at houtcome
        | some e => simp only [writeEnrichment, hfault]

theorem process_enriched {call : ProcessCall} {e : Enrichment} (houtcome : call.outcome = some e)
    (db : Database) :
    ∃ h, (EnrichWorker.process call db).2 = (db.insertDeploy call.upsert.columns).insertEnrichment
      (storedRow ((db.insertDeploy call.upsert.columns).idOf call.upsert.key) e
        call.write.now) h := by
  rcases process_cases call db with ⟨hnone, _, _⟩ | ⟨e', hmem, hsome, _, hdb⟩
  · rw [houtcome] at hnone
    cases hnone
  · obtain rfl : e = e' := Option.some.inj (houtcome.symm.trans hsome)
    exact ⟨hmem, hdb⟩

theorem SameDeploys.insertDeploy {db db' : Database} (h : SameDeploys db db')
    (columns : DeployColumns) :
    SameDeploys (db.insertDeploy columns) (db'.insertDeploy columns) := by
  constructor
  · calc (db'.insertDeploy columns).deploys
        = db'.deploys.upsert setBlockTimestamp ⟨columns, db'.nextId⟩ := rfl
      _ = db.deploys.upsert setBlockTimestamp ⟨columns, db.nextId⟩ := by rw [h.deploys, h.nextId]
  · exact congrArg (· + 1) h.nextId

/-- A call that upserts leaves the deploys of the upsert, whatever it says else. -/
theorem process_sameDeploys_insert {call : ProcessCall} (h : call.upsert.Accepted)
    (db : Database) :
    SameDeploys (db.insertDeploy call.upsert.columns) (EnrichWorker.process call db).2 := by
  cases houtcome : call.outcome with
  | none =>
      rw [process_unfinished h houtcome]
      exact ⟨rfl, rfl⟩
  | some e =>
      obtain ⟨hmem, hdb⟩ := process_enriched houtcome db
      rw [hdb]
      exact ⟨rfl, rfl⟩

theorem process_sameDeploys {call again : ProcessCall} (hagain : UpsertsAgain call again)
    {db db' : Database} (h : SameDeploys db db') :
    SameDeploys (EnrichWorker.process call db).2 (EnrichWorker.process again db').2 := by
  by_cases haccepted : call.upsert.Accepted
  · have hinsert := h.insertDeploy call.upsert.columns
    have hcall := process_sameDeploys_insert haccepted db
    have hother := process_sameDeploys_insert (hagain.accepted.mpr haccepted) db'
    rw [hagain.columns] at hother
    constructor
    · rw [hother.deploys, hinsert.deploys, hcall.deploys]
    · rw [hother.nextId, hinsert.nextId, hcall.nextId]
  · rw [process_rejected haccepted, process_rejected (mt hagain.accepted.mp haccepted)]
    exact h

/-- The time is the only column that an enrichment has from the clock. -/
theorem timeless_insertEnrichment {db db' : Database} (h : SameContents db db') {id id' : Nat}
    (hid : id' = id) (e : Enrichment) (now now' : DateTime)
    (hmem : (storedRow id e now).deployId ∈ ids db.deploys)
    (hmem' : (storedRow id' e now').deployId ∈ ids db'.deploys) :
    SameContents (db.insertEnrichment (storedRow id e now) hmem)
      (db'.insertEnrichment (storedRow id' e now') hmem') := by
  subst hid
  have htimeless (db : Database) (now : DateTime)
      (hmem : (storedRow id' e now).deployId ∈ ids db.deploys) :
      (db.insertEnrichment (storedRow id' e now) hmem).enrichment.rows.map
          EnrichmentRow.timeless =
        upsertRows setEnrichment (storedRow id' e 0)
          (db.enrichment.rows.map EnrichmentRow.timeless) :=
    upsertRows_map setEnrichment setEnrichment EnrichmentRow.timeless (fun _ => rfl)
      (fun _ _ => rfl) _ _
  refine ⟨⟨h.deploys, h.nextId⟩, ?_⟩
  rw [htimeless, htimeless, h.enrichment]

theorem process_sameContents {call again : ProcessCall} (hagain : UpsertsAgain call again)
    (houtcome : again.outcome = call.outcome) {db db' : Database} (h : SameContents db db') :
    SameContents (EnrichWorker.process call db).2 (EnrichWorker.process again db').2 := by
  have hinsert : SameContents (db.insertDeploy call.upsert.columns)
      (db'.insertDeploy call.upsert.columns) :=
    ⟨h.toSameDeploys.insertDeploy call.upsert.columns, h.enrichment⟩
  by_cases haccepted : call.upsert.Accepted
  · cases hcall : call.outcome with
    | none =>
        rw [process_unfinished haccepted hcall,
          process_unfinished (hagain.accepted.mpr haccepted) (houtcome.trans hcall),
          hagain.columns]
        exact hinsert
    | some e =>
        obtain ⟨hmem, hdb⟩ := process_enriched hcall db
        obtain ⟨hmem', hdb'⟩ := process_enriched (houtcome.trans hcall) db'
        simp only [UpsertCall.key, hagain.columns] at hmem' hdb'
        rw [hdb, hdb']
        apply timeless_insertEnrichment hinsert
        rw [Database.idOf, Database.idOf, hinsert.deploys]
        rfl
  · rw [process_rejected haccepted, process_rejected (mt hagain.accepted.mp haccepted)]
    exact h

theorem processAll_sameDeploys {calls again : List ProcessCall}
    (hagain : List.Forall₂ UpsertsAgain calls again) {db db' : Database}
    (h : SameDeploys db db') : SameDeploys (processAll calls db) (processAll again db') := by
  induction hagain generalizing db db' with
  | nil => exact h
  | cons hcall _ ih => exact ih (process_sameDeploys hcall h)

theorem processAll_sameContents {calls again : List ProcessCall}
    (hagain : List.Forall₂ UpsertsAgain calls again)
    (houtcomes : again.map ProcessCall.outcome = calls.map ProcessCall.outcome)
    {db db' : Database} (h : SameContents db db') :
    SameContents (processAll calls db) (processAll again db') := by
  induction hagain generalizing db db' with
  | nil => exact h
  | cons hcall _ ih =>
      obtain ⟨houtcome, hrest⟩ := List.cons.inj houtcomes
      exact ih hrest (process_sameContents hcall houtcome h)

/-- A repeated call adds a row only if its upsert had failed before, and then the
row shows its deploy. -/
theorem row_of_repeated {calls suffix again : List ProcessCall} (h : suffix <:+ calls)
    (hrepeats : List.Forall₂ Repeats suffix again) (db : Database) {row : DeployRow}
    (hrow : row ∈ (processAll (calls ++ again) db).deploys.rows)
    (hnew : (processAll calls db).deploys.find row.key = none) :
    ∃ call ∈ suffix, ¬ call.upsert.Accepted ∧ call.upsert.key = row.key ∧
      row.toDeployColumns = { call.upsert.columns with blockTimestamp := row.blockTimestamp } := by
  have happend : processAll (calls ++ again) db = processAll again (processAll calls db) :=
    List.foldl_append
  rw [happend] at hrow
  obtain ⟨repeated, hrepeated, -, hkey, hcolumns⟩ := row_of_processAll hrow hnew
  obtain ⟨call, hcall, hsame⟩ := repeated_of_mem hrepeats hrepeated
  have hcallKey : call.upsert.key = row.key := hsame.key.symm.trans hkey
  refine ⟨call, hcall, ?_, hcallKey, ?_⟩
  · intro haccepted
    obtain ⟨held, hheld, hheldKey⟩ := (key_mem_processAll calls db row.key).mpr
      (Or.inr ⟨call, h.subset hcall, haccepted, hcallKey⟩)
    have hfind := Table.find_of_mem hheld
    rw [hheldKey, hnew] at hfind
    cases hfind
  · rw [hcolumns]
    simp only [UpsertCall.columns, show repeated.upsert.deploy = call.upsert.deploy from hsame]

/-- A worker that goes through the end of its deploys again, at another time and
whatever now fails, keeps every row with its id and columns, up to the timestamp,
and adds a row only for a deploy whose upsert had failed. If the upserts fare as
they did, it leaves the deploys as they were, whatever it now fetches and writes
for them. And if it fetches and writes the same, then only the times of the
enrichments are others. -/
theorem replay_keeps_contents (calls suffix again : List ProcessCall) (db : Database)
    (h : suffix <:+ calls) (hrepeats : List.Forall₂ Repeats suffix again) :
    (∀ k row, (processAll calls db).deploys.find k = some row →
        ∃ later, (processAll (calls ++ again) db).deploys.find k = some later ∧ Kept row later) ∧
      (∀ row ∈ (processAll (calls ++ again) db).deploys.rows,
        (processAll calls db).deploys.find row.key = none →
          ∃ call ∈ suffix, ¬ call.upsert.Accepted ∧ call.upsert.key = row.key ∧
            row.toDeployColumns =
              { call.upsert.columns with blockTimestamp := row.blockTimestamp }) ∧
      (List.Forall₂ UpsertsAgain suffix again →
        (processAll (calls ++ again) db).deploys = (processAll calls db).deploys ∧
          (again.map ProcessCall.outcome = suffix.map ProcessCall.outcome →
            (processAll (calls ++ again) db).enrichment.rows.map EnrichmentRow.timeless =
              (processAll calls db).enrichment.rows.map EnrichmentRow.timeless)) := by
  have happend (later : List ProcessCall) : processAll (calls ++ later) db =
      processAll later (processAll calls db) := List.foldl_append
  refine ⟨?_, ?_, ?_⟩
  · intro k row hrow
    rw [happend]
    exact kept_processAll again _ hrow
  · exact fun row hrow hnew => row_of_repeated h hrepeats db hrow hnew
  · intro hagain
    obtain ⟨hdeploys, henrichment⟩ := processAll_replay h db
    rw [happend] at hdeploys henrichment ⊢
    constructor
    · rw [← hdeploys]
      exact (processAll_sameDeploys hagain ⟨rfl, rfl⟩).deploys
    · intro houtcomes
      rw [← henrichment]
      exact (processAll_sameContents hagain houtcomes ⟨⟨rfl, rfl⟩, rfl⟩).enrichment

/-- The second of two launches, whose upsert has failed. -/
def refusedLaunch : ProcessCall :=
  { successfulCall .clanker 1 with
    upsert :=
      { (successfulCall .clanker 1).upsert with
        deploy :=
          { (successfulCall .clanker 1).upsert.deploy with token := .repeatByte 20 0x33 }
        fault := some (.connection "closed") } }

/-- The same call behind the outage. -/
def acceptedLaunch : ProcessCall :=
  { refusedLaunch with upsert := { refusedLaunch.upsert with fault := none } }

/-- The second of two launches again: an hour later, and behind an outage in
which its upsert had failed. -/
theorem replay_keeps_contents_hourLater :
    let again := { successfulCall .zora 1 with write := ⟨3600000000, none⟩ }
    let before := [successfulCall .clanker 0, refusedLaunch]
    ((processAll (twoLaunchpads ++ [again]) .empty).deploys =
        (processAll twoLaunchpads .empty).deploys ∧
      (processAll (twoLaunchpads ++ [again]) .empty).enrichment.rows.map EnrichmentRow.timeless =
        (processAll twoLaunchpads .empty).enrichment.rows.map EnrichmentRow.timeless) ∧
      (processAll before .empty).deploys.rows.length = 1 ∧
      (processAll (before ++ [acceptedLaunch]) .empty).deploys.rows.length = 2 ∧
      ∀ row ∈ (processAll (before ++ [acceptedLaunch]) .empty).deploys.rows,
        (processAll before .empty).deploys.find row.key = none →
          row.toDeployColumns =
            { refusedLaunch.upsert.columns with blockTimestamp := row.blockTimestamp } := by
  intro again before
  obtain ⟨-, -, hsame⟩ := replay_keeps_contents twoLaunchpads [successfulCall .zora 1] [again]
    .empty (List.suffix_cons (successfulCall .clanker 0) _) (.cons rfl .nil)
  obtain ⟨hdeploys, henrichment⟩ := hsame (.cons ⟨rfl, Iff.rfl, rfl⟩ .nil)
  obtain ⟨-, hadded, -⟩ := replay_keeps_contents before [refusedLaunch] [acceptedLaunch] .empty
    (List.suffix_cons (successfulCall .clanker 0) _) (.cons rfl .nil)
  refine ⟨⟨hdeploys, henrichment rfl⟩, by decide +kernel, by decide +kernel, ?_⟩
  intro row hrow hnew
  obtain ⟨call, hcall, -, -, hcolumns⟩ := hadded row hrow hnew
  obtain rfl := List.mem_singleton.mp hcall
  exact hcolumns

end ShadeIndexer.Enrich
