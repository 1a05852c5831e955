import ShadeIndexer.Enrich.Store

/-!
Sequences of `upsert_deploy` calls. A row keeps the launchpad, the deployer and
the block number of the first delivery of its key, and it takes the timestamp
of the last one.
-/

namespace ShadeIndexer.Enrich

open ShadeIndexer.Core Lib.Relational

namespace UpsertCall

def key (call : UpsertCall) : Bytes × Bytes := call.columns.key

/-- Whether the statement takes effect. -/
def Accepted (call : UpsertCall) : Prop :=
  call.fault = none ∧ TIMESTAMPTZ_MIN ≤ call.timestamp

instance (call : UpsertCall) : Decidable call.Accepted := inferInstanceAs (Decidable (_ ∧ _))

end UpsertCall

def upsertAll (calls : List UpsertCall) (db : Database) : Database :=
  calls.foldl (fun db call => (upsertDeploy call db).2) db

/-- The deliveries that reached the row of a key, in order. -/
def deliveriesOf (k : Bytes × Bytes) (calls : List UpsertCall) : List UpsertCall :=
  calls.filter fun call => call.Accepted ∧ call.key = k

/-- The columns that a key holds, if it has a row. -/
def Database.columnsOf (db : Database) (k : Bytes × Bytes) : Option DeployColumns :=
  (db.deploys.find k).map DeployRow.toDeployColumns

theorem upsertDeploy_cases (call : UpsertCall) (db : Database) :
    (¬ call.Accepted ∧ (∃ e, (upsertDeploy call db).1 = .error e) ∧
        (upsertDeploy call db).2 = db) ∨
      (call.Accepted ∧
        (upsertDeploy call db).1 = .ok ((db.insertDeploy call.columns).idOf call.key) ∧
        (upsertDeploy call db).2 = db.insertDeploy call.columns) := by
  unfold upsertDeploy UpsertCall.Accepted
  cases call.fault with
  | some e => exact Or.inl ⟨by simp, ⟨_, rfl⟩, rfl⟩
  | none =>
      by_cases hrange : call.timestamp < TIMESTAMPTZ_MIN
      · exact Or.inl ⟨by simp [hrange], ⟨.sqlx .datetimeOverflow, by simp [hrange]⟩,
          by simp [hrange]⟩
      · have hfits : TIMESTAMPTZ_MIN ≤ call.timestamp := not_lt.mp hrange
        exact Or.inr ⟨by simp [hfits], by simp [hrange, UpsertCall.key], by simp [hrange]⟩

/-- What one delivery makes of the columns that its key held before. -/
def absorb (held : Option DeployColumns) (call : UpsertCall) : DeployColumns :=
  held.elim call.columns fun row => { row with blockTimestamp := call.timestamp }

theorem columnsOf_insertDeploy (db : Database) (call : UpsertCall) (k : Bytes × Bytes) :
    (db.insertDeploy call.columns).columnsOf k =
      if call.key = k then some (absorb (db.columnsOf k) call) else db.columnsOf k := by
  unfold Database.columnsOf Database.insertDeploy
  dsimp only
  rw [Table.find_upsert]
  have hkey : DeployRow.key ⟨call.columns, db.nextId⟩ = call.key := rfl
  rw [hkey]
  split
  · cases db.deploys.find k <;> rfl
  · rfl

/-- One call changes the columns of a key exactly if it is a delivery of it. -/
theorem columnsOf_upsertDeploy (db : Database) (call : UpsertCall) (k : Bytes × Bytes) :
    (upsertDeploy call db).2.columnsOf k =
      if call.Accepted ∧ call.key = k then some (absorb (db.columnsOf k) call)
      else db.columnsOf k := by
  rcases upsertDeploy_cases call db with ⟨hrejected, _, hdb⟩ | ⟨haccepted, _, hdb⟩
  · rw [hdb, if_neg fun h => hrejected h.1]
  · rw [hdb, columnsOf_insertDeploy]
    simp [haccepted]

/-- A whole run: the columns of a key are what its deliveries made of them. -/
theorem columnsOf_upsertAll (calls : List UpsertCall) (db : Database) (k : Bytes × Bytes) :
    (upsertAll calls db).columnsOf k =
      (deliveriesOf k calls).foldl (fun held call => some (absorb held call))
        (db.columnsOf k) := by
  induction calls generalizing db with
  | nil => rfl
  | cons call rest ih =>
      have hstep : upsertAll (call :: rest) db = upsertAll rest (upsertDeploy call db).2 := rfl
      rw [hstep, ih, columnsOf_upsertDeploy]
      by_cases h : call.Accepted ∧ call.key = k
      · simp [deliveriesOf, h]
      · simp [deliveriesOf, h]

/-- The first delivery makes the row and every later one sets its timestamp. -/
theorem foldl_absorb (deliveries : List UpsertCall) (first last : UpsertCall)
    (hfirst : deliveries.head? = some first) (hlast : deliveries.getLast? = some last) :
    deliveries.foldl (fun held call => some (absorb held call)) none =
      some { first.columns with blockTimestamp := last.timestamp } := by
  induction deliveries using List.reverseRecOn generalizing last with
  | nil => cases hfirst
  | append_singleton earlier call ih =>
      rw [List.foldl_append, List.foldl_cons, List.foldl_nil]
      rw [List.getLast?_concat, Option.some.injEq] at hlast
      subst hlast
      cases earlier with
      | nil =>
          obtain rfl : call = first := Option.some.inj hfirst
          rfl
      | cons head rest =>
          rw [ih _ hfirst (List.getLast?_cons ..)]
          rfl

/-- Deliveries never change a row that is there, up to its timestamp. -/
theorem foldl_absorb_some (deliveries : List UpsertCall) (held : DeployColumns) :
    ∃ timestamp, deliveries.foldl (fun held call => some (absorb held call)) (some held) =
      some { held with blockTimestamp := timestamp } := by
  induction deliveries generalizing held with
  | nil => exact ⟨held.blockTimestamp, rfl⟩
  | cons call rest ih =>
      obtain ⟨timestamp, hrest⟩ := ih { held with blockTimestamp := call.timestamp }
      exact ⟨timestamp, hrest⟩

/-- The timestamp of a row is that of its last delivery. -/
theorem foldl_absorb_last (deliveries : List UpsertCall) (held : Option DeployColumns)
    (last : UpsertCall) (hlast : deliveries.getLast? = some last) :
    ∃ row, deliveries.foldl (fun held call => some (absorb held call)) held = some row ∧
      row.blockTimestamp = last.timestamp := by
  obtain ⟨earlier, rfl⟩ := List.getLast?_eq_some_iff.mp hlast
  rw [List.foldl_append, List.foldl_cons, List.foldl_nil]
  refine ⟨_, rfl, ?_⟩
  cases earlier.foldl (fun held call => some (absorb held call)) held <;> rfl

/-- Deliveries that end as the ones before them did leave the row as it is. -/
theorem foldl_absorb_again (deliveries again : List UpsertCall) (held : Option DeployColumns)
    (hagain : again ≠ [] → again.getLast? = deliveries.getLast?) :
    (deliveries ++ again).foldl (fun held call => some (absorb held call)) held =
      deliveries.foldl (fun held call => some (absorb held call)) held := by
  rw [List.foldl_append]
  cases hlast : again.getLast? with
  | none =>
      rw [List.getLast?_eq_none_iff.mp hlast]
      rfl
  | some last =>
      have hne : again ≠ [] := by
        rintro rfl
        cases hlast
      have hsame := (hagain hne).symm.trans hlast
      obtain ⟨row, hrow, htimestamp⟩ := foldl_absorb_last deliveries held last hsame
      obtain ⟨timestamp, hkept⟩ := foldl_absorb_some again row
      obtain ⟨row', hrow', htimestamp'⟩ := foldl_absorb_last again (some row) last hlast
      have heq := Option.some.inj (hkept.symm.trans hrow')
      rw [← heq] at htimestamp'
      dsimp only at htimestamp'
      rw [hrow, hkept, htimestamp', ← htimestamp]

/-- The row of a key, after any run from the empty table: it is there as soon
as the key has a delivery, and it mixes the first delivery with the last. -/
theorem columnsOf_run_iff (calls : List UpsertCall) (k : Bytes × Bytes) (columns : DeployColumns) :
    (upsertAll calls .empty).columnsOf k = some columns ↔
      ∃ first last, (deliveriesOf k calls).head? = some first ∧
        (deliveriesOf k calls).getLast? = some last ∧
        columns = { first.columns with blockTimestamp := last.timestamp } := by
  have hempty : Database.empty.columnsOf k = none := rfl
  rw [columnsOf_upsertAll, hempty]
  constructor
  · intro hcolumns
    cases hdeliveries : deliveriesOf k calls with
    | nil =>
        rw [hdeliveries] at hcolumns
        cases hcolumns
    | cons first rest =>
        obtain ⟨last, hlast⟩ : ∃ last, (first :: rest).getLast? = some last := ⟨_, rfl⟩
        rw [hdeliveries, foldl_absorb _ first last rfl hlast, Option.some.injEq] at hcolumns
        exact ⟨first, last, rfl, hlast, hcolumns.symm⟩
  · rintro ⟨first, last, hfirst, hlast, rfl⟩
    exact foldl_absorb _ first last hfirst hlast

theorem columnsOf_eq_some_iff (db : Database) (k : Bytes × Bytes) (columns : DeployColumns) :
    db.columnsOf k = some columns ↔
      ∃ row ∈ db.deploys.rows, row.key = k ∧ row.toDeployColumns = columns := by
  unfold Database.columnsOf
  rw [Option.map_eq_some_iff]
  constructor
  · rintro ⟨row, hfind, hcolumns⟩
    exact ⟨row, Table.mem_of_find hfind, Table.find_key hfind, hcolumns⟩
  · rintro ⟨row, hrow, rfl, hcolumns⟩
    exact ⟨row, Table.find_of_mem hrow, hcolumns⟩

/-- The row is the projection of the deploy: the `BIGINT` is its block number
and the `TIMESTAMPTZ` is its own `block_timestamp`. -/
structure DeployColumns.Projects (row : DeployColumns) (d : NormalizedDeploy) : Prop where
  launchpad : row.launchpad = d.launchpad.asStr
  token : row.token = d.token.bytes
  deployer : row.deployer = d.deployer.bytes
  blockNumber : row.blockNumber.toInt = d.blockNumber.toNat
  blockTimestamp : row.blockTimestamp = d.blockTimestamp.toNat * 1000000
  txHash : row.txHash = d.txHash.bytes

/-- The call agrees with one delivery of its key on the columns that are never
updated, and the last delivery binds its timestamp: as its own, if `chrono` can
represent it, and as the reading of the clock otherwise. -/
structure Bridges (call first last : UpsertCall) : Prop where
  key : call.key = first.key
  launchpad : call.deploy.launchpad = first.deploy.launchpad
  deployer : call.deploy.deployer = first.deploy.deployer
  blockNumber : call.deploy.blockNumber = first.deploy.blockNumber
  fits : call.deploy.blockNumber.toNat < 2 ^ 63
  timestamp : (last.deploy.blockTimestamp.toNat ≤ 8210266876799 ∧
      call.deploy.blockTimestamp = last.deploy.blockTimestamp) ∨
    (timestampOpt last.deploy.blockTimestamp.toInt64 = none ∧
      (call.deploy.blockTimestamp.toNat : Int) * 1000000 = last.now)

theorem asStr_injective {a b : Launchpad} (h : a.asStr = b.asStr) : a = b := by
  cases a <;> cases b <;> first | rfl | exact absurd h (by decide)

/-- `as i64` keeps the numbers below `2 ^ 63` and makes the others negative. -/
theorem toInt_toInt64 (n : UInt64) :
    n.toInt64.toInt = if n.toNat < 2 ^ 63 then (n.toNat : Int) else n.toNat - 2 ^ 64 := by
  have hcond := BitVec.toInt_eq_toNat_cond n.toBitVec
  have hint : n.toInt64.toInt = n.toBitVec.toInt := rfl
  have hnat : n.toBitVec.toNat = n.toNat := rfl
  rw [hint, hcond, hnat]
  split <;> split <;> omega

theorem toInt_toInt64_eq_iff (n m : UInt64) :
    n.toInt64.toInt = m.toNat ↔ m = n ∧ m.toNat < 2 ^ 63 := by
  rw [toInt_toInt64, ← UInt64.toNat_inj]
  have hn := n.toNat_lt
  split <;> omega

/-- The instant that a call binds is the `block_timestamp` of a deploy. -/
theorem timestamp_eq_iff (call : UpsertCall) (secs : UInt64) :
    call.timestamp = secs.toNat * 1000000 ↔
      (call.deploy.blockTimestamp.toNat ≤ 8210266876799 ∧ secs = call.deploy.blockTimestamp) ∨
        (timestampOpt call.deploy.blockTimestamp.toInt64 = none ∧
          (secs.toNat : Int) * 1000000 = call.now) := by
  have hint := toInt_toInt64 call.deploy.blockTimestamp
  have hlt := call.deploy.blockTimestamp.toNat_lt
  rw [← UInt64.toNat_inj]
  unfold UpsertCall.timestamp timestampOpt DateTime
  split at hint
  · -- the cast keeps the number, and `chrono` has a last second
    split
    · rw [Option.getD_some]
      simp only [reduceCtorEq, false_and, or_false]
      omega
    · rw [Option.getD_none]
      simp only [true_and]
      omega
  · -- the cast gives a negative number, which no `block_timestamp` is
    split
    · rw [Option.getD_some]
      simp only [reduceCtorEq, false_and, or_false]
      omega
    · rw [Option.getD_none]
      simp only [true_and]
      omega

theorem projects_iff (call first last : UpsertCall) :
    DeployColumns.Projects { first.columns with blockTimestamp := last.timestamp } call.deploy ↔
      Bridges call first last := by
  constructor
  · intro h
    have hnumber := (toInt_toInt64_eq_iff _ _).mp h.blockNumber
    exact {
      key := Prod.ext h.txHash.symm h.token.symm
      launchpad := (asStr_injective h.launchpad).symm
      deployer := (FixedBytes.ext h.deployer).symm
      blockNumber := hnumber.1
      fits := hnumber.2
      timestamp := (timestamp_eq_iff last _).mp h.blockTimestamp }
  · intro h
    exact {
      launchpad := congrArg Launchpad.asStr h.launchpad.symm
      token := (congrArg Prod.snd h.key).symm
      deployer := congrArg FixedBytes.bytes h.deployer.symm
      blockNumber := (toInt_toInt64_eq_iff _ _).mpr ⟨h.blockNumber, h.fits⟩
      blockTimestamp := (timestamp_eq_iff last _).mpr h.timestamp
      txHash := (congrArg Prod.fst h.key).symm }

/-- Every row is the projection of one deploy exactly if, for every key, some
call agrees with the first delivery on launchpad, deployer and block number,
which fits into a `BIGINT`, and has the timestamp that the last one binds. -/
theorem rows_describe_one_event_iff (calls : List UpsertCall) :
    (∀ row ∈ (upsertAll calls .empty).deploys.rows,
        ∃ call ∈ calls, row.toDeployColumns.Projects call.deploy) ↔
      ∀ k first last, (deliveriesOf k calls).head? = some first →
        (deliveriesOf k calls).getLast? = some last →
          ∃ call ∈ calls, Bridges call first last := by
  constructor
  · intro hrows k first last hfirst hlast
    have hcolumns := (columnsOf_run_iff calls k _).mpr ⟨first, last, hfirst, hlast, rfl⟩
    obtain ⟨row, hrow, _, heq⟩ := (columnsOf_eq_some_iff _ _ _).mp hcolumns
    obtain ⟨call, hcall, hproject⟩ := hrows row hrow
    rw [heq] at hproject
    exact ⟨call, hcall, (projects_iff call first last).mp hproject⟩
  · intro hbridge row hrow
    have hcolumns := (columnsOf_eq_some_iff _ _ _).mpr ⟨row, hrow, rfl, rfl⟩
    obtain ⟨first, last, hfirst, hlast, heq⟩ := (columnsOf_run_iff calls _ _).mp hcolumns
    obtain ⟨call, hcall, hagree⟩ := hbridge _ first last hfirst hlast
    rw [heq]
    exact ⟨call, hcall, (projects_iff call first last).mpr hagree⟩

/-- A launch, as it is delivered with a given block number and timestamp. -/
def launchAt (blockNumber blockTimestamp : UInt64) : UpsertCall where
  deploy :=
    { launchpad := .clanker, token := .repeatByte 20 0x11, deployer := .repeatByte 20 0x22
      blockNumber, blockTimestamp, txHash := .repeatByte 32 0xBB
      logIndex := 0, initialSupply := none, raw := .null }
  now := 0
  fault := none

/-- A launch that is delivered again from another block leaves a row with the
old block number and the new timestamp. -/
theorem redelivery_mixes_blocks :
    ¬ ∀ calls : List UpsertCall, ∀ row ∈ (upsertAll calls .empty).deploys.rows,
      ∃ call ∈ calls, row.toDeployColumns.Projects call.deploy := by
  intro h
  obtain ⟨call, hcall, hproject⟩ := h [launchAt 100 1700000000, launchAt 101 1700000002]
    ⟨{ (launchAt 100 1700000000).columns with
        blockTimestamp := (launchAt 101 1700000002).timestamp }, 1⟩ (by decide)
  have hbridges := (projects_iff call _ _).mp hproject
  simp only [List.mem_cons, List.not_mem_nil, or_false] at hcall
  rcases hcall with rfl | rfl
  · -- the first delivery has another timestamp
    have htimestamp := hproject.blockTimestamp
    revert htimestamp
    decide
  · -- the second delivery has another block number
    have hnumber := hbridges.blockNumber
    revert hnumber
    decide

end ShadeIndexer.Enrich
