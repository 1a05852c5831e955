import ShadeIndexer.Enrich.Replay

/-!
The view `v_deploys_enriched` that downstream consumers query. It shows every
deploy once, with its enrichment or with nulls, and its byte columns as text. As
in the rows, the metrics are exact up to the decimals of their columns.
-/

namespace ShadeIndexer.Enrich

open ShadeIndexer.Core Lib Lib.Rust Lib.Relational

/-- A row of the view. -/
structure EnrichedDeploy where
  id : Nat
  launchpad : String
  tokenHex : String
  deployerHex : String
  blockNumber : Int64
  blockTimestamp : DateTime
  txHashHex : String
  top10Share : Option ℚ
  gini : Option ℚ
  hhi : Option ℚ
  liqToFdvRatio : Option ℚ
  liqLocked : Option Bool
  bytecodeFlags : Option Bytecode.Flags
  enrichedAt : Option DateTime

/-- The `SELECT` list. `encode(.., 'hex')` writes lowercase digits. -/
def enrichedDeploy (d : DeployRow) (e : Option EnrichmentRow) : EnrichedDeploy where
  id := d.id
  launchpad := d.launchpad
  tokenHex := Hex.encode d.token
  deployerHex := Hex.encode d.deployer
  blockNumber := d.blockNumber
  blockTimestamp := d.blockTimestamp
  txHashHex := Hex.encode d.txHash
  top10Share := e.map EnrichmentRow.top10Share
  gini := e.map EnrichmentRow.gini
  hhi := e.map EnrichmentRow.hhi
  liqToFdvRatio := e.map EnrichmentRow.liqToFdvRatio
  liqLocked := e.map EnrichmentRow.liqLocked
  bytecodeFlags := e.map EnrichmentRow.bytecodeFlags
  enrichedAt := e.map EnrichmentRow.enrichedAt

/-- `FROM deploys d LEFT JOIN deploy_enrichment e ON e.deploy_id = d.id` -/
def vDeploysEnriched (db : Database) : List EnrichedDeploy :=
  (leftJoin db.deploys.rows db.enrichment.rows fun d e => e.deployId = d.id).map fun joined =>
    enrichedDeploy joined.1 joined.2

/-- What a consumer selects by transaction and token. -/
def EnrichedDeploy.Named (row : EnrichedDeploy) (txHash token : Bytes) : Prop :=
  row.txHashHex = Hex.encode txHash ∧ row.tokenHex = Hex.encode token

instance (row : EnrichedDeploy) (txHash token : Bytes) : Decidable (row.Named txHash token) :=
  inferInstanceAs (Decidable (_ ∧ _))

theorem vDeploysEnriched_eq (db : Database) :
    vDeploysEnriched db =
      db.deploys.rows.map fun d => enrichedDeploy d (db.enrichment.find d.id) := by
  rw [vDeploysEnriched, leftJoin_table, List.map_map]
  rfl

theorem encode_injective : Function.Injective Hex.encode := by
  intro a b h
  have hdecode := Hex.decodeChars_encode a
  rw [h, Hex.decodeChars_encode] at hdecode
  exact (Option.some.inj hdecode).symm

theorem named_iff (d : DeployRow) (e : Option EnrichmentRow) (txHash token : Bytes) :
    (enrichedDeploy d e).Named txHash token ↔ d.key = (txHash, token) := by
  constructor
  · rintro ⟨htx, htoken⟩
    exact Prod.ext (encode_injective htx) (encode_injective htoken)
  · intro hkey
    exact ⟨congrArg Hex.encode (congrArg Prod.fst hkey),
      congrArg Hex.encode (congrArg Prod.snd hkey)⟩

/-- A key selects its row, with the enrichment of that key. -/
theorem select_vDeploysEnriched (db : Database) (k : Bytes × Bytes) :
    (vDeploysEnriched db).filter (fun row => row.Named k.1 k.2) =
      (db.deploys.find k).toList.map fun d => enrichedDeploy d (db.enrichmentOf k) := by
  have hfilter : (db.deploys.rows.filter fun d =>
      (enrichedDeploy d (db.enrichment.find d.id)).Named k.1 k.2) =
        (db.deploys.find k).toList := by
    rw [← Table.filter_key]
    apply List.filter_congr
    intro d _
    exact decide_eq_decide.mpr (named_iff d _ k.1 k.2)
  rw [vDeploysEnriched_eq, List.filter_map]
  unfold Function.comp
  rw [hfilter, Database.enrichmentOf]
  cases db.deploys.find k <;> rfl

/-- What a consumer sees who selects a token of a transaction from the view: no
row before the first delivery has reached the table, and one row from then on.
The row has the columns of the first delivery and the timestamp of the last, and
the enrichment of the last call that succeeded, or nulls. -/
theorem view_shows_store (calls : List ProcessCall) (txHash token : Bytes) :
    (vDeploysEnriched (processAll calls .empty)).filter (fun row => row.Named txHash token) =
      match (deliveriesOf (txHash, token) (calls.map ProcessCall.upsert)).head?,
        (deliveriesOf (txHash, token) (calls.map ProcessCall.upsert)).getLast? with
      | some first, some last =>
        let id := (processAll calls .empty).idOf (txHash, token)
        [enrichedDeploy ⟨{ first.columns with blockTimestamp := last.timestamp }, id⟩
          ((writesTo (txHash, token) calls).getLast?.map fun w => storedRow id w.1 w.2)]
      | _, _ => [] := by
  have hcolumns := columnsOf_processAll_eq calls (txHash, token)
  rw [select_vDeploysEnriched _ (txHash, token), enrichmentOf_processAll]
  cases hfind : (processAll calls .empty).deploys.find (txHash, token) with
  | none =>
      rw [Database.columnsOf, hfind, Option.map_none] at hcolumns
      split
      · rename_i first last hfirst hlast
        rw [hfirst, hlast] at hcolumns
        cases hcolumns
      · rfl
  | some d =>
      have hid : (processAll calls .empty).idOf (txHash, token) = d.id := by
        rw [Database.idOf, hfind]
        rfl
      rw [Database.columnsOf, hfind, Option.map_some] at hcolumns
      split
      · rename_i first last hfirst hlast
        rw [hfirst, hlast, Option.some.injEq] at hcolumns
        rw [hid, ← hcolumns]
        rfl
      · rename_i hnone
        split at hcolumns
        · rename_i first last hfirst hlast
          exact absurd hlast (hnone first last hfirst)
        · cases hcolumns

end ShadeIndexer.Enrich
