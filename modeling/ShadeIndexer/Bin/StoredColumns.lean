import ShadeIndexer.Bin.Restarts
import ShadeIndexer.Bin.Serve
import ShadeIndexer.Enrich.NumericColumns

/-!
What the columns of an enrichment can hold, with either source that `serve`
launches the pipeline with. The metrics may be wrong where sums wrap, but they
are never negative and the Gini index never leaves its range, the lock column is
never set, and the flags are those of a scan.
-/

namespace ShadeIndexer.Bin

open ShadeIndexer.Core Enrich Lib Lib.Rust Lib.Relational Lib.Transition

/-- `StubSource::fetch` -/
def stubSnapshot : HolderSnapshot where
  balances := []
  liquidityUsd := .finite 0
  fdvUsd := .finite 0
  liquidityLocked := false
  bytecodeFlags := 0

/-- What the source answers, with a provider that may answer anything. -/
def Serve.Source.fetch (source : Serve.Source) (provider : Provider) (deploy : NormalizedDeploy) :
    Fetched HolderSnapshot :=
  match source with
  | .stub => .ok stubSnapshot
  | .rpc _ signatures =>
    RpcEnrichmentSource.fetch ⟨provider, RpcSourceConfig.default, signatures⟩ deploy

/-- The flags that the source can raise. -/
def Serve.Source.Raises (source : Serve.Source) (flags : Bytecode.Flags) : Prop :=
  match source with
  | .stub => flags = 0
  | .rpc _ signatures =>
    flags = 0 ∨ ∃ code, code ≠ [] ∧ flags = (Bytecode.scanBytecode code signatures).1

/-- What every snapshot of a source has in common. -/
structure Plausible (source : Serve.Source) (s : HolderSnapshot) : Prop where
  unlocked : s.liquidityLocked = false
  flags : source.Raises s.bytecodeFlags
  liquidity : ∃ q : ℚ, s.liquidityUsd = .finite q ∧ 0 ≤ q
  fdv : ∃ q : ℚ, s.fdvUsd = .finite q ∧ 0 ≤ q

theorem fetchBytecodeFlags_raises (src : RpcEnrichmentSource) (token : Address) (url : String) :
    (Serve.Source.rpc url src.signatures).Raises (src.fetchBytecodeFlags token) := by
  unfold RpcEnrichmentSource.fetchBytecodeFlags
  cases src.provider.getCodeAt token with
  | none => exact Or.inl rfl
  | some code =>
      cases code with
      | nil => exact Or.inl rfl
      | cons b rest => exact Or.inr ⟨b :: rest, by simp, rfl⟩

theorem ofUnsigned_nonneg {w : Nat} (x : BitVec w) :
    ∃ q : ℚ, F64.ofUnsigned x = .finite q ∧ 0 ≤ q :=
  ⟨x.toNat, rfl, by positivity⟩

theorem fetch_plausible {source : Serve.Source} {provider : Provider} {deploy : NormalizedDeploy}
    {s : HolderSnapshot} (h : source.fetch provider deploy = .ok s) : Plausible source s := by
  cases source with
  | stub =>
      obtain rfl := Except.ok.inj h
      exact ⟨rfl, rfl, ⟨0, rfl, le_refl 0⟩, ⟨0, rfl, le_refl 0⟩⟩
  | rpc url signatures =>
      have hflags :=
        fetchBytecodeFlags_raises ⟨provider, .default, signatures⟩ deploy.token url
      obtain ⟨pool, -, h⟩ := bind_eq_ok h
      -- the two sources of the liquidity meet in one continuation
      cases pool
      all_goals
        obtain ⟨liquidity, -, h⟩ := bind_eq_ok h
        obtain ⟨supply, -, h⟩ := bind_eq_ok h
        obtain ⟨narrowed, -, h⟩ := bind_eq_ok h
        obtain ⟨balances, -, h⟩ := bind_eq_ok h
        obtain rfl := Except.ok.inj h
        exact ⟨rfl, hflags, ofUnsigned_nonneg _, ofUnsigned_nonneg _⟩

theorem clampUnit_mem (g : ℚ) : 0 ≤ clampUnit g ∧ clampUnit g ≤ 1 := by
  unfold clampUnit
  split
  · exact ⟨le_refl 0, zero_le_one⟩
  · rename_i hpos
    split
    · exact ⟨zero_le_one, le_refl 1⟩
    · rename_i hle
      exact ⟨not_lt.mp hpos, not_lt.mp hle⟩

theorem gini_mem (balances : List U128) (total : U128) :
    0 ≤ gini balances total ∧ gini balances total ≤ 1 := by
  unfold gini
  split
  · exact ⟨le_refl 0, zero_le_one⟩
  · exact clampUnit_mem _

theorem topNShare_nonneg (balances : List U128) (n : Nat) (total : U128) :
    0 ≤ topNShare balances n total := by
  unfold topNShare
  split
  · exact le_refl 0
  · positivity

/-- Every step of a fold only adds. -/
theorem le_foldl_add {α : Type} (f : α → ℚ) (hf : ∀ a, 0 ≤ f a) (as : List α) (acc : ℚ) :
    acc ≤ as.foldl (fun acc a => acc + f a) acc := by
  induction as generalizing acc with
  | nil => exact le_refl acc
  | cons a as ih =>
      rw [List.foldl_cons]
      calc acc ≤ acc + f a := le_add_of_nonneg_right (hf a)
        _ ≤ as.foldl (fun acc a => acc + f a) (acc + f a) := ih _

theorem hhi_nonneg (balances : List U128) (total : U128) : 0 ≤ hhi balances total := by
  unfold hhi
  split
  · exact le_refl 0
  · apply le_foldl_add (fun x : U128 => (x.toNat / total.toNat : ℚ) * (x.toNat / total.toNat))
    intro x
    exact mul_self_nonneg _

/-- The ratio of a plausible snapshot, whose valuation may be zero. -/
theorem Plausible.ratio {source : Serve.Source} {s : HolderSnapshot} (h : Plausible source s) :
    ∃ q : ℚ, (Enrichment.fromSnapshot s).liqToFdvRatio = .finite q ∧ 0 ≤ q := by
  obtain ⟨liquidity, hliquidity, hnonneg⟩ := h.liquidity
  obtain ⟨fdv, hfdv, hfdv'⟩ := h.fdv
  dsimp only [Enrichment.fromSnapshot]
  rw [hliquidity, hfdv]
  split
  · exact ⟨liquidity / fdv, rfl, div_nonneg hnonneg hfdv'⟩
  · exact ⟨0, rfl, le_refl 0⟩

theorem roundDecimals_of_nonneg {q : ℚ} (h : 0 ≤ q) (scale : Nat) :
    roundDecimals q scale = ⌊q * 10 ^ scale + 1 / 2⌋ / 10 ^ scale := by
  unfold roundDecimals
  rw [if_neg (not_lt.mpr h), abs_of_nonneg h]

/-- The largest value of a column, between which and its negative the store clamps. -/
theorem bound_nonneg (precision scale : Nat) :
    (0 : ℚ) ≤ 10 ^ (precision - scale) - 1 / 10 ^ scale :=
  (abs_nonneg _).trans (abs_clampDecimal (.finite 0) precision scale)

theorem clampDecimal_nonneg {q : ℚ} (h : 0 ≤ q) (precision scale : Nat) :
    0 ≤ clampDecimal (.finite q) precision scale := by
  unfold clampDecimal
  apply le_max_of_le_right
  apply le_min
  · exact bound_nonneg precision scale
  · exact h

theorem clampDecimal_le {q : ℚ} (h : 0 ≤ q) (precision scale : Nat) :
    clampDecimal (.finite q) precision scale ≤ q := by
  unfold clampDecimal
  apply max_le
  · exact (neg_nonpos.mpr (bound_nonneg precision scale)).trans h
  · exact min_le_right _ _

theorem numericOf_nonneg {q : ℚ} (h : 0 ≤ q) (precision scale : Nat) :
    0 ≤ numericOf (.finite q) precision scale := by
  unfold numericOf
  have hclamped := clampDecimal_nonneg h precision scale
  rw [roundDecimals_of_nonneg hclamped]
  apply div_nonneg
  · exact_mod_cast Int.floor_nonneg.mpr (by positivity)
  · positivity

/-- Rounding does not leave the unit interval. -/
theorem numericOf_le_one {q : ℚ} (h : 0 ≤ q) (hle : q ≤ 1) (precision scale : Nat) :
    numericOf (.finite q) precision scale ≤ 1 := by
  have hclamped := clampDecimal_nonneg h precision scale
  have hunit : clampDecimal (.finite q) precision scale ≤ 1 :=
    (clampDecimal_le h precision scale).trans hle
  have hscale : (0 : ℚ) < 10 ^ scale := by positivity
  unfold numericOf
  rw [roundDecimals_of_nonneg hclamped, div_le_one hscale]
  have hfloor : ⌊clampDecimal (.finite q) precision scale * 10 ^ scale + 1 / 2⌋ ≤
      (10 : ℤ) ^ scale := by
    apply Int.le_of_lt_add_one
    apply Int.floor_lt.mpr
    push_cast
    have hprod := mul_le_of_le_one_left hscale.le hunit
    linarith
  exact_mod_cast hfloor

/-- What a row may hold if its snapshot came from the source. -/
structure Credible (source : Serve.Source) (row : EnrichmentRow) : Prop where
  unlocked : row.liqLocked = false
  flags : source.Raises row.bytecodeFlags
  gini : 0 ≤ row.gini ∧ row.gini ≤ 1
  top10Share : 0 ≤ row.top10Share ∧ row.top10Share < 10 ^ 2
  hhi : 0 ≤ row.hhi ∧ row.hhi < 10 ^ 4
  liqToFdvRatio : 0 ≤ row.liqToFdvRatio ∧ row.liqToFdvRatio < 10 ^ 4

theorem numericOf_lt (value : F64) (precision scale : Nat) :
    numericOf value precision scale < 10 ^ (precision - scale) :=
  (abs_lt.mp (abs_numericOf_lt value precision scale)).2

theorem Plausible.credible {source : Serve.Source} {s : HolderSnapshot} (h : Plausible source s)
    (deployId : Nat) (now : DateTime) :
    Credible source (storedRow deployId (.fromSnapshot s) now) := by
  obtain ⟨ratio, hratio, hnonneg⟩ := h.ratio
  obtain ⟨hgini, hgini'⟩ := gini_mem s.balances (sumU128 s.balances)
  refine ⟨h.unlocked, h.flags, ⟨numericOf_nonneg hgini 6 4, numericOf_le_one hgini hgini' 6 4⟩,
    ⟨numericOf_nonneg (topNShare_nonneg _ _ _) 6 4, numericOf_lt _ 6 4⟩,
    ⟨numericOf_nonneg (hhi_nonneg _ _) 8 4, numericOf_lt _ 8 4⟩, ?_⟩
  dsimp only [storedRow]
  rw [hratio]
  exact ⟨numericOf_nonneg hnonneg 10 6, numericOf_lt _ 10 6⟩

/-- The source has answered every fetch of the worker, with a provider of each. -/
def AnsweredBy (source : Serve.Source) (start : Indexer) (actions : List Indexer.Action) : Prop :=
  ∀ d id env, Indexer.MetIn start actions (.fetching d id) env →
    ∃ provider, source.fetch provider d = env.fetched

/-- What one run adds to the enrichments came from its source. -/
theorem credible_of_run {caps : Capacities} {db : Database} {reg : FactoryRegistry}
    {source : Serve.Source} {actions : List Indexer.Action} {s : Indexer}
    (hrun : run Indexer.step (Indexer.launch caps db reg) actions = some s)
    (hsource : AnsweredBy source (Indexer.launch caps db reg) actions) {row : EnrichmentRow}
    (hrow : row ∈ s.pipeline.db.enrichment.rows) :
    row ∈ db.enrichment.rows ∨ Credible source row := by
  obtain ⟨calls, hcalls⟩ := Indexer.run_processed hrun
  rw [hcalls.database] at hrow
  rcases enrichment_of_processAll calls hrow with hbefore | ⟨call, hcall, e, houtcome, hstored⟩
  · exact Or.inl hbefore
  · obtain ⟨id, env, -, snapshot, henv, hfetched, rfl, -, -⟩ :=
      (hcalls.grounded call hcall).outcome e houtcome
    obtain ⟨provider, hanswer⟩ := hsource _ _ _ henv
    have hbounds : Plausible source snapshot := fetch_plausible (hanswer.trans hfetched)
    rw [hstored]
    exact Or.inr (hbounds.credible row.deployId call.write.now)

/-- A process with the source that its pipeline was launched with. -/
structure Service extends Process where
  source : Serve.Source

/-- Along a history, the source of each process has answered its worker. -/
def AllAnswered : List Service → Database → Prop
  | [], _ => True
  | p :: rest, db =>
    AnsweredBy p.source (Indexer.launch p.caps db p.registry) p.actions ∧
      ∀ s, run Indexer.step (Indexer.launch p.caps db p.registry) p.actions = some s →
        AllAnswered rest s.pipeline.db

/-- Whatever the providers answer, and over any number of processes: no enrichment
that they add says that liquidity is locked, its flags are none or those of a scan
of some code with the signatures of the source, its Gini index is in its range, and
its other metrics are not negative. -/
theorem stored_columns_credible (services : List Service) (db last : Database)
    (h : history (services.map Service.toProcess) db = some last)
    (hanswered : AllAnswered services db) :
    ∀ row ∈ last.enrichment.rows,
      row ∈ db.enrichment.rows ∨ ∃ p ∈ services, Credible p.source row := by
  intro row hrow
  induction services generalizing db with
  | nil =>
      obtain rfl := Option.some.inj h
      exact Or.inl hrow
  | cons p rest ih =>
      obtain ⟨s, hrun, hrest⟩ := Option.bind_eq_some_iff.mp h
      obtain ⟨hfirst, hlater⟩ := hanswered
      rcases ih s.pipeline.db hrest (hlater s hrun) with hfound | ⟨q, hq, hcredible⟩
      · rcases credible_of_run hrun hfirst hfound with hbefore | hcredible
        · exact Or.inl hbefore
        · exact Or.inr ⟨p, List.mem_cons_self .., hcredible⟩
      · exact Or.inr ⟨q, List.mem_cons_of_mem _ hq, hcredible⟩

/-- The last byte of a word. -/
def smallWord (n : UInt8) : Bytes := List.replicate 31 0 ++ [n]

/-- Every token is mintable, has one holder and a pool with some liquidity. -/
def answeringProvider : Provider where
  getCodeAt := fun _ => some [0x40, 0xc1, 0x0f, 0x19]
  call := fun _ data =>
    match data with
    | .totalSupply => some (smallWord 200)
    | .getPool _ _ _ => some (smallWord 7)
    | .liquidity => some (smallWord 50)
  getLogs := fun _ => some
    [{ address := Address.ZERO
       topics :=
        [TRANSFER_TOPIC, Address.intoWord Address.ZERO, Address.intoWord (.repeatByte 20 0x44)]
       data := smallWord 200
       blockNumber := none
       blockTimestamp := none
       transactionHash := none
       logIndex := none
       removed := false }]

def rpcSource : Serve.Source := .rpc "https://node" Bytecode.SignatureSet.builtin

/-- The worker of a process on this provider, which meets no fault. -/
def fetchedEnv : WorkerEnv where
  now := 0
  upsertFault := none
  fetched := rpcSource.fetch answeringProvider Kafka.sampleDeploy
  write := ⟨0, none⟩

/-- One launch that is stored with its enrichment. -/
def enrichingService : Service where
  caps := unitCapacities
  registry := zoraOnly
  actions :=
    [.connected, .subscribed, .log Indexer.zoraLaunch, .sent,
      .task (.fanout 1700000000000000000), .task (.fanout 1700000000000000000),
      .task (.fanout 1700000000000000000), .task (.worker fetchedEnv), .task (.worker fetchedEnv),
      .task (.worker fetchedEnv), .task (.worker fetchedEnv)]
  source := rpcSource

theorem enrichingService_answered (db : Database) :
    AnsweredBy rpcSource (Indexer.launch unitCapacities db zoraOnly) enrichingService.actions := by
  rintro d id env ⟨before, after, s, hsplit, -, -⟩
  have hmem : Indexer.Action.task (.worker env) ∈ enrichingService.actions := by
    rw [hsplit]
    simp
  obtain rfl : env = fetchedEnv := by simpa [enrichingService] using hmem
  -- the provider answers alike for every token
  exact ⟨answeringProvider, rfl⟩

/-- Two processes in a row, to both of which the launch is sent. -/
theorem stored_columns_credible_enrichingService :
    ∃ last, history [enrichingService.toProcess, enrichingService.toProcess] .empty = some last ∧
      last.enrichment.rows.map (fun row => (row.bytecodeFlags, row.top10Share, row.hhi,
        row.liqToFdvRatio)) = [(Bytecode.BYTECODE_MINT_BACKDOOR, 1, 1, 1 / 4)] ∧
      ∀ row ∈ last.enrichment.rows, Credible rpcSource row := by
  have hstored : (history [enrichingService.toProcess, enrichingService.toProcess] .empty).map
      (fun last => last.enrichment.rows.map fun row => (row.bytecodeFlags, row.top10Share, row.hhi,
        row.liqToFdvRatio)) = some [(Bytecode.BYTECODE_MINT_BACKDOOR, 1, 1, 1 / 4)] := by
    decide +kernel
  obtain ⟨last, hlast, hrows⟩ := Option.map_eq_some_iff.mp hstored
  refine ⟨last, hlast, hrows, ?_⟩
  intro row hrow
  have hcredible := stored_columns_credible [enrichingService, enrichingService] .empty last hlast
    ⟨enrichingService_answered _, fun s _ => ⟨enrichingService_answered _, fun _ _ => trivial⟩⟩
    row hrow
  rcases hcredible with hbefore | ⟨p, hp, hcredible⟩
  · exact absurd hbefore (by simp [Database.empty, Table.empty])
  · obtain rfl : p = enrichingService := by simpa using hp
    exact hcredible

end ShadeIndexer.Bin
