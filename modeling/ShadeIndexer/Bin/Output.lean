import ShadeIndexer.Bin.DecodeTx
import ShadeIndexer.Bin.Provenance
import ShadeIndexer.Bin.Publication
import ShadeIndexer.Core.Payload
import ShadeIndexer.Core.Subscription
import ShadeIndexer.Lib.JsonPretty

/-!
The text that the commands write to standard output, read again by whoever they
are piped into. A backfill writes a deploy to a line, and decode-tx one indented
text behind the other.
-/

namespace ShadeIndexer.Bin

open ShadeIndexer.Core FactoryRegistry Lib.Json Lib.Rust Lib.Paging

/-- `serde_json::to_string` or `to_string_pretty` -/
def Printed.text (p : Printed) : List Char :=
  match p.style with
  | .compact => p.deploy.text
  | .pretty => pretty 0 (.object p.deploy.serialize)

/-- What `println!` has written. -/
def stdoutText (printed : List Printed) : List Char := unlines (printed.map Printed.text)

/-- The deploy as a reader with exact numbers sees it. -/
def jsonOf (d : NormalizedDeploy) : Value ℚ Units := readBack (fun q : ℚ => q) (.object d.serialize)

theorem Printed.spells {p : Printed} (h : Decoded p.deploy) :
    Spells (fun q : ℚ => q) p.text (.object p.deploy.serialize) := by
  obtain ⟨style, deploy⟩ := p
  cases style with
  | compact => exact spells_write _ h.distinct
  | pretty => exact spells_pretty _ 0 h.distinct

theorem decoded_of_mem {reg : FactoryRegistry} {logs : List Log} {d : NormalizedDeploy}
    (h : d ∈ logs.filterMap (deployOf reg)) : Decoded d := by
  obtain ⟨log, -, hdeploy⟩ := List.mem_filterMap.mp h
  obtain ⟨topic0, launchpad, -, -, hdecode⟩ := deployOf_decodes hdeploy
  exact ⟨launchpad, log, hdecode⟩

theorem readAll_stdoutText (style : JsonStyle) {deploys : List NormalizedDeploy}
    (h : ∀ d ∈ deploys, Decoded d) :
    readAll (fun q : ℚ => q) (stdoutText (deploys.map (Printed.mk style))) =
      some (deploys.map jsonOf) := by
  have hspells : ∀ p ∈ deploys.map (Printed.mk style),
      Spells (fun q : ℚ => q) (Printed.text p) (.object p.deploy.serialize) := by
    intro p hp
    obtain ⟨d, hd, rfl⟩ := List.mem_map.mp hp
    exact Printed.spells (h d hd)
  rw [stdoutText, readAll_unlines _ hspells, List.map_map]
  rfl

/-- In a backfill every deploy has a line. -/
theorem stdoutText_compact (deploys : List NormalizedDeploy) :
    stdoutText (deploys.map (Printed.mk .compact)) =
      writeLines (deploys.map fun d => .object d.serialize) := by
  rw [stdoutText, writeLines, List.map_map, List.map_map]
  rfl

theorem readLines_stdoutText {deploys : List NormalizedDeploy} (h : ∀ d ∈ deploys, Decoded d) :
    readLines (fun q : ℚ => q) (stdoutText (deploys.map (Printed.mk .compact))) =
      some (deploys.map jsonOf) := by
  rw [stdoutText_compact, readLines_writeLines]
  · rw [List.map_map]
    rfl
  · intro v hv
    obtain ⟨d, hd, rfl⟩ := List.mem_map.mp hv
    exact (h d hd).distinct

theorem int32_ofNat_eq_zero {n : Nat} (h : n < 2 ^ 32) : Int32.ofNat n = 0 ↔ n = 0 := by
  constructor
  · intro hzero
    have hbits : BitVec.ofNat 32 n = 0 := congrArg Int32.toBitVec hzero
    have hnat := congrArg BitVec.toNat hbits
    rw [BitVec.toNat_ofNat, Nat.mod_eq_of_lt h] at hnat
    exact hnat
  · rintro rfl
    rfl

/-- Either the command fails before it has written anything, or what it has
written is read back as the deploys of the receipt. Below the count at which its
counter wraps, it complains exactly if there are none. -/
theorem decode_tx_output_reads_back (setup : Setup) (receipts : DecodeTx.Receipts)
    (txHash : String) :
    (∃ e, DecodeTx.run setup receipts txHash = (.error (.error e), .start)) ∨
      ∃ reg logs out,
        setup.registry "decode-tx requires [rpc].http_url for getTransactionReceipt" = .ok reg ∧
        DecodeTx.receipt receipts txHash = .ok logs ∧
        DecodeTx.run setup receipts txHash = (.ok (), out) ∧
        readAll (fun q : ℚ => q) (stdoutText out.printed) =
          some ((logs.filterMap (deployOf reg)).map jsonOf) ∧
        (logs.length < 2 ^ 32 → (out.errors = [] ↔ logs.filterMap (deployOf reg) ≠ [])) := by
  unfold DecodeTx.run
  cases hsetup : setup.registry "decode-tx requires [rpc].http_url for getTransactionReceipt" with
  | error e => exact Or.inl ⟨e, rfl⟩
  | ok reg =>
      dsimp only
      cases hreceipt : DecodeTx.receipt receipts txHash with
      | error e => exact Or.inl ⟨e, rfl⟩
      | ok logs =>
          dsimp only
          rw [DecodeTx.receiptLogs_spec]
          have hdecoded : ∀ d ∈ logs.filterMap (deployOf reg), Decoded d :=
            fun d hd => decoded_of_mem hd
          have hread := readAll_stdoutText .pretty hdecoded
          have hcount : (logs.filterMap (deployOf reg)).length ≤ logs.length :=
            List.length_filterMap_le _ _
          refine Or.inr ⟨reg, logs, ?_⟩
          generalize logs.filterMap (deployOf reg) = deploys at hdecoded hread hcount ⊢
          have hfound (hfew : logs.length < 2 ^ 32) :
              (DecodeTx.Output.start.emit deploys).found = 0 ↔ deploys = [] := by
            have hcounter : (DecodeTx.Output.start.emit deploys).found =
                Int32.ofNat deploys.length := Int32.zero_add _
            rw [hcounter, int32_ofNat_eq_zero (by omega), List.length_eq_zero_iff]
          dsimp only
          split
          · rename_i hnone
            refine ⟨_, rfl, rfl, rfl, hread, ?_⟩
            intro hfew
            simp [(hfound hfew).mp hnone]
          · rename_i hsome
            refine ⟨_, rfl, rfl, rfl, hread, ?_⟩
            intro hfew
            exact iff_of_true rfl (mt (hfound hfew).mpr hsome)

/-- The logs of the blocks from one to the other, whatever contract they are of. -/
def blockLogs (chain : Backfill.Chain) (fromBlock toBlock : UInt64) : List Log :=
  (Page.mk fromBlock.toNat toBlock.toNat).items.flatMap chain

variable {parsers : TextParsers} {body : String} {reg : FactoryRegistry}

/-- The filter of a query holds back no log that announces a deploy. -/
theorem answer_announces (h : fromTomlStr parsers body = .ok reg)
    (chain : Backfill.Chain) (fromBlock toBlock : UInt64) :
    ((Backfill.pageFilter reg fromBlock toBlock).answer chain).filterMap (deployOf reg) =
      (blockLogs chain fromBlock toBlock).filterMap (deployOf reg) :=
  filterMap_deployOf_filter h (blockLogs chain fromBlock toBlock)

/-- The pages of a backfill that returns, and what it prints. -/
theorem pageLoop_prints (h : fromTomlStr parsers body = .ok reg)
    {provider : Backfill.Provider} {chain : Backfill.Chain} (hserves : provider.Serves chain)
    {toBlock : UInt64} {args : Backfill.Args} (hrange : args.fromBlock ≤ toBlock)
    (hstdout : args.stdout = true) (hsize : 1 ≤ args.pageSize.toNat)
    (hroom : toBlock.toNat + args.pageSize.toNat ≤ 2 ^ 64 - 1) :
    ∃ enough st, (∀ fuel, enough ≤ fuel →
        Backfill.pageLoop reg provider args toBlock fuel args.fromBlock .start =
          some (.ok (), st)) ∧
      st.printed =
        ((blockLogs chain args.fromBlock toBlock).filterMap (deployOf reg)).map
          (Printed.mk .compact) ∧
      st.total = UInt64.ofNat
        ((blockLogs chain args.fromBlock toBlock).filterMap (deployOf reg)).length := by
  obtain ⟨filters, hfilters, htiles, hrun⟩ :=
    @Backfill.pageLoop_tiles reg _ _ _ _ hserves hsize hroom (toBlock.toNat + 1) args.fromBlock
      .start (UInt64.le_iff_toNat_le.mp hrange) (by omega)
  have hlogs := Backfill.answer_tiles reg chain filters args.fromBlock toBlock hfilters htiles
  have hdeploys : filters.flatMap (Backfill.Filter.announced reg chain) =
      (blockLogs chain args.fromBlock toBlock).filterMap (deployOf reg) := by
    rw [← answer_announces h, ← hlogs, List.filterMap_flatMap]
    rfl
  refine ⟨toBlock.toNat + 1 + 1, _, hrun, ?_, ?_⟩
  · simp [Backfill.Progress.advance, Backfill.Progress.emit, Backfill.Progress.start, hdeploys,
      hstdout]
  · simp [Backfill.Progress.advance, Backfill.Progress.emit, Backfill.Progress.start, hdeploys]

/-- A backfill writes the launches of the chain: read line by line, its output is
the deploys that the logs of the range announce, in chain order and each once,
though it has asked page by page and through a filter. -/
theorem backfill_output_is_the_chain (parsers : TextParsers) (body : String)
    (reg : FactoryRegistry) (h : fromTomlStr parsers body = .ok reg)
    (provider : Backfill.Provider) (chain : Backfill.Chain) (hserves : provider.Serves chain)
    (toBlock : UInt64) (args : Backfill.Args) (hrange : args.fromBlock ≤ toBlock)
    (hstdout : args.stdout = true) (hsize : 1 ≤ args.pageSize.toNat)
    (hroom : toBlock.toNat + args.pageSize.toNat ≤ 2 ^ 64 - 1) :
    ∃ enough st, (∀ fuel, enough ≤ fuel →
        Backfill.pageLoop reg provider args toBlock fuel args.fromBlock .start =
          some (.ok (), st)) ∧
      readLines (fun q : ℚ => q) (stdoutText st.printed) =
        some (((blockLogs chain args.fromBlock toBlock).filterMap (deployOf reg)).map jsonOf) ∧
      st.total = UInt64.ofNat
        ((blockLogs chain args.fromBlock toBlock).filterMap (deployOf reg)).length := by
  obtain ⟨enough, st, hrun, hprinted, htotal⟩ :=
    pageLoop_prints h hserves hrange hstdout hsize hroom
  refine ⟨enough, st, hrun, ?_, htotal⟩
  rw [hprinted]
  exact readLines_stdoutText fun d hd => decoded_of_mem hd

/-- Every block holds a launch and a log of another contract. -/
def mixedChain : Backfill.Chain := fun _ => [bankrLaunch, retractedLaunch]

theorem backfill_output_is_the_chain_mixedChain :
    ∃ enough st, (∀ fuel, enough ≤ fuel →
        Backfill.pageLoop (placeholderRegistry (.repeatByte 32 0x22) (.repeatByte 32 0x33))
            (.over mixedChain) ⟨1, some 5, 2, true⟩ 5 fuel 1 .start = some (.ok (), st)) ∧
      readLines (fun q : ℚ => q) (stdoutText st.printed) =
        some (((blockLogs mixedChain 1 5).filterMap
          (deployOf (placeholderRegistry (.repeatByte 32 0x22) (.repeatByte 32 0x33)))).map
            jsonOf) := by
  obtain ⟨enough, st, hrun, hread, -⟩ := backfill_output_is_the_chain
    (placeholderParsers twosTopic threesTopic) (placeholderToml twosTopic threesTopic)
    (placeholderRegistry (.repeatByte 32 0x22) (.repeatByte 32 0x33))
    (placeholders_accepted _ _ _ _ twos_spelled threes_spelled)
    (.over mixedChain) mixedChain (fun _ _ => rfl) 5 ⟨1, some 5, 2, true⟩ (by decide) rfl
    (by decide) (by decide)
  exact ⟨enough, st, hrun, hread⟩

theorem mem_lines_stdoutText {deploys : List NormalizedDeploy} {d : NormalizedDeploy}
    (h : d ∈ deploys) : d.text ∈ lines (stdoutText (deploys.map (Printed.mk .compact))) := by
  rw [stdoutText_compact, lines_writeLines, List.map_map]
  exact List.mem_map_of_mem h

/-- A backfill makes up for the live indexer: over a range that has the logs
which an indexer received, each of its lines is on the output that the indexer
has committed to Kafka, byte for byte, whatever became of the other deploys. -/
theorem backfill_covers_committed (parsers : TextParsers) (body : String)
    (reg : FactoryRegistry) (h : fromTomlStr parsers body = .ok reg)
    (provider : Backfill.Provider) (chain : Backfill.Chain) (hserves : provider.Serves chain)
    (toBlock : UInt64) (args : Backfill.Args) (hrange : args.fromBlock ≤ toBlock)
    (hstdout : args.stdout = true) (hsize : 1 ≤ args.pageSize.toNat)
    (hroom : toBlock.toNat + args.pageSize.toNat ≤ 2 ^ 64 - 1) (caps : Capacities)
    (db : Enrich.Database) (actions : List Indexer.Action) (s : Indexer)
    (hserializes : Indexer.Serializing actions)
    (hlive : Lib.Transition.run Indexer.step (Indexer.launch caps db reg) actions = some s)
    (hlogs : ∀ log ∈ s.receivedLogs, log ∈ blockLogs chain args.fromBlock toBlock) :
    ∃ enough st, (∀ fuel, enough ≤ fuel →
        Backfill.pageLoop reg provider args toBlock fuel args.fromBlock .start =
          some (.ok (), st)) ∧
      ∀ record ∈ s.pipeline.broker.visible, ∃ line ∈ lines (stdoutText st.printed),
        record.payload = utf8 (String.ofList line) := by
  obtain ⟨enough, st, hrun, hprinted, -⟩ := pageLoop_prints h hserves hrange hstdout hsize hroom
  obtain ⟨log, hlog, hprefix⟩ := Indexer.run_published hserializes hlive
  refine ⟨enough, st, hrun, ?_⟩
  intro record hrecord
  rw [hlog.visible] at hrecord
  obtain ⟨entry, hentry, rfl⟩ := List.mem_map.mp hrecord
  have hannounced : entry.deploy ∈ s.announced :=
    hprefix.subset (List.mem_map_of_mem (List.mem_of_mem_filter hentry))
  obtain ⟨announcing, hreceived, hdeploy⟩ := List.mem_filterMap.mp hannounced
  rw [Indexer.run_registry hlive] at hdeploy
  have hmem : entry.deploy ∈ (blockLogs chain args.fromBlock toBlock).filterMap (deployOf reg) :=
    List.mem_filterMap.mpr ⟨announcing, hlogs announcing hreceived, hdeploy⟩
  rw [hprinted]
  exact ⟨entry.deploy.text, mem_lines_stdoutText hmem, rfl⟩

/-- One launch, from its log to the return of its publish. -/
def publishedBankr : List Indexer.Action :=
  [.connected, .subscribed, .log bankrLaunch, .sent, .task (.fanout 1700000000000000000),
    .task (.fanout 1700000000000000000), .task (.producer Indexer.faultless),
    .task (.producer Indexer.faultless)]

theorem publishedBankr_serializes : Indexer.Serializing publishedBankr := by
  intro env henv
  have hfaultless : env = Indexer.faultless := by simpa [publishedBankr] using henv
  rw [hfaultless]
  exact fun i d => rfl

theorem backfill_covers_committed_publishedBankr :
    ∃ s enough st,
      Lib.Transition.run Indexer.step (Indexer.launch unitCapacities .empty
        (placeholderRegistry (.repeatByte 32 0x22) (.repeatByte 32 0x33))) publishedBankr = some s ∧
      s.pipeline.broker.visible.length = 1 ∧
      (∀ fuel, enough ≤ fuel →
        Backfill.pageLoop (placeholderRegistry (.repeatByte 32 0x22) (.repeatByte 32 0x33))
            (.over mixedChain) ⟨1, some 5, 2, true⟩ 5 fuel 1 .start = some (.ok (), st)) ∧
      ∀ record ∈ s.pipeline.broker.visible, ∃ line ∈ lines (stdoutText st.printed),
        record.payload = utf8 (String.ofList line) := by
  have hlive : Lib.Transition.run Indexer.step (Indexer.launch unitCapacities .empty
      (placeholderRegistry (.repeatByte 32 0x22) (.repeatByte 32 0x33))) publishedBankr =
        some _ := rfl
  have hchain : bankrLaunch ∈ blockLogs mixedChain 1 5 :=
    List.mem_flatMap.mpr ⟨1, by decide, List.mem_cons_self ..⟩
  obtain ⟨enough, st, hrun, hcovered⟩ := backfill_covers_committed
    (placeholderParsers twosTopic threesTopic) (placeholderToml twosTopic threesTopic)
    (placeholderRegistry (.repeatByte 32 0x22) (.repeatByte 32 0x33))
    (placeholders_accepted _ _ _ _ twos_spelled threes_spelled)
    (.over mixedChain) mixedChain (fun _ _ => rfl) 5 ⟨1, some 5, 2, true⟩ (by decide) rfl
    (by decide) (by decide) unitCapacities .empty publishedBankr _ publishedBankr_serializes hlive
    (by
      intro log hlog
      rw [Indexer.run_receivedLogs hlive] at hlog
      obtain rfl : log = bankrLaunch := by
        simpa [publishedBankr, Indexer.Action.logs] using hlog
      exact hchain)
  exact ⟨_, enough, st, hlive, rfl, hrun, hcovered⟩

end ShadeIndexer.Bin
