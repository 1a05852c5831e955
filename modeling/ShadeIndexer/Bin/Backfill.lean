import ShadeIndexer.Bin.Commands
import ShadeIndexer.Core.Subscription
import ShadeIndexer.Lib.Loop
import ShadeIndexer.Lib.Paging

/-!
The backfill command. It asks the node for one page of blocks after the other
and handles the logs of each page. `requested` records the queries it makes.
The loop takes fuel, and `none` says that the fuel ran out before it returned.
Block numbers wrap, as they do in the release profile.
-/

namespace ShadeIndexer.Bin.Backfill

open ShadeIndexer.Core Lib.Rust Lib.Loop Lib.Paging

structure Filter extends LogFilter where
  fromBlock : UInt64
  toBlock : UInt64
  deriving DecidableEq

structure Provider where
  getBlockNumber : Except CommandError UInt64
  getLogs : Filter → Except CommandError (List Log)

structure Args where
  fromBlock : UInt64
  toBlock : Option UInt64
  pageSize : UInt64
  stdout : Bool
  deriving DecidableEq, Repr

structure Progress where
  requested : List Filter
  printed : List Printed
  total : UInt64

def Progress.start : Progress := ⟨[], [], 0⟩

/-- The arm of a decoded deploy. -/
def Progress.record (st : Progress) (stdout : Bool) (deploy : NormalizedDeploy) : Progress :=
  { st with
    printed := if stdout then st.printed ++ [⟨.compact, deploy⟩] else st.printed
    total := st.total + 1 }

/-- The loop over the logs of one page. -/
def pageLogs (reg : FactoryRegistry) (stdout : Bool) :
    List Log → Progress → Result CommandError Unit × Progress
  | [], st => (.ok (), st)
  | log :: rest, st =>
    match log.topics.head? with
    | none => pageLogs reg stdout rest st
    | some topic0 =>
      match reg.matchLog log.address topic0 with
      | none => pageLogs reg stdout rest st
      | some launchpad =>
        match decodeDeploy launchpad log with
        | .ok deploy => pageLogs reg stdout rest (st.record stdout deploy)
        | .error (.panic p) => (.error (.panic p), st)
        | .error (.error _) => pageLogs reg stdout rest st

def pageFilter (reg : FactoryRegistry) (start stop : UInt64) : Filter where
  address := reg.allAddresses
  eventSignature := reg.allTopics
  fromBlock := start
  toBlock := stop

/-- `format!("getLogs [{start}, {end}]")` -/
def pageContext (start stop : UInt64) : String :=
  "getLogs [" ++ toString start ++ ", " ++ toString stop ++ "]"

/-- What one turn of the `while start <= to` loop leads to: the loop ends with a
result, or it comes back to its head with a new `start`. -/
def pageIteration (reg : FactoryRegistry) (provider : Provider) (args : Args) (toBlock : UInt64) :
    UInt64 × Progress → (Result CommandError Unit × Progress) ⊕ (UInt64 × Progress)
  | (start, st) =>
    if start ≤ toBlock then
      let stop := min (start + args.pageSize - 1) toBlock
      let filter := pageFilter reg start stop
      let st := { st with requested := st.requested ++ [filter] }
      match withContext (pageContext start stop) (provider.getLogs filter) with
      | .error e => .inl (.error (.error e), st)
      | .ok logs =>
        match pageLogs reg args.stdout logs st with
        | (.error fault, st) => .inl (.error fault, st)
        | (.ok (), st) => .inr (stop + 1, st)
    else .inl (.ok (), st)

def pageLoop (reg : FactoryRegistry) (provider : Provider) (args : Args) (toBlock : UInt64)
    (fuel : Nat) (start : UInt64) (st : Progress) :
    Option (Result CommandError Unit × Progress) :=
  iterate (pageIteration reg provider args toBlock) fuel (start, st)

/-- `args.to_block`, or the latest block of the node. -/
def lastBlock (provider : Provider) (args : Args) : Except CommandError UInt64 :=
  match args.toBlock with
  | some b => .ok b
  | none => withContext "latest block" provider.getBlockNumber

def run (setup : Setup) (provider : Provider) (args : Args) (fuel : Nat) :
    Option (Result CommandError Unit × Progress) :=
  match setup.registry
    "backfill requires [rpc].http_url; ws-only providers don't expose getLogs efficiently" with
  | .error e => some (.error (.error e), .start)
  | .ok reg =>
    match lastBlock provider args with
    | .error e => some (.error (.error e), .start)
    | .ok toBlock =>
      let start := args.fromBlock
      if toBlock < start then
        some (.error (.error (.message ("from_block (" ++ toString start ++ ") > to_block (" ++
          toString toBlock ++ ")"))), .start)
      else pageLoop reg provider args toBlock fuel start .start

/-- What handling logs that announce the given deploys adds to the output. -/
def Progress.emit (st : Progress) (stdout : Bool) (deploys : List NormalizedDeploy) : Progress :=
  { st with
    printed := st.printed ++ if stdout then deploys.map (Printed.mk .compact) else []
    total := st.total + UInt64.ofNat deploys.length }

@[simp] theorem Progress.emit_nil (st : Progress) (stdout : Bool) : st.emit stdout [] = st := by
  cases st
  cases stdout <;> simp [Progress.emit]

theorem Progress.emit_emit (st : Progress) (stdout : Bool) (first second : List NormalizedDeploy) :
    (st.emit stdout first).emit stdout second = st.emit stdout (first ++ second) := by
  cases stdout <;> simp [Progress.emit, UInt64.ofNat_add, UInt64.add_assoc]

theorem Progress.record_eq (st : Progress) (stdout : Bool) (deploy : NormalizedDeploy) :
    st.record stdout deploy = st.emit stdout [deploy] := by
  cases stdout <;> simp [Progress.record, Progress.emit]

/-- One log adds the deploy that it announces, once, or nothing, and the loop
goes on with the next log. -/
theorem pageLogs_cons (reg : FactoryRegistry) (stdout : Bool) (log : Log) (rest : List Log)
    (st : Progress) :
    pageLogs reg stdout (log :: rest) st =
      pageLogs reg stdout rest (st.emit stdout (deployOf reg log).toList) := by
  rw [pageLogs, deployOf]
  cases log.topics.head? with
  | none => simp
  | some topic0 =>
      cases hroute : reg.matchLog log.address topic0 with
      | none => simp [hroute]
      | some launchpad =>
          rcases decodeDeploy_cases launchpad log with ⟨deploy, hdecode⟩ | ⟨e, hdecode⟩
          · simp [hroute, hdecode, Except.toOption, Progress.record_eq]
          · simp [hroute, hdecode, Except.toOption]

/-- The loop over one page reaches the end of the page and adds, in order, the
deploy of every log that announces one. -/
theorem pageLogs_spec (reg : FactoryRegistry) (stdout : Bool) (logs : List Log) (st : Progress) :
    pageLogs reg stdout logs st = (.ok (), st.emit stdout (logs.filterMap (deployOf reg))) := by
  induction logs generalizing st with
  | nil => simp [pageLogs]
  | cons log rest ih =>
      rw [pageLogs_cons, ih, Progress.emit_emit]
      cases hdeploy : deployOf reg log <;> simp [hdeploy]

def Filter.page (f : Filter) : Page := ⟨f.fromBlock.toNat, f.toBlock.toNat⟩

/-- The logs of every block of a chain, in order. -/
abbrev Chain := Nat → List Log

/-- The matching logs of the blocks of a query, in chain order. -/
def Filter.answer (chain : Chain) (f : Filter) : List Log :=
  (f.page.items.flatMap chain).filter f.matches

/-- The node answers every query that is not empty from one chain. -/
def Provider.Serves (provider : Provider) (chain : Chain) : Prop :=
  ∀ f : Filter, f.fromBlock ≤ f.toBlock → provider.getLogs f = .ok (f.answer chain)

/-- Where the first page from `start` ends, if the sum before it does not wrap. -/
theorem stop_toNat (start size toBlock : UInt64) (hsum : 1 ≤ start.toNat + size.toNat)
    (hroom : start.toNat + size.toNat < 2 ^ 64) :
    (min (start + size - 1) toBlock).toNat =
      min (start.toNat + size.toNat - 1) toBlock.toNat := by
  have hadd : (start + size).toNat = start.toNat + size.toNat := by
    rw [UInt64.toNat_add]
    omega
  have hone : (1 : UInt64) ≤ start + size := by
    rw [UInt64.le_iff_toNat_le, hadd]
    simpa using hsum
  have hless : (start + size - 1).toNat = start.toNat + size.toNat - 1 := by
    rw [UInt64.toNat_sub_of_le _ _ hone, hadd]
    rfl
  have hmin : min (start + size - 1) toBlock =
      if start + size - 1 ≤ toBlock then start + size - 1 else toBlock := rfl
  rw [hmin, ← hless, Nat.min_def]
  simp only [UInt64.le_iff_toNat_le]
  split <;> rfl

/-- The logs of pages that tile a range are those of the range. -/
theorem answer_tiles (reg : FactoryRegistry) (chain : Chain) (filters : List Filter)
    (start stop : UInt64)
    (hfilters : ∀ f ∈ filters, f = pageFilter reg f.fromBlock f.toBlock)
    (htiles : Tiles start.toNat stop.toNat (filters.map Filter.page)) :
    filters.flatMap (Filter.answer chain) = (pageFilter reg start stop).answer chain := by
  have hpages := htiles.flatMap_items
  have hmatch : ∀ f ∈ filters, f.answer chain =
      (f.page.items.flatMap chain).filter (pageFilter reg start stop).matches := by
    intro f hf
    rw [hfilters f hf]
    rfl
  rw [List.flatMap_congr hmatch, Filter.answer, ← List.filter_flatMap, ← List.flatMap_assoc]
  have hitems : filters.flatMap (fun f => f.page.items) =
      (filters.map Filter.page).flatMap Page.items := (List.flatMap_map _ _ _).symm
  rw [hitems, hpages]
  rfl

/-- The deploys that the blocks of a query announce. -/
def Filter.announced (reg : FactoryRegistry) (chain : Chain) (f : Filter) :
    List NormalizedDeploy :=
  (f.answer chain).filterMap (deployOf reg)

/-- The progress after the given queries. -/
def Progress.advance (st : Progress) (reg : FactoryRegistry) (chain : Chain) (stdout : Bool)
    (filters : List Filter) : Progress :=
  Progress.emit { st with requested := st.requested ++ filters } stdout
    (filters.flatMap (Filter.announced reg chain))

theorem Progress.advance_cons (st : Progress) (reg : FactoryRegistry) (chain : Chain)
    (stdout : Bool) (f : Filter) (rest : List Filter) :
    (st.advance reg chain stdout [f]).advance reg chain stdout rest =
      st.advance reg chain stdout (f :: rest) := by
  cases stdout <;> simp [Progress.advance, Progress.emit, UInt64.ofNat_add, UInt64.add_assoc]

variable {reg : FactoryRegistry} {provider : Provider} {chain : Chain} {args : Args}
  {toBlock : UInt64}

/-- Behind the last block the loop ends. -/
theorem pageIteration_over {start : UInt64} (hover : ¬ start ≤ toBlock) (st : Progress) :
    pageIteration reg provider args toBlock (start, st) = .inl (.ok (), st) := if_neg hover

/-- A page that the node refuses ends the loop with an error. -/
theorem pageIteration_refused {start : UInt64} {cause : CommandError} (hstart : start ≤ toBlock)
    (hlogs : provider.getLogs
      (pageFilter reg start (min (start + args.pageSize - 1) toBlock)) = .error cause)
    (st : Progress) :
    pageIteration reg provider args toBlock (start, st) =
      .inl (.error (.error (.context
        (pageContext start (min (start + args.pageSize - 1) toBlock)) cause)),
        { st with requested := st.requested ++
          [pageFilter reg start (min (start + args.pageSize - 1) toBlock)] }) := by
  rw [pageIteration, if_pos hstart]
  simp only [hlogs, withContext, Except.mapError]

/-- A page that the node answers is handled, and the loop goes on behind it. -/
theorem pageIteration_answered {start : UInt64} {logs : List Log} (hstart : start ≤ toBlock)
    (hlogs : provider.getLogs
      (pageFilter reg start (min (start + args.pageSize - 1) toBlock)) = .ok logs)
    (st : Progress) :
    pageIteration reg provider args toBlock (start, st) =
      .inr (min (start + args.pageSize - 1) toBlock + 1,
        Progress.emit { st with requested := st.requested ++
          [pageFilter reg start (min (start + args.pageSize - 1) toBlock)] } args.stdout
          (logs.filterMap (deployOf reg))) := by
  rw [pageIteration, if_pos hstart]
  simp only [hlogs, withContext, Except.mapError, pageLogs_spec]

/-- One iteration queries one page, handles its logs and goes on behind it. -/
theorem pageLoop_step (hserves : provider.Serves chain) (start : UInt64) (st : Progress)
    (fuel : Nat) (hstart : start ≤ toBlock)
    (hpage : start ≤ min (start + args.pageSize - 1) toBlock) :
    pageLoop reg provider args toBlock (fuel + 1) start st =
      pageLoop reg provider args toBlock fuel (min (start + args.pageSize - 1) toBlock + 1)
        (st.advance reg chain args.stdout
          [pageFilter reg start (min (start + args.pageSize - 1) toBlock)]) := by
  have hanswer := hserves (pageFilter reg start (min (start + args.pageSize - 1) toBlock)) hpage
  rw [pageLoop, iterate_inr (pageIteration_answered hstart hanswer st)]
  simp [pageLoop, Progress.advance, Filter.announced]

/-- From any start the loop queries pages that tile the rest of the range, and
then it returns. -/
theorem pageLoop_tiles (hserves : provider.Serves chain) (hsize : 1 ≤ args.pageSize.toNat)
    (hroom : toBlock.toNat + args.pageSize.toNat ≤ 2 ^ 64 - 1) (n : Nat) (start : UInt64)
    (st : Progress) (hstart : start.toNat ≤ toBlock.toNat)
    (hrest : toBlock.toNat - start.toNat < n) :
    ∃ filters : List Filter, (∀ f ∈ filters, f = pageFilter reg f.fromBlock f.toBlock) ∧
      Tiles start.toNat toBlock.toNat (filters.map Filter.page) ∧
      ∀ fuel, n + 1 ≤ fuel → pageLoop reg provider args toBlock fuel start st =
        some (.ok (), st.advance reg chain args.stdout filters) := by
  induction n generalizing start st with
  | zero => omega
  | succ n ih =>
      have hstop := stop_toNat start args.pageSize toBlock (by omega) (by omega)
      have hpage : start ≤ min (start + args.pageSize - 1) toBlock := by
        rw [UInt64.le_iff_toNat_le]
        omega
      have hstep := fun fuel => @pageLoop_step reg provider chain args toBlock hserves start st fuel
        (UInt64.le_iff_toNat_le.mpr hstart) hpage
      generalize min (start + args.pageSize - 1) toBlock = stop at hstop hpage hstep
      have hnext : (stop + 1).toNat = stop.toNat + 1 := by
        rw [UInt64.toNat_add]
        simp
        omega
      rcases (show stop.toNat ≤ toBlock.toNat by omega).eq_or_lt with hlast | hmore
      · -- the page that ends at the last block
        refine ⟨[pageFilter reg start stop], by simp [pageFilter], ?_, ?_⟩
        · rw [← hlast]
          exact .last _ _ (UInt64.le_iff_toNat_le.mp hpage)
        · intro fuel hfuel
          obtain ⟨rest, rfl⟩ : ∃ rest, fuel = rest + 1 + 1 := ⟨fuel - 2, by omega⟩
          have hover : ¬ stop + 1 ≤ toBlock := by
            rw [UInt64.le_iff_toNat_le]
            omega
          rw [hstep, pageLoop, iterate_inl (pageIteration_over hover _)]
      · -- a full page, with more blocks behind it
        obtain ⟨filters, hfilters, htiles, hrun⟩ := ih (stop + 1)
          (st.advance reg chain args.stdout [pageFilter reg start stop]) (by omega) (by omega)
        refine ⟨pageFilter reg start stop :: filters, ?_, ?_, ?_⟩
        · intro f hf
          rcases List.mem_cons.mp hf with rfl | hf
          · rfl
          · exact hfilters f hf
        · rw [hnext] at htiles
          exact .step _ _ _ _ (UInt64.le_iff_toNat_le.mp hpage) htiles
        · intro fuel hfuel
          obtain ⟨rest, rfl⟩ : ∃ rest, fuel = rest + 1 := ⟨fuel - 1, by omega⟩
          rw [hstep, hrun rest (by omega), Progress.advance_cons]

/-- The queries are pages of the range: none is empty, they ascend, and every
block of the range is on exactly one of them, and no other block is. -/
structure Partitions (reg : FactoryRegistry) (fromBlock toBlock : UInt64)
    (requested : List Filter) : Prop where
  pages : ∀ f ∈ requested, f = pageFilter reg f.fromBlock f.toBlock
  nonempty : ∀ f ∈ requested, f.fromBlock ≤ f.toBlock
  ascending : requested.Pairwise fun f g => f.toBlock < g.fromBlock
  covers : ∀ b : UInt64, (fromBlock ≤ b ∧ b ≤ toBlock) ↔
    ∃ f ∈ requested, f.fromBlock ≤ b ∧ b ≤ f.toBlock
  once : ∀ b : UInt64, ∀ f ∈ requested, ∀ g ∈ requested,
    f.fromBlock ≤ b ∧ b ≤ f.toBlock → g.fromBlock ≤ b ∧ b ≤ g.toBlock → f = g

theorem partitions_of_tiles {fromBlock : UInt64} {filters : List Filter}
    (hfilters : ∀ f ∈ filters, f = pageFilter reg f.fromBlock f.toBlock)
    (htiles : Tiles fromBlock.toNat toBlock.toNat (filters.map Filter.page)) :
    Partitions reg fromBlock toBlock filters where
  pages := hfilters
  nonempty := by
    intro f hf
    exact UInt64.le_iff_toNat_le.mpr (htiles.nonempty f.page (List.mem_map_of_mem hf))
  ascending := by
    have hpairs := List.pairwise_map.mp htiles.ascending
    exact hpairs.imp fun h => UInt64.lt_iff_toNat_lt.mpr h
  covers := by
    intro b
    simp only [UInt64.le_iff_toNat_le]
    rw [htiles.covers b.toNat]
    constructor
    · rintro ⟨p, hp, hb⟩
      obtain ⟨f, hf, rfl⟩ := List.mem_map.mp hp
      exact ⟨f, hf, hb⟩
    · rintro ⟨f, hf, hb⟩
      exact ⟨f.page, List.mem_map_of_mem hf, hb⟩
  once := by
    intro b f hf g hg hbf hbg
    simp only [UInt64.le_iff_toNat_le] at hbf hbg
    have hpage := htiles.once b.toNat f.page (List.mem_map_of_mem hf) g.page
      (List.mem_map_of_mem hg) hbf hbg
    have hfirst := UInt64.toNat.inj (congrArg Page.first hpage)
    have hlast := UInt64.toNat.inj (congrArg Page.last hpage)
    rw [hfilters f hf, hfilters g hg, hfirst, hlast]

/-- A paged backfill is one query over the whole range. Whatever the page size,
the loop returns, its queries partition the range, and what it prints and
counts is what handling the logs of the single query prints and counts. -/
theorem pageLoop_refines_single_query (reg : FactoryRegistry) (provider : Provider)
    (chain : Chain) (hserves : provider.Serves chain) (fromBlock toBlock : UInt64)
    (hrange : fromBlock ≤ toBlock) :
    ∃ logs, provider.getLogs (pageFilter reg fromBlock toBlock) = .ok logs ∧
      ∀ args : Args, 1 ≤ args.pageSize.toNat →
        toBlock.toNat + args.pageSize.toNat ≤ 2 ^ 64 - 1 →
          ∃ enough st, (∀ fuel, enough ≤ fuel →
              pageLoop reg provider args toBlock fuel fromBlock .start = some (.ok (), st)) ∧
            Partitions reg fromBlock toBlock st.requested ∧
            st.printed = (pageLogs reg args.stdout logs .start).2.printed ∧
            st.total = (pageLogs reg args.stdout logs .start).2.total := by
  refine ⟨(pageFilter reg fromBlock toBlock).answer chain,
    hserves (pageFilter reg fromBlock toBlock) hrange, ?_⟩
  intro args hsize hroom
  obtain ⟨filters, hfilters, htiles, hrun⟩ := @pageLoop_tiles reg provider chain args toBlock
    hserves hsize hroom (toBlock.toNat + 1) fromBlock .start
    (UInt64.le_iff_toNat_le.mp hrange) (by omega)
  have hlogs := answer_tiles reg chain filters fromBlock toBlock hfilters htiles
  have hdeploys : filters.flatMap (Filter.announced reg chain) =
      ((pageFilter reg fromBlock toBlock).answer chain).filterMap (deployOf reg) := by
    rw [← hlogs, List.filterMap_flatMap]
    rfl
  have hadvance : Progress.advance .start reg chain args.stdout filters =
      Progress.emit { Progress.start with requested := filters } args.stdout
        (((pageFilter reg fromBlock toBlock).answer chain).filterMap (deployOf reg)) := by
    rw [Progress.advance, hdeploys]
    rfl
  refine ⟨toBlock.toNat + 1 + 1, _, hrun, partitions_of_tiles hfilters htiles, ?_, ?_⟩
  · rw [hadvance, pageLogs_spec]
    rfl
  · rw [hadvance, pageLogs_spec]
    rfl

/-- A node that answers from the given chain. -/
def Provider.over (chain : Chain) : Provider := ⟨.ok 0, fun f => .ok (f.answer chain)⟩

/-- Every block of the chain holds one launch. -/
def launchEveryBlock : Chain := fun _ => [retractedLaunch]

theorem pageLoop_refines_single_query_pagesOfTwo :
    ∃ logs, (Provider.over launchEveryBlock).getLogs (pageFilter zoraOnly 1 5) = .ok logs ∧
      ∃ enough st, (∀ fuel, enough ≤ fuel →
          pageLoop zoraOnly (.over launchEveryBlock) ⟨1, some 5, 2, true⟩ 5 fuel 1 .start =
            some (.ok (), st)) ∧
        Partitions zoraOnly 1 5 st.requested ∧
        st.printed = (pageLogs zoraOnly true logs .start).2.printed ∧
        st.total = (pageLogs zoraOnly true logs .start).2.total := by
  obtain ⟨logs, hlogs, hpages⟩ := pageLoop_refines_single_query zoraOnly
    (.over launchEveryBlock) launchEveryBlock (fun _ _ => rfl) 1 5 (by decide)
  exact ⟨logs, hlogs, hpages ⟨1, some 5, 2, true⟩ (by decide) (by decide)⟩

/-- The command reaches the loop once the configuration is loaded and the range
is not empty. -/
theorem run_eq_pageLoop (setup : Setup) (provider : Provider) (args : Args) (fuel : Nat)
    (reg : FactoryRegistry) (toBlock : UInt64)
    (hsetup : setup.registry
      "backfill requires [rpc].http_url; ws-only providers don't expose getLogs efficiently" =
        .ok reg)
    (hlast : lastBlock provider args = .ok toBlock) (hrange : args.fromBlock ≤ toBlock) :
    run setup provider args fuel =
      pageLoop reg provider args toBlock fuel args.fromBlock .start := by
  have hnot : ¬ toBlock < args.fromBlock := by
    rw [UInt64.lt_iff_toNat_lt]
    rw [UInt64.le_iff_toNat_le] at hrange
    omega
  simp only [run, hsetup, hlast, if_neg hnot]

end ShadeIndexer.Bin.Backfill
