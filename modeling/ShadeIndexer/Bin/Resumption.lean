import ShadeIndexer.Bin.Output
import ShadeIndexer.Lib.Digits

/-!
Backfills that fail. A node may refuse any query, and the command then ends with
an error that names the page. It has handled all pages before that one and
nothing of the page itself, so it can be started again there.
-/

namespace ShadeIndexer.Bin

open ShadeIndexer.Core FactoryRegistry Lib Lib.Json Lib.Rust Lib.Loop Lib.Paging

/-- Whenever the node answers a query that is not empty, it does so from the chain. -/
def Backfill.Provider.AnswersFrom (provider : Backfill.Provider) (chain : Backfill.Chain) : Prop :=
  ∀ (f : Backfill.Filter) (logs : List Log), f.fromBlock ≤ f.toBlock →
    provider.getLogs f = .ok logs → logs = f.answer chain

/-- The lines that the blocks from one to the other are worth. -/
def blockLines (reg : FactoryRegistry) (chain : Backfill.Chain) (fromBlock toBlock : UInt64) :
    List Printed :=
  ((blockLogs chain fromBlock toBlock).filterMap (deployOf reg)).map (Printed.mk .compact)

theorem toNat_next {stop toBlock : UInt64} (h : stop.toNat < toBlock.toNat) :
    (stop + 1).toNat = stop.toNat + 1 := by
  have hmax := toBlock.toNat_lt
  rw [UInt64.toNat_add, UInt64.toNat_one]
  omega

theorem blockLines_split (reg : FactoryRegistry) (chain : Backfill.Chain)
    {start stop toBlock : UInt64} (hstart : start ≤ stop) (hstop : stop < toBlock) :
    blockLines reg chain start toBlock =
      blockLines reg chain start stop ++ blockLines reg chain (stop + 1) toBlock := by
  rw [UInt64.le_iff_toNat_le] at hstart
  rw [UInt64.lt_iff_toNat_lt] at hstop
  have hnext := toNat_next hstop
  have hlogs : blockLogs chain start toBlock =
      blockLogs chain start stop ++ blockLogs chain (stop + 1) toBlock := by
    rw [blockLogs, blockLogs, blockLogs, hnext, Page.items_split hstart hstop,
      List.flatMap_append]
  rw [blockLines, hlogs, List.filterMap_append, List.map_append]
  rfl

theorem toList_pageContext (start stop : UInt64) :
    (Backfill.pageContext start stop).toList =
      "getLogs [".toList ++ (Nat.toDigits 10 start.toNat ++
        (", ".toList ++ (Nat.toDigits 10 stop.toNat ++ "]".toList))) := by
  have hdigits (n : UInt64) : (toString n).toList = Nat.toDigits 10 n.toNat :=
    String.toList_ofList
  simp only [Backfill.pageContext, String.toList_append, List.append_assoc, hdigits]

/-- The text of the error tells where the page starts. -/
theorem pageContext_start {start stop start' stop' : UInt64}
    (h : Backfill.pageContext start stop = Backfill.pageContext start' stop') :
    start = start' := by
  have hread (n : Nat) (rest : List Char) :
      (Nat.toDigits 10 n ++ (", ".toList ++ rest)).takeWhile Char.isDigit = Nat.toDigits 10 n := by
    rw [List.takeWhile_append_of_pos (Digits.isDigit_toDigits n)]
    simp
  have htext := congrArg String.toList h
  rw [toList_pageContext, toList_pageContext, List.append_cancel_left_eq] at htext
  have hdigits := congrArg (List.takeWhile Char.isDigit) htext
  rw [hread, hread] at hdigits
  exact UInt64.toNat.inj (Digits.toDigits_inj (by decide) (by decide) hdigits)

variable {parsers : TextParsers} {body : String} {reg : FactoryRegistry}
  {provider : Backfill.Provider} {chain : Backfill.Chain} {args : Backfill.Args}
  {toBlock : UInt64}

/-- A turn of the loop fails with the page that the node refuses, or it writes the
lines of the page and goes on behind it. -/
theorem pageLoop_turn (h : fromTomlStr parsers body = .ok reg)
    (hanswers : provider.AnswersFrom chain) (hstdout : args.stdout = true) {fuel : Nat}
    {start : UInt64} {st st' : Backfill.Progress} {result : Result CommandError Unit}
    (hstart : start ≤ toBlock) (hpage : start ≤ min (start + args.pageSize - 1) toBlock)
    (hrun : Backfill.pageLoop reg provider args toBlock (fuel + 1) start st =
      some (result, st')) :
    (∃ cause, result = .error (.error (.context
        (Backfill.pageContext start (min (start + args.pageSize - 1) toBlock)) cause)) ∧
      st'.printed = st.printed) ∨
    ∃ next, Backfill.pageLoop reg provider args toBlock fuel
        (min (start + args.pageSize - 1) toBlock + 1) next = some (result, st') ∧
      next.printed =
        st.printed ++ blockLines reg chain start (min (start + args.pageSize - 1) toBlock) := by
  cases hlogs : provider.getLogs
      (Backfill.pageFilter reg start (min (start + args.pageSize - 1) toBlock)) with
  | error cause =>
      rw [Backfill.pageLoop, iterate_inl (Backfill.pageIteration_refused hstart hlogs st)] at hrun
      obtain ⟨rfl, rfl⟩ := Prod.mk.inj (Option.some.inj hrun)
      exact Or.inl ⟨cause, rfl, rfl⟩
  | ok logs =>
      rw [Backfill.pageLoop, iterate_inr (Backfill.pageIteration_answered hstart hlogs st)] at hrun
      refine Or.inr ⟨_, hrun, ?_⟩
      rw [hanswers _ logs hpage hlogs, answer_announces h, hstdout]
      rfl

/-- The loop writes the lines of all blocks, or those up to the page that its
error names. -/
theorem pageLoop_prints_until (h : fromTomlStr parsers body = .ok reg)
    (hanswers : provider.AnswersFrom chain) (hstdout : args.stdout = true)
    (hsize : 1 ≤ args.pageSize.toNat)
    (hroom : toBlock.toNat + args.pageSize.toNat ≤ 2 ^ 64 - 1) (fuel : Nat)
    {start : UInt64} {st st' : Backfill.Progress} {result : Result CommandError Unit}
    (hstart : start ≤ toBlock)
    (hrun : Backfill.pageLoop reg provider args toBlock fuel start st = some (result, st')) :
    (result = .ok () ∧ st'.printed = st.printed ++ blockLines reg chain start toBlock) ∨
      ∃ next stop cause, start ≤ next ∧ next ≤ toBlock ∧
        result = .error (.error (.context (Backfill.pageContext next stop) cause)) ∧
        st'.printed ++ blockLines reg chain next toBlock =
          st.printed ++ blockLines reg chain start toBlock := by
  induction fuel generalizing start st with
  | zero => cases hrun
  | succ fuel ih =>
      have hle := UInt64.le_iff_toNat_le.mp hstart
      have hstop := Backfill.stop_toNat start args.pageSize toBlock (by omega) (by omega)
      have hpage : start ≤ min (start + args.pageSize - 1) toBlock := by
        rw [UInt64.le_iff_toNat_le]
        omega
      have hturn := pageLoop_turn h hanswers hstdout hstart hpage hrun
      generalize min (start + args.pageSize - 1) toBlock = stop at hstop hpage hturn
      rcases hturn with ⟨cause, hresult, hprinted⟩ | ⟨next, hnext, hprinted⟩
      · refine Or.inr ⟨start, stop, cause, UInt64.le_refl start, hstart, hresult, ?_⟩
        rw [hprinted]
      · rcases (show stop.toNat ≤ toBlock.toNat by omega).eq_or_lt with hlast | hmore
        · -- Behind the last page the loop has nothing left to do.
          obtain rfl := UInt64.toNat.inj hlast
          have hover : ¬ stop + 1 ≤ stop := by
            rw [UInt64.le_iff_toNat_le, UInt64.toNat_add]
            simp
            omega
          cases fuel with
          | zero => cases hnext
          | succ fuel =>
              rw [Backfill.pageLoop, iterate_inl (Backfill.pageIteration_over hover _)] at hnext
              obtain ⟨rfl, rfl⟩ := Prod.mk.inj (Option.some.inj hnext)
              exact Or.inl ⟨rfl, hprinted⟩
        · have hadd := toNat_next hmore
          have hahead : stop + 1 ≤ toBlock := by
            rw [UInt64.le_iff_toNat_le]
            omega
          have hsplit := blockLines_split reg chain hpage (UInt64.lt_iff_toNat_lt.mpr hmore)
          rw [hsplit, ← List.append_assoc, ← hprinted]
          rcases ih hahead hnext with hdone | ⟨refused, stop', cause, hfrom, hto, hresult, hrest⟩
          · exact Or.inl hdone
          · refine Or.inr ⟨refused, stop', cause, ?_, hto, hresult, hrest⟩
            rw [UInt64.le_iff_toNat_le] at hfrom hpage ⊢
            omega

/-- The arguments of a backfill that ends at the block and writes to standard
output, in pages that leave room in a `u64`. -/
structure Backfill.Args.Through (args : Backfill.Args) (toBlock : UInt64) : Prop where
  ends : args.toBlock = some toBlock
  stdout : args.stdout = true
  size : 1 ≤ args.pageSize.toNat
  room : toBlock.toNat + args.pageSize.toNat ≤ 2 ^ 64 - 1

/-- What a backfill has written that is started again at the page of its error, as
often as it fails. Each time another node may answer, and the pages may have
another size. -/
inductive Restarted (setup : Setup) (chain : Backfill.Chain) (toBlock : UInt64) :
    UInt64 → List Printed → Prop where
  | completed (provider : Backfill.Provider) (args : Backfill.Args) (fuel : Nat)
      (st : Backfill.Progress) (hanswers : provider.AnswersFrom chain)
      (hargs : args.Through toBlock)
      (hrun : Backfill.run setup provider args fuel = some (.ok (), st)) :
      Restarted setup chain toBlock args.fromBlock st.printed
  | failed (provider : Backfill.Provider) (args : Backfill.Args) (fuel : Nat)
      (st : Backfill.Progress) (next stop : UInt64) (cause : CommandError)
      (rest : List Printed) (hanswers : provider.AnswersFrom chain) (hargs : args.Through toBlock)
      (hrun : Backfill.run setup provider args fuel =
        some (.error (.error (.context (Backfill.pageContext next stop) cause)), st))
      (hrest : Restarted setup chain toBlock next rest) :
      Restarted setup chain toBlock args.fromBlock (st.printed ++ rest)

/-- A run of the command that gets past the range check is the loop. -/
theorem run_through {setup : Setup} (hsetup : setup.registry
      "backfill requires [rpc].http_url; ws-only providers don't expose getLogs efficiently" =
        .ok reg)
    (hargs : args.Through toBlock) {fuel : Nat} {result : Result CommandError Unit}
    {st : Backfill.Progress} (hrun : Backfill.run setup provider args fuel = some (result, st)) :
    (∃ text, result = .error (.error (.message text))) ∨
      (args.fromBlock ≤ toBlock ∧
        Backfill.pageLoop reg provider args toBlock fuel args.fromBlock .start =
          some (result, st)) := by
  have hlast : Backfill.lastBlock provider args = .ok toBlock := by
    rw [Backfill.lastBlock, hargs.ends]
  by_cases hrange : args.fromBlock ≤ toBlock
  · rw [Backfill.run_eq_pageLoop setup provider args fuel reg toBlock hsetup hlast hrange] at hrun
    exact Or.inr ⟨hrange, hrun⟩
  · rw [Backfill.run, hsetup] at hrun
    dsimp only at hrun
    rw [hlast] at hrun
    dsimp only at hrun
    rw [if_pos (UInt64.not_le.mp hrange)] at hrun
    obtain ⟨rfl, -⟩ := Prod.mk.inj (Option.some.inj hrun)
    exact Or.inl ⟨_, rfl⟩

/-- The runs together write the lines of all blocks. -/
theorem Restarted.printed_eq (h : fromTomlStr parsers body = .ok reg) {setup : Setup}
    (hsetup : setup.registry
      "backfill requires [rpc].http_url; ws-only providers don't expose getLogs efficiently" =
        .ok reg)
    {fromBlock : UInt64} {printed : List Printed}
    (hruns : Restarted setup chain toBlock fromBlock printed) :
    fromBlock ≤ toBlock ∧ printed = blockLines reg chain fromBlock toBlock := by
  induction hruns with
  | completed provider args fuel st hanswers hargs hrun =>
      rcases run_through hsetup hargs hrun with ⟨text, hmessage⟩ | ⟨hrange, hloop⟩
      · cases hmessage
      · refine ⟨hrange, ?_⟩
        rcases pageLoop_prints_until h hanswers hargs.stdout hargs.size hargs.room fuel hrange
          hloop with ⟨-, hprinted⟩ | ⟨next, stop, cause, -, -, hresult, -⟩
        · exact hprinted
        · cases hresult
  | failed provider args fuel st next stop cause rest hanswers hargs hrun hrest ih =>
      rcases run_through hsetup hargs hrun with ⟨text, hmessage⟩ | ⟨hrange, hloop⟩
      · cases hmessage
      · refine ⟨hrange, ?_⟩
        rcases pageLoop_prints_until h hanswers hargs.stdout hargs.size hargs.room fuel hrange
          hloop with ⟨hresult, -⟩ | ⟨refused, stop', cause', -, -, hresult, hprinted⟩
        · cases hresult
        · have hcontext : Backfill.pageContext next stop = Backfill.pageContext refused stop' := by
            injection hresult with hfault
            injection hfault with herror
            injection herror
          rw [ih.2, pageContext_start hcontext]
          exact hprinted

/-- A backfill may fail as often as it likes. If it is always started again at
the page that its error names, the outputs one behind the other are the text that
a backfill writes which never fails, whatever the sizes of the pages: the deploys
that the logs of the range announce, in chain order and each once. -/
theorem restarted_backfill_is_complete (parsers : TextParsers) (body : String)
    (reg : FactoryRegistry) (h : fromTomlStr parsers body = .ok reg) (setup : Setup)
    (hsetup : setup.registry
      "backfill requires [rpc].http_url; ws-only providers don't expose getLogs efficiently" =
        .ok reg)
    (chain : Backfill.Chain) (fromBlock toBlock : UInt64) (printed : List Printed)
    (hruns : Restarted setup chain toBlock fromBlock printed) :
    readLines (fun q : ℚ => q) (stdoutText printed) =
        some (((blockLogs chain fromBlock toBlock).filterMap (deployOf reg)).map jsonOf) ∧
      ∀ (provider : Backfill.Provider) (args : Backfill.Args), provider.Serves chain →
        args.Through toBlock → args.fromBlock = fromBlock →
          ∃ enough st, (∀ fuel, enough ≤ fuel →
              Backfill.run setup provider args fuel = some (.ok (), st)) ∧
            stdoutText st.printed = stdoutText printed := by
  obtain ⟨hrange, rfl⟩ := hruns.printed_eq h hsetup
  constructor
  · exact readLines_stdoutText fun d hd => decoded_of_mem hd
  · intro provider args hserves hargs hfrom
    subst hfrom
    have hlast : Backfill.lastBlock provider args = .ok toBlock := by
      rw [Backfill.lastBlock, hargs.ends]
    obtain ⟨enough, st, hloop, hprinted, -⟩ :=
      pageLoop_prints h hserves hrange hargs.stdout hargs.size hargs.room
    refine ⟨enough, st, ?_, congrArg stdoutText hprinted⟩
    intro fuel hfuel
    rw [Backfill.run_eq_pageLoop setup provider args fuel reg toBlock hsetup hlast hrange]
    exact hloop fuel hfuel

def placeholderSetup : Setup where
  load := .ok { Config.shipped with rpc.httpUrl := some "http://localhost:8545" }
  parseUrl := fun _ => .ok ()
  fromTomlPath := fun _ =>
    .ok (placeholderRegistry (.repeatByte 32 0x22) (.repeatByte 32 0x33))

/-- A node that refuses the page at block 3. -/
def refusesThird : Backfill.Provider where
  getBlockNumber := .ok 5
  getLogs := fun f =>
    if f.fromBlock = 3 then .error (.external "timeout") else .ok (f.answer mixedChain)

theorem refusesThird_answersFrom : refusesThird.AnswersFrom mixedChain := by
  intro f logs _ hlogs
  unfold refusesThird at hlogs
  dsimp only at hlogs
  split at hlogs
  · cases hlogs
  · exact (Except.ok.inj hlogs).symm

/-- Pages of two blocks up to the refused one, then the rest in one page. -/
theorem restarted_backfill_is_complete_refusedPage :
    ∃ printed, Restarted placeholderSetup mixedChain 5 1 printed ∧
      readLines (fun q : ℚ => q) (stdoutText printed) =
        some (((blockLogs mixedChain 1 5).filterMap
          (deployOf (placeholderRegistry (.repeatByte 32 0x22) (.repeatByte 32 0x33)))).map
            jsonOf) := by
  have hanswers : (Backfill.Provider.over mixedChain).AnswersFrom mixedChain :=
    fun _ _ _ hlogs => (Except.ok.inj hlogs).symm
  have hrest : Restarted placeholderSetup mixedChain 5 3 _ :=
    .completed (.over mixedChain) ⟨3, some 5, 5, true⟩ 2 _ hanswers
      ⟨rfl, rfl, by decide, by decide⟩ rfl
  have hruns : Restarted placeholderSetup mixedChain 5 1 _ :=
    .failed refusesThird ⟨1, some 5, 2, true⟩ 2 _ 3 4 (.external "timeout") _
      refusesThird_answersFrom ⟨rfl, rfl, by decide, by decide⟩ rfl hrest
  obtain ⟨hread, -⟩ := restarted_backfill_is_complete
    (placeholderParsers twosTopic threesTopic) (placeholderToml twosTopic threesTopic)
    (placeholderRegistry (.repeatByte 32 0x22) (.repeatByte 32 0x33))
    (placeholders_accepted _ _ _ _ twos_spelled threes_spelled) placeholderSetup rfl
    mixedChain 1 5 _ hruns
  exact ⟨_, hruns, hread⟩

end ShadeIndexer.Bin
