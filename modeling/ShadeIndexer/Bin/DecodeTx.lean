import ShadeIndexer.Bin.Backfill

/-!
The decode-tx command, and the three loops over logs side by side: that of the
live subscriber, that of a backfill page and that of a transaction receipt.
-/

namespace ShadeIndexer.Bin.DecodeTx

open ShadeIndexer.Core Lib.Rust

structure Receipts where
  /-- `B256::from_str`. -/
  b256FromStr : String → Except CommandError B256
  getTransactionReceipt : B256 → Except CommandError (Option (List Log))

structure Output where
  printed : List Printed
  found : Int32
  errors : List String

def Output.start : Output := ⟨[], 0, []⟩

/-- The loop over the logs of a receipt. -/
def receiptLogs (reg : FactoryRegistry) :
    List Log → Output → Result CommandError Unit × Output
  | [], out => (.ok (), out)
  | log :: rest, out =>
    match log.topics.head? with
    | none => receiptLogs reg rest out
    | some topic0 =>
      match reg.matchLog log.address topic0 with
      | none => receiptLogs reg rest out
      | some launchpad =>
        match decodeDeploy launchpad log with
        | .ok deploy =>
          receiptLogs reg rest
            { out with printed := out.printed ++ [⟨.pretty, deploy⟩], found := out.found + 1 }
        | .error (.panic p) => (.error (.panic p), out)
        | .error (.error _) => receiptLogs reg rest out

/-- `get_transaction_receipt(hash).await.context(..)?.ok_or_else(..)?` -/
def receipt (receipts : Receipts) (txHash : String) : Except CommandError (List Log) := do
  let hash ← withContext "tx_hash" (receipts.b256FromStr txHash)
  match ← withContext "getTransactionReceipt" (receipts.getTransactionReceipt hash) with
  | some logs => pure logs
  | none => throw (.message ("tx not found: " ++ txHash))

def run (setup : Setup) (receipts : Receipts) (txHash : String) :
    Result CommandError Unit × Output :=
  match setup.registry "decode-tx requires [rpc].http_url for getTransactionReceipt" with
  | .error e => (.error (.error e), .start)
  | .ok reg =>
    match receipt receipts txHash with
    | .error e => (.error (.error e), .start)
    | .ok logs =>
      match receiptLogs reg logs .start with
      | (.error fault, out) => (.error fault, out)
      | (.ok (), out) =>
        if out.found = 0 then
          (.ok (), { out with errors := out.errors ++ ["no factory events found in " ++ txHash] })
        else (.ok (), out)

/-- What logs that announce the given deploys add to the output. -/
def Output.emit (out : Output) (deploys : List NormalizedDeploy) : Output :=
  { out with
    printed := out.printed ++ deploys.map (Printed.mk .pretty)
    found := out.found + Int32.ofNat deploys.length }

theorem Output.emit_emit (out : Output) (first second : List NormalizedDeploy) :
    (out.emit first).emit second = out.emit (first ++ second) := by
  simp [Output.emit, Int32.ofNat_add, Int32.add_assoc]

/-- One log adds the deploy that it announces, once, or nothing, and the loop
goes on with the next log. -/
theorem receiptLogs_cons (reg : FactoryRegistry) (log : Log) (rest : List Log) (out : Output) :
    receiptLogs reg (log :: rest) out =
      receiptLogs reg rest (out.emit (deployOf reg log).toList) := by
  rw [receiptLogs, deployOf]
  cases log.topics.head? with
  | none => simp [Output.emit]
  | some topic0 =>
      cases hroute : reg.matchLog log.address topic0 with
      | none => simp [hroute, Output.emit]
      | some launchpad =>
          rcases decodeDeploy_cases launchpad log with ⟨deploy, hdecode⟩ | ⟨e, hdecode⟩
          · simp [hroute, hdecode, Except.toOption, Output.emit]
          · simp [hroute, hdecode, Except.toOption, Output.emit]

theorem receiptLogs_spec (reg : FactoryRegistry) (logs : List Log) (out : Output) :
    receiptLogs reg logs out = (.ok (), out.emit (logs.filterMap (deployOf reg))) := by
  induction logs generalizing out with
  | nil => simp [receiptLogs, Output.emit]
  | cons log rest ih =>
      rw [receiptLogs_cons, ih, Output.emit_emit]
      cases hdeploy : deployOf reg log <;> simp [hdeploy]

/-- Live, backfill and single-transaction decoding agree on every list of logs.
All three loops reach its end, and each hands on exactly the deploys of the
logs that announce one, in order and once each: the subscriber to its channel,
the commands to standard output. A log that announces none changes nothing. -/
theorem loops_agree (reg : FactoryRegistry) (logs : List Log) :
    (streamLoop reg (logs.map .undisturbed) Sender.new =
      (.error (.error (.subscription "stream ended")),
        ⟨logs.filterMap (deployOf reg), false⟩)) ∧
      (∀ stdout, ∃ st, Backfill.pageLogs reg stdout logs .start = (.ok (), st) ∧
        st.total = UInt64.ofNat (logs.filterMap (deployOf reg)).length ∧
        (stdout = true → st.printed.map Printed.deploy = logs.filterMap (deployOf reg))) ∧
      (∃ out, receiptLogs reg logs .start = (.ok (), out) ∧
        out.printed.map Printed.deploy = logs.filterMap (deployOf reg)) ∧
      ∀ before log after, logs = before ++ log :: after → deployOf reg log = none →
        logs.filterMap (deployOf reg) = (before ++ after).filterMap (deployOf reg) := by
  refine ⟨?_, ?_, ?_, ?_⟩
  · have hdelivered := streamLoop_delivers reg logs []
    have hends := streamLoop_ends reg logs []
    rw [List.nil_append] at hdelivered
    exact Prod.ext hends hdelivered
  · intro stdout
    refine ⟨_, Backfill.pageLogs_spec reg stdout logs .start, ?_, ?_⟩
    · simp [Backfill.Progress.emit, Backfill.Progress.start]
    · rintro rfl
      simp [Backfill.Progress.emit, Backfill.Progress.start, Function.comp_def]
  · refine ⟨_, receiptLogs_spec reg logs .start, ?_⟩
    simp [Output.emit, Output.start, Function.comp_def]
  · rintro before log after rfl hnone
    simp [hnone]

end ShadeIndexer.Bin.DecodeTx
