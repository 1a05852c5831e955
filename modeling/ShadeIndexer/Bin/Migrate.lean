import Mathlib.Data.List.Lex
import Mathlib.Data.List.Sort
import ShadeIndexer.Bin.Commands
import ShadeIndexer.Bin.Config
import ShadeIndexer.Core.Payload
import ShadeIndexer.Lib.Ddl

/-!
The migrate command. It applies the `.sql` files of a directory in the order of
their names and stops at the first error. A file may hold any SQL, and its text
runs in one transaction, as long as it does not end that transaction itself. The
statements of the shipped schema can be applied again.
-/

namespace ShadeIndexer.Bin.Migrate

open ShadeIndexer.Core (utf8 utf8_injective)
open Lib.Ddl

variable {ρ : Type}

/-- A file of the directory. Its text is given as the statements that the server
reads in it. -/
structure DirEntry (ρ : Type) where
  name : String
  readToString : Except CommandError (List (Statement ρ))

structure Env (ρ : Type) where
  load : Except CommandError Config.AppConfig
  connect : String → Except CommandError Unit
  /-- The entries in the order of the file system, or their errors. -/
  readDir : String → Except CommandError (List (Except CommandError (DirEntry ρ)))

/-- `Path::extension`: what follows the last dot, unless nothing is before it. -/
def extension (name : List Char) : Option (List Char) :=
  if name = ['.', '.'] then none
  else
    match name.reverse.dropWhile (· ≠ '.') with
    | [] => none
    | [_] => none
    | _ => some (name.reverse.takeWhile (· ≠ '.')).reverse

def DirEntry.isSql (entry : DirEntry ρ) : Bool := extension entry.name.toList = some ['s', 'q', 'l']

/-- The files have one parent, so their paths compare as the bytes of their
names do. -/
def DirEntry.path (entry : DirEntry ρ) : List Nat := (utf8 entry.name).map UInt8.toNat

/-- `entries.sort_by_key(|e| e.path())` -/
def sortByPath (entries : List (DirEntry ρ)) : List (DirEntry ρ) :=
  entries.mergeSort fun a b => a.path ≤ b.path

/-- The `.filter_map(|r| r.ok()).filter(..)` and the sort. -/
def selected (entries : List (Except CommandError (DirEntry ρ))) : List (DirEntry ρ) :=
  sortByPath ((entries.filterMap Except.toOption).filter DirEntry.isSql)

/-- `Path::join` of a directory and a name, as it is displayed. -/
def join (dir name : String) : String :=
  if dir.isEmpty || dir.back = '/' then dir ++ name else dir ++ "/" ++ name

/-- The text of an error of the server is left out. -/
def dbError : DdlError → CommandError := fun _ => .external ""

/-- The loop over the files. -/
def applyAll (dir : String) : List (DirEntry ρ) → Catalog ρ → Except CommandError Unit × Catalog ρ
  | [], db => (.ok (), db)
  | entry :: rest, db =>
    match withContext ("read " ++ join dir entry.name) entry.readToString with
    | .error e => (.error e, db)
    | .ok sql =>
      match withContext ("apply " ++ join dir entry.name) ((runScript sql db).mapError dbError) with
      | .error e => (.error e, db)
      | .ok db => applyAll dir rest db

def run (env : Env ρ) (dir : String) (db : Catalog ρ) : Except CommandError Unit × Catalog ρ :=
  match env.load with
  | .error e => (.error e, db)
  | .ok cfg =>
    match withContext "postgres connect" (env.connect cfg.postgres.url) with
    | .error e => (.error e, db)
    | .ok () =>
      match withContext ("read_dir " ++ dir) (env.readDir dir) with
      | .error e => (.error e, db)
      | .ok entries => applyAll dir (selected entries) db

theorem path_injective {a b : DirEntry ρ} (h : a.path = b.path) : a.name = b.name := by
  have hbytes : utf8 a.name = utf8 b.name :=
    List.map_injective_iff.mpr (fun _ _ h => UInt8.toNat_inj.mp h) h
  exact utf8_injective hbytes

/-- Files with different names are sorted in one way. -/
theorem sortByPath_perm {entries entries' : List (DirEntry ρ)} (hperm : entries.Perm entries')
    (hdistinct : ∀ a ∈ entries, ∀ b ∈ entries, a.name = b.name → a = b) :
    sortByPath entries = sortByPath entries' := by
  have hsorted (l : List (DirEntry ρ)) :
      (sortByPath l).Pairwise fun a b => decide (a.path ≤ b.path) = true := by
    apply List.pairwise_mergeSort
    · intro a b c hab hbc
      exact decide_eq_true ((of_decide_eq_true hab).trans (of_decide_eq_true hbc))
    · intro a b
      rcases le_total a.path b.path with hle | hle <;> simp [hle]
  apply List.Perm.eq_of_pairwise _ (hsorted entries) (hsorted entries')
  · exact (List.mergeSort_perm _ _).trans (hperm.trans (List.mergeSort_perm _ _).symm)
  · intro a b ha hb hab hba
    have hsame := le_antisymm (of_decide_eq_true hab) (of_decide_eq_true hba)
    apply hdistinct a ((List.mergeSort_perm _ _).mem_iff.mp ha) b
    · exact hperm.mem_iff.mpr ((List.mergeSort_perm _ _).mem_iff.mp hb)
    · exact path_injective hsame

/-- No two files that can be listed have one name. -/
def DistinctNames (entries : List (Except CommandError (DirEntry ρ))) : Prop :=
  ∀ a b, .ok a ∈ entries → .ok b ∈ entries → a.name = b.name → a = b

theorem listed_of_mem {entries : List (Except CommandError (DirEntry ρ))} {a : DirEntry ρ}
    (h : a ∈ (entries.filterMap Except.toOption).filter DirEntry.isSql) : .ok a ∈ entries := by
  obtain ⟨entry, hentry, hok⟩ := List.mem_filterMap.mp (List.mem_of_mem_filter h)
  cases entry with
  | error e => cases hok
  | ok b =>
      obtain rfl := Option.some.inj hok
      exact hentry

theorem selected_perm {entries entries' : List (Except CommandError (DirEntry ρ))}
    (hperm : entries.Perm entries') (hdistinct : DistinctNames entries) :
    selected entries = selected entries' := by
  apply sortByPath_perm ((hperm.filterMap _).filter _)
  intro a ha b hb
  exact hdistinct a b (listed_of_mem ha) (listed_of_mem hb)

/-- The statements of the files, one file after the other. -/
def scriptOf (files : List (DirEntry ρ)) : List (Statement ρ) :=
  files.flatMap fun entry => entry.readToString.toOption.getD []

theorem mapError_eq_ok {α ε ε' : Type} {f : ε → ε'} {x : Except ε α} {a : α} :
    x.mapError f = .ok a ↔ x = .ok a := by
  cases x <;> simp [Except.mapError]

theorem applyAll_cons {dir : String} {entry : DirEntry ρ} {rest : List (DirEntry ρ)}
    {db : Catalog ρ} (h : (applyAll dir (entry :: rest) db).1 = .ok ()) :
    ∃ sql next, entry.readToString = .ok sql ∧ runScript sql db = .ok next ∧
      applyAll dir (entry :: rest) db = applyAll dir rest next := by
  rw [applyAll] at h ⊢
  split at h
  · cases h
  · rename_i sql hread
    split at h
    · cases h
    · rename_i next hscript
      exact ⟨sql, next, mapError_eq_ok.mp hread, mapError_eq_ok.mp (mapError_eq_ok.mp hscript),
        rfl⟩

/-- A run that succeeds has read every file and run the statements of all. -/
theorem applyAll_ok {dir : String} {files : List (DirEntry ρ)} {db : Catalog ρ}
    (h : (applyAll dir files db).1 = .ok ()) :
    (∀ entry ∈ files, ∃ sql, entry.readToString = .ok sql) ∧
      runScript (scriptOf files) db = .ok (applyAll dir files db).2 := by
  induction files generalizing db with
  | nil => exact ⟨by simp, rfl⟩
  | cons entry rest ih =>
      obtain ⟨sql, next, hread, hscript, hrest⟩ := applyAll_cons h
      rw [hrest] at h ⊢
      obtain ⟨hall, hrun⟩ := ih h
      constructor
      · intro other hother
        rcases List.mem_cons.mp hother with rfl | hlater
        · exact ⟨sql, hread⟩
        · exact hall other hlater
      · have hfirst : entry.readToString.toOption.getD [] = sql := by rw [hread]; rfl
        rw [scriptOf, List.flatMap_cons, hfirst, runScript_append, hscript]
        exact hrun

/-- Whatever fails, every relation that was there is still there. -/
theorem applyAll_extends (dir : String) {files : List (DirEntry ρ)}
    (hrepeatable : ∀ statement ∈ scriptOf files, statement.Repeatable) (db : Catalog ρ) :
    Extends db (applyAll dir files db).2 := by
  induction files generalizing db with
  | nil => exact .refl db
  | cons entry rest ih =>
      rw [scriptOf, List.flatMap_cons] at hrepeatable
      obtain ⟨hentry, hrest⟩ := List.forall_mem_append.mp hrepeatable
      rw [applyAll]
      split
      · exact .refl db
      · rename_i sql hread
        have hsql : entry.readToString.toOption.getD [] = sql := by
          rw [mapError_eq_ok.mp hread]
          rfl
        rw [hsql] at hentry
        split
        · exact .refl db
        · rename_i next hscript
          have hrun := mapError_eq_ok.mp (mapError_eq_ok.mp hscript)
          exact (runScript_extends hentry hrun).trans (ih hrest next)

/-- Files whose statements are settled change nothing. -/
theorem applyAll_settled {dir : String} {files : List (DirEntry ρ)} {db : Catalog ρ}
    (hread : ∀ entry ∈ files, ∃ sql, entry.readToString = .ok sql)
    (hsettled : ∀ statement ∈ scriptOf files, Settled db statement) :
    applyAll dir files db = (.ok (), db) := by
  induction files with
  | nil => rfl
  | cons entry rest ih =>
      obtain ⟨sql, hsql⟩ := hread entry (List.mem_cons_self ..)
      have hscript : scriptOf (entry :: rest) = sql ++ scriptOf rest := by
        rw [scriptOf, List.flatMap_cons, hsql]
        rfl
      rw [hscript] at hsettled
      have hrun : runScript sql db = .ok db :=
        runScript_settled fun statement h => hsettled statement (List.mem_append_left _ h)
      simp only [applyAll, hsql, hrun, withContext, Except.mapError]
      exact ih (fun other h => hread other (List.mem_cons_of_mem _ h))
        fun statement h => hsettled statement (List.mem_append_right _ h)

/-- The same command, with the directory listed in another order. -/
def Env.relisted (env : Env ρ) (entries : List (Except CommandError (DirEntry ρ))) : Env ρ :=
  { env with readDir := fun _ => .ok entries }

theorem run_listed {env : Env ρ} {dir : String} {entries : List (Except CommandError (DirEntry ρ))}
    (hdir : env.readDir dir = .ok entries) (db : Catalog ρ) :
    run env dir db =
      match env.load with
      | .error e => (.error e, db)
      | .ok cfg =>
        match withContext "postgres connect" (env.connect cfg.postgres.url) with
        | .error e => (.error e, db)
        | .ok () => applyAll dir (selected entries) db := by
  simp only [run, hdir, withContext, Except.mapError]

/-- `migrate` can be run again. The order in which the file system lists the
directory does not matter. If every statement of the files has one of the forms
that may be applied again, then whatever fails, no relation is lost and no table
loses a row, and after a run that succeeds, a second one succeeds and changes
nothing, if no two statements of the files define the same name. -/
theorem run_repeatable (env : Env ρ) (dir : String) (db : Catalog ρ)
    (entries relisted : List (Except CommandError (DirEntry ρ)))
    (hdir : env.readDir dir = .ok entries) (hperm : entries.Perm relisted)
    (hdistinct : DistinctNames entries) :
    run (env.relisted relisted) dir db = run env dir db ∧
      ((∀ statement ∈ scriptOf (selected entries), statement.Repeatable) →
        Extends db (run env dir db).2 ∧
          ((run env dir db).1 = .ok () →
            ((scriptOf (selected entries)).map Statement.target).Nodup →
              run (env.relisted relisted) dir (run env dir db).2 =
                (.ok (), (run env dir db).2))) := by
  have hagain (db : Catalog ρ) : run (env.relisted relisted) dir db = run env dir db := by
    have hrelisted : (env.relisted relisted).readDir dir = .ok relisted := rfl
    rw [run_listed hdir db, run_listed hrelisted db, selected_perm hperm hdistinct]
    rfl
  refine ⟨hagain db, fun hrepeatable => ?_⟩
  rw [hagain, run_listed hdir, run_listed hdir]
  cases hload : env.load with
  | error e => exact ⟨.refl db, fun h => by cases h⟩
  | ok cfg =>
      dsimp only
      cases hconnect : withContext "postgres connect" (env.connect cfg.postgres.url) with
      | error e => exact ⟨.refl db, fun h => by cases h⟩
      | ok _ =>
          refine ⟨applyAll_extends dir hrepeatable db, ?_⟩
          intro hok hnames
          obtain ⟨hread, hrun⟩ := applyAll_ok hok
          exact applyAll_settled hread (runScript_settles hrepeatable hnames hrun)

/-- `0001_init.sql` -/
def init : List (Statement Unit) :=
  [.createTable "deploys" [],
    .createIndex "deploys_deployer_time" "deploys",
    .createIndex "deploys_launchpad_time" "deploys",
    .createTable "deploy_enrichment" ["deploys"],
    .createView "v_deploys_enriched"
      ["id", "launchpad", "token_hex", "deployer_hex", "block_number", "block_timestamp",
        "tx_hash_hex", "top10_share", "gini", "hhi", "liq_to_fdv_ratio", "liq_locked",
        "bytecode_flags", "enriched_at"]
      ["deploys", "deploy_enrichment"]]

/-- The directory that the repository ships. -/
def shipped : List (Except CommandError (DirEntry Unit)) := [.ok ⟨"0001_init.sql", .ok init⟩]

def shippedEnv : Env Unit where
  load := .ok Config.shipped
  connect := fun _ => .ok ()
  readDir := fun _ => .ok shipped

theorem selected_shipped : selected shipped = [⟨"0001_init.sql", .ok init⟩] := by
  have hsql : DirEntry.isSql ⟨"0001_init.sql", .ok init⟩ = true := by decide
  simp [selected, shipped, sortByPath, Except.toOption, hsql]

theorem shipped_distinct : DistinctNames shipped := by
  intro a b ha hb _
  simp only [shipped, List.mem_singleton, Except.ok.injEq] at ha hb
  rw [ha, hb]

theorem shipped_repeatable : ∀ statement ∈ scriptOf [⟨"0001_init.sql", .ok init⟩],
    statement.Repeatable := by
  simp [scriptOf, Except.toOption, init, Statement.Repeatable]

/-- The first run on an empty database, and the second. -/
theorem run_repeatable_shipped :
    ∃ db, run shippedEnv "migrations" (fun _ => none) = (.ok (), db) ∧
      run (shippedEnv.relisted shipped) "migrations" db = (.ok (), db) := by
  obtain ⟨db, hrun⟩ : ∃ db, run shippedEnv "migrations" (fun _ => none) = (.ok (), db) := by
    have hdir : shippedEnv.readDir "migrations" = .ok shipped := rfl
    rw [run_listed hdir, selected_shipped]
    exact ⟨_, rfl⟩
  obtain ⟨-, hrepeatable⟩ := run_repeatable shippedEnv "migrations" (fun _ => none) shipped shipped
    rfl (.refl _) shipped_distinct
  rw [hrun, selected_shipped] at hrepeatable
  obtain ⟨-, hagain⟩ := hrepeatable shipped_repeatable
  exact ⟨db, hrun, hagain rfl (by decide)⟩

end ShadeIndexer.Bin.Migrate
