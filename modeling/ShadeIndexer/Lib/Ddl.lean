import Mathlib.Data.List.Basic
import Mathlib.Logic.Function.Basic

/-!
Scripts of SQL statements, some of which may be applied again: they create one
relation unless there is one of that name, or they replace a view. Names are
shared by tables, indexes and views. Any other statement may do anything to the
catalog. A script takes effect as a whole or not at all.
-/

namespace ShadeIndexer.Lib.Ddl

variable {ρ : Type}

inductive Relation (ρ : Type) where
  | table (rows : List ρ)
  | index (table : String)
  | view (columns : List String)

abbrev Catalog (ρ : Type) := String → Option (Relation ρ)

inductive DdlError where
  | undefinedTable (name : String)
  | wrongObjectType (name : String)
  /-- A new view query that drops, renames or reorders columns. -/
  | invalidTableDefinition (name : String)
  | syntaxError (message : String)
  | other (message : String)
  deriving DecidableEq, Repr

inductive Statement (ρ : Type) where
  /-- `CREATE TABLE IF NOT EXISTS`, with the tables that its columns refer to. -/
  | createTable (name : String) (references : List String)
  /-- `CREATE INDEX IF NOT EXISTS .. ON table` -/
  | createIndex (name table : String)
  /-- `CREATE OR REPLACE VIEW .. AS SELECT columns FROM sources` -/
  | createView (name : String) (columns sources : List String)
  | malformed (message : String)
  /-- Any other statement, with its effect. -/
  | other (effect : Catalog ρ → Except DdlError (Catalog ρ))

/-- The statement has one of the forms that may be applied again. -/
def Statement.Repeatable : Statement ρ → Prop
  | .other _ => False
  | _ => True

def Relation.isTable : Relation ρ → Bool
  | .table _ => true
  | _ => false

def Relation.isQueryable : Relation ρ → Bool
  | .index _ => false
  | _ => true

def Statement.target : Statement ρ → Option String
  | .createTable name _ => some name
  | .createIndex name _ => some name
  | .createView name _ _ => some name
  | .malformed _ => none
  | .other _ => none

/-- The catalog with one relation more, or with another one of that name. -/
def define (c : Catalog ρ) (name : String) (r : Relation ρ) : Catalog ρ :=
  Function.update c name (some r)

def exec : Statement ρ → Catalog ρ → Except DdlError (Catalog ρ)
  | .createTable name references, c =>
    match c name with
    | some _ => .ok c
    | none =>
      match references.find? fun other => !(c other).any Relation.isTable with
      | some missing => .error (.undefinedTable missing)
      | none => .ok (define c name (.table []))
  | .createIndex name table, c =>
    match c table with
    | none => .error (.undefinedTable table)
    | some relation =>
      if relation.isTable then
        match c name with
        | some _ => .ok c
        | none => .ok (define c name (.index table))
      else .error (.wrongObjectType table)
  | .createView name columns sources, c =>
    match sources.find? fun other => !(c other).any Relation.isQueryable with
    | some missing => .error (.undefinedTable missing)
    | none =>
      match c name with
      | none => .ok (define c name (.view columns))
      | some (.view old) =>
        if old <+: columns then .ok (define c name (.view columns))
        else .error (.invalidTableDefinition name)
      | some _ => .error (.wrongObjectType name)
  | .malformed message, _ => .error (.syntaxError message)
  | .other effect, c => effect c

def runScript : List (Statement ρ) → Catalog ρ → Except DdlError (Catalog ρ)
  | [], c => .ok c
  | statement :: rest, c =>
    match exec statement c with
    | .error e => .error e
    | .ok next => runScript rest next

/-- Everything is still there. Only views may have got more columns. -/
def Extends (c next : Catalog ρ) : Prop :=
  ∀ name r, c name = some r → next name = some r ∨
    ∃ old columns, r = .view old ∧ old <+: columns ∧ next name = some (.view columns)

theorem Extends.refl (c : Catalog ρ) : Extends c c := fun _ _ h => Or.inl h

theorem Extends.trans {c next last : Catalog ρ} (h : Extends c next) (h' : Extends next last) :
    Extends c last := by
  intro name r hr
  rcases h name r hr with hsame | ⟨old, columns, rfl, hgrown, hview⟩
  · exact h' name r hsame
  · rcases h' name _ hview with hsame | ⟨_, columns', heq, hgrown', hview'⟩
    · exact Or.inr ⟨old, columns, rfl, hgrown, hsame⟩
    · obtain rfl := Relation.view.inj heq
      exact Or.inr ⟨old, columns', rfl, hgrown.trans hgrown', hview'⟩

/-- A property of relations that a view keeps as it grows. -/
theorem Extends.any {c next : Catalog ρ} (h : Extends c next) (p : Relation ρ → Bool)
    (hview : ∀ old columns, p (.view old) = p (.view columns)) {name : String}
    (hname : (c name).any p = true) : (next name).any p = true := by
  cases hr : c name with
  | none =>
      rw [hr] at hname
      cases hname
  | some r =>
      rw [hr] at hname
      rcases h name r hr with hsame | ⟨old, columns, rfl, -, hgrown⟩
      · rw [hsame]
        exact hname
      · rw [hgrown]
        exact (hview columns old).trans hname

theorem extends_define {c : Catalog ρ} {name : String} {r : Relation ρ}
    (h : c name = none ∨ ∃ old columns, c name = some (.view old) ∧ old <+: columns ∧
      r = .view columns) : Extends c (define c name r) := by
  intro other held hheld
  rcases eq_or_ne other name with rfl | hne
  · rcases h with hnone | ⟨old, columns, hview, hgrown, rfl⟩
    · rw [hnone] at hheld
      cases hheld
    · rw [hview] at hheld
      exact Or.inr ⟨old, columns, (Option.some.inj hheld).symm, hgrown, Function.update_self ..⟩
  · exact Or.inl ((Function.update_of_ne hne ..).trans hheld)

/-- Everything that a successful statement can do. -/
inductive Executed (c : Catalog ρ) : Statement ρ → Catalog ρ → Prop where
  | tableExists {name : String} {references : List String} (hname : (c name).isSome = true) :
      Executed c (.createTable name references) c
  | tableCreated {name : String} {references : List String} (hname : c name = none) :
      Executed c (.createTable name references) (define c name (.table []))
  | indexExists {name table : String} (htable : (c table).any Relation.isTable = true)
      (hname : (c name).isSome = true) : Executed c (.createIndex name table) c
  | indexCreated {name table : String} (htable : (c table).any Relation.isTable = true)
      (hname : c name = none) :
      Executed c (.createIndex name table) (define c name (.index table))
  | viewDefined {name : String} {columns sources : List String}
      (hsources : ∀ other ∈ sources, (c other).any Relation.isQueryable = true)
      (hname : c name = none ∨ ∃ old, c name = some (.view old) ∧ old <+: columns) :
      Executed c (.createView name columns sources) (define c name (.view columns))
  | otherApplied {effect : Catalog ρ → Except DdlError (Catalog ρ)} {next : Catalog ρ}
      (heffect : effect c = .ok next) : Executed c (.other effect) next

theorem exec_spec {statement : Statement ρ} {c next : Catalog ρ} (h : exec statement c = .ok next) :
    Executed c statement next := by
  cases statement with
  | createTable name references =>
      simp only [exec] at h
      cases hname : c name with
      | some r =>
          simp only [hname, Except.ok.injEq] at h
          exact h ▸ .tableExists (by simp [hname])
      | none =>
          simp only [hname] at h
          split at h
          · cases h
          · exact Except.ok.inj h ▸ .tableCreated hname
  | createIndex name table =>
      simp only [exec] at h
      cases htable : c table with
      | none => simp [htable] at h
      | some relation =>
          cases hkind : relation.isTable with
          | false => simp [htable, hkind] at h
          | true =>
              have hany : (c table).any Relation.isTable = true := by simp [htable, hkind]
              cases hname : c name with
              | some r =>
                  simp only [htable, hkind, hname, if_true, Except.ok.injEq] at h
                  exact h ▸ .indexExists hany (by simp [hname])
              | none =>
                  simp only [htable, hkind, hname, if_true, Except.ok.injEq] at h
                  exact h ▸ .indexCreated hany hname
  | createView name columns sources =>
      simp only [exec] at h
      split at h
      · cases h
      · rename_i hsources
        have hall : ∀ other ∈ sources, (c other).any Relation.isQueryable = true := by
          intro other hother
          simpa using List.find?_eq_none.mp hsources other hother
        split at h
        · rename_i hname
          exact Except.ok.inj h ▸ .viewDefined hall (Or.inl hname)
        · rename_i old hname
          split at h
          · rename_i hgrown
            exact Except.ok.inj h ▸ .viewDefined hall (Or.inr ⟨old, hname, hgrown⟩)
          · cases h
        · cases h
  | malformed message => cases h
  | other effect => exact .otherApplied h

theorem Executed.extends {statement : Statement ρ} {c next : Catalog ρ}
    (h : Executed c statement next) (hrepeatable : statement.Repeatable) : Extends c next := by
  cases h with
  | tableExists | indexExists => exact .refl c
  | tableCreated hname => exact extends_define (Or.inl hname)
  | indexCreated htable hname => exact extends_define (Or.inl hname)
  | viewDefined hsources hname =>
      apply extends_define
      rcases hname with hnone | ⟨old, hview, hgrown⟩
      · exact Or.inl hnone
      · exact Or.inr ⟨old, _, hview, hgrown, rfl⟩
  | otherApplied heffect => exact hrepeatable.elim

/-- Nothing but the target is touched. -/
theorem Executed.frame {statement : Statement ρ} {c next : Catalog ρ}
    (h : Executed c statement next) (hrepeatable : statement.Repeatable) {other : String}
    (hother : statement.target ≠ some other) : next other = c other := by
  cases h with
  | tableExists | indexExists => rfl
  | tableCreated | indexCreated | viewDefined =>
      apply Function.update_of_ne
      rintro rfl
      exact hother rfl
  | otherApplied heffect => exact hrepeatable.elim

/-- The statement finds what it would create. -/
def Settled (c : Catalog ρ) : Statement ρ → Prop
  | .createTable name _ => (c name).isSome = true
  | .createIndex name table =>
      (c table).any Relation.isTable = true ∧ (c name).isSome = true
  | .createView name columns sources =>
      (∀ other ∈ sources, (c other).any Relation.isQueryable = true) ∧
        c name = some (.view columns)
  | .malformed _ => False
  | .other _ => False

theorem Settled.exec {statement : Statement ρ} {c : Catalog ρ} (h : Settled c statement) :
    exec statement c = .ok c := by
  cases statement with
  | createTable name references =>
      obtain ⟨r, hr⟩ := Option.isSome_iff_exists.mp h
      simp [Ddl.exec, hr]
  | createIndex name table =>
      obtain ⟨htable, hname⟩ := h
      obtain ⟨r, hr⟩ := Option.isSome_iff_exists.mp hname
      cases hrelation : c table with
      | none => simp [hrelation] at htable
      | some relation =>
          rw [hrelation] at htable
          have hkind : relation.isTable = true := htable
          simp [Ddl.exec, hrelation, hkind, hr]
  | createView name columns sources =>
      obtain ⟨hsources, hname⟩ := h
      have hfound : (sources.find? fun other => !(c other).any Relation.isQueryable) = none := by
        apply List.find?_eq_none.mpr
        intro other hother
        simp [hsources other hother]
      have hsame : define c name (.view columns) = c := by
        rw [define, ← hname]
        exact Function.update_eq_self name c
      simp only [Ddl.exec, hfound, hname, List.prefix_refl, if_true, hsame]
  | malformed message => exact h.elim
  | other effect => exact h.elim

theorem Executed.settled {statement : Statement ρ} {c next : Catalog ρ}
    (h : Executed c statement next) (hrepeatable : statement.Repeatable) :
    Settled next statement := by
  have hextends := h.extends hrepeatable
  cases h with
  | tableExists hname => exact hname
  | tableCreated hname => simp [Settled, define]
  | indexExists htable hname => exact ⟨htable, hname⟩
  | indexCreated htable hname =>
      exact ⟨hextends.any _ (fun _ _ => rfl) htable, by simp [define]⟩
  | viewDefined hsources hname =>
      exact ⟨fun other hother => hextends.any _ (fun _ _ => rfl) (hsources other hother),
        by simp [define]⟩
  | otherApplied heffect => exact hrepeatable.elim

/-- What a statement would create stays, unless another one has the same target. -/
theorem Settled.kept {statement other : Statement ρ} {c next : Catalog ρ} (h : Settled c statement)
    (hother : Executed c other next) (hrepeatable : other.Repeatable)
    (hne : statement.target ≠ other.target) : Settled next statement := by
  have hextends := hother.extends hrepeatable
  cases statement with
  | createTable name references =>
      rw [Settled, hother.frame hrepeatable hne.symm]
      exact h
  | createIndex name table =>
      refine ⟨hextends.any _ (fun _ _ => rfl) h.1, ?_⟩
      rw [hother.frame hrepeatable hne.symm]
      exact h.2
  | createView name columns sources =>
      refine ⟨fun source hsource => hextends.any _ (fun _ _ => rfl) (h.1 source hsource), ?_⟩
      rw [hother.frame hrepeatable hne.symm]
      exact h.2
  | malformed message => exact h.elim
  | other effect => exact h.elim

theorem runScript_cons {statement : Statement ρ} {rest : List (Statement ρ)} {c last : Catalog ρ}
    (h : runScript (statement :: rest) c = .ok last) :
    ∃ next, Executed c statement next ∧ runScript rest next = .ok last := by
  rw [runScript] at h
  cases hexec : exec statement c with
  | error e => simp [hexec] at h
  | ok next =>
      rw [hexec] at h
      exact ⟨next, exec_spec hexec, h⟩

theorem runScript_append (first last : List (Statement ρ)) (c : Catalog ρ) :
    runScript (first ++ last) c =
      match runScript first c with
      | .error e => .error e
      | .ok next => runScript last next := by
  induction first generalizing c with
  | nil => rfl
  | cons statement rest ih =>
      rw [List.cons_append, runScript, runScript]
      cases exec statement c with
      | error e => rfl
      | ok next => exact ih next

theorem runScript_extends {script : List (Statement ρ)} {c last : Catalog ρ}
    (hrepeatable : ∀ statement ∈ script, statement.Repeatable)
    (h : runScript script c = .ok last) : Extends c last := by
  induction script generalizing c with
  | nil =>
      obtain rfl := Except.ok.inj h
      exact .refl c
  | cons statement rest ih =>
      obtain ⟨hhead, hrest⟩ := List.forall_mem_cons.mp hrepeatable
      obtain ⟨next, hexec, hlater⟩ := runScript_cons h
      exact (hexec.extends hhead).trans (ih hrest hlater)

/-- A settled statement outlasts a script that has other targets. -/
theorem Settled.run {statement : Statement ρ} {script : List (Statement ρ)} {c last : Catalog ρ}
    (h : Settled c statement) (hrepeatable : ∀ other ∈ script, other.Repeatable)
    (hrun : runScript script c = .ok last)
    (hne : ∀ other ∈ script, statement.target ≠ other.target) : Settled last statement := by
  induction script generalizing c with
  | nil =>
      obtain rfl := Except.ok.inj hrun
      exact h
  | cons other rest ih =>
      obtain ⟨hhead, hlater⟩ := List.forall_mem_cons.mp hrepeatable
      obtain ⟨hneHead, hneRest⟩ := List.forall_mem_cons.mp hne
      obtain ⟨next, hexec, hrest⟩ := runScript_cons hrun
      exact ih (h.kept hexec hhead hneHead) hlater hrest hneRest

/-- A script of repeatable statements that have different targets leaves all of
them settled. -/
theorem runScript_settles {script : List (Statement ρ)} {c last : Catalog ρ}
    (hrepeatable : ∀ statement ∈ script, statement.Repeatable)
    (hdistinct : (script.map Statement.target).Nodup) (h : runScript script c = .ok last) :
    ∀ statement ∈ script, Settled last statement := by
  induction script generalizing c with
  | nil => simp
  | cons statement rest ih =>
      obtain ⟨hhead, hlater⟩ := List.forall_mem_cons.mp hrepeatable
      obtain ⟨next, hexec, hrest⟩ := runScript_cons h
      obtain ⟨hfresh, hdistinct⟩ := List.nodup_cons.mp hdistinct
      intro other hother
      rcases List.mem_cons.mp hother with rfl | hmem
      · apply (hexec.settled hhead).run hlater hrest
        intro a ha heq
        exact hfresh (heq ▸ List.mem_map_of_mem ha)
      · exact ih hlater hdistinct hrest other hmem

/-- So does any script of settled statements change nothing. -/
theorem runScript_settled {script : List (Statement ρ)} {c : Catalog ρ}
    (h : ∀ statement ∈ script, Settled c statement) : runScript script c = .ok c := by
  induction script with
  | nil => rfl
  | cons statement rest ih =>
      rw [runScript, (h statement (List.mem_cons_self ..)).exec]
      exact ih fun other hother => h other (List.mem_cons_of_mem _ hother)

end ShadeIndexer.Lib.Ddl
