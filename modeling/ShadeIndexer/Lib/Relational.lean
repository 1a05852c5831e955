import Mathlib.Data.List.Nodup

/-!
A database table with a unique key, as the list of its rows in insertion
order. `upsert` is an insert with a conflict clause: a row with a new key is
appended, and otherwise the clause says what the row that is already there
becomes. A clause may not change the key.
-/

namespace ShadeIndexer.Lib.Relational

variable {κ ρ β : Type} [DecidableEq κ]

structure ConflictClause (key : ρ → κ) where
  apply : ρ → ρ → ρ
  keeps_key : ∀ old excluded, key (apply old excluded) = key old

structure Table (key : ρ → κ) where
  rows : List ρ
  unique : (rows.map key).Nodup

def Table.empty (key : ρ → κ) : Table key := ⟨[], List.nodup_nil⟩

variable {key : ρ → κ}

def Table.find (t : Table key) (k : κ) : Option ρ := t.rows.find? fun row => key row = k

/-- The rows after an insert of `excluded` with the clause. -/
def upsertRows (clause : ConflictClause key) (excluded : ρ) : List ρ → List ρ
  | [] => [excluded]
  | row :: rest =>
    if key row = key excluded then clause.apply row excluded :: rest
    else row :: upsertRows clause excluded rest

/-- An attribute that the clause keeps is kept along all rows, and a row with a
new key adds its own at the end. -/
theorem map_upsertRows (clause : ConflictClause key) (excluded : ρ) (attr : ρ → β)
    (hkeep : ∀ old, attr (clause.apply old excluded) = attr old) (rows : List ρ) :
    (key excluded ∈ rows.map key ∧
        (upsertRows clause excluded rows).map attr = rows.map attr) ∨
      (key excluded ∉ rows.map key ∧
        (upsertRows clause excluded rows).map attr = rows.map attr ++ [attr excluded]) := by
  induction rows with
  | nil => exact Or.inr ⟨by simp, rfl⟩
  | cons row rest ih =>
      by_cases h : key row = key excluded
      · refine Or.inl ⟨by simp [h], ?_⟩
        simp [upsertRows, h, hkeep]
      · have hne : key excluded ≠ key row := Ne.symm h
        simp only [upsertRows, if_neg h, List.map_cons, List.mem_cons, hne, false_or]
        rcases ih with ⟨hmem, hmap⟩ | ⟨hnew, hmap⟩
        · exact Or.inl ⟨hmem, by rw [hmap]⟩
        · exact Or.inr ⟨hnew, by rw [hmap, List.cons_append]⟩

/-- Forgetting part of the rows, before an insert or after it, is the same if the
keys do not show that part and the clause keeps it out of the rest. -/
theorem upsertRows_map {ρ' : Type} {key' : ρ' → κ} (clause : ConflictClause key)
    (clause' : ConflictClause key') (f : ρ → ρ') (hkey : ∀ row, key' (f row) = key row)
    (happly : ∀ old excluded, f (clause.apply old excluded) = clause'.apply (f old) (f excluded))
    (excluded : ρ) (rows : List ρ) :
    (upsertRows clause excluded rows).map f = upsertRows clause' (f excluded) (rows.map f) := by
  induction rows with
  | nil => rfl
  | cons row rest ih =>
      rw [List.map_cons, upsertRows, upsertRows, hkey, hkey]
      split
      · rw [List.map_cons, happly]
      · rw [List.map_cons, ih]

theorem nodup_upsertRows (clause : ConflictClause key) (excluded : ρ) (rows : List ρ)
    (hunique : (rows.map key).Nodup) : ((upsertRows clause excluded rows).map key).Nodup := by
  rcases map_upsertRows clause excluded key (fun old => clause.keeps_key old excluded) rows with
    ⟨_, hmap⟩ | ⟨hnew, hmap⟩
  · rw [hmap]
    exact hunique
  · rw [hmap]
    refine hunique.append (List.nodup_singleton _) ?_
    intro k hk hk'
    rw [List.mem_singleton] at hk'
    exact hnew (hk' ▸ hk)

def Table.upsert (t : Table key) (clause : ConflictClause key) (excluded : ρ) : Table key :=
  ⟨upsertRows clause excluded t.rows, nodup_upsertRows clause excluded t.rows t.unique⟩

/-- What an insert makes of the row that had its key before it, if any. -/
def ConflictClause.absorb (clause : ConflictClause key) (existing : Option ρ) (excluded : ρ) : ρ :=
  existing.elim excluded fun old => clause.apply old excluded

theorem Table.find_key {t : Table key} {k : κ} {row : ρ} (h : t.find k = some row) :
    key row = k := by
  have hmatch := List.find?_some h
  exact of_decide_eq_true hmatch

theorem Table.mem_of_find {t : Table key} {k : κ} {row : ρ} (h : t.find k = some row) :
    row ∈ t.rows := List.mem_of_find?_eq_some h

/-- Keys are unique, so a row is found under its key. -/
theorem Table.find_of_mem {t : Table key} {row : ρ} (h : row ∈ t.rows) :
    t.find (key row) = some row := by
  obtain ⟨rows, hunique⟩ := t
  unfold Table.find
  dsimp only at h ⊢
  induction rows with
  | nil => cases h
  | cons head rest ih =>
      rw [List.map_cons, List.nodup_cons] at hunique
      rcases List.mem_cons.mp h with rfl | hrest
      · simp
      · have hne : key head ≠ key row := by
          intro heq
          exact hunique.1 (heq ▸ List.mem_map_of_mem hrest)
        rw [List.find?_cons_of_neg (by simpa using hne)]
        exact ih hunique.2 hrest

/-- Two rows with one key are one row. -/
theorem Table.eq_of_key_eq {t : Table key} {row other : ρ} (hrow : row ∈ t.rows)
    (hother : other ∈ t.rows) (h : key other = key row) : other = row := by
  have hfind := Table.find_of_mem hother
  rw [h, Table.find_of_mem hrow] at hfind
  exact (Option.some.inj hfind).symm

/-- An insert changes what is found under its own key and nothing else. -/
theorem Table.find_upsert (t : Table key) (clause : ConflictClause key) (excluded : ρ) (k : κ) :
    (t.upsert clause excluded).find k =
      if key excluded = k then some (clause.absorb (t.find k) excluded) else t.find k := by
  obtain ⟨rows, hunique⟩ := t
  unfold Table.find Table.upsert
  dsimp only
  clear hunique
  induction rows with
  | nil =>
      by_cases h : key excluded = k <;> simp [upsertRows, ConflictClause.absorb, h]
  | cons row rest ih =>
      by_cases hconflict : key row = key excluded
      · rw [upsertRows, if_pos hconflict]
        have hkey := clause.keeps_key row excluded
        by_cases h : key excluded = k
        · simp [ConflictClause.absorb, hkey, hconflict, h]
        · have hrow : key row ≠ k := fun heq => h (hconflict.symm.trans heq)
          simp [hkey, hrow, h]
      · rw [upsertRows, if_neg hconflict]
        by_cases hrow : key row = k
        · have hne : key excluded ≠ k := fun heq => hconflict (hrow.trans heq.symm)
          simp [hrow, hne]
        · rw [List.find?_cons_of_neg (by simpa using hrow), ih,
            List.find?_cons_of_neg (by simpa using hrow)]

theorem Table.find_isSome_iff {t : Table key} {k : κ} :
    (t.find k).isSome = true ↔ k ∈ t.rows.map key := by
  rw [Option.isSome_iff_exists, List.mem_map]
  constructor
  · rintro ⟨row, hfind⟩
    exact ⟨row, Table.mem_of_find hfind, Table.find_key hfind⟩
  · rintro ⟨row, hrow, rfl⟩
    exact ⟨row, Table.find_of_mem hrow⟩

/-- An insert keeps the keys and their order, and adds its own at most. -/
theorem Table.keys_upsert (t : Table key) (clause : ConflictClause key) (excluded : ρ) :
    t.rows.map key <+: (t.upsert clause excluded).rows.map key := by
  rcases map_upsertRows clause excluded key (fun old => clause.keeps_key old excluded) t.rows with
    ⟨_, hmap⟩ | ⟨_, hmap⟩
  · exact ⟨[], by rw [Table.upsert, hmap, List.append_nil]⟩
  · exact ⟨[key excluded], by rw [Table.upsert, hmap]⟩

/-- A table that has grown from another one and finds the same is the same. -/
theorem Table.eq_of_grown {t u : Table key} (hgrown : t.rows.map key <+: u.rows.map key)
    (hfind : ∀ k, u.find k = t.find k) : u = t := by
  have hkeys : u.rows.map key = t.rows.map key := by
    obtain ⟨more, hmore⟩ := hgrown
    cases more with
    | nil => rw [← hmore, List.append_nil]
    | cons k rest =>
        have hnew : k ∈ u.rows.map key := by
          rw [← hmore]
          simp
        have hold : k ∈ t.rows.map key := by
          rw [← Table.find_isSome_iff, ← hfind, Table.find_isSome_iff]
          exact hnew
        have hunique := u.unique
        rw [← hmore] at hunique
        exact absurd (List.mem_cons_self ..) (List.disjoint_of_nodup_append hunique hold)
  have hrows (t : Table key) : (t.rows.map key).filterMap t.find = t.rows := by
    rw [List.filterMap_map]
    calc t.rows.filterMap (t.find ∘ key) = t.rows.filterMap some :=
          List.filterMap_congr fun row hrow => Table.find_of_mem hrow
      _ = t.rows := List.filterMap_some
  have hsame : u.rows = t.rows := by
    rw [← hrows u, ← hrows t, hkeys]
    exact List.filterMap_congr fun k _ => hfind k
  obtain ⟨rows, hunique⟩ := t
  obtain ⟨rows', hunique'⟩ := u
  dsimp only at hsame
  subst hsame
  rfl

/-- The rows with a key are the one that is found, if there is one. -/
theorem Table.filter_key (t : Table key) (k : κ) :
    (t.rows.filter fun row => key row = k) = (t.find k).toList := by
  obtain ⟨rows, hunique⟩ := t
  unfold Table.find
  dsimp only
  induction rows with
  | nil => rfl
  | cons row rest ih =>
      rw [List.map_cons, List.nodup_cons] at hunique
      by_cases hrow : key row = k
      · have hnone : (rest.filter fun other => key other = k) = [] := by
          apply List.filter_eq_nil_iff.mpr
          intro other hother hkey
          have hsame : key other = key row := (of_decide_eq_true hkey).trans hrow.symm
          exact hunique.1 (hsame ▸ List.mem_map_of_mem hother)
        rw [List.filter_cons_of_pos (by simpa using hrow), hnone,
          List.find?_cons_of_pos (by simpa using hrow)]
        rfl
      · rw [List.filter_cons_of_neg (by simpa using hrow),
          List.find?_cons_of_neg (by simpa using hrow)]
        exact ih hunique.2

/-- `LEFT JOIN`: a row without a partner is joined with nulls. -/
def leftJoin {ρ' : Type} (left : List ρ) (right : List ρ') (on : ρ → ρ' → Bool) :
    List (ρ × Option ρ') :=
  left.flatMap fun row =>
    match right.filter (on row) with
    | [] => [(row, none)]
    | partners => partners.map fun partner => (row, some partner)

/-- A join on the key of the right table keeps every row of the left one, once. -/
theorem leftJoin_table {ρ' : Type} (left : List ρ') (t : Table key) (foreign : ρ' → κ) :
    leftJoin left t.rows (fun row partner => key partner = foreign row) =
      left.map fun row => (row, t.find (foreign row)) := by
  unfold leftJoin
  rw [List.map_eq_flatMap]
  congr 1
  funext row
  rw [t.filter_key]
  cases t.find (foreign row) <;> rfl

end ShadeIndexer.Lib.Relational
