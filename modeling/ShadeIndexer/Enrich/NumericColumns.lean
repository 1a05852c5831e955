import ShadeIndexer.Enrich.Isolation

/-!
The `NUMERIC` columns of an enrichment. The store clamps each value to a
precision and a scale, and the migration declares the column with a precision
and a scale of its own. A write overflows no column while the two agree.
-/

namespace ShadeIndexer.Enrich

open ShadeIndexer.Core Lib Lib.Relational

/-- `NUMERIC(precision, scale)` -/
structure NumericType where
  precision : Nat
  scale : Nat
  deriving DecidableEq

structure EnrichmentTypes where
  top10Share : NumericType
  gini : NumericType
  hhi : NumericType
  liqToFdvRatio : NumericType
  deriving DecidableEq

/-- The arguments of `clamp_decimal` in `write_enrichment`. -/
def clampTypes : EnrichmentTypes := ⟨⟨6, 4⟩, ⟨6, 4⟩, ⟨8, 4⟩, ⟨10, 6⟩⟩

/-- The columns of `deploy_enrichment` in the migration. -/
def columnTypes : EnrichmentTypes := ⟨⟨6, 4⟩, ⟨6, 4⟩, ⟨8, 4⟩, ⟨10, 6⟩⟩

theorem clampTypes_eq_columnTypes : clampTypes = columnTypes := rfl

/-- A value on its way into a column: clamped to one type and assigned to
another. -/
def storeNumeric (value : F64) (clamped column : NumericType) : Except SqlxError ℚ :=
  toNumeric (clampDecimal value clamped.precision clamped.scale) column.precision column.scale

def rowOfTypes (clamped columns : EnrichmentTypes) (deployId : Nat) (e : Enrichment)
    (now : DateTime) : Except SqlxError EnrichmentRow := do
  let top10Share ← storeNumeric e.top10Share clamped.top10Share columns.top10Share
  let gini ← storeNumeric e.gini clamped.gini columns.gini
  let hhi ← storeNumeric e.hhi clamped.hhi columns.hhi
  let liqToFdvRatio ← storeNumeric e.liqToFdvRatio clamped.liqToFdvRatio columns.liqToFdvRatio
  pure { deployId, top10Share, gini, hhi, liqToFdvRatio, liqLocked := e.liqLocked
         bytecodeFlags := e.bytecodeFlags, enrichedAt := now }

/-- The row that a write builds, with the types of both files as they are. -/
theorem enrichmentRow_eq_rowOfTypes (deployId : Nat) (e : Enrichment) (now : DateTime) :
    enrichmentRow deployId e now = rowOfTypes clampTypes columnTypes deployId e now := rfl

theorem storeNumeric_self (value : F64) (column : NumericType) :
    storeNumeric value column column = .ok (numericOf value column.precision column.scale) :=
  toNumeric_clampDecimal value column.precision column.scale

/-- Whatever the types are, a value clamped to the type of its column fits. -/
theorem rowOfTypes_self (types : EnrichmentTypes) (deployId : Nat) (e : Enrichment)
    (now : DateTime) : ∃ row, rowOfTypes types types deployId e now = .ok row := by
  unfold rowOfTypes
  simp only [storeNumeric_self]
  exact ⟨_, rfl⟩

/-- The values just above the largest decimal of a column are clamped to it
before they are rounded, so that none rounds up to an overflow. -/
theorem abs_numericOf_lt (value : F64) (precision scale : Nat) :
    |numericOf value precision scale| < 10 ^ (precision - scale) := by
  have hstored := toNumeric_clampDecimal value precision scale
  unfold toNumeric at hstored
  dsimp only at hstored
  split at hstored
  · rename_i hfits
    exact hfits
  · cases hstored

theorem clampDecimal_of_abs_le (q : ℚ) (precision scale : Nat)
    (h : |q| ≤ 10 ^ (precision - scale) - 1 / 10 ^ scale) :
    clampDecimal (.finite q) precision scale = q := by
  obtain ⟨hlow, hhigh⟩ := abs_le.mp h
  unfold clampDecimal
  dsimp only
  rw [min_eq_right hhigh, max_eq_right hlow]

theorem clampDecimal_mono (q r : ℚ) (precision scale : Nat) (h : q ≤ r) :
    clampDecimal (.finite q) precision scale ≤ clampDecimal (.finite r) precision scale := by
  unfold clampDecimal
  dsimp only
  exact max_le_max_left _ (min_le_min_left _ h)

/-- Only a fault of the connection can report an overflow. -/
theorem writeEnrichment_ne_numericOverflow (deployId : Nat) (e : Enrichment) (call : WriteCall)
    (db : Database) (hfault : call.fault ≠ some .numericOverflow) :
    (writeEnrichment deployId e call db).1 ≠ .error (.sqlx .numericOverflow) := by
  unfold writeEnrichment
  cases hcall : call.fault with
  | some err =>
      intro h
      simp only [Except.error.injEq, StoreError.sqlx.injEq] at h
      exact hfault (hcall.trans (congrArg some h))
  | none =>
      obtain ⟨row, hrow⟩ := rowOfTypes_self columnTypes deployId e call.now
      rw [enrichmentRow_eq_rowOfTypes, clampTypes_eq_columnTypes, hrow]
      dsimp only
      split
      · intro h
        cases h
      · intro h
        cases h

/-- Stored metrics always fit their columns. -/
theorem stored_metrics_fit :
    (∀ (value : F64) (precision scale : Nat), scale < precision →
      |roundDecimals (clampDecimal value precision scale) scale| < 10 ^ (precision - scale)) ∧
    (∀ (q : ℚ) (precision scale : Nat), scale < precision →
      |q| ≤ 10 ^ (precision - scale) - 1 / 10 ^ scale →
        clampDecimal (.finite q) precision scale = q) ∧
    (∀ (q r : ℚ) (precision scale : Nat), scale < precision → q ≤ r →
      clampDecimal (.finite q) precision scale ≤ clampDecimal (.finite r) precision scale) ∧
    clampTypes = columnTypes ∧
    ∀ (deployId : Nat) (e : Enrichment) (call : WriteCall) (db : Database),
      call.fault ≠ some .numericOverflow →
        (writeEnrichment deployId e call db).1 ≠ .error (.sqlx .numericOverflow) := by
  refine ⟨?_, ?_, ?_, clampTypes_eq_columnTypes, writeEnrichment_ne_numericOverflow⟩
  · intro value precision scale _
    exact abs_numericOf_lt value precision scale
  · intro q precision scale _ h
    exact clampDecimal_of_abs_le q precision scale h
  · intro q r precision scale _ h
    exact clampDecimal_mono q r precision scale h

theorem stored_metrics_fit_top10Share :
    |roundDecimals (clampDecimal (.inf false) 6 4) 4| < 10 ^ 2 ∧
      clampDecimal (.finite (999999 / 10000)) 6 4 = 999999 / 10000 ∧
      clampDecimal (.finite 99) 6 4 ≤ clampDecimal (.finite 100) 6 4 ∧
      (writeEnrichment 1 ⟨.finite 100, .nan, .inf true, .finite 1, true, 0⟩ ⟨0, none⟩ .empty).1 ≠
        .error (.sqlx .numericOverflow) :=
  ⟨stored_metrics_fit.1 (.inf false) 6 4 (by norm_num),
    stored_metrics_fit.2.1 (999999 / 10000) 6 4 (by norm_num) (by norm_num [abs_of_pos]),
    stored_metrics_fit.2.2.1 99 100 6 4 (by norm_num) (by norm_num),
    stored_metrics_fit.2.2.2.2 1 ⟨.finite 100, .nan, .inf true, .finite 1, true, 0⟩ ⟨0, none⟩
      .empty (by decide)⟩

end ShadeIndexer.Enrich
