import ShadeIndexer.Enrich.PanicFreedom

/-!
Which pool the probe of the fee tiers finds. Each step of the source is meant
to be best-effort. A short answer and the zero address are passed over, but a
failed call ends the search, and a tier behind it is never asked.
-/

namespace ShadeIndexer.Enrich

open ShadeIndexer.Core Lib.Rust

namespace RpcEnrichmentSource

/-- The probe of the tier succeeds, and its answer begins with a word that holds
the address of a pool. -/
def PoolAt (src : RpcEnrichmentSource) (token : Address) (fee : Nat) (pool : Address) : Prop :=
  ∃ (word : B256) (rest : Bytes),
    src.ethCall UNI_V3_FACTORY_BASE (.getPool token WETH_BASE fee) = some (word.bytes ++ rest) ∧
      Address.fromWord word = pool ∧ pool ≠ Address.ZERO

/-- The search returns the pool of the first tier that has one, and `None` only
if no tier has one. -/
structure BestEffort (src : RpcEnrichmentSource) (token : Address) : Prop where
  found : ∀ pool, src.findUniV3Pool token = .ok (some pool) ↔
    ∃ before fee after, feeTiers = before ++ fee :: after ∧ src.PoolAt token fee pool ∧
      ∀ tier ∈ before, ∀ other, ¬ src.PoolAt token tier other
  missing : src.findUniV3Pool token = .ok none ↔
    ∀ fee ∈ feeTiers, ∀ pool, ¬ src.PoolAt token fee pool

/-- The tiers before the first one whose probe fails. -/
def answeredTiers (src : RpcEnrichmentSource) (token : Address) : List Nat :=
  feeTiers.takeWhile fun fee =>
    (src.ethCall UNI_V3_FACTORY_BASE (.getPool token WETH_BASE fee)).isSome

/-- No failed probe stands between the search and its pool. -/
def NoPoolHidden (src : RpcEnrichmentSource) (token : Address) : Prop :=
  (∃ fee ∈ src.answeredTiers token, ∃ pool, src.PoolAt token fee pool) ∨
    ∀ fee ∈ feeTiers, ∀ pool, ¬ src.PoolAt token fee pool

theorem poolIn_eq_some_iff (raw : Bytes) (pool : Address) :
    poolIn raw = some pool ↔ ∃ (word : B256) (rest : Bytes), raw = word.bytes ++ rest ∧
      Address.fromWord word = pool ∧ pool ≠ Address.ZERO := by
  constructor
  · intro h
    unfold poolIn at h
    by_cases hlength : 32 ≤ raw.length
    · rw [dif_pos hlength] at h
      dsimp only at h
      split at h
      · rename_i hnonzero
        obtain rfl := Option.some.inj h
        exact ⟨⟨raw.take 32, by simp [hlength]⟩, raw.drop 32, (List.take_append_drop 32 raw).symm,
          rfl, hnonzero⟩
      · cases h
    · rw [dif_neg hlength] at h
      cases h
  · rintro ⟨word, rest, rfl, rfl, hnonzero⟩
    have hlength : 32 ≤ (word.bytes ++ rest).length := by
      rw [List.length_append, word.size]
      omega
    have htake : (word.bytes ++ rest).take 32 = word.bytes := List.take_left' word.size
    unfold poolIn
    rw [dif_pos hlength]
    simp only [htake]
    exact if_pos hnonzero

variable (src : RpcEnrichmentSource) (token : Address)

/-- The pool of a tier, if it has one. -/
def tierPool (fee : Nat) : Option Address := (src.poolAnswer token fee).bind poolIn

theorem tierPool_eq_some_iff (fee : Nat) (pool : Address) :
    src.tierPool token fee = some pool ↔ src.PoolAt token fee pool := by
  rw [tierPool, Option.bind_eq_some_iff, PoolAt]
  simp only [poolIn_eq_some_iff]
  constructor
  · rintro ⟨raw, hraw, word, rest, rfl, hpool⟩
    exact ⟨word, rest, hraw, hpool⟩
  · rintro ⟨word, rest, hraw, hpool⟩
    exact ⟨_, hraw, word, rest, rfl, hpool⟩

theorem tierPool_eq_none_iff (fee : Nat) :
    src.tierPool token fee = none ↔ ∀ pool, ¬ src.PoolAt token fee pool := by
  simp only [← tierPool_eq_some_iff, Option.eq_none_iff_forall_ne_some, ne_eq]

/-- The code searches the tiers before the first failure, and no other. -/
theorem firstPool_eq_takeWhile (tiers : List Nat) :
    firstPool (src.poolAnswer token) tiers =
      (tiers.takeWhile fun fee => (src.poolAnswer token fee).isSome).findSome?
        (src.tierPool token) := by
  induction tiers with
  | nil => rfl
  | cons fee rest ih =>
      rw [firstPool, List.takeWhile_cons]
      cases hanswer : src.poolAnswer token fee with
      | none => rfl
      | some raw =>
          have htier : src.tierPool token fee = poolIn raw := by
            rw [tierPool, hanswer, Option.bind_some]
          rw [Option.isSome_some, if_pos rfl, List.findSome?_cons, htier]
          dsimp only
          cases hpool : poolIn raw with
          | none => exact ih
          | some pool => rfl

theorem findUniV3Pool_eq_answered :
    src.findUniV3Pool token =
      .ok ((src.answeredTiers token).findSome? (src.tierPool token)) := by
  rw [findUniV3Pool_eq, firstPool_eq_takeWhile]
  rfl

/-- Searching every tier, whether or not an earlier probe failed. -/
theorem bestEffort_iff_findSome :
    src.BestEffort token ↔
      src.findUniV3Pool token = .ok (feeTiers.findSome? (src.tierPool token)) := by
  have hfound := fun pool => @List.findSome?_eq_some_iff _ _ (src.tierPool token) feeTiers pool
  have hmissing := @List.findSome?_eq_none_iff _ _ (src.tierPool token) feeTiers
  simp only [tierPool_eq_some_iff, tierPool_eq_none_iff] at hfound hmissing
  constructor
  · intro h
    cases hall : feeTiers.findSome? (src.tierPool token) with
    | none => exact h.missing.mpr (hmissing.mp hall)
    | some pool => exact (h.found pool).mpr ((hfound pool).mp hall)
  · intro h
    refine ⟨?_, ?_⟩
    · intro pool
      rw [h, ← hfound pool, Except.ok.injEq]
    · rw [h, ← hmissing, Except.ok.injEq]

/-- The search is best-effort exactly if a tier before the first failed probe
has a pool, or no tier has one. -/
theorem bestEffort_iff_noPoolHidden : src.BestEffort token ↔ src.NoPoolHidden token := by
  have hsplit : feeTiers.findSome? (src.tierPool token) =
      ((src.answeredTiers token).findSome? (src.tierPool token)).or
        ((feeTiers.dropWhile fun fee => (src.poolAnswer token fee).isSome).findSome?
          (src.tierPool token)) := by
    rw [← List.findSome?_append]
    exact congrArg _ List.takeWhile_append_dropWhile.symm
  have hhidden : src.NoPoolHidden token ↔
      (∃ fee ∈ src.answeredTiers token, ∃ pool, src.tierPool token fee = some pool) ∨
        ∀ fee ∈ feeTiers, src.tierPool token fee = none := by
    simp only [NoPoolHidden, tierPool_eq_some_iff, tierPool_eq_none_iff]
  rw [bestEffort_iff_findSome, findUniV3Pool_eq_answered, Except.ok.injEq, hhidden]
  cases hanswered : (src.answeredTiers token).findSome? (src.tierPool token) with
  | some pool =>
      obtain ⟨fee, hfee, hpool⟩ := List.exists_of_findSome?_eq_some hanswered
      rw [hsplit, hanswered, Option.some_or]
      exact iff_of_true rfl (Or.inl ⟨fee, hfee, pool, hpool⟩)
  | none =>
      rw [eq_comm, List.findSome?_eq_none_iff]
      constructor
      · exact Or.inr
      · rintro (⟨fee, hfee, pool, hpool⟩ | hnone)
        · rw [List.findSome?_eq_none_iff.mp hanswered fee hfee] at hpool
          cases hpool
        · exact hnone

/-- A factory that refuses the probe of the first tier and names a pool at every
other. -/
def refusesFirstTier : RpcEnrichmentSource where
  provider :=
    { getCodeAt := fun _ => none
      call := fun _ data =>
        if data = .getPool (.repeatByte 20 0x11) WETH_BASE 500 then none
        else some (Address.intoWord (.repeatByte 20 0x33)).bytes
      getLogs := fun _ => none }
  cfg := .default
  signatures := .builtin

/-- The failed probe of the first tier hides the pool at the second. -/
theorem failed_probe_hides_pool :
    ¬ refusesFirstTier.BestEffort (.repeatByte 20 0x11) := by
  intro h
  have hnone := h.missing.mp rfl 3000 (by decide) (.repeatByte 20 0x33)
  exact hnone ⟨Address.intoWord (.repeatByte 20 0x33), [], by decide, by decide, by decide⟩

end RpcEnrichmentSource

end ShadeIndexer.Enrich
