import Mathlib.Algebra.BigOperators.Group.Finset.Basic
import Mathlib.Data.List.AList

/-!
A map of accumulators: every key starts at zero, and an update adds to the
value of one key. Over any commutative group the value of a key after a
sequence of updates is the sum of the amounts that were added to it.
-/

namespace ShadeIndexer.Lib.Accumulator

variable {κ G : Type} [DecidableEq κ] [AddCommGroup G]

abbrev Totals (κ G : Type) := AList (fun _ : κ => G)

def value (m : Totals κ G) (k : κ) : G := (m.lookup k).getD 0

/-- `*m.entry(k).or_default() += amount` -/
def credit (m : Totals κ G) (k : κ) (amount : G) : Totals κ G :=
  m.insert k (value m k + amount)

/-- `*m.entry(k).or_default() -= amount` -/
def debit (m : Totals κ G) (k : κ) (amount : G) : Totals κ G :=
  m.insert k (value m k - amount)

def values (m : Totals κ G) : List G := m.entries.map fun entry => entry.2

theorem debit_eq_credit (m : Totals κ G) (k : κ) (amount : G) :
    debit m k amount = credit m k (-amount) := by
  rw [debit, credit, sub_eq_add_neg]

theorem value_credit (m : Totals κ G) (k j : κ) (amount : G) :
    value (credit m k amount) j = value m j + if j = k then amount else 0 := by
  by_cases h : j = k
  · subst h
    simp [value, credit]
  · simp [value, credit, AList.lookup_insert_ne h, h]

theorem value_debit (m : Totals κ G) (k j : κ) (amount : G) :
    value (debit m k amount) j = value m j - if j = k then amount else 0 := by
  rw [debit_eq_credit, value_credit]
  by_cases h : j = k <;> simp [h, sub_eq_add_neg]

theorem value_of_mem (m : Totals κ G) (k : κ) (g : G) (h : (⟨k, g⟩ : Sigma _) ∈ m.entries) :
    value m k = g := by
  have hlookup : m.lookup k = some g := AList.mem_lookup_iff.mpr h
  simp [value, hlookup]

/-- A key outside the map holds zero. -/
theorem mem_keys_of_value (m : Totals κ G) {p : G → Prop} (hzero : ¬ p 0) {k : κ}
    (hp : p (value m k)) : k ∈ m.keys.toFinset := by
  rw [List.mem_toFinset]
  by_contra hout
  have hnone : m.lookup k = none := AList.lookup_eq_none.mpr hout
  exact hzero (by simpa [value, hnone] using hp)

/-- The values that satisfy a predicate, as a multiset: a key outside the map
holds zero, so any finite set of keys that covers the predicate gives the
same multiset. -/
theorem values_filter_eq (m : Totals κ G) (p : G → Prop) [DecidablePred p]
    (hzero : ¬ p 0) (keys : Finset κ) (hcover : ∀ k, p (value m k) → k ∈ keys) :
    (((values m).filter fun g => p g : List G) : Multiset G) =
      (keys.filter fun k => p (value m k)).val.map (value m) := by
  have hvalues : values m = m.keys.map (value m) := by
    simp only [values, AList.keys, List.keys, List.map_map]
    apply List.map_congr_left
    rintro ⟨k, g⟩ hmem
    exact (value_of_mem m k g hmem).symm
  have hkeys : m.keys.toFinset.filter (fun k => p (value m k)) =
      keys.filter fun k => p (value m k) := by
    ext k
    rw [Finset.mem_filter, Finset.mem_filter]
    constructor
    · rintro ⟨_, hp⟩
      exact ⟨hcover k hp, hp⟩
    · rintro ⟨_, hp⟩
      exact ⟨mem_keys_of_value m hzero hp, hp⟩
  have hnodup : m.keys.Nodup := m.keys_nodup
  rw [hvalues, ← hkeys, Finset.filter_val, List.toFinset_val, hnodup.dedup, List.filter_map]
  rfl

/-- Two maps with the same value for every key list the same values, up to
order, apart from those that a key without an entry would have. -/
theorem values_filter_perm {m m' : Totals κ G} (p : G → Prop) [DecidablePred p] (hzero : ¬ p 0)
    (h : ∀ k, value m k = value m' k) :
    ((values m).filter fun g => p g).Perm ((values m').filter fun g => p g) := by
  have hcover : ∀ k, p (value m k) → k ∈ m.keys.toFinset := fun k hp =>
    mem_keys_of_value m hzero hp
  have hsame : value m = value m' := funext h
  rw [← Multiset.coe_eq_coe, values_filter_eq m p hzero _ hcover,
    values_filter_eq m' p hzero m.keys.toFinset (by rwa [← hsame]), hsame]

end ShadeIndexer.Lib.Accumulator
