import Mathlib.Data.List.Induction
import Mathlib.Data.List.NodupEquivFin

/-!
Reading a log that is read in order, but from a committed position again after an
interruption. What comes a second time may come at any moment, and what comes for
the first time is ahead of everything before it.
-/

namespace ShadeIndexer.Lib.Redelivery

variable {α β : Type} [LinearOrder α] [LinearOrder β]

/-- Within a class, an element that is not ahead of what came before it is one
that has come before. -/
def Resuming (same : α → α → Prop) (l : List α) : Prop :=
  ∀ before i after, l = before ++ i :: after → ∀ j ∈ before, same j i → i ≤ j → i ∈ before

/-- Positions in a longer log keep their order. -/
theorem Resuming.map {same : α → α → Prop} {same' : β → β → Prop} {l : List α} {f : α → β}
    (h : Resuming same l) (hf : StrictMono f) (hsame : ∀ i j, same' (f i) (f j) → same i j) :
    Resuming same' (l.map f) := by
  intro before' i' after' hsplit j' hj' hclass hle
  obtain ⟨before, rest, rfl, rfl, hrest⟩ := List.map_eq_append_iff.mp hsplit
  obtain ⟨i, after, rfl, rfl, rfl⟩ := List.map_eq_cons_iff.mp hrest
  obtain ⟨j, hj, rfl⟩ := List.mem_map.mp hj'
  exact List.mem_map_of_mem
    (h before i after rfl j hj (hsame j i hclass) (hf.le_iff_le.mp hle))

/-- If nothing comes twice, everything comes in order. -/
theorem Resuming.pairwise {same : α → α → Prop} {l : List α} (h : Resuming same l)
    (hnodup : l.Nodup) : l.Pairwise fun i j => same i j → i < j := by
  induction l using List.reverseRecOn with
  | nil => exact .nil
  | append_singleton earlier i ih =>
      obtain ⟨hearlier, -, hapart⟩ := List.nodup_append.mp hnodup
      have hstart : Resuming same earlier := by
        intro before k after hsplit
        apply h before k (after ++ [i])
        rw [hsplit, List.append_assoc, List.cons_append]
      refine List.pairwise_append.mpr ⟨ih hstart hearlier, List.pairwise_singleton _ _, ?_⟩
      intro j hj k hk hclass
      obtain rfl := List.mem_singleton.mp hk
      by_contra hnot
      have hmem := h earlier k [] rfl j hj hclass (not_lt.mp hnot)
      exact hapart k hmem k (List.mem_singleton_self k) rfl

/-- Elements that are picked in order, as far as they satisfy `p`, are in order. -/
theorem filter_picked_sublist {γ : Type} (l : List γ) (p : γ → Bool)
    (picked : List (Fin l.length))
    (h : picked.Pairwise fun i j => p l[i] = true → p l[j] = true → i < j) :
    List.Sublist ((picked.map fun i => l[i]).filter p) l := by
  rw [List.filter_map]
  exact List.map_getElem_sublist (List.pairwise_filter.mpr h)

/-- Where the elements of a sublist are in the whole list. -/
theorem places_of_sublist {γ : Type} {part whole : List γ} (h : List.Sublist part whole) :
    ∃ place : Fin part.length → Fin whole.length,
      StrictMono place ∧ ∀ i, whole[place i] = part[i] := by
  obtain ⟨place, hplace⟩ := List.sublist_iff_exists_fin_orderEmbedding_get_eq.mp h
  exact ⟨place, place.strictMono, fun i => (hplace i).symm⟩

end ShadeIndexer.Lib.Redelivery
