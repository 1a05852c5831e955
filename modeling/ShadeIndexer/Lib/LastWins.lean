import Mathlib.Data.List.AList
import Mathlib.Data.List.Induction

/-!
Loading a list of items into a map, one insert for each. Of the items that
share a key the last one is kept, and a permutation of the list can bring any
of them to the end.
-/

namespace ShadeIndexer.Lib.LastWins

variable {σ κ β : Type} (key : σ → κ) (val : σ → β)

def load [DecidableEq κ] (items : List σ) : AList (fun _ : κ => β) :=
  items.foldl (fun m s => m.insert (key s) (val s)) ∅

/-- The item is listed, and no later one has its key. -/
def Kept (items : List σ) (s : σ) : Prop :=
  ∃ before after, items = before ++ s :: after ∧ ∀ t ∈ after, key t ≠ key s

variable {key val}

theorem Kept.mem {items : List σ} {s : σ} (h : Kept key items s) : s ∈ items := by
  obtain ⟨before, after, rfl, _⟩ := h
  simp

theorem kept_snoc (items : List σ) (s t : σ) :
    Kept key (items ++ [s]) t ↔ t = s ∨ (Kept key items t ∧ key s ≠ key t) := by
  constructor
  · rintro ⟨before, after, hsplit, hlater⟩
    rcases List.eq_nil_or_concat after with rfl | ⟨middle, last, rfl⟩
    · have hlast := (List.append_inj' hsplit rfl).2
      exact Or.inl (List.singleton_inj.mp hlast).symm
    · rw [List.concat_eq_append, ← List.cons_append, ← List.append_assoc] at hsplit
      obtain ⟨hitems, hlast⟩ := List.append_inj' hsplit rfl
      obtain rfl : s = last := by simpa using hlast
      refine Or.inr ⟨⟨before, middle, hitems, ?_⟩, ?_⟩
      · intro u hu
        exact hlater u (by simp [hu])
      · exact hlater s (by simp)
  · rintro (rfl | ⟨⟨before, after, rfl, hlater⟩, hkey⟩)
    · exact ⟨items, [], rfl, by simp⟩
    · refine ⟨before, after ++ [s], by simp, ?_⟩
      intro u hu
      rcases List.mem_append.mp hu with hafter | hlast
      · exact hlater u hafter
      · rw [List.mem_singleton.mp hlast]
        exact hkey

/-- Which items are kept depends on their keys only. -/
theorem kept_map {τ : Type} (f : τ → σ) (items : List τ) (s : σ) :
    Kept key (items.map f) s ↔ ∃ t, Kept (fun t => key (f t)) items t ∧ f t = s := by
  constructor
  · rintro ⟨before, after, hsplit, hlater⟩
    obtain ⟨first, rest, rfl, _, hrest⟩ := List.map_eq_append_iff.mp hsplit
    obtain ⟨t, last, rfl, rfl, rfl⟩ := List.map_eq_cons_iff.mp hrest
    exact ⟨t, ⟨first, last, rfl, fun u hu => hlater (f u) (List.mem_map_of_mem hu)⟩, rfl⟩
  · rintro ⟨t, ⟨before, after, rfl, hlater⟩, rfl⟩
    refine ⟨before.map f, after.map f, by simp, ?_⟩
    intro u hu
    obtain ⟨v, hv, rfl⟩ := List.mem_map.mp hu
    exact hlater v hv

/-- If every key has a preferred item, some order of the list keeps none but
preferred ones: that which lists them after all others. -/
theorem exists_perm_prefer (key : σ → κ) (items : List σ) (prefer : σ → Prop) [DecidablePred prefer]
    (h : ∀ s ∈ items, ∃ t ∈ items, key t = key s ∧ prefer t) :
    ∃ order : List σ, order.Perm items ∧ ∀ s, Kept key order s → prefer s := by
  have hperm : (items.filter (fun s => ¬ prefer s) ++ items.filter prefer).Perm items := by
    refine List.perm_append_comm.trans ?_
    simpa using List.filter_append_perm (fun s => decide (prefer s)) items
  refine ⟨_, hperm, ?_⟩
  intro s hkept
  obtain ⟨t, ht, hkey, hprefer⟩ := h s (hperm.mem_iff.mp hkept.mem)
  have hpreferred : t ∈ items.filter prefer := List.mem_filter.mpr ⟨ht, decide_eq_true hprefer⟩
  obtain ⟨before, after, hsplit, hlater⟩ := hkept
  rcases List.append_eq_append_iff.mp hsplit with ⟨middle, _, htail⟩ | ⟨middle, _, htail⟩
  · have hs : s ∈ items.filter prefer := by
      rw [htail]
      simp
    exact of_decide_eq_true (List.mem_filter.mp hs).2
  · cases middle with
    | nil =>
        have hs : s ∈ items.filter prefer := by
          rw [List.nil_append] at htail
          rw [← htail]
          exact List.mem_cons_self ..
        exact of_decide_eq_true (List.mem_filter.mp hs).2
    | cons head middle =>
        obtain ⟨rfl, hafter⟩ : s = head ∧ after = middle ++ items.filter prefer := by
          simpa using htail
        have hmem : t ∈ after := by
          rw [hafter]
          exact List.mem_append_right _ hpreferred
        exact absurd hkey (hlater t hmem)

variable [DecidableEq κ]

theorem load_snoc (items : List σ) (s : σ) :
    load key val (items ++ [s]) = (load key val items).insert (key s) (val s) := by
  simp [load]

/-- What the map holds under a key is the last item that was listed with it. -/
theorem lookup_load (items : List σ) (k : κ) (v : β) :
    (load key val items).lookup k = some v ↔
      ∃ s, Kept key items s ∧ key s = k ∧ val s = v := by
  induction items using List.reverseRecOn with
  | nil => simp [load, Kept]
  | append_singleton items s ih =>
      rw [load_snoc]
      by_cases hk : k = key s
      · subst hk
        rw [AList.lookup_insert, Option.some.injEq]
        constructor
        · rintro rfl
          exact ⟨s, (kept_snoc items s s).mpr (Or.inl rfl), rfl, rfl⟩
        · rintro ⟨t, hkept, hkey, rfl⟩
          rcases (kept_snoc items s t).mp hkept with rfl | ⟨_, hne⟩
          · rfl
          · exact absurd hkey.symm hne
      · rw [AList.lookup_insert_ne hk, ih]
        constructor
        · rintro ⟨t, hkept, rfl, rfl⟩
          exact ⟨t, (kept_snoc items s t).mpr (Or.inr ⟨hkept, Ne.symm hk⟩), rfl, rfl⟩
        · rintro ⟨t, hkept, rfl, rfl⟩
          rcases (kept_snoc items s t).mp hkept with rfl | ⟨hold, _⟩
          · exact absurd rfl hk
          · exact ⟨t, hold, rfl, rfl⟩

theorem mem_load (items : List σ) (k : κ) (v : β) :
    (⟨k, v⟩ : Sigma fun _ : κ => β) ∈ (load key val items).entries ↔
      ∃ s, Kept key items s ∧ key s = k ∧ val s = v := by
  rw [← lookup_load]
  exact AList.mem_lookup_iff.symm

theorem exists_kept (key : σ → κ) {items : List σ} {s : σ} (hs : s ∈ items) :
    ∃ t, Kept key items t ∧ key t = key s := by
  induction items using List.reverseRecOn with
  | nil => cases hs
  | append_singleton items last ih =>
      by_cases hkey : key last = key s
      · exact ⟨last, (kept_snoc items last last).mpr (Or.inl rfl), hkey⟩
      · rcases List.mem_append.mp hs with hold | hlast
        · obtain ⟨t, hkept, heq⟩ := ih hold
          exact ⟨t, (kept_snoc items last t).mpr (Or.inr ⟨hkept, heq ▸ hkey⟩), heq⟩
        · exact absurd (congrArg key (List.mem_singleton.mp hlast).symm) hkey

end ShadeIndexer.Lib.LastWins
