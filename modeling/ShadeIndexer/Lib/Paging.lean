import Mathlib.Data.List.Range

/-!
Cutting an interval of natural numbers into pages. Both ends of a page belong
to it. `Tiles lo hi pages` says that the pages follow one another from `lo`
through `hi` without a gap and without an overlap.
-/

namespace ShadeIndexer.Lib.Paging

structure Page where
  first : Nat
  last : Nat
  deriving DecidableEq, Repr

/-- Everything on the page, in ascending order. -/
def Page.items (p : Page) : List Nat := List.range' p.first (p.last + 1 - p.first)

inductive Tiles : Nat → Nat → List Page → Prop where
  | last (lo hi : Nat) (h : lo ≤ hi) : Tiles lo hi [⟨lo, hi⟩]
  | step (lo mid hi : Nat) (rest : List Page) (h : lo ≤ mid) (hrest : Tiles (mid + 1) hi rest) :
      Tiles lo hi (⟨lo, mid⟩ :: rest)

variable {lo hi : Nat} {pages : List Page}

theorem Page.mem_items (p : Page) (h : p.first ≤ p.last) (n : Nat) :
    n ∈ p.items ↔ p.first ≤ n ∧ n ≤ p.last := by
  rw [Page.items, List.mem_range'_1]
  omega

theorem Tiles.le (h : Tiles lo hi pages) : lo ≤ hi := by
  induction h with
  | last lo hi h => exact h
  | step lo mid hi rest h hrest ih => omega

theorem Tiles.nonempty (h : Tiles lo hi pages) : ∀ p ∈ pages, p.first ≤ p.last := by
  induction h with
  | last lo hi h =>
      intro p hp
      rw [List.mem_singleton.mp hp]
      exact h
  | step lo mid hi rest h hrest ih =>
      intro p hp
      rcases List.mem_cons.mp hp with rfl | hp
      · exact h
      · exact ih p hp

theorem Tiles.within (h : Tiles lo hi pages) : ∀ p ∈ pages, lo ≤ p.first ∧ p.last ≤ hi := by
  induction h with
  | last lo hi h =>
      intro p hp
      rw [List.mem_singleton.mp hp]
      exact ⟨le_refl _, le_refl _⟩
  | step lo mid hi rest h hrest ih =>
      have hle := hrest.le
      intro p hp
      rcases List.mem_cons.mp hp with rfl | hp
      · exact ⟨le_refl _, by dsimp only; omega⟩
      · have hp := ih p hp
        omega

/-- A page ends before any later one begins, so no two pages share an item. -/
theorem Tiles.ascending (h : Tiles lo hi pages) :
    pages.Pairwise fun p q => p.last < q.first := by
  induction h with
  | last lo hi h => exact List.pairwise_singleton _ _
  | step lo mid hi rest h hrest ih =>
      refine List.pairwise_cons.mpr ⟨?_, ih⟩
      intro q hq
      have hq := hrest.within q hq
      dsimp only
      omega

/-- No item is on two pages. -/
theorem Tiles.once (h : Tiles lo hi pages) (n : Nat) : ∀ p ∈ pages, ∀ q ∈ pages,
    p.first ≤ n ∧ n ≤ p.last → q.first ≤ n ∧ n ≤ q.last → p = q := by
  induction h with
  | last lo hi h =>
      intro p hp q hq _ _
      rw [List.mem_singleton.mp hp, List.mem_singleton.mp hq]
  | step lo mid hi rest h hrest ih =>
      intro p hp q hq hnp hnq
      rcases List.mem_cons.mp hp with rfl | hp <;> rcases List.mem_cons.mp hq with rfl | hq
      · rfl
      · have hbehind := hrest.within q hq
        dsimp only at hnp
        omega
      · have hbehind := hrest.within p hp
        dsimp only at hnq
        omega
      · exact ih p hp q hq hnp hnq

/-- The items of the pages, one page after the other, are those of the whole
interval. -/
theorem Tiles.flatMap_items (h : Tiles lo hi pages) :
    pages.flatMap Page.items = Page.items ⟨lo, hi⟩ := by
  induction h with
  | last lo hi h => simp
  | step lo mid hi rest h hrest ih =>
      have hle := hrest.le
      have hsize : hi + 1 - lo = (mid + 1 - lo) + (hi + 1 - (mid + 1)) := by omega
      have hnext : lo + (mid + 1 - lo) = mid + 1 := by omega
      rw [List.flatMap_cons, ih]
      simp only [Page.items]
      rw [hsize, ← List.range'_append_1, hnext]

/-- An interval can be cut behind any of its items but the last. -/
theorem Page.items_split {lo mid hi : Nat} (hlo : lo ≤ mid) (hhi : mid < hi) :
    Page.items ⟨lo, hi⟩ = Page.items ⟨lo, mid⟩ ++ Page.items ⟨mid + 1, hi⟩ := by
  have htiles : Tiles lo hi [⟨lo, mid⟩, ⟨mid + 1, hi⟩] := .step _ _ _ _ hlo (.last _ _ hhi)
  rw [← htiles.flatMap_items, List.flatMap_cons, List.flatMap_cons, List.flatMap_nil,
    List.append_nil]

/-- The pages cover the interval and nothing else. -/
theorem Tiles.covers (h : Tiles lo hi pages) (n : Nat) :
    (lo ≤ n ∧ n ≤ hi) ↔ ∃ p ∈ pages, p.first ≤ n ∧ n ≤ p.last := by
  have hmem : n ∈ pages.flatMap Page.items ↔ n ∈ Page.items ⟨lo, hi⟩ := by
    rw [h.flatMap_items]
  rw [Page.mem_items _ h.le, List.mem_flatMap] at hmem
  rw [← hmem]
  constructor
  · rintro ⟨p, hp, hn⟩
    exact ⟨p, hp, (p.mem_items (h.nonempty p hp) n).mp hn⟩
  · rintro ⟨p, hp, hn⟩
    exact ⟨p, hp, (p.mem_items (h.nonempty p hp) n).mpr hn⟩

/-- Where the last of the full pages that begin at `lo` ends, if the pages go
on until `hi` is behind. -/
def gridEnd (size lo hi : Nat) : Nat := lo + ((hi - lo) / size + 1) * size

theorem gridEnd_last {size lo hi : Nat} (hle : lo ≤ hi) (h : hi < lo + size) :
    gridEnd size lo hi = lo + size := by
  have hdiv : (hi - lo) / size = 0 := Nat.div_eq_of_lt (by omega)
  rw [gridEnd, hdiv, Nat.zero_add, Nat.one_mul]

/-- The next page lies on the same grid. -/
theorem gridEnd_next {size lo hi : Nat} (hsize : 1 ≤ size) (h : lo + size ≤ hi) :
    gridEnd size (lo + size) hi = gridEnd size lo hi := by
  have hrest : hi - lo = hi - (lo + size) + size := by omega
  have hdiv : (hi - lo) / size = (hi - (lo + size)) / size + 1 := by
    rw [hrest, Nat.add_div_right _ hsize]
  rw [gridEnd, gridEnd, hdiv, Nat.succ_mul (_ + 1)]
  omega

theorem page_le_gridEnd (size lo hi : Nat) : lo + size ≤ gridEnd size lo hi := by
  rw [gridEnd, Nat.add_mul, Nat.one_mul]
  omega

end ShadeIndexer.Lib.Paging
