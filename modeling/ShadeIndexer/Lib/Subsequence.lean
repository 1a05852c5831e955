import Mathlib.Data.List.Infix

/-!
Contiguous subsequences. `windows` lists the slices of a given size from left
to right, and a search over the windows decides `List.IsInfix`.
-/

namespace ShadeIndexer.Lib.Subsequence

variable {α : Type}

/-- `xs.windows(size)`. -/
def windows (size : Nat) (xs : List α) : List (List α) :=
  (List.range (xs.length + 1 - size)).map fun i => (xs.drop i).take size

theorem mem_windows (size : Nat) (xs w : List α) :
    w ∈ windows size xs ↔ w.length = size ∧ w <:+: xs := by
  simp only [windows, List.mem_map, List.mem_range]
  constructor
  · rintro ⟨i, hi, rfl⟩
    refine ⟨by simp only [List.length_take, List.length_drop]; omega, ?_⟩
    exact (List.take_prefix _ _).isInfix.trans (List.drop_suffix _ _).isInfix
  · rintro ⟨hsize, before, after, rfl⟩
    refine ⟨before.length, ?_, ?_⟩
    · simp only [List.length_append]
      omega
    · rw [List.append_assoc, List.drop_left, ← hsize, List.take_left]

/-- A nonempty word is one of the windows of its own length exactly if it
occurs. -/
theorem windows_any_iff [BEq α] [LawfulBEq α] (xs word : List α) :
    ((windows word.length xs).any fun w => w == word) = true ↔ word <:+: xs := by
  rw [List.any_eq_true]
  constructor
  · rintro ⟨w, hw, heq⟩
    rw [beq_iff_eq] at heq
    subst heq
    exact ((mem_windows _ _ _).mp hw).2
  · intro h
    exact ⟨word, (mem_windows _ _ _).mpr ⟨rfl, h⟩, beq_self_eq_true word⟩

end ShadeIndexer.Lib.Subsequence
