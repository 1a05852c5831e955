import Mathlib.Data.List.Basic

/-!
Searching a text for a delimiter: splitting it at the first occurrence of a
separator, and what follows the first occurrence of one character.
-/

namespace ShadeIndexer.Lib.Text

variable {α : Type}

/-- No proper end of the separator is also its beginning, so two occurrences of
it cannot overlap. -/
def Unbordered (sep : List α) : Prop :=
  ∀ k < sep.length, 0 < k → sep.drop k ≠ sep.take (sep.length - k)

/-- A separator does not begin before the place where it was put, unless the
text before it holds one already. -/
theorem Unbordered.not_earlier {sep before after : List α} (hsep : Unbordered sep)
    (hpos : 0 < before.length) (h : ¬ sep <:+: before) : ¬ sep <+: before ++ (sep ++ after) := by
  intro hearly
  rcases Nat.lt_or_ge before.length sep.length with hshort | hlong
  · -- the two occurrences would overlap
    have hbefore : before <+: sep :=
      List.prefix_of_prefix_length_le (List.prefix_append _ _) hearly (Nat.le_of_lt hshort)
    obtain ⟨tail, rfl⟩ := hbefore
    rw [List.prefix_append_right_inj] at hearly
    have htail : tail <+: before ++ tail := by
      refine List.prefix_of_prefix_length_le hearly (List.prefix_append _ after) ?_
      rw [List.length_append]
      omega
    apply hsep before.length hshort hpos
    rw [List.drop_left, List.length_append, Nat.add_sub_cancel_left]
    exact List.prefix_iff_eq_take.mp htail
  · exact h (List.prefix_of_prefix_length_le hearly (List.prefix_append _ _) hlong).isInfix

variable [DecidableEq α]

instance (sep : List α) : Decidable (Unbordered sep) :=
  inferInstanceAs (Decidable (∀ k < sep.length, 0 < k → sep.drop k ≠ sep.take (sep.length - k)))

/-- `split_once`: what precedes the first occurrence of `sep`, and what follows it. -/
def splitOnce (sep : List α) : List α → Option (List α × List α)
  | [] => if sep = [] then some ([], []) else none
  | c :: rest =>
    if sep <+: c :: rest then some ([], (c :: rest).drop sep.length)
    else (splitOnce sep rest).map fun pair => (c :: pair.1, pair.2)

/-- What follows the first `c`. -/
def afterFirst (c : α) : List α → Option (List α)
  | [] => none
  | x :: rest => if x = c then some rest else afterFirst c rest

/-- A text is split where an unbordered separator was put. -/
theorem splitOnce_append {sep : List α} (hsep : Unbordered sep) (before after : List α)
    (h : ¬ sep <:+: before) : splitOnce sep (before ++ (sep ++ after)) = some (before, after) := by
  induction before with
  | nil =>
      cases sep with
      | nil => exact absurd List.nil_infix h
      | cons c tail =>
          have hhere : c :: tail <+: c :: (tail ++ after) := List.prefix_append _ after
          simp only [List.nil_append, List.cons_append, splitOnce]
          rw [if_pos hhere, ← List.cons_append, List.drop_left]
  | cons c rest ih =>
      have hrest : ¬ sep <:+: rest := fun hinfix => h (List.infix_cons hinfix)
      have hlater := @Unbordered.not_earlier _ sep (c :: rest) after hsep (by simp) h
      rw [List.cons_append] at hlater ⊢
      rw [splitOnce, if_neg hlater, ih hrest]
      rfl

/-- `find` and the slice behind the index it returns. -/
theorem drop_findIdx (c : α) (text : List α) :
    (text.findIdx? fun x => decide (x = c)).map (fun i => text.drop (i + 1)) =
      afterFirst c text := by
  induction text with
  | nil => rfl
  | cons x rest ih =>
      rw [List.findIdx?_cons, afterFirst]
      by_cases hx : x = c
      · rw [if_pos hx, decide_eq_true hx]
        rfl
      · rw [if_neg hx, decide_eq_false hx, ← ih]
        simp [Option.map_map, Function.comp_def]

/-- In a text with a `c` of its own, the first `c` is that one or an earlier one. -/
theorem afterFirst_append_cons (c : α) (before after : List α) :
    afterFirst c (before ++ c :: after) =
      some (((afterFirst c before).map fun rest => rest ++ c :: after).getD after) := by
  induction before with
  | nil => simp [afterFirst]
  | cons x rest ih =>
      rw [List.cons_append, afterFirst, afterFirst]
      by_cases hx : x = c
      · rw [if_pos hx, if_pos hx]
        rfl
      · rw [if_neg hx, if_neg hx, ih]

/-- Two texts before the same `c` leave the same rest exactly if the same
follows their own first `c`, or neither has one. -/
theorem afterFirst_append_cons_inj (c : α) (first second after : List α) :
    afterFirst c (first ++ c :: after) = afterFirst c (second ++ c :: after) ↔
      afterFirst c first = afterFirst c second := by
  have hlonger : ∀ rest : List α, rest ++ c :: after ≠ after := by
    intro rest hsame
    have hlength := congrArg List.length hsame
    rw [List.length_append, List.length_cons] at hlength
    omega
  rw [afterFirst_append_cons, afterFirst_append_cons, Option.some.injEq]
  cases afterFirst c first with
  | none =>
      cases afterFirst c second with
      | none => simp
      | some rest => simp [(hlonger rest).symm]
  | some rest =>
      cases afterFirst c second with
      | none => simp [hlonger rest]
      | some other => simp

end ShadeIndexer.Lib.Text
