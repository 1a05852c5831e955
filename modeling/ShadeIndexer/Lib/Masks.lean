import Mathlib.Data.BitVec
import Mathlib.Data.List.Perm.Basic

/-!
Masks as sets of bits. The union of a list of masks has the bits that some
member has, so it depends neither on the order nor on repetitions.
-/

namespace ShadeIndexer.Lib.Masks

variable {w : Nat}

/-- Every bit of `flag` is raised in `mask`. -/
def Raises (mask flag : BitVec w) : Prop :=
  ∀ i, flag.getLsbD i = true → mask.getLsbD i = true

def orAll (masks : List (BitVec w)) : BitVec w := masks.foldr (· ||| ·) 0

theorem ext_iff {a b : BitVec w} :
    a = b ↔ ∀ i, a.getLsbD i = true ↔ b.getLsbD i = true := by
  constructor
  · rintro rfl i
    exact Iff.rfl
  · intro h
    apply BitVec.eq_of_getLsbD_eq
    intro i _
    exact Bool.eq_iff_iff.mpr (h i)

theorem getLsbD_or_iff (a b : BitVec w) (i : Nat) :
    (a ||| b).getLsbD i = true ↔ a.getLsbD i = true ∨ b.getLsbD i = true := by
  rw [BitVec.getLsbD_or, Bool.or_eq_true]

theorem orAll_cons (mask : BitVec w) (masks : List (BitVec w)) :
    orAll (mask :: masks) = mask ||| orAll masks := rfl

theorem orAll_append (masks masks' : List (BitVec w)) :
    orAll (masks ++ masks') = orAll masks ||| orAll masks' := by
  induction masks with
  | nil => simp [orAll]
  | cons mask rest ih => rw [List.cons_append, orAll_cons, ih, orAll_cons, BitVec.or_assoc]

theorem getLsbD_orAll (masks : List (BitVec w)) (i : Nat) :
    (orAll masks).getLsbD i = true ↔ ∃ mask ∈ masks, mask.getLsbD i = true := by
  induction masks with
  | nil => simp [orAll]
  | cons mask rest ih =>
      rw [orAll_cons, getLsbD_or_iff, ih]
      simp

theorem orAll_perm {masks masks' : List (BitVec w)} (h : masks.Perm masks') :
    orAll masks = orAll masks' := by
  rw [ext_iff]
  intro i
  simp only [getLsbD_orAll, h.mem_iff]

theorem orAll_eq_zero_iff (masks : List (BitVec w)) :
    orAll masks = 0 ↔ ∀ mask ∈ masks, mask = 0 := by
  induction masks with
  | nil => simp [orAll]
  | cons mask rest ih =>
      rw [orAll_cons, List.forall_mem_cons, ← ih]
      exact BitVec.or_eq_zero_iff

end ShadeIndexer.Lib.Masks
