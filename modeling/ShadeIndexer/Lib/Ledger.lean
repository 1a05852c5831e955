import Mathlib.Data.Finsupp.Order
import Mathlib.Data.Finsupp.Single
import Mathlib.Data.Multiset.Sort

/-!
A token ledger in its own terms. Balances are natural numbers, all but
finitely many of them zero. A history mints, transfers and burns, and it is
valid if every source can pay and if no amount and no balance exceeds a cap.
Read in a commutative ring, a posting is one subtraction and one addition, so
a valid history can be followed by modular arithmetic.
-/

namespace ShadeIndexer.Lib.Ledger

variable {A : Type}

inductive Movement (A : Type) where
  | mint (target : A) (amount : Nat)
  | transfer (source target : A) (amount : Nat)
  | burn (source : A) (amount : Nat)

namespace Movement

@[simp] def amount : Movement A → Nat
  | mint _ n => n
  | transfer _ _ n => n
  | burn _ n => n

@[simp] def source : Movement A → Option A
  | mint _ _ => none
  | transfer a _ _ => some a
  | burn a _ => some a

@[simp] def target : Movement A → Option A
  | mint a _ => some a
  | transfer _ a _ => some a
  | burn _ _ => none

end Movement

/-- The amount that a movement takes from or gives to an account. -/
noncomputable def share (account : Option A) (amount : Nat) : A →₀ Nat :=
  account.elim 0 fun a => Finsupp.single a amount

noncomputable def post (balances : A →₀ Nat) (m : Movement A) : A →₀ Nat :=
  balances - share m.source m.amount + share m.target m.amount

noncomputable def final (history : List (Movement A)) (balances : A →₀ Nat) : A →₀ Nat :=
  history.foldl post balances

/-- Every source has enough balance, and no amount and no balance ever held
exceeds the cap. -/
inductive Valid (cap : Nat) : List (Movement A) → (A →₀ Nat) → Prop where
  | nil {balances : A →₀ Nat} (hcap : ∀ a, balances a ≤ cap) : Valid cap [] balances
  | cons {balances : A →₀ Nat} {m : Movement A} {rest : List (Movement A)}
      (hcap : ∀ a, balances a ≤ cap) (hamount : m.amount ≤ cap)
      (hcovered : ∀ a, m.source = some a → m.amount ≤ balances a)
      (hrest : Valid cap rest (post balances m)) : Valid cap (m :: rest) balances

/-- The largest `k` of the positive balances, in descending order. -/
noncomputable def largest (balances : A →₀ Nat) (k : Nat) : List Nat :=
  ((balances.support.val.map balances).sort (· ≥ ·)).take k

theorem share_apply [DecidableEq A] (account : Option A) (amount : Nat) (a : A) :
    share account amount a = if account = some a then amount else 0 := by
  cases account with
  | none => simp [share]
  | some b => simp [share, Finsupp.single_apply]

theorem post_apply [DecidableEq A] (balances : A →₀ Nat) (m : Movement A) (a : A) :
    post balances m a =
      balances a - (if m.source = some a then m.amount else 0) +
        (if m.target = some a then m.amount else 0) := by
  rw [post, Finsupp.add_apply, Finsupp.tsub_apply, share_apply, share_apply]

/-- In a ring nothing is truncated: a covered movement subtracts the amount
from its source and adds it to its target. -/
theorem cast_post [DecidableEq A] {R : Type} [CommRing R] (balances : A →₀ Nat)
    (m : Movement A) (hcovered : ∀ a, m.source = some a → m.amount ≤ balances a) (a : A) :
    ((post balances m a : Nat) : R) =
      (balances a : R) - (if m.source = some a then (m.amount : R) else 0) +
        (if m.target = some a then (m.amount : R) else 0) := by
  rw [post_apply, Nat.cast_add, Nat.cast_sub]
  · simp only [Nat.cast_ite, Nat.cast_zero]
  · split
    · rename_i hsource
      exact hcovered a hsource
    · exact Nat.zero_le _

theorem Valid.final_le {cap : Nat} {history : List (Movement A)} {balances : A →₀ Nat}
    (h : Valid cap history balances) (a : A) : final history balances a ≤ cap := by
  induction h with
  | nil hcap => exact hcap a
  | cons _ _ _ _ ih => exact ih

theorem mem_positive (balances : A →₀ Nat) (n : Nat) :
    n ∈ balances.support.val.map balances ↔ 0 < n ∧ ∃ a, balances a = n := by
  simp only [Multiset.mem_map, Finset.mem_val, Finsupp.mem_support_iff]
  constructor
  · rintro ⟨a, hne, rfl⟩
    exact ⟨Nat.pos_of_ne_zero hne, a, rfl⟩
  · rintro ⟨hpos, a, rfl⟩
    exact ⟨a, hpos.ne', rfl⟩

/-- If any account holds at least `bound`, so does the first of the largest. -/
theorem largest_of_exceeds (balances : A →₀ Nat) (k bound : Nat) (hk : k ≠ 0) (hbound : 0 < bound)
    (a : A) (ha : bound ≤ balances a) : ∃ n ∈ largest balances k, bound ≤ n := by
  have hmem : balances a ∈ (balances.support.val.map balances).sort (· ≥ ·) := by
    rw [Multiset.mem_sort, mem_positive]
    exact ⟨by omega, a, rfl⟩
  have hsorted := Multiset.pairwise_sort (balances.support.val.map balances) (· ≥ ·)
  unfold largest
  generalize (balances.support.val.map balances).sort (· ≥ ·) = sorted at hmem hsorted
  cases sorted with
  | nil => cases hmem
  | cons first rest =>
      obtain ⟨j, rfl⟩ := Nat.exists_eq_succ_of_ne_zero hk
      refine ⟨first, by simp, ?_⟩
      rcases List.mem_cons.mp hmem with hfirst | hrest
      · omega
      · have hge := List.rel_of_pairwise_cons hsorted hrest
        omega

end ShadeIndexer.Lib.Ledger
