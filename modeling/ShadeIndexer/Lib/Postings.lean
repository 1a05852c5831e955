import Mathlib.Algebra.BigOperators.Group.Finset.Piecewise
import Mathlib.Algebra.Order.BigOperators.Group.List
import ShadeIndexer.Lib.Accumulator
import ShadeIndexer.Lib.Wrapping

/-!
Accounts kept in machine integers. A posting takes an amount from an account or
gives it one, and the exact balance of an account is the sum of what was posted
to it. Wrapping arithmetic follows the exact balance modulo `2 ^ w`, in any
order of the postings. Checked arithmetic fails at the first posting that takes
an exact balance out of the signed range.
-/

namespace ShadeIndexer.Lib.Postings

open Lib.Accumulator Lib.Wrapping

variable {κ : Type} {w : Nat}

inductive Posting (κ G : Type) where
  | debit (account : κ) (amount : G)
  | credit (account : κ) (amount : G)
  deriving DecidableEq

def Posting.amount {G : Type} : Posting κ G → G
  | .debit _ amount => amount
  | .credit _ amount => amount

/-- All that is taken from an account or given to one. -/
def turnover {G : Type} (read : G → ℤ) (ps : List (Posting κ G)) : ℤ :=
  (ps.map fun p => read p.amount).sum

theorem turnover_append {G : Type} (read : G → ℤ) (ps qs : List (Posting κ G)) :
    turnover read (ps ++ qs) = turnover read ps + turnover read qs := by
  simp [turnover]

theorem turnover_mono {G : Type} (read : G → ℤ) {done ps : List (Posting κ G)}
    (hnonneg : ∀ p ∈ ps, 0 ≤ read p.amount) (h : done <+: ps) :
    turnover read done ≤ turnover read ps := by
  obtain ⟨rest, rfl⟩ := h
  have hrest : 0 ≤ turnover read rest := by
    apply List.sum_nonneg
    intro x hx
    obtain ⟨p, hp, rfl⟩ := List.mem_map.mp hx
    exact hnonneg p (List.mem_append_right _ hp)
  rw [turnover_append]
  omega

variable [DecidableEq κ]

/-- What a posting adds to the exact balance of an account. -/
def effect {G : Type} (read : G → ℤ) (k : κ) : Posting κ G → ℤ
  | .debit account amount => if k = account then -read amount else 0
  | .credit account amount => if k = account then read amount else 0

/-- The exact balance of an account: what it received less what it gave. -/
def net {G : Type} (read : G → ℤ) (ps : List (Posting κ G)) (k : κ) : ℤ :=
  (ps.map (effect read k)).sum

@[simp] theorem net_nil {G : Type} (read : G → ℤ) (k : κ) : net read [] k = 0 := rfl

@[simp] theorem net_cons {G : Type} (read : G → ℤ) (p : Posting κ G) (ps : List (Posting κ G))
    (k : κ) : net read (p :: ps) k = effect read k p + net read ps k := by
  simp [net]

@[simp] theorem net_append {G : Type} (read : G → ℤ) (ps qs : List (Posting κ G)) (k : κ) :
    net read (ps ++ qs) k = net read ps k + net read qs k := by
  simp [net]

/-- No set of accounts owes or holds more than the turnover. -/
theorem abs_sum_net_le {G : Type} (read : G → ℤ) (ps : List (Posting κ G))
    (hnonneg : ∀ p ∈ ps, 0 ≤ read p.amount) (accounts : Finset κ) :
    |∑ k ∈ accounts, net read ps k| ≤ turnover read ps := by
  induction ps with
  | nil => simp [turnover]
  | cons p ps ih =>
      obtain ⟨hp, hps⟩ := List.forall_mem_cons.mp hnonneg
      have hturnover : turnover read (p :: ps) = read p.amount + turnover read ps := List.sum_cons
      have heffect : |∑ k ∈ accounts, effect read k p| ≤ read p.amount := by
        cases p with
        | debit account amount =>
            rw [Posting.amount] at hp ⊢
            simp only [effect, Finset.sum_ite_eq']
            split
            · rw [abs_neg, abs_of_nonneg hp]
            · rwa [abs_zero]
        | credit account amount =>
            rw [Posting.amount] at hp ⊢
            simp only [effect, Finset.sum_ite_eq']
            split
            · rw [abs_of_nonneg hp]
            · rwa [abs_zero]
      simp only [net_cons, Finset.sum_add_distrib]
      rw [hturnover]
      exact (abs_add_le _ _).trans (add_le_add heffect (ih hps))

def post (m : Totals κ (BitVec w)) : Posting κ (BitVec w) → Totals κ (BitVec w)
  | .debit account amount => debit m account amount
  | .credit account amount => credit m account amount

theorem value_post (read : BitVec w → ℤ) (hread : ∀ x, ((read x : ℤ) : BitVec w) = x)
    (m : Totals κ (BitVec w)) (p : Posting κ (BitVec w)) (k : κ) :
    value (post m p) k = value m k + ((effect read k p : ℤ) : BitVec w) := by
  cases p with
  | debit account amount =>
      rw [post, value_debit, effect]
      by_cases h : k = account
      · rw [if_pos h, if_pos h, Int.cast_neg, hread, sub_eq_add_neg]
      · rw [if_neg h, if_neg h, Int.cast_zero, sub_zero, add_zero]
  | credit account amount =>
      rw [post, value_credit, effect]
      by_cases h : k = account
      · rw [if_pos h, if_pos h, hread]
      · rw [if_neg h, if_neg h, Int.cast_zero]

/-- Every register holds the exact balance modulo `2 ^ w`, whether the amounts
are read as signed or as unsigned. -/
theorem value_foldl_post (read : BitVec w → ℤ) (hread : ∀ x, ((read x : ℤ) : BitVec w) = x)
    (ps : List (Posting κ (BitVec w))) (m : Totals κ (BitVec w)) (k : κ) :
    value (ps.foldl post m) k = value m k + ((net read ps k : ℤ) : BitVec w) := by
  induction ps generalizing m with
  | nil => simp
  | cons p ps ih =>
      rw [List.foldl_cons, ih, value_post read hread, net_cons, Int.cast_add, add_assoc]

def postChecked (m : Totals κ (BitVec w)) : Posting κ (BitVec w) → Option (Totals κ (BitVec w))
  | .debit account amount => (checkedSub (value m account) amount).map (m.insert account)
  | .credit account amount => (checkedAdd (value m account) amount).map (m.insert account)

/-- A posting succeeds exactly if it leaves every exact balance in range, and
then the registers are those of wrapping arithmetic. -/
theorem postChecked_eq_some_iff (m m' : Totals κ (BitVec w)) (p : Posting κ (BitVec w)) :
    postChecked m p = some m' ↔
      (∀ k, InSignedRange w ((value m k).toInt + effect BitVec.toInt k p)) ∧ m' = post m p := by
  have hothers (account k : κ) (d : ℤ)
      (h : InSignedRange w ((value m account).toInt + d)) :
      InSignedRange w ((value m k).toInt + if k = account then d else 0) := by
    by_cases hk : k = account
    · rw [if_pos hk, hk]
      exact h
    · rw [if_neg hk, add_zero]
      exact inSignedRange_toInt _
  cases p with
  | debit account amount =>
      simp only [postChecked, Option.map_eq_some_iff, checkedSub_eq_some_iff, effect, post, debit]
      constructor
      · rintro ⟨c, ⟨hrange, rfl⟩, rfl⟩
        exact ⟨fun k => hothers account k _ (by rwa [← sub_eq_add_neg]), rfl⟩
      · rintro ⟨hrange, rfl⟩
        have haccount := hrange account
        rw [if_pos rfl, ← sub_eq_add_neg] at haccount
        exact ⟨_, ⟨haccount, rfl⟩, rfl⟩
  | credit account amount =>
      simp only [postChecked, Option.map_eq_some_iff, checkedAdd_eq_some_iff, effect, post, credit]
      constructor
      · rintro ⟨c, ⟨hrange, rfl⟩, rfl⟩
        exact ⟨fun k => hothers account k _ hrange, rfl⟩
      · rintro ⟨hrange, rfl⟩
        have haccount := hrange account
        rw [if_pos rfl] at haccount
        exact ⟨_, ⟨haccount, rfl⟩, rfl⟩

theorem toInt_value_post (hw : 0 < w) (m : Totals κ (BitVec w)) (p : Posting κ (BitVec w)) (k : κ)
    (h : InSignedRange w ((value m k).toInt + effect BitVec.toInt k p)) :
    (value (post m p) k).toInt = (value m k).toInt + effect BitVec.toInt k p := by
  have hsum : value (post m p) k =
      (((value m k).toInt + effect BitVec.toInt k p : ℤ) : BitVec w) := by
    rw [value_post BitVec.toInt intCast_toInt, Int.cast_add, intCast_toInt]
  rw [hsum]
  exact (signedResidue_toInt hw _).exact h

/-- Every exact balance is in range after each of the postings. -/
def StaysInRange (m : Totals κ (BitVec w)) (ps : List (Posting κ (BitVec w))) : Prop :=
  ∀ done, done <+: ps → ∀ k, InSignedRange w ((value m k).toInt + net BitVec.toInt done k)

theorem staysInRange_nil (m : Totals κ (BitVec w)) : StaysInRange m [] := by
  intro done hdone k
  rw [List.prefix_nil.mp hdone, net_nil, add_zero]
  exact inSignedRange_toInt _

/-- After the first posting the exact balances start from what it left behind. -/
theorem staysInRange_cons (hw : 0 < w) (m : Totals κ (BitVec w)) (p : Posting κ (BitVec w))
    (ps : List (Posting κ (BitVec w))) :
    StaysInRange m (p :: ps) ↔
      (∀ k, InSignedRange w ((value m k).toInt + effect BitVec.toInt k p)) ∧
        StaysInRange (post m p) ps := by
  have hshift (hp : ∀ k, InSignedRange w ((value m k).toInt + effect BitVec.toInt k p))
      (done : List (Posting κ (BitVec w))) (k : κ) :
      (value (post m p) k).toInt + net BitVec.toInt done k =
        (value m k).toInt + net BitVec.toInt (p :: done) k := by
    rw [toInt_value_post hw m p k (hp k), net_cons, add_assoc]
  constructor
  · intro hrange
    have hp : ∀ k, InSignedRange w ((value m k).toInt + effect BitVec.toInt k p) := by
      intro k
      have hone := hrange [p] (List.prefix_append [p] ps) k
      rwa [net_cons, net_nil, add_zero] at hone
    refine ⟨hp, ?_⟩
    intro done hdone k
    rw [hshift hp]
    exact hrange (p :: done) ((List.prefix_cons_inj p).mpr hdone) k
  · rintro ⟨hp, hrest⟩ done hdone k
    rcases List.prefix_cons_iff.mp hdone with rfl | ⟨rest, rfl, hprefix⟩
    · exact staysInRange_nil m [] (List.prefix_refl _) k
    · rw [← hshift hp]
      exact hrest rest hprefix k

/-- A run of postings succeeds exactly if every exact balance stays in range. -/
theorem foldlM_postChecked_eq_some_iff (hw : 0 < w) (ps : List (Posting κ (BitVec w)))
    (m m' : Totals κ (BitVec w)) :
    ps.foldlM postChecked m = some m' ↔ StaysInRange m ps ∧ m' = ps.foldl post m := by
  induction ps generalizing m with
  | nil =>
      rw [List.foldlM_nil, List.foldl_nil]
      exact ⟨fun h => ⟨staysInRange_nil m, (Option.some.inj h).symm⟩,
        fun h => congrArg some h.2.symm⟩
  | cons p ps ih =>
      rw [List.foldlM_cons, Option.bind_eq_bind, Option.bind_eq_some_iff, List.foldl_cons,
        staysInRange_cons hw]
      constructor
      · rintro ⟨next, hstep, hrest⟩
        obtain ⟨hp, rfl⟩ := (postChecked_eq_some_iff m next p).mp hstep
        obtain ⟨hrange, hfinal⟩ := (ih (post m p)).mp hrest
        exact ⟨⟨hp, hrange⟩, hfinal⟩
      · rintro ⟨⟨hp, hrange⟩, hfinal⟩
        exact ⟨post m p, (postChecked_eq_some_iff m _ p).mpr ⟨hp, rfl⟩,
          (ih (post m p)).mpr ⟨hrange, hfinal⟩⟩

end ShadeIndexer.Lib.Postings
