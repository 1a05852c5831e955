import Mathlib.Data.List.Basic
import Mathlib.Tactic.IntervalCases

/-!
The digits that a number is written with, in bases up to sixteen.
-/

namespace ShadeIndexer.Lib.Digits

/-- What holds of every digit of the base holds of every digit of a number. -/
theorem forall_mem_toDigits {b : Nat} (hb : 1 < b) {p : Char → Prop}
    (hp : ∀ d < b, p (Nat.digitChar d)) (n : Nat) : ∀ c ∈ Nat.toDigits b n, p c := by
  induction n using Nat.strongRecOn with
  | ind n ih =>
      intro c hc
      rcases Nat.lt_or_ge n b with hlt | hge
      · rw [Nat.toDigits_of_lt_base hlt, List.mem_singleton] at hc
        rw [hc]
        exact hp n hlt
      · rw [Nat.toDigits_of_base_le hb hge, List.mem_append, List.mem_singleton] at hc
        rcases hc with hfirst | hlast
        · exact ih (n / b) (Nat.div_lt_self (by omega) hb) c hfirst
        · rw [hlast]
          exact hp (n % b) (Nat.mod_lt n (by omega))

theorem isDigit_toDigits (n : Nat) : ∀ c ∈ Nat.toDigits 10 n, c.isDigit = true :=
  fun _ => Nat.isDigit_of_mem_toDigits (by decide) (by decide)

/-- Only zero is written with a leading zero. -/
theorem head_toDigits {n : Nat} (h : 0 < n) : (Nat.toDigits 10 n).head? ≠ some '0' := by
  induction n using Nat.strongRecOn with
  | ind n ih =>
      rcases Nat.lt_or_ge n 10 with hlt | hge
      · rw [Nat.toDigits_of_lt_base hlt]
        interval_cases n <;> decide
      · have hquotient : 0 < n / 10 := Nat.div_pos hge (by decide)
        have hhead := ih (n / 10) (Nat.div_lt_self h (by decide)) hquotient
        rw [Nat.toDigits_of_base_le (by decide) hge]
        cases hdigits : Nat.toDigits 10 (n / 10) with
        | nil => exact absurd hdigits Nat.toDigits_ne_nil
        | cons c tail => rwa [hdigits] at hhead

/-- A digit more never makes a number smaller. -/
theorem le_ofDigitChars (digits : List Char) (n : Nat) : n ≤ Nat.ofDigitChars 10 digits n := by
  induction digits generalizing n with
  | nil => simp
  | cons c rest ih =>
      have hnext := ih (10 * n + (c.toNat - '0'.toNat))
      rw [Nat.ofDigitChars_cons]
      omega

theorem digitChar_inj : ∀ m < 16, ∀ n < 16, Nat.digitChar m = Nat.digitChar n → m = n := by decide

/-- The digits of a number determine it. -/
theorem toDigits_inj {b : Nat} (hb : 1 < b) (hle : b ≤ 16) {m n : Nat}
    (h : Nat.toDigits b m = Nat.toDigits b n) : m = n := by
  induction m using Nat.strongRecOn generalizing n with
  | ind m ih =>
      have hpos (k : Nat) : 0 < (Nat.toDigits b (k / b)).length := Nat.length_toDigits_pos
      have hdigit (k : Nat) : k % b < 16 := (Nat.mod_lt k (by omega)).trans_le hle
      rw [Nat.toDigits_eq_if hb, Nat.toDigits_eq_if (n := n) hb] at h
      split at h
      · split at h
        · exact digitChar_inj m (by omega) n (by omega) (List.singleton_inj.mp h)
        · have hlength := congrArg List.length h
          have hquotient := hpos n
          simp only [List.length_append, List.length_cons, List.length_nil] at hlength
          omega
      · rename_i hge
        split at h
        · have hlength := congrArg List.length h
          have hquotient := hpos m
          simp only [List.length_append, List.length_cons, List.length_nil] at hlength
          omega
        · obtain ⟨hfirst, hlast⟩ := List.append_inj' h rfl
          have hdiv := ih (m / b) (Nat.div_lt_self (by omega) hb) hfirst
          have hmod := digitChar_inj _ (hdigit m) _ (hdigit n) (List.singleton_inj.mp hlast)
          rw [← Nat.div_add_mod m b, ← Nat.div_add_mod n b, hdiv, hmod]

end ShadeIndexer.Lib.Digits
