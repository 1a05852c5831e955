import Mathlib.Data.Nat.Notation

/-!
Loops that need not terminate. A turn of the loop ends it with a result, or goes
on with a new state. A loop is run with fuel, and `none` says that the fuel ran
out before it ended.
-/

namespace ShadeIndexer.Lib.Loop

variable {σ ρ : Type}

def iterate (body : σ → ρ ⊕ σ) : Nat → σ → Option ρ
  | 0, _ => none
  | fuel + 1, s =>
    match body s with
    | .inl result => some result
    | .inr next => iterate body fuel next

/-- The states with which a run comes to the head of the loop. -/
inductive Visits (body : σ → ρ ⊕ σ) (first : σ) : σ → Prop where
  | first : Visits body first first
  | turn {s next : σ} (h : Visits body first s) (hturn : body s = .inr next) :
      Visits body first next

variable {body : σ → ρ ⊕ σ} {first s : σ}

theorem iterate_inl {result : ρ} (h : body s = .inl result) (fuel : Nat) :
    iterate body (fuel + 1) s = some result := by
  simp only [iterate, h]

theorem iterate_inr {next : σ} (h : body s = .inr next) (fuel : Nat) :
    iterate body (fuel + 1) s = iterate body fuel next := by
  simp only [iterate, h]

/-- What every turn preserves holds whenever the loop comes to its head. -/
theorem Visits.invariant (inv : σ → Prop) (hfirst : inv first)
    (hturn : ∀ s next, inv s → body s = .inr next → inv next) (h : Visits body first s) :
    inv s := by
  induction h with
  | first => exact hfirst
  | turn h hnext ih => exact hturn _ _ ih hnext

/-- If every turn that goes on makes the measure smaller, the loop ends. -/
theorem iterate_returns (inv : σ → Prop) (measure : σ → Nat)
    (hturn : ∀ s next, inv s → body s = .inr next → inv next ∧ measure next < measure s)
    (hs : inv s) : ∃ fuel result, iterate body fuel s = some result := by
  induction hmeasure : measure s using Nat.strongRecOn generalizing s with
  | ind n ih =>
      cases hbody : body s with
      | inl result => exact ⟨1, result, iterate_inl hbody 0⟩
      | inr next =>
          obtain ⟨hnext, hless⟩ := hturn s next hs hbody
          obtain ⟨fuel, result, hresult⟩ := ih (measure next) (hmeasure ▸ hless) hnext rfl
          exact ⟨fuel + 1, result, (iterate_inr hbody fuel).trans hresult⟩

/-- If a turn always goes on, no amount of fuel is enough. -/
theorem iterate_diverges (inv : σ → Prop)
    (hturn : ∀ s, inv s → ∃ next, body s = .inr next ∧ inv next) (hs : inv s) (fuel : Nat) :
    iterate body fuel s = none := by
  induction fuel generalizing s with
  | zero => rfl
  | succ fuel ih =>
      obtain ⟨next, hbody, hnext⟩ := hturn s hs
      rw [iterate_inr hbody]
      exact ih hnext

end ShadeIndexer.Lib.Loop
