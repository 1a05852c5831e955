import Mathlib.Data.List.Basic

/-!
Systems that take one step after the other. A step may be refused, and a run is
a list of steps none of which is. Two rules cover what a run preserves and how
long it can be.
-/

namespace ShadeIndexer.Lib.Transition

variable {σ α : Type}

def run (step : σ → α → Option σ) : σ → List α → Option σ
  | s, [] => some s
  | s, a :: rest => (step s a).bind fun next => run step next rest

/-- No step is possible any more. -/
def Stuck (step : σ → α → Option σ) (s : σ) : Prop := ∀ a, step s a = none

variable {step : σ → α → Option σ}

theorem run_cons {s t : σ} {a : α} {rest : List α} (h : run step s (a :: rest) = some t) :
    ∃ next, step s a = some next ∧ run step next rest = some t :=
  Option.bind_eq_some_iff.mp h

theorem run_append {s : σ} {first last : List α} :
    run step s (first ++ last) = (run step s first).bind fun mid => run step mid last := by
  induction first generalizing s with
  | nil => rfl
  | cons a rest ih =>
      simp only [List.cons_append, run]
      cases step s a with
      | none => rfl
      | some next => exact ih

/-- A run that goes on after `first` passes through the state `first` leads to. -/
theorem run_split {s t : σ} {first last : List α} (h : run step s (first ++ last) = some t) :
    ∃ mid, run step s first = some mid ∧ run step mid last = some t := by
  rw [run_append] at h
  exact Option.bind_eq_some_iff.mp h

/-- What every step preserves holds at the end of every run. -/
theorem run_invariant (inv : σ → Prop)
    (hstep : ∀ s a next, inv s → step s a = some next → inv next)
    {s t : σ} {actions : List α} (hs : inv s) (hrun : run step s actions = some t) : inv t := by
  induction actions generalizing s with
  | nil =>
      obtain rfl := Option.some.inj hrun
      exact hs
  | cons a rest ih =>
      obtain ⟨next, hnext, hrest⟩ := run_cons hrun
      exact ih (hstep s a next hs hnext) hrest

/-- If a step appends to an output what its action alone determines, a run
appends what its actions determine, in order. -/
theorem run_output {β : Type} (inv : σ → Prop) (out : σ → List β) (emit : α → List β)
    (hstep : ∀ s a next, inv s → step s a = some next → inv next ∧ out next = out s ++ emit a)
    {s t : σ} {actions : List α} (hs : inv s) (hrun : run step s actions = some t) :
    out t = out s ++ actions.flatMap emit := by
  induction actions generalizing s with
  | nil =>
      obtain rfl := Option.some.inj hrun
      simp
  | cons a rest ih =>
      obtain ⟨next, hnext, hrest⟩ := run_cons hrun
      obtain ⟨hinv, hout⟩ := hstep s a next hs hnext
      rw [ih hinv hrest, hout, List.flatMap_cons, List.append_assoc]

/-- A run from where `p` fails to where it holds takes a step at which it comes
to hold. -/
theorem run_crossing (p : σ → Prop) {s t : σ} {actions : List α} (hs : ¬ p s) (ht : p t)
    (hrun : run step s actions = some t) :
    ∃ before a after u v, actions = before ++ a :: after ∧ run step s before = some u ∧
      ¬ p u ∧ step u a = some v ∧ p v ∧ run step v after = some t := by
  induction actions generalizing s with
  | nil =>
      obtain rfl := Option.some.inj hrun
      exact absurd ht hs
  | cons a rest ih =>
      obtain ⟨next, hnext, hrest⟩ := run_cons hrun
      by_cases hp : p next
      · exact ⟨[], a, rest, s, next, rfl, rfl, hs, hnext, hp, hrest⟩
      · obtain ⟨before, b, after, u, v, hsplit, hbefore, hcross⟩ := ih hp hrest
        refine ⟨a :: before, b, after, u, v, by rw [hsplit, List.cons_append], ?_, hcross⟩
        rw [run, hnext]
        exact hbefore

/-- If every step makes the measure smaller, no run is longer than the measure
of its first state. -/
theorem run_length_le (inv : σ → Prop) (measure : σ → Nat)
    (hstep : ∀ s a next, inv s → step s a = some next → inv next ∧ measure next < measure s)
    {s t : σ} {actions : List α} (hs : inv s) (hrun : run step s actions = some t) :
    actions.length ≤ measure s := by
  induction actions generalizing s with
  | nil => exact Nat.zero_le _
  | cons a rest ih =>
      obtain ⟨next, hnext, hrest⟩ := run_cons hrun
      obtain ⟨hinv, hless⟩ := hstep s a next hs hnext
      have hlength := ih hinv hrest
      rw [List.length_cons]
      omega

end ShadeIndexer.Lib.Transition
