import ShadeIndexer.Lib.Transition

/-!
Runs whose steps are admitted, and runs of one system against runs of another. A
concrete step may stand for any number of abstract ones, and each abstract action
is answered for by the concrete action that it comes from. A system that is a
list of components runs each of them as a system of its own.
-/

namespace ShadeIndexer.Lib.Transition

variable {σ τ α β : Type} {step : σ → α → Option σ} {concrete : τ → β → Option τ}

/-- What every admitted step preserves holds at the end of every run whose
actions are all admitted. -/
theorem run_invariant_of (admitted : α → Prop) (inv : σ → Prop)
    (hstep : ∀ s a next, admitted a → inv s → step s a = some next → inv next)
    {s t : σ} {actions : List α} (hall : ∀ a ∈ actions, admitted a) (hs : inv s)
    (hrun : run step s actions = some t) : inv t := by
  induction actions generalizing s with
  | nil =>
      obtain rfl := Option.some.inj hrun
      exact hs
  | cons a rest ih =>
      obtain ⟨next, hnext, hrest⟩ := run_cons hrun
      have hhead := hall a (List.mem_cons_self ..)
      have htail : ∀ a ∈ rest, admitted a := fun b hb => hall b (List.mem_cons_of_mem _ hb)
      exact ih htail (hstep s a next hhead hs hnext) hrest

/-- What each step of one run preserves, at its own place in the run, holds at
the end of that run. -/
theorem run_invariant_along (inv : σ → Prop) {s t : σ} {actions : List α}
    (hstep : ∀ before a after u next, actions = before ++ a :: after →
      run step s before = some u → inv u → step u a = some next → inv next)
    (hs : inv s) (hrun : run step s actions = some t) : inv t := by
  induction actions generalizing s with
  | nil =>
      obtain rfl := Option.some.inj hrun
      exact hs
  | cons a rest ih =>
      obtain ⟨next, hnext, hrest⟩ := run_cons hrun
      refine ih ?_ (hstep [] a rest s next rfl rfl hs hnext) hrest
      intro before b after u later hsplit hbefore hu hlater
      refine hstep (a :: before) b after u later (by rw [hsplit, List.cons_append]) ?_ hu hlater
      rw [run, hnext]
      exact hbefore

/-- If every admitted step makes the measure smaller, no run of admitted steps is
longer than the measure of its first state. -/
theorem run_length_le_of (admitted : α → Prop) (inv : σ → Prop) (measure : σ → Nat)
    (hstep : ∀ s a next, admitted a → inv s → step s a = some next →
      inv next ∧ measure next < measure s)
    {s t : σ} {actions : List α} (hall : ∀ a ∈ actions, admitted a) (hs : inv s)
    (hrun : run step s actions = some t) : actions.length ≤ measure s := by
  induction actions generalizing s with
  | nil => exact Nat.zero_le _
  | cons a rest ih =>
      obtain ⟨next, hnext, hrest⟩ := run_cons hrun
      obtain ⟨hinv, hless⟩ := hstep s a next (hall a (List.mem_cons_self ..)) hs hnext
      have hlength := ih (fun b hb => hall b (List.mem_cons_of_mem _ hb)) hinv hrest
      rw [List.length_cons]
      omega

/-- A run of the abstract system whose actions all come from the given concrete
actions. -/
def Matched (step : σ → α → Option σ) (stands : β → α → Prop) (s : σ) (actions : List β)
    (t : σ) : Prop :=
  ∃ abstract, run step s abstract = some t ∧ ∀ a ∈ abstract, ∃ b ∈ actions, stands b a

/-- If every concrete step is matched by an abstract run, so is every concrete
run. -/
theorem run_simulates (stands : β → α → Prop) (abs : τ → σ) (inv : τ → Prop)
    (hstep : ∀ t b next, inv t → concrete t b = some next →
      inv next ∧ Matched step stands (abs t) [b] (abs next))
    {t u : τ} {actions : List β} (ht : inv t) (hrun : run concrete t actions = some u) :
    inv u ∧ Matched step stands (abs t) actions (abs u) := by
  induction actions generalizing t with
  | nil =>
      obtain rfl := Option.some.inj hrun
      exact ⟨ht, [], rfl, by simp⟩
  | cons b rest ih =>
      obtain ⟨next, hnext, hrest⟩ := run_cons hrun
      obtain ⟨hinv, first, hfirst, hfrom⟩ := hstep t b next ht hnext
      obtain ⟨hinvEnd, later, hlater, hfromRest⟩ := ih hinv hrest
      refine ⟨hinvEnd, first ++ later, ?_, ?_⟩
      · rw [run_append, hfirst]
        exact hlater
      · intro a ha
        rcases List.mem_append.mp ha with hhead | htail
        · obtain ⟨c, hc, hstands⟩ := hfrom a hhead
          obtain rfl := List.mem_singleton.mp hc
          exact ⟨c, List.mem_cons_self .., hstands⟩
        · obtain ⟨c, hc, hstands⟩ := hfromRest a htail
          exact ⟨c, List.mem_cons_of_mem _ hc, hstands⟩

variable {γ κ δ : Type} {single : γ → κ → Option γ}

/-- If every step takes each component through a run of its own, which starts at
`init` where the component is new, so does every run. What the components emit
is what the actions determine, component by component. -/
theorem run_components (inv : σ → Prop) (components : σ → List γ) (init : γ)
    (emit : κ → List δ) (out : Nat → α → List δ)
    (hstep : ∀ s a next, inv s → step s a = some next → inv next ∧
      (∀ i, (components next)[i]? = none → (components s)[i]? = none ∧ out i a = []) ∧
      ∀ i c, (components next)[i]? = some c →
        ∃ own, run single ((components s)[i]?.getD init) own = some c ∧
          own.flatMap emit = out i a)
    {s t : σ} {actions : List α} (hs : inv s) (hrun : run step s actions = some t) (i : Nat)
    (c : γ) (hc : (components t)[i]? = some c) :
    ∃ own, run single ((components s)[i]?.getD init) own = some c ∧
      own.flatMap emit = actions.flatMap (out i) := by
  induction actions generalizing s with
  | nil =>
      obtain rfl := Option.some.inj hrun
      exact ⟨[], by rw [hc]; rfl, rfl⟩
  | cons a rest ih =>
      obtain ⟨next, hnext, hrest⟩ := run_cons hrun
      obtain ⟨hinv, habsent, hpresent⟩ := hstep s a next hs hnext
      obtain ⟨later, hlater, hemit⟩ := ih hinv hrest
      cases hmid : (components next)[i]? with
      | none =>
          obtain ⟨hnone, hsilent⟩ := habsent i hmid
          rw [hmid] at hlater
          rw [hnone, List.flatMap_cons, hsilent, List.nil_append]
          exact ⟨later, hlater, hemit⟩
      | some mid =>
          obtain ⟨first, hfirst, hemitFirst⟩ := hpresent i mid hmid
          rw [hmid] at hlater
          refine ⟨first ++ later, ?_, ?_⟩
          · rw [run_append, hfirst]
            exact hlater
          · rw [List.flatMap_append, List.flatMap_cons, hemitFirst, hemit]

end ShadeIndexer.Lib.Transition
