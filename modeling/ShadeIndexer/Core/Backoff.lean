import ShadeIndexer.Core.Reconnect

/-!
The delays of the reconnect loop. The backoff doubles with every reconnect of a
run, up to its maximum, and nothing ever sets it back. The delays that answer
consecutive failures alone are another function of the same attempts.
-/

namespace ShadeIndexer.Core

/-- The delay that `n` failures in a row call for. -/
def backoffAfter (n : Nat) : Nat := min (initialBackoff * 2 ^ n) reconnectBackoffMax

theorem backoffAfter_zero : backoffAfter 0 = initialBackoff := rfl

theorem backoffAfter_succ (n : Nat) :
    backoffAfter (n + 1) = min (backoffAfter n * 2) reconnectBackoffMax := by
  simp only [backoffAfter, pow_succ, reconnectBackoffMax, ← Nat.mul_assoc]
  omega

theorem backoffAfter_bounds (n : Nat) : 250 ≤ backoffAfter n ∧ backoffAfter n ≤ 30000 := by
  have hpow := Nat.one_le_two_pow (n := n)
  simp only [backoffAfter, initialBackoff, reconnectBackoffMax]
  omega

/-- Only the first delay is the initial one. -/
theorem backoffAfter_succ_ne (n : Nat) : backoffAfter (n + 1) ≠ backoffAfter 0 := by
  have hbounds := backoffAfter_bounds n
  rw [backoffAfter_succ, backoffAfter_zero, initialBackoff, reconnectBackoffMax]
  omega

def Attempt.subscribed (attempt : Attempt) : Bool :=
  match attempt.outcome with
  | .established _ => true
  | _ => false

/-- The attempts that a reconnect follows: all before the first that notices
that the receiver has been dropped. -/
def reconnects : List Attempt → Bool → List Attempt
  | [], _ => []
  | attempt :: rest, closed =>
    if attempt.noticesDrop closed then []
    else attempt :: reconnects rest (closed || attempt.drops)

/-- The delays that consecutive failures alone call for. `failures` counts the
attempts that ended since the last subscription was established. The end of
an established subscription is the first of them. -/
def consecutiveDelays : Nat → List Attempt → List Nat
  | _, [] => []
  | failures, attempt :: rest =>
    let failures := if attempt.subscribed then 0 else failures
    backoffAfter failures :: consecutiveDelays (failures + 1) rest

/-- The delays that `run` sleeps are those that consecutive failures call for. -/
structure DelaysReflectFailures (reg : FactoryRegistry) (attempts : List Attempt) : Prop where
  exact : (LaunchpadSubscriber.run reg attempts).slept =
    consecutiveDelays 0 (reconnects attempts false)
  bounds : ∀ delay ∈ (LaunchpadSubscriber.run reg attempts).slept, 250 ≤ delay ∧ delay ≤ 30000

/-- The loop counts every reconnect of the run, whatever lies between them. -/
theorem reconnectLoop_slept (reg : FactoryRegistry) (attempts : List Attempt) (n : Nat)
    (out : Sender) :
    (reconnectLoop reg attempts (backoffAfter n) out).slept =
      (List.range' n (reconnects attempts out.closed).length).map backoffAfter := by
  induction attempts generalizing n out with
  | nil => rfl
  | cons attempt rest ih =>
      have hclosed := (runOnce_spec reg attempt out).2
      rw [reconnectLoop_cons, reconnects]
      by_cases hnotices : attempt.noticesDrop out.closed
      · rw [if_pos hnotices, if_pos hnotices]
        rfl
      · rw [if_neg hnotices, if_neg hnotices, ← backoffAfter_succ]
        dsimp only
        rw [ih, hclosed, List.length_cons, List.range'_succ, List.map_cons]

theorem run_slept (reg : FactoryRegistry) (attempts : List Attempt) :
    (LaunchpadSubscriber.run reg attempts).slept =
      (List.range' 0 (reconnects attempts false).length).map backoffAfter :=
  reconnectLoop_slept reg attempts 0 .new

/-- After the first delay the two counts agree exactly while no subscription is
established. -/
theorem delays_agree_iff (attempts : List Attempt) (n : Nat) :
    (List.range' (n + 1) attempts.length).map backoffAfter = consecutiveDelays (n + 1) attempts ↔
      ∀ attempt ∈ attempts, attempt.subscribed = false := by
  induction attempts generalizing n with
  | nil => simp [consecutiveDelays]
  | cons attempt rest ih =>
      rw [List.length_cons, List.range'_succ, List.map_cons, consecutiveDelays]
      cases hsubscribed : attempt.subscribed with
      | true =>
          have hdiffer := backoffAfter_succ_ne n
          simp [hsubscribed, hdiffer]
      | false => simp [hsubscribed, ih]

/-- The delays reflect consecutive failures exactly in the runs in which no
subscription drops that was established by a later attempt than the first. -/
theorem delaysReflectFailures_iff (reg : FactoryRegistry) (attempts : List Attempt) :
    DelaysReflectFailures reg attempts ↔
      ∀ attempt ∈ (reconnects attempts false).tail, attempt.subscribed = false := by
  have hslept := run_slept reg attempts
  have hexact : (LaunchpadSubscriber.run reg attempts).slept =
      consecutiveDelays 0 (reconnects attempts false) ↔
        ∀ attempt ∈ (reconnects attempts false).tail, attempt.subscribed = false := by
    rw [hslept]
    cases reconnects attempts false with
    | nil => simp [consecutiveDelays]
    | cons first rest =>
        have hfirst : (if first.subscribed then 0 else 0) = 0 := ite_self 0
        rw [List.length_cons, List.range'_succ, List.map_cons, consecutiveDelays, hfirst,
          List.tail_cons, ← delays_agree_iff rest 0, List.cons_inj_right]
  constructor
  · intro h
    exact hexact.mp h.exact
  · intro h
    refine ⟨hexact.mpr h, ?_⟩
    intro delay hdelay
    rw [hslept] at hdelay
    obtain ⟨n, -, rfl⟩ := List.mem_map.mp hdelay
    exact backoffAfter_bounds n

/-- If a failed attempt counted towards its own delay, the first failure of a run
would call for twice the initial delay. Then the delays agree only in the runs
that begin with a subscription. -/
theorem run_slept_counting_own_failure_iff (reg : FactoryRegistry) (attempts : List Attempt) :
    (LaunchpadSubscriber.run reg attempts).slept =
        consecutiveDelays 1 (reconnects attempts false) ↔
      ∀ first rest, reconnects attempts false = first :: rest →
        first.subscribed = true ∧ ∀ attempt ∈ rest, attempt.subscribed = false := by
  rw [run_slept]
  cases reconnects attempts false with
  | nil => simp [consecutiveDelays]
  | cons first rest =>
      rw [List.length_cons, List.range'_succ, List.map_cons, consecutiveDelays]
      cases hsubscribed : first.subscribed with
      | true =>
          rw [if_pos rfl, List.cons_inj_right, delays_agree_iff rest 0]
          simp [hsubscribed]
      | false =>
          have hdiffer := (backoffAfter_succ_ne 0).symm
          simp [hsubscribed, hdiffer]

/-- A subscription that follows a failed connect and then drops costs twice the
initial delay, although nothing has failed since it was established. -/
theorem drop_after_failure_waits_longer :
    ¬ DelaysReflectFailures zoraOnly
      [⟨false, .connectFailed "refused"⟩, ⟨false, .established []⟩] := by
  intro h
  have hslept := h.exact
  revert hslept
  decide

end ShadeIndexer.Core
