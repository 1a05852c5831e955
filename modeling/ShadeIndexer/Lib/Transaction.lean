import Mathlib.Data.List.Basic

/-!
A transactional message log as one producer sees it. Messages sent inside a
transaction are staged, and they become visible to consumers of committed
messages together, when that transaction commits, or never. An outcome says
what the outside world answers to one operation. After an error the broker may
or may not have acted on the request, so the outcome of a failed operation
says which, and whether the producer regards the transaction as closed.
-/

namespace ShadeIndexer.Lib.Transaction

variable {μ ε : Type}

/-- `staged` is `none` when no transaction is open. -/
structure Session (μ : Type) where
  staged : Option (List μ)
  visible : List μ
  deriving DecidableEq

def Session.fresh : Session μ := ⟨none, []⟩

inductive SendOutcome (ε : Type) where
  | ok
  | err (e : ε) (reached : Bool)

inductive AbortOutcome (ε : Type) where
  | ok
  | err (e : ε) (closed : Bool)

inductive CommitOutcome (ε : Type) where
  | ok
  | err (e : ε) (applied closed : Bool)

/-- A second `begin` is refused with `wrongState` and changes nothing. -/
def Session.beginTransaction (wrongState : ε) (s : Session μ) (outcome : Option ε) :
    Except ε Unit × Session μ :=
  match s.staged, outcome with
  | some _, _ => (.error wrongState, s)
  | none, some e => (.error e, s)
  | none, none => (.ok (), { s with staged := some [] })

def Session.send (wrongState : ε) (s : Session μ) (m : μ) (outcome : SendOutcome ε) :
    Except ε Unit × Session μ :=
  match s.staged, outcome with
  | none, _ => (.error wrongState, s)
  | some ms, .ok => (.ok (), { s with staged := some (ms ++ [m]) })
  | some ms, .err e reached =>
      (.error e, { s with staged := some (if reached then ms ++ [m] else ms) })

def Session.abortTransaction (s : Session μ) (outcome : AbortOutcome ε) :
    Except ε Unit × Session μ :=
  match outcome with
  | .ok => (.ok (), { s with staged := none })
  | .err e true => (.error e, { s with staged := none })
  | .err e false => (.error e, s)

/-- What is left staged after a failed commit that was not applied stays in
the transaction, if that is still open. -/
def Session.commitTransaction (wrongState : ε) (s : Session μ) (outcome : CommitOutcome ε) :
    Except ε Unit × Session μ :=
  match s.staged, outcome with
  | none, _ => (.error wrongState, s)
  | some ms, .ok => (.ok (), ⟨none, s.visible ++ ms⟩)
  | some ms, .err e applied closed =>
      (.error e,
        ⟨if closed then none else some (if applied then [] else ms),
          if applied then s.visible ++ ms else s.visible⟩)

theorem begin_cases (wrongState : ε) (s : Session μ) (outcome : Option ε) :
    (s.staged = none ∧ outcome = none ∧
        s.beginTransaction wrongState none = (.ok (), ⟨some [], s.visible⟩)) ∨
      ((s.staged.isSome = true ∨ outcome.isSome = true) ∧
        ∃ e, s.beginTransaction wrongState outcome = (.error e, s)) := by
  obtain ⟨staged, visible⟩ := s
  cases staged with
  | some ms => exact Or.inr ⟨Or.inl rfl, wrongState, rfl⟩
  | none =>
      cases outcome with
      | some e => exact Or.inr ⟨Or.inr rfl, e, rfl⟩
      | none => exact Or.inl ⟨rfl, rfl, rfl⟩

/-- The log that results when each batch of a history is committed as a whole
or not at all. -/
def committedLog (history : List (List μ × Bool)) : List μ :=
  history.flatMap fun entry => if entry.2 then entry.1 else []

@[simp] theorem committedLog_nil : committedLog ([] : List (List μ × Bool)) = [] := rfl

@[simp] theorem committedLog_cons (batch : List μ) (mark : Bool)
    (history : List (List μ × Bool)) :
    committedLog ((batch, mark) :: history) =
      (if mark then batch else []) ++ committedLog history := rfl

end ShadeIndexer.Lib.Transaction
