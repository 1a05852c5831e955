import Mathlib.Data.List.Basic

/-!
Failures of Rust code. A fallible function either returns `Ok`, returns an
error value that its caller can inspect, or panics. A panic is not an error
value: no `?`, `ok()` or `unwrap_or` catches it, and it passes through every
caller. The slice accesses below panic exactly where Rust's do.
-/

namespace ShadeIndexer.Lib.Rust

inductive Panic where
  | sliceIndex
  | indexOutOfBounds
  | uintConversion
  deriving DecidableEq, Repr

inductive Fault (ε : Type) where
  | panic (reason : Panic)
  | error (e : ε)
  deriving DecidableEq, Repr

abbrev Result (ε α : Type) := Except (Fault ε) α

variable {ε ε' α β : Type}

/-- `Result::ok` turns an error into `None`. A panic goes on unwinding. -/
def Result.ok? : Result ε α → Result ε' (Option α)
  | .ok a => .ok (some a)
  | .error (.error _) => .ok none
  | .error (.panic p) => .error (.panic p)

/-- The run ended in a value or an error value, but not in a panic. -/
def PanicFree : Result ε α → Prop
  | .error (.panic _) => False
  | _ => True

/-- `&xs[..n]`. -/
def sliceTo (xs : List α) (n : Nat) : Result ε (List α) :=
  if n ≤ xs.length then .ok (xs.take n) else .error (.panic .sliceIndex)

/-- `xs[i]`. -/
def index (xs : List α) (i : Nat) : Result ε α :=
  match xs[i]? with
  | some x => .ok x
  | none => .error (.panic .indexOutOfBounds)

/-- `xs.get(start..stop)`, which returns `None` instead of panicking. -/
def getRange (xs : List α) (start stop : Nat) : Option (List α) :=
  if start ≤ stop ∧ stop ≤ xs.length then some ((xs.take stop).drop start) else none

theorem sliceTo_of_le (xs : List α) (n : Nat) (h : n ≤ xs.length) :
    (sliceTo xs n : Result ε (List α)) = .ok (xs.take n) := by
  simp [sliceTo, h]

/-- A slice that `get` returns has exactly the length that was asked for. -/
theorem getRange_length (xs : List α) (start stop : Nat) (chunk : List α)
    (h : getRange xs start stop = some chunk) : chunk.length = stop - start := by
  unfold getRange at h
  split at h
  · rename_i hbounds
    simp only [Option.some.injEq] at h
    subst h
    simp only [List.length_drop, List.length_take]
    omega
  · cases h

/-- What follows the range does not matter. -/
theorem getRange_append (chunk rest : List α) :
    getRange (chunk ++ rest) 0 chunk.length = some chunk := by
  simp [getRange]

@[simp] theorem ok_bind (a : α) (f : α → Result ε β) :
    ((.ok a : Result ε α) >>= f) = f a := rfl

@[simp] theorem error_bind (e : Fault ε) (f : α → Result ε β) :
    ((.error e : Result ε α) >>= f) = .error e := rfl

/-- A sequence that returns went through both of its steps. -/
theorem bind_eq_ok {x : Result ε α} {f : α → Result ε β} {b : β} (h : x >>= f = .ok b) :
    ∃ a, x = .ok a ∧ f a = .ok b := by
  cases x with
  | ok a => exact ⟨a, rfl, h⟩
  | error fault => cases h

/-- Panic freedom of a sequence: the first step cannot panic, and neither can
the rest on any value the first step returns. -/
theorem PanicFree.bind {x : Result ε α} {f : α → Result ε β} (hx : PanicFree x)
    (hf : ∀ a, x = .ok a → PanicFree (f a)) : PanicFree (x >>= f) := by
  cases x with
  | ok a => exact hf a rfl
  | error fault =>
      cases fault with
      | panic p => exact hx.elim
      | error e => trivial

theorem PanicFree.ok? {x : Result ε α} (hx : PanicFree x) :
    PanicFree (x.ok? : Result ε' (Option α)) := by
  cases x with
  | ok a => trivial
  | error fault =>
      cases fault with
      | panic p => exact hx.elim
      | error e => trivial

end ShadeIndexer.Lib.Rust
