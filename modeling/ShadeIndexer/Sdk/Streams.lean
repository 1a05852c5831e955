import ShadeIndexer.Sdk.Close

/-!
A client whose `stream()` is called more than once. The streams share the closed
flag and the field `this.consumer`, which the one that was started last has
written. A caller may also leave a stream, as `break` leaves a `for await` loop:
that calls `return()` between two deploys, and the generator completes without a
word to its consumer.
-/

namespace ShadeIndexer.Sdk

open Lib.Transition

variable {JsonValue SyntaxError ZodError Deploy : Type}

/-- A generator object in the hands of the caller. -/
structure Handle (SyntaxError ZodError Deploy : Type) where
  stream : Stream SyntaxError ZodError Deploy
  /-- Whether the caller has left it. -/
  returned : Bool
  /-- The `next()` calls since then, each of which is answered with `done`. -/
  late : Nat

/-- The call of `close()`, with the stream whose consumer it has found. -/
inductive ClientClose where
  | notCalled
  | waiting (target : Option Nat)
  | returned (target : Option Nat)
  deriving DecidableEq, Repr

/-- A stream is known by its position among those made so far. -/
structure ClientState (SyntaxError ZodError Deploy : Type) where
  client : IndexerClient
  handles : List (Handle SyntaxError ZodError Deploy)
  /-- The stream whose consumer `this.consumer` is. -/
  consumer : Option Nat
  closeCall : ClientClose

def IndexerClient.state (client : IndexerClient) : ClientState SyntaxError ZodError Deploy where
  client := client
  handles := []
  consumer := none
  closeCall := .notCalled

inductive ClientAction where
  | stream
  /-- A step of one stream. -/
  | on (i : Nat) (action : Action)
  | left (i : Nat)
  | close
  | closeReturned
  deriving DecidableEq, Repr

/-- The first `next()` runs the body of the generator, which makes the consumer. -/
def Stream.starts (s : Stream SyntaxError ZodError Deploy) (action : Action) : Bool :=
  match action, s.generator with
  | .next, .suspendedStart => true
  | _, _ => false

/-- The actions that are one stream's own. -/
def Action.own : Action → Bool
  | .close | .closeReturned => false
  | _ => true

namespace ClientState

/-- What `stream()` returns. The flag is one for all streams. -/
def fresh (s : ClientState SyntaxError ZodError Deploy) : Handle SyntaxError ZodError Deploy where
  stream := if s.closeCall = .notCalled then s.client.stream else s.client.stream.close
  returned := false
  late := 0

def stepHandle (codec : Codec JsonValue SyntaxError ZodError Deploy)
    (s : ClientState SyntaxError ZodError Deploy) (i : Nat)
    (handle : Handle SyntaxError ZodError Deploy) (action : Action) :
    Option (ClientState SyntaxError ZodError Deploy) :=
  if !action.own then none
  else if handle.returned && action = .next then
    some { s with handles := s.handles.set i { handle with late := handle.late + 1 } }
  else
    (handle.stream.step codec action).map fun stream =>
      { s with
        handles := s.handles.set i { handle with stream := stream }
        consumer := if handle.stream.starts action then some i else s.consumer }

def close (s : ClientState SyntaxError ZodError Deploy) :
    ClientState SyntaxError ZodError Deploy :=
  { s with
    handles := s.handles.map fun handle => { handle with stream := handle.stream.close }
    closeCall := .waiting s.consumer }

def closeReturned (s : ClientState SyntaxError ZodError Deploy) (target : Option Nat) :
    ClientState SyntaxError ZodError Deploy :=
  { s with
    handles :=
      match target with
      | none => s.handles
      | some i =>
        s.handles.modify i fun handle => { handle with stream := handle.stream.closeReturned true }
    closeCall := .returned target }

def step (codec : Codec JsonValue SyntaxError ZodError Deploy)
    (s : ClientState SyntaxError ZodError Deploy) :
    ClientAction → Option (ClientState SyntaxError ZodError Deploy)
  | .stream => some { s with handles := s.handles ++ [s.fresh] }
  | .on i action =>
    match s.handles[i]? with
    | some handle => s.stepHandle codec i handle action
    | none => none
  | .left i =>
    match s.handles[i]? with
    | some handle =>
      if handle.stream.generator.running then none
      else some { s with handles := s.handles.set i { handle with returned := true } }
    | none => none
  | .close => if s.closeCall = .notCalled then some s.close else none
  | .closeReturned =>
    match s.closeCall with
    | .waiting target => some (s.closeReturned target)
    | _ => none

end ClientState

/-- The deploys that a step takes in for one of the streams. -/
def ClientAction.received (codec : Codec JsonValue SyntaxError ZodError Deploy) (i : Nat) :
    ClientAction → List Deploy
  | .on j action => if j = i then validDeploys codec action else []
  | _ => []

namespace ClientState

variable {codec : Codec JsonValue SyntaxError ZodError Deploy}
  {s after : ClientState SyntaxError ZodError Deploy} {a : ClientAction}

/-- Everything a step can do. -/
inductive StepSpec (codec : Codec JsonValue SyntaxError ZodError Deploy)
    (s : ClientState SyntaxError ZodError Deploy) :
    ClientAction → ClientState SyntaxError ZodError Deploy → Prop where
  | stream : StepSpec codec s .stream { s with handles := s.handles ++ [s.fresh] }
  | late {i : Nat} {handle : Handle SyntaxError ZodError Deploy}
      (hhandle : s.handles[i]? = some handle) (hreturned : handle.returned = true) :
      StepSpec codec s (.on i .next)
        { s with handles := s.handles.set i { handle with late := handle.late + 1 } }
  | own {i : Nat} {handle : Handle SyntaxError ZodError Deploy} {action : Action}
      {stream : Stream SyntaxError ZodError Deploy} (hhandle : s.handles[i]? = some handle)
      (hown : action.own = true) (hactive : handle.returned = true → action ≠ .next)
      (hstream : handle.stream.step codec action = some stream) :
      StepSpec codec s (.on i action)
        { s with
          handles := s.handles.set i { handle with stream := stream }
          consumer := if handle.stream.starts action then some i else s.consumer }
  | left {i : Nat} {handle : Handle SyntaxError ZodError Deploy}
      (hhandle : s.handles[i]? = some handle)
      (hidle : handle.stream.generator.running = false) :
      StepSpec codec s (.left i)
        { s with handles := s.handles.set i { handle with returned := true } }
  | close (hcall : s.closeCall = .notCalled) : StepSpec codec s .close s.close
  | closeReturned {target : Option Nat} (hcall : s.closeCall = .waiting target) :
      StepSpec codec s .closeReturned (s.closeReturned target)

theorem stepHandle_spec {i : Nat} {handle : Handle SyntaxError ZodError Deploy} {action : Action}
    (hhandle : s.handles[i]? = some handle)
    (hstep : s.stepHandle codec i handle action = some after) :
    StepSpec codec s (.on i action) after := by
  unfold stepHandle at hstep
  split at hstep
  · cases hstep
  · rename_i hown
    split at hstep
    · rename_i hlate
      obtain ⟨hreturned, hnext⟩ := Bool.and_eq_true_iff.mp hlate
      obtain rfl := of_decide_eq_true hnext
      obtain rfl := Option.some.inj hstep
      exact .late hhandle hreturned
    · rename_i hlate
      obtain ⟨stream, hstream, rfl⟩ := Option.map_eq_some_iff.mp hstep
      refine .own hhandle (by simpa using hown) ?_ hstream
      intro hreturned hnext
      exact hlate (by simp [hreturned, hnext])

theorem step_spec (hstep : step codec s a = some after) : StepSpec codec s a after := by
  cases a with
  | stream =>
      obtain rfl := Option.some.inj hstep
      exact .stream
  | on i action =>
      simp only [step] at hstep
      split at hstep
      · exact stepHandle_spec ‹_› hstep
      · cases hstep
  | left i =>
      simp only [step] at hstep
      split at hstep
      · split at hstep
        · cases hstep
        · rename_i handle hhandle hidle
          obtain rfl := Option.some.inj hstep
          exact .left hhandle (by simpa using hidle)
      · cases hstep
  | close =>
      simp only [step] at hstep
      split at hstep
      · obtain rfl := Option.some.inj hstep
        exact .close ‹_›
      · cases hstep
  | closeReturned =>
      simp only [step] at hstep
      split at hstep
      · obtain rfl := Option.some.inj hstep
        exact .closeReturned ‹_›
      · cases hstep

/-- The client refers to the stream only where it did before. -/
structure Elsewhere (s : ClientState SyntaxError ZodError Deploy) (i : Nat)
    (after : ClientState SyntaxError ZodError Deploy) : Prop where
  unclosed : after.closeCall = .notCalled → s.closeCall = .notCalled
  closing : after.closeCall = .waiting (some i) → s.closeCall = .waiting (some i)
  current : after.consumer = some i → s.consumer = some i

/-- Everything a step can do to the handle of one stream. -/
inductive HandleStep (codec : Codec JsonValue SyntaxError ZodError Deploy)
    (s : ClientState SyntaxError ZodError Deploy) (i : Nat)
    (h : Handle SyntaxError ZodError Deploy) :
    ClientAction → ClientState SyntaxError ZodError Deploy →
      Handle SyntaxError ZodError Deploy → Prop where
  | untouched {a : ClientAction} {after : ClientState SyntaxError ZodError Deploy}
      (hreceived : a.received codec i = []) (helsewhere : Elsewhere s i after) :
      HandleStep codec s i h a after h
  | late {after : ClientState SyntaxError ZodError Deploy} (hreturned : h.returned = true)
      (helsewhere : Elsewhere s i after) :
      HandleStep codec s i h (.on i .next) after { h with late := h.late + 1 }
  | own {action : Action} {stream : Stream SyntaxError ZodError Deploy}
      {after : ClientState SyntaxError ZodError Deploy} (hown : action.own = true)
      (hactive : h.returned = true → action ≠ .next)
      (hstream : h.stream.step codec action = some stream)
      (hclose : after.closeCall = s.closeCall)
      (hcurrent : after.consumer = some i → s.consumer = some i ∨ h.stream.starts action = true) :
      HandleStep codec s i h (.on i action) after { h with stream := stream }
  | left {after : ClientState SyntaxError ZodError Deploy}
      (hidle : h.stream.generator.running = false) (helsewhere : Elsewhere s i after) :
      HandleStep codec s i h (.left i) after { h with returned := true }
  | close (hcall : s.closeCall = .notCalled) :
      HandleStep codec s i h .close s.close { h with stream := h.stream.close }
  | disconnected (hcall : s.closeCall = .waiting (some i)) :
      HandleStep codec s i h .closeReturned (s.closeReturned (some i))
        { h with stream := h.stream.closeReturned true }

theorem elsewhere_of_eq {i : Nat} (hclose : after.closeCall = s.closeCall)
    (hconsumer : after.consumer = s.consumer) : Elsewhere s i after :=
  ⟨hclose.symm.trans, hclose.symm.trans, hconsumer.symm.trans⟩

/-- Reading a list of which one element was replaced. -/
theorem getElem?_set_cases {α : Type} {l : List α} {i j : Nat} {x y : α}
    (h : (l.set j x)[i]? = some y) : (j = i ∧ y = x) ∨ (j ≠ i ∧ l[i]? = some y) := by
  rcases eq_or_ne j i with rfl | hne
  · have hbound : j < l.length := by
      simpa using (List.getElem?_eq_some_iff.mp h).1
    rw [List.getElem?_set_self hbound] at h
    exact Or.inl ⟨rfl, (Option.some.inj h).symm⟩
  · rw [List.getElem?_set_ne hne] at h
    exact Or.inr ⟨hne, h⟩

theorem step_handle (hstep : step codec s a = some after) {i : Nat}
    {h' : Handle SyntaxError ZodError Deploy} (hi : after.handles[i]? = some h') :
    (s.handles[i]? = none ∧ a = .stream ∧ h' = s.fresh) ∨
      ∃ h, s.handles[i]? = some h ∧ HandleStep codec s i h a after h' := by
  cases step_spec hstep with
  | stream =>
      rcases Nat.lt_or_ge i s.handles.length with hold | hnew
      · rw [List.getElem?_append_left hold] at hi
        exact Or.inr ⟨h', hi, .untouched rfl (elsewhere_of_eq rfl rfl)⟩
      · rw [List.getElem?_append_right hnew] at hi
        have hfresh := List.mem_of_getElem? hi
        exact Or.inl ⟨List.getElem?_eq_none hnew, rfl, List.mem_singleton.mp hfresh⟩
  | @late j handle hhandle hreturned =>
      obtain ⟨rfl, rfl⟩ | ⟨hne, hsame⟩ := getElem?_set_cases hi
      · exact Or.inr ⟨handle, hhandle, .late hreturned (elsewhere_of_eq rfl rfl)⟩
      · exact Or.inr ⟨h', hsame, .untouched (if_neg hne) (elsewhere_of_eq rfl rfl)⟩
  | @own j handle action stream hhandle hown hactive hstream =>
      obtain ⟨rfl, rfl⟩ | ⟨hne, hsame⟩ := getElem?_set_cases hi
      · refine Or.inr ⟨handle, hhandle, .own hown hactive hstream rfl ?_⟩
        intro hcurrent
        cases hstarts : handle.stream.starts action with
        | true => exact Or.inr rfl
        | false =>
            simp only [hstarts, Bool.false_eq_true, if_false] at hcurrent
            exact Or.inl hcurrent
      · refine Or.inr ⟨h', hsame, .untouched (if_neg hne) ⟨id, id, ?_⟩⟩
        intro hcurrent
        dsimp only at hcurrent
        split at hcurrent
        · exact absurd (Option.some.inj hcurrent) hne
        · exact hcurrent
  | @left j handle hhandle hidle =>
      obtain ⟨rfl, rfl⟩ | ⟨hne, hsame⟩ := getElem?_set_cases hi
      · exact Or.inr ⟨handle, hhandle, .left hidle (elsewhere_of_eq rfl rfl)⟩
      · exact Or.inr ⟨h', hsame, .untouched rfl (elsewhere_of_eq rfl rfl)⟩
  | close hcall =>
      obtain ⟨h, hh, rfl⟩ := Option.map_eq_some_iff.mp (List.getElem?_map .. ▸ hi)
      exact Or.inr ⟨h, hh, .close hcall⟩
  | @closeReturned target hcall =>
      have helsewhere : Elsewhere s i (s.closeReturned target) :=
        ⟨by simp [closeReturned], by simp [closeReturned], id⟩
      cases target with
      | none => exact Or.inr ⟨h', hi, .untouched rfl helsewhere⟩
      | some j =>
          simp only [closeReturned, List.getElem?_modify] at hi
          obtain ⟨h, hh, hmodified⟩ := Option.map_eq_some_iff.mp hi
          split at hmodified
          · rename_i hsame
            subst hsame hmodified
            exact Or.inr ⟨h, hh, .disconnected hcall⟩
          · obtain rfl := hmodified
            exact Or.inr ⟨h, hh, .untouched rfl helsewhere⟩

/-- A step forgets no stream, and it is about none that does not exist. -/
theorem step_absent (hstep : step codec s a = some after) {i : Nat}
    (hi : after.handles[i]? = none) :
    s.handles[i]? = none ∧ a.received codec i = [] ∧
      (s.consumer ≠ some i ∧ s.closeCall ≠ .waiting (some i) →
        after.consumer ≠ some i ∧ after.closeCall ≠ .waiting (some i)) := by
  rw [List.getElem?_eq_none_iff] at hi ⊢
  cases step_spec hstep with
  | stream =>
      rw [List.length_append] at hi
      exact ⟨by omega, rfl, id⟩
  | late hhandle =>
      have hbound := (List.getElem?_eq_some_iff.mp hhandle).1
      rw [List.length_set] at hi
      exact ⟨hi, if_neg (by omega), id⟩
  | own hhandle =>
      have hbound := (List.getElem?_eq_some_iff.mp hhandle).1
      rw [List.length_set] at hi
      refine ⟨hi, if_neg (by omega), fun h => ⟨?_, h.2⟩⟩
      dsimp only
      split
      · intro hsome
        have hsame := Option.some.inj hsome
        omega
      · exact h.1
  | left =>
      rw [List.length_set] at hi
      exact ⟨hi, rfl, id⟩
  | close =>
      rw [close, List.length_map] at hi
      refine ⟨hi, rfl, fun h => ⟨h.1, ?_⟩⟩
      intro hwaiting
      exact h.1 (by simpa [close] using hwaiting)
  | @closeReturned target =>
      refine ⟨?_, rfl, fun h => ⟨h.1, by simp [closeReturned]⟩⟩
      cases target with
      | none => exact hi
      | some j => simpa [closeReturned] using hi

/-- A handle that is there stays, and a step does one of the above to it. -/
theorem step_present (hstep : step codec s a = some after) {i : Nat}
    {h : Handle SyntaxError ZodError Deploy} (hi : s.handles[i]? = some h) :
    ∃ h', after.handles[i]? = some h' ∧ HandleStep codec s i h a after h' := by
  cases hafter : after.handles[i]? with
  | none =>
      have hnone := (step_absent hstep hafter).1
      rw [hi] at hnone
      cases hnone
  | some h' =>
      refine ⟨h', rfl, ?_⟩
      obtain ⟨hnone, -, -⟩ | ⟨handle, hhandle, hspec⟩ := step_handle hstep hafter
      · rw [hi] at hnone
        cases hnone
      · rw [hi] at hhandle
        obtain rfl := Option.some.inj hhandle
        exact hspec

theorem step_client (hstep : step codec s a = some after) : after.client = s.client := by
  cases step_spec hstep <;> rfl

end ClientState

end ShadeIndexer.Sdk
