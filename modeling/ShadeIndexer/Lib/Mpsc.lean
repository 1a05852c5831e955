import Mathlib.Data.List.Basic

/-!
A bounded FIFO channel between one sender and one receiver. A send waits while
the queue is full and fails once the receiver is gone. A receive waits while
the queue is empty and ends once the sender is gone as well. The capacity is
positive, so a send and a receive never wait for each other.
-/

namespace ShadeIndexer.Lib.Mpsc

variable {α : Type}

structure Channel (α : Type) where
  queue : List α
  capacity : Nat
  senderAlive : Bool
  receiverAlive : Bool
  capacity_pos : 0 < capacity
  bounded : queue.length ≤ capacity

inductive Sent (α : Type) where
  | delivered (ch : Channel α)
  | full
  | closed

inductive Received (α : Type) where
  | item (a : α) (ch : Channel α)
  | ended
  | pending

namespace Channel

def new (capacity : Nat) (h : 0 < capacity) : Channel α where
  queue := []
  capacity := capacity
  senderAlive := true
  receiverAlive := true
  capacity_pos := h
  bounded := Nat.zero_le _

def send (ch : Channel α) (a : α) : Sent α :=
  if ch.receiverAlive then
    if h : ch.queue.length < ch.capacity then
      .delivered
        { ch with
          queue := ch.queue ++ [a]
          bounded := by
            rw [List.length_append]
            exact h }
    else .full
  else .closed

def recv (ch : Channel α) : Received α :=
  match h : ch.queue with
  | a :: rest =>
    .item a
      { ch with
        queue := rest
        bounded := by
          have hbounded := ch.bounded
          rw [h, List.length_cons] at hbounded
          omega }
  | [] => if ch.senderAlive then .pending else .ended

def dropSender (ch : Channel α) : Channel α := { ch with senderAlive := false }

/-- What is still queued is lost with the receiver. -/
def dropReceiver (ch : Channel α) : Channel α :=
  { ch with receiverAlive := false, queue := [], bounded := Nat.zero_le _ }

/-- A channel after a transfer: another queue, and the same ends. -/
structure Moved (ch next : Channel α) (queue : List α) : Prop where
  queue : next.queue = queue
  senderAlive : next.senderAlive = ch.senderAlive
  receiverAlive : next.receiverAlive = ch.receiverAlive

theorem send_delivered {ch next : Channel α} {a : α} (h : ch.send a = .delivered next) :
    ch.receiverAlive = true ∧ Moved ch next (ch.queue ++ [a]) := by
  unfold send at h
  split at h
  · rename_i hreceiver
    split at h
    · obtain rfl := Sent.delivered.inj h
      exact ⟨hreceiver, rfl, rfl, rfl⟩
    · cases h
  · cases h

theorem send_closed {ch : Channel α} {a : α} (h : ch.send a = .closed) :
    ch.receiverAlive = false := by
  unfold send at h
  split at h
  · split at h <;> cases h
  · rename_i hreceiver
    simpa using hreceiver

/-- A send waits only while there is something to receive. -/
theorem send_full {ch : Channel α} {a : α} (h : ch.send a = .full) : ch.queue ≠ [] := by
  unfold send at h
  split at h
  · split at h
    · cases h
    · rename_i hfull
      have hpos := ch.capacity_pos
      intro hempty
      rw [hempty, List.length_nil] at hfull
      exact hfull hpos
  · cases h

theorem recv_item {ch next : Channel α} {a : α} (h : ch.recv = .item a next) :
    ∃ rest, ch.queue = a :: rest ∧ Moved ch next rest := by
  unfold recv at h
  split at h
  · rename_i head rest hqueue
    obtain ⟨rfl, rfl⟩ := Received.item.inj h
    exact ⟨rest, hqueue, rfl, rfl, rfl⟩
  · split at h <;> cases h

theorem recv_ended {ch : Channel α} (h : ch.recv = .ended) :
    ch.queue = [] ∧ ch.senderAlive = false := by
  unfold recv at h
  split at h
  · cases h
  · rename_i hqueue
    split at h
    · cases h
    · rename_i hsender
      exact ⟨hqueue, by simpa using hsender⟩

theorem recv_pending {ch : Channel α} (h : ch.recv = .pending) :
    ch.queue = [] ∧ ch.senderAlive = true := by
  unfold recv at h
  split at h
  · cases h
  · rename_i hqueue
    split at h
    · rename_i hsender
      exact ⟨hqueue, hsender⟩
    · cases h

theorem send_capacity {ch next : Channel α} {a : α} (h : ch.send a = .delivered next) :
    next.capacity = ch.capacity := by
  unfold send at h
  split at h
  · split at h
    · obtain rfl := Sent.delivered.inj h
      rfl
    · cases h
  · cases h

theorem recv_capacity {ch next : Channel α} {a : α} (h : ch.recv = .item a next) :
    next.capacity = ch.capacity := by
  unfold recv at h
  split at h
  · obtain ⟨-, rfl⟩ := Received.item.inj h
    rfl
  · split at h <;> cases h

/-- What is queued can be received whether the sender is there or not. -/
theorem recv_dropSender {ch next : Channel α} {a : α} (h : ch.recv = .item a next) :
    ch.dropSender.recv = .item a next.dropSender := by
  obtain ⟨queue, capacity, senderAlive, receiverAlive, hpos, hbounded⟩ := ch
  cases queue with
  | nil => cases senderAlive <;> cases h
  | cons head rest =>
      obtain ⟨rfl, rfl⟩ := Received.item.inj h
      rfl

/-- A channel between two tasks, of which each keeps its end alive exactly
while it runs. The receiver ends only after the sender has ended and the queue
is empty, so nothing is lost with it. -/
structure Link (ch : Channel α) (sending receiving : Bool) : Prop where
  sender : ch.senderAlive = sending
  receiver : ch.receiverAlive = receiving
  drained : receiving = false → sending = false ∧ ch.queue = []

variable {ch next : Channel α} {sending receiving : Bool} {a : α}

theorem Link.new (capacity : Nat) (h : 0 < capacity) :
    Link (.new capacity h : Channel α) true true := ⟨rfl, rfl, nofun⟩

/-- The sink of a running sender is open. -/
theorem Link.receiving_of_sending (h : Link ch true receiving) : receiving = true := by
  cases receiving with
  | true => rfl
  | false =>
      have hsending := (h.drained rfl).1
      cases hsending

theorem Link.send_ne_closed (h : Link ch true receiving) : ch.send a ≠ .closed := by
  intro hclosed
  have hreceiver := h.receiver.symm.trans (send_closed hclosed)
  rw [h.receiving_of_sending] at hreceiver
  cases hreceiver

theorem Link.moved {queue : List α} (h : Link ch sending true) (hmoved : Moved ch next queue) :
    Link next sending true :=
  ⟨hmoved.senderAlive.trans h.sender, hmoved.receiverAlive.trans h.receiver, nofun⟩

theorem Link.sent (h : Link ch sending receiving) (hsend : ch.send a = .delivered next) :
    Link next sending receiving := by
  obtain ⟨hreceiver, hmoved⟩ := send_delivered hsend
  obtain rfl := h.receiver.symm.trans hreceiver
  exact h.moved hmoved

theorem Link.received (h : Link ch sending true) (hrecv : ch.recv = .item a next) :
    Link next sending true := by
  obtain ⟨rest, _, hmoved⟩ := recv_item hrecv
  exact h.moved hmoved

theorem Link.senderFinished (h : Link ch true receiving) :
    Link ch.dropSender false receiving := by
  refine ⟨rfl, h.receiver, ?_⟩
  intro hreceiving
  have hopen := h.receiving_of_sending
  rw [hreceiving] at hopen
  cases hopen

theorem Link.receiverFinished (h : Link ch sending true) (hrecv : ch.recv = .ended) :
    Link ch.dropReceiver sending false := by
  obtain ⟨_, hsender⟩ := recv_ended hrecv
  exact ⟨h.sender, rfl, fun _ => ⟨h.sender.symm.trans hsender, rfl⟩⟩

end Channel

end ShadeIndexer.Lib.Mpsc
