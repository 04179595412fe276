/-
Channels between threads.

A channel hands items over in the order in which they were sent.  It knows how many senders and how
many receivers it has left: sending fails once nobody can receive, and receiving fails once all
items are gone and nobody can send.  A thread that can neither go on nor fail has to wait.

* `Channel` — the items on the way, the room for them, and the ends that are left;
* `Attempt` — what comes of sending and receiving;
* `Channel.send`, `Channel.receive` — one attempt;
* `Channel.addSender`, `Channel.dropSender`, `Channel.addReceiver`, `Channel.dropReceiver` — one end
  more or less.
-/

set_option autoImplicit false

namespace Groundwork

/-- A channel, with one end on either side at first. -/
structure Channel (α : Type) where
  /-- The items that were sent and not received, the earliest first. -/
  items : List α := []
  /-- The number of items for which there is room, which is at least one; there is room for any
  number if none is given. -/
  capacity : Option Nat := none
  /-- The number of senders that are left. -/
  senders : Nat := 1
  /-- The number of receivers that are left. -/
  receivers : Nat := 1

/-- What comes of an attempt to send or to receive. -/
inductive Attempt (β : Type) where
  /-- It succeeds. -/
  | done (result : β)
  /-- It fails, since nobody is left on the other side. -/
  | closed
  /-- It has to wait for the other side. -/
  | waits

namespace Channel

variable {α : Type}

/-- Whether there is room for another item. -/
def hasRoom (c : Channel α) : Bool :=
  match c.capacity with
  | none => true
  | some n => c.items.length < n

/-- The channel after an item was sent. -/
def send (c : Channel α) (a : α) : Attempt (Channel α) :=
  if c.receivers = 0 then .closed
  else if c.hasRoom then .done { c with items := c.items ++ [a] }
  else .waits

/-- The first item, and the channel without it. -/
def receive (c : Channel α) : Attempt (α × Channel α) :=
  match c.items with
  | a :: rest => .done (a, { c with items := rest })
  | [] => if c.senders = 0 then .closed else .waits

/-- The channel with another sender. -/
def addSender (c : Channel α) : Channel α := { c with senders := c.senders + 1 }

/-- The channel with a sender less. -/
def dropSender (c : Channel α) : Channel α := { c with senders := c.senders - 1 }

/-- The channel with another receiver. -/
def addReceiver (c : Channel α) : Channel α := { c with receivers := c.receivers + 1 }

/-- The channel with a receiver less. -/
def dropReceiver (c : Channel α) : Channel α := { c with receivers := c.receivers - 1 }

/-! ### Attempts -/

section Attempts

variable {c c' : Channel α} {a : α}

theorem send_eq_closed_iff : c.send a = .closed ↔ c.receivers = 0 := by
  unfold send
  split
  case isTrue h => simp [h]
  case isFalse h => split <;> simp [h]

theorem send_eq_done_iff :
    c.send a = .done c' ↔
      c.receivers ≠ 0 ∧ c.hasRoom = true ∧ c' = { c with items := c.items ++ [a] } := by
  unfold send
  split
  case isTrue h => simp [h]
  case isFalse h =>
      split
      case isTrue hroom => simp only [Attempt.done.injEq, ne_eq, h, hroom, not_false_eq_true,
        true_and, eq_comm]
      case isFalse hroom => simp [hroom]

theorem send_eq_waits_iff : c.send a = .waits ↔ c.receivers ≠ 0 ∧ c.hasRoom = false := by
  unfold send
  split
  case isTrue h => simp [h]
  case isFalse h => split <;> simp_all

theorem receive_eq_closed_iff : c.receive = .closed ↔ c.items = [] ∧ c.senders = 0 := by
  unfold receive
  split
  case h_1 hitems => simp [hitems]
  case h_2 hitems => split <;> simp_all

theorem receive_eq_waits_iff : c.receive = .waits ↔ c.items = [] ∧ c.senders ≠ 0 := by
  unfold receive
  split
  case h_1 hitems => simp [hitems]
  case h_2 hitems => split <;> simp_all

theorem receive_eq_done_iff :
    c.receive = .done (a, c') ↔
      ∃ rest, c.items = a :: rest ∧ c' = { c with items := rest } := by
  unfold receive
  split
  case h_1 b rest hitems =>
      rw [hitems, Attempt.done.injEq, Prod.mk.injEq]
      constructor
      · rintro ⟨rfl, rfl⟩
        exact ⟨rest, rfl, rfl⟩
      · rintro ⟨rest', hcons, rfl⟩
        cases hcons
        exact ⟨rfl, rfl⟩
  case h_2 hitems => split <;> simp [hitems]

end Attempts

end Channel

end Groundwork
