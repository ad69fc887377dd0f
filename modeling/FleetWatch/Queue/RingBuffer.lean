/-!
# Rings

Queues that make room by dropping their oldest items. A ring keeps the last values sent; the
receiver has a position in the sequence of all values, and one that has fallen behind what is kept
is told how many values it missed and goes on at the oldest one left.

## Main definitions

* `Queue.RingBuffer`, `Queue.RingBuffer.send`, `Queue.RingBuffer.poll`.
* `Queue.RingBuffer.receive`: the next value, missed ones passed over.
* `Queue.RingBuffer.receivable`: the values still to be received.
-/
namespace FleetWatch.Queue

/-- A ring of at most `slots` values. -/
structure RingBuffer (α : Type) where
  slots : Nat
  /-- The last values sent, oldest first. -/
  kept : List α := []
  /-- The number of values ever sent. -/
  sent : Nat := 0
  /-- The position of the value that is received next. -/
  next : Nat := 0
  senders : Nat := 1
  receiving : Bool := true

/-- What the receiver finds. -/
inductive Poll (α : Type) where
  | value (a : α)
  | missed (count : Nat)
  | pending
  | closed
deriving DecidableEq

namespace RingBuffer
variable {α : Type}

/-- The position of the oldest value kept. -/
def oldest (r : RingBuffer α) : Nat := r.sent - r.kept.length

/-- The values kept that have not been received, oldest first. -/
def receivable (r : RingBuffer α) : List α := r.kept.drop (r.next - r.oldest)

/-- Sends a value, unless nobody receives; the last `slots` values are kept. -/
def send (r : RingBuffer α) (a : α) : Bool × RingBuffer α :=
  if r.receiving then
    let kept := r.kept ++ [a]
    (true, { r with kept := kept.drop (kept.length - r.slots), sent := r.sent + 1 })
  else (false, r)

/-- What the receiver finds now. -/
def poll (r : RingBuffer α) : Poll α × RingBuffer α :=
  if r.next < r.oldest then (.missed (r.oldest - r.next), { r with next := r.oldest })
  else match r.kept[r.next - r.oldest]? with
    | some a => (.value a, { r with next := r.next + 1 })
    | none => (if r.senders = 0 then .closed else .pending, r)

/-- What the receiver finds once it has passed over missed values. -/
def receive (r : RingBuffer α) : Poll α × RingBuffer α :=
  match r.poll with
  | (.missed _, r) => r.poll
  | found => found

/-- Everything receivable, and the ring without it. -/
def receiveAll (r : RingBuffer α) : List α × RingBuffer α :=
  (r.receivable, { r with next := r.sent })

def cloneSender (r : RingBuffer α) : RingBuffer α := { r with senders := r.senders + 1 }

def dropSender (r : RingBuffer α) : RingBuffer α := { r with senders := r.senders - 1 }

/-- Nobody receives any more. -/
def dropReceiver (r : RingBuffer α) : RingBuffer α := { r with receiving := false }

end RingBuffer

def maxCommandSlots : Nat := 1024

/-- The slots of a command queue: a power of two. -/
def commandSlots (capacity : UInt64) : Nat :=
  (max 1 (min capacity.toNat maxCommandSlots)).nextPowerOfTwo

theorem commandSlots_pos (capacity : UInt64) : 0 < commandSlots capacity :=
  Nat.pos_of_isPowerOfTwo (Nat.isPowerOfTwo_nextPowerOfTwo _)

/-- An empty command queue with one sender. -/
def commandRing {α : Type} (capacity : UInt64) : RingBuffer α := { slots := commandSlots capacity }

end FleetWatch.Queue
