import OpaFm.Cs.Pool
import OpaFm.Lib.Fifo

/-!
# Circular queues

`Front` is the index of the element to leave next and `Rear` the index of the last one
that entered.  The data area has the elements that the pool has bytes for, and an access outside
of it makes a call end in `none`.
-/

namespace OpaFm.Cs

open OpaFm.Lib

variable {α : Type}

def minQueueSize : Nat := 5

/-- `cs_QueueRecord_t`, with the 32 bits of its `int`s.  An element is a pointer, with `none` for
`NULL`. -/
structure QueueRecord (α : Type) where
  Capacity : Nat
  Size : Nat
  Front : Nat
  Rear : Nat
  qData : List (Option α)

inductive QueueStatus where
  | ok
  | bad
  deriving DecidableEq, Repr

namespace QueueRecord

variable (q : QueueRecord α)

def isEmpty : Bool := q.Size = 0

def isFull : Bool := q.Size = q.Capacity

def makeEmpty : QueueRecord α := { q with Size := 0, Front := 1, Rear := 0 }

/-- `cs_queue_CreateQueue`.  `qsize` is an `int`, which goes to the pool as a `size_t`; `memory` is
what the memory of the data area holds, unless the memory for the queue runs out. -/
def createQueue (memory : Option (Nat → Option α)) (MaxElements : BitVec 32) :
    Option (QueueRecord α) :=
  let qsize : BitVec 32 := 8 * MaxElements
  if MaxElements.toNat < minQueueSize then none
  else
    match Pool.vsPoolAlloc (qsize.signExtend 64).toNat, memory with
    | some bytes, some area =>
      some <| makeEmpty
        { Capacity := MaxElements.toNat
          Size := 0
          Front := 0
          Rear := 0
          qData := (List.range (bytes / 8)).map area }
    | _, _ => none

def succ (Value Capacity : Nat) : Nat := if Value + 1 = Capacity then 0 else Value + 1

def enqueue (X : Option α) : Option (QueueRecord α × QueueStatus) :=
  if q.isFull then some (q, .bad)
  else
    let rear := succ q.Rear q.Capacity
    if rear < q.qData.length then
      some ({ q with Size := q.Size + 1, Rear := rear, qData := q.qData.set rear X }, .ok)
    else none

def front : Option (Option α) := if q.isEmpty then some none else q.qData[q.Front]?

def dequeue : QueueRecord α :=
  if q.isEmpty then q else { q with Size := q.Size - 1, Front := succ q.Front q.Capacity }

def frontAndDequeue : Option (QueueRecord α × Option α) :=
  if q.isEmpty then some (q, none)
  else
    (q.qData[q.Front]?).map fun X =>
      ({ q with Size := q.Size - 1, Front := succ q.Front q.Capacity }, X)

def call : FifoCall (Option α) → Option (QueueRecord α × FifoReply (Option α))
  | .put X => (q.enqueue X).map fun r => (r.1, .accepted (r.2 = .ok))
  | .peek => q.front.map fun X => (q, .element X)
  | .drop => some (q.dequeue, .done)
  | .take => q.frontAndDequeue.map fun r => (r.1, .element r.2)

def calls : QueueRecord α → List (FifoCall (Option α)) →
    Option (QueueRecord α × List (FifoReply (Option α)))
  | q, [] => some (q, [])
  | q, c :: cs =>
    (q.call c).bind fun s => (calls s.1 cs).map fun r => (r.1, s.2 :: r.2)

def contents : List (Option α) :=
  (List.range q.Size).map fun i => q.qData.getD (onward q.Capacity q.Front i) none

end QueueRecord

end OpaFm.Cs
