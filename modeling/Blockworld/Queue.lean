/-
# The work queue

A work queue holds at most one piece of work per chunk position and serves it in order of need.
Positions that were promoted form the express lane and are served first, first come first served.
The others wait in a heap and are served by squared distance to the viewer, and at equal distance in
the order in which they were queued.

Work that is submitted for a position already queued does not change its place; what happens to
its payload is decided by the duplicate policy.  A promotion takes the position out of the heap,
unless it is in the express lane already, and always replaces the payload.
-/
import Std.Data.TreeMap.Basic
import Blockworld.ChunkPos
import Blockworld.Queue.Heap

namespace Blockworld

/-- What happens to the payload of work that is already queued for the same position. -/
inductive OnDuplicate where
  /-- The queued payload stays. -/
  | keep
  /-- The new payload replaces it. -/
  | replace
  deriving DecidableEq, Repr

/-- The name used in configuration. -/
def OnDuplicate.name : OnDuplicate → String
  | keep => "keep_existing"
  | replace => "replace_data"

/-- A position waiting in order of distance. -/
structure Waiting where
  coords : ChunkPos
  /-- The squared distance to the viewer. -/
  priority : Int64
  /-- When the position was queued, relative to the others. -/
  ticket : Nat
  deriving DecidableEq, Repr

namespace Waiting

/-- Whether the first is served no later than the second. -/
def le (a b : Waiting) : Bool :=
  decide (a.priority < b.priority) || (a.priority == b.priority && decide (a.ticket ≤ b.ticket))

theorem le_iff (a b : Waiting) :
    a.le b ↔ a.priority < b.priority ∨ a.priority = b.priority ∧ a.ticket ≤ b.ticket := by
  simp [le]

theorem le_trans (a b c : Waiting) (hab : a.le b) (hbc : b.le c) : a.le c := by
  rw [le_iff, Int64.lt_iff_toInt_lt, ← Int64.toInt_inj] at *
  omega

theorem le_total (a b : Waiting) : a.le b || b.le a := by
  rw [Bool.or_eq_true, le_iff, le_iff, Int64.lt_iff_toInt_lt, Int64.lt_iff_toInt_lt,
    ← Int64.toInt_inj, ← Int64.toInt_inj]
  omega

end Waiting

/-- Work by position, in order of need. -/
structure WorkQueue (α : Type) where
  /-- The position that distances are measured to. -/
  viewer : ChunkPos
  policy : OnDuplicate
  /-- The positions in order of distance. -/
  heap : Heap Waiting
  /-- The promoted positions, the next one first. -/
  express : List ChunkPos
  /-- The payloads of all queued positions. -/
  pending : Std.TreeMap ChunkPos α
  /-- The number of positions ever queued by distance. -/
  issued : Nat

namespace WorkQueue

variable {α : Type}

/-- A queue without work. -/
def empty (viewer : ChunkPos) (policy : OnDuplicate) : WorkQueue α :=
  ⟨viewer, policy, .leaf, [], ∅, 0⟩

/-- The number of queued positions. -/
def size (q : WorkQueue α) : Nat := q.pending.size

/-- Whether nothing is queued. -/
def isEmpty (q : WorkQueue α) : Bool := q.pending.isEmpty

/-- Whether a position is queued. -/
def contains (q : WorkQueue α) (c : ChunkPos) : Bool := q.pending.contains c

/-- Queues work by distance.  Answers whether the position was not queued before. -/
def enqueue (q : WorkQueue α) (c : ChunkPos) (a : α) : Bool × WorkQueue α :=
  if q.contains c then
    match q.policy with
    | .keep => (false, q)
    | .replace => (false, { q with pending := q.pending.insert c a })
  else
    (true,
      { q with
        heap := q.heap.push Waiting.le ⟨c, c.squaredDistance q.viewer, q.issued⟩
        pending := q.pending.insert c a
        issued := q.issued + 1 })

/-- Queues work in the express lane.  A position that is there already keeps its place; one that
waits by distance moves.  The payload is replaced in any case. -/
def promote (q : WorkQueue α) (c : ChunkPos) (a : α) : WorkQueue α :=
  if c ∈ q.express then { q with pending := q.pending.insert c a }
  else
    { q with
      heap :=
        if q.contains c then .ofList Waiting.le (q.heap.toList.filter (·.coords != c)) else q.heap
      express := q.express ++ [c]
      pending := q.pending.insert c a }

/-- Measures every distance anew, to another viewer. -/
def retarget (q : WorkQueue α) (viewer : ChunkPos) : WorkQueue α :=
  { q with
    viewer := viewer
    heap := .ofList Waiting.le <|
      q.heap.toList.map fun w => { w with priority := w.coords.squaredDistance viewer } }

/-- Takes the next position out of the express lane, or else out of the heap. -/
def next? (q : WorkQueue α) : Option (ChunkPos × WorkQueue α) :=
  match q.express with
  | c :: rest => some (c, { q with express := rest })
  | [] => (q.heap.pop? Waiting.le).map fun (w, heap) => (w.coords, { q with heap := heap })

/-- Takes the next piece of work out, if there is any.  A position without a payload is a fault. -/
def dequeue (q : WorkQueue α) : Except Fault (Option ((ChunkPos × α) × WorkQueue α)) :=
  match q.next? with
  | none => .ok none
  | some (c, rest) =>
    match rest.pending[c]? with
    | none => .error .lostPayload
    | some a => .ok (some ((c, a), { rest with pending := rest.pending.erase c }))

/-- The distance a position waits with; `none` if it is in the express lane or not queued. -/
def priority? (q : WorkQueue α) (c : ChunkPos) : Option Int64 :=
  (q.heap.toList.find? (·.coords == c)).map Waiting.priority

/-- The positions that wait by distance, in the order in which they would be served. -/
def waiting (q : WorkQueue α) : List Waiting := q.heap.toList.mergeSort Waiting.le

end WorkQueue

end Blockworld
