/-
# Sessions with a work queue

A session gives a list of commands to a queue, one after the other.  `WorkQueue.session` runs it and
keeps a log: each command with the queue that it was given to and with the reply.

A sound queue obeys every command and stays sound (`WorkQueue.Sound.obey`), so a session that begins
with an empty queue never faults and ends with a sound queue.  What that means for the three
containers of a queue, which have to stay in step, is spelled out in `WorkQueue.InStep`:
the heap and the express lane share no position and hold together exactly the queued ones, so that
a position without a payload is never met, and no two elements of the heap compare equal
(`WorkQueue.session_inStep`).
-/
import Blockworld.Proofs.ServingOrder

namespace Blockworld

/-- Elements that compare equal have the same ticket. -/
theorem Waiting.ticket_eq {w w' : Waiting} (h : w.le w' = true) (h' : w'.le w = true) :
    w.ticket = w'.ticket := by
  rw [Waiting.le_iff, Int64.lt_iff_toInt_lt, ← Int64.toInt_inj] at h h'
  omega

namespace WorkQueue

variable {α : Type} {q q' : WorkQueue α} {c : ChunkPos}

/-! ## 1. Commands and replies -/

namespace Command

/-- The command queues work by distance. -/
def isEnqueue : Command α → Bool
  | enqueue _ _ => true
  | _ => false

/-- Where the viewer is after some commands, who started at a given position. -/
def viewerAfter (viewer : ChunkPos) : List (Command α) → ChunkPos
  | [] => viewer
  | retarget next :: rest => viewerAfter next rest
  | _ :: rest => viewerAfter viewer rest

end Command

/-- What a queue replies to a command. -/
inductive Reply (α : Type) where
  /-- To work queued by distance: whether its position was not queued before. -/
  | queued (fresh : Bool)
  /-- To a promotion or a move of the viewer. -/
  | done
  /-- To the command to serve: the work, unless nothing is queued. -/
  | served (work : Option (ChunkPos × α))

/-- Does what a command says. -/
def obey (q : WorkQueue α) : Command α → Except Fault (Reply α × WorkQueue α)
  | .enqueue c a => .ok (.queued (q.enqueue c a).1, (q.enqueue c a).2)
  | .promote c a => .ok (.done, q.promote c a)
  | .retarget viewer => .ok (.done, q.retarget viewer)
  | .dequeue =>
    match q.dequeue with
    | .error f => .error f
    | .ok none => .ok (.served none, q)
    | .ok (some (work, rest)) => .ok (.served (some work), rest)

/-- A command with the queue that it was given to and the reply. -/
structure Exchange (α : Type) where
  before : WorkQueue α
  command : Command α
  reply : Reply α

/-- Gives commands to a queue.  Answers with the exchanges, in order, and the queue at the end. -/
def session (q : WorkQueue α) : List (Command α) → Except Fault (List (Exchange α) × WorkQueue α)
  | [] => .ok ([], q)
  | command :: rest =>
    match q.obey command with
    | .error f => .error f
    | .ok (reply, next) =>
      (next.session rest).map fun (log, last) => (⟨q, command, reply⟩ :: log, last)

/-- A session goes on from the queue that its first command leaves. -/
theorem session_cons {command : Command α} {reply : Reply α} {next last : WorkQueue α}
    {rest : List (Command α)} {log : List (Exchange α)}
    (hfirst : q.obey command = .ok (reply, next)) (hrest : next.session rest = .ok (log, last)) :
    q.session (command :: rest) = .ok (⟨q, command, reply⟩ :: log, last) := by
  simp only [session, hfirst, hrest]
  rfl

/-! ## 2. A sound queue obeys -/

/-- Serving issues no ticket. -/
theorem issued_served {work : ChunkPos × α} (h : q.dequeue = .ok (some (work, q'))) :
    q'.issued = q.issued := by
  unfold dequeue at h
  split at h
  · cases h
  · next c next hnext =>
    split at h
    · cases h
    · cases h
      unfold next? at hnext
      split at hnext
      · cases hnext
        rfl
      · obtain ⟨popped, -, hrest⟩ := Option.map_eq_some_iff.mp hnext
        cases hrest
        rfl

/-- At most one ticket is issued for work that is queued by distance. -/
theorem issued_enqueue_le (q : WorkQueue α) (c : ChunkPos) (a : α) :
    (q.enqueue c a).2.issued ≤ q.issued + 1 := by
  unfold enqueue
  split
  · split <;> simp
  · simp

@[simp] theorem viewer_enqueue (q : WorkQueue α) (c : ChunkPos) (a : α) :
    (q.enqueue c a).2.viewer = q.viewer := q.viewer_submit ⟨c, a, false⟩

@[simp] theorem viewer_promote (q : WorkQueue α) (c : ChunkPos) (a : α) :
    (q.promote c a).viewer = q.viewer := q.viewer_submit ⟨c, a, true⟩

@[simp] theorem issued_promote (q : WorkQueue α) (c : ChunkPos) (a : α) :
    (q.promote c a).issued = q.issued := by
  unfold promote
  split <;> rfl

/-- **A sound queue obeys every command and stays sound.**  Only a move of the viewer moves the
viewer, and a ticket is issued only for work that is queued by distance. -/
theorem Sound.obey (hq : q.Sound) (command : Command α) :
    ∃ reply next, q.obey command = .ok (reply, next) ∧ next.Sound ∧
      next.viewer = Command.viewerAfter q.viewer [command] ∧
      next.issued ≤ q.issued + [command].countP Command.isEnqueue := by
  cases command with
  | enqueue c a =>
    refine ⟨_, _, rfl, hq.enqueue c a, ?_, q.issued_enqueue_le c a⟩
    simp [Command.viewerAfter]
  | promote c a =>
    refine ⟨_, _, rfl, hq.promote c a, ?_, ?_⟩
    · simp [Command.viewerAfter]
    · simp
  | retarget viewer => exact ⟨_, _, rfl, hq.retarget viewer, rfl, Nat.le_refl _⟩
  | dequeue =>
    rcases hq.dequeue_cases with ⟨hnone, -⟩ | ⟨c, a, rest, hserved, -, -, hviewer, -, hrest⟩
    · refine ⟨.served none, q, ?_, hq, rfl, Nat.le_add_right _ _⟩
      simp only [WorkQueue.obey, hnone]
    · refine ⟨.served (some (c, a)), rest, ?_, hrest, hviewer, ?_⟩
      · simp only [WorkQueue.obey, hserved]
      · rw [issued_served hserved]
        exact Nat.le_add_right _ _

theorem Command.viewerAfter_cons (viewer : ChunkPos) (command : Command α)
    (rest : List (Command α)) :
    viewerAfter viewer (command :: rest) = viewerAfter (viewerAfter viewer [command]) rest := by
  cases command <;> rfl

/-- **A session with a sound queue runs to its end** and leaves a sound queue. -/
theorem Sound.session (hq : q.Sound) (commands : List (Command α)) :
    ∃ log last, q.session commands = .ok (log, last) ∧ last.Sound ∧
      last.viewer = Command.viewerAfter q.viewer commands ∧
      last.issued ≤ q.issued + commands.countP Command.isEnqueue := by
  induction commands generalizing q with
  | nil => exact ⟨[], q, rfl, hq, rfl, Nat.le_refl _⟩
  | cons command rest ih =>
    obtain ⟨reply, next, hfirst, hnext, hviewer, hissued⟩ := hq.obey command
    obtain ⟨log, last, hrest, hlast, hviewer', hissued'⟩ := ih hnext
    refine ⟨_, last, session_cons hfirst hrest, hlast, ?_, ?_⟩
    · rw [hviewer', hviewer, ← Command.viewerAfter_cons]
    · rw [← List.singleton_append, List.countP_append]
      omega

/-! ## 3. The containers of a queue -/

/-- The heap, the express lane and the payloads fit together. -/
structure InStep (q : WorkQueue α) : Prop where
  /-- No position waits in the heap twice. -/
  heap_nodup : (q.heap.toList.map Waiting.coords).Nodup
  /-- No position is in the express lane twice. -/
  express_nodup : q.express.Nodup
  /-- No position is in both. -/
  apart : ∀ w ∈ q.heap.toList, w.coords ∉ q.express
  /-- The positions of both are those that have a payload. -/
  mem_pending_iff : ∀ c, c ∈ q.pending ↔ c ∈ q.express ∨ ∃ w ∈ q.heap.toList, w.coords = c
  /-- Distances are measured to the present viewer. -/
  priority_eq : ∀ w ∈ q.heap.toList, w.priority = w.coords.squaredDistance q.viewer
  /-- No ticket is in the heap twice. -/
  tickets_nodup : (q.heap.toList.map Waiting.ticket).Nodup
  /-- The tickets in the heap were issued. -/
  ticket_lt : ∀ w ∈ q.heap.toList, w.ticket < q.issued
  /-- Work is served with its payload. -/
  dequeue_ne_error : ∀ f, q.dequeue ≠ .error f
  /-- Nothing is served exactly if nothing is queued. -/
  dequeue_eq_none_iff : q.dequeue = .ok none ↔ q.isEmpty = true
  /-- The size counts the heap and the express lane. -/
  size_eq : q.size = q.heap.toList.length + q.express.length
  /-- No two elements of the heap compare equal. -/
  heap_distinct : q.heap.toList.Pairwise fun w w' => ¬(w.le w' = true ∧ w'.le w = true)

theorem mem_pending (q : WorkQueue α) (c : ChunkPos) :
    c ∈ q.pending ↔ q.contains c = true := Std.TreeMap.mem_iff_contains

/-- The positions that have a payload are those in the lanes. -/
theorem Sound.keys_perm (hq : q.Sound) : q.pending.keys.Perm q.places := by
  have hkeys : q.pending.keys.Nodup := Std.TreeMap.nodup_keys
  refine (List.perm_ext_iff_of_nodup hkeys hq.nodup).mpr fun c => ?_
  rw [Std.TreeMap.mem_keys, mem_pending, hq.mem_places]

/-- **In a sound queue the containers are in step.** -/
theorem Sound.inStep (hq : q.Sound) : q.InStep where
  heap_nodup := hq.nodup.of_append_right
  express_nodup := hq.nodup.of_append_left
  apart w hw hexpress :=
    (List.nodup_append.mp hq.nodup).2.2 _ hexpress _ (List.mem_map_of_mem hw) rfl
  mem_pending_iff c := by
    rw [mem_pending, ← hq.mem_places]
    simp [places]
  priority_eq := hq.timely.priority
  tickets_nodup := hq.timely.tickets
  ticket_lt := hq.timely.ticket_lt
  dequeue_ne_error f h := by
    rcases hq.dequeue_cases with ⟨hnone, -⟩ | ⟨c, a, rest, hserved, -⟩
    · rw [hnone] at h
      cases h
    · rw [hserved] at h
      cases h
  dequeue_eq_none_iff := by
    rw [hq.dequeue_eq_none_iff, isEmpty, Std.TreeMap.isEmpty_iff_forall_contains]
    rfl
  size_eq := by
    have hlength := hq.keys_perm.length_eq
    rw [Std.TreeMap.length_keys] at hlength
    rw [size, hlength]
    simp [places, Nat.add_comm]
  heap_distinct := by
    have htickets := List.pairwise_map.mp hq.timely.tickets
    refine htickets.imp fun {w w'} hne hboth => ?_
    exact hne (Waiting.ticket_eq hboth.1 hboth.2)

/-- **In every session the containers of the queue stay in step**, whatever the viewer, the policy
and the commands.  The queue measures to the viewer of the last move, and it issues no more tickets
than there are commands to queue by distance. -/
theorem session_inStep (viewer : ChunkPos) (policy : OnDuplicate) (commands : List (Command α)) :
    ∃ log q, (empty viewer policy).session commands = .ok (log, q) ∧ q.InStep ∧
      q.viewer = Command.viewerAfter viewer commands ∧
      q.issued ≤ commands.countP Command.isEnqueue := by
  obtain ⟨log, q, hsession, hsound, hviewer, hissued⟩ :=
    (sound_empty viewer policy).session commands
  refine ⟨log, q, hsession, hsound.inStep, hviewer, ?_⟩
  simpa [empty] using hissued

end WorkQueue

end Blockworld
