/-
# What a subscriber does in a turn

A turn is one step of whoever reads a channel: a worker receives a message, processes a request or
sends a response, and someone outside the library reads.  `Turn.goes` says all that a turn can do to
a channel: some messages are taken from the head of the inbox, and nothing else changes but the
worker.

What it does to a worker is told by what it does to the queue.  The viewer of the queue is where the
messages that were read have put it, and every position that is queued was queued before or is asked
for by one of them.  Taking work out keeps the viewer and adds nothing (`WorkQueue.Shrinks`), and so
does the end of a worker, however much it processes then.
-/
import Blockworld.Switchboard
import Blockworld.Proofs.Handling

namespace Blockworld

/-! ## 1. Queues that work is taken out of -/

/-- Where the viewer is after a message. -/
def Message.viewerAfter (viewer : ChunkPos) : Message → ChunkPos
  | .viewerMoved next => next
  | _ => viewer

/-- The second queue is what the first can become when work is taken out of it. -/
structure WorkQueue.Shrinks {α : Type} (q q' : WorkQueue α) : Prop where
  viewer : q'.viewer = q.viewer
  sound : q.Sound → q'.Sound
  contains : ∀ c, q'.contains c = true → q.contains c = true

namespace WorkQueue.Shrinks

variable {α : Type} {q q' q'' : WorkQueue α}

theorem refl (q : WorkQueue α) : q.Shrinks q := ⟨rfl, id, fun _ hc => hc⟩

theorem trans (h : q.Shrinks q') (h' : q'.Shrinks q'') : q.Shrinks q'' :=
  ⟨h'.viewer.trans h.viewer, h'.sound ∘ h.sound, fun c hc => h.contains c (h'.contains c hc)⟩

theorem of_dequeue {c : ChunkPos} {a : α} (h : q.dequeue = .ok (some ((c, a), q'))) :
    q.Shrinks q' := by
  refine ⟨(dequeue_spec h).2.2.1, fun hq => hq.served h, fun c' hc' => ?_⟩
  rw [contains_served h, Bool.and_eq_true] at hc'
  exact hc'.2

end WorkQueue.Shrinks

namespace Worker

variable {μ ρ : Type} {service : StatefulService μ ρ} {memory : μ} {w : Worker ρ}

theorem shrinks_take {t : Taken ρ} (h : w.take = .ok (some t)) : w.queue.Shrinks t.worker.queue := by
  obtain ⟨q, hdequeue, hworker⟩ := take_eq_some h
  rw [hworker]
  exact .of_dequeue hdequeue

theorem shrinks_processAll (fuel : Nat) :
    w.queue.Shrinks (processAll service fuel memory w).worker.queue := by
  induction fuel generalizing memory w with
  | zero => exact .refl w.queue
  | succ fuel ih =>
    unfold processAll
    split
    · exact .refl w.queue
    · exact .refl w.queue
    · next t htake =>
      refine (shrinks_take htake).trans ?_
      unfold respond
      split
      · exact .refl t.worker.queue
      · exact ih (w := t.worker.finish)

/-- **Whatever a worker still does at its end, it only takes work out.** -/
theorem shrinks_close : w.queue.Shrinks (close service memory w).worker.queue := by
  unfold close Run.after
  dsimp only
  split
  · rw [Run.halt, queue_conclude]
    exact .refl w.queue
  · split
    · exact shrinks_processAll _
    · rw [queue_conclude]
      exact shrinks_processAll _

end Worker

/-! ## 2. Workers -/

namespace Job

theorem isRequest_topic (j : Job) : j.service.topic.isRequest = true := by
  cases j <;> rfl

/-- **A job can unpack every message of its topic**, and the work is about the position of the
message. -/
theorem exists_unpack {j : Job} {m : Message} (h : m.topic = j.service.topic) :
    ∃ s, j.service.unpack m = some s ∧ m.coords? = some s.coords := by
  cases j <;> cases m <;> first | exact ⟨_, rfl, rfl⟩ | cases h

end Job

/-- The second worker is what the first becomes when it reads some messages. -/
structure ActiveWorker.Becomes (a : ActiveWorker) (reads : List Message) (a' : ActiveWorker) :
    Prop where
  job : a'.job = a.job
  viewer : a'.worker.queue.viewer = reads.foldl Message.viewerAfter a.worker.queue.viewer
  sound : a.worker.queue.Sound → a'.worker.queue.Sound
  contains : ∀ c, a'.worker.queue.contains c = true → a.worker.queue.contains c = true ∨
    ∃ m ∈ reads, m.topic = a.job.service.topic ∧ m.coords? = some c

namespace ActiveWorker

variable {a : ActiveWorker}

/-- A worker that takes work out of its queue, and does with it what it may. -/
theorem Becomes.of_shrinks {w : Worker a.job.Request} (h : a.worker.queue.Shrinks w.queue)
    (held : Option Message) (fault : Option Fault) : a.Becomes [] ⟨a.job, w, held, fault⟩ :=
  ⟨rfl, h.viewer, h.sound, fun c hc => .inl (h.contains c hc)⟩

theorem Becomes.refl (a : ActiveWorker) : a.Becomes [] a := of_shrinks (.refl _) a.held a.fault

/-- Reading a message that says nothing about the viewer. -/
theorem Becomes.read {m : Message} {a' : ActiveWorker} (h : a.Becomes [] a')
    (hm : ∀ viewer, m ≠ .viewerMoved viewer) : a.Becomes [m] a' := by
  refine ⟨h.job, ?_, h.sound, fun c hc => .inl ?_⟩
  · rw [h.viewer]
    cases m with
    | viewerMoved viewer => exact absurd rfl (hm viewer)
    | _ => rfl
  · exact (h.contains c hc).resolve_right (by simp)

/-- **What a message does to the queue of a worker.** -/
theorem becomes_receive (a : ActiveWorker) (m : Message) : a.Becomes [m] (a.receive m).1 := by
  rcases Worker.handle_cases a.job.service a.worker m with
    ⟨rfl, hh⟩ | ⟨viewer, rfl, hh⟩ | ⟨s, hrequest, hs, hh⟩ | ⟨hrequest, -, f, hh⟩
  · rw [receive, hh]
    exact (Becomes.of_shrinks Worker.shrinks_close _ _).read nofun
  · rw [receive, hh]
    exact ⟨rfl, rfl, fun hqueue => hqueue.retarget viewer, fun c hc => .inl hc⟩
  · rw [receive, hh]
    refine ⟨rfl, ?_, fun hqueue => ?_, fun c hc => ?_⟩
    · rw [Worker.queue_submit, WorkQueue.viewer_submit]
      cases m <;> first | rfl | cases hrequest
    · rw [Worker.queue_submit]
      exact hqueue.submit s
    · rw [Worker.queue_submit, WorkQueue.contains_submit, Bool.or_eq_true,
        decide_eq_true_eq] at hc
      rcases hc with rfl | hc
      · right
        unfold Service.submission? at hs
        split at hs
        · next hours =>
          obtain ⟨s', hs', hcoords⟩ := Job.exists_unpack hours.2
          rw [hs] at hs'
          cases hs'
          exact ⟨m, List.mem_singleton_self m, hours.2, hcoords⟩
        · cases hs
      · exact .inl hc
  · rw [receive, hh]
    refine (Becomes.of_shrinks (.refl _) _ _).read ?_
    rintro viewer rfl
    cases hrequest

theorem becomes_process (a : ActiveWorker) : a.Becomes [] a.process := by
  unfold process
  split
  · exact .of_shrinks (.refl _) _ _
  · exact .refl a
  · next t htake =>
    split
    · exact .of_shrinks (Worker.shrinks_take htake) _ _
    · exact .of_shrinks (Worker.shrinks_take htake) _ _

theorem becomes_deliver (a : ActiveWorker) : a.Becomes [] a.deliver.1 := by
  unfold deliver
  split
  · exact .refl a
  · exact .of_shrinks (w := a.worker.finish) (.refl _) _ _

end ActiveWorker

/-! ## 3. Channels -/

namespace Channel

/-- Someone outside the library reads the oldest message. -/
def collect (ch : Channel) : Channel × List Message :=
  match ch.subscriber with
  | .outside _ => ({ ch with inbox := ch.inbox.tail }, [])
  | .worker _ => (ch, [])

/-- What becomes of a channel when some messages are read: they are gone from the head of the inbox,
and a worker has become what they make of it. -/
structure Goes (ch : Channel) (reads : List Message) (ch' : Channel) : Prop where
  topics : ch'.topics = ch.topics
  sent : ch'.sent = ch.sent
  inbox : ch.inbox = reads ++ ch'.inbox
  worker : ∀ a', ch'.subscriber = .worker a' →
    ∃ a, ch.subscriber = .worker a ∧ a.Becomes reads a'

variable {ch : Channel} {a a' : ActiveWorker}

theorem Goes.refl (ch : Channel) : ch.Goes [] ch :=
  ⟨rfl, rfl, rfl, fun a ha => ⟨a, ha, .refl a⟩⟩

theorem Goes.of_becomes {reads rest : List Message} (ha : ch.subscriber = .worker a)
    (hinbox : ch.inbox = reads ++ rest) (hbecomes : a.Becomes reads a') :
    ch.Goes reads { ch with inbox := rest, subscriber := .worker a' } := by
  refine ⟨rfl, rfl, hinbox, ?_⟩
  rintro _ ⟨⟩
  exact ⟨a, ha, hbecomes⟩

theorem goes_receive (ch : Channel) : ∃ reads, ch.Goes reads ch.receive.1 := by
  unfold receive
  split
  · next a m rest ha hinbox =>
    split
    · exact ⟨[m], .of_becomes ha hinbox (a.becomes_receive m)⟩
    · exact ⟨[], .refl ch⟩
  · exact ⟨[], .refl ch⟩

theorem goes_process (ch : Channel) : ∃ reads, ch.Goes reads ch.process.1 := by
  unfold process
  split
  · next a ha =>
    split
    · exact ⟨[], .of_becomes ha rfl a.becomes_process⟩
    · exact ⟨[], .refl ch⟩
  · exact ⟨[], .refl ch⟩

theorem goes_deliver (ch : Channel) : ∃ reads, ch.Goes reads ch.deliver.1 := by
  unfold deliver
  split
  · next a ha => exact ⟨[], .of_becomes ha rfl a.becomes_deliver⟩
  · exact ⟨[], .refl ch⟩

theorem goes_collect (ch : Channel) : ∃ reads, ch.Goes reads ch.collect.1 := by
  unfold collect
  split
  · next attached hsubscriber =>
    refine ⟨ch.inbox.take 1, rfl, rfl, ?_, fun a ha => ?_⟩
    · rw [← List.drop_one]
      exact (List.take_append_drop 1 ch.inbox).symm
    · rw [hsubscriber] at ha
      cases ha
  · exact ⟨[], .refl ch⟩

end Channel

/-- What a subscriber can do. -/
inductive Turn where
  | receive
  | process
  | deliver
  /-- Someone outside the library reads. -/
  | collect

namespace Turn

/-- The step of a turn. -/
def run : Turn → Channel → Channel × List Message
  | receive => Channel.receive
  | process => Channel.process
  | deliver => Channel.deliver
  | collect => Channel.collect

/-- The messages read in a turn: what is gone from the head of the inbox. -/
def reads (turn : Turn) (ch : Channel) : List Message :=
  ch.inbox.take (ch.inbox.length - (turn.run ch).1.inbox.length)

/-- **What a turn does to a channel.** -/
theorem goes (turn : Turn) (ch : Channel) : ch.Goes (turn.reads ch) (turn.run ch).1 := by
  have hgoes : ∃ reads, ch.Goes reads (turn.run ch).1 := by
    cases turn with
    | receive => exact ch.goes_receive
    | process => exact ch.goes_process
    | deliver => exact ch.goes_deliver
    | collect => exact ch.goes_collect
  obtain ⟨reads, hreads⟩ := hgoes
  have heq : turn.reads ch = reads := by
    unfold Turn.reads
    rw [hreads.inbox]
    simp
  rw [heq]
  exact hreads

end Turn

end Blockworld
