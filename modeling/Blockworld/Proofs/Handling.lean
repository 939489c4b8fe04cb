/-
# What a message does to a worker

A message hands work to a worker, or tells it where the viewer is, or ends it; any other message is
a fault (`Worker.handle_cases`).  Work goes into the queue as a submission, and what happens to the
queue is told by the lemmas about `WorkQueue.submit` (`Worker.queue_submit`).  Apart from the queue
a submission changes one counter at most: it is counted if it is not urgent and finds its position
queued (`Worker.tally_submit`).

The last section says the same of taking work out: `Worker.take` follows the queue, and the end of a
worker leaves it alone.
-/
import Blockworld.Worker
import Blockworld.Proofs.History

namespace Blockworld

/-! ## 1. The work in a message -/

/-- The work that a message hands to a worker.  Events hand none, whatever the service makes of
them. -/
def Service.submission? {ρ : Type} (service : Service ρ) (m : Message) : Option (Submission ρ) :=
  if m.topic.isEvent = false ∧ m.topic = service.topic then service.unpack m else none

namespace Worker

variable {ρ : Type} {service : Service ρ} {w : Worker ρ}

/-! ## 2. Submissions -/

theorem queue_submit (w : Worker ρ) (s : Submission ρ) :
    (w.submit s).queue = w.queue.submit s := by
  unfold submit WorkQueue.submit
  split
  · rfl
  · split <;> next h => rw [h]

@[simp] theorem phase_submit (w : Worker ρ) (s : Submission ρ) : (w.submit s).phase = w.phase := by
  unfold submit
  split
  · rfl
  · split <;> rfl

@[simp] theorem ending_submit (w : Worker ρ) (s : Submission ρ) :
    (w.submit s).ending = w.ending := by
  unfold submit
  split
  · rfl
  · split <;> rfl

/-- **A submission is counted** if it is not urgent and finds its position queued. -/
theorem tally_submit (w : Worker ρ) (s : Submission ρ) :
    (w.submit s).tally =
      { w.tally with
        deduplicated := w.tally.deduplicated +
          if s.urgent = false ∧ w.queue.contains s.coords = true then 1 else 0 } := by
  unfold submit WorkQueue.enqueue
  cases s.urgent with
  | true => simp
  | false => cases w.queue.contains s.coords <;> cases w.queue.policy <;> simp

/-! ## 3. Messages -/

/-- Only a request can be submitted. -/
theorem handle_request {m : Message} {s : Submission ρ} (hrequest : m.topic.isEvent = false)
    (htopic : m.topic = service.topic) (hs : service.unpack m = some s) :
    w.handle service m = .ok (some (w.submit s)) := by
  unfold handle
  cases m with
  | viewerMoved _ => cases hrequest
  | exit => cases hrequest
  | _ => simp only [htopic, if_true, hs]

/-- **All that a message can do to a worker.** -/
theorem handle_cases (service : Service ρ) (w : Worker ρ) (m : Message) :
    (m = .exit ∧ w.handle service m = .ok none) ∨
      (∃ viewer, m = .viewerMoved viewer ∧
        w.handle service m = .ok (some { w with queue := w.queue.retarget viewer })) ∨
      (∃ s, m.topic.isEvent = false ∧ service.submission? m = some s ∧
        w.handle service m = .ok (some (w.submit s))) ∨
      (m.topic.isEvent = false ∧ service.submission? m = none ∧
        ∃ f, w.handle service m = .error f) := by
  by_cases hevent : m.topic.isEvent = true
  · cases m with
    | viewerMoved viewer => exact .inr (.inl ⟨viewer, rfl, rfl⟩)
    | exit => exact .inl ⟨rfl, rfl⟩
    | _ => cases hevent
  · have hrequest : m.topic.isEvent = false := eq_false_of_ne_true hevent
    by_cases htopic : m.topic = service.topic
    · cases hs : service.unpack m with
      | some s =>
        refine .inr (.inr (.inl ⟨s, hrequest, ?_, handle_request hrequest htopic hs⟩))
        rw [Service.submission?, if_pos ⟨hrequest, htopic⟩, hs]
      | none =>
        refine .inr (.inr (.inr ⟨hrequest, ?_, .cannotUnpack w.tally.name m.text, ?_⟩))
        · rw [Service.submission?, if_pos ⟨hrequest, htopic⟩, hs]
        · unfold handle
          cases m <;> first | (cases hrequest; done) | simp only [htopic, if_true, hs]
    · refine .inr (.inr (.inr ⟨hrequest, ?_, .malformedMessage w.tally.name m.topic, ?_⟩))
      · rw [Service.submission?, if_neg fun h => htopic h.2]
      · unfold handle
        cases m <;> first | (cases hrequest; done) | exact if_neg htopic

/-- Only an exit ends a worker. -/
theorem eq_exit_of_handle {m : Message} (h : w.handle service m = .ok none) : m = .exit := by
  rcases handle_cases service w m with ⟨hexit, -⟩ | ⟨viewer, -, hh⟩ | ⟨s, -, -, hh⟩ | ⟨-, -, f, hh⟩
  · exact hexit
  all_goals
    rw [hh] at h
    cases h

/-- A message that a worker goes on after has moved the viewer or was a request. -/
theorem handle_eq_some {m : Message} {w' : Worker ρ} (h : w.handle service m = .ok (some w')) :
    (∃ viewer, m = .viewerMoved viewer ∧ w' = { w with queue := w.queue.retarget viewer }) ∨
      ∃ s, m.topic.isEvent = false ∧ service.submission? m = some s ∧ w' = w.submit s := by
  rcases handle_cases service w m with
    ⟨-, hh⟩ | ⟨viewer, hm, hh⟩ | ⟨s, hrequest, hs, hh⟩ | ⟨-, -, f, hh⟩
  · rw [hh] at h
    cases h
  · rw [hh] at h
    cases h
    exact .inl ⟨viewer, hm, rfl⟩
  · rw [hh] at h
    cases h
    exact .inr ⟨s, hrequest, hs, rfl⟩
  · rw [hh] at h
    cases h

theorem sound_of_handle (hw : w.queue.Sound) {m : Message} {w' : Worker ρ}
    (h : w.handle service m = .ok (some w')) : w'.queue.Sound := by
  rcases handle_eq_some h with ⟨viewer, -, rfl⟩ | ⟨s, -, -, rfl⟩
  · exact hw.retarget viewer
  · rw [queue_submit]
    exact hw.submit s

/-! ## 4. Taking work -/

theorem take_eq_some {t : Taken ρ} (h : w.take = .ok (some t)) :
    ∃ q, w.queue.dequeue = .ok (some ((t.coords, t.request), q)) ∧
      t.worker = { w with queue := q, phase := .busy } := by
  unfold take at h
  split at h
  · cases h
  · cases h
  · next c r q hdequeue =>
    cases h
    exact ⟨q, hdequeue, rfl⟩

theorem take_eq_none (h : w.take = .ok none) : w.queue.dequeue = .ok none := by
  unfold take at h
  split at h
  · cases h
  · assumption
  · cases h

/-- **Work can always be taken out of a sound queue**, unless nothing is queued. -/
theorem take_cases (hw : w.queue.Sound) :
    (w.take = .ok none ∧ ∀ c, w.queue.contains c = false) ∨
      ∃ t, w.take = .ok (some t) ∧ t.worker.queue.Sound ∧
        t.worker.queue.size + 1 = w.queue.size := by
  unfold take
  rcases hw.dequeue_cases with ⟨hnone, hempty⟩ | ⟨c, a, q, hdequeue, -, -, -, -, hq⟩
  · rw [hnone]
    exact .inl ⟨rfl, hempty⟩
  · rw [hdequeue]
    exact .inr ⟨_, rfl, hq, WorkQueue.size_served hdequeue⟩

/-- The end of a worker leaves its queue as it is. -/
theorem queue_conclude (w : Worker ρ) : w.conclude.queue = w.queue := by
  unfold conclude
  split <;> rfl

end Worker

end Blockworld
