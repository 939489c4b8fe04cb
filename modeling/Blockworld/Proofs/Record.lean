/-
# The record of a run

The events of a run tell what has happened to the worker's queue: `StatefulService.record` turns
them into a `Past`.  What a message means for the queue may depend on the memory of the service when
it is read, and the memory changes with each request that is processed.  So the record is kept with
the memory beside it (`StatefulService.memoryAfter`).  Two things are proved about it.

1. **The record is the history of the queue.**  At every moment of a run the queue of the worker is
   one that has come about by what is on record (`Course.continues`), and the counters of the worker
   are those of the record (`Worker.Standing`).

2. **A run has two parts** (`Course.parts`).  The worker reads and works until it has read the first
   exit, or has read everything and nobody is left to write to it.  Then it stops, and works on with
   what is queued or discards it.
-/
import Blockworld.Proofs.Course

namespace Blockworld

variable {μ ρ : Type}

/-! ## 1. Notes -/

/-- What an event means for the queue. -/
def Service.note? (service : Service ρ) : Worker.Event ρ → Option (Note ρ)
  | .received (.viewerMoved viewer) => some (.retargeted viewer)
  | .received m => (service.submission? m).map .submitted
  | .called c a => some (.served c a)
  | _ => none

section Notes

variable (service : Service ρ)

theorem note?_request {m : Message} (hrequest : m.topic.isEvent = false) :
    service.note? (.received m) = (service.submission? m).map .submitted := by
  cases m <;> first | rfl | cases hrequest

/-- A message means what it submits, unless it moves the viewer. -/
theorem note?_received (m : Message) :
    (∃ viewer, service.submission? m = none ∧
      service.note? (.received m) = some (.retargeted viewer)) ∨
      service.note? (.received m) = (service.submission? m).map .submitted := by
  cases m with
  | viewerMoved viewer => exact .inl ⟨viewer, rfl, rfl⟩
  | _ => exact .inr rfl

theorem note?_of_submission {m : Message} {s : Submission ρ} (h : service.submission? m = some s) :
    service.note? (.received m) = some (.submitted s) := by
  rcases note?_received service m with ⟨viewer, hnone, -⟩ | hnote
  · rw [h] at hnone
    cases hnone
  · rw [hnote, h]
    rfl

end Notes

/-! ## 2. Records -/

section Records

variable (service : StatefulService μ ρ)

/-- The memory after an event.  It changes when work is done; a process that fails leaves it. -/
def StatefulService.recall (memory : μ) : Worker.Event ρ → μ
  | .called c a =>
    match service.process memory c a with
    | .ok (_, memory) => memory
    | .error _ => memory
  | _ => memory

/-- The memory after some events. -/
def StatefulService.memoryAfter (memory : μ) (es : List (Worker.Event ρ)) : μ :=
  es.foldl service.recall memory

/-- What the events mean for the queue, each by the memory of its time. -/
def StatefulService.notes : μ → List (Worker.Event ρ) → List (Note ρ)
  | _, [] => []
  | memory, e :: es =>
    ((service.given memory).note? e).toList ++ notes (service.recall memory e) es

/-- What the events mean for the queue, the latest first. -/
def StatefulService.record (memory : μ) (es : List (Worker.Event ρ)) : Past ρ :=
  (service.notes memory es).reverse

theorem recall_called {memory memory' : μ} {c : ChunkPos} {a : ρ} {response : Message}
    (h : service.process memory c a = .ok (response, memory')) :
    service.recall memory (.called c a) = memory' := by
  rw [StatefulService.recall, h]

theorem memoryAfter_append (memory : μ) (es es' : List (Worker.Event ρ)) :
    service.memoryAfter memory (es ++ es') =
      service.memoryAfter (service.memoryAfter memory es) es' := List.foldl_append

theorem notes_append (memory : μ) (es es' : List (Worker.Event ρ)) :
    service.notes memory (es ++ es') =
      service.notes memory es ++ service.notes (service.memoryAfter memory es) es' := by
  induction es generalizing memory with
  | nil => rfl
  | cons e es ih =>
    rw [List.cons_append, StatefulService.notes, ih, StatefulService.notes, List.append_assoc]
    rfl

theorem record_append (memory : μ) (es es' : List (Worker.Event ρ)) :
    service.record memory (es ++ es') =
      service.record (service.memoryAfter memory es) es' ++ service.record memory es := by
  rw [StatefulService.record, notes_append, List.reverse_append]
  rfl

theorem record_singleton (memory : μ) (e : Worker.Event ρ) :
    service.record memory [e] = ((service.given memory).note? e).toList := by
  cases h : (service.given memory).note? e <;>
    simp [StatefulService.record, StatefulService.notes, h]

theorem record_cons (memory : μ) (e : Worker.Event ρ) (es : List (Worker.Event ρ)) :
    service.record memory (e :: es) =
      service.record (service.recall memory e) es ++
        ((service.given memory).note? e).toList := by
  rw [← record_singleton]
  exact record_append service memory [e] es

end Records

namespace Worker

variable {service : StatefulService μ ρ} {scheduling : Scheduling} {memory : μ} {w : Worker ρ}
  {past : Past ρ}

/-! ## 3. A worker and its record -/

/-- The worker stands as its record says, between two pieces of work. -/
structure Standing (scheduling : Scheduling) (w : Worker ρ) (past : Past ρ) : Prop where
  history : WorkQueue.History scheduling.viewer scheduling.policy w.queue past
  ending : w.ending = scheduling.ending
  processed : w.tally.processed = past.served.length
  deduplicated : w.tally.deduplicated = past.repeats false
  discarded : w.tally.discarded = 0

theorem standing_start (name : String) (scheduling : Scheduling) :
    Standing scheduling (start name scheduling : Worker ρ) [] :=
  ⟨.empty, rfl, rfl, rfl, rfl⟩

/-- **Reading a message keeps the record.** -/
theorem Standing.read (hw : Standing scheduling w past) {m : Message} {w' : Worker ρ}
    (h : w.handle (service.given memory) m = .ok (some w')) :
    Standing scheduling w' (((service.given memory).note? (.received m)).toList ++ past) := by
  rcases handle_eq_some h with ⟨viewer, rfl, rfl⟩ | ⟨s, hrequest, hs, rfl⟩
  · exact ⟨hw.history.retarget viewer, hw.ending, hw.processed, hw.deduplicated, hw.discarded⟩
  · rw [note?_request _ hrequest, hs]
    constructor
    · rw [queue_submit]
      exact hw.history.submit s
    · rw [ending_submit, hw.ending]
    · rw [tally_submit]
      exact hw.processed
    · rw [tally_submit, hw.history.contains_eq, hw.deduplicated]
      rfl
    · rw [tally_submit]
      exact hw.discarded

/-- **Processing a request keeps the record.** -/
theorem Standing.work (hw : Standing scheduling w past) {t : Taken ρ}
    (h : w.take = .ok (some t)) :
    Standing scheduling t.worker.finish (.served t.coords t.request :: past) := by
  obtain ⟨q, hdequeue, hworker⟩ := take_eq_some h
  unfold finish
  rw [hworker]
  exact ⟨hw.history.serve hdequeue, hw.ending, congrArg (· + 1) hw.processed, hw.deduplicated,
    hw.discarded⟩

/-- Every beginning of the events goes on with the history of the queue. -/
def Continues (service : StatefulService μ ρ) (scheduling : Scheduling) (memory : μ)
    (past : Past ρ) (es : List (Event ρ)) : Prop :=
  ∀ pre, pre <+: es → ∃ q,
    WorkQueue.History scheduling.viewer scheduling.policy q (service.record memory pre ++ past)

theorem continues_nil {q : WorkQueue ρ}
    (h : WorkQueue.History scheduling.viewer scheduling.policy q past) :
    Continues service scheduling memory past [] := by
  intro pre hpre
  rw [List.prefix_nil.mp hpre]
  exact ⟨q, h⟩

theorem continues_cons {e : Event ρ} {es : List (Event ρ)} {q : WorkQueue ρ}
    (h : WorkQueue.History scheduling.viewer scheduling.policy q past)
    (hes : Continues service scheduling (service.recall memory e)
      (((service.given memory).note? e).toList ++ past) es) :
    Continues service scheduling memory past (e :: es) := by
  intro pre hpre
  rcases List.prefix_cons_iff.mp hpre with rfl | ⟨pre', rfl, hpre'⟩
  · exact ⟨q, h⟩
  · rw [record_cons, List.append_assoc]
    exact hes pre' hpre'

/-- Taking work out goes on with the history. -/
theorem Standing.called (hw : Standing scheduling w past) {t : Taken ρ}
    (h : w.take = .ok (some t)) : ∃ q, WorkQueue.History scheduling.viewer scheduling.policy q
      (.served t.coords t.request :: past) := by
  obtain ⟨q, hdequeue, -⟩ := take_eq_some h
  exact ⟨q, hw.history.serve hdequeue⟩

section Runs

variable {upcoming : List (List Message)} {unread : List Message} {r : Run ρ}

theorem Closing.continues (h : Closing service memory w r) (hw : Standing scheduling w past) :
    Continues service scheduling memory past r.events := by
  induction h generalizing past with
  | discard _ => exact continues_nil hw.history
  | finish _ _ => exact continues_nil hw.history
  | work _ htake hprocess _ ih =>
    have hnext := hw.work htake
    refine continues_cons hw.history ?_
    rw [recall_called service hprocess]
    exact continues_cons hnext.history (ih hnext)
  | crash _ htake _ =>
    obtain ⟨q, hq⟩ := hw.called htake
    exact continues_cons hw.history (continues_nil hq)

/-- **At every moment of a run the queue is one that its record tells of.** -/
theorem Course.continues (h : Course service upcoming unread memory w r)
    (hw : Standing scheduling w past) : Continues service scheduling memory past r.events := by
  induction h generalizing past with
  | wait _ _ ih => exact continues_cons hw.history (ih hw)
  | read hhandle _ ih => exact continues_cons hw.history (ih (hw.read hhandle))
  | @reject upcoming m unread memory w f hhandle =>
    refine continues_cons hw.history ?_
    rcases handle_cases (service.given memory) w m with
      ⟨-, hh⟩ | ⟨viewer, -, hh⟩ | ⟨s, -, -, hh⟩ | ⟨hrequest, hnone, -⟩
    · rw [hh] at hhandle
      cases hhandle
    · rw [hh] at hhandle
      cases hhandle
    · rw [hh] at hhandle
      cases hhandle
    · rw [note?_request _ hrequest, hnone]
      exact continues_nil hw.history
  | work htake hprocess _ ih =>
    have hnext := hw.work htake
    refine continues_cons hw.history ?_
    rw [recall_called service hprocess]
    exact continues_cons hnext.history (continues_cons hnext.history (ih hnext))
  | crash htake _ =>
    obtain ⟨q, hq⟩ := hw.called htake
    exact continues_cons hw.history (continues_cons hq (continues_nil hq))
  | exit hhandle hclosing =>
    have hexit := eq_exit_of_handle hhandle
    subst hexit
    exact continues_cons hw.history (continues_cons hw.history (hclosing.continues hw))
  | hangUp hclosing => exact continues_cons hw.history (hclosing.continues hw)

/-! ## 4. The two parts of a run -/

/-- A worker that is ending begins to end once. -/
theorem Closing.not_mem_stopped (h : Closing service memory w r) : .stopped ∉ r.events := by
  induction h with
  | discard _ => exact List.not_mem_nil
  | finish _ _ => exact List.not_mem_nil
  | work _ _ _ _ ih => simpa [Run.after] using ih
  | crash _ _ _ => simp [Run.after, Run.abort]

/-- A worker that discards what is queued does nothing more. -/
theorem Closing.eq_nil (h : Closing service memory w r) (hending : w.ending = .immediate) :
    r.events = [] := by
  cases h with
  | discard _ => rfl
  | finish hdrain _ => rw [hending] at hdrain; cases hdrain
  | work hdrain _ _ _ => rw [hending] at hdrain; cases hdrain
  | crash hdrain _ _ => rw [hending] at hdrain; cases hdrain

/-- **A worker that ends has the counters of its record**, and nothing is left in the queue that it
was to process. -/
theorem Closing.ended (h : Closing service memory w r) (hfault : r.fault = none)
    (hw : Standing scheduling w past) :
    ∃ w', r.worker = w'.conclude ∧
      Standing scheduling w' (service.record memory r.events ++ past) ∧
      (scheduling.ending = .drain → w'.take = .ok none) := by
  induction h generalizing past with
  | @discard memory w hending =>
    refine ⟨w, rfl, hw, fun hdrain => ?_⟩
    rw [← hw.ending, hending] at hdrain
    cases hdrain
  | @finish memory w hending htake => exact ⟨w, rfl, hw, fun _ => htake⟩
  | @work memory memory' w t response r hending htake hprocess hrest ih =>
    obtain ⟨w', hworker, hstanding, hempty⟩ := ih hfault (hw.work htake)
    refine ⟨w', hworker, ?_, hempty⟩
    have hevents : ((r.after (.sent response)).after (.called t.coords t.request)).events =
      .called t.coords t.request :: .sent response :: r.events := rfl
    rw [hevents, record_cons, record_cons, recall_called service hprocess]
    simpa [Service.note?, StatefulService.recall] using hstanding
  | crash _ _ _ => cases hfault

/-- Why a worker stops: it has just read the first exit, or it has read everything and there was no
exit. -/
inductive StopsAfter (upcoming : List (List Message)) (unread : List Message) :
    List (Event ρ) → Prop
  | exit (main : List (Event ρ)) (hnone : .exit ∉ heard main) :
      StopsAfter upcoming unread (main ++ [.received .exit])
  | hangUp {main : List (Event ρ)} (hnone : .exit ∉ heard main)
      (harrived : arrivals main = upcoming) (hheard : heard main = unread ++ upcoming.flatten) :
      StopsAfter upcoming unread main

/-- What a run of a worker is made of: the events before it stops, and the run from there on, which
the worker begins as its record says. -/
structure Parts (service : StatefulService μ ρ) (scheduling : Scheduling)
    (upcoming : List (List Message)) (unread : List Message) (memory : μ) (past : Past ρ)
    (r : Run ρ) (main : List (Event ρ)) (w : Worker ρ) (rest : Run ρ) : Prop where
  events : r.events = main ++ .stopped :: rest.events
  worker : r.worker = rest.worker
  fault : rest.fault = none
  going : .stopped ∉ main
  stops : StopsAfter upcoming unread main
  standing : Standing scheduling w (service.record memory main ++ past)
  closing : Closing service (service.memoryAfter memory main) w rest

/-- The parts of a run with more events in front. -/
theorem Parts.behind {main : List (Event ρ)} {rest : Run ρ} (es : List (Event ρ))
    (h : Parts service scheduling upcoming unread (service.memoryAfter memory es)
      (service.record memory es ++ past) r main w rest)
    {upcoming' : List (List Message)} {unread' : List Message} {r' : Run ρ}
    (hevents : r'.events = es ++ r.events) (hworker : r'.worker = r.worker)
    (hgoing : .stopped ∉ es) (hnone : .exit ∉ heard es)
    (harrived : upcoming' = arrivals es ++ upcoming)
    (hheard : unread' ++ upcoming'.flatten = heard es ++ (unread ++ upcoming.flatten)) :
    Parts service scheduling upcoming' unread' memory past r' (es ++ main) w rest := by
  refine ⟨?_, hworker.trans h.worker, h.fault, ?_, ?_, ?_, ?_⟩
  · rw [hevents, h.events, List.append_assoc]
  · intro hmem
    exact (List.mem_append.mp hmem).elim hgoing h.going
  · cases h.stops with
    | exit main hnone' =>
      rw [← List.append_assoc]
      refine .exit _ ?_
      intro hmem
      rw [heard_append] at hmem
      exact (List.mem_append.mp hmem).elim hnone hnone'
    | hangUp hnone' harrived' hheard' =>
      refine .hangUp ?_ ?_ ?_
      · intro hmem
        rw [heard_append] at hmem
        exact (List.mem_append.mp hmem).elim hnone hnone'
      · rw [arrivals_append, harrived', harrived]
      · rw [heard_append, hheard', hheard]
  · rw [record_append, List.append_assoc]
    exact h.standing
  · rw [memoryAfter_append]
    exact h.closing

/-- **A run that no fault ends has two parts.** -/
theorem Course.parts (h : Course service upcoming unread memory w r)
    (hw : Standing scheduling w past) (hfault : r.fault = none) :
    ∃ main w' rest, Parts service scheduling upcoming unread memory past r main w' rest := by
  induction h generalizing past with
  | @wait upcoming batch memory w r _ _ ih =>
    obtain ⟨main, w', rest, hparts⟩ := ih hw hfault
    exact ⟨_, w', rest, hparts.behind [.arrived batch] rfl rfl (by simp) nofun rfl rfl⟩
  | @read upcoming m unread memory w w' r hhandle _ ih =>
    have hnext := hw.read hhandle
    rw [← record_singleton] at hnext
    obtain ⟨main, w'', rest, hparts⟩ := ih hnext hfault
    refine ⟨_, w'', rest, hparts.behind [.received m] rfl rfl (by simp) ?_ rfl rfl⟩
    intro hmem
    exact topic_ne_exit_of_handle hhandle (by rw [← List.mem_singleton.mp hmem]; rfl)
  | reject _ => cases hfault
  | @work upcoming batch memory memory' w t response r htake hprocess _ ih =>
    rw [← recall_called service hprocess] at ih
    obtain ⟨main, w', rest, hparts⟩ := ih (hw.work htake) hfault
    exact ⟨_, w', rest, hparts.behind
      [.called t.coords t.request, .arrived batch, .sent response] rfl rfl (by simp) nofun rfl rfl⟩
  | crash _ _ => cases hfault
  | @exit upcoming m unread memory w r hhandle hclosing =>
    have hexit := eq_exit_of_handle hhandle
    subst hexit
    exact ⟨[.received .exit], w, r, rfl, rfl, hfault, by simp, StopsAfter.exit [] nofun, hw,
      hclosing⟩
  | @hangUp memory w r hclosing =>
    exact ⟨[], w, r, rfl, rfl, hfault, nofun, .hangUp nofun rfl rfl, hw, hclosing⟩

end Runs

end Worker

end Blockworld
