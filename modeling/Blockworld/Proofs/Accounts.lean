/-
# The accounts of a worker

What a worker has done by the time it ends is decided by what it has read.

* It has read every message up to the first exit, and each request among them as a submission, by
  the memory of the time (`Accounts.read`, `Accounts.requests`).
* Every request that it has read is counted once: it was processed, or found its position queued, or
  was discarded at the end (`Accounts.balance`).
* The responses are those of processing the requests taken out, one after the other
  (`Accounts.responses`).
* A worker that drains its queue leaves no request that it has read unprocessed, and one that does
  not processes nothing more once it has seen the end (`Accounts.drained`, `Accounts.immediate`).
* If later requests replace earlier ones, the last work for a position uses the last request for it
  (`Accounts.latest`).

`run_accounts` proves this of every run, whatever the service and the schedule, from the history of
the queue (`Course.continues`) and the two parts of a run (`Course.parts`).
-/
import Blockworld.Proofs.Progress

namespace Blockworld

/-! ## 1. Positions in a past -/

namespace Past

variable {α : Type} {c : ChunkPos}

/-- The payload of the last submission for a position. -/
def lastSubmitted? (past : Past α) (c : ChunkPos) : Option α :=
  (past.submitted.find? (·.coords = c)).map (·.request)

/-- The payload that was last served for a position. -/
def lastServed? (past : Past α) (c : ChunkPos) : Option α :=
  (past.served.find? (·.1 = c)).map Prod.snd

theorem lastSubmitted?_submitted (s : Submission α) (past : Past α) (c : ChunkPos) :
    lastSubmitted? (.submitted s :: past) c =
      if s.coords = c then some s.request else past.lastSubmitted? c := by
  have hcons : submitted (.submitted s :: past) = s :: past.submitted := rfl
  unfold lastSubmitted?
  rw [hcons, List.find?_cons]
  by_cases hc : s.coords = c <;> simp [hc]

theorem lastServed?_served (c' : ChunkPos) (a : α) (past : Past α) (c : ChunkPos) :
    lastServed? (.served c' a :: past) c = if c' = c then some a else past.lastServed? c := by
  have hcons : served (.served c' a :: past) = (c', a) :: past.served := rfl
  unfold lastServed?
  rw [hcons, List.find?_cons]
  by_cases hc : c' = c <;> simp [hc]

/-- If later payloads replace earlier ones, a position is queued with the last. -/
theorem payload?_eq_lastSubmitted? {past : Past α} (h : past.queued c = true) :
    past.payload? .replace c = past.lastSubmitted? c := by
  induction past with
  | nil => cases h
  | cons note past ih =>
    cases note with
    | submitted s =>
      rw [lastSubmitted?_submitted, payload?]
      by_cases hc : s.coords = c
      · simp [hc]
      · have hqueued : queued past c = true := by simpa [queued, hc] using h
        rw [if_neg hc, if_neg hc, ih hqueued]
    | retargeted _ => exact ih h
    | served c' a =>
      have hqueued : c' ≠ c ∧ queued past c = true := by simpa [queued] using h
      rw [payload?, if_neg hqueued.1, ih hqueued.2]
      rfl

/-- A submission whose position is not queued any more has been served. -/
theorem exists_served_of_not_queued {s : Submission α} {newer older : Past α}
    (h : queued (newer ++ .submitted s :: older) s.coords = false) :
    ∃ a, .served s.coords a ∈ newer := by
  induction newer with
  | nil => simp [queued] at h
  | cons note newer ih =>
    cases note with
    | submitted s' =>
      have hrest : queued (newer ++ .submitted s :: older) s.coords = false := by
        simp only [List.cons_append, queued, Bool.or_eq_false_iff] at h
        exact h.2
      obtain ⟨a, ha⟩ := ih hrest
      exact ⟨a, List.mem_cons_of_mem _ ha⟩
    | retargeted _ =>
      obtain ⟨a, ha⟩ := ih h
      exact ⟨a, List.mem_cons_of_mem _ ha⟩
    | served c' a' =>
      by_cases hc : c' = s.coords
      · subst hc
        exact ⟨a', List.mem_cons_self⟩
      · have hrest : queued (newer ++ .submitted s :: older) s.coords = false := by
          simpa [queued, hc] using h
        obtain ⟨a, ha⟩ := ih hrest
        exact ⟨a, List.mem_cons_of_mem _ ha⟩

end Past

/-- **If later payloads replace earlier ones, what was served last for a position that is not queued
any more is what was submitted last for it.** -/
theorem WorkQueue.History.lastServed?_eq {α : Type} {viewer : ChunkPos} {q : WorkQueue α}
    {past : Past α} {c : ChunkPos} (h : History viewer .replace q past)
    (hc : past.queued c = false) : past.lastServed? c = past.lastSubmitted? c := by
  induction h with
  | empty => rfl
  | @submit q past _ s ih =>
    have hother : s.coords ≠ c ∧ past.queued c = false := by simpa [Past.queued] using hc
    rw [Past.lastSubmitted?_submitted, if_neg hother.1, ← ih hother.2]
    rfl
  | retarget _ _ ih => exact ih hc
  | @serve q q' past c' a h hserved ih =>
    rw [Past.lastServed?_served]
    by_cases hc' : c' = c
    · subst hc'
      have hqueued : past.queued c' = true := by
        rw [← h.contains_eq]
        exact contains_of_dequeue hserved
      have hpayload := (h.pending_eq c').symm.trans (dequeue_spec hserved).1
      rw [if_pos rfl, ← hpayload, Past.payload?_eq_lastSubmitted? hqueued]
      rfl
    · have hqueued : past.queued c = false := by simpa [Past.queued, hc'] using hc
      rw [if_neg hc', ih hqueued]
      rfl

/-! ## 2. What is on record -/

namespace StatefulService

open Worker

variable {μ ρ : Type} (service : StatefulService μ ρ)

/-- The requests among the messages read, in order, each by the memory of its time. -/
def requests : μ → List (Event ρ) → List (Submission ρ)
  | _, [] => []
  | memory, e :: es =>
    (heard [e]).filterMap (service.given memory).submission? ++
      requests (service.recall memory e) es

/-- Without a memory they are what the messages submit. -/
theorem requests_stateful (service : Service ρ) (memory : Unit) (es : List (Event ρ)) :
    service.stateful.requests memory es = (heard es).filterMap service.submission? := by
  induction es generalizing memory with
  | nil => rfl
  | cons e es ih =>
    have hheard : heard (e :: es) = heard [e] ++ heard es := heard_append [e] es
    rw [requests, ih, hheard, List.filterMap_append]
    rfl

/-- The responses to requests that are processed one after the other. -/
def replies : μ → List (ChunkPos × ρ) → Except Fault (List Message)
  | _, [] => .ok []
  | memory, (c, a) :: calls =>
    match service.process memory c a with
    | .error f => .error f
    | .ok (response, memory) => (replies memory calls).map (response :: ·)

/-- Every request that is processed is answered. -/
theorem length_replies {memory : μ} {calls : List (ChunkPos × ρ)} {responses : List Message}
    (h : service.replies memory calls = .ok responses) : responses.length = calls.length := by
  induction calls generalizing memory responses with
  | nil =>
    cases h
    rfl
  | cons call calls ih =>
    unfold replies at h
    split at h
    · cases h
    · next response memory' _ =>
      cases hrest : service.replies memory' calls with
      | error f =>
        rw [hrest] at h
        cases h
      | ok rest =>
        rw [hrest] at h
        cases h
        simp [ih hrest]

end StatefulService

namespace Worker

variable {μ ρ : Type} {service : StatefulService μ ρ}

theorem submitted_record (memory : μ) (es : List (Event ρ)) :
    (service.record memory es).submitted = (service.requests memory es).reverse := by
  induction es generalizing memory with
  | nil => rfl
  | cons e es ih =>
    rw [record_cons, Past.submitted, List.filterMap_append]
    show (service.record _ es).submitted ++ _ = _
    rw [ih, StatefulService.requests, List.reverse_append]
    congr 1
    cases e with
    | received m =>
      rcases note?_received (service.given memory) m with ⟨viewer, hs, hnote⟩ | hnote
      · simp [hnote, hs, heard]
      · rw [hnote]
        cases hs : (service.given memory).submission? m <;> simp [hs, heard]
    | _ => simp [Service.note?, heard]

theorem served_record (memory : μ) (es : List (Event ρ)) :
    (service.record memory es).served = (begun es).reverse := by
  induction es generalizing memory with
  | nil => rfl
  | cons e es ih =>
    rw [record_cons, Past.served, List.filterMap_append]
    show (service.record _ es).served ++ _ = _
    rw [ih]
    cases e with
    | received m =>
      rcases note?_received (service.given memory) m with ⟨viewer, -, hnote⟩ | hnote
      · simp [hnote, begun]
      · rw [hnote]
        cases (service.given memory).submission? m <;> simp [begun]
    | _ => simp [Service.note?, begun]

/-- Where nothing is read there are no requests. -/
theorem requests_eq_nil {memory : μ} {es : List (Event ρ)} (h : heard es = []) :
    service.requests memory es = [] := by
  induction es generalizing memory with
  | nil => rfl
  | cons e es ih =>
    have hheard : heard (e :: es) = heard [e] ++ heard es := heard_append [e] es
    rw [hheard, List.append_eq_nil_iff] at h
    rw [StatefulService.requests, h.1, ih h.2]
    rfl

/-- What is served on record was begun. -/
theorem called_of_mem_record {memory : μ} {es : List (Event ρ)} {c : ChunkPos} {a : ρ}
    (h : .served c a ∈ service.record memory es) : .called c a ∈ es := by
  have hserved : (c, a) ∈ (service.record memory es).served := List.mem_filterMap.mpr ⟨_, h, rfl⟩
  rw [served_record] at hserved
  obtain ⟨e, he, hcall⟩ := List.mem_filterMap.mp (List.mem_reverse.mp hserved)
  cases e with
  | called c' a' =>
    cases hcall
    exact he
  | received _ => cases hcall
  | arrived _ => cases hcall
  | sent _ => cases hcall
  | stopped => cases hcall

/-! ## 3. Responses -/

section Runs

variable {memory : μ} {w : Worker ρ} {upcoming : List (List Message)} {unread : List Message}
  {r : Run ρ}

theorem Closing.replies_eq (h : Closing service memory w r) (hfault : r.fault = none) :
    service.replies memory r.calls = .ok r.responses := by
  induction h with
  | discard _ => rfl
  | finish _ _ => rfl
  | @work memory memory' w t response r _ _ hprocess _ ih =>
    show service.replies memory ((t.coords, t.request) :: r.calls) = .ok (response :: r.responses)
    simp only [StatefulService.replies, hprocess, ih hfault, Except.map]
  | crash _ _ _ => cases hfault

/-- The requests are what the messages submit: one for each message that is no event, in order. -/
def Submits (service : StatefulService μ ρ) (ms : List Message) (requests : List (Submission ρ)) :
    Prop :=
  List.Forall₂ (fun m s => ∃ memory, (service.given memory).submission? m = some s)
    (ms.filter (·.topic.isEvent = false)) requests

theorem Closing.submits (h : Closing service memory w r) :
    Submits service (heard r.events) (service.requests memory r.events) := by
  rw [h.heard_eq, requests_eq_nil h.heard_eq]
  exact .nil

/-- **Every request that is read is submitted.** -/
theorem Course.submits (h : Course service upcoming unread memory w r) (hfault : r.fault = none) :
    Submits service (heard r.events) (service.requests memory r.events) := by
  induction h with
  | wait _ _ ih => exact ih hfault
  | @read upcoming m unread memory w w' r hhandle _ ih =>
    show Submits service (m :: heard r.events)
      (((service.given memory).submission? m).toList ++ service.requests memory r.events)
    rcases handle_eq_some hhandle with ⟨viewer, rfl, -⟩ | ⟨s, hrequest, hs, -⟩
    · exact ih hfault
    · rw [hs, Submits, List.filter_cons_of_pos (by simpa using hrequest)]
      exact .cons ⟨memory, hs⟩ (ih hfault)
  | reject _ => cases hfault
  | @work upcoming batch memory memory' w t response r _ hprocess _ ih =>
    rw [← recall_called service hprocess] at ih
    exact ih hfault
  | crash _ _ => cases hfault
  | exit hhandle hclosing =>
    have hexit := eq_exit_of_handle hhandle
    subst hexit
    exact hclosing.submits
  | hangUp hclosing => exact hclosing.submits

/-- **The responses are those of processing the requests taken out, one after the other.** -/
theorem Course.replies_eq (h : Course service upcoming unread memory w r)
    (hfault : r.fault = none) : service.replies memory r.calls = .ok r.responses := by
  induction h with
  | wait _ _ ih => exact ih hfault
  | read _ _ ih => exact ih hfault
  | reject _ => cases hfault
  | @work upcoming batch memory memory' w t response r _ hprocess _ ih =>
    show service.replies memory ((t.coords, t.request) :: r.calls) = .ok (response :: r.responses)
    simp only [StatefulService.replies, hprocess, ih hfault, Except.map]
  | crash _ _ => cases hfault
  | exit _ hclosing => exact hclosing.replies_eq hfault
  | hangUp hclosing => exact hclosing.replies_eq hfault

end Runs

/-! ## 4. Accounts -/

/-- What is true of a worker that has come to its end. -/
structure Accounts (service : StatefulService μ ρ) (memory : μ) (scheduling : Scheduling)
    (schedule : List (List Message)) (r : Run ρ) : Prop where
  /-- Everything up to the first exit is read, and nothing behind it. -/
  read : heard r.events = aheadOfExit schedule.flatten ++ firstExit schedule.flatten
  /-- The requests are those ahead of the first exit. -/
  requests : Submits service (aheadOfExit schedule.flatten) (service.requests memory r.events)
  /-- Each of them is counted once, if urgent ones that found their position queued are too. -/
  balance : (service.requests memory r.events).length =
    r.worker.tally.processed + r.worker.tally.deduplicated + r.worker.tally.discarded +
      (service.record memory r.events).repeats true
  processed : r.worker.tally.processed = r.calls.length
  /-- One response was sent for each request processed. -/
  answered : r.responses.length = r.calls.length
  /-- The responses are those of processing the requests in order. -/
  responses : service.replies memory r.calls = .ok r.responses
  /-- To drain, a worker processes every request that it has read, after it has read it. -/
  drained : scheduling.ending = .drain → r.worker.tally.discarded = 0 ∧
    (∀ c, r.worker.queue.contains c = false) ∧
    ∀ before m after s, r.events = before ++ .received m :: after →
      (service.given (service.memoryAfter memory before)).submission? m = some s →
        ∃ a, .called s.coords a ∈ after
  /-- Otherwise it processes nothing once it has seen the end, and counts what is left. -/
  immediate : scheduling.ending = .immediate →
    r.worker.tally.discarded = r.worker.queue.size ∧
    ∀ before e after, r.events = before ++ e :: after → e = .received .exit ∨ e = .stopped →
      ∀ c a, .called c a ∉ after
  /-- If requests replace each other, the last work for a position that is not discarded uses the
  last request for it. -/
  latest : scheduling.policy = .replace → ∀ c, r.worker.queue.contains c = false →
    (r.calls.findRev? (·.1 = c)).map Prod.snd =
      ((service.requests memory r.events).findRev? (·.coords = c)).map (·.request)

theorem processed_conclude (w : Worker ρ) : w.conclude.tally.processed = w.tally.processed := by
  unfold conclude
  split <;> rfl

theorem discarded_conclude (w : Worker ρ) :
    w.conclude.tally.discarded =
      match w.ending with
      | .drain => w.tally.discarded
      | .immediate => w.queue.size := by
  unfold conclude
  cases w.ending <;> rfl

/-- The first exit is no request. -/
theorem filter_firstExit (ms : List Message) :
    (firstExit ms).filter (·.topic.isEvent = false) = [] := by
  refine List.filter_eq_nil_iff.mpr fun m hm => ?_
  have hexit := (List.mem_filter.mp (List.mem_of_mem_take hm)).2
  rw [beq_iff_eq.mp hexit]
  decide

variable {scheduling : Scheduling} {memory : μ} {name : String} {w : Worker ρ} {past : Past ρ}

/-- A worker that has drained its queue has nothing queued. -/
theorem Standing.contains_eq_false (hw : Standing scheduling w past) (htake : w.take = .ok none)
    (c : ChunkPos) : w.queue.contains c = false :=
  hw.history.sound.dequeue_eq_none_iff.mp (take_eq_none htake) c

/-- **The counters of a worker at its end add up to the requests on record.** -/
theorem Standing.balance (hw : Standing scheduling w past)
    (hempty : scheduling.ending = .drain → w.take = .ok none) :
    past.submitted.length = w.conclude.tally.processed + w.conclude.tally.deduplicated +
      w.conclude.tally.discarded + past.repeats true := by
  have htotal := hw.history.balance
  have hprocessed := hw.processed
  have hdeduplicated := hw.deduplicated
  have hdiscarded := hw.discarded
  unfold conclude
  cases hending : w.ending with
  | immediate =>
    dsimp only
    omega
  | drain =>
    have htake := hempty (hw.ending.symm.trans hending)
    have hsize := WorkQueue.size_eq_zero_iff.mpr (hw.contains_eq_false htake)
    dsimp only
    omega

/-- **A worker that ends has drained its queue, if it was to**, and has the counters of its
record. -/
theorem Course.ended {schedule : List (List Message)} {r : Run ρ}
    (h : Course service schedule [] memory (start name scheduling) r) (hfault : r.fault = none) :
    ∃ w, r.worker = w.conclude ∧ Standing scheduling w (service.record memory r.events) ∧
      (scheduling.ending = .drain → w.take = .ok none) := by
  obtain ⟨main, w, rest, hparts⟩ := h.parts (standing_start name scheduling) hfault
  obtain ⟨w', hworker, hstanding, hempty⟩ := hparts.closing.ended hparts.fault hparts.standing
  refine ⟨w', hparts.worker.trans hworker, ?_, hempty⟩
  rw [List.append_nil] at hstanding
  rw [hparts.events, record_append, record_cons]
  simpa [Service.note?, StatefulService.recall] using hstanding

/-- **A worker that is not to drain its queue does nothing once it has seen the end.** -/
theorem Course.nothing_after {schedule : List (List Message)} {r : Run ρ}
    (h : Course service schedule [] memory (start name scheduling) r) (hfault : r.fault = none)
    (hending : scheduling.ending = .immediate) {before after : List (Event ρ)} {e : Event ρ}
    (hevents : r.events = before ++ e :: after) (he : e = .received .exit ∨ e = .stopped)
    (c : ChunkPos) (a : ρ) : .called c a ∉ after := by
  obtain ⟨main, w, rest, hparts⟩ := h.parts (standing_start name scheduling) hfault
  have hnil := hparts.closing.eq_nil (hparts.standing.ending.trans hending)
  have hsplit := hparts.events
  rw [hnil, hevents] at hsplit
  rcases he with rfl | rfl
  · have hstops := hparts.stops
    generalize main = es at hstops hsplit
    cases hstops with
    | exit main' hnone =>
      rw [List.append_assoc] at hsplit
      have hfirst : .received .exit ∉ main' := fun hmem => hnone (mem_heard hmem)
      obtain ⟨-, -, rfl⟩ := (List.append_cons_inj_of_notMem hfirst (by simp)).mp hsplit.symm
      simp
    | hangUp hnone _ _ =>
      have hmem : .received .exit ∈ es ++ [.stopped] := by
        rw [← hsplit]
        simp
      exact absurd (mem_heard (by simpa using hmem)) hnone
  · obtain ⟨-, -, rfl⟩ :=
      (List.append_cons_inj_of_notMem hparts.going List.not_mem_nil).mp hsplit.symm
    exact List.not_mem_nil

/-- **The accounts of a worker are in order** when it has ended, whatever it has read.  It ends
unless a process fails. -/
theorem run_accounts (service : StatefulService μ ρ) (memory : μ) (name : String)
    (scheduling : Scheduling) (schedule : List (List Message))
    (hunpack : ∀ memory m, m.topic = service.topic memory →
      (service.unpack memory m).isSome = true)
    (hmessages : ∀ m ∈ schedule.flatten,
      (∀ memory, m.topic = service.topic memory) ∨ m.topic.isEvent = true) :
    (∀ f, (run service memory (start name scheduling) schedule).fault = some f →
      ∃ memory c a, service.process memory c a = .error f) ∧
    ((run service memory (start name scheduling) schedule).fault = none →
      Accounts service memory scheduling schedule
        (run service memory (start name scheduling) schedule)) := by
  have hcourse := course_run service memory name scheduling schedule
  generalize run service memory (start name scheduling) schedule = r at hcourse ⊢
  constructor
  · intro f hfault
    refine hcourse.process_fails (fun m hm => ?_) hfault
    rw [List.nil_append] at hm
    by_cases hevent : m.topic.isEvent = true
    · exact .inl hevent
    · refine .inr fun memory => ?_
      have htopic := (hmessages m hm).resolve_right hevent memory
      rw [Service.submission?, if_pos ⟨eq_false_of_ne_true hevent, htopic⟩]
      exact hunpack memory m htopic
  · intro hfault
    obtain ⟨w, hworker, hstanding, hempty⟩ := hcourse.ended hfault
    have hqueue : r.worker.queue = w.queue := by rw [hworker, queue_conclude]
    have hanswers := hcourse.replies_eq hfault
    have hlength : (service.record memory r.events).submitted.length =
        (service.requests memory r.events).length := by
      rw [submitted_record, List.length_reverse]
    have hread := hcourse.heard_eq hfault
    rw [List.nil_append] at hread
    refine
      { read := hread
        requests := ?_
        balance := ?_
        processed := ?_
        answered := service.length_replies hanswers
        responses := hanswers
        drained := fun hdrain => ⟨?_, fun c => ?_, ?_⟩
        immediate := fun himmediate => ⟨?_, ?_⟩
        latest := fun hreplace c hc => ?_ }
    · have hsubmits := hcourse.submits hfault
      rw [Submits, hread, List.filter_append, filter_firstExit, List.append_nil] at hsubmits
      exact hsubmits
    · rw [← hlength, hworker]
      exact hstanding.balance hempty
    · rw [hworker, processed_conclude, hstanding.processed, served_record, List.length_reverse]
      rfl
    · rw [hworker, discarded_conclude, hstanding.ending, hdrain]
      exact hstanding.discarded
    · rw [hqueue]
      exact hstanding.contains_eq_false (hempty hdrain) c
    · intro before m after s hevents hs
      have hnote := note?_of_submission _ hs
      have hserved : (service.record (service.memoryAfter memory before) after ++
          .submitted s :: service.record memory before).queued s.coords = false := by
        have hqueued := hstanding.contains_eq_false (hempty hdrain) s.coords
        rw [hstanding.history.contains_eq, hevents, record_append, record_cons, hnote] at hqueued
        simpa [StatefulService.recall] using hqueued
      obtain ⟨a, ha⟩ := Past.exists_served_of_not_queued hserved
      exact ⟨a, called_of_mem_record ha⟩
    · rw [hworker, discarded_conclude, queue_conclude, hstanding.ending, himmediate]
    · intro before e after hevents he
      exact hcourse.nothing_after hfault himmediate hevents he
    · have hlast : (service.record memory r.events).lastServed? c =
          (service.record memory r.events).lastSubmitted? c := by
        have hhistory := hstanding.history
        rw [hreplace] at hhistory
        refine hhistory.lastServed?_eq ?_
        rw [← hhistory.contains_eq, ← hqueue]
        exact hc
      rw [Past.lastServed?, served_record, Past.lastSubmitted?, submitted_record] at hlast
      rw [List.findRev?_eq_find?_reverse, List.findRev?_eq_find?_reverse]
      exact hlast

/-- Three chunks are asked for, one of them twice before the work starts and one of them again while
it goes on.  What is behind the exit is never read. -/
def relaySchedule : List (List Message) :=
  [[.chunkRequest ⟨1, 0, 0⟩ false, .chunkRequest ⟨2, 0, 0⟩ false, .chunkRequest ⟨1, 0, 0⟩ true],
    [.chunkRequest ⟨2, 0, 0⟩ false, .viewerMoved ⟨3, 0, 0⟩],
    [.chunkRequest ⟨3, 0, 0⟩ false, .exit, .chunkRequest ⟨1, 0, 0⟩ false]]

theorem relay_accounts :
    (run Job.relayService.stateful () (start "relay" ⟨.zero, .replace, .drain⟩)
        relaySchedule).fault = none ∧
      Accounts Job.relayService.stateful () ⟨.zero, .replace, .drain⟩ relaySchedule
        (run Job.relayService.stateful () (start "relay" ⟨.zero, .replace, .drain⟩)
          relaySchedule) := by
  have hunpack : ∀ (memory : Unit) (m : Message),
      m.topic = Job.relayService.stateful.topic memory →
        (Job.relayService.stateful.unpack memory m).isSome = true := by
    intro memory m hm
    cases m with
    | chunkRequest _ _ => rfl
    | _ => cases hm
  have hend : (run Job.relayService.stateful () (start "relay" ⟨.zero, .replace, .drain⟩)
      relaySchedule).fault = none := by decide +kernel
  have hmessages : ∀ m ∈ relaySchedule.flatten,
      m.topic = Job.relayService.topic ∨ m.topic.isEvent = true := by decide
  exact ⟨hend, (run_accounts Job.relayService.stateful () "relay" ⟨.zero, .replace, .drain⟩
    relaySchedule hunpack fun m hm => (hmessages m hm).imp_left fun h _ => h).2 hend⟩

end Worker

end Blockworld
