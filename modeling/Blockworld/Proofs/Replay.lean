/-
# Workers follow their queue

The order in which a worker works is that of a queue of its own, and the worker is never behind with
its reading.  `StatefulService.queueAfter` is the queue that is fed with the messages read, in
order, and has served the work begun.

* Whenever a worker begins to work, that queue would serve this work next; and unless the worker is
  ending, everything that has arrived has been read (`Course.read_up`).
* It begins to work whenever that queue has something to serve and everything is read; it waits only
  if there is nothing to serve, and ends only when it has read an exit or nothing is left to wait
  for (`Course.next_queueAfter`).
* A worker that drains its queue at the end does so in the order in which that queue is served until
  nothing is left (`Closing.begun_eq`).
* What is behind the first exit makes no difference (`alike_run`).  Two runs are compared for this:
  they are `Run.Alike` if they differ in nothing but what arrives.
-/
import Blockworld.Proofs.Progress

namespace Blockworld

/-! ## 1. Feeding a queue -/

namespace WorkQueue

variable {α : Type} {q : WorkQueue α}

/-- The queue after what a note says. -/
def feed (q : WorkQueue α) : Note α → WorkQueue α
  | .submitted s => q.submit s
  | .retargeted viewer => q.retarget viewer
  | .served _ _ =>
    match q.dequeue with
    | .ok (some (_, q)) => q
    | _ => q

/-- Serving does not change what distances are measured to. -/
theorem viewer_feed_served (q : WorkQueue α) (c : ChunkPos) (a : α) :
    (q.feed (.served c a)).viewer = q.viewer := by
  unfold feed
  dsimp only
  split
  · next hserved => exact (dequeue_spec hserved).2.2.1
  · rfl

/-- **A queue is decided by its past.** -/
theorem History.eq_feed {viewer : ChunkPos} {policy : OnDuplicate} {past : Past α}
    (h : History viewer policy q past) :
    q = past.reverse.foldl feed (.empty viewer policy) := by
  rw [List.foldl_reverse]
  induction h with
  | empty => rfl
  | submit _ s ih => rw [List.foldr_cons, ← ih, feed]
  | retarget _ next ih => rw [List.foldr_cons, ← ih, feed]
  | serve _ hserved ih => rw [List.foldr_cons, ← ih, feed, hserved]

/-- What a queue serves one after the other, at most a number of times. -/
def serveUpTo : Nat → WorkQueue α → List (ChunkPos × α)
  | 0, _ => []
  | n + 1, q =>
    match q.dequeue with
    | .ok (some (work, q)) => work :: serveUpTo n q
    | _ => []

/-- What a queue serves until nothing is left. -/
def drained (q : WorkQueue α) : List (ChunkPos × α) := serveUpTo q.size q

theorem drained_of_none (h : q.dequeue = .ok none) : q.drained = [] := by
  unfold drained
  cases q.size with
  | zero => rfl
  | succ n => rw [serveUpTo, h]

theorem drained_of_some {work : ChunkPos × α} {q' : WorkQueue α}
    (h : q.dequeue = .ok (some (work, q'))) : q.drained = work :: q'.drained := by
  unfold drained
  rw [← size_served h, serveUpTo, h]

end WorkQueue

variable {μ ρ : Type}

/-- Where the viewer is who started at a given position, by the messages read. -/
def lastViewer (start : ChunkPos) (ms : List Message) : ChunkPos :=
  ms.foldl (fun viewer m =>
    match m with
    | .viewerMoved next => next
    | _ => viewer) start

/-! ## 2. The queue of a worker -/

/-- The queue that is fed with the messages read, in order, and has served the work begun. -/
def StatefulService.queueAfter (service : StatefulService μ ρ) (memory : μ)
    (scheduling : Scheduling) (es : List (Worker.Event ρ)) : WorkQueue ρ :=
  (service.notes memory es).foldl WorkQueue.feed (.empty scheduling.viewer scheduling.policy)

namespace Worker

variable {service : StatefulService μ ρ} {scheduling : Scheduling} {memory : μ} {name : String}
  {w : Worker ρ} {schedule : List (List Message)} {r : Run ρ}

theorem queueAfter_eq {q : WorkQueue ρ} {es : List (Event ρ)}
    (h : WorkQueue.History scheduling.viewer scheduling.policy q (service.record memory es)) :
    service.queueAfter memory scheduling es = q := by
  have hfeed := h.eq_feed
  rw [StatefulService.record, List.reverse_reverse] at hfeed
  exact hfeed.symm

/-- One event moves the viewer of a queue if it is such a message that is read. -/
theorem viewer_feed_note? (service : Service ρ) (q : WorkQueue ρ) (e : Event ρ) :
    ((service.note? e).toList.foldl WorkQueue.feed q).viewer = lastViewer q.viewer (heard [e]) := by
  have hsubmission : ∀ s? : Option (Submission ρ),
      ((s?.map Note.submitted).toList.foldl WorkQueue.feed q).viewer = q.viewer := by
    intro s?
    cases s? with
    | none => rfl
    | some s => exact WorkQueue.viewer_submit q s
  cases e with
  | received m =>
    cases m with
    | viewerMoved viewer => rfl
    | exit => rfl
    | _ => exact hsubmission _
  | called c a => exact WorkQueue.viewer_feed_served q c a
  | _ => rfl

theorem viewer_feed_notes (service : StatefulService μ ρ) (memory : μ) (es : List (Event ρ))
    (q : WorkQueue ρ) :
    ((service.notes memory es).foldl WorkQueue.feed q).viewer = lastViewer q.viewer (heard es) := by
  induction es generalizing memory q with
  | nil => rfl
  | cons e es ih =>
    have hheard : heard (e :: es) = heard [e] ++ heard es := heard_append [e] es
    rw [StatefulService.notes, hheard, List.foldl_append, ih, viewer_feed_note?, lastViewer,
      lastViewer, lastViewer, List.foldl_append]

/-- **Distances are measured to the last viewer read.** -/
theorem viewer_queueAfter (service : StatefulService μ ρ) (memory : μ) (scheduling : Scheduling)
    (es : List (Event ρ)) :
    (service.queueAfter memory scheduling es).viewer = lastViewer scheduling.viewer (heard es) :=
  viewer_feed_notes service memory es _

/-- **Work begins with what the queue would serve next.** -/
theorem Course.dequeue_queueAfter
    (h : Course service schedule [] memory (start name scheduling) r) {c : ChunkPos} {a : ρ}
    {pre post : List (Event ρ)} (hcall : r.events = pre ++ .called c a :: post) :
    ∃ q, (service.queueAfter memory scheduling pre).dequeue = .ok (some ((c, a), q)) := by
  have hbegin : pre ++ [.called c a] <+: r.events := by
    rw [hcall]
    exact ⟨post, by simp⟩
  obtain ⟨q, hq⟩ := h.continues (standing_start name scheduling) _ hbegin
  rw [List.append_nil, record_append, record_singleton] at hq
  cases hq with
  | @serve q' _ _ _ _ hpast hserved =>
    rw [queueAfter_eq hpast]
    exact ⟨q, hserved⟩

/-- **Between two pieces of work a worker does what its queue says**, once everything is read. -/
theorem Course.next_queueAfter
    (h : Course service schedule [] memory (start name scheduling) r) {e : Event ρ}
    {pre post : List (Event ρ)} (hevents : r.events = pre ++ e :: post) (hgoing : .stopped ∉ pre)
    (hidle : Idle pre) :
    ∃ toCome unread, schedule = arrivals pre ++ toCome ∧
      (arrivals pre).flatten = heard pre ++ unread ∧
      (.exit ∈ heard pre → e = .stopped) ∧
      (.exit ∉ heard pre →
        Next toCome unread (service.queueAfter memory scheduling pre) e) := by
  obtain ⟨toCome, unread, q, hmoment⟩ :=
    h.moment (standing_start name scheduling) hevents hgoing hidle
  have hhistory := hmoment.history
  rw [List.append_nil] at hhistory
  rw [queueAfter_eq hhistory]
  exact ⟨toCome, unread, hmoment.arrived, hmoment.read, hmoment.ending, hmoment.next⟩

/-- **A queue is drained in its own order.** -/
theorem Closing.begun_eq (h : Closing service memory w r) (hending : w.ending = .drain)
    (hfault : r.fault = none) : begun r.events = w.queue.drained := by
  induction h with
  | discard himmediate =>
    rw [hending] at himmediate
    cases himmediate
  | finish _ htake => exact (WorkQueue.drained_of_none (take_eq_none htake)).symm
  | @work memory memory' w t response r _ htake _ _ ih =>
    obtain ⟨q, hdequeue, hworker⟩ := take_eq_some htake
    show (t.coords, t.request) :: begun r.events = _
    have hqueue : t.worker.finish.queue = q := by rw [Worker.finish, hworker]
    have hmode : t.worker.finish.ending = .drain := by
      rw [Worker.finish, hworker]
      exact hending
    rw [WorkQueue.drained_of_some hdequeue, ih hmode hfault, hqueue]
  | crash _ _ _ => cases hfault

/-! ## 3. What is behind an exit -/

/-- The runs differ in nothing but what arrives. -/
structure Run.Alike (r r' : Run ρ) : Prop where
  events : r.events.filter (fun | .arrived _ => false | _ => true) =
    r'.events.filter (fun | .arrived _ => false | _ => true)
  worker : r.worker = r'.worker
  fault : r.fault = r'.fault

namespace Run.Alike

variable {r r' : Run ρ}

theorem refl (r : Run ρ) : Alike r r := ⟨rfl, rfl, rfl⟩

theorem after (h : Alike r r') (e : Event ρ) : Alike (r.after e) (r'.after e) := by
  refine ⟨?_, h.worker, h.fault⟩
  simp only [Run.after, List.filter_cons, h.events]

theorem arrived (h : Alike r r') (batch batch' : List Message) :
    Alike (r.after (.arrived batch)) (r'.after (.arrived batch')) :=
  ⟨h.events, h.worker, h.fault⟩

end Run.Alike

variable {before behind behind' : List Message} {later later' : List (List Message)}

/-- A worker that reads an exit does not read on. -/
theorem drain_exit (rest rest' : Worker ρ → Run ρ) :
    drain service memory rest (before ++ .exit :: behind) w =
      drain service memory rest' (before ++ .exit :: behind') w := by
  induction before generalizing w with
  | nil => rfl
  | cons m before ih =>
    simp only [List.cons_append, drain]
    cases w.handle (service.given memory) m with
    | error f => rfl
    | ok next =>
      cases next with
      | none => rfl
      | some w' => simp only [ih]

theorem serve_exit :
    serve service later (before ++ .exit :: behind) memory w =
      serve service later' (before ++ .exit :: behind') memory w := by
  cases later <;> cases later' <;> exact drain_exit _ _

theorem alike_drain {rest rest' : Worker ρ → Run ρ} (h : ∀ w, Run.Alike (rest w) (rest' w))
    (inbox : List Message) :
    Run.Alike (drain service memory rest inbox w) (drain service memory rest' inbox w) := by
  induction inbox generalizing w with
  | nil => exact h w
  | cons m inbox ih =>
    refine Run.Alike.after ?_ (.received m)
    cases w.handle (service.given memory) m with
    | error f => exact .refl _
    | ok next =>
      cases next with
      | none => exact .refl _
      | some w' => exact ih

/-- If two futures are alike after their first batch, they are alike. -/
theorem alike_serve_cons {upcoming upcoming' : List (List Message)} {batch batch' : List Message}
    (h : ∀ memory w, Run.Alike (serve service upcoming batch memory w)
      (serve service upcoming' batch' memory w)) (inbox : List Message) :
    Run.Alike (serve service (batch :: upcoming) inbox memory w)
      (serve service (batch' :: upcoming') inbox memory w) := by
  refine alike_drain (fun w => ?_) inbox
  cases w.take with
  | error f => exact .refl _
  | ok taken =>
    cases taken with
    | none => exact (h memory w).arrived batch batch'
    | some t =>
      refine Run.Alike.after ?_ (.called t.coords t.request)
      refine Run.Alike.arrived ?_ batch batch'
      unfold respond
      cases service.process memory t.coords t.request with
      | error f => exact .refl _
      | ok answer => exact (h answer.2 t.worker.finish).after (.sent answer.1)

theorem alike_serve (early : List (List Message)) (inbox : List Message) :
    Run.Alike (serve service (early ++ (before ++ .exit :: behind) :: later) inbox memory w)
      (serve service (early ++ (before ++ .exit :: behind') :: later') inbox memory w) := by
  induction early generalizing inbox memory w with
  | nil =>
    refine alike_serve_cons (fun memory w => ?_) inbox
    rw [serve_exit]
    exact .refl _
  | cons batch early ih => exact alike_serve_cons (fun memory w => ih batch) inbox

/-- **What is behind an exit makes no difference.** -/
theorem alike_run (early : List (List Message)) :
    Run.Alike (run service memory w (early ++ (before ++ .exit :: behind) :: later))
      (run service memory w (early ++ (before ++ .exit :: behind') :: later')) := by
  cases early with
  | nil =>
    refine Run.Alike.arrived ?_ _ _
    rw [serve_exit]
    exact .refl _
  | cons inbox early => exact (alike_serve early inbox).arrived inbox inbox

/-! ## 4. The order of the work -/

theorem Run.Alike.filterMap_eq {r r' : Run ρ} (h : Run.Alike r r') {β : Type}
    (f : Event ρ → Option β) (hf : ∀ batch, f (.arrived batch) = none) :
    r.events.filterMap f = r'.events.filterMap f := by
  have hdrop : ∀ es : List (Event ρ),
      (es.filter (fun | .arrived _ => false | _ => true)).filterMap f = es.filterMap f := by
    intro es
    induction es with
    | nil => rfl
    | cons e es ih =>
      cases e with
      | arrived batch => simpa [hf batch] using ih
      | _ => simp [List.filterMap_cons, ih]
  rw [← hdrop, h.events, hdrop]

/-- A run that no fault ends stops. -/
theorem Course.exists_stopped (h : Course service schedule [] memory (start name scheduling) r)
    (hfault : r.fault = none) : ∃ pre post, r.events = pre ++ .stopped :: post := by
  obtain ⟨main, w, rest, hparts⟩ := h.parts (standing_start name scheduling) hfault
  exact ⟨main, rest.events, hparts.events⟩

/-- It stops once, and drains its queue in order if it is to. -/
theorem Course.drained_of_stopped
    (h : Course service schedule [] memory (start name scheduling) r) (hfault : r.fault = none)
    {pre post : List (Event ρ)} (hstop : r.events = pre ++ .stopped :: post) :
    StopsAfter schedule [] pre ∧
      (scheduling.ending = .drain →
        begun post = (service.queueAfter memory scheduling pre).drained) := by
  obtain ⟨main, w, rest, hparts⟩ := h.parts (standing_start name scheduling) hfault
  have hclosing := hparts.closing
  have hsplit := hstop.symm.trans hparts.events
  obtain ⟨rfl, -, rfl⟩ :=
    (List.append_cons_inj_of_notMem hparts.going hclosing.not_mem_stopped).mp hsplit.symm
  refine ⟨hparts.stops, fun hdrain => ?_⟩
  have hstanding := hparts.standing
  rw [List.append_nil] at hstanding
  rw [hclosing.begun_eq (hstanding.ending.trans hdrain) hparts.fault,
    queueAfter_eq hstanding.history]

/-- **A worker does what its queue says, and the queue says what has arrived**, whatever the service
and the schedule.

* Before it begins to work it reads all that has arrived, unless it is ending, and the work is what
  the queue would serve next.
* When it is not at work, it reads what is unread.  With everything read it begins to work if the
  queue has something to serve, and otherwise waits for what arrives next.
* When it is at work, it does nothing but answer, whatever arrives meanwhile.
* It ends when it has read an exit or has read everything, and it does end unless it finds a message
  that the service does not take or a process fails.  To drain its queue, it serves it until nothing
  is left.
* Its queue measures distances to the last viewer that was read.
* What is behind an exit changes neither the work nor the responses. -/
theorem run_follows_queue (service : StatefulService μ ρ) (memory : μ) (name : String)
    (scheduling : Scheduling) (schedule : List (List Message)) :
    (∀ pre c a post,
      (run service memory (start name scheduling) schedule).events = pre ++ .called c a :: post →
        (.stopped ∉ pre → heard pre = (arrivals pre).flatten) ∧
        ∃ q, (service.queueAfter memory scheduling pre).dequeue = .ok (some ((c, a), q))) ∧
    (∀ pre e post,
      (run service memory (start name scheduling) schedule).events = pre ++ e :: post →
        .stopped ∉ pre → Idle pre →
        ∃ toCome unread, schedule = arrivals pre ++ toCome ∧
          (arrivals pre).flatten = heard pre ++ unread ∧
          (.exit ∈ heard pre → e = .stopped) ∧
          (.exit ∉ heard pre →
            Next toCome unread (service.queueAfter memory scheduling pre) e)) ∧
    (∀ pre e post,
      (run service memory (start name scheduling) schedule).events = pre ++ e :: post →
        ¬Idle pre → e.DuringWork) ∧
    ((run service memory (start name scheduling) schedule).fault = none →
      ∃ pre post,
        (run service memory (start name scheduling) schedule).events = pre ++ .stopped :: post) ∧
    (∀ pre post,
      (run service memory (start name scheduling) schedule).events = pre ++ .stopped :: post →
        (run service memory (start name scheduling) schedule).fault = none →
        StopsAfter schedule [] pre ∧
          (scheduling.ending = .drain →
            begun post = (service.queueAfter memory scheduling pre).drained)) ∧
    (∀ f, (run service memory (start name scheduling) schedule).fault = some f →
      Fails service memory f (run service memory (start name scheduling) schedule).events) ∧
    (∀ es : List (Event ρ),
      (service.queueAfter memory scheduling es).viewer =
        lastViewer scheduling.viewer (heard es)) ∧
    ∀ early before behind later behind' later',
      schedule = early ++ (before ++ .exit :: behind) :: later →
        (run service memory (start name scheduling) schedule).responses =
          (run service memory (start name scheduling)
            (early ++ (before ++ .exit :: behind') :: later')).responses ∧
        (run service memory (start name scheduling) schedule).calls =
          (run service memory (start name scheduling)
            (early ++ (before ++ .exit :: behind') :: later')).calls ∧
        (run service memory (start name scheduling) schedule).worker =
          (run service memory (start name scheduling)
            (early ++ (before ++ .exit :: behind') :: later')).worker := by
  have hcourse := course_run service memory name scheduling schedule
  refine ⟨?_, fun pre e post => hcourse.next_queueAfter, fun pre e post => hcourse.duringWork,
    hcourse.exists_stopped, fun pre post hstop hfault => hcourse.drained_of_stopped hfault hstop,
    fun f => hcourse.fails, viewer_queueAfter service memory scheduling, ?_⟩
  · intro pre c a post hcall
    refine ⟨fun hgoing => ?_, hcourse.dequeue_queueAfter hcall⟩
    rw [hcourse.read_up hcall hgoing, List.nil_append]
  · intro early before behind later behind' later' hschedule
    rw [hschedule]
    have halike : Run.Alike
        (run service memory (start name scheduling) (early ++ (before ++ .exit :: behind) :: later))
        (run service memory (start name scheduling)
          (early ++ (before ++ .exit :: behind') :: later')) := alike_run early
    exact ⟨halike.filterMap_eq _ fun _ => rfl, halike.filterMap_eq _ fun _ => rfl, halike.worker⟩

/-- Two chunks are asked for, the farther one first. -/
def twoRequests : List Message :=
  [.chunkRequest ⟨1, 0, 0⟩ false, .chunkRequest ⟨2, 0, 0⟩ false]

/-- They have been read. -/
def twoRead : List (Event Bool) := .arrived twoRequests :: twoRequests.map .received

/-- The nearer chunk has been worked on, and the exit that arrived meanwhile has been read. -/
def oneAnswered : List (Event Bool) :=
  twoRead ++ [.called ⟨2, 0, 0⟩ false, .arrived [.exit], .sent (.chunkRequest ⟨2, 0, 0⟩ false),
    .received .exit]

theorem relay_follows_queue :
    (run Job.relayService.stateful () (start "relay" ⟨⟨2, 0, 0⟩, .keep, .drain⟩)
        [twoRequests, [.exit]]).events =
      oneAnswered ++ .stopped ::
        [.called ⟨1, 0, 0⟩ false, .sent (.chunkRequest ⟨1, 0, 0⟩ false)] ∧
      Next [[.exit]] [] (Job.relayService.stateful.queueAfter () ⟨⟨2, 0, 0⟩, .keep, .drain⟩ twoRead)
        (.called ⟨2, 0, 0⟩ false) ∧
      (Job.relayService.stateful.queueAfter () ⟨⟨2, 0, 0⟩, .keep, .drain⟩ oneAnswered).drained =
        [(⟨1, 0, 0⟩, false)] := by
  have hend : (run Job.relayService.stateful () (start "relay" ⟨⟨2, 0, 0⟩, .keep, .drain⟩)
      [twoRequests, [.exit]]).fault = none := by decide +kernel
  have hevents : (run Job.relayService.stateful () (start "relay" ⟨⟨2, 0, 0⟩, .keep, .drain⟩)
      [twoRequests, [.exit]]).events =
        oneAnswered ++ .stopped ::
          [.called ⟨1, 0, 0⟩ false, .sent (.chunkRequest ⟨1, 0, 0⟩ false)] := by rfl
  obtain ⟨-, hlaw, -, -, hstopped, -⟩ := run_follows_queue Job.relayService.stateful () "relay"
    ⟨⟨2, 0, 0⟩, .keep, .drain⟩ [twoRequests, [.exit]]
  refine ⟨hevents, ?_, ((hstopped _ _ hevents hend).2 rfl).symm⟩
  obtain ⟨toCome, unread, harrived, hread, -, hnext⟩ :=
    hlaw twoRead (.called ⟨2, 0, 0⟩ false) _ hevents (by simp [twoRead, twoRequests]) rfl
  obtain rfl : [[.exit]] = toCome := (List.cons.inj harrived).2
  obtain rfl : [] = unread := (List.self_eq_append_right.mp hread).symm
  exact hnext (by simp [heard, twoRead, twoRequests])

end Worker

end Blockworld
