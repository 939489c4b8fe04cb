/-
# What a worker owes

Between a request and its response lies a way through several places: the inbox of the worker, its
queue, its hands.  `Channel.owes` lists the responses about one position that are still to come out
of a channel, in the order in which they will: the response held, the one to the queued request, and
those to the requests in the inbox.

The three steps of a worker move work along this way.

* `Channel.Serves.deliver`: sending takes the head of the list off;
* `Channel.Serves.process`: processing leaves the list alone;
* `Channel.Serves.receive`: receiving merges a request with the queued one for the same position.
  If new payloads replace old ones, the last response stays what it is.

`Channel.Serves` is what a channel of a worker is like in a run: the worker has not stopped, its
queue is sound, and everything on the way is about positions that are routed here and can be
answered.  It is preserved by every step, except that a computation may overflow.
-/
import Blockworld.Switchboard
import Blockworld.Proofs.Faces
import Blockworld.Proofs.Generation
import Blockworld.Proofs.Handling

namespace Blockworld

/-! ## 1. Requests and answers -/

namespace Job

/-- The job can answer the request: snapshots have to be of the position, and sound. -/
def CanAnswer : (j : Job) → ChunkPos → j.Request → Prop
  | generate _, _, _ => True
  | mesh _, c, s => Snapshot.coords s = c ∧ Snapshot.Sound s
  | relay, _, _ => False

/-- The message is an answer of the job about the position. -/
def IsAnswer : Job → ChunkPos → Message → Prop
  | generate _, c, m => ∃ chunk, m = .chunkResponse chunk ∧ chunk.Fresh c
  | mesh _, c, m => ∃ mesh, m = .meshResponse mesh ∧ mesh.coords = c
  | relay, _, _ => False

theorem IsAnswer.coords?_eq {j : Job} {c : ChunkPos} {m : Message} (h : j.IsAnswer c m) :
    m.coords? = some c := by
  cases j with
  | generate _ =>
    obtain ⟨chunk, rfl, hchunk⟩ := h
    exact congrArg some hchunk.position_eq
  | mesh _ =>
    obtain ⟨mesh, rfl, rfl⟩ := h
    rfl
  | relay => cases h

/-- **A job answers the requests it can answer**, unless a computation overflows. -/
theorem process_cases {j : Job} {c : ChunkPos} {r : j.Request} (h : j.CanAnswer c r) :
    (∃ m, j.service.process c r = .ok m ∧ j.IsAnswer c m) ∨
      ∃ operation, j.service.process c r = .error (.overflow operation) := by
  cases j with
  | generate t =>
    have hprocess : (generate t).service.process c r = (t.generate c).map .chunkResponse := rfl
    rw [hprocess]
    cases hchunk : t.generate c with
    | ok chunk => exact .inl ⟨_, rfl, chunk, rfl, Terrain.generate_spec hchunk⟩
    | error f =>
      obtain ⟨operation, rfl⟩ := OverflowOnly.generate t c f hchunk
      exact .inr ⟨operation, rfl⟩
  | mesh policy =>
    obtain ⟨hcoords, hsound⟩ := h
    obtain ⟨qs, hmesh, -⟩ := hsound.exists_mesh policy
    have hprocess : (mesh policy).service.process c r =
        (Snapshot.mesh r policy).map .meshResponse := rfl
    exact .inl ⟨_, by rw [hprocess, hmesh]; rfl, _, rfl, hcoords⟩
  | relay => cases h

/-- The response that a message will lead to, if it asks for work on the position. -/
def due? (j : Job) (c : ChunkPos) (m : Message) : Option (Except Fault Message) :=
  (j.service.unpack m).bind fun s =>
    if s.coords = c then some (j.service.process c s.request) else none

/-- Events ask for no work. -/
theorem unpack_eq_none_of_isEvent {j : Job} {m : Message} (h : m.topic.isEvent = true) :
    j.service.unpack m = none := by
  cases m <;> first | (cases h; done) | (cases j <;> rfl)

end Job

/-! ## 2. Submissions -/

namespace Worker

variable {ρ : Type} {w : Worker ρ}

theorem sound_submit (hw : w.queue.Sound) (s : Submission ρ) : (w.submit s).queue.Sound := by
  rw [queue_submit]
  exact hw.submit s

@[simp] theorem policy_submit (w : Worker ρ) (s : Submission ρ) :
    (w.submit s).queue.policy = w.queue.policy := by
  rw [queue_submit, WorkQueue.policy_submit]

/-- A submission files its payload, unless an older one has to be kept. -/
theorem pending_submit (w : Worker ρ) (s : Submission ρ) :
    (w.submit s).queue.pending = w.queue.pending.insert s.coords s.request ∨
      w.queue.policy = .keep ∧ (w.submit s).queue.pending = w.queue.pending := by
  rw [queue_submit, WorkQueue.pending_submit]
  split
  · next hkept => exact .inr ⟨hkept.2.2, rfl⟩
  · exact .inl rfl

/-- What is queued after a submission is the submitted request, or was queued before. -/
theorem pending_submit_cases {s : Submission ρ} {c : ChunkPos} {r : ρ}
    (h : (w.submit s).queue.pending[c]? = some r) :
    c = s.coords ∧ r = s.request ∨ w.queue.pending[c]? = some r := by
  rcases w.pending_submit s with hinsert | ⟨-, hkeep⟩
  · rw [hinsert, Std.TreeMap.getElem?_insert] at h
    split at h
    · next hc =>
      cases h
      exact .inl ⟨(Std.LawfulEqCmp.eq_of_compare hc).symm, rfl⟩
    · exact .inr h
  · rw [hkeep] at h
    exact .inr h

end Worker

/-! ## 3. The list of responses to come -/

/-- The responses about a position to what a worker has received and not answered. -/
def ActiveWorker.owes (a : ActiveWorker) (c : ChunkPos) : List (Except Fault Message) :=
  (a.held.toList.filter fun m => m.coords? == some c).map .ok ++
    (a.worker.queue.pending[c]?.map (a.job.service.process c)).toList

namespace ActiveWorker

variable {a : ActiveWorker}

/-- **A submitted request takes the place of the queued one**, so the last response stays the same,
provided new payloads replace old ones. -/
theorem getLast?_owes_submit {m : Message} {s : Submission a.job.Request} (hheld : a.held = none)
    (hpolicy : a.worker.queue.policy = .replace) (hs : a.job.service.unpack m = some s)
    (rest : List Message) (c : ChunkPos) :
    (owes { a with worker := a.worker.submit s } c ++
        rest.filterMap (a.job.due? c)).getLast? =
      (a.owes c ++ (m :: rest).filterMap (a.job.due? c)).getLast? := by
  have hinsert : (a.worker.submit s).queue.pending =
      a.worker.queue.pending.insert s.coords s.request := by
    refine (a.worker.pending_submit s).resolve_right ?_
    rintro ⟨hkeep, -⟩
    rw [hpolicy] at hkeep
    cases hkeep
  unfold owes
  by_cases hc : s.coords = c
  · subst hc
    have hdue : a.job.due? s.coords m = some (a.job.service.process s.coords s.request) := by
      rw [Job.due?, hs, Option.bind_some, if_pos rfl]
    rw [hinsert, Std.TreeMap.getElem?_insert_self, List.filterMap_cons_some hdue, hheld]
    exact (List.getLast?_append_of_ne_nil _ (List.cons_ne_nil _ _)).symm
  · have hdue : a.job.due? c m = none := by
      rw [Job.due?, hs, Option.bind_some, if_neg hc]
    rw [hinsert, Std.TreeMap.getElem?_insert, if_neg, List.filterMap_cons_none hdue]
    intro heq
    exact hc (Std.LawfulEqCmp.eq_of_compare heq)

section Process

variable {c : ChunkPos} {r : a.job.Request} {queue : WorkQueue a.job.Request} {m : Message}

/-- The worker with the response to a request that it has taken out of its queue. -/
def holding (a : ActiveWorker) (queue : WorkQueue a.job.Request) (m : Message) : ActiveWorker :=
  { a with worker := { a.worker with queue := queue, phase := .busy }, held := some m }

theorem process_eq_holding (hdequeue : a.worker.queue.dequeue = .ok (some ((c, r), queue)))
    (hm : a.job.service.process c r = .ok m) : a.process = a.holding queue m := by
  simp [process, Worker.take, hdequeue, hm, holding]

/-- **The response in the hands of a worker stands for the request it has taken.** -/
theorem owes_holding (hheld : a.held = none) (hr : a.worker.queue.pending[c]? = some r)
    (hpending : queue.pending = a.worker.queue.pending.erase c)
    (hm : a.job.service.process c r = .ok m) (hcoords : m.coords? = some c) (c' : ChunkPos) :
    (a.holding queue m).owes c' = a.owes c' := by
  unfold owes holding
  rw [hheld]
  simp only [hpending, Std.TreeMap.getElem?_erase, Option.toList_some, Option.toList_none,
    List.filter_nil, List.map_nil, List.nil_append]
  by_cases hc : c = c'
  · subst hc
    simp [hcoords, hr, hm]
  · simp [hcoords, hc]

end Process

end ActiveWorker

/-- The responses about a position that will come out of a channel, in order. -/
def Channel.owes (ch : Channel) (c : ChunkPos) : List (Except Fault Message) :=
  match ch.subscriber with
  | .outside _ => []
  | .worker a => a.owes c ++ ch.inbox.filterMap (a.job.due? c)

/-- A message that a worker can handle: the viewer has moved, or a request that it can answer, about
one of its own positions. -/
def ActiveWorker.Expects (a : ActiveWorker) (mine : ChunkPos → Prop) (m : Message) : Prop :=
  (∃ viewer, m = .viewerMoved viewer) ∨
    ∃ s, m.topic = a.job.service.topic ∧ a.job.service.unpack m = some s ∧ mine s.coords ∧
      a.job.CanAnswer s.coords s.request

/-- The channel is that of a worker that has not stopped.  Its queue is sound, and all that is on
the way is about its own positions and can be answered. -/
structure Channel.Serves (ch : Channel) (a : ActiveWorker) (policy : OnDuplicate)
    (mine : ChunkPos → Prop) : Prop where
  subscriber : ch.subscriber = .worker a
  topics : ch.topics = Switchboard.workerTopics a.job
  fault : a.fault = none
  phase : a.worker.phase ≠ .ended
  policy : a.worker.queue.policy = policy
  queue : a.worker.queue.Sound
  pending : ∀ c r, a.worker.queue.pending[c]? = some r → mine c ∧ a.job.CanAnswer c r
  held : ∀ m, a.held = some m → ∃ c, mine c ∧ a.job.IsAnswer c m
  inbox : ∀ m ∈ ch.inbox, a.Expects mine m

namespace Channel.Serves

variable {ch : Channel} {a : ActiveWorker} {policy : OnDuplicate} {mine : ChunkPos → Prop}

theorem isRunning (h : ch.Serves a policy mine) : a.isRunning = true := by
  simp [ActiveWorker.isRunning, h.fault, h.phase]

theorem isConnected (h : ch.Serves a policy mine) : ch.subscriber.isConnected = true := by
  rw [h.subscriber]
  exact h.isRunning

theorem owes_eq (h : ch.Serves a policy mine) (c : ChunkPos) :
    ch.owes c = a.owes c ++ ch.inbox.filterMap (a.job.due? c) := by
  unfold owes
  rw [h.subscriber]

/-! ## 4. The steps of a worker -/

/-- The channel after the worker has read a message. -/
theorem read (h : ch.Serves a policy mine) {m : Message} {rest : List Message}
    (hinbox : ch.inbox = m :: rest) {w : Worker a.job.Request} (hphase : w.phase ≠ .ended)
    (hpolicy : w.queue.policy = policy) (hqueue : w.queue.Sound)
    (hpending : ∀ c r, w.queue.pending[c]? = some r → mine c ∧ a.job.CanAnswer c r) :
    ({ ch with inbox := rest, subscriber := .worker { a with worker := w } } : Channel).Serves
      { a with worker := w } policy mine where
  subscriber := rfl
  topics := h.topics
  fault := h.fault
  phase := hphase
  policy := hpolicy
  queue := hqueue
  pending := hpending
  held := h.held
  inbox m' hm' := h.inbox m' (hinbox ▸ List.mem_cons_of_mem _ hm')

/-- **Receiving keeps the last response**, provided new payloads replace old ones. -/
theorem receive (h : ch.Serves a policy mine) :
    ∃ a', ch.receive.2 = [] ∧ a'.job = a.job ∧ ch.receive.1.Serves a' policy mine ∧
      (policy = .replace → ∀ c, (ch.receive.1.owes c).getLast? = (ch.owes c).getLast?) := by
  cases hinbox : ch.inbox with
  | nil =>
    have hstays : ch.receive = (ch, []) := by simp [Channel.receive, h.subscriber, hinbox]
    rw [hstays]
    exact ⟨a, rfl, rfl, h, fun _ _ => rfl⟩
  | cons m rest =>
    cases hheld : a.held with
    | some response =>
      have hstays : ch.receive = (ch, []) := by
        simp [Channel.receive, h.subscriber, hinbox, hheld]
      rw [hstays]
      exact ⟨a, rfl, rfl, h, fun _ _ => rfl⟩
    | none =>
      have hreads : ch.receive =
          ({ ch with inbox := rest, subscriber := .worker (a.receive m).1 }, (a.receive m).2) := by
        simp [Channel.receive, h.subscriber, hinbox, hheld, h.isRunning]
      rw [hreads]
      rcases h.inbox m (hinbox ▸ List.mem_cons_self) with
        ⟨viewer, rfl⟩ | ⟨s, htopic, hs, hmine, hanswer⟩
      · have hreceive : a.receive (.viewerMoved viewer) =
            ({ a with worker := { a.worker with queue := a.worker.queue.retarget viewer } },
              []) := rfl
        rw [hreceive]
        refine ⟨{ a with worker := { a.worker with queue := a.worker.queue.retarget viewer } }, rfl,
          rfl, h.read hinbox h.phase h.policy (h.queue.retarget viewer) h.pending, fun _ c => ?_⟩
        rw [h.owes_eq, hinbox, List.filterMap_cons_none]
        · rfl
        · rw [Job.due?, Job.unpack_eq_none_of_isEvent rfl]
          rfl
      · have hrequest : m.topic.isEvent = false := by
          rw [htopic]
          cases a.job <;> rfl
        have hreceive : a.receive m = ({ a with worker := a.worker.submit s }, []) := by
          unfold ActiveWorker.receive
          rw [Worker.handle_request hrequest htopic hs]
        have hpending : ∀ c r, (a.worker.submit s).queue.pending[c]? = some r →
            mine c ∧ a.job.CanAnswer c r := by
          intro c r hr
          rcases Worker.pending_submit_cases hr with ⟨rfl, rfl⟩ | hold
          · exact ⟨hmine, hanswer⟩
          · exact h.pending c r hold
        rw [hreceive]
        refine ⟨{ a with worker := a.worker.submit s }, rfl, rfl,
          h.read hinbox (by simpa using h.phase) (by simpa using h.policy)
            (a.worker.sound_submit h.queue s) hpending, fun hreplace c => ?_⟩
        rw [h.owes_eq, hinbox]
        exact ActiveWorker.getLast?_owes_submit hheld (h.policy.trans hreplace) hs rest c

/-- **Processing leaves all responses to come as they are**, unless a computation overflows.  The
queue of a worker never loses a payload. -/
theorem process (h : ch.Serves a policy mine) :
    ch.process.2 = [] ∧
      ((∃ a', a'.job = a.job ∧ ch.process.1.Serves a' policy mine ∧
          ∀ c, ch.process.1.owes c = ch.owes c) ∨
        ∃ a' operation, ch.process.1.subscriber = .worker a' ∧
          a'.fault = some (.overflow operation)) := by
  cases hheld : a.held with
  | some response =>
    have hstays : ch.process = (ch, []) := by simp [Channel.process, h.subscriber, hheld]
    rw [hstays]
    exact ⟨rfl, .inl ⟨a, rfl, h, fun _ => rfl⟩⟩
  | none =>
    have hworks : ch.process = ({ ch with subscriber := .worker a.process }, []) := by
      simp [Channel.process, h.subscriber, hheld, h.isRunning]
    rw [hworks]
    refine ⟨rfl, ?_⟩
    rcases h.queue.dequeue_cases with
      ⟨hdequeue, -⟩ | ⟨c, r, queue, hdequeue, hr, hpending, -, hpolicy, hqueue⟩
    · have hprocess : a.process = a := by simp [ActiveWorker.process, Worker.take, hdequeue]
      refine .inl ⟨a, rfl, ?_, fun c => ?_⟩
      · rw [hprocess, ← h.subscriber]
        exact h
      · rw [hprocess, ← h.subscriber]
    · obtain ⟨hmine, hcan⟩ := h.pending c r hr
      rcases Job.process_cases hcan with ⟨m, hm, hanswer⟩ | ⟨operation, hoverflow⟩
      · left
        rw [ActiveWorker.process_eq_holding hdequeue hm]
        refine ⟨a.holding queue m, rfl, ⟨rfl, h.topics, h.fault, nofun, hpolicy.trans h.policy,
          hqueue, ?_, ?_, h.inbox⟩, fun c' => ?_⟩
        · intro c' r' hr'
          have hother : queue.pending[c']? = some r' := hr'
          rw [hpending, Std.TreeMap.getElem?_erase] at hother
          split at hother
          · cases hother
          · exact h.pending c' r' hother
        · rintro m' ⟨⟩
          exact ⟨c, hmine, hanswer⟩
        · have howes := ActiveWorker.owes_holding hheld hr hpending hm hanswer.coords?_eq c'
          rw [h.owes_eq]
          exact congrArg (· ++ ch.inbox.filterMap (a.job.due? c')) howes
      · right
        refine ⟨{ a with
          worker := { a.worker with queue := queue, phase := .busy }
          fault := some (.overflow operation) }, operation, ?_, rfl⟩
        simp [ActiveWorker.process, Worker.take, hdequeue, hoverflow]

/-- **Sending takes the head off the responses to come.** -/
theorem deliver (h : ch.Serves a policy mine) :
    ∃ a', a'.job = a.job ∧ ch.deliver.1.Serves a' policy mine ∧
      (∀ m ∈ ch.deliver.2, ∃ c, mine c ∧ a.job.IsAnswer c m) ∧
      ∀ c, ch.owes c =
        (ch.deliver.2.filter fun m => m.coords? == some c).map .ok ++ ch.deliver.1.owes c := by
  cases hheld : a.held with
  | none =>
    have hstays : ch.deliver = ({ ch with subscriber := .worker a }, []) := by
      simp [Channel.deliver, ActiveWorker.deliver, h.subscriber, hheld]
    rw [hstays, ← h.subscriber]
    exact ⟨a, rfl, h, by simp, fun _ => rfl⟩
  | some m =>
    have hsends : ch.deliver =
        ({ ch with subscriber := .worker { a with worker := a.worker.finish, held := none } },
          [m]) := by
      simp [Channel.deliver, ActiveWorker.deliver, h.subscriber, hheld]
    rw [hsends]
    refine ⟨{ a with worker := a.worker.finish, held := none }, rfl, ?_, ?_, fun c => ?_⟩
    · refine ⟨rfl, h.topics, h.fault, nofun, h.policy, h.queue, h.pending, ?_, h.inbox⟩
      intro m' hm'
      cases hm'
    · intro m' hm'
      rw [List.mem_singleton.mp hm']
      exact h.held m hheld
    · rw [h.owes_eq, ActiveWorker.owes, hheld]
      show _ = _ ++ (ActiveWorker.owes { a with worker := a.worker.finish, held := none } c ++
        ch.inbox.filterMap (a.job.due? c))
      simp [ActiveWorker.owes, Worker.finish]

/-- **A message that the worker expects is accepted**, and adds what it asks for behind all other
responses to come. -/
theorem send (h : ch.Serves a policy mine) {m : Message} (hm : a.Expects mine m) :
    ∃ ch', ch.send m = some ch' ∧ ch'.Serves a policy mine ∧
      ∀ c, ch'.owes c = ch.owes c ++ (a.job.due? c m).toList := by
  have hsend : ch.send m = some { ch with inbox := ch.inbox ++ [m], sent := ch.sent + 1 } := by
    unfold Channel.send
    rw [if_pos h.isConnected]
  refine ⟨_, hsend, ⟨h.subscriber, h.topics, h.fault, h.phase, h.policy, h.queue, h.pending, h.held,
    ?_⟩, fun c => ?_⟩
  · intro m' hm'
    rcases List.mem_append.mp hm' with hm' | hm'
    · exact h.inbox m' hm'
    · rw [List.mem_singleton.mp hm']
      exact hm
  · unfold Channel.owes
    rw [h.subscriber]
    dsimp only
    rw [List.filterMap_append, List.append_assoc]
    refine congrArg (fun last => a.owes c ++ (ch.inbox.filterMap (a.job.due? c) ++ last)) ?_
    cases hdue : a.job.due? c m with
    | none => exact List.filterMap_cons_none hdue
    | some response => exact List.filterMap_cons_some hdue

end Channel.Serves

end Blockworld
