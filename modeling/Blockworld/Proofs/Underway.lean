/-
# Chunks under way

A chunk that is asked for passes through four places before the main loop takes it: the inbox of a
worker that generates, the queue of this worker, its hands, and the inbox of the main loop.
`Switchboard.Underway` says that the chunk at a position is in one of them.

Steps of workers move chunks from place to place and neither lose nor add one (`Manned.receive`,
`Manned.process`, `Manned.deliver`): several requests for one position become one, but at least one
is left.  Publishing adds the chunk that is asked for, if it does (`Manned.publish_chunkRequest`),
and taking a response takes its chunk off (`Manned.takeResponse`).

All that is needed of the switchboard is that it is manned: the workers of its channels have not
stopped, and none has been told to.  Whether they can answer what they are asked is not looked at,
so that snapshots with unknown blocks may be on their way.
-/
import Blockworld.Proofs.Routing

namespace Blockworld

/-! ## 1. One channel -/

/-- A generated chunk at the position is among the messages. -/
def HoldsChunk (ms : List Message) (c : ChunkPos) : Prop :=
  ∃ chunk, .chunkResponse chunk ∈ ms ∧ chunk.position = c

/-- The chunk is asked for in the inbox of the worker or queued by it, or the worker holds it. -/
def ActiveWorker.Underway (a : ActiveWorker) (inbox : List Message) (c : ChunkPos) : Prop :=
  (a.job.service.topic = .chunkRequest ∧
    ((∃ urgent, .chunkRequest c urgent ∈ inbox) ∨ a.worker.queue.contains c = true)) ∨
  HoldsChunk a.held.toList c

/-- The chunk is under way on the channel. -/
def Channel.Underway (ch : Channel) (c : ChunkPos) : Prop :=
  ∃ a, ch.subscriber = .worker a ∧ a.Underway ch.inbox c

/-- The channel is that of a worker that has not stopped and is not told to. -/
structure Channel.Manned (ch : Channel) (a : ActiveWorker) : Prop where
  subscriber : ch.subscriber = .worker a
  topics : ch.topics = Switchboard.workerTopics a.job
  fault : a.fault = none
  phase : a.worker.phase ≠ .ended
  queue : a.worker.queue.Sound
  inbox : .exit ∉ ch.inbox

/-- A step of the worker keeps the channel manned, and every chunk under way: on the channel, or in
what is sent. -/
def Channel.Keeps (ch : Channel) (a : ActiveWorker) (after : Channel × List Message) : Prop :=
  ∃ a', a'.job = a.job ∧ after.1.Manned a' ∧
    ∀ c, after.1.Underway c ∨ HoldsChunk after.2 c ↔ ch.Underway c

namespace Channel.Manned

variable {ch : Channel} {a : ActiveWorker} {boundary : Boundary}

theorem isRunning (h : ch.Manned a) : a.isRunning = true := by
  simp [ActiveWorker.isRunning, h.fault, h.phase]

theorem underway_iff (h : ch.Manned a) (c : ChunkPos) :
    ch.Underway c ↔ a.Underway ch.inbox c := by
  unfold Channel.Underway
  rw [h.subscriber]
  constructor
  · rintro ⟨a', ha', hunderway⟩
    cases ha'
    exact hunderway
  · intro hunderway
    exact ⟨a, rfl, hunderway⟩

/-- The channel with the worker after a step, and what is left in its inbox. -/
theorem become (h : ch.Manned a) (a' : ActiveWorker) {inbox : List Message}
    (hjob : a'.job = a.job) (hfault : a'.fault = none) (hphase : a'.worker.phase ≠ .ended)
    (hqueue : a'.worker.queue.Sound) (hinbox : .exit ∉ inbox) :
    ({ ch with inbox := inbox, subscriber := .worker a' } : Channel).Manned a' :=
  ⟨rfl, by rw [hjob]; exact h.topics, hfault, hphase, hqueue, hinbox⟩

theorem keeps (h : ch.Manned a) : ch.Keeps a (ch, []) :=
  ⟨a, rfl, h, fun c => by simp [HoldsChunk]⟩

/-- A step that sends nothing. -/
theorem keeps_of_iff {ch' : Channel} {a' : ActiveWorker} (hmanned : ch'.Manned a')
    (hjob : a'.job = a.job) (hsame : ∀ c, ch'.Underway c ↔ ch.Underway c) :
    ch.Keeps a (ch', []) :=
  ⟨a', hjob, hmanned, fun c => by simp [hsame, HoldsChunk]⟩

/-- What a hired worker takes out of a request for a chunk is that request. -/
theorem unpack_eq_some {m : Message} {s : Submission a.job.Request} (hhired : a.job.Hired boundary)
    (hs : a.job.service.unpack m = some s) (c : ChunkPos) :
    (a.job.service.topic = .chunkRequest ∧ ∃ urgent, m = .chunkRequest c urgent) ↔
      a.job.service.topic = .chunkRequest ∧ s.coords = c := by
  obtain ⟨job, worker, held, fault⟩ := a
  rcases hhired with ⟨t, rfl⟩ | rfl
  · cases m with
    | chunkRequest coords urgent =>
      cases hs
      simp
    | _ => cases hs
  · have htopic : (Job.mesh boundary).service.topic ≠ .chunkRequest := nofun
    simp [htopic]

/-- The response of a hired worker holds the chunk at the position, if it generates chunks. -/
theorem holdsChunk_answer (hhired : a.job.Hired boundary) {c : ChunkPos} {r : a.job.Request}
    {response : Message} (h : a.job.service.process c r = .ok response) (c' : ChunkPos) :
    HoldsChunk [response] c' ↔ a.job.service.topic = .chunkRequest ∧ c = c' := by
  obtain ⟨job, worker, held, fault⟩ := a
  rcases hhired with ⟨t, rfl⟩ | rfl
  · have hprocess : (t.generate c).map .chunkResponse = .ok response := h
    cases hchunk : t.generate c with
    | error f =>
      rw [hchunk] at hprocess
      cases hprocess
    | ok chunk =>
      rw [hchunk] at hprocess
      cases hprocess
      have hposition := (Terrain.generate_spec hchunk).position_eq
      have htopic : (Job.generate t).service.topic = .chunkRequest := rfl
      simp [HoldsChunk, hposition, htopic]
  · have hprocess : (Snapshot.mesh r boundary).map .meshResponse = .ok response := h
    have htopic : (Job.mesh boundary).service.topic ≠ .chunkRequest := nofun
    cases hmesh : Snapshot.mesh r boundary with
    | error f =>
      rw [hmesh] at hprocess
      cases hprocess
    | ok mesh =>
      rw [hmesh] at hprocess
      cases hprocess
      simp [HoldsChunk, htopic]

/-- **Receiving a message keeps every chunk under way**, unless the worker cannot handle it. -/
theorem receive (h : ch.Manned a) (hhired : a.job.Hired boundary)
    (hfault : ∀ a', ch.receive.1.subscriber = .worker a' → a'.fault = none) :
    ch.Keeps a ch.receive := by
  have hstays : ch.receive = (ch, []) → ch.Keeps a ch.receive := by
    intro hsame
    rw [hsame]
    exact h.keeps
  cases hinbox : ch.inbox with
  | nil => exact hstays (by simp [Channel.receive, h.subscriber, hinbox])
  | cons m rest =>
    cases hheld : a.held with
    | some response => exact hstays (by simp [Channel.receive, h.subscriber, hinbox, hheld])
    | none =>
      have hreads : ch.receive =
          ({ ch with inbox := rest, subscriber := .worker (a.receive m).1 }, (a.receive m).2) := by
        simp [Channel.receive, h.subscriber, hinbox, hheld, h.isRunning]
      have hm : m ≠ .exit := by
        rintro rfl
        exact h.inbox (hinbox ▸ List.mem_cons_self)
      have hrest : .exit ∉ rest := fun hmem => h.inbox (hinbox ▸ List.mem_cons_of_mem _ hmem)
      rw [hreads] at hfault ⊢
      rcases Worker.handle_cases a.job.service a.worker m with
        ⟨hexit, -⟩ | ⟨viewer, rfl, hh⟩ | ⟨s, hrequest, hs, hh⟩ | ⟨-, -, f, hh⟩
      · exact absurd hexit hm
      · have hreceive : a.receive (.viewerMoved viewer) =
            ({ a with worker := { a.worker with queue := a.worker.queue.retarget viewer } },
              []) := by simp [ActiveWorker.receive, hh]
        rw [hreceive]
        have hmanned := h.become { a with
          worker := { a.worker with queue := a.worker.queue.retarget viewer } } rfl h.fault h.phase
          (h.queue.retarget viewer) hrest
        refine keeps_of_iff hmanned rfl fun c => ?_
        rw [hmanned.underway_iff, h.underway_iff, hinbox]
        simp [ActiveWorker.Underway, WorkQueue.contains, WorkQueue.retarget]
      · have hunpack : a.job.service.unpack m = some s := by
          unfold Service.submission? at hs
          split at hs
          · exact hs
          · cases hs
        have hreceive : a.receive m = ({ a with worker := a.worker.submit s }, []) := by
          simp [ActiveWorker.receive, hh]
        rw [hreceive]
        have hmanned := h.become { a with worker := a.worker.submit s } rfl h.fault
          (by simpa using h.phase) (a.worker.sound_submit h.queue s) hrest
        refine keeps_of_iff hmanned rfl fun c => ?_
        have hsame := unpack_eq_some hhired hunpack c
        rw [hmanned.underway_iff, h.underway_iff, hinbox]
        unfold ActiveWorker.Underway
        rw [Worker.queue_submit, WorkQueue.contains_submit]
        simp only [List.mem_cons, Bool.or_eq_true, decide_eq_true_eq]
        refine or_congr_left (and_congr_right fun htopic => ?_)
        have hm' : (∃ urgent, m = .chunkRequest c urgent) ↔ s.coords = c := by
          simpa [htopic] using hsame
        rw [← hm']
        constructor
        · rintro (⟨urgent, hmem⟩ | ⟨urgent, rfl⟩ | hqueued)
          · exact .inl ⟨urgent, .inr hmem⟩
          · exact .inl ⟨urgent, .inl rfl⟩
          · exact .inr hqueued
        · rintro (⟨urgent, rfl | hmem⟩ | hqueued)
          · exact .inr (.inl ⟨urgent, rfl⟩)
          · exact .inl ⟨urgent, hmem⟩
          · exact .inr (.inr hqueued)
      · exfalso
        have hfaulted : a.receive m = ({ a with fault := some f }, []) := by
          simp [ActiveWorker.receive, hh]
        rw [hfaulted] at hfault
        cases hfault _ rfl

/-- **Processing a request keeps every chunk under way**, unless it fails. -/
theorem process (h : ch.Manned a) (hhired : a.job.Hired boundary)
    (hfault : ∀ a', ch.process.1.subscriber = .worker a' → a'.fault = none) :
    ch.Keeps a ch.process := by
  cases hheld : a.held with
  | some response =>
    have hstays : ch.process = (ch, []) := by simp [Channel.process, h.subscriber, hheld]
    rw [hstays]
    exact h.keeps
  | none =>
    have hworks : ch.process = ({ ch with subscriber := .worker a.process }, []) := by
      simp [Channel.process, h.subscriber, hheld, h.isRunning]
    rw [hworks] at hfault ⊢
    rcases Worker.take_cases h.queue with ⟨htake, -⟩ | ⟨t, htake, hsound, -⟩
    · have hprocess : a.process = a := by simp [ActiveWorker.process, htake]
      rw [hprocess, ← h.subscriber]
      exact h.keeps
    · obtain ⟨q, hdequeue, hworker⟩ := Worker.take_eq_some htake
      cases hanswer : a.job.service.process t.coords t.request with
      | error f =>
        have hprocess : a.process = { a with worker := t.worker, fault := some f } := by
          simp [ActiveWorker.process, htake, hanswer]
        rw [hprocess] at hfault
        cases hfault _ rfl
      | ok response =>
        have hprocess : a.process = { a with worker := t.worker, held := some response } := by
          simp [ActiveWorker.process, htake, hanswer]
        rw [hprocess]
        have hphase : t.worker.phase ≠ .ended := by
          rw [hworker]
          intro hbusy
          cases hbusy
        have hmanned := h.become { a with worker := t.worker, held := some response } rfl
          h.fault hphase hsound h.inbox
        refine keeps_of_iff hmanned rfl fun c => ?_
        rw [hmanned.underway_iff, h.underway_iff]
        have hserved := WorkQueue.contains_served hdequeue c
        have hholds := holdsChunk_answer hhired hanswer c
        unfold ActiveWorker.Underway
        rw [hheld, hworker]
        simp only [hserved, Option.toList_some, hholds]
        have hnone : ¬HoldsChunk (none : Option Message).toList c := by simp [HoldsChunk]
        have hqueued : t.coords = c → a.worker.queue.contains c = true := by
          rintro rfl
          exact WorkQueue.contains_of_dequeue hdequeue
        rw [or_iff_left hnone, ← and_or_left]
        refine and_congr_right fun _ => ?_
        by_cases hc : t.coords = c
        · simp [hc, hqueued hc]
        · simp [hc]

/-- **Sending a response takes its chunk along**, and keeps all others. -/
theorem deliver (h : ch.Manned a) : ch.Keeps a ch.deliver := by
  cases hheld : a.held with
  | none =>
    have hstays : ch.deliver = ({ ch with subscriber := .worker a }, []) := by
      simp [Channel.deliver, ActiveWorker.deliver, h.subscriber, hheld]
    rw [hstays, ← h.subscriber]
    exact h.keeps
  | some response =>
    have hsends : ch.deliver =
        ({ ch with subscriber := .worker { a with worker := a.worker.finish, held := none } },
          [response]) := by
      simp [Channel.deliver, ActiveWorker.deliver, h.subscriber, hheld]
    rw [hsends]
    have hphase : a.worker.finish.phase ≠ .ended := by
      intro hidle
      cases hidle
    have hmanned := h.become { a with worker := a.worker.finish, held := none } rfl h.fault
      hphase h.queue h.inbox
    refine ⟨{ a with worker := a.worker.finish, held := none }, rfl, hmanned, fun c => ?_⟩
    rw [hmanned.underway_iff, h.underway_iff]
    simp [ActiveWorker.Underway, HoldsChunk, hheld, Worker.finish]

/-- A message sent to a worker adds the chunk that it asks for, if the worker generates chunks. -/
theorem send (h : ch.Manned a) {m : Message} (hm : m ≠ .exit) {ch' : Channel}
    (hsend : ch.send m = some ch') :
    ch'.Manned a ∧ ∀ c, ch'.Underway c ↔ ch.Underway c ∨
      a.job.service.topic = .chunkRequest ∧ ∃ urgent, m = .chunkRequest c urgent := by
  unfold Channel.send at hsend
  split at hsend
  · cases hsend
    have hexit : .exit ∉ ch.inbox ++ [m] := by
      simp only [List.mem_append, List.mem_singleton]
      rintro (hmem | rfl)
      · exact h.inbox hmem
      · exact hm rfl
    have hmanned : ({ ch with inbox := ch.inbox ++ [m], sent := ch.sent + 1 } : Channel).Manned a :=
      ⟨h.subscriber, h.topics, h.fault, h.phase, h.queue, hexit⟩
    refine ⟨hmanned, fun c => ?_⟩
    rw [hmanned.underway_iff, h.underway_iff]
    unfold ActiveWorker.Underway
    simp only [List.mem_append, List.mem_singleton]
    constructor
    · rintro (⟨htopic, ⟨urgent, hmem | rfl⟩ | hqueued⟩ | hheld)
      · exact .inl (.inl ⟨htopic, .inl ⟨urgent, hmem⟩⟩)
      · exact .inr ⟨htopic, urgent, rfl⟩
      · exact .inl (.inl ⟨htopic, .inr hqueued⟩)
      · exact .inl (.inr hheld)
    · rintro ((⟨htopic, ⟨urgent, hmem⟩ | hqueued⟩ | hheld) | ⟨htopic, urgent, rfl⟩)
      · exact .inl ⟨htopic, .inl ⟨urgent, .inl hmem⟩⟩
      · exact .inl ⟨htopic, .inr hqueued⟩
      · exact .inr hheld
      · exact .inl ⟨htopic, .inl ⟨urgent, .inr rfl⟩⟩
  · cases hsend

end Channel.Manned

/-! ## 2. The switchboard -/

namespace Switchboard

/-- The chunk at the position is asked for or generated, and has not been taken. -/
def Underway (b : Switchboard) (c : ChunkPos) : Prop :=
  (∃ ch ∈ b.channels, ch.Underway c) ∨ HoldsChunk b.responses c

/-- Every channel is that of a hired worker that has not stopped and is not told to. -/
def Manned (b : Switchboard) (boundary : Boundary) : Prop :=
  ∀ ch ∈ b.channels, ∃ a : ActiveWorker, a.job.Hired boundary ∧ ch.Manned a

variable {b b' : Switchboard} {boundary : Boundary} {i : Nat} {ch ch' : Channel}

/-- An element with a property in a list of which one has been replaced: it is the new one, or it is
elsewhere. -/
theorem exists_mem_set {α : Type} {l : List α} {i : Nat} (hi : i < l.length) (a : α)
    (p : α → Prop) :
    (∃ x ∈ l.set i a, p x) ↔ p a ∨ ∃ j x, j ≠ i ∧ l[j]? = some x ∧ p x := by
  constructor
  · rintro ⟨x, hx, hp⟩
    obtain ⟨j, hj⟩ := List.mem_iff_getElem?.mp hx
    rw [List.getElem?_set] at hj
    split at hj
    · next hij =>
      subst hij
      cases hj
      exact .inl hp
    · next hij => exact .inr ⟨j, x, Ne.symm hij, hj, hp⟩
  · rintro (hp | ⟨j, x, hij, hj, hp⟩)
    · exact ⟨a, List.mem_set hi a, hp⟩
    · refine ⟨x, List.mem_iff_getElem?.mpr ⟨j, ?_⟩, hp⟩
      rw [List.getElem?_set, if_neg (Ne.symm hij)]
      exact hj

/-- Another channel in place of one changes what is under way as the channel does. -/
theorem underway_swap (hi : b.channels[i]? = some ch) {out : List Message}
    (more : ChunkPos → Prop)
    (h : ∀ c, ch'.Underway c ∨ HoldsChunk out c ↔ ch.Underway c ∨ more c) (c : ChunkPos) :
    (b.swap i ch' out).Underway c ↔ b.Underway c ∨ more c := by
  obtain ⟨hlt, hch⟩ := List.getElem?_eq_some_iff.mp hi
  have hout : HoldsChunk (b.responses ++ out) c ↔ HoldsChunk b.responses c ∨ HoldsChunk out c := by
    simp [HoldsChunk, or_and_right, exists_or]
  have hnew := exists_mem_set hlt ch' (·.Underway c)
  have hold := exists_mem_set hlt ch (·.Underway c)
  rw [← hch, List.set_getElem_self, hch] at hold
  have hc := h c
  unfold Underway swap
  rw [hnew, hold, hout]
  grind

namespace Manned

/-- A worker in place of a worker of the same job keeps the switchboard manned. -/
theorem swap (h : b.Manned boundary) {a a' : ActiveWorker} (hhired : a.job.Hired boundary)
    (hjob : a'.job = a.job) (hmanned : ch'.Manned a') (out : List Message) :
    (b.swap i ch' out).Manned boundary := by
  intro x hx
  rcases List.mem_or_eq_of_mem_set hx with hx | rfl
  · exact h x hx
  · exact ⟨a', hjob ▸ hhired, hmanned⟩

/-- The worker of the channel at a place after a step is among the workers. -/
theorem fault_of_swap {out : List Message} (hi : b.channels[i]? = some ch)
    (hfaults : ∀ named ∈ (b.swap i ch' out).workers, named.2.fault = none) {a : ActiveWorker}
    (ha : ch'.subscriber = .worker a) : a.fault = none := by
  refine hfaults (ch'.name, a) (mem_workers ?_ ha)
  exact List.mem_set (List.getElem?_eq_some_iff.mp hi).1 ch'

/-! ## 3. Steps of workers -/

/-- A step that keeps what is under way on its channel keeps all that is under way. -/
theorem advance (h : b.Manned boundary) {i : Nat} {step : Channel → Channel × List Message}
    (hstep : ∀ ch a, b.channels[i]? = some ch → a.job.Hired boundary → ch.Manned a →
      ch.Keeps a (step ch)) :
    (b.advance i step).Manned boundary ∧ ∀ c, (b.advance i step).Underway c ↔ b.Underway c := by
  cases hi : b.channels[i]? with
  | none =>
    rw [advance_of_none hi]
    exact ⟨h, fun _ => Iff.rfl⟩
  | some ch =>
    obtain ⟨a, hhired, hmanned⟩ := h ch (List.mem_of_getElem? hi)
    obtain ⟨a', hjob, hmanned', hsame⟩ := hstep ch a hi hhired hmanned
    rw [advance_eq hi]
    refine ⟨h.swap hhired hjob hmanned' _, fun c => ?_⟩
    rw [underway_swap hi (fun _ => False), or_false]
    intro c
    rw [hsame, or_false]

/-- **Receiving keeps every chunk under way**, unless the worker is stopped by a fault. -/
theorem receive (h : b.Manned boundary) (i : Nat)
    (hfaults : ∀ named ∈ (b.advance i Channel.receive).workers, named.2.fault = none) :
    (b.advance i Channel.receive).Manned boundary ∧
      ∀ c, (b.advance i Channel.receive).Underway c ↔ b.Underway c := by
  refine h.advance fun ch a hi hhired hmanned => hmanned.receive hhired fun a' ha' => ?_
  rw [advance_eq hi] at hfaults
  exact fault_of_swap hi hfaults ha'

/-- **Processing keeps every chunk under way**, unless the worker is stopped by a fault. -/
theorem process (h : b.Manned boundary) (i : Nat)
    (hfaults : ∀ named ∈ (b.advance i Channel.process).workers, named.2.fault = none) :
    (b.advance i Channel.process).Manned boundary ∧
      ∀ c, (b.advance i Channel.process).Underway c ↔ b.Underway c := by
  refine h.advance fun ch a hi hhired hmanned => hmanned.process hhired fun a' ha' => ?_
  rw [advance_eq hi] at hfaults
  exact fault_of_swap hi hfaults ha'

/-- **Sending keeps every chunk under way.** -/
theorem deliver (h : b.Manned boundary) (i : Nat) :
    (b.advance i Channel.deliver).Manned boundary ∧
      ∀ c, (b.advance i Channel.deliver).Underway c ↔ b.Underway c :=
  h.advance fun _ _ _ _ hmanned => hmanned.deliver

/-! ## 4. Publishing -/

/-- A message that is accepted adds the chunk that it asks for, if the worker generates chunks. -/
theorem sendTo (h : b.Manned boundary) {m : Message} (hm : m ≠ .exit)
    (hsent : b.sendTo i m = (b', .ok ())) :
    b'.Manned boundary ∧ b'.channels.map Channel.topics = b.channels.map Channel.topics ∧
      ∃ ch, ∃ a : ActiveWorker, b.channels[i]? = some ch ∧ ch.Manned a ∧
        ∀ c, b'.Underway c ↔ b.Underway c ∨
          a.job.service.topic = .chunkRequest ∧ ∃ urgent, m = .chunkRequest c urgent := by
  unfold Switchboard.sendTo at hsent
  split at hsent
  · next ch' hch' =>
    cases hsent
    obtain ⟨ch, hi, hsend⟩ := Option.bind_eq_some_iff.mp hch'
    obtain ⟨a, hhired, hmanned⟩ := h ch (List.mem_of_getElem? hi)
    obtain ⟨hmanned', hadds⟩ := hmanned.send hm hsend
    have hswap : ({ b with channels := b.channels.set i ch' } : Switchboard) = b.swap i ch' [] := by
      rw [Switchboard.swap, List.append_nil]
    have htopics : ch'.topics = ch.topics := by rw [hmanned'.topics, hmanned.topics]
    rw [hswap]
    refine ⟨h.swap hhired rfl hmanned' [], topics_swap hi htopics [], ch, a, hi, hmanned, ?_⟩
    refine underway_swap hi _ fun c => ?_
    rw [hadds]
    simp [HoldsChunk]
  · cases hsent

/-- Telling workers that the viewer has moved adds nothing. -/
theorem sendToAll (h : b.Manned boundary) {viewer : ChunkPos} {places : List Nat}
    (hsent : b.sendToAll (.viewerMoved viewer) places = (b', .ok ())) :
    b'.Manned boundary ∧ ∀ c, b'.Underway c ↔ b.Underway c := by
  induction places generalizing b with
  | nil =>
    cases hsent
    exact ⟨h, fun _ => Iff.rfl⟩
  | cons i rest ih =>
    unfold Switchboard.sendToAll at hsent
    split at hsent
    · next b₁ hfirst =>
      obtain ⟨hmanned, -, ch, a, -, -, hsame⟩ := h.sendTo (m := .viewerMoved viewer) nofun hfirst
      obtain ⟨hmanned', hsame'⟩ := ih hmanned hsent
      refine ⟨hmanned', fun c => ?_⟩
      rw [hsame', hsame]
      simp
    · cases hsent

/-- **A move of the viewer that is published adds nothing.** -/
theorem publish_viewerMoved (h : b.Manned boundary) {viewer : ChunkPos}
    (hpublish : b.publish (.viewerMoved viewer) = (b', .ok ())) :
    b'.Manned boundary ∧ ∀ c, b'.Underway c ↔ b.Underway c :=
  h.sendToAll hpublish

/-- A request that is published has been sent to its place. -/
theorem exists_sendTo {m : Message} {c : ChunkPos} (hrequest : m.topic.isRequest = true)
    (hc : m.coords? = some c) (hpublish : b.publish m = (b', .ok ())) :
    ∃ i, b.placeFor? m.topic c = some i ∧ b.sendTo i m = (b', .ok ()) := by
  cases hplace : b.placeFor? m.topic c with
  | some i => exact ⟨i, rfl, (Staffed.publish_request hrequest hc hplace).symm.trans hpublish⟩
  | none =>
    unfold publish at hpublish
    rw [route?_eq hc, hplace] at hpublish
    cases m <;> first | (cases hrequest; done) | cases hpublish

/-- **A mesh request that is published adds nothing.** -/
theorem publish_meshRequest (h : b.Manned boundary) {s : Snapshot} {urgent : Bool}
    (hpublish : b.publish (.meshRequest s urgent) = (b', .ok ())) :
    b'.Manned boundary ∧ ∀ c, b'.Underway c ↔ b.Underway c := by
  obtain ⟨i, -, hsent⟩ := exists_sendTo rfl rfl hpublish
  obtain ⟨hmanned, -, ch, a, -, -, hsame⟩ := h.sendTo (m := .meshRequest s urgent) nofun hsent
  refine ⟨hmanned, fun c => ?_⟩
  rw [hsame]
  simp

/-- **A chunk request that is published adds the chunk that it asks for.** -/
theorem publish_chunkRequest (h : b.Manned boundary) {c : ChunkPos} {urgent : Bool}
    (hpublish : b.publish (.chunkRequest c urgent) = (b', .ok ())) :
    b'.Manned boundary ∧ ∀ c', b'.Underway c' ↔ b.Underway c' ∨ c = c' := by
  obtain ⟨i, hplace, hsent⟩ := exists_sendTo rfl rfl hpublish
  obtain ⟨hmanned, -, ch, a, hi, hch, hadds⟩ :=
    h.sendTo (m := .chunkRequest c urgent) nofun hsent
  have htopic := topic_eq_of_placeFor? hi hch.topics rfl hplace
  refine ⟨hmanned, fun c' => ?_⟩
  rw [hadds, ← htopic]
  simp [Message.topic]

/-! ## 5. Responses -/

/-- **Taking a response takes its chunk off what is under way**, if it has one. -/
theorem takeResponse (h : b.Manned boundary) {m : Message}
    (htake : b.takeResponse = (some m, b')) :
    b'.Manned boundary ∧ ∀ c, b.Underway c ↔ HoldsChunk [m] c ∨ b'.Underway c := by
  unfold Switchboard.takeResponse at htake
  split at htake
  · cases htake
  · next rest hresponses =>
    cases htake
    refine ⟨h, fun c => ?_⟩
    have hhead : HoldsChunk b.responses c ↔ HoldsChunk [m] c ∨ HoldsChunk rest c := by
      rw [hresponses]
      simp [HoldsChunk, or_and_right, exists_or]
    unfold Underway
    rw [hhead]
    grind

end Manned

end Switchboard

end Blockworld
