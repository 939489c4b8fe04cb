/-
# What the switchboard owes

All requests of a topic about one position go the same way: to the one channel that the fingerprint
of the position selects (`Switchboard.placeFor?`).  So the responses to them come out in a fixed
order: first those that are in the inbox of the main loop already, then what that channel owes.
`Switchboard.backlog` is the list of them.

`Switchboard.Staffed` is what the switchboard of a run is like: every channel is that of a worker
that serves its own positions, and every kind of request has a worker.  It is preserved by
publishing and by every step of a worker, unless a computation overflows, and it makes publishing
succeed.  What each of them does to the backlog:

* publishing a request adds its response at the end (`Staffed.publish_meshRequest`);
* receiving keeps the last response (`Staffed.receive`);
* processing and sending change nothing (`Staffed.process`, `Staffed.deliver`);
* taking a response out of the inbox takes the head off (`Staffed.takeResponse_cases`).
-/
import Blockworld.Proofs.Backlog

namespace Blockworld

/-! ## 1. Responses by topic -/

/-- The topic of the responses to requests of a topic. -/
def Topic.response? : Topic → Option Topic
  | chunkRequest => some chunkResponse
  | meshRequest => some meshResponse
  | _ => none

/-- Whether a message is a response about a position to requests of a topic. -/
def Message.answers (t : Topic) (c : ChunkPos) (m : Message) : Bool :=
  m.coords? == some c && t.response? == some m.topic

namespace Job

/-- A job of the crew: generating chunks, or meshing under the boundary policy. -/
def Hired (boundary : Boundary) (j : Job) : Prop := (∃ t, j = .generate t) ∨ j = .mesh boundary

/-- An answer of a job answers the requests of its topic about its position, and no others. -/
theorem IsAnswer.answers_iff {j : Job} {c c' : ChunkPos} {m : Message} (h : j.IsAnswer c m)
    (t : Topic) : m.answers t c' = true ↔ t = j.service.topic ∧ c = c' := by
  unfold Message.answers
  rw [h.coords?_eq, Bool.and_eq_true, beq_iff_eq, beq_iff_eq, Option.some.injEq, and_comm]
  refine and_congr_left fun _ => ?_
  cases j with
  | generate _ =>
    obtain ⟨chunk, rfl, -⟩ := h
    show t.response? = some .chunkResponse ↔ t = .chunkRequest
    cases t <;> decide
  | mesh _ =>
    obtain ⟨mesh, rfl, -⟩ := h
    show t.response? = some .meshResponse ↔ t = .meshRequest
    cases t <;> decide
  | relay => cases h

/-- A worker takes the requests of its own topic and no others. -/
theorem subscribes_iff {j : Job} {t : Topic} (ht : t.isRequest = true) :
    (Switchboard.workerTopics j).contains t = true ↔ t = j.service.topic := by
  have hmoved : t ≠ .viewerMoved := by
    rintro rfl
    cases ht
  have hexit : t ≠ .exit := by
    rintro rfl
    cases ht
  simp [Switchboard.workerTopics, hmoved, hexit]

end Job

namespace Switchboard

variable {b b' : Switchboard} {t : Topic} {c : ChunkPos}

/-! ## 2. Routes -/

/-- The place of the channel to which the requests of a topic about a position are routed. -/
def placeFor? (b : Switchboard) (t : Topic) (c : ChunkPos) : Option Nat :=
  (b.subscribers t)[c.fingerprint.toNat % (b.subscribers t).length]?

theorem route?_eq {m : Message} (hc : m.coords? = some c) :
    b.route? m = b.placeFor? m.topic c := by
  unfold route? placeFor?
  simp only [hc, Option.map_some, Option.getD_some]

theorem mem_subscribers {i : Nat} :
    i ∈ b.subscribers t ↔ ∃ ch, b.channels[i]? = some ch ∧ ch.subscribes t = true := by
  unfold subscribers
  rw [List.mem_filter, List.mem_range]
  cases hch : b.channels[i]? with
  | none => simp
  | some ch =>
    have hlt := (List.getElem?_eq_some_iff.mp hch).1
    simp [hlt]

theorem exists_getElem?_mod {α : Type} {l : List α} (h : l ≠ []) (k : Nat) :
    ∃ a, l[k % l.length]? = some a :=
  ⟨_, List.getElem?_eq_getElem (Nat.mod_lt k (List.length_pos_of_ne_nil h))⟩

/-- A position has a route if anybody subscribes. -/
theorem exists_placeFor? (h : b.subscribers t ≠ []) (c : ChunkPos) :
    ∃ i, b.placeFor? t c = some i := exists_getElem?_mod h _

theorem mem_subscribers_of_placeFor? {i : Nat} (h : b.placeFor? t c = some i) :
    i ∈ b.subscribers t := List.mem_of_getElem? h

/-- Routes depend on the topics of the channels only. -/
theorem subscribers_congr (h : b'.channels.map Channel.topics = b.channels.map Channel.topics)
    (t : Topic) : b'.subscribers t = b.subscribers t := by
  have hlength : b'.channels.length = b.channels.length := by
    simpa using congrArg List.length h
  unfold subscribers
  rw [hlength]
  refine List.filter_congr fun i _ => ?_
  have hi := congrArg (fun topics => topics[i]?.map (·.contains t)) h
  simp only [List.getElem?_map, Option.map_map] at hi
  exact congrArg (·.getD false) hi

theorem placeFor?_congr (h : b'.channels.map Channel.topics = b.channels.map Channel.topics)
    (t : Topic) (c : ChunkPos) : b'.placeFor? t c = b.placeFor? t c := by
  unfold placeFor?
  rw [subscribers_congr h]

/-! ## 3. The backlog -/

/-- What the channel owes to which the requests are routed. -/
def owed (b : Switchboard) (t : Topic) (c : ChunkPos) : List (Except Fault Message) :=
  (((b.placeFor? t c).bind (b.channels[·]?)).map (·.owes c)).getD []

/-- The responses to the requests of a topic about a position, in the order in which the main loop
will take them. -/
def backlog (b : Switchboard) (t : Topic) (c : ChunkPos) : List (Except Fault Message) :=
  (b.responses.filter (·.answers t c)).map .ok ++ b.owed t c

/-- The switchboard with another channel in place of one of the same topics. -/
def swap (b : Switchboard) (i : Nat) (ch : Channel) (out : List Message) : Switchboard :=
  { b with channels := b.channels.set i ch, responses := b.responses ++ out }

section Swap

variable {i : Nat} {ch ch' : Channel} (hi : b.channels[i]? = some ch)
  (htopics : ch'.topics = ch.topics) (out : List Message)

include hi htopics

theorem topics_swap :
    (b.swap i ch' out).channels.map Channel.topics = b.channels.map Channel.topics := by
  have hlt := (List.getElem?_eq_some_iff.mp hi).1
  apply List.ext_getElem?
  intro j
  rw [swap, List.getElem?_map, List.getElem?_map, List.getElem?_set]
  by_cases hij : i = j
  · subst hij
    rw [if_pos rfl, if_pos hlt, hi, Option.map_some, Option.map_some, htopics]
  · rw [if_neg hij]

theorem owed_swap (t : Topic) (c : ChunkPos) :
    (b.swap i ch' out).owed t c = if b.placeFor? t c = some i then ch'.owes c else b.owed t c := by
  have hlt := (List.getElem?_eq_some_iff.mp hi).1
  unfold owed
  rw [placeFor?_congr (topics_swap hi htopics out)]
  cases b.placeFor? t c with
  | none => rfl
  | some j =>
    rw [Option.bind_some, Option.bind_some, swap, List.getElem?_set]
    by_cases hij : i = j
    · subst hij
      simp [hlt]
    · have hji : j ≠ i := Ne.symm hij
      simp [hij, hji]

end Swap

theorem owed_eq {i : Nat} {ch : Channel} (hi : b.channels[i]? = some ch)
    (hplace : b.placeFor? t c = some i) : b.owed t c = ch.owes c := by
  unfold owed
  rw [hplace, Option.bind_some, hi]
  rfl

section Swap

variable {i : Nat} {ch ch' : Channel}

theorem backlog_swap (hi : b.channels[i]? = some ch) (htopics : ch'.topics = ch.topics)
    (out : List Message) (t : Topic) (c : ChunkPos) :
    (b.swap i ch' out).backlog t c =
      ((b.responses ++ out).filter (·.answers t c)).map .ok ++
        if b.placeFor? t c = some i then ch'.owes c else b.owed t c := by
  rw [backlog, owed_swap hi htopics]
  rfl

theorem advance_eq (hi : b.channels[i]? = some ch) (step : Channel → Channel × List Message) :
    b.advance i step = b.swap i (step ch).1 (step ch).2 := by
  unfold advance
  rw [hi]
  rfl

theorem advance_of_none (hi : b.channels[i]? = none) (step : Channel → Channel × List Message) :
    b.advance i step = b := by
  unfold advance
  rw [hi]

theorem mem_workers {a : ActiveWorker} (hch : ch ∈ b.channels) (ha : ch.subscriber = .worker a) :
    (ch.name, a) ∈ b.workers := by
  refine List.mem_filterMap.mpr ⟨ch, hch, ?_⟩
  rw [ha]

/-- The requests routed to a worker are those of its topic. -/
theorem topic_eq_of_placeFor? {a : ActiveWorker} (hi : b.channels[i]? = some ch)
    (htopics : ch.topics = workerTopics a.job) (ht : t.isRequest = true)
    (hplace : b.placeFor? t c = some i) : t = a.job.service.topic := by
  obtain ⟨ch', hch', hsub⟩ := mem_subscribers.mp (mem_subscribers_of_placeFor? hplace)
  rw [hi] at hch'
  cases hch'
  rw [Channel.subscribes, htopics] at hsub
  exact (Job.subscribes_iff ht).mp hsub

end Swap

/-! ## 4. A switchboard with its workers -/

/-- Every channel is that of a worker of the crew that serves the positions routed to it, there is a
worker for every kind of request, and the inbox holds answers. -/
structure Staffed (b : Switchboard) (policy : OnDuplicate) (boundary : Boundary) : Prop where
  serves : ∀ i (ch : Channel), b.channels[i]? = some ch → ∃ a : ActiveWorker,
    a.job.Hired boundary ∧
      ch.Serves a policy fun c => b.placeFor? a.job.service.topic c = some i
  staffed : ∀ t, t.isRequest = true → b.subscribers t ≠ []
  answers : ∀ m ∈ b.responses, ∃ j c, Job.IsAnswer j c m

namespace Staffed

variable {policy : OnDuplicate} {boundary : Boundary}

/-- The channel for a position, with its worker. -/
theorem exists_channel (h : b.Staffed policy boundary) (ht : t.isRequest = true) (c : ChunkPos) :
    ∃ i ch, ∃ a : ActiveWorker, b.placeFor? t c = some i ∧ b.channels[i]? = some ch ∧
      a.job.Hired boundary ∧ t = a.job.service.topic ∧
        Channel.Serves ch a policy fun c => b.placeFor? a.job.service.topic c = some i := by
  obtain ⟨i, hi⟩ := exists_placeFor? (h.staffed t ht) c
  obtain ⟨ch, hch, -⟩ := mem_subscribers.mp (mem_subscribers_of_placeFor? hi)
  obtain ⟨a, hhired, hserves⟩ := h.serves i ch hch
  have htopic : t = a.job.service.topic := topic_eq_of_placeFor? hch hserves.topics ht hi
  exact ⟨i, ch, a, hi, hch, hhired, htopic, hserves⟩

/-- A worker in place of a worker of the same job keeps the switchboard staffed. -/
theorem swap (h : b.Staffed policy boundary) {i : Nat} {ch ch' : Channel}
    (hi : b.channels[i]? = some ch) {a a' : ActiveWorker} (hhired : a.job.Hired boundary)
    (hserves : ch.Serves a policy fun c => b.placeFor? a.job.service.topic c = some i)
    (hjob : a'.job = a.job)
    (hserves' : ch'.Serves a' policy fun c => b.placeFor? a.job.service.topic c = some i)
    {out : List Message} (hout : ∀ m ∈ out, ∃ c, Job.IsAnswer a.job c m) :
    (b.swap i ch' out).Staffed policy boundary := by
  have htopics : ch'.topics = ch.topics := by rw [hserves'.topics, hserves.topics, hjob]
  refine ⟨fun j chj hj => ?_, fun t ht => ?_, fun m hm => ?_⟩
  · simp only [placeFor?_congr (topics_swap hi htopics out)]
    have hlt := (List.getElem?_eq_some_iff.mp hi).1
    simp only [Switchboard.swap, List.getElem?_set] at hj
    split at hj
    · next hij =>
      subst hij
      cases hj
      refine ⟨a', hjob ▸ hhired, ?_⟩
      rw [hjob]
      exact hserves'
    · exact h.serves j chj hj
  · rw [subscribers_congr (topics_swap hi htopics out)]
    exact h.staffed t ht
  · rcases List.mem_append.mp hm with hm | hm
    · exact h.answers m hm
    · obtain ⟨c, hc⟩ := hout m hm
      exact ⟨a.job, c, hc⟩

/-! ## 5. Steps of workers -/

/-- **Receiving keeps the last response about every position**, provided new payloads replace old
ones. -/
theorem receive (h : b.Staffed policy boundary) (i : Nat) :
    (b.advance i Channel.receive).Staffed policy boundary ∧
      (policy = .replace → ∀ t c, ((b.advance i Channel.receive).backlog t c).getLast? =
        (b.backlog t c).getLast?) := by
  cases hi : b.channels[i]? with
  | none =>
    rw [advance_of_none hi]
    exact ⟨h, fun _ _ _ => rfl⟩
  | some ch =>
    obtain ⟨a, hhired, hserves⟩ := h.serves i ch hi
    obtain ⟨a', hout, hjob, hserves', hlast⟩ := hserves.receive
    have htopics : ch.receive.1.topics = ch.topics := by
      rw [hserves'.topics, hserves.topics, hjob]
    rw [advance_eq hi, hout]
    refine ⟨h.swap hi hhired hserves hjob hserves' (by simp), fun hreplace t c => ?_⟩
    rw [backlog_swap hi htopics, backlog, List.append_nil, List.getLast?_append,
      List.getLast?_append]
    split
    · next hplace => rw [owed_eq hi hplace, hlast hreplace]
    · rfl

/-- **Processing changes no response to come**, unless a computation overflows. -/
theorem process (h : b.Staffed policy boundary) (i : Nat)
    (hfits : ∀ named ∈ (b.advance i Channel.process).workers, ∀ operation,
      named.2.fault ≠ some (.overflow operation)) :
    (b.advance i Channel.process).Staffed policy boundary ∧
      ∀ t c, (b.advance i Channel.process).backlog t c = b.backlog t c := by
  cases hi : b.channels[i]? with
  | none =>
    rw [advance_of_none hi]
    exact ⟨h, fun _ _ => rfl⟩
  | some ch =>
    obtain ⟨a, hhired, hserves⟩ := h.serves i ch hi
    rw [advance_eq hi] at hfits ⊢
    obtain ⟨hout, ⟨a', hjob, hserves', howes⟩ | ⟨a', operation, hsub, hfault⟩⟩ := hserves.process
    · have htopics : ch.process.1.topics = ch.topics := by
        rw [hserves'.topics, hserves.topics, hjob]
      rw [hout]
      refine ⟨h.swap hi hhired hserves hjob hserves' (by simp), fun t c => ?_⟩
      rw [backlog_swap hi htopics, backlog, List.append_nil]
      split
      · next hplace => rw [owed_eq hi hplace, howes]
      · rfl
    · refine absurd hfault (hfits (ch.process.1.name, a') ?_ operation)
      refine mem_workers ?_ hsub
      exact List.mem_set (List.getElem?_eq_some_iff.mp hi).1 _

/-- **Sending a response leaves it in the backlog**, in the place it had. -/
theorem deliver (h : b.Staffed policy boundary) (i : Nat) :
    (b.advance i Channel.deliver).Staffed policy boundary ∧
      ∀ t c, t.isRequest = true →
        (b.advance i Channel.deliver).backlog t c = b.backlog t c := by
  cases hi : b.channels[i]? with
  | none =>
    rw [advance_of_none hi]
    exact ⟨h, fun _ _ _ => rfl⟩
  | some ch =>
    obtain ⟨a, hhired, hserves⟩ := h.serves i ch hi
    obtain ⟨a', hjob, hserves', hout, howes⟩ := hserves.deliver
    have htopics : ch.deliver.1.topics = ch.topics := by
      rw [hserves'.topics, hserves.topics, hjob]
    rw [advance_eq hi]
    refine ⟨h.swap hi hhired hserves hjob hserves' fun m hm => ?_, fun t c ht => ?_⟩
    · obtain ⟨c, -, hc⟩ := hout m hm
      exact ⟨c, hc⟩
    · rw [backlog_swap hi htopics, backlog, List.filter_append, List.map_append,
        List.append_assoc]
      refine congrArg (_ ++ ·) ?_
      split
      · next hplace =>
        -- what is sent here is about the topic, so only the position matters
        have htopic : t = a.job.service.topic := topic_eq_of_placeFor? hi hserves.topics ht hplace
        have hsame : ch.deliver.2.filter (·.answers t c) =
            ch.deliver.2.filter (fun m => m.coords? == some c) := by
          refine List.filter_congr fun m hm => ?_
          obtain ⟨c', -, hc'⟩ := hout m hm
          rw [Bool.eq_iff_iff, hc'.answers_iff, hc'.coords?_eq]
          simp [htopic]
        rw [hsame, owed_eq hi hplace, howes]
      · next hplace =>
        have hnone : ch.deliver.2.filter (·.answers t c) = [] := by
          rw [List.filter_eq_nil_iff]
          intro m hm hanswers
          obtain ⟨c', hmine, hc'⟩ := hout m hm
          obtain ⟨rfl, rfl⟩ := (hc'.answers_iff t).mp hanswers
          exact hplace hmine
        rw [hnone]
        rfl

/-- **Taking a response takes the head off the backlog** it belongs to. -/
theorem takeResponse_cases (h : b.Staffed policy boundary) :
    (b.takeResponse = (none, b) ∧ b.responses = []) ∨
      ∃ m b', b.takeResponse = (some m, b') ∧ (∃ j c, Job.IsAnswer j c m) ∧
        b'.Staffed policy boundary ∧ ∀ t c,
          b.backlog t c = (if m.answers t c then [.ok m] else []) ++ b'.backlog t c := by
  unfold takeResponse
  cases hresponses : b.responses with
  | nil => exact .inl ⟨rfl, rfl⟩
  | cons m rest =>
    right
    refine ⟨m, _, rfl, h.answers m (hresponses ▸ List.mem_cons_self), ⟨h.serves, h.staffed, ?_⟩,
      fun t c => ?_⟩
    · intro m' hm'
      exact h.answers m' (hresponses ▸ List.mem_cons_of_mem _ hm')
    · unfold backlog
      rw [hresponses, List.filter_cons]
      split <;> rfl

/-! ## 6. Publishing -/

/-- **A message that its worker expects reaches it**, and adds what it asks for at the end. -/
theorem sendTo (h : b.Staffed policy boundary) {i : Nat} {ch : Channel}
    (hi : b.channels[i]? = some ch) {a : ActiveWorker} (hhired : a.job.Hired boundary)
    (hserves : ch.Serves a policy fun c => b.placeFor? a.job.service.topic c = some i)
    {m : Message} (hm : a.Expects (fun c => b.placeFor? a.job.service.topic c = some i) m) :
    ∃ b', b.sendTo i m = (b', .ok ()) ∧ b'.Staffed policy boundary ∧
      b'.channels.map Channel.topics = b.channels.map Channel.topics ∧
      ∀ t c, b'.backlog t c =
        b.backlog t c ++ if b.placeFor? t c = some i then (a.job.due? c m).toList else [] := by
  obtain ⟨ch', hsend, hserves', howes⟩ := hserves.send hm
  have htopics : ch'.topics = ch.topics := by rw [hserves'.topics, hserves.topics]
  have hsent : b.sendTo i m = (b.swap i ch' [], .ok ()) := by
    unfold Switchboard.sendTo Switchboard.swap
    rw [hi, Option.bind_some, hsend, List.append_nil]
  refine ⟨_, hsent, h.swap hi hhired hserves rfl hserves' (by simp), topics_swap hi htopics _,
    fun t c => ?_⟩
  rw [backlog_swap hi htopics, List.append_nil, backlog, List.append_assoc]
  refine congrArg (_ ++ ·) ?_
  split
  · next hplace => rw [howes, owed_eq hi hplace]
  · rw [List.append_nil]

/-- Telling a list of workers that the viewer has moved changes no backlog. -/
theorem sendToAll (h : b.Staffed policy boundary) (viewer : ChunkPos) {places : List Nat}
    (hplaces : ∀ i ∈ places, i < b.channels.length) :
    ∃ b', b.sendToAll (.viewerMoved viewer) places = (b', .ok ()) ∧ b'.Staffed policy boundary ∧
      ∀ t c, b'.backlog t c = b.backlog t c := by
  induction places generalizing b with
  | nil => exact ⟨b, rfl, h, fun _ _ => rfl⟩
  | cons i rest ih =>
    have hi := List.getElem?_eq_getElem (hplaces i List.mem_cons_self)
    obtain ⟨a, hhired, hserves⟩ := h.serves i _ hi
    obtain ⟨b₁, hsent, hstaffed, htopics, hbacklog⟩ :=
      h.sendTo hi hhired hserves (m := .viewerMoved viewer) (.inl ⟨viewer, rfl⟩)
    have hlength : b₁.channels.length = b.channels.length := by
      simpa using congrArg List.length htopics
    obtain ⟨b', hrest, hstaffed', hbacklog'⟩ := ih hstaffed fun j hj => by
      rw [hlength]
      exact hplaces j (List.mem_cons_of_mem _ hj)
    refine ⟨b', ?_, hstaffed', fun t c => ?_⟩
    · unfold Switchboard.sendToAll
      rw [hsent]
      exact hrest
    · have hdue : a.job.due? c (.viewerMoved viewer) = none := by
        rw [Job.due?, Job.unpack_eq_none_of_isEvent rfl]
        rfl
      rw [hbacklog', hbacklog, hdue]
      simp

/-- **The move of the viewer is published**, and changes no backlog. -/
theorem publish_viewerMoved (h : b.Staffed policy boundary) (viewer : ChunkPos) :
    ∃ b', b.publish (.viewerMoved viewer) = (b', .ok ()) ∧ b'.Staffed policy boundary ∧
      ∀ t c, b'.backlog t c = b.backlog t c := by
  refine h.sendToAll viewer fun i hi => ?_
  obtain ⟨ch, hch, -⟩ := mem_subscribers.mp hi
  exact (List.getElem?_eq_some_iff.mp hch).1

/-- A request is published by sending it to its place. -/
theorem publish_request {m : Message} {i : Nat} (hrequest : m.topic.isRequest = true)
    (hc : m.coords? = some c) (hplace : b.placeFor? m.topic c = some i) :
    b.publish m = b.sendTo i m := by
  unfold publish
  rw [route?_eq hc, hplace]
  cases m <;> first | (cases hrequest; done) | rfl

/-- **A mesh request is published**, and adds the mesh of its snapshot to the backlog of its
position. -/
theorem publish_meshRequest (h : b.Staffed policy boundary) {s : Snapshot} (hs : s.Sound)
    (urgent : Bool) :
    ∃ b', b.publish (.meshRequest s urgent) = (b', .ok ()) ∧ b'.Staffed policy boundary ∧
      ∀ c, b'.backlog .meshRequest c = b.backlog .meshRequest c ++
        if s.coords = c then [(s.mesh boundary).map .meshResponse] else [] := by
  obtain ⟨i, ch, a, hplace, hi, hhired, htopic, hserves⟩ :=
    h.exists_channel (t := .meshRequest) rfl s.coords
  obtain ⟨job, worker, held, fault⟩ := a
  rcases hhired with ⟨t, rfl⟩ | rfl
  · cases htopic
  · obtain ⟨b', hsent, hstaffed, -, hbacklog⟩ :=
      h.sendTo hi (.inr rfl) hserves (m := .meshRequest s urgent)
        (.inr ⟨⟨s.coords, s, urgent⟩, rfl, rfl, hplace, rfl, hs⟩)
    refine ⟨b', (publish_request rfl rfl hplace).trans hsent, hstaffed, fun c => ?_⟩
    rw [hbacklog]
    have hdue : (Job.mesh boundary).due? c (.meshRequest s urgent) =
        if s.coords = c then some ((s.mesh boundary).map .meshResponse) else none := rfl
    rw [hdue]
    by_cases hc : s.coords = c
    · rw [if_pos hc, if_pos hc, ← hc, if_pos hplace]
      rfl
    · rw [if_neg hc, if_neg hc]
      simp

/-- **A chunk request is published**, and changes no backlog of meshes. -/
theorem publish_chunkRequest (h : b.Staffed policy boundary) (c : ChunkPos) (urgent : Bool) :
    ∃ b', b.publish (.chunkRequest c urgent) = (b', .ok ()) ∧ b'.Staffed policy boundary ∧
      ∀ c', b'.backlog .meshRequest c' = b.backlog .meshRequest c' := by
  obtain ⟨i, ch, a, hplace, hi, hhired, htopic, hserves⟩ :=
    h.exists_channel (t := .chunkRequest) rfl c
  obtain ⟨job, worker, held, fault⟩ := a
  rcases hhired with ⟨t, rfl⟩ | rfl
  · obtain ⟨b', hsent, hstaffed, -, hbacklog⟩ :=
      h.sendTo hi (.inl ⟨t, rfl⟩) hserves (m := .chunkRequest c urgent)
        (.inr ⟨⟨c, (), urgent⟩, rfl, rfl, hplace, trivial⟩)
    refine ⟨b', (publish_request rfl rfl hplace).trans hsent, hstaffed, fun c' => ?_⟩
    rw [hbacklog, if_neg, List.append_nil]
    intro hmesh
    cases topic_eq_of_placeFor? hi hserves.topics rfl hmesh
  · cases htopic

end Staffed

end Switchboard

end Blockworld
