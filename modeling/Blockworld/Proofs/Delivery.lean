/-
# What is delivered to whom

`Switchboard.Traffic` is any traffic through a switchboard with a fixed list of channels: messages
are published, workers take their steps, readers outside the library read, the main loop takes
responses.  A log tells what happened.  A sender that finds a channel full gets its message back and
tries again later, and meanwhile all others go on; so the sends of one publication are single steps
here, with steps of others in between, and what is still to be sent is part of the state.  That a
message is published at once is the case where nothing comes in between (`Traffic.publish`).

1. **Every step keeps the books** (`Traffic.carries`): what has been delivered to a channel and what
   is still to be sent to it are, in the order of publication, the messages that are for it.

2. **What follows** (`Traffic.delivers`): a request reaches one subscriber, and requests of a topic
   about one position reach the same one; no worker is ever sent a message that it cannot handle, and
   no two workers of a topic have the same position queued.
-/
import Blockworld.Proofs.Crew
import Blockworld.Proofs.Places
import Blockworld.Proofs.Turns

namespace Blockworld

namespace Switchboard

/-! ## 1. Traffic -/

/-- What happens on a switchboard. -/
inductive Incident where
  | published (m : Message)
  /-- A message was read on the channel at a place. -/
  | read (place : Nat) (m : Message)
  /-- A worker sent a response. -/
  | answered (m : Message)
  /-- The main loop took a response. -/
  | taken (m : Message)

/-- The published messages, in order. -/
def published (log : List Incident) : List Message :=
  log.filterMap fun
    | .published m => some m
    | _ => none

/-- The messages read at a place, in order. -/
def readAt (log : List Incident) (i : Nat) : List Message :=
  log.filterMap fun
    | .read j m => if j = i then some m else none
    | _ => none

/-- The responses published and those sent by workers, in order. -/
def responded (log : List Incident) : List Message :=
  log.filterMap fun
    | .published m => if m.topic.isResponse then some m else none
    | .answered m => some m
    | _ => none

/-- The responses taken by the main loop, in order. -/
def takenFrom (log : List Incident) : List Message :=
  log.filterMap fun
    | .taken m => some m
    | _ => none

/-- What is still to be sent to a place. -/
def dueAt (due : List (Nat × Message)) (i : Nat) : List Message :=
  due.filterMap fun p => if p.1 = i then some p.2 else none

/-- What a turn of the subscriber at a place leaves in the log. -/
def incidents (b : Switchboard) (i : Nat) (turn : Turn) : List Incident :=
  match b.channels[i]? with
  | none => []
  | some ch => (turn.reads ch).map (.read i) ++ (turn.run ch).2.map .answered

/-- The switchboard has been put together and nothing has been sent: a list of channels, each of a
worker or of a subscriber outside the library. -/
inductive Assembled : Switchboard → Prop
  | empty (capacity : Nat) : Assembled (.empty capacity)
  | spawn {b b' : Switchboard} {name : String} {job : Job} {scheduling : Scheduling}
      (h : Assembled b) (hspawn : b.spawn name job scheduling = .ok b') : Assembled b'
  | subscribe {b b' : Switchboard} {name : String} {topics : List Topic}
      (h : Assembled b) (hsubscribe : b.subscribe name topics = .ok b') : Assembled b'

/-- The traffic through a switchboard: the log, what is still to be sent of the message that is being
published, and the switchboard as it is now. -/
inductive Traffic : List Incident → List (Nat × Message) → Switchboard → Prop
  | start {b : Switchboard} (h : b.Assembled) : Traffic [] [] b
  /-- A response is published. -/
  | respond {log : List Incident} {b : Switchboard} {m : Message} (h : Traffic log [] b)
      (hm : m.topic.isResponse = true) : Traffic (log ++ [.published m]) [] (b.respond m)
  /-- Another message is being published, and is to be sent to its places.  A request needs one. -/
  | address {log : List Incident} {b : Switchboard} {m : Message} (h : Traffic log [] b)
      (hm : m.topic.isResponse = false) (hroute : m.topic.isRequest = true → b.route? m ≠ none) :
      Traffic (log ++ [.published m]) ((b.places m).map (·, m)) b
  /-- A channel has room for what is to be sent to it, and accepts it. -/
  | send {log : List Incident} {i : Nat} {m : Message} {rest : List (Nat × Message)}
      {b b' : Switchboard} (h : Traffic log ((i, m) :: rest) b)
      (hsent : b.sendTo i m = (b', .ok ())) : Traffic log rest b'
  /-- A subscriber takes a turn. -/
  | turn {log : List Incident} {due : List (Nat × Message)} {b : Switchboard}
      (h : Traffic log due b) (turn : Turn) (i : Nat) :
      Traffic (log ++ b.incidents i turn) due (b.advance i turn.run)
  /-- The main loop takes a response. -/
  | take {log : List Incident} {due : List (Nat × Message)} {m : Message} {b b' : Switchboard}
      (h : Traffic log due b) (htake : b.takeResponse = (some m, b')) :
      Traffic (log ++ [.taken m]) due b'

variable {log entries : List Incident} {due due' : List (Nat × Message)} {b b' : Switchboard}
  {m : Message} {i : Nat} {ch ch' : Channel}

/-- Messages can be sent one after the other with nothing in between. -/
theorem Traffic.sendToAll {places : List Nat} (h : Traffic log (places.map (·, m)) b)
    (hsent : b.sendToAll m places = (b', .ok ())) : Traffic log [] b' := by
  induction places generalizing b with
  | nil =>
    cases hsent
    exact h
  | cons i rest ih =>
    unfold Switchboard.sendToAll at hsent
    split at hsent
    · next b₁ hfirst => exact ih (h.send hfirst) hsent
    · cases hsent

/-- **A message that is published at once, and accepted, goes on with the traffic.** -/
theorem Traffic.publish (h : Traffic log [] b) (hok : (b.publish m).2 = .ok ()) :
    Traffic (log ++ [.published m]) [] (b.publish m).1 := by
  cases hm : m.topic.isResponse with
  | true =>
    rw [publish_response hm]
    exact h.respond hm
  | false =>
    have hroute : m.topic.isRequest = true → b.route? m ≠ none := by
      intro hrequest hnone
      rw [(publish_unsubscribed_iff hrequest).mpr (route?_eq_none_iff.mp hnone)] at hok
      cases hok
    rw [publish_eq_sendToAll hm hroute] at hok ⊢
    exact (h.address hm hroute).sendToAll (Prod.ext rfl hok)

/-! ## 2. The books -/

/-- What has been delivered to a channel: what was read, and what waits in its inbox. -/
def deliveredAt (log : List Incident) (i : Nat) (ch : Channel) : List Message :=
  readAt log i ++ ch.inbox

/-- The books of a switchboard are in order.  What has been delivered to a channel and what is still
to be sent to it are the messages for it, in the order of publication; what workers have queued are
positions that are routed to them. -/
structure Carries (log : List Incident) (due : List (Nat × Message)) (b : Switchboard) : Prop where
  delivered : ∀ i ch, b.channels[i]? = some ch →
    deliveredAt log i ch ++ dueAt due i = (published log).filter (b.isFor i ch)
  sent : ∀ i ch, b.channels[i]? = some ch → ch.sent = (deliveredAt log i ch).length
  answered : takenFrom log ++ b.responses = responded log
  routed : ∀ m ∈ published log, m.topic.isRequest = true → b.route? m ≠ none
  topics : ∀ (i : Nat) (ch : Channel) (a : ActiveWorker), b.channels[i]? = some ch →
    ch.subscriber = .worker a → ch.topics = workerTopics a.job
  queued : ∀ (i : Nat) (ch : Channel) (a : ActiveWorker), b.channels[i]? = some ch →
    ch.subscriber = .worker a → ∀ c, a.worker.queue.contains c = true →
      b.placeFor? a.job.service.topic c = some i

@[simp] theorem published_append (log log' : List Incident) :
    published (log ++ log') = published log ++ published log' := List.filterMap_append

@[simp] theorem readAt_append (log log' : List Incident) (i : Nat) :
    readAt (log ++ log') i = readAt log i ++ readAt log' i := List.filterMap_append

@[simp] theorem responded_append (log log' : List Incident) :
    responded (log ++ log') = responded log ++ responded log' := List.filterMap_append

@[simp] theorem takenFrom_append (log log' : List Incident) :
    takenFrom (log ++ log') = takenFrom log ++ takenFrom log' := List.filterMap_append

/-- Whom a message is for depends on the topics of the channels only. -/
theorem isFor_congr (hb : b'.channels.map Channel.topics = b.channels.map Channel.topics)
    (hch : ch'.topics = ch.topics) (i : Nat) : b'.isFor i ch' = b.isFor i ch := by
  funext m
  unfold isFor Channel.subscribes
  rw [route?_congr hb, hch]

/-- What is due of a message that is being published. -/
theorem dueAt_places (hi : b.channels[i]? = some ch) :
    dueAt ((b.places m).map (·, m)) i = [m].filter (b.isFor i ch) := by
  have hnodup : ∀ places : List Nat, places.Nodup →
      dueAt (places.map (·, m)) i = if i ∈ places then [m] else [] := by
    intro places hplaces
    induction places with
    | nil => rfl
    | cons j rest ih =>
      obtain ⟨hj, hrest⟩ := List.nodup_cons.mp hplaces
      have ih := ih hrest
      unfold dueAt at ih ⊢
      by_cases hji : j = i
      · subst hji
        simp [ih, hj]
      · simp [ih, hji, Ne.symm hji]
  rw [hnodup _ (b.nodup_places m)]
  cases hfor : b.isFor i ch m with
  | true => simp [mem_places_iff hi, hfor]
  | false => simp [mem_places_iff hi, hfor]

/-- Someone outside the library who is added gets an empty channel behind the others. -/
theorem eq_of_subscribe {name : String} {topics : List Topic}
    (h : b.subscribe name topics = .ok b') :
    b' = b.attach ⟨name, topics, [], 0, .outside true⟩ := by
  unfold subscribe at h
  cases hch : Channel.create b.capacity name topics (.outside true) with
  | error f =>
    rw [hch] at h
    cases h
  | ok ch =>
    rw [hch] at h
    cases h
    unfold Channel.create at hch
    split at hch
    · cases hch
      rfl
    · cases hch

/-- Someone outside the library is added if there is room for the channel. -/
theorem subscribe_eq_ok {name : String} {topics : List Topic}
    (hroom : b.capacity * Channel.slotBytes ≤ Channel.addressableBytes) :
    b.subscribe name topics = .ok (b.attach ⟨name, topics, [], 0, .outside true⟩) := by
  unfold subscribe Channel.create
  rw [if_pos hroom]
  rfl

/-- Every channel of a switchboard that has been put together is that of a worker or of someone
outside, and nothing has happened on it. -/
theorem Assembled.channels (h : b.Assembled) :
    b.responses = [] ∧ ∀ ch ∈ b.channels,
      (∃ name job scheduling, ch = Channel.idle name job scheduling) ∨
        ∃ name topics, ch = ⟨name, topics, [], 0, .outside true⟩ := by
  induction h with
  | empty capacity => exact ⟨rfl, fun ch hch => absurd hch List.not_mem_nil⟩
  | spawn _ hspawn ih =>
    obtain ⟨hresponses, hchannels⟩ := ih
    rw [eq_of_spawn hspawn]
    refine ⟨hresponses, fun ch hch => ?_⟩
    rcases List.mem_append.mp hch with hch | hch
    · exact hchannels ch hch
    · exact .inl ⟨_, _, _, List.mem_singleton.mp hch⟩
  | subscribe _ hsubscribe ih =>
    obtain ⟨hresponses, hchannels⟩ := ih
    rw [eq_of_subscribe hsubscribe]
    refine ⟨hresponses, fun ch hch => ?_⟩
    rcases List.mem_append.mp hch with hch | hch
    · exact hchannels ch hch
    · exact .inr ⟨_, _, List.mem_singleton.mp hch⟩

/-- Nothing has been sent on a channel of a switchboard that has just been put together, and a worker
subscribes to the topics of its job and has nothing queued. -/
theorem Assembled.fresh (h : b.Assembled) (hch : ch ∈ b.channels) :
    ch.inbox = [] ∧ ch.sent = 0 ∧ ∀ a : ActiveWorker, ch.subscriber = .worker a →
      ch.topics = workerTopics a.job ∧ ∀ c, a.worker.queue.contains c = false := by
  rcases h.channels.2 ch hch with ⟨name, job, scheduling, rfl⟩ | ⟨name, topics, rfl⟩
  · refine ⟨rfl, rfl, fun a ha => ?_⟩
    cases ha
    exact ⟨rfl, fun c => Std.TreeMap.contains_emptyc⟩
  · refine ⟨rfl, rfl, fun a ha => ?_⟩
    cases ha

namespace Carries

/-- **Nothing has been delivered at the start.** -/
theorem start (h : b.Assembled) : Carries [] [] b := by
  obtain ⟨hresponses, -⟩ := h.channels
  constructor
  case delivered =>
    intro i ch hi
    obtain ⟨hinbox, -⟩ := h.fresh (List.mem_of_getElem? hi)
    simp [deliveredAt, readAt, dueAt, published, hinbox]
  case sent =>
    intro i ch hi
    obtain ⟨hinbox, hsent, -⟩ := h.fresh (List.mem_of_getElem? hi)
    simp [deliveredAt, readAt, hinbox, hsent]
  case answered => exact hresponses
  case routed =>
    intro m hm
    exact absurd hm List.not_mem_nil
  case topics =>
    intro i ch a hi ha
    obtain ⟨-, -, hworker⟩ := h.fresh (List.mem_of_getElem? hi)
    exact (hworker a ha).1
  case queued =>
    intro i ch a hi ha c hc
    obtain ⟨-, -, hworker⟩ := h.fresh (List.mem_of_getElem? hi)
    rw [(hworker a ha).2 c] at hc
    cases hc

/-- **One channel changes**: the books stay in order if they are in order for this channel. -/
theorem swap (h : Carries log due b) (hi : b.channels[i]? = some ch)
    (htopics : ch'.topics = ch.topics) {out : List Message}
    (hpublished : published entries = []) (htaken : takenFrom entries = [])
    (hresponded : responded entries = out)
    (hothers : ∀ j, j ≠ i → readAt entries j = [] ∧ dueAt due' j = dueAt due j)
    (hdelivered : readAt entries i ++ ch'.inbox ++ dueAt due' i = ch.inbox ++ dueAt due i)
    (hsent : ch'.sent + ch.inbox.length = ch.sent + (readAt entries i ++ ch'.inbox).length)
    (hworker : ∀ a', ch'.subscriber = .worker a' → ∃ a, ch.subscriber = .worker a ∧
      a'.job = a.job ∧ ∀ c, a'.worker.queue.contains c = true →
        b.placeFor? a.job.service.topic c = some i) :
    Carries (log ++ entries) due' (b.swap i ch' out) := by
  have hsame := topics_swap hi htopics out
  constructor
  case delivered =>
    intro j x hj
    rcases getElem?_swap hi hj with ⟨rfl, rfl⟩ | ⟨hji, hj'⟩
    · have hold := h.delivered j ch hi
      unfold deliveredAt at hold ⊢
      rw [isFor_congr hsame htopics, published_append, hpublished, List.append_nil, ← hold,
        readAt_append, List.append_assoc, List.append_assoc, List.append_assoc, ← hdelivered,
        List.append_assoc]
    · obtain ⟨hread, hdue⟩ := hothers j hji
      have hold := h.delivered j x hj'
      unfold deliveredAt at hold ⊢
      rw [isFor_congr hsame rfl, published_append, hpublished, List.append_nil, ← hold,
        readAt_append, hread, hdue, List.append_nil]
  case sent =>
    intro j x hj
    rcases getElem?_swap hi hj with ⟨rfl, rfl⟩ | ⟨hji, hj'⟩
    · have hold := h.sent j ch hi
      unfold deliveredAt at hold ⊢
      simp only [readAt_append, List.length_append] at hold hsent ⊢
      omega
    · have hold := h.sent j x hj'
      unfold deliveredAt at hold ⊢
      rw [readAt_append, (hothers j hji).1, List.append_nil]
      exact hold
  case answered =>
    rw [takenFrom_append, htaken, List.append_nil, responded_append, hresponded, ← h.answered,
      List.append_assoc]
    rfl
  case routed =>
    intro m hm hrequest
    rw [published_append, hpublished, List.append_nil] at hm
    rw [route?_congr hsame]
    exact h.routed m hm hrequest
  case topics =>
    intro j x a hj ha
    rcases getElem?_swap hi hj with ⟨rfl, rfl⟩ | ⟨-, hj'⟩
    · obtain ⟨a₀, ha₀, hjob, -⟩ := hworker a ha
      rw [htopics, h.topics j ch a₀ hi ha₀, hjob]
    · exact h.topics j x a hj' ha
  case queued =>
    intro j x a hj ha c hc
    rw [placeFor?_congr hsame]
    rcases getElem?_swap hi hj with ⟨rfl, rfl⟩ | ⟨-, hj'⟩
    · obtain ⟨a₀, ha₀, hjob, hqueued⟩ := hworker a ha
      rw [hjob]
      exact hqueued c hc
    · exact h.queued j x a hj' ha c hc

/-- A message that is published is added to what is to be sent, in all its places. -/
theorem address (h : Carries log [] b)
    (hroute : m.topic.isRequest = true → b.route? m ≠ none) (hm : m.topic.isResponse = false) :
    Carries (log ++ [.published m]) ((b.places m).map (·, m)) b := by
  constructor
  case delivered =>
    intro i ch hi
    have hold := h.delivered i ch hi
    rw [show dueAt [] i = [] from rfl, List.append_nil] at hold
    rw [published_append, List.filter_append, ← hold, dueAt_places hi]
    simp [deliveredAt, readAt, published]
  case sent =>
    intro i ch hi
    have hold := h.sent i ch hi
    simpa [deliveredAt, readAt] using hold
  case answered => simpa [takenFrom, responded, hm] using h.answered
  case routed =>
    intro m' hm' hrequest
    rw [published_append, List.mem_append] at hm'
    rcases hm' with hm' | hm'
    · exact h.routed m' hm' hrequest
    · cases List.mem_singleton.mp hm'
      exact hroute hrequest
  case topics => exact h.topics
  case queued => exact h.queued

/-- A response is for no channel. -/
theorem respond (h : Carries log [] b) (hm : m.topic.isResponse = true) :
    Carries (log ++ [.published m]) [] (b.respond m) := by
  constructor
  case delivered =>
    intro i ch hi
    have hold := h.delivered i ch hi
    have hfor : b.isFor i ch m = false := isFor_of_isResponse hm
    have hsame : (b.respond m).isFor i ch = b.isFor i ch := isFor_congr rfl rfl i
    rw [hsame, published_append, List.filter_append, ← hold]
    simp [deliveredAt, readAt, published, hfor]
  case sent =>
    intro i ch hi
    simpa [deliveredAt, readAt] using h.sent i ch hi
  case answered =>
    have hold := h.answered
    rw [takenFrom_append, responded_append, ← hold, List.append_assoc]
    simp [takenFrom, responded, hm, Switchboard.respond]
  case routed =>
    intro m' hm' hrequest
    rw [published_append, List.mem_append] at hm'
    rcases hm' with hm' | hm'
    · exact h.routed m' hm' hrequest
    · cases List.mem_singleton.mp hm'
      rw [(class_of_isResponse hm).1] at hrequest
      cases hrequest
  case topics => exact h.topics
  case queued => exact h.queued

/-- What is sent is delivered instead of due. -/
theorem send {rest : List (Nat × Message)} (h : Carries log ((i, m) :: rest) b)
    (hsent : b.sendTo i m = (b', .ok ())) : Carries log rest b' := by
  obtain ⟨ch, hi, -, rfl⟩ := sendTo_eq_ok hsent
  rw [← List.append_nil log]
  refine h.swap hi ?_ rfl rfl rfl (fun j hji => ?_) ?_ ?_ fun a ha => ?_
  · rfl
  · simp [dueAt, readAt, Ne.symm hji]
  · simp [dueAt, readAt]
  · simp [readAt]
    omega
  · exact ⟨a, ha, rfl, h.queued i ch a hi ha⟩

/-- What is read has been delivered before, and so what a worker queues is routed to it. -/
theorem turn (h : Carries log due b) (turn : Turn) (i : Nat) :
    Carries (log ++ b.incidents i turn) due (b.advance i turn.run) := by
  unfold incidents
  cases hi : b.channels[i]? with
  | none =>
    rw [advance_of_none hi]
    simpa using h
  | some ch =>
    have hgoes := turn.goes ch
    rw [advance_eq hi]
    have hread : ∀ j, readAt ((turn.reads ch).map (.read i) ++ (turn.run ch).2.map .answered) j =
        if i = j then turn.reads ch else [] := by
      intro j
      by_cases hij : i = j
      · simp [readAt, hij, List.filterMap_map]
      · simp [readAt, hij, List.filterMap_map]
    refine h.swap hi hgoes.topics ?_ ?_ ?_ (fun j hji => ?_) ?_ ?_ fun a' ha' => ?_
    · simp [published]
    · simp [takenFrom]
    · simp [responded]
    · exact ⟨by rw [hread, if_neg (Ne.symm hji)], rfl⟩
    · rw [hread, if_pos rfl, ← hgoes.inbox]
    · rw [hread, if_pos rfl, ← hgoes.inbox, hgoes.sent]
    · obtain ⟨a, ha, hbecomes⟩ := hgoes.worker a' ha'
      refine ⟨a, ha, hbecomes.job, fun c hc => ?_⟩
      rcases hbecomes.contains c hc with hold | ⟨m, hm, htopic, hcoords⟩
      · exact h.queued i ch a hi ha c hold
      · have hinbox : m ∈ ch.inbox := by
          rw [hgoes.inbox]
          exact List.mem_append_left _ hm
        have hdelivered : m ∈ (published log).filter (b.isFor i ch) := by
          rw [← h.delivered i ch hi]
          exact List.mem_append_left _ (List.mem_append_right _ hinbox)
        have hfor := (List.mem_filter.mp hdelivered).2
        have hrequest : m.topic.isRequest = true := by
          rw [htopic]
          exact a.job.isRequest_topic
        have hroute : b.route? m = some i := by
          simpa [isFor, hrequest, (class_of_isRequest hrequest).2] using hfor
        rw [← htopic, ← route?_eq hcoords]
        exact hroute

theorem take (h : Carries log due b) (htake : b.takeResponse = (some m, b')) :
    Carries (log ++ [.taken m]) due b' := by
  unfold takeResponse at htake
  split at htake
  · cases htake
  · next m' rest hresponses =>
    cases htake
    constructor
    case delivered =>
      intro i ch hi
      have hold := h.delivered i ch hi
      have hsame : ({ b with responses := rest } : Switchboard).isFor i ch = b.isFor i ch := rfl
      rw [hsame]
      simpa [deliveredAt, readAt, published] using hold
    case sent =>
      intro i ch hi
      simpa [deliveredAt, readAt] using h.sent i ch hi
    case answered =>
      have hold := h.answered
      rw [hresponses] at hold
      simpa [takenFrom, responded] using hold
    case routed =>
      intro m' hm' hrequest
      refine h.routed m' ?_ hrequest
      simpa [published] using hm'
    case topics => exact h.topics
    case queued => exact h.queued

end Carries

/-- **Every step keeps the books in order.** -/
theorem Traffic.carries (h : Traffic log due b) : Carries log due b := by
  induction h with
  | start h => exact .start h
  | respond _ hm ih => exact ih.respond hm
  | address _ hm hroute ih => exact ih.address hroute hm
  | send _ hsent ih => exact ih.send hsent
  | turn _ turn i ih => exact ih.turn turn i
  | take _ htake ih => exact ih.take htake

/-! ## 3. What the subscribers can rely on -/

/-- What the switchboard owes its subscribers and the main loop, at any moment of its traffic.  What
is still to be sent counts as delivered where messages are looked for. -/
structure Delivers (log : List Incident) (due : List (Nat × Message)) (b : Switchboard) : Prop where
  /-- In the order of publication, a channel gets the events that it subscribes to and the requests
  routed to it, and nothing else. -/
  delivered : ∀ i ch, b.channels[i]? = some ch →
    deliveredAt log i ch ++ dueAt due i =
      (published log).filter fun m =>
        m.topic.isEvent && ch.subscribes m.topic || m.topic.isRequest && b.route? m == some i
  /-- A channel counts what has been delivered to it. -/
  sent : ∀ i ch, b.channels[i]? = some ch → ch.sent = (deliveredAt log i ch).length
  /-- A published request gets to one channel, which subscribes to its topic. -/
  requested : ∀ m, .published m ∈ log → m.topic.isRequest = true →
    ∃ i ch, b.channels[i]? = some ch ∧ ch.subscribes m.topic = true ∧
      ∀ j ch', b.channels[j]? = some ch' → (m ∈ deliveredAt log j ch' ++ dueAt due j ↔ j = i)
  /-- Requests of a topic about one position get to the same channel. -/
  together : ∀ m m', .published m ∈ log → .published m' ∈ log → m.topic.isRequest = true →
    m'.topic = m.topic → m'.coords? = m.coords? → ∀ i ch, b.channels[i]? = some ch →
      (m' ∈ deliveredAt log i ch ++ dueAt due i ↔ m ∈ deliveredAt log i ch ++ dueAt due i)
  /-- Responses get to the main loop, in the order in which they were published or sent by
  workers. -/
  responses : takenFrom log ++ b.responses = responded log
  /-- No response gets to a channel. -/
  unresponsive : ∀ i ch, b.channels[i]? = some ch →
    ∀ m ∈ deliveredAt log i ch ++ dueAt due i, m.topic.isResponse = false
  /-- A request is refused for want of a subscriber exactly if there is none. -/
  refused : ∀ m : Message, m.topic.isRequest = true →
    ((b.publish m).2 = .error (.unsubscribed m.topic) ↔
      ∀ ch ∈ b.channels, ch.subscribes m.topic = false)
  /-- What somebody subscribes to is accepted, if no subscriber has hung up. -/
  accepted : ∀ m : Message,
    (∀ ch ∈ b.channels, ch.subscribes m.topic = true → ch.subscriber.isConnected = true) →
      (m.topic.isRequest = true → ∃ ch ∈ b.channels, ch.subscribes m.topic = true) →
        (b.publish m).2 = .ok ()
  /-- What is delivered to a worker can be handled, whatever the worker has received before. -/
  handled : ∀ (i : Nat) (ch : Channel) (a : ActiveWorker), b.channels[i]? = some ch →
    ch.subscriber = .worker a → ∀ m ∈ deliveredAt log i ch ++ dueAt due i,
      ∀ w : Worker a.job.Request, ∃ outcome, w.handle a.job.service m = .ok outcome
  /-- Two workers of a topic never have the same position queued. -/
  apart : ∀ (i j : Nat) (ch ch' : Channel) (a a' : ActiveWorker), b.channels[i]? = some ch →
    b.channels[j]? = some ch' → ch.subscriber = .worker a → ch'.subscriber = .worker a' → i ≠ j →
      a.job.service.topic = a'.job.service.topic →
        ∀ c, ¬(a.worker.queue.contains c = true ∧ a'.worker.queue.contains c = true)

namespace Carries

/-- What is delivered to a channel has been published and is for it. -/
theorem mem_iff (h : Carries log due b) (hi : b.channels[i]? = some ch) (m : Message) :
    m ∈ deliveredAt log i ch ++ dueAt due i ↔ .published m ∈ log ∧ b.isFor i ch m = true := by
  rw [h.delivered i ch hi, List.mem_filter]
  refine and_congr_left fun _ => ?_
  unfold published
  rw [List.mem_filterMap]
  constructor
  · rintro ⟨incident, hmem, heq⟩
    cases incident with
    | published m' =>
      cases heq
      exact hmem
    | _ => cases heq
  · intro hmem
    exact ⟨_, hmem, rfl⟩

/-- A published request is delivered where it is routed to. -/
theorem mem_iff_of_isRequest (h : Carries log due b) (hm : .published m ∈ log)
    (hrequest : m.topic.isRequest = true) (hi : b.channels[i]? = some ch) :
    m ∈ deliveredAt log i ch ++ dueAt due i ↔ b.route? m = some i := by
  rw [h.mem_iff hi]
  simp [hm, isFor, hrequest, (class_of_isRequest hrequest).2]

/-- **A worker can handle all that is for it**: its channel takes both events and the requests of its
own topic, and its job can unpack these. -/
theorem handled (h : Carries log due b) (hi : b.channels[i]? = some ch) {a : ActiveWorker}
    (ha : ch.subscriber = .worker a) (hfor : b.isFor i ch m = true)
    (w : Worker a.job.Request) : ∃ outcome, w.handle a.job.service m = .ok outcome := by
  have htopics := h.topics i ch a hi ha
  cases hrequest : m.topic.isRequest with
  | false =>
    have hevent : m.topic.isEvent = true := by
      simp only [isFor, hrequest, Bool.false_and, Bool.or_false, Bool.and_eq_true] at hfor
      exact hfor.1
    cases m with
    | viewerMoved viewer => exact ⟨_, rfl⟩
    | exit => exact ⟨_, rfl⟩
    | _ => cases hevent
  | true =>
    have hevent := (class_of_isRequest hrequest).2
    have hroute : b.route? m = some i := by simpa [isFor, hrequest, hevent] using hfor
    obtain ⟨ch', hch', hsubscribes⟩ := mem_subscribers.mp (mem_subscribers_of_route? hroute)
    rw [hi] at hch'
    cases hch'
    rw [Channel.subscribes, htopics] at hsubscribes
    have htopic := (Job.subscribes_iff hrequest).mp hsubscribes
    obtain ⟨s, hs, -⟩ := Job.exists_unpack htopic
    exact ⟨_, Worker.handle_request hevent htopic hs⟩

end Carries

/-- **Delivery.**  At any moment of any traffic the switchboard has given its subscribers, and the
main loop, what it owes them. -/
theorem Traffic.delivers (h : Traffic log due b) : Delivers log due b := by
  have hc := h.carries
  constructor
  case delivered => exact hc.delivered
  case sent => exact hc.sent
  case requested =>
    intro m hm hrequest
    have hroute : b.route? m ≠ none := by
      refine hc.routed m ?_ hrequest
      exact List.mem_filterMap.mpr ⟨_, hm, rfl⟩
    obtain ⟨i, hi⟩ := Option.ne_none_iff_exists'.mp hroute
    obtain ⟨ch, hch, hsubscribes⟩ := mem_subscribers.mp (mem_subscribers_of_route? hi)
    refine ⟨i, ch, hch, hsubscribes, fun j ch' hj => ?_⟩
    rw [hc.mem_iff_of_isRequest hm hrequest hj, hi, Option.some_inj]
    exact eq_comm
  case together =>
    intro m m' hm hm' hrequest htopic hcoords i ch hi
    rw [hc.mem_iff_of_isRequest hm' (htopic ▸ hrequest) hi, hc.mem_iff_of_isRequest hm hrequest hi,
      route?_eq_of_coords? htopic hcoords]
  case responses => exact hc.answered
  case unresponsive =>
    intro i ch hi m hm
    have hfor := ((hc.mem_iff hi m).mp hm).2
    rw [← Bool.not_eq_true]
    intro hresponse
    rw [isFor_of_isResponse hresponse] at hfor
    cases hfor
  case refused =>
    intro m hrequest
    exact publish_unsubscribed_iff hrequest
  case accepted =>
    intro m
    exact publish_eq_ok
  case handled =>
    intro i ch a hi ha m hm w
    exact hc.handled hi ha ((hc.mem_iff hi m).mp hm).2 w
  case apart =>
    intro i j ch ch' a a' hi hj ha ha' hij htopic c hqueued
    -- both workers would be at the place that the position is routed to
    have hplace := hc.queued i ch a hi ha c hqueued.1
    have hplace' := hc.queued j ch' a' hj ha' c hqueued.2
    rw [← htopic, hplace] at hplace'
    exact hij (Option.some_inj.mp hplace')

/-- A worker that generates chunks, and an observer of chunk requests and of the viewer. -/
def junction : Switchboard :=
  ((empty 4).attach (.idle "generator" (.generate (Engine.terrain {})) (Engine.scheduling {}))).attach
    ⟨"observer", [.chunkRequest, .viewerMoved], [], 0, .outside true⟩

/-- The generator hears of a move, and reads the message before the observer is told.  Then a chunk
is asked for. -/
def junctionLog : List Incident :=
  [.published (.viewerMoved .zero), .read 0 (.viewerMoved .zero),
    .published (.chunkRequest .zero false)]

/-- The switchboard when all this has happened. -/
def junctionLater : Switchboard :=
  let heard := (junction.sendTo 0 (.viewerMoved .zero)).1.advance 0 Channel.receive
  let told := (heard.sendTo 1 (.viewerMoved .zero)).1
  (told.publish (.chunkRequest .zero false)).1

theorem assembled_junction : junction.Assembled := by
  have hspawn : (empty 4).spawn "generator" (.generate (Engine.terrain {})) (Engine.scheduling {}) =
      .ok ((empty 4).attach _) := spawn_eq_ok (by decide) (by decide +kernel)
  exact .subscribe (.spawn (.empty 4) hspawn) (subscribe_eq_ok (by decide))

theorem traffic_junction : Traffic junctionLog [] junctionLater := by
  have hmoved := (Traffic.start assembled_junction).address (m := .viewerMoved .zero) rfl nofun
  have hsent : Traffic _ [(1, .viewerMoved .zero)] _ := Traffic.send (i := 0) hmoved rfl
  have hread := hsent.turn .receive 0
  have htold : Traffic _ [] _ := hread.send rfl
  exact htold.publish (m := .chunkRequest .zero false) rfl

theorem junction_delivers :
    Traffic junctionLog [] junctionLater ∧ Delivers junctionLog [] junctionLater :=
  ⟨traffic_junction, traffic_junction.delivers⟩

end Switchboard

end Blockworld
