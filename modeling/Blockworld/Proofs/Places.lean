/-
# Where a message goes

Apart from responses, which go to the inbox of the main loop, publishing a message is sending it to
one place after the other: an event to all who subscribe to it, a request to the place it is routed
to (`Switchboard.places`, `publish_eq_sendToAll`).  A place is on the list if and only if the message
is for its channel (`mem_places_iff`), and it is on the list once.

Sending to one place adds the message to one inbox and counts it there (`sendTo_eq_ok`).  Neither
this nor anything that subscribers do changes the topics of a channel, and the places depend on the
topics alone (`places_congr`), so the list that is made when a message is published stays right
until the last send is done.
-/
import Blockworld.Proofs.Routing

namespace Blockworld

namespace Switchboard

variable {b b' : Switchboard} {m : Message} {i : Nat} {ch ch' : Channel}

/-! ## 1. The places of a message -/

/-- The places that a message is sent to, one after the other.  A response is sent to none. -/
def places (b : Switchboard) (m : Message) : List Nat :=
  if m.topic.isResponse then []
  else if m.topic.isEvent then b.subscribers m.topic
  else (b.route? m).toList

/-- Whether a message is for the channel at a place: an event that the channel subscribes to, or a
request that is routed there. -/
def isFor (b : Switchboard) (i : Nat) (ch : Channel) (m : Message) : Bool :=
  m.topic.isEvent && ch.subscribes m.topic || m.topic.isRequest && b.route? m == some i

/-- A request is of no other class. -/
theorem class_of_isRequest (hm : m.topic.isRequest = true) :
    m.topic.isResponse = false ∧ m.topic.isEvent = false := by
  cases m <;> first | exact ⟨rfl, rfl⟩ | cases hm

/-- A response is of no other class. -/
theorem class_of_isResponse (hm : m.topic.isResponse = true) :
    m.topic.isRequest = false ∧ m.topic.isEvent = false := by
  cases m <;> first | exact ⟨rfl, rfl⟩ | cases hm

/-- A message that is no response is an event or a request. -/
theorem class_of_not_isResponse (hm : m.topic.isResponse = false) :
    m.topic.isEvent = !m.topic.isRequest := by
  cases m <;> first | rfl | cases hm

/-- A response is for no channel. -/
theorem isFor_of_isResponse (hm : m.topic.isResponse = true) : b.isFor i ch m = false := by
  simp [isFor, class_of_isResponse hm]

/-- The route of a message is the place of a channel that subscribes to its topic. -/
theorem mem_subscribers_of_route? (h : b.route? m = some i) : i ∈ b.subscribers m.topic :=
  List.mem_of_getElem? h

/-- **A message is sent to the channels that it is for.** -/
theorem mem_places_iff (hi : b.channels[i]? = some ch) :
    i ∈ b.places m ↔ b.isFor i ch m = true := by
  have hsubscriber : i ∈ b.subscribers m.topic ↔ ch.subscribes m.topic = true := by
    rw [mem_subscribers, hi]
    simp
  cases hresponse : m.topic.isResponse with
  | true => simp [places, hresponse, isFor_of_isResponse hresponse]
  | false =>
    have hclass := class_of_not_isResponse hresponse
    cases hrequest : m.topic.isRequest with
    | true => simp [places, isFor, hresponse, hclass, hrequest]
    | false => simp [places, isFor, hresponse, hclass, hrequest, hsubscriber]

/-- **No message is sent twice to one place.** -/
theorem nodup_places (b : Switchboard) (m : Message) : (b.places m).Nodup := by
  unfold places
  split
  · exact List.nodup_nil
  · split
    · exact List.Nodup.filter _ List.nodup_range
    · cases b.route? m <;> simp

/-- Where a request goes depends on its topic and its position. -/
theorem route?_eq_of_coords? {m' : Message} (htopic : m'.topic = m.topic)
    (hcoords : m'.coords? = m.coords?) : b.route? m' = b.route? m := by
  unfold route?
  rw [htopic, hcoords]

section Congr

variable (h : b'.channels.map Channel.topics = b.channels.map Channel.topics)

include h

theorem route?_congr (m : Message) : b'.route? m = b.route? m := by
  unfold route?
  rw [subscribers_congr h]

/-- **The places depend on the topics of the channels only.** -/
theorem places_congr (m : Message) : b'.places m = b.places m := by
  unfold places
  rw [subscribers_congr h, route?_congr h]

end Congr

/-! ## 2. Publishing in single sends -/

/-- A message that is sent has been added to one inbox, and counted. -/
theorem sendTo_eq_ok (h : b.sendTo i m = (b', .ok ())) :
    ∃ ch, b.channels[i]? = some ch ∧ ch.subscriber.isConnected = true ∧
      b' = b.swap i { ch with inbox := ch.inbox ++ [m], sent := ch.sent + 1 } [] := by
  unfold sendTo at h
  split at h
  · next ch' hch' =>
    cases h
    obtain ⟨ch, hi, hsend⟩ := Option.bind_eq_some_iff.mp hch'
    unfold Channel.send at hsend
    split at hsend
    · next hconnected =>
      cases hsend
      refine ⟨ch, hi, hconnected, ?_⟩
      rw [swap, List.append_nil]
    · cases hsend
  · cases h

/-- The channels after one has been replaced. -/
theorem getElem?_swap {out : List Message} {j : Nat} {x : Channel} (hi : b.channels[i]? = some ch)
    (hj : (b.swap i ch' out).channels[j]? = some x) :
    j = i ∧ x = ch' ∨ j ≠ i ∧ b.channels[j]? = some x := by
  have hlt := (List.getElem?_eq_some_iff.mp hi).1
  rw [swap] at hj
  by_cases hij : i = j
  · subst hij
    rw [List.getElem?_set_self hlt] at hj
    cases hj
    exact .inl ⟨rfl, rfl⟩
  · rw [List.getElem?_set_ne hij] at hj
    exact .inr ⟨Ne.symm hij, hj⟩

/-- A message can be sent to whoever is still there. -/
theorem sendTo_of_isConnected (hi : b.channels[i]? = some ch)
    (hconnected : ch.subscriber.isConnected = true) (m : Message) :
    b.sendTo i m =
      (b.swap i { ch with inbox := ch.inbox ++ [m], sent := ch.sent + 1 } [], .ok ()) := by
  unfold sendTo Channel.send
  rw [hi, Option.bind_some, if_pos hconnected, swap, List.append_nil]

/-- A response is published into the inbox of the main loop. -/
theorem publish_response (hm : m.topic.isResponse = true) :
    b.publish m = (b.respond m, .ok ()) := by
  unfold publish
  rw [if_pos hm]

/-- A request has no route exactly if nobody subscribes to its topic. -/
theorem route?_eq_none_iff : b.route? m = none ↔ ∀ ch ∈ b.channels, ch.subscribes m.topic = false := by
  have hnone : b.route? m = none ↔ b.subscribers m.topic = [] := by
    constructor
    · intro hroute
      by_contra hsome
      obtain ⟨j, hj⟩ := exists_getElem?_mod hsome
        ((m.coords?.map ChunkPos.fingerprint).getD 0).toNat
      unfold route? at hroute
      rw [hj] at hroute
      cases hroute
    · intro hempty
      unfold route?
      rw [hempty]
      rfl
  rw [hnone, List.eq_nil_iff_forall_not_mem]
  constructor
  · intro h ch hch
    obtain ⟨j, hj⟩ := List.mem_iff_getElem?.mp hch
    rw [← Bool.not_eq_true]
    intro hsubscribes
    exact h j (mem_subscribers.mpr ⟨ch, hj, hsubscribes⟩)
  · intro h j hj
    obtain ⟨ch, hch, hsubscribes⟩ := mem_subscribers.mp hj
    rw [h ch (List.mem_of_getElem? hch)] at hsubscribes
    cases hsubscribes

/-- **Publishing is sending to one place after the other**, for all but responses and requests that
nobody subscribes to. -/
theorem publish_eq_sendToAll (hm : m.topic.isResponse = false)
    (hroute : m.topic.isRequest = true → b.route? m ≠ none) :
    b.publish m = b.sendToAll m (b.places m) := by
  have hclass := class_of_not_isResponse hm
  unfold publish places
  rw [hm]
  simp only [Bool.false_eq_true, if_false]
  split
  · rfl
  · next hevent =>
    rw [Bool.not_eq_true] at hevent
    have hrequest : m.topic.isRequest = true := by simpa [hevent] using hclass
    cases hplace : b.route? m with
    | none => exact absurd hplace (hroute hrequest)
    | some i =>
      simp only [Option.toList_some, sendToAll]
      split <;> next hsent => exact hsent

/-- Sending fails only because someone has hung up. -/
theorem sendToAll_ne_unsubscribed {places : List Nat} :
    (b.sendToAll m places).2 ≠ .error (.unsubscribed m.topic) := by
  induction places generalizing b with
  | nil => nofun
  | cons i rest ih =>
    unfold sendToAll
    split
    · exact ih
    · next b' e hsent =>
      unfold sendTo at hsent
      split at hsent
      · cases hsent
      · cases hsent
        nofun

/-- **A request is refused for want of a subscriber exactly if nobody subscribes to its topic.** -/
theorem publish_unsubscribed_iff (hm : m.topic.isRequest = true) :
    (b.publish m).2 = .error (.unsubscribed m.topic) ↔
      ∀ ch ∈ b.channels, ch.subscribes m.topic = false := by
  obtain ⟨hresponse, hevent⟩ := class_of_isRequest hm
  rw [← route?_eq_none_iff]
  constructor
  · intro h
    by_contra hroute
    rw [publish_eq_sendToAll hresponse fun _ => hroute] at h
    exact sendToAll_ne_unsubscribed h
  · intro hroute
    unfold publish
    simp [hresponse, hevent, hroute]

/-- Sending succeeds at places where all are still there. -/
theorem sendToAll_eq_ok {places : List Nat}
    (h : ∀ i ∈ places, ∃ ch, b.channels[i]? = some ch ∧ ch.subscriber.isConnected = true) :
    (b.sendToAll m places).2 = .ok () := by
  induction places generalizing b with
  | nil => rfl
  | cons i rest ih =>
    obtain ⟨ch, hi, hconnected⟩ := h i List.mem_cons_self
    unfold sendToAll
    rw [sendTo_of_isConnected hi hconnected]
    refine ih fun j hj => ?_
    obtain ⟨ch', hch', hconnected'⟩ := h j (List.mem_cons_of_mem _ hj)
    have hlt := (List.getElem?_eq_some_iff.mp hi).1
    by_cases hij : i = j
    · subst hij
      exact ⟨_, List.getElem?_set_self hlt, hconnected⟩
    · exact ⟨ch', by rw [swap, List.getElem?_set_ne hij, hch'], hconnected'⟩

/-- **What somebody subscribes to is accepted**, if none of the subscribers has hung up.  Events need
no subscriber. -/
theorem publish_eq_ok
    (hconnected : ∀ ch ∈ b.channels, ch.subscribes m.topic = true →
      ch.subscriber.isConnected = true)
    (hsubscribed : m.topic.isRequest = true → ∃ ch ∈ b.channels, ch.subscribes m.topic = true) :
    (b.publish m).2 = .ok () := by
  cases hm : m.topic.isResponse with
  | true => rw [publish_response hm]
  | false =>
    have hroute : m.topic.isRequest = true → b.route? m ≠ none := by
      intro hrequest hnone
      obtain ⟨ch, hch, hsubscribes⟩ := hsubscribed hrequest
      rw [route?_eq_none_iff.mp hnone ch hch] at hsubscribes
      cases hsubscribes
    rw [publish_eq_sendToAll hm hroute]
    refine sendToAll_eq_ok fun i hi => ?_
    have hmem : i ∈ b.subscribers m.topic := by
      unfold places at hi
      rw [hm] at hi
      simp only [Bool.false_eq_true, if_false] at hi
      split at hi
      · exact hi
      · exact mem_subscribers_of_route? (Option.mem_toList.mp hi)
    obtain ⟨ch, hch, hsubscribes⟩ := mem_subscribers.mp hmem
    exact ⟨ch, hch, hconnected ch (List.mem_of_getElem? hch) hsubscribes⟩

end Switchboard

end Blockworld
