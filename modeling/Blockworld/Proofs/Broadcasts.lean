/-
# Who hears of an event

An event is for everyone who subscribes to it.  It is sent to one channel after the other, and the
first that has hung up ends the broadcast.  So publishing hands a copy to each of the subscribers in
front of the first one that has hung up, and to nobody behind it (`publish_event`).

* Who is served is decided by the order of the channels alone: a subscriber is reached exactly if
  everyone up to and including it is still there (`mem_reached_iff`).
* An event misses nobody who is still there exactly if those who have hung up all stand behind those
  who have not (`publish_event_exact`).  Two subscribers of which the first has hung up are the
  smallest board on which it misses one (`not_reachesAll_listeners`).
* The exit at shutdown is announced to the same channels and goes on past those who have hung up.
  Nobody is missed (`announceExit_eq`).

Both ways of sending come down to `Switchboard.handOut`, which adds the message to the inboxes at a
list of places.  Handing out does not change who is connected, so the list of those who are served
can be read off the board as it was before.
-/
import Blockworld.Proofs.Places

namespace Blockworld

/-- The channel with one more message in its inbox. -/
def Channel.accept (c : Channel) (m : Message) : Channel :=
  { c with inbox := c.inbox ++ [m], sent := c.sent + 1 }

/-- A channel with one more message is another one. -/
theorem Channel.accept_ne (c : Channel) (m : Message) : c.accept m ≠ c := by
  intro h
  have hsent : c.sent + 1 = c.sent := congrArg Channel.sent h
  omega

namespace Switchboard

variable {b : Switchboard} {m : Message} {t : Topic} {i : Nat} {ch : Channel} {places : List Nat}

/-! ## 1. Handing out -/

/-- Whether the channel at a place is still read. -/
def isConnectedAt (b : Switchboard) (i : Nat) : Bool :=
  (b.channels[i]?.map (·.subscriber.isConnected)).getD false

theorem isConnectedAt_of_getElem? (hi : b.channels[i]? = some ch) :
    b.isConnectedAt i = ch.subscriber.isConnected := by
  rw [isConnectedAt, hi]
  rfl

/-- The board with a copy of the message in each of the inboxes at some places. -/
def handOut (b : Switchboard) (m : Message) (places : List Nat) : Switchboard :=
  { b with channels := b.channels.mapIdx fun i ch => if i ∈ places then ch.accept m else ch }

theorem getElem?_handOut (b : Switchboard) (m : Message) (places : List Nat) (i : Nat) :
    (b.handOut m places).channels[i]? =
      b.channels[i]?.map fun ch => if i ∈ places then ch.accept m else ch :=
  List.getElem?_mapIdx

/-- A board with the same copies handed out is the same board. -/
theorem eq_handOut (channels : List Channel)
    (h : ∀ i, channels[i]? = b.channels[i]?.map fun ch => if i ∈ places then ch.accept m else ch) :
    ({ b with channels := channels } : Switchboard) = b.handOut m places := by
  have hsame : channels = (b.handOut m places).channels := by
    apply List.ext_getElem?
    intro i
    rw [h, getElem?_handOut]
  rw [hsame]
  rfl

@[simp] theorem handOut_nil : b.handOut m [] = b := by
  symm
  exact eq_handOut b.channels (by simp)

/-- Whoever is there stays there. -/
@[simp] theorem isConnectedAt_handOut : (b.handOut m places).isConnectedAt = b.isConnectedAt := by
  funext i
  unfold isConnectedAt
  rw [getElem?_handOut]
  cases b.channels[i]? with
  | none => rfl
  | some ch =>
    simp only [Option.map_some, Option.getD_some]
    split <;> rfl

/-- Handing out at one place and then at others. -/
theorem handOut_handOut (hi : i ∉ places) :
    (b.handOut m [i]).handOut m places = b.handOut m (i :: places) := by
  refine eq_handOut (b := b) _ fun j => ?_
  rw [List.getElem?_mapIdx, getElem?_handOut, Option.map_map]
  congr 1
  funext ch
  by_cases hj : j = i
  · subst hj
    simp [hi]
  · simp [hj]

/-- One send hands out one copy, if the channel is still read. -/
theorem sendTo_eq (b : Switchboard) (i : Nat) (m : Message) :
    b.sendTo i m =
      if b.isConnectedAt i then (b.handOut m [i], .ok ()) else (b, .error (.hungUp m.topic)) := by
  cases hi : b.channels[i]? with
  | none =>
    unfold sendTo isConnectedAt
    rw [hi]
    rfl
  | some ch =>
    rw [isConnectedAt_of_getElem? hi]
    by_cases hconnected : ch.subscriber.isConnected = true
    · rw [sendTo_of_isConnected hi hconnected, if_pos hconnected, swap, List.append_nil]
      refine congrArg (·, _) (eq_handOut _ fun j => ?_)
      by_cases hj : i = j
      · subst hj
        rw [List.getElem?_set_self (List.getElem?_eq_some_iff.mp hi).1, hi]
        simp [Channel.accept]
      · rw [List.getElem?_set_ne hj]
        simp [Ne.symm hj]
    · unfold sendTo Channel.send
      rw [hi, Option.bind_some, if_neg hconnected, if_neg hconnected]

/-! ## 2. Broadcasts -/

/-- **Sending to several places serves those in front of the first that has hung up.** -/
theorem sendToAll_eq (hnodup : places.Nodup) :
    b.sendToAll m places =
      (b.handOut m (places.takeWhile b.isConnectedAt),
        if places.all b.isConnectedAt then .ok () else .error (.hungUp m.topic)) := by
  induction places generalizing b with
  | nil => simp [sendToAll]
  | cons i rest ih =>
    obtain ⟨hi, hrest⟩ := List.nodup_cons.mp hnodup
    unfold sendToAll
    rw [sendTo_eq]
    cases hconnected : b.isConnectedAt i with
    | false => simp [hconnected]
    | true =>
      have hserved : i ∉ rest.takeWhile b.isConnectedAt :=
        fun hmem => hi ((List.takeWhile_prefix _).subset hmem)
      simp only [if_true]
      rw [ih hrest, isConnectedAt_handOut, handOut_handOut hserved,
        List.takeWhile_cons_of_pos hconnected, List.all_cons, hconnected, Bool.true_and]

/-- The places of the subscribers in front of the first one that has hung up. -/
def reached (b : Switchboard) (t : Topic) : List Nat :=
  (b.subscribers t).takeWhile b.isConnectedAt

/-- **Publishing an event serves the subscribers in front of the first that has hung up**, and fails
if there is one. -/
theorem publish_event (hm : m.topic.isEvent = true) :
    b.publish m =
      (b.handOut m (b.reached m.topic),
        if (b.subscribers m.topic).all b.isConnectedAt then .ok ()
        else .error (.hungUp m.topic)) := by
  have hresponse : m.topic.isResponse = false := by cases m <;> first | rfl | cases hm
  unfold publish
  rw [hresponse, hm]
  exact sendToAll_eq (List.Nodup.filter _ List.nodup_range)

/-- What an ascending list has in front of the first element without a property. -/
theorem mem_takeWhile_iff {l : List Nat} (hl : l.Pairwise (· < ·)) {p : Nat → Bool} :
    i ∈ l.takeWhile p ↔ i ∈ l ∧ ∀ j ∈ l, j ≤ i → p j = true := by
  induction l with
  | nil => simp
  | cons a rest ih =>
    obtain ⟨hfirst, hrest⟩ := List.pairwise_cons.mp hl
    cases ha : p a with
    | false =>
      rw [List.takeWhile_cons_of_neg (by simp [ha])]
      refine ⟨nofun, fun ⟨hi, hall⟩ => ?_⟩
      -- `a` is the least element, so it is not behind `i`
      have hle : a ≤ i := by
        rcases List.mem_cons.mp hi with rfl | hi
        · exact Nat.le_refl _
        · exact Nat.le_of_lt (hfirst i hi)
      have hholds := hall a List.mem_cons_self hle
      rw [ha] at hholds
      cases hholds
    | true =>
      rw [List.takeWhile_cons_of_pos ha, List.mem_cons, List.mem_cons, ih hrest]
      simp only [List.forall_mem_cons, ha, implies_true, true_and]
      constructor
      · rintro (rfl | ⟨hi, hall⟩)
        · exact ⟨.inl rfl, fun j hj hle => absurd (hfirst j hj) (Nat.not_lt.mpr hle)⟩
        · exact ⟨.inr hi, hall⟩
      · rintro ⟨rfl | hi, hall⟩
        · exact .inl rfl
        · exact .inr ⟨hi, hall⟩

theorem pairwise_subscribers (b : Switchboard) (t : Topic) :
    (b.subscribers t).Pairwise (· < ·) :=
  List.Pairwise.filter _ List.pairwise_lt_range

/-- **An event reaches a subscriber exactly if everyone up to it is still there.** -/
theorem mem_reached_iff :
    i ∈ b.reached t ↔
      i ∈ b.subscribers t ∧ ∀ j ∈ b.subscribers t, j ≤ i → b.isConnectedAt j = true :=
  mem_takeWhile_iff (pairwise_subscribers b t)

/-- Everyone who subscribes to the message and is still there receives one copy of it. -/
def ReachesAll (b : Switchboard) (m : Message) : Prop :=
  ∀ (i : Nat) (ch : Channel), b.channels[i]? = some ch → ch.subscribes m.topic = true →
    ch.subscriber.isConnected = true → (b.publish m).1.channels[i]? = some (ch.accept m)

/-- An event reaches all who are still there exactly if each of them is among those served. -/
theorem reachesAll_iff_forall_mem_reached (hm : m.topic.isEvent = true) :
    b.ReachesAll m ↔
      ∀ i ∈ b.subscribers m.topic, b.isConnectedAt i = true → i ∈ b.reached m.topic := by
  have hchannel {i : Nat} {ch : Channel} (hi : b.channels[i]? = some ch) :
      (b.publish m).1.channels[i]? = some (ch.accept m) ↔ i ∈ b.reached m.topic := by
    rw [publish_event hm, getElem?_handOut, hi, Option.map_some, Option.some.injEq]
    refine ⟨fun h => ?_, fun h => if_pos h⟩
    by_contra hmissed
    rw [if_neg hmissed] at h
    exact ch.accept_ne m h.symm
  constructor
  · intro h i hi hconnected
    obtain ⟨ch, hch, hsubscribes⟩ := mem_subscribers.mp hi
    rw [isConnectedAt_of_getElem? hch] at hconnected
    exact (hchannel hch).mp (h i ch hch hsubscribes hconnected)
  · intro h i ch hch hsubscribes hconnected
    rw [← isConnectedAt_of_getElem? hch] at hconnected
    exact (hchannel hch).mpr (h i (mem_subscribers.mpr ⟨ch, hch, hsubscribes⟩) hconnected)

/-- **What publishing an event does.**  Each channel receives one copy if it is one of those that
the event reaches, and is left alone if not.  Nobody who is still there is missed exactly if all
those who have hung up stand behind those who have not. -/
theorem publish_event_exact (b : Switchboard) (m : Message) (hm : m.topic.isEvent = true) :
    (∀ (i : Nat) (ch : Channel), b.channels[i]? = some ch →
      (b.publish m).1.channels[i]? =
        some (if i ∈ b.reached m.topic then ch.accept m else ch)) ∧
    ((b.publish m).2 = .ok () ∨ (b.publish m).2 = .error (.hungUp m.topic)) ∧
    ((b.publish m).2 = .ok () ↔
      ∀ i ∈ b.subscribers m.topic, b.isConnectedAt i = true) ∧
    (b.ReachesAll m ↔
      ∀ i ∈ b.subscribers m.topic, ∀ j ∈ b.subscribers m.topic, i < j →
        b.isConnectedAt j = true → b.isConnectedAt i = true) := by
  refine ⟨fun i ch hi => ?_, ?_, ?_, ?_⟩
  · rw [publish_event hm, getElem?_handOut, hi, Option.map_some]
  · rw [publish_event hm]
    dsimp only
    split
    · exact .inl rfl
    · exact .inr rfl
  · rw [publish_event hm, ← List.all_eq_true]
    dsimp only
    split
    · next hall => exact iff_of_true rfl hall
    · next hall => exact iff_of_false nofun hall
  · simp only [reachesAll_iff_forall_mem_reached hm, mem_reached_iff]
    constructor
    · intro h i hi j hj hlt hconnected
      exact (h j hj hconnected).2 i hi (Nat.le_of_lt hlt)
    · intro h i hi hconnected
      refine ⟨hi, fun j hj hle => ?_⟩
      rcases Nat.eq_or_lt_of_le hle with rfl | hlt
      · exact hconnected
      · exact h j hj i hi hlt hconnected

/-- Two listeners to the viewer. -/
def listeners : Switchboard where
  capacity := 8
  channels :=
    [⟨"first", [.exit, .viewerMoved], [], 0, .outside true⟩,
      ⟨"second", [.exit, .viewerMoved], [], 0, .outside true⟩]
  responses := []

/-- If the second listener has hung up, both have been served when that is noticed. -/
theorem reachesAll_listeners :
    (Message.viewerMoved .zero).topic.isEvent = true ∧
      (listeners.hangUp 1).ReachesAll (.viewerMoved .zero) ∧
      ((listeners.hangUp 1).publish (.viewerMoved .zero)).2 = .error (.hungUp .viewerMoved) := by
  obtain ⟨-, -, -, hall⟩ := publish_event_exact (listeners.hangUp 1) (.viewerMoved .zero) rfl
  exact ⟨rfl, hall.mpr (by decide), rfl⟩

/-- **An event can miss someone who is still there.**  If the first listener has hung up, the second
one gets nothing. -/
theorem not_reachesAll_listeners :
    (listeners.hangUp 0).isConnectedAt 1 = true ∧
      ((listeners.hangUp 0).publish (.viewerMoved .zero)).1.channels[1]?.map Channel.inbox =
        some [] ∧
      ¬(listeners.hangUp 0).ReachesAll (.viewerMoved .zero) := by
  have hempty : ((listeners.hangUp 0).publish (.viewerMoved .zero)).1.channels[1]?.map
      Channel.inbox = some [] := rfl
  refine ⟨rfl, hempty, fun h => ?_⟩
  rw [h 1 _ rfl rfl rfl] at hempty
  cases hempty

/-! ## 3. The exit at shutdown -/

/-- Sends of which the failures are passed over serve everyone who is still there. -/
theorem foldl_sendTo (hnodup : places.Nodup) :
    places.foldl (fun b i => (b.sendTo i m).1) b =
      b.handOut m (places.filter b.isConnectedAt) := by
  induction places generalizing b with
  | nil => simp
  | cons i rest ih =>
    obtain ⟨hi, hrest⟩ := List.nodup_cons.mp hnodup
    rw [List.foldl_cons, ih hrest, sendTo_eq]
    cases hconnected : b.isConnectedAt i with
    | false => simp [hconnected]
    | true =>
      have hserved : i ∉ rest.filter b.isConnectedAt := fun hmem => hi (List.mem_filter.mp hmem).1
      simp only [if_true]
      rw [isConnectedAt_handOut, handOut_handOut hserved, List.filter_cons_of_pos hconnected]

/-- **The exit at shutdown misses nobody**: it goes to every subscriber that is still there, in front
of those who have hung up and behind them. -/
theorem announceExit_eq (b : Switchboard) :
    b.announceExit = b.handOut .exit ((b.subscribers .exit).filter b.isConnectedAt) :=
  foldl_sendTo (List.Nodup.filter _ List.nodup_range)

end Switchboard

end Blockworld
