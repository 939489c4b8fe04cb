/-
# Payloads

Work that goes into a queue comes out of it once, with the payload it should have.  The log of a
session tells for every position what happened to it:

* it was queued anew, by distance or by a promotion (`Exchange.queues`);
* it was served (`Exchange.served?`);
* its payload was renewed (`Exchange.renewed?`): by any submission if new payloads replace old ones,
  and by promotions alone if they do not.

What a single command does to a position is one of these, or nothing (`WorkQueue.Sound.obey_cases`).
Two facts about sessions follow by induction on the commands.  A position is served as often as it
was queued anew, except that it may be queued still (`WorkQueue.Sound.balance`).  And what is served
is the payload that was renewed last since the position was queued anew
(`WorkQueue.Sound.payload_cases`).
-/
import Blockworld.Proofs.Sessions

namespace Blockworld

namespace WorkQueue

variable {α : Type} {q q' : WorkQueue α} {c : ChunkPos} {policy : OnDuplicate}

/-! ## 1. What an exchange does to a position -/

namespace Exchange

/-- The payload that work on a position was submitted with, by either command. -/
def submitted? (x : Exchange α) (c : ChunkPos) : Option α :=
  match x.command with
  | .enqueue c' a | .promote c' a => if c' = c then some a else none
  | _ => none

/-- The payload that a position was promoted with. -/
def promoted? (x : Exchange α) (c : ChunkPos) : Option α :=
  match x.command with
  | .promote c' a => if c' = c then some a else none
  | _ => none

/-- The payload that was served for a position. -/
def served? (x : Exchange α) (c : ChunkPos) : Option α :=
  match x.reply with
  | .served (some (c', a)) => if c' = c then some a else none
  | _ => none

/-- The position was queued by distance, and the reply was that it had not been queued before. -/
def enqueuedAnew (x : Exchange α) (c : ChunkPos) : Bool :=
  match x.command, x.reply with
  | .enqueue c' _, .queued fresh => decide (c' = c) && fresh
  | _, _ => false

/-- The position was promoted while it was not queued. -/
def promotedAnew (x : Exchange α) (c : ChunkPos) : Bool :=
  match x.command with
  | .promote c' _ => decide (c' = c) && !x.before.contains c
  | _ => false

/-- The position became queued. -/
def queues (x : Exchange α) (c : ChunkPos) : Bool := x.enqueuedAnew c || x.promotedAnew c

/-- The payload that takes the place of one that is queued. -/
def renewed? (x : Exchange α) (policy : OnDuplicate) (c : ChunkPos) : Option α :=
  match policy with
  | .keep => x.promoted? c
  | .replace => x.submitted? c

end Exchange

/-! ## 2. One command -/

theorem contains_eq_isSome (q : WorkQueue α) (c : ChunkPos) :
    q.contains c = q.pending[c]?.isSome := Std.TreeMap.contains_eq_isSome_getElem?

/-- The payload of a position after a submission. -/
theorem getElem?_submit (q : WorkQueue α) (s : Submission α) (c : ChunkPos) :
    (q.submit s).pending[c]? =
      if s.coords = c ∧ ¬(q.contains c = true ∧ s.urgent = false ∧ q.policy = .keep) then
        some s.request
      else q.pending[c]? := by
  rw [pending_submit]
  by_cases hc : s.coords = c
  · subst hc
    by_cases hkept : q.contains s.coords = true ∧ s.urgent = false ∧ q.policy = .keep
    · simp [hkept]
    · simp [hkept]
  · split
    · simp [hc]
    · simp [Std.TreeMap.getElem?_insert, hc]

/-- The reply to work queued by distance. -/
theorem enqueue_fst (q : WorkQueue α) (c : ChunkPos) (a : α) :
    (q.enqueue c a).1 = !q.contains c := by
  unfold enqueue
  cases q.contains c <;> cases q.policy <;> rfl

/-- All that an exchange can do to a position: queue it anew, serve it, or leave it in the queue or
out of it, where a queued one may get another payload. -/
inductive Effect (c : ChunkPos) (x : Exchange α) (next : WorkQueue α) : Prop
  | queued (hqueues : x.queues c = true) (hserved : x.served? c = none)
      (hbefore : x.before.contains c = false) (a : α) (ha : x.submitted? c = some a)
      (hnext : next.pending[c]? = some a)
  | served (hqueues : x.queues c = false) (a : α) (hserved : x.served? c = some a)
      (ha : x.before.pending[c]? = some a) (hnext : next.pending[c]? = none)
  | stayed (hqueues : x.queues c = false) (hserved : x.served? c = none)
      (hnext : next.pending[c]? =
        x.before.pending[c]?.map (x.renewed? x.before.policy c).getD)

/-- A submission queues its position anew or renews the payload, and is no concern of others. -/
theorem Effect.submit {x : Exchange α} {s : Submission α}
    (hqueues : x.queues c = (decide (s.coords = c) && !x.before.contains c))
    (hserved : x.served? c = none)
    (hsubmitted : x.submitted? c = if s.coords = c then some s.request else none)
    (hpromoted : x.promoted? c = if s.coords = c ∧ s.urgent = true then some s.request else none) :
    Effect c x (x.before.submit s) := by
  have hnext := x.before.getElem?_submit s c
  by_cases hc : s.coords = c
  · cases hcontains : x.before.contains c with
    | false =>
      refine .queued ?_ hserved hcontains s.request (by simp [hsubmitted, hc]) ?_
      · simp [hqueues, hc, hcontains]
      · simp [hnext, hc, hcontains]
    | true =>
      obtain ⟨a, ha⟩ : ∃ a, x.before.pending[c]? = some a := by
        rw [← Option.isSome_iff_exists, ← contains_eq_isSome, hcontains]
      refine .stayed (by simp [hqueues, hcontains]) hserved ?_
      rw [hnext, ha]
      unfold Exchange.renewed?
      cases x.before.policy <;> cases hurgent : s.urgent <;>
        simp [hsubmitted, hpromoted, hc, hcontains, hurgent]
  · have hnone : x.renewed? x.before.policy c = none := by
      unfold Exchange.renewed?
      cases x.before.policy <;> simp [hsubmitted, hpromoted, hc]
    refine .stayed (by simp [hqueues, hc]) hserved ?_
    rw [hnext, hnone]
    cases x.before.pending[c]? <;> simp [hc]

/-- An exchange that is about no position of the queue leaves all of them alone. -/
theorem Effect.pass {x : Exchange α} {next : WorkQueue α} (hqueues : x.queues c = false)
    (hserved : x.served? c = none) (hrenewed : x.renewed? x.before.policy c = none)
    (hnext : next.pending[c]? = x.before.pending[c]?) : Effect c x next := by
  refine .stayed hqueues hserved ?_
  rw [hnext, hrenewed]
  cases x.before.pending[c]? <;> rfl

/-- **What a command does to a position.** -/
theorem Sound.obey_cases (hq : q.Sound) {command : Command α} {reply : Reply α}
    (h : q.obey command = .ok (reply, q')) (c : ChunkPos) : Effect c ⟨q, command, reply⟩ q' := by
  cases command with
  | enqueue c' a =>
    cases h
    refine Effect.submit (s := ⟨c', a, false⟩) ?_ rfl rfl (by simp [Exchange.promoted?])
    by_cases hc : c' = c
    · subst hc
      simp [Exchange.queues, Exchange.enqueuedAnew, Exchange.promotedAnew, enqueue_fst]
    · simp [Exchange.queues, Exchange.enqueuedAnew, Exchange.promotedAnew, hc]
  | promote c' a =>
    cases h
    refine Effect.submit (s := ⟨c', a, true⟩) ?_ rfl rfl (by simp [Exchange.promoted?])
    simp [Exchange.queues, Exchange.enqueuedAnew, Exchange.promotedAnew]
  | retarget viewer =>
    cases h
    refine .pass rfl rfl ?_ rfl
    cases q.policy <;> rfl
  | dequeue =>
    have hnothing : Exchange.renewed? ⟨q, .dequeue, reply⟩ q.policy c = none := by
      cases q.policy <;> rfl
    rcases hq.dequeue_cases with ⟨hnone, -⟩ | ⟨c', a, rest, hserved, ha, hrest, -⟩
    · simp only [WorkQueue.obey, hnone] at h
      cases h
      exact .pass rfl rfl hnothing rfl
    · simp only [WorkQueue.obey, hserved] at h
      cases h
      by_cases hc : c' = c
      · subst hc
        refine .served rfl a (by simp [Exchange.served?]) ha ?_
        simp [hrest]
      · refine .pass rfl (by simp [Exchange.served?, hc]) hnothing ?_
        simp [hrest, Std.TreeMap.getElem?_erase, hc]

/-- No command changes the policy. -/
theorem Sound.policy_obey (hq : q.Sound) {command : Command α} {reply : Reply α}
    (h : q.obey command = .ok (reply, q')) : q'.policy = q.policy := by
  cases command with
  | enqueue c a =>
    cases h
    exact q.policy_submit ⟨c, a, false⟩
  | promote c a =>
    cases h
    exact q.policy_submit ⟨c, a, true⟩
  | retarget viewer =>
    cases h
    rfl
  | dequeue =>
    rcases hq.dequeue_cases with ⟨hnone, -⟩ | ⟨c, a, rest, hserved, -, -, -, hpolicy, -⟩
    · simp only [WorkQueue.obey, hnone] at h
      cases h
      rfl
    · simp only [WorkQueue.obey, hserved] at h
      cases h
      exact hpolicy

/-! ## 3. Sessions -/

theorem Sound.of_obey (hq : q.Sound) {command : Command α} {reply : Reply α}
    (h : q.obey command = .ok (reply, q')) : q'.Sound := by
  obtain ⟨reply', next, hobey, hsound, -⟩ := hq.obey command
  rw [hobey] at h
  cases h
  exact hsound

/-- A session begins with its first command. -/
theorem exists_of_session {command : Command α} {rest : List (Command α)}
    {log : List (Exchange α)} {last : WorkQueue α}
    (h : q.session (command :: rest) = .ok (log, last)) :
    ∃ reply next tail, q.obey command = .ok (reply, next) ∧
      next.session rest = .ok (tail, last) ∧ log = ⟨q, command, reply⟩ :: tail := by
  unfold session at h
  split at h
  · cases h
  · next reply next hobey =>
    cases hrest : next.session rest with
    | error f =>
      rw [hrest] at h
      cases h
    | ok result =>
      obtain ⟨tail, last'⟩ := result
      rw [hrest] at h
      cases h
      exact ⟨reply, next, tail, hobey, hrest, rfl⟩

/-- The log tells of the commands that were given, in order. -/
theorem commands_of_session {commands : List (Command α)} {log : List (Exchange α)}
    {last : WorkQueue α} (h : q.session commands = .ok (log, last)) :
    log.map Exchange.command = commands := by
  induction commands generalizing q log with
  | nil =>
    cases h
    rfl
  | cons command rest ih =>
    obtain ⟨reply, next, tail, -, hrest, rfl⟩ := exists_of_session h
    simp [ih hrest]

/-- **A position is served as often as it is queued anew**, counting what was queued before and what
is queued still. -/
theorem Sound.balance (hq : q.Sound) {commands : List (Command α)} {log : List (Exchange α)}
    {last : WorkQueue α} (h : q.session commands = .ok (log, last)) (c : ChunkPos) :
    log.countP (fun x => (x.served? c).isSome) + (if last.contains c then 1 else 0) =
      log.countP (·.queues c) + if q.contains c then 1 else 0 := by
  induction commands generalizing q log with
  | nil =>
    cases h
    rfl
  | cons command rest ih =>
    obtain ⟨reply, next, tail, hobey, hrest, rfl⟩ := exists_of_session h
    have htail := ih (hq.of_obey hobey) hrest
    simp only [List.countP_cons]
    cases hq.obey_cases hobey c with
    | queued hqueues hserved hbefore a ha hnext =>
      have hcontains : next.contains c = true := by simp [contains_eq_isSome, hnext]
      simp [hqueues, hserved, hbefore, hcontains] at htail ⊢
      omega
    | served hqueues a hserved ha hnext =>
      have hcontains : next.contains c = false := by simp [contains_eq_isSome, hnext]
      have hbefore : q.contains c = true := by simp [contains_eq_isSome, ha]
      simp [hqueues, hserved, hbefore, hcontains] at htail ⊢
      omega
    | stayed hqueues hserved hnext =>
      have hcontains : next.contains c = q.contains c := by simp [contains_eq_isSome, hnext]
      simp [hqueues, hserved, hcontains] at htail ⊢
      omega

/-- What happened to a position since it was last queued anew: that was the first exchange, and it
was neither served nor queued anew in those that followed. -/
structure SinceQueued (c : ChunkPos) (earlier : List (Exchange α)) (first : Exchange α)
    (stay : List (Exchange α)) : Prop where
  split : ∃ older, earlier = older ++ first :: stay
  queued : first.queues c = true
  kept : ∀ y ∈ stay, y.queues c = false ∧ y.served? c = none

/-- The payload of a position by what happened since it was queued: the one submitted last if new
payloads replace old ones, and else the one promoted last, or that of the exchange that queued it if
no promotion is among them. -/
def payloadSince (policy : OnDuplicate) (c : ChunkPos) (first : Exchange α)
    (stay : List (Exchange α)) : Option α :=
  match policy with
  | .replace => ((first :: stay).filterMap (·.submitted? c)).getLast?
  | .keep => ((first :: stay).filterMap (·.promoted? c)).getLast?.or (first.submitted? c)

/-- The first payload is the one submitted first, and the renewals follow. -/
theorem payloadSince_eq {first : Exchange α} {a : α} (ha : first.submitted? c = some a)
    (policy : OnDuplicate) (stay : List (Exchange α)) :
    payloadSince policy c first stay =
      some ((stay.filterMap (·.renewed? policy c)).getLast?.getD a) := by
  cases policy with
  | replace => simp [payloadSince, Exchange.renewed?, ha, List.getLast?_cons]
  | keep =>
    have hpromoted : first.promoted? c = none ∨ first.promoted? c = some a := by
      obtain ⟨before, command, reply⟩ := first
      cases command with
      | promote c' a' => exact .inr ha
      | _ => exact .inl rfl
    rcases hpromoted with hnone | hsome
    · simp only [payloadSince, Exchange.renewed?, List.filterMap_cons, hnone, ha]
      cases (stay.filterMap (·.promoted? c)).getLast? <;> rfl
    · simp [payloadSince, Exchange.renewed?, hsome, List.getLast?_cons]

/-- **The payload that is served** for a position is that of what happened since it was queued anew,
or if it was queued all the time, the first payload or the one renewed last. -/
theorem Sound.payload_cases (hq : q.Sound) {commands : List (Command α)} {last : WorkQueue α}
    {earlier later : List (Exchange α)} {x : Exchange α}
    (h : q.session commands = .ok (earlier ++ x :: later, last)) {a : α}
    (hserved : x.served? c = some a) :
    (∃ first stay, SinceQueued c earlier first stay ∧
        payloadSince q.policy c first stay = some a) ∨
      (∀ y ∈ earlier, y.queues c = false ∧ y.served? c = none) ∧
        ∃ a₀, q.pending[c]? = some a₀ ∧
          (earlier.filterMap (·.renewed? q.policy c)).getLast?.getD a₀ = a := by
  induction commands generalizing q earlier with
  | nil => simp [WorkQueue.session] at h
  | cons command rest ih =>
    obtain ⟨reply, next, tail, hobey, hrest, hlog⟩ := exists_of_session h
    have heffect := hq.obey_cases hobey c
    cases earlier with
    | nil =>
      obtain ⟨rfl, rfl⟩ := List.cons.inj hlog
      cases heffect with
      | queued _ hnone => simp [hnone] at hserved
      | served _ a' hsome ha =>
        rw [hsome] at hserved
        cases hserved
        exact .inr ⟨fun y hy => absurd hy List.not_mem_nil, a, ha, rfl⟩
      | stayed _ hnone => simp [hnone] at hserved
    | cons y earlier =>
      obtain ⟨rfl, rfl⟩ := List.cons.inj hlog
      have hcases := ih (hq.of_obey hobey) hrest
      rw [hq.policy_obey hobey] at hcases
      rcases hcases with ⟨first, stay, hsince, hpayload⟩ | ⟨hkept, a₁, ha₁, hrenewed⟩
      · obtain ⟨older, rfl⟩ := hsince.split
        exact .inl ⟨first, stay, ⟨⟨_ :: older, rfl⟩, hsince.queued, hsince.kept⟩, hpayload⟩
      · cases heffect with
        | queued hqueues _ _ a' ha' hnext =>
          -- the position is queued anew here, and stays in the queue until it is served
          rw [hnext] at ha₁
          cases ha₁
          refine .inl ⟨_, earlier, ⟨⟨[], rfl⟩, hqueues, hkept⟩, ?_⟩
          rw [payloadSince_eq ha', hrenewed]
        | served _ _ _ _ hnext => simp [hnext] at ha₁
        | stayed hqueues hnone hnext =>
          rw [hnext] at ha₁
          obtain ⟨a₀, ha₀, rfl⟩ := Option.map_eq_some_iff.mp ha₁
          refine .inr ⟨?_, a₀, ha₀, ?_⟩
          · intro y hy
            rcases List.mem_cons.mp hy with rfl | hy
            · exact ⟨hqueues, hnone⟩
            · exact hkept y hy
          · rw [← hrenewed, List.filterMap_cons]
            cases hfirst : Exchange.renewed? ⟨q, command, reply⟩ q.policy c with
            | none => simp
            | some r => simp [List.getLast?_cons]

/-! ## 4. What comes out -/

/-- What a log tells of a position that was not queued at first: it was served as often as it was
queued anew, once less if it is queued at the end, and each time with the payload by what had
happened since it was queued. -/
structure Delivered (policy : OnDuplicate) (log : List (Exchange α)) (last : WorkQueue α)
    (c : ChunkPos) : Prop where
  balance : log.countP (fun x => (x.served? c).isSome) + (if last.contains c then 1 else 0) =
    log.countP (·.enqueuedAnew c) + log.countP (·.promotedAnew c)
  payload : ∀ earlier x later a, log = earlier ++ x :: later → x.served? c = some a →
    ∃ first stay, SinceQueued c earlier first stay ∧ payloadSince policy c first stay = some a

/-- No command queues a position anew in both ways. -/
theorem countP_queues (log : List (Exchange α)) (c : ChunkPos) :
    log.countP (·.queues c) = log.countP (·.enqueuedAnew c) + log.countP (·.promotedAnew c) := by
  induction log with
  | nil => rfl
  | cons x log ih =>
    have hnot : x.enqueuedAnew c = false ∨ x.promotedAnew c = false := by
      obtain ⟨before, command, reply⟩ := x
      cases command with
      | enqueue _ _ => exact .inr rfl
      | _ => exact .inl rfl
    have hqueues : x.queues c = (x.enqueuedAnew c || x.promotedAnew c) := rfl
    simp only [List.countP_cons, ih, hqueues]
    rcases hnot with h | h <;> simp [h] <;> omega

/-- **Every payload comes out of a queue once, in the right version**, whatever the commands. -/
theorem session_delivers (viewer : ChunkPos) (policy : OnDuplicate) (commands : List (Command α)) :
    ∃ log last, (empty viewer policy).session commands = .ok (log, last) ∧
      log.map Exchange.command = commands ∧ ∀ c, Delivered policy log last c := by
  have hsound := sound_empty (α := α) viewer policy
  obtain ⟨log, last, hsession, -⟩ := hsound.session commands
  refine ⟨log, last, hsession, commands_of_session hsession, fun c => ⟨?_, ?_⟩⟩
  · rw [← countP_queues, hsound.balance hsession c]
    simp [empty, contains]
  · rintro earlier x later a rfl hserved
    rcases hsound.payload_cases hsession hserved with hsince | ⟨-, a₀, ha₀, -⟩
    · exact hsince
    · simp [empty] at ha₀

end WorkQueue

end Blockworld
