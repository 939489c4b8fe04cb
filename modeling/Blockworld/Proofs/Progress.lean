/-
# What a worker does next

A worker that has not begun to end and is not at work has one thing to do, and what it is can be
read off what has happened (`Worker.Next`):

* something that has arrived is unread: it reads the first of it;
* everything is read and something is queued: it begins the work that its queue serves next;
* everything is read and nothing is queued: it waits for the next batch;
* everything is read and nobody is left to write to it: it begins to end.

An exit that has been read comes before all of these: the worker begins to end.  `Course.moment`
proves this at every such moment of a run.  The queue in it is again the one on record.  A worker
that is at work has nothing to do but to answer (`Course.duringWork`).

The record of a run alone does not say this.  A worker that waits or ends while something is queued,
or that leaves a message unread, could still have one; what it does would violate this law.

The last section is about runs that break off.  They do so in a fault only, for which there are two
reasons (`Worker.Fails`): a message that the service does not take, and a process that fails.
-/
import Blockworld.Proofs.Record

namespace Blockworld.Worker

variable {μ ρ : Type}

/-! ## 1. The next event -/

/-- The responses sent, in order. -/
def sent (es : List (Event ρ)) : List Message :=
  es.filterMap fun
    | .sent m => some m
    | _ => none

/-- All work that was begun has been answered: the worker is not at work. -/
def Idle (es : List (Event ρ)) : Prop := (sent es).length = (begun es).length

theorem not_idle_called (c : ChunkPos) (a : ρ) : ¬ Idle [.called c a] := nofun

theorem not_idle_called_arrived (c : ChunkPos) (a : ρ) (batch : List Message) :
    ¬ Idle [.called c a, .arrived batch] := nofun

/-- Work that is begun and answered leaves a worker idle if it was. -/
theorem idle_behind_work {c : ChunkPos} {a : ρ} {batch : List Message} {response : Message}
    {es : List (Event ρ)} :
    Idle (.called c a :: .arrived batch :: .sent response :: es) ↔ Idle es :=
  Nat.add_right_cancel_iff

/-- Work that is begun at the end is answered before anything arrives. -/
theorem idle_behind_answer {c : ChunkPos} {a : ρ} {response : Message} {es : List (Event ρ)} :
    Idle (.called c a :: .sent response :: es) ↔ Idle es :=
  Nat.add_right_cancel_iff

/-- What happens while a worker is at work: more arrives, or it answers. -/
def Event.DuringWork : Event ρ → Prop
  | .arrived _ => True
  | .sent _ => True
  | _ => False

/-- Work and what arrives meanwhile, seen from one of the events. -/
theorem Run.events_begun {c : ChunkPos} {a : ρ} {batch : List Message} {r : Run ρ} {e : Event ρ}
    {pre post : List (Event ρ)}
    (h : (Run.after (.called c a) (.after (.arrived batch) r)).events = pre ++ e :: post) :
    (pre = [] ∧ e = .called c a) ∨ (¬Idle pre ∧ e.DuringWork) ∨
      ∃ pre', pre = .called c a :: .arrived batch :: pre' ∧ r.events = pre' ++ e :: post := by
  rcases Run.events_after h with ⟨rfl, hpost⟩ | ⟨pre₁, rfl, h₁⟩
  · cases hpost
    exact .inl ⟨rfl, rfl⟩
  rcases Run.events_after h₁ with ⟨rfl, hpost⟩ | ⟨pre₂, rfl, h₂⟩
  · cases hpost
    exact .inr (.inl ⟨not_idle_called c a, trivial⟩)
  · exact .inr (.inr ⟨pre₂, rfl, h₂⟩)

/-- The same with the answer. -/
theorem Run.events_answered {c : ChunkPos} {a : ρ} {batch : List Message} {response : Message}
    {r : Run ρ} {e : Event ρ} {pre post : List (Event ρ)}
    (h : (Run.after (.called c a) (.after (.arrived batch) (.after (.sent response) r))).events =
      pre ++ e :: post) :
    (pre = [] ∧ e = .called c a) ∨ (¬Idle pre ∧ e.DuringWork) ∨
      ∃ pre', pre = .called c a :: .arrived batch :: .sent response :: pre' ∧
        r.events = pre' ++ e :: post := by
  rcases Run.events_begun h with hfirst | hbusy | ⟨pre₁, rfl, h₁⟩
  · exact .inl hfirst
  · exact .inr (.inl hbusy)
  rcases Run.events_after h₁ with ⟨rfl, hpost⟩ | ⟨pre₂, rfl, h₂⟩
  · cases hpost
    exact .inr (.inl ⟨not_idle_called_arrived c a batch, trivial⟩)
  · exact .inr (.inr ⟨pre₂, rfl, h₂⟩)

/-- What an idle worker does next, by the batches to come, the messages that have arrived and are
unread, and the queue. -/
inductive Next : List (List Message) → List Message → WorkQueue ρ → Event ρ → Prop
  | read {toCome : List (List Message)} (m : Message) (unread : List Message) (q : WorkQueue ρ) :
      Next toCome (m :: unread) q (.received m)
  | work {batch : List Message} {toCome : List (List Message)} {q q' : WorkQueue ρ} {c : ChunkPos}
      {a : ρ} (hserved : q.dequeue = .ok (some ((c, a), q'))) :
      Next (batch :: toCome) [] q (.called c a)
  | wait {batch : List Message} {toCome : List (List Message)} {q : WorkQueue ρ}
      (hserved : q.dequeue = .ok none) : Next (batch :: toCome) [] q (.arrived batch)
  | hangUp (q : WorkQueue ρ) : Next [] [] q .stopped

/-- What is true between some events, after which a worker is idle, and the next one: which batches
are to come, which messages are unread and what the queue is, and that the worker acts on it. -/
structure Moment (service : StatefulService μ ρ) (scheduling : Scheduling)
    (upcoming : List (List Message)) (unread : List Message) (memory : μ) (past : Past ρ)
    (pre : List (Event ρ)) (e : Event ρ) (toCome : List (List Message)) (left : List Message)
    (q : WorkQueue ρ) : Prop where
  arrived : upcoming = arrivals pre ++ toCome
  read : unread ++ (arrivals pre).flatten = heard pre ++ left
  history :
    WorkQueue.History scheduling.viewer scheduling.policy q (service.record memory pre ++ past)
  ending : .exit ∈ heard pre → e = .stopped
  next : .exit ∉ heard pre → Next toCome left q e

variable {service : StatefulService μ ρ} {scheduling : Scheduling} {memory : μ} {w : Worker ρ}
  {past : Past ρ} {upcoming toCome : List (List Message)} {unread left : List Message} {r : Run ρ}
  {q : WorkQueue ρ} {e : Event ρ}

/-- The moment in front of everything. -/
theorem Moment.first (hw : Standing scheduling w past) (hnext : Next upcoming unread w.queue e) :
    Moment service scheduling upcoming unread memory past [] e upcoming unread w.queue :=
  ⟨rfl, List.append_nil unread, hw.history, nofun, fun _ => hnext⟩

/-- A moment with more events in front. -/
theorem Moment.behind {pre : List (Event ρ)} (es : List (Event ρ))
    (h : Moment service scheduling upcoming unread (service.memoryAfter memory es)
      (service.record memory es ++ past) pre e toCome left q)
    {upcoming' : List (List Message)} {unread' : List Message} (hnone : .exit ∉ heard es)
    (harrived : upcoming' = arrivals es ++ upcoming)
    (hread : unread' ++ (arrivals es).flatten = heard es ++ unread) :
    Moment service scheduling upcoming' unread' memory past (es ++ pre) e toCome left q := by
  have hexit : .exit ∈ heard (es ++ pre) ↔ .exit ∈ heard pre := by
    rw [heard_append, List.mem_append, or_iff_right hnone]
  refine ⟨?_, ?_, ?_, fun hmem => h.ending (hexit.mp hmem), fun hmem => h.next (mt hexit.mpr hmem)⟩
  · rw [harrived, h.arrived, arrivals_append, List.append_assoc]
  · rw [arrivals_append, List.flatten_append, ← List.append_assoc, hread, List.append_assoc, h.read,
      heard_append, List.append_assoc]
  · rw [record_append, List.append_assoc]
    exact h.history

/-- **An idle worker reads first, then works, then waits**, and begins to end when it has read an
exit or nothing is left to wait for. -/
theorem Course.moment (h : Course service upcoming unread memory w r)
    (hw : Standing scheduling w past) {pre post : List (Event ρ)}
    (hevents : r.events = pre ++ e :: post) (hgoing : .stopped ∉ pre) (hidle : Idle pre) :
    ∃ toCome left q,
      Moment service scheduling upcoming unread memory past pre e toCome left q := by
  induction h generalizing past pre with
  | @wait upcoming batch memory w r htake _ ih =>
    rcases Run.events_after hevents with ⟨rfl, hpost⟩ | ⟨pre', rfl, hrest⟩
    · cases hpost
      exact ⟨_, _, _, .first hw (.wait (take_eq_none htake))⟩
    · obtain ⟨toCome, left, q, hmoment⟩ :=
        ih hw hrest (fun hmem => hgoing (List.mem_cons_of_mem _ hmem)) hidle
      exact ⟨_, _, _,
        hmoment.behind [.arrived batch] List.not_mem_nil rfl (List.append_nil batch)⟩
  | @read upcoming m unread memory w w' r hhandle _ ih =>
    rcases Run.events_after hevents with ⟨rfl, hpost⟩ | ⟨pre', rfl, hrest⟩
    · cases hpost
      exact ⟨_, _, _, .first hw (.read m unread w.queue)⟩
    · have hnext := hw.read hhandle
      rw [← record_singleton] at hnext
      obtain ⟨toCome, left, q, hmoment⟩ :=
        ih hnext hrest (fun hmem => hgoing (List.mem_cons_of_mem _ hmem)) hidle
      refine ⟨_, _, _, hmoment.behind [.received m] (fun hmem => ?_) rfl (List.append_nil _)⟩
      exact topic_ne_exit_of_handle hhandle (by rw [← List.mem_singleton.mp hmem]; rfl)
  | @reject upcoming m unread memory w f _ =>
    rcases Run.events_after hevents with ⟨rfl, hpost⟩ | ⟨pre', rfl, hrest⟩
    · cases hpost
      exact ⟨_, _, _, .first hw (.read m unread w.queue)⟩
    · exact absurd hrest (by simp [Run.abort])
  | @work upcoming batch memory memory' w t response r htake hprocess _ ih =>
    obtain ⟨q, hserved, -⟩ := take_eq_some htake
    rcases Run.events_answered hevents with ⟨rfl, rfl⟩ | ⟨hbusy, -⟩ | ⟨pre', rfl, hrest⟩
    · exact ⟨_, _, _, .first hw (.work hserved)⟩
    · exact absurd hidle hbusy
    · rw [← recall_called service hprocess] at ih
      obtain ⟨toCome, left, q, hmoment⟩ :=
        ih (hw.work htake) hrest (fun hmem => hgoing (by simp [hmem])) (idle_behind_work.mp hidle)
      exact ⟨_, _, _, hmoment.behind [.called t.coords t.request, .arrived batch, .sent response]
        List.not_mem_nil rfl (List.append_nil batch)⟩
  | @crash upcoming batch memory w t f htake _ =>
    obtain ⟨q, hserved, -⟩ := take_eq_some htake
    rcases Run.events_begun hevents with ⟨rfl, rfl⟩ | ⟨hbusy, -⟩ | ⟨pre', rfl, hrest⟩
    · exact ⟨_, _, _, .first hw (.work hserved)⟩
    · exact absurd hidle hbusy
    · exact absurd hrest (by simp [Run.abort])
  | @exit upcoming m unread memory w r hhandle _ =>
    have hexit := eq_exit_of_handle hhandle
    subst hexit
    rcases Run.events_after hevents with ⟨rfl, hpost⟩ | ⟨pre₁, rfl, h₁⟩
    · cases hpost
      exact ⟨_, _, _, .first hw (.read .exit unread w.queue)⟩
    rcases Run.events_after h₁ with ⟨rfl, hpost⟩ | ⟨pre₂, rfl, -⟩
    · cases hpost
      have hread : (.exit : Message) ∈ heard [(.received .exit : Event ρ)] :=
        List.mem_singleton_self _
      exact ⟨upcoming, unread, w.queue, rfl, List.append_nil _, hw.history, fun _ => rfl,
        fun hnone => absurd hread hnone⟩
    · exact absurd (by simp) hgoing
  | @hangUp memory w r _ =>
    rcases Run.events_after hevents with ⟨rfl, hpost⟩ | ⟨pre', rfl, -⟩
    · cases hpost
      exact ⟨_, _, _, .first hw (.hangUp w.queue)⟩
    · exact absurd List.mem_cons_self hgoing

/-- A worker at its end answers all work that it begins. -/
theorem Closing.duringWork (h : Closing service memory w r) {pre post : List (Event ρ)}
    (hevents : r.events = pre ++ e :: post) (hbusy : ¬Idle pre) : e.DuringWork := by
  induction h generalizing pre with
  | discard _ => exact absurd hevents (by simp [Run.halt])
  | finish _ _ => exact absurd hevents (by simp [Run.halt])
  | work _ _ _ _ ih =>
    rcases Run.events_after hevents with ⟨rfl, -⟩ | ⟨pre₁, rfl, h₁⟩
    · exact absurd rfl hbusy
    rcases Run.events_after h₁ with ⟨rfl, hpost⟩ | ⟨pre₂, rfl, h₂⟩
    · cases hpost
      trivial
    · exact ih h₂ (mt idle_behind_answer.mpr hbusy)
  | crash _ _ _ =>
    rcases Run.events_after hevents with ⟨rfl, -⟩ | ⟨pre₁, rfl, h₁⟩
    · exact absurd rfl hbusy
    · exact absurd h₁ (by simp [Run.abort])

/-- **A worker at work does nothing but answer**, whatever arrives meanwhile. -/
theorem Course.duringWork (h : Course service upcoming unread memory w r)
    {pre post : List (Event ρ)} (hevents : r.events = pre ++ e :: post) (hbusy : ¬Idle pre) :
    e.DuringWork := by
  induction h generalizing pre with
  | wait _ _ ih =>
    rcases Run.events_after hevents with ⟨rfl, -⟩ | ⟨pre', rfl, hrest⟩
    · exact absurd rfl hbusy
    · exact ih hrest hbusy
  | read _ _ ih =>
    rcases Run.events_after hevents with ⟨rfl, -⟩ | ⟨pre', rfl, hrest⟩
    · exact absurd rfl hbusy
    · exact ih hrest hbusy
  | reject _ =>
    rcases Run.events_after hevents with ⟨rfl, -⟩ | ⟨pre', rfl, hrest⟩
    · exact absurd rfl hbusy
    · exact absurd hrest (by simp [Run.abort])
  | work _ _ _ ih =>
    rcases Run.events_answered hevents with ⟨rfl, -⟩ | ⟨-, hduring⟩ | ⟨pre', rfl, hrest⟩
    · exact absurd rfl hbusy
    · exact hduring
    · exact ih hrest (mt idle_behind_work.mpr hbusy)
  | crash _ _ =>
    rcases Run.events_begun hevents with ⟨rfl, -⟩ | ⟨-, hduring⟩ | ⟨pre', rfl, hrest⟩
    · exact absurd rfl hbusy
    · exact hduring
    · exact absurd hrest (by simp [Run.abort])
  | exit _ hclosing =>
    rcases Run.events_after hevents with ⟨rfl, -⟩ | ⟨pre₁, rfl, h₁⟩
    · exact absurd rfl hbusy
    rcases Run.events_after h₁ with ⟨rfl, -⟩ | ⟨pre₂, rfl, h₂⟩
    · exact absurd rfl hbusy
    · exact hclosing.duringWork h₂ hbusy
  | hangUp hclosing =>
    rcases Run.events_after hevents with ⟨rfl, -⟩ | ⟨pre', rfl, hrest⟩
    · exact absurd rfl hbusy
    · exact hclosing.duringWork hrest hbusy

/-! ## 2. What breaks a run off -/

/-- A fault has ended a run with these events: it could not take the last message that it read, or
the last work that it began has failed. -/
inductive Fails (service : StatefulService μ ρ) (memory : μ) (f : Fault) : List (Event ρ) → Prop
  | message (pre : List (Event ρ)) {m : Message} (hrequest : m.topic.isEvent = false)
      (hnone : (service.given (service.memoryAfter memory pre)).submission? m = none) :
      Fails service memory f (pre ++ [.received m])
  | process (pre : List (Event ρ)) {c : ChunkPos} {a : ρ} {post : List (Event ρ)}
      (hprocess : service.process (service.memoryAfter memory pre) c a = .error f)
      (hlast : ∀ e ∈ post, ∃ batch, e = .arrived batch) :
      Fails service memory f (pre ++ .called c a :: post)

theorem Fails.behind {f : Fault} {es' : List (Event ρ)} (es : List (Event ρ))
    (h : Fails service (service.memoryAfter memory es) f es') :
    Fails service memory f (es ++ es') := by
  cases h with
  | message pre hrequest hnone =>
    rw [← memoryAfter_append] at hnone
    rw [← List.append_assoc]
    exact .message _ hrequest hnone
  | process pre hprocess hlast =>
    rw [← memoryAfter_append] at hprocess
    rw [← List.append_assoc]
    exact .process _ hprocess hlast

theorem Closing.fails (h : Closing service memory w r) {f : Fault} (hfault : r.fault = some f) :
    Fails service memory f r.events := by
  induction h with
  | discard _ => cases hfault
  | finish _ _ => cases hfault
  | @work memory memory' w t response r _ _ hprocess _ ih =>
    rw [← recall_called service hprocess] at ih
    exact (ih hfault).behind [.called t.coords t.request, .sent response]
  | crash _ _ hprocess =>
    cases hfault
    exact .process [] hprocess (by simp [Run.abort])

/-- **Only a message that the service does not take, or a process that fails, breaks a run off.** -/
theorem Course.fails (h : Course service upcoming unread memory w r) {f : Fault}
    (hfault : r.fault = some f) : Fails service memory f r.events := by
  induction h with
  | @wait _ batch _ _ _ _ _ ih => exact (ih hfault).behind [.arrived batch]
  | @read _ m _ _ _ _ _ _ _ ih => exact (ih hfault).behind [.received m]
  | @reject upcoming m unread memory w f' hhandle =>
    rcases handle_cases (service.given memory) w m with
      ⟨-, hh⟩ | ⟨viewer, -, hh⟩ | ⟨s, -, -, hh⟩ | ⟨hrequest, hnone, -⟩
    · rw [hh] at hhandle
      cases hhandle
    · rw [hh] at hhandle
      cases hhandle
    · rw [hh] at hhandle
      cases hhandle
    · exact .message [] hrequest hnone
  | @work upcoming batch memory memory' w t response r _ hprocess _ ih =>
    rw [← recall_called service hprocess] at ih
    exact (ih hfault).behind [.called t.coords t.request, .arrived batch, .sent response]
  | crash _ hprocess =>
    cases hfault
    exact .process [] hprocess (by simp [Run.after, Run.abort])
  | @exit _ m _ _ _ _ _ hclosing => exact (hclosing.fails hfault).behind [.received m, .stopped]
  | hangUp hclosing => exact (hclosing.fails hfault).behind [.stopped]

/-- **Only a process that fails breaks a run off**, if all messages are events or requests that the
service takes. -/
theorem Course.process_fails (h : Course service upcoming unread memory w r)
    (hmessages : ∀ m ∈ unread ++ upcoming.flatten,
      m.topic.isEvent = true ∨
        ∀ memory, ((service.given memory).submission? m).isSome = true)
    {f : Fault} (hfault : r.fault = some f) :
    ∃ memory c a, service.process memory c a = .error f := by
  have hread := h.heard_prefix
  have hfails := h.fails hfault
  generalize r.events = es at hread hfails
  cases hfails with
  | @message pre m hrequest hnone =>
    have hmem : m ∈ heard (pre ++ [.received m]) := mem_heard (by simp)
    rcases hmessages m (hread.subset hmem) with hevent | hsome
    · rw [hrequest] at hevent
      cases hevent
    · have hs := hsome (service.memoryAfter memory pre)
      rw [hnone] at hs
      cases hs
  | process pre hprocess _ => exact ⟨_, _, _, hprocess⟩

end Blockworld.Worker
