/-
# The course of a worker's life

`Worker.run` is written for running: it recurses over the batches of a schedule, and inside that
over the messages of an inbox.  `Worker.Course` says the same as rules, one for each thing that can
happen next:

* with nothing unread and nothing queued, a worker waits for the next batch;
* it reads what is unread, and only then processes a request, during which the next batch arrives;
* an exit, or nothing unread with no batch to come, makes it stop (`Worker.Closing`): it processes
  what is queued or discards it.

Every run of a worker takes such a course (`Worker.course_run`).  What is said of all runs is proved
by one case for each rule; this file does so for what is read (`Course.heard_prefix`,
`Course.heard_eq`) and for what has been read whenever work begins (`Course.read_up`).
-/
import Blockworld.Proofs.Handling

namespace Blockworld.Worker

variable {μ ρ : Type}

/-! ## 1. Events -/

/-- The messages taken out of the inbox, in order. -/
def heard (es : List (Event ρ)) : List Message :=
  es.filterMap fun
    | .received m => some m
    | _ => none

/-- The batches of messages that arrived, in order. -/
def arrivals (es : List (Event ρ)) : List (List Message) :=
  es.filterMap fun
    | .arrived batch => some batch
    | _ => none

/-- The work begun, in order. -/
def begun (es : List (Event ρ)) : List (ChunkPos × ρ) :=
  es.filterMap fun
    | .called c a => some (c, a)
    | _ => none

theorem heard_append (es es' : List (Event ρ)) : heard (es ++ es') = heard es ++ heard es' :=
  List.filterMap_append

theorem mem_heard {es : List (Event ρ)} {m : Message} (h : .received m ∈ es) : m ∈ heard es :=
  List.mem_filterMap.mpr ⟨_, h, rfl⟩

theorem arrivals_append (es es' : List (Event ρ)) :
    arrivals (es ++ es') = arrivals es ++ arrivals es' := List.filterMap_append

/-- The messages in front of the first exit. -/
def aheadOfExit (ms : List Message) : List Message := ms.takeWhile (·.topic != .exit)

/-- The first exit, if there is one. -/
def firstExit (ms : List Message) : List Message := (ms.filter (·.topic == .exit)).take 1

/-! ## 2. Rules -/

section Rules

variable (service : StatefulService μ ρ)

/-- The end of a worker: what is queued is discarded, or processed one after the other until a
process fails or nothing is left. -/
inductive Closing : μ → Worker ρ → Run ρ → Prop
  | discard {memory : μ} {w : Worker ρ} (hending : w.ending = .immediate) :
      Closing memory w (.halt w.conclude)
  | finish {memory : μ} {w : Worker ρ} (hending : w.ending = .drain) (htake : w.take = .ok none) :
      Closing memory w (.halt w.conclude)
  | work {memory memory' : μ} {w : Worker ρ} {t : Taken ρ} {response : Message} {r : Run ρ}
      (hending : w.ending = .drain) (htake : w.take = .ok (some t))
      (hprocess : service.process memory t.coords t.request = .ok (response, memory'))
      (hrest : Closing memory' t.worker.finish r) :
      Closing memory w (.after (.called t.coords t.request) (.after (.sent response) r))
  | crash {memory : μ} {w : Worker ρ} {t : Taken ρ} {f : Fault} (hending : w.ending = .drain)
      (htake : w.take = .ok (some t))
      (hprocess : service.process memory t.coords t.request = .error f) :
      Closing memory w (.after (.called t.coords t.request) (.abort t.worker f))

/-- The life of a worker: the batches to come, the messages that have arrived and are unread, the
memory, the worker, and the run. -/
inductive Course : List (List Message) → List Message → μ → Worker ρ → Run ρ → Prop
  | wait {upcoming : List (List Message)} {batch : List Message} {memory : μ} {w : Worker ρ}
      {r : Run ρ} (htake : w.take = .ok none) (hrest : Course upcoming batch memory w r) :
      Course (batch :: upcoming) [] memory w (.after (.arrived batch) r)
  | read {upcoming : List (List Message)} {m : Message} {unread : List Message} {memory : μ}
      {w w' : Worker ρ} {r : Run ρ} (hhandle : w.handle (service.given memory) m = .ok (some w'))
      (hrest : Course upcoming unread memory w' r) :
      Course upcoming (m :: unread) memory w (.after (.received m) r)
  | reject {upcoming : List (List Message)} {m : Message} {unread : List Message} {memory : μ}
      {w : Worker ρ} {f : Fault} (hhandle : w.handle (service.given memory) m = .error f) :
      Course upcoming (m :: unread) memory w (.after (.received m) (.abort w f))
  | work {upcoming : List (List Message)} {batch : List Message} {memory memory' : μ}
      {w : Worker ρ} {t : Taken ρ} {response : Message} {r : Run ρ}
      (htake : w.take = .ok (some t))
      (hprocess : service.process memory t.coords t.request = .ok (response, memory'))
      (hrest : Course upcoming batch memory' t.worker.finish r) :
      Course (batch :: upcoming) [] memory w
        (.after (.called t.coords t.request) (.after (.arrived batch) (.after (.sent response) r)))
  | crash {upcoming : List (List Message)} {batch : List Message} {memory : μ} {w : Worker ρ}
      {t : Taken ρ} {f : Fault} (htake : w.take = .ok (some t))
      (hprocess : service.process memory t.coords t.request = .error f) :
      Course (batch :: upcoming) [] memory w
        (.after (.called t.coords t.request) (.after (.arrived batch) (.abort t.worker f)))
  | exit {upcoming : List (List Message)} {m : Message} {unread : List Message} {memory : μ}
      {w : Worker ρ} {r : Run ρ} (hhandle : w.handle (service.given memory) m = .ok none)
      (hclosing : Closing service memory w r) :
      Course upcoming (m :: unread) memory w (.after (.received m) (.after .stopped r))
  | hangUp {memory : μ} {w : Worker ρ} {r : Run ρ} (hclosing : Closing service memory w r) :
      Course [] [] memory w (.after .stopped r)

end Rules

/-! ## 3. Every run takes a course -/

variable {service : StatefulService μ ρ} {memory : μ} {w : Worker ρ}

/-- A worker at the end of its life, unless a fault has ended it before. -/
def Run.concluded (r : Run ρ) : Run ρ :=
  match r.fault with
  | some _ => r
  | none => { r with worker := r.worker.conclude }

theorem Run.concluded_after (e : Event ρ) (r : Run ρ) :
    (r.after e).concluded = r.concluded.after e := by
  obtain ⟨events, w, fault⟩ := r
  cases fault <;> rfl

/-- To drain, a worker processes as many requests as are queued. -/
theorem closing_processAll (hw : w.queue.Sound) (hending : w.ending = .drain) {fuel : Nat}
    (hfuel : fuel = w.queue.size) :
    Closing service memory w (processAll service fuel memory w).concluded := by
  induction fuel generalizing memory w with
  | zero =>
    rcases take_cases hw with ⟨htake, -⟩ | ⟨t, -, -, hsize⟩
    · exact .finish hending htake
    · omega
  | succ fuel ih =>
    unfold processAll
    rcases take_cases hw with ⟨htake, -⟩ | ⟨t, htake, hsound, hsize⟩
    · rw [htake]
      exact .finish hending htake
    · obtain ⟨q, -, hworker⟩ := take_eq_some htake
      rw [htake]
      dsimp only
      rw [Run.concluded_after]
      unfold respond
      cases hprocess : service.process memory t.coords t.request with
      | error f => exact .crash hending htake hprocess
      | ok answer =>
        obtain ⟨response, memory'⟩ := answer
        dsimp only
        rw [Run.concluded_after]
        refine .work hending htake hprocess (ih hsound ?_ ?_)
        · show t.worker.ending = .drain
          rw [hworker]
          exact hending
        · show fuel = t.worker.queue.size
          omega

theorem closing_close (service : StatefulService μ ρ) (memory : μ) (hw : w.queue.Sound) :
    ∃ r, close service memory w = .after .stopped r ∧ Closing service memory w r := by
  refine ⟨_, rfl, ?_⟩
  split
  · next hending => exact .discard hending
  · next hending => exact closing_processAll hw hending rfl

/-- Reading an inbox goes on with the rest of the run, unless a message ends it. -/
theorem course_drain {upcoming : List (List Message)} {rest : Worker ρ → Run ρ}
    (hrest : ∀ w', w'.queue.Sound → Course service upcoming [] memory w' (rest w'))
    (hw : w.queue.Sound) (unread : List Message) :
    Course service upcoming unread memory w (drain service memory rest unread w) := by
  induction unread generalizing w with
  | nil => exact hrest w hw
  | cons m unread ih =>
    unfold drain
    cases hhandle : w.handle (service.given memory) m with
    | error f => exact .reject hhandle
    | ok next =>
      cases next with
      | none =>
        obtain ⟨r, hclose, hclosing⟩ := closing_close service memory hw
        dsimp only
        rw [hclose]
        exact .exit hhandle hclosing
      | some w' => exact .read hhandle (ih (sound_of_handle hw hhandle))

theorem course_serve (hw : w.queue.Sound) (upcoming : List (List Message))
    (unread : List Message) :
    Course service upcoming unread memory w (serve service upcoming unread memory w) := by
  induction upcoming generalizing unread memory w with
  | nil =>
    refine course_drain (fun w' hw' => ?_) hw unread
    obtain ⟨r, hclose, hclosing⟩ := closing_close service memory hw'
    rw [hclose]
    exact .hangUp hclosing
  | cons batch upcoming ih =>
    refine course_drain (fun w' hw' => ?_) hw unread
    rcases take_cases hw' with ⟨htake, -⟩ | ⟨t, htake, hsound, -⟩
    · rw [htake]
      exact .wait htake (ih hw' batch)
    · rw [htake]
      dsimp only
      unfold respond
      cases hprocess : service.process memory t.coords t.request with
      | error f => exact .crash htake hprocess
      | ok answer =>
        refine .work htake hprocess (ih ?_ batch)
        exact hsound

/-- **Every run of a worker takes a course.**  What is there at the start arrives while the worker
waits. -/
theorem course_run (service : StatefulService μ ρ) (memory : μ) (name : String)
    (scheduling : Scheduling) (schedule : List (List Message)) :
    Course service schedule [] memory (start name scheduling)
      (run service memory (start name scheduling) schedule) := by
  have hstart : (start name scheduling : Worker ρ).queue.Sound :=
    WorkQueue.sound_empty scheduling.viewer scheduling.policy
  cases schedule with
  | nil => exact course_serve hstart [] []
  | cons inbox upcoming => exact .wait rfl (course_serve hstart upcoming inbox)

/-! ## 4. What is read -/

section Reading

variable {upcoming : List (List Message)} {unread : List Message} {r : Run ρ}

/-- A worker that is ending reads nothing more. -/
theorem Closing.heard_eq (h : Closing service memory w r) : heard r.events = [] := by
  induction h with
  | discard _ => rfl
  | finish _ _ => rfl
  | work _ _ _ _ ih => exact ih
  | crash _ _ _ => rfl

theorem Closing.heard_prefix (h : Closing service memory w r) (ms : List Message) :
    heard (r.after .stopped).events <+: ms := by
  have hnone : heard (r.after .stopped).events = [] := h.heard_eq
  rw [hnone]
  exact List.nil_prefix

theorem topic_ne_exit_of_handle {m : Message} {w' : Worker ρ} {service : Service ρ}
    (h : w.handle service m = .ok (some w')) : m.topic ≠ .exit := by
  intro hexit
  rcases handle_eq_some h with ⟨viewer, rfl, -⟩ | ⟨s, hrequest, -, -⟩
  · cases hexit
  · rw [hexit] at hrequest
    cases hrequest

/-- A worker reads what arrives in its order. -/
theorem Course.heard_prefix (h : Course service upcoming unread memory w r) :
    heard r.events <+: unread ++ upcoming.flatten := by
  induction h with
  | wait _ _ ih => exact ih
  | @read upcoming m unread _ _ _ _ _ _ ih => exact List.cons_prefix_cons.mpr ⟨rfl, ih⟩
  | @reject upcoming m unread _ _ _ _ => exact List.cons_prefix_cons.mpr ⟨rfl, List.nil_prefix⟩
  | work _ _ _ ih => exact ih
  | crash _ _ => exact List.nil_prefix
  | exit _ hclosing => exact List.cons_prefix_cons.mpr ⟨rfl, hclosing.heard_prefix _⟩
  | hangUp hclosing => exact hclosing.heard_prefix _

/-- **A worker reads everything up to the first exit, and nothing behind it.** -/
theorem Course.heard_eq (h : Course service upcoming unread memory w r) (hfault : r.fault = none) :
    heard r.events = aheadOfExit (unread ++ upcoming.flatten) ++
      firstExit (unread ++ upcoming.flatten) := by
  induction h with
  | wait _ _ ih => exact ih hfault
  | @read upcoming m unread memory w w' r hhandle _ ih =>
    have htopic := topic_ne_exit_of_handle hhandle
    show m :: heard r.events = _
    rw [ih hfault]
    simp [aheadOfExit, firstExit, htopic]
  | reject _ => cases hfault
  | work _ _ _ ih => exact ih hfault
  | crash _ _ => cases hfault
  | @exit upcoming m unread memory w r hhandle hclosing =>
    have hexit := eq_exit_of_handle hhandle
    subst hexit
    show Message.exit :: heard r.events = _
    rw [hclosing.heard_eq]
    simp [aheadOfExit, firstExit, Message.topic]
  | hangUp hclosing => exact hclosing.heard_eq

/-- The events of a run begin with its first event, or else none of them is looked at. -/
theorem Run.events_after {e : Event ρ} {pre post : List (Event ρ)}
    (h : (r.after e).events = pre ++ post) :
    pre = [] ∧ post = e :: r.events ∨ ∃ pre', pre = e :: pre' ∧ r.events = pre' ++ post := by
  rcases List.cons_eq_append_iff.mp h with ⟨hpre, hpost⟩ | ⟨pre', hpre, hrest⟩
  · exact .inl ⟨hpre, hpost⟩
  · exact .inr ⟨pre', hpre, hrest⟩

/-- An event other than the first one comes behind it. -/
theorem Run.events_behind {e e' : Event ρ} {pre post : List (Event ρ)}
    (h : (r.after e).events = pre ++ e' :: post) (hne : e ≠ e') :
    ∃ pre', pre = e :: pre' ∧ r.events = pre' ++ e' :: post := by
  rcases Run.events_after h with ⟨-, hpost⟩ | hbehind
  · cases hpost
    exact absurd rfl hne
  · exact hbehind

/-- **Whenever work begins before the end, everything that has arrived is read.** -/
theorem Course.read_up (h : Course service upcoming unread memory w r) {c : ChunkPos} {a : ρ}
    {pre post : List (Event ρ)} (hcall : r.events = pre ++ .called c a :: post)
    (hgoing : .stopped ∉ pre) : heard pre = unread ++ (arrivals pre).flatten := by
  induction h generalizing pre with
  | wait _ _ ih =>
    obtain ⟨pre', rfl, hrest⟩ := Run.events_behind hcall nofun
    exact ih hrest fun hmem => hgoing (List.mem_cons_of_mem _ hmem)
  | @read upcoming m unread memory w w' r _ _ ih =>
    obtain ⟨pre', rfl, hrest⟩ := Run.events_behind hcall nofun
    have hread := ih hrest fun hmem => hgoing (List.mem_cons_of_mem _ hmem)
    exact congrArg (m :: ·) hread
  | reject _ =>
    obtain ⟨pre', rfl, hrest⟩ := Run.events_behind hcall nofun
    exact absurd hrest (by simp [Run.abort])
  | work _ _ _ ih =>
    rcases Run.events_after hcall with ⟨rfl, -⟩ | ⟨pre₁, rfl, h₁⟩
    · rfl
    · obtain ⟨pre₂, rfl, h₂⟩ := Run.events_behind h₁ nofun
      obtain ⟨pre₃, rfl, h₃⟩ := Run.events_behind h₂ nofun
      exact ih h₃ fun hmem => hgoing (by simp [hmem])
  | crash _ _ =>
    rcases Run.events_after hcall with ⟨rfl, -⟩ | ⟨pre₁, rfl, h₁⟩
    · rfl
    · obtain ⟨pre₂, rfl, h₂⟩ := Run.events_behind h₁ nofun
      exact absurd h₂ (by simp [Run.abort])
  | exit _ _ =>
    obtain ⟨pre₁, rfl, h₁⟩ := Run.events_behind hcall nofun
    obtain ⟨pre₂, rfl, -⟩ := Run.events_behind h₁ nofun
    exact absurd (by simp) hgoing
  | hangUp _ =>
    obtain ⟨pre₁, rfl, -⟩ := Run.events_behind hcall nofun
    exact absurd List.mem_cons_self hgoing

end Reading

end Blockworld.Worker
