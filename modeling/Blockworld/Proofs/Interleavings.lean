/-
# Interleavings

A run of an engine is any interleaving of the operations of the main loop with the steps of the
workers (`Engine.Run`).  Operations are used as they are meant to be: the viewer moves to the floor
of a chunk, and edits write blocks that name a material.  Coordinates stay far enough from the
limits of words that no computation overflows.

Every state of such a run is settled (`Run.settled`): each step keeps the invariant, whichever it
is.  Two consequences:

* no step of a run fails, but for edits outside the loaded world (`Run.step_ok`);
* once nothing is under way any more, the filed meshes are those of the world as it is
  (`Run.meshes_current`).

A run gets there by making the last mesh (`comes_to_rest`): the steps that are left cannot overflow,
whatever the snapshot is.
-/
import Blockworld.Proofs.Convergence
import Blockworld.Proofs.Crew
import Blockworld.Proofs.Places

namespace Blockworld

/-! ## 1. Rest -/

namespace Switchboard

/-- Nothing is under way: no message waits anywhere, and no worker has a request queued or in
process. -/
structure AtRest (b : Switchboard) : Prop where
  responses : b.responses = []
  inboxes : ∀ ch ∈ b.channels, ch.inbox = []
  queues : ∀ named ∈ b.workers, named.2.worker.queue.isEmpty = true
  hands : ∀ named ∈ b.workers, named.2.held = none

theorem atRest_iff {b : Switchboard} :
    b.AtRest ↔ b.responses.isEmpty = true ∧ (∀ ch ∈ b.channels, ch.inbox.isEmpty = true) ∧
      ∀ named ∈ b.workers,
        named.2.worker.queue.isEmpty = true ∧ named.2.held.isNone = true := by
  simp only [List.isEmpty_iff, Option.isNone_iff_eq_none]
  constructor
  · rintro ⟨hresponses, hinboxes, hqueues, hhands⟩
    exact ⟨hresponses, hinboxes, fun named hnamed => ⟨hqueues named hnamed, hhands named hnamed⟩⟩
  · rintro ⟨hresponses, hinboxes, hworkers⟩
    exact ⟨hresponses, hinboxes, fun named hnamed => (hworkers named hnamed).1,
      fun named hnamed => (hworkers named hnamed).2⟩

instance (b : Switchboard) : Decidable b.AtRest := decidable_of_iff _ atRest_iff.symm

/-- **At rest no response is to come.** -/
theorem Staffed.backlog_eq_nil {b : Switchboard} {policy : OnDuplicate} {boundary : Boundary}
    (h : b.Staffed policy boundary) (hrest : b.AtRest) {t : Topic} (ht : t.isRequest = true)
    (c : ChunkPos) : b.backlog t c = [] := by
  obtain ⟨i, ch, a, hplace, hi, -, -, hserves⟩ := h.exists_channel ht c
  have hch : ch ∈ b.channels := List.mem_of_getElem? hi
  have hworker := mem_workers hch hserves.subscriber
  have hempty := hrest.queues _ hworker
  have hpending : a.worker.queue.pending[c]? = none :=
    Std.TreeMap.getElem?_of_isEmpty hempty
  have hheld : a.held = none := hrest.hands _ hworker
  unfold backlog
  rw [hrest.responses, owed_eq hi hplace, hserves.owes_eq, hrest.inboxes ch hch, ActiveWorker.owes,
    hpending, hheld]
  rfl

end Switchboard

/-! ## 2. The last mesh -/

theorem WorkQueue.isEmpty_of_size {α : Type} {q : WorkQueue α} (h : q.size = 0) :
    q.isEmpty = true := by
  rw [isEmpty, Std.TreeMap.isEmpty_eq_size_eq_zero, beq_iff_eq]
  exact h

namespace Switchboard

variable {b : Switchboard} {i : Nat}

/-- The only thing under way is one request in the queue of a worker that makes meshes. -/
structure OneMeshLeft (b : Switchboard) (i : Nat) : Prop where
  mesher : i ∈ b.subscribers .meshRequest
  queued : ∀ j (hj : j < b.channels.length), b.channels[j].queued = if j = i then 1 else 0
  responses : b.responses = []
  inboxes : ∀ ch ∈ b.channels, ch.inbox = []
  hands : ∀ named ∈ b.workers, named.2.held = none

theorem OneMeshLeft.queued_eq (h : b.OneMeshLeft i) {j : Nat} {ch : Channel}
    (hj : b.channels[j]? = some ch) : ch.queued = if j = i then 1 else 0 := by
  obtain ⟨hlt, rfl⟩ := List.getElem?_eq_some_iff.mp hj
  exact h.queued j hlt

/-- **Its worker makes the mesh and sends it**, and has nothing left to do then. -/
theorem Staffed.exists_lastMesh {policy : OnDuplicate} {boundary : Boundary}
    (h : b.Staffed policy boundary) (hlast : b.OneMeshLeft i) :
    ∃ ch busy free m, b.channels[i]? = some ch ∧ ch.process = (busy, []) ∧
      busy.deliver = (free, [.meshResponse m]) ∧ free.inbox = ch.inbox ∧
      (∀ a, busy.subscriber = .worker a → a.fault = none) ∧
      ∀ a, free.subscriber = .worker a →
        a.fault = none ∧ a.held = none ∧ a.worker.queue.isEmpty = true := by
  obtain ⟨ch, hi, hsubscribes⟩ := mem_subscribers.mp hlast.mesher
  obtain ⟨a, hhired, hserves⟩ := h.serves i ch hi
  have hheld : a.held = none :=
    hlast.hands _ (mem_workers (List.mem_of_getElem? hi) hserves.subscriber)
  have hworks : ch.process = ({ ch with subscriber := .worker a.process }, []) := by
    simp [Channel.process, hserves.subscriber, hheld, hserves.isRunning]
  have hsize : a.worker.queue.size = 1 := by
    have hqueued := hlast.queued_eq hi
    rw [Channel.queued, hserves.subscriber, if_pos rfl] at hqueued
    exact hqueued
  rw [Channel.subscribes, hserves.topics, Job.subscribes_iff rfl] at hsubscribes
  obtain ⟨job, w, held, fault⟩ := a
  rcases hhired with ⟨t, rfl⟩ | rfl
  · cases hsubscribes
  · rcases hserves.queue.dequeue_cases with
      ⟨-, hempty⟩ | ⟨c, r, queue, hdequeue, hr, -, -, -, -⟩
    · rw [WorkQueue.size_eq_zero_iff.mpr hempty] at hsize
      cases hsize
    · have hsound : Snapshot.Sound r := (hserves.pending c r hr).2.2
      obtain ⟨qs, hmesh, -⟩ := hsound.exists_mesh boundary
      have hm : (Job.mesh boundary).service.process c r =
          .ok (.meshResponse (Mesh.ofQuads (Snapshot.coords r) qs)) := by
        show (Snapshot.mesh r boundary).map Message.meshResponse = _
        rw [hmesh]
        rfl
      have hrest : queue.size = 0 := Nat.succ_inj.mp ((WorkQueue.size_served hdequeue).trans hsize)
      rw [ActiveWorker.process_eq_holding hdequeue hm] at hworks
      refine ⟨ch, _, _, _, hi, hworks, rfl, rfl, ?_, ?_⟩
      · rintro _ ⟨⟩
        exact hserves.fault
      · rintro _ ⟨⟩
        exact ⟨hserves.fault, rfl, WorkQueue.isEmpty_of_size hrest⟩

/-- The other workers have nothing to do. -/
theorem Staffed.idle_of_oneMeshLeft {policy : OnDuplicate} {boundary : Boundary}
    (h : b.Staffed policy boundary) (hlast : b.OneMeshLeft i) {j : Nat} {ch : Channel}
    {a : ActiveWorker} (hji : j ≠ i) (hj : b.channels[j]? = some ch)
    (ha : ch.subscriber = .worker a) :
    a.fault = none ∧ a.held = none ∧ a.worker.queue.isEmpty = true := by
  obtain ⟨a', -, hserves⟩ := h.serves j ch hj
  have hqueued := hlast.queued_eq hj
  rw [Channel.queued, ha, if_neg hji] at hqueued
  refine ⟨?_, hlast.hands _ (mem_workers (List.mem_of_getElem? hj) ha),
    WorkQueue.isEmpty_of_size hqueued⟩
  have hsame := hserves.subscriber
  rw [ha] at hsame
  cases hsame
  exact hserves.fault

/-- A second channel in the same place takes the place of the first. -/
theorem swap_swap (ch ch' : Channel) (out out' : List Message) :
    (b.swap i ch out).swap i ch' out' = b.swap i ch' (out ++ out') := by
  simp [swap]

/-- What is true of all workers, the one on a new channel included. -/
theorem forall_workers_swap {test : ActiveWorker → Prop} {ch ch' : Channel} {out : List Message}
    (hi : b.channels[i]? = some ch) (hnew : ∀ a, ch'.subscriber = .worker a → test a)
    (hold : ∀ j ch a, j ≠ i → b.channels[j]? = some ch → ch.subscriber = .worker a → test a) :
    ∀ named ∈ (b.swap i ch' out).workers, test named.2 := by
  intro named hnamed
  obtain ⟨x, hx, hworker⟩ := List.mem_filterMap.mp hnamed
  obtain ⟨j, hj⟩ := List.mem_iff_getElem?.mp hx
  split at hworker
  · next a ha =>
    cases hworker
    rcases getElem?_swap hi hj with ⟨rfl, rfl⟩ | ⟨hji, hj'⟩
    · exact hnew a ha
    · exact hold j x a hji hj' ha
  · cases hworker

end Switchboard

namespace Engine

/-! ## 3. Runs -/

/-- The action uses an operation as it is meant to be used. -/
def Action.Allowed : Action → Prop
  | .moveViewer viewer => viewer.Aligned
  | .edit _ block => block.Known
  | _ => True

/-- A step in which no word was too small: neither the operation nor a worker was stopped by an
overflow. -/
structure Fits (after : Engine × Except Failure Unit) : Prop where
  operation : ∀ op, after.2 ≠ .error (.aborted (.overflow op))
  workers : ∀ named ∈ after.1.board.workers, ∀ op, named.2.fault ≠ some (.overflow op)

theorem fits_iff {after : Engine × Except Failure Unit} :
    Fits after ↔
      (match after.2 with
        | .error (.aborted (.overflow _)) => false
        | _ => true) = true ∧
      ∀ named ∈ after.1.board.workers,
        (match named.2.fault with
          | some (.overflow _) => false
          | _ => true) = true := by
  constructor
  · rintro ⟨hoperation, hworkers⟩
    refine ⟨?_, fun named hnamed => ?_⟩
    · split
      · next op heq => exact absurd heq (hoperation op)
      · rfl
    · split
      · next op heq => exact absurd heq (hworkers named hnamed op)
      · rfl
  · rintro ⟨hoperation, hworkers⟩
    refine ⟨fun op heq => ?_, fun named hnamed op heq => ?_⟩
    · rw [heq] at hoperation
      cases hoperation
    · have hworker := hworkers named hnamed
      rw [heq] at hworker
      cases hworker

instance (after : Engine × Except Failure Unit) : Decidable (Fits after) :=
  decidable_of_iff _ fits_iff.symm

/-- The states that the interleavings of an engine lead to. -/
inductive Run (config : Config) : Engine → Prop
  | start {e : Engine} (h : Engine.start config = .ok e) : Run config e
  | step {e : Engine} {a : Action} (h : Run config e) (ha : a.Allowed) (hfits : Fits (e.step a)) :
      Run config (e.step a).1

/-- The state after several steps. -/
def after (e : Engine) : List Action → Engine
  | [] => e
  | a :: rest => (e.step a).1.after rest

/-- Several steps in none of which a word was too small. -/
def AllFit (e : Engine) : List Action → Prop
  | [] => True
  | a :: rest => Fits (e.step a) ∧ (e.step a).1.AllFit rest

instance AllFit.decide (e : Engine) : (actions : List Action) → Decidable (e.AllFit actions)
  | [] => .isTrue trivial
  | a :: rest =>
    have := AllFit.decide (e.step a).1 rest
    inferInstanceAs (Decidable (Fits (e.step a) ∧ (e.step a).1.AllFit rest))

variable {config : Config} {e : Engine}

/-- A run goes on through any list of actions in which no word is too small. -/
theorem Run.after (h : Run config e) {actions : List Action}
    (hallowed : ∀ a ∈ actions, a.Allowed) (hfits : e.AllFit actions) :
    Run config (e.after actions) := by
  induction actions generalizing e with
  | nil => exact h
  | cons a rest ih =>
    obtain ⟨hfirst, hrest⟩ := hfits
    exact ih (h.step (hallowed a List.mem_cons_self) hfirst)
      (fun a' ha' => hallowed a' (List.mem_cons_of_mem _ ha')) hrest

/-! ## 4. Every state of a run is settled -/

/-- **An engine starts settled.** -/
theorem settled_start (h : start config = .ok e) : e.config = config ∧ e.Settled := by
  unfold start at h
  split at h
  · cases h
  · next hvalidate =>
    split at h
    · cases h
    · next b hcrew =>
      cases h
      have hvalid := (Config.validate_eq_ok_iff config).mp hvalidate
      refine ⟨rfl, staffed_crew hvalid hcrew, World.sound_empty config.worldHeight,
        hvalid.viewer_aligned, fun c hc _ => ?_⟩
      rw [World.contains_eq_isSome] at hc
      cases hc

/-- An operation that leads somewhere, and does not overflow, succeeds and gets there. -/
theorem Leads.outcome_of_fits {α : Type} {op : EngineM α} {post : α → Engine → Prop}
    (h : Leads op e post) (hfits : Fits (outcome op e)) :
    (outcome op e).2 = .ok () ∧ ∃ a, post a (outcome op e).1 := by
  have hleaves := ends_iff_leaves.mp h
  rcases hout : outcome op e with ⟨e', failure | _⟩
  · rw [hout] at hfits
    obtain ⟨operation, rfl⟩ := hleaves.of_outcome_error hout
    exact absurd rfl (hfits.operation operation)
  · exact ⟨rfl, hleaves.of_outcome_ok hout⟩

/-- **Every step leaves all meshes current**, and does not fail unless an edit is refused. -/
theorem Settled.step (h : e.Settled) (hreplace : e.config.onDuplicate = .replace) {a : Action}
    (ha : a.Allowed) (hfits : Fits (e.step a)) :
    ((e.step a).1.config = e.config ∧ (e.step a).1.Settled) ∧
      ((e.step a).2 = .ok () ∨
        ∃ p block cause, a = .edit p block ∧ (e.step a).2 = .error (.refused cause)) := by
  cases a with
  | load =>
    obtain ⟨hok, -, hpost⟩ := (Tidy.requestInRange h).outcome_of_fits hfits
    exact ⟨hpost, .inl hok⟩
  | moveViewer viewer =>
    obtain ⟨hok, -, hpost⟩ := (h.moveViewer ha).outcome_of_fits hfits
    exact ⟨hpost, .inl hok⟩
  | edit p block =>
    rcases h.edit p ha with ⟨cause, hrun⟩ | hleads
    · have hstep : e.step (.edit p block) = (e, .error (.refused cause)) := by
        show outcome (Engine.edit p block) e = _
        unfold outcome
        rw [hrun]
      rw [hstep]
      exact ⟨⟨rfl, h⟩, .inr ⟨p, block, cause, rfl, rfl⟩⟩
    · obtain ⟨hok, -, hpost⟩ := hleads.outcome_of_fits hfits
      exact ⟨hpost, .inl hok⟩
  | handleNext =>
    obtain ⟨hok, -, hpost⟩ := h.handleNext.outcome_of_fits hfits
    exact ⟨hpost, .inl hok⟩
  | receive i =>
    obtain ⟨hstaffed, hlast⟩ := h.staffed.receive i
    exact ⟨⟨rfl, h.board hstaffed fun c => hlast hreplace .meshRequest c⟩, .inl rfl⟩
  | process i =>
    obtain ⟨hstaffed, hbacklog⟩ := h.staffed.process i hfits.workers
    exact ⟨⟨rfl, h.board hstaffed fun c => congrArg List.getLast? (hbacklog .meshRequest c)⟩,
      .inl rfl⟩
  | deliver i =>
    obtain ⟨hstaffed, hbacklog⟩ := h.staffed.deliver i
    exact ⟨⟨rfl, h.board hstaffed fun c => congrArg List.getLast? (hbacklog .meshRequest c rfl)⟩,
      .inl rfl⟩

namespace Run

/-- **Every state of a run is settled**, provided new payloads replace old ones. -/
theorem settled (h : Run config e) (hreplace : config.onDuplicate = .replace) :
    e.config = config ∧ e.Settled := by
  induction h with
  | start h => exact settled_start h
  | step _ ha hfits ih =>
    obtain ⟨hconfig, hsettled⟩ := ih
    obtain ⟨⟨hsame, hsettled'⟩, -⟩ := hsettled.step (by rw [hconfig, hreplace]) ha hfits
    exact ⟨hsame.trans hconfig, hsettled'⟩

/-- **No step of a run fails**, except that edits are refused outside the loaded world. -/
theorem step_ok (h : Run config e) (hreplace : config.onDuplicate = .replace) {a : Action}
    (ha : a.Allowed) (hfits : Fits (e.step a)) :
    (e.step a).2 = .ok () ∨
      ∃ p block cause, a = .edit p block ∧ (e.step a).2 = .error (.refused cause) := by
  obtain ⟨hconfig, hsettled⟩ := h.settled hreplace
  exact (hsettled.step (by rw [hconfig, hreplace]) ha hfits).2

end Run

/-! ## 5. The way to rest -/

/-- A worker processes a request and sends the response, and the response is handled. -/
def finishRequest (i : Nat) : List Action := [.process i, .deliver i, .handleNext]

/-- A step that ends well fits if no worker is stopped by a fault. -/
theorem fits_of_fault_eq {e' : Engine} (h : ∀ named ∈ e'.board.workers, named.2.fault = none) :
    Fits (e', .ok ()) := by
  refine ⟨nofun, fun named hnamed op hfault => ?_⟩
  rw [h named hnamed] at hfault
  cases hfault

/-- Handling a mesh files it or drops it. -/
theorem step_handleNext_mesh {b : Switchboard} {m : Mesh}
    (h : e.board.takeResponse = (some (.meshResponse m), b)) :
    ∃ meshes, e.step .handleNext = ({ e with board := b, meshes := meshes }, .ok ()) := by
  have hrun : e.step .handleNext =
      (if e.world.contains m.coords then { e with board := b, meshes := e.meshes.install m }
        else { e with board := b }, .ok ()) := by
    show outcome Engine.handleNext e = _
    unfold outcome Engine.handleNext
    simp only [run_bind, run_get, h]
    rfl
  rw [hrun]
  split
  · exact ⟨_, rfl⟩
  · exact ⟨e.meshes, rfl⟩

/-- **Once one mesh is left to make, three steps bring the engine to rest**, none of which can
overflow.  They leave the world as it is. -/
theorem comes_to_rest {policy : OnDuplicate} {boundary : Boundary}
    (h : e.board.Staffed policy boundary) (hlast : e.board.OneMeshLeft i) :
    e.AllFit (finishRequest i) ∧ (e.after (finishRequest i)).board.AtRest ∧
      (e.after (finishRequest i)).world = e.world := by
  obtain ⟨ch, busy, free, m, hi, hprocess, hdeliver, hinbox, hbusy, hfree⟩ :=
    h.exists_lastMesh hlast
  have hlt := (List.getElem?_eq_some_iff.mp hi).1
  have hfirst : e.step (.process i) = ({ e with board := e.board.swap i busy [] }, .ok ()) := by
    rw [Engine.step, Switchboard.advance_eq hi, hprocess]
  have hsecond : Engine.step { e with board := e.board.swap i busy [] } (.deliver i) =
      ({ e with board := e.board.swap i free [.meshResponse m] }, .ok ()) := by
    have hi' : (e.board.swap i busy []).channels[i]? = some busy := List.getElem?_set_self hlt
    rw [Engine.step, Switchboard.advance_eq hi', hdeliver, Switchboard.swap_swap]
    rfl
  obtain ⟨meshes, hthird⟩ := step_handleNext_mesh
    (e := { e with board := e.board.swap i free [.meshResponse m] }) (b := e.board.swap i free [])
    (m := m) (by simp [Switchboard.takeResponse, Switchboard.swap, hlast.responses])
  have hbusyFits : ∀ named ∈ (e.board.swap i busy []).workers, named.2.fault = none :=
    Switchboard.forall_workers_swap hi hbusy fun j ch a hji hj ha =>
      (h.idle_of_oneMeshLeft hlast hji hj ha).1
  have hidle : ∀ out, ∀ named ∈ (e.board.swap i free out).workers,
      named.2.fault = none ∧ named.2.held = none ∧ named.2.worker.queue.isEmpty = true :=
    fun out => Switchboard.forall_workers_swap hi hfree fun j ch a => h.idle_of_oneMeshLeft hlast
  have hafter : e.after (finishRequest i) =
      { e with board := e.board.swap i free [], meshes := meshes } := by
    simp only [finishRequest, after, hfirst, hsecond, hthird]
  refine ⟨?_, ?_, by rw [hafter]⟩
  · simp only [finishRequest, AllFit, hfirst, hsecond, hthird, and_true]
    exact ⟨fits_of_fault_eq hbusyFits,
      fits_of_fault_eq fun named hnamed => (hidle _ named hnamed).1,
      fits_of_fault_eq fun named hnamed => (hidle _ named hnamed).1⟩
  · rw [hafter]
    refine ⟨?_, fun x hx => ?_, fun named hnamed => (hidle _ named hnamed).2.2,
      fun named hnamed => (hidle _ named hnamed).2.1⟩
    · simp [Switchboard.swap, hlast.responses]
    · rcases List.mem_or_eq_of_mem_set hx with hold | rfl
      · exact hlast.inboxes x hold
      · rw [hinbox]
        exact hlast.inboxes ch (List.mem_of_getElem? hi)

/-! ## 6. Meshes at rest -/

namespace Run

/-- **Once nothing is under way, the filed meshes are those of the world as it is.**  Every loaded
chunk can be meshed, and the result is what is filed for it; nothing is filed if there is nothing to
draw. -/
theorem meshes_current (h : Run config e) (hreplace : config.onDuplicate = .replace)
    (hrest : e.board.AtRest) {c : ChunkPos} (hc : e.world.contains c = true) :
    ∃ s m, e.world.snapshot? c = .ok (some s) ∧ s.mesh config.boundary = .ok m ∧
      e.meshes.get? c = if m.hasQuads then some m else none := by
  obtain ⟨rfl, hsettled⟩ := h.settled hreplace
  obtain ⟨m, hfresh, hlast⟩ := hsettled.current c hc not_false
  rw [hsettled.staffed.backlog_eq_nil hrest rfl c] at hlast
  obtain ⟨-, hfiled⟩ := hlast.resolve_left nofun
  obtain ⟨s, hs, hmesh⟩ := World.freshMesh_eq_some_iff.mp hfresh
  exact ⟨s, m, hs, hmesh, hfiled⟩

end Run

/-- A world of a single chunk without solid cells. -/
def meadow : Config where
  renderDistance := 0
  worldHeight := 16
  meshWorkers := 1
  chunkWorkers := 1
  generation := .empty
  boundary := .exposed

/-- The engine of the meadow, with a channel for each of its two workers. -/
def meadowStart : Engine :=
  ofCrew meadow ⟨1000,
    idleChannels "chunk-gen" (.generate (terrain meadow)) (scheduling meadow) 0 1 ++
      idleChannels "mesh-gen" (.mesh .exposed) (scheduling meadow) 0 1, []⟩

theorem start_meadow : start meadow = .ok meadowStart := by
  have hcrew : crew meadow = .ok meadowStart.board := by
    unfold crew
    rw [show meadow.chunkWorkers = 1 from rfl, show meadow.meshWorkers = 1 from rfl]
    simp only [spawnWorkers]
    rw [Switchboard.spawn_eq_ok (by decide) (by decide +kernel)]
    dsimp only
    rw [Switchboard.spawn_eq_ok (by decide) (by decide +kernel)]
    rfl
  unfold start
  rw [show meadow.validate = .ok () from by decide +kernel, hcrew]
  rfl

/-- The chunk is generated and inserted.  Before it is meshed a stone is put into it, so that its
mesh is asked for twice, and both requests are received as one. -/
def stoneActions : List Action :=
  [.load, .receive 0, .process 0, .deliver 0, .handleNext, .edit ⟨0, 0, 0⟩ (.ofMaterial .stone),
    .receive 1, .receive 1]

/-- The meadow with a stone in it. -/
def stoneLaid : Engine := meadowStart.after stoneActions

theorem run_stoneLaid : Run meadow stoneLaid := by
  refine (Run.start start_meadow).after (fun a ha => ?_) (by decide +kernel)
  simp only [stoneActions, List.mem_cons, List.not_mem_nil, or_false] at ha
  rcases ha with rfl | rfl | rfl | rfl | rfl | rfl | rfl | rfl
  case inr.inr.inr.inr.inr.inl => exact Block.known_ofMaterial .stone
  all_goals trivial

theorem stoneLaid_oneMeshLeft : stoneLaid.board.OneMeshLeft 1 where
  mesher := by decide +kernel
  queued := by decide +kernel
  responses := List.isEmpty_iff.mp (by decide +kernel)
  inboxes := by
    have hinboxes : ∀ ch ∈ stoneLaid.board.channels, ch.inbox.isEmpty = true := by decide +kernel
    exact fun ch hch => List.isEmpty_iff.mp (hinboxes ch hch)
  hands := by
    have hhands : ∀ named ∈ stoneLaid.board.workers, named.2.held.isNone = true := by
      decide +kernel
    exact fun named hnamed => Option.isNone_iff_eq_none.mp (hhands named hnamed)

/-- The stone lies in lit air. -/
theorem get_of_chunk?_stoneLaid {chunk : Chunk} (h : stoneLaid.world.chunk? .zero = some chunk) :
    chunk.get ⟨0, 0, 0⟩ = .ofMaterial .stone ∧ chunk.get ⟨1, 0, 0⟩ = Block.sky := by
  have hcells : (stoneLaid.world.chunk? .zero).map
      (fun chunk => (chunk.get ⟨0, 0, 0⟩, chunk.get ⟨1, 0, 0⟩)) =
        some (.ofMaterial .stone, Block.sky) := by decide +kernel
  rw [h] at hcells
  exact Prod.mk.inj (Option.some.inj hcells)

/-- The stone is drawn. -/
theorem meadow_meshes_current :
    Run meadow (stoneLaid.after (finishRequest 1)) ∧ meadow.onDuplicate = .replace ∧
      (stoneLaid.after (finishRequest 1)).board.AtRest ∧
      (stoneLaid.after (finishRequest 1)).world.contains .zero = true ∧
      ∃ s m, (stoneLaid.after (finishRequest 1)).world.snapshot? .zero = .ok (some s) ∧
        s.mesh .exposed = .ok m ∧ m.hasQuads = true ∧
        (stoneLaid.after (finishRequest 1)).meshes.get? .zero = some m := by
  obtain ⟨-, hsettled⟩ := run_stoneLaid.settled rfl
  obtain ⟨hfits, hrest, hworld⟩ := comes_to_rest hsettled.staffed stoneLaid_oneMeshLeft
  have hrun : Run meadow (stoneLaid.after (finishRequest 1)) :=
    run_stoneLaid.after (by simp [finishRequest, Action.Allowed]) hfits
  have hloaded : stoneLaid.world.contains .zero = true := by decide +kernel
  rw [← hworld] at hloaded
  obtain ⟨s, m, hs, hmesh, hfiled⟩ := hrun.meshes_current rfl hrest hloaded
  have hvisible : m.hasQuads = true := by
    obtain ⟨-, hrested⟩ := hrun.settled rfl
    refine ((hrested.sound.snapshot hs).hasQuads_iff hmesh).mpr ⟨⟨0, 0, 0⟩, .east, ?_⟩
    obtain ⟨chunk, around, hchunk, -, rfl⟩ := World.snapshot?_eq_some_iff.mp hs
    rw [hworld] at hchunk
    obtain ⟨hstone, hsky⟩ := get_of_chunk?_stoneLaid hchunk
    refine ⟨?_, Block.sky, congrArg some hsky, Slice.showsFace_of_isAir (by decide)⟩
    rw [hstone]
    decide
  rw [if_pos hvisible] at hfiled
  exact ⟨hrun, rfl, hrest, hloaded, s, m, hs, hmesh, hvisible, hfiled⟩

end Engine

end Blockworld
