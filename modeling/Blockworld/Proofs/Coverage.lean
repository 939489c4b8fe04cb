/-
# Coverage

In a run in which nothing breaks the engine ends up with what is in range loaded, and nothing else.
`Engine.Tour` is such a run: any interleaving of the operations of the main loop, for viewers on
chunk floors and any blocks, with the steps of the workers, in which no operation and no worker is
stopped by a fault and every message is delivered.  Its index is what has happened so far, each
action with the state it was taken in.

Every step keeps the books (`Kept.step`), so they are in order in every state of a tour
(`Tour.in_order`).  What is asked for is under way, and at rest nothing is
(`Switchboard.AtRest.not_underway`): then all that is in range is loaded, if anything has been asked
for at all.
-/
import Blockworld.Proofs.Bookkeeping
import Blockworld.Proofs.Interleavings

namespace Blockworld

/-! ## 1. Boards on which nothing is under way -/

/-- **At rest no chunk is under way.** -/
theorem Switchboard.AtRest.not_underway {b : Switchboard} (hrest : b.AtRest) (c : ChunkPos) :
    ¬b.Underway c := by
  rintro (⟨ch, hch, a, ha, ⟨-, ⟨urgent, hmem⟩ | hqueued⟩ | ⟨chunk, hheld, -⟩⟩ | ⟨chunk, hmem, -⟩)
  · rw [hrest.inboxes ch hch] at hmem
    cases hmem
  · have hempty := hrest.queues _ (mem_workers hch ha)
    rw [WorkQueue.contains, Std.TreeMap.contains_of_isEmpty hempty] at hqueued
    cases hqueued
  · rw [hrest.hands _ (mem_workers hch ha)] at hheld
    cases hheld
  · rw [hrest.responses] at hmem
    cases hmem

/-- The channel of a worker that has been sent nothing is manned, and no chunk is under way on
it. -/
theorem Channel.manned_idle (name : String) (job : Job) (scheduling : Scheduling) :
    (Channel.idle name job scheduling).Manned (.start job name scheduling) ∧
      ∀ c, ¬(Channel.idle name job scheduling).Underway c := by
  have hmanned : (Channel.idle name job scheduling).Manned (.start job name scheduling) :=
    ⟨rfl, rfl, rfl, nofun, WorkQueue.sound_empty scheduling.viewer scheduling.policy, nofun⟩
  refine ⟨hmanned, fun c hunderway => ?_⟩
  rcases (hmanned.underway_iff c).mp hunderway with
    ⟨-, ⟨urgent, hmem⟩ | hqueued⟩ | ⟨chunk, hheld, -⟩
  · cases hmem
  · have hempty : (∅ : Std.TreeMap ChunkPos job.Request).contains c = true := hqueued
    rw [Std.TreeMap.contains_emptyc] at hempty
    cases hempty
  · cases hheld

namespace Engine

/-! ## 2. Tours -/

/-- A step in which nothing breaks: the operation is not stopped by a fault and delivers its
messages, and no worker has been stopped. -/
structure Smooth (after : Engine × Except Failure Unit) : Prop where
  operation : ∀ failure, after.2 = .error failure → ¬Broken failure
  workers : ∀ named ∈ after.1.board.workers, named.2.fault = none

theorem smooth_ok {e' : Engine} :
    Smooth (e', .ok ()) ↔ ∀ named ∈ e'.board.workers, named.2.fault = none :=
  ⟨Smooth.workers, fun hworkers => ⟨nofun, hworkers⟩⟩

theorem smooth_error {e' : Engine} {failure : Failure} :
    Smooth (e', .error failure) ↔
      ¬Broken failure ∧ ∀ named ∈ e'.board.workers, named.2.fault = none := by
  constructor
  · rintro ⟨hoperation, hworkers⟩
    exact ⟨hoperation failure rfl, hworkers⟩
  · rintro ⟨hwhole, hworkers⟩
    refine ⟨fun failure' heq => ?_, hworkers⟩
    cases heq
    exact hwhole

instance : (after : Engine × Except Failure Unit) → Decidable (Smooth after)
  | (_, .ok ()) => decidable_of_iff _ smooth_ok.symm
  | (_, .error _) => decidable_of_iff _ smooth_error.symm

/-- The viewer moves to chunk floors only. -/
def Action.Aligned : Action → Prop
  | .moveViewer viewer => viewer.Aligned
  | _ => True

/-- The action asks for all that is in range, begun in a state. -/
def Action.Asks (e : Engine) : Action → Prop
  | .load => True
  | .moveViewer viewer => viewer ≠ e.viewer
  | _ => False

/-- The states that the interleavings of an engine lead to, with what has happened so far, the
latest first. -/
inductive Tour (config : Config) : List (Engine × Action) → Engine → Prop
  | start {e : Engine} (h : Engine.start config = .ok e) : Tour config [] e
  | step {past : List (Engine × Action)} {e : Engine} {a : Action} (h : Tour config past e)
      (haligned : a.Aligned) (hsmooth : Smooth (e.step a)) :
      Tour config ((e, a) :: past) (e.step a).1

/-- Something has been asked for. -/
def Asked (past : List (Engine × Action)) : Prop := ∃ entry ∈ past, entry.2.Asks entry.1

/-- Several steps in none of which anything breaks. -/
def AllSmooth (e : Engine) : List Action → Prop
  | [] => True
  | a :: rest => Smooth (e.step a) ∧ (e.step a).1.AllSmooth rest

instance AllSmooth.decide (e : Engine) : (actions : List Action) → Decidable (e.AllSmooth actions)
  | [] => .isTrue trivial
  | a :: rest =>
    have := AllSmooth.decide (e.step a).1 rest
    inferInstanceAs (Decidable (Smooth (e.step a) ∧ (e.step a).1.AllSmooth rest))

/-- What has happened after several steps. -/
def trail (e : Engine) (past : List (Engine × Action)) : List Action → List (Engine × Action)
  | [] => past
  | a :: rest => (e.step a).1.trail ((e, a) :: past) rest

variable {config : Config} {e : Engine} {asked : Prop} {past : List (Engine × Action)}

/-- A tour goes on through any list of actions in which nothing breaks. -/
theorem Tour.after (h : Tour config past e) {actions : List Action}
    (haligned : ∀ a ∈ actions, a.Aligned) (hsmooth : e.AllSmooth actions) :
    Tour config (e.trail past actions) (e.after actions) := by
  induction actions generalizing e past with
  | nil => exact h
  | cons a rest ih =>
    obtain ⟨hfirst, hrest⟩ := hsmooth
    exact ih (h.step (haligned a List.mem_cons_self) hfirst)
      (fun a' ha' => haligned a' (List.mem_cons_of_mem _ ha')) hrest

/-- Nothing that has happened is forgotten. -/
theorem Asked.after (h : Asked past) (actions : List Action) : Asked (e.trail past actions) := by
  induction actions generalizing e past with
  | nil => exact h
  | cons a rest ih =>
    obtain ⟨entry, hentry, hasks⟩ := h
    exact ih ⟨entry, List.mem_cons_of_mem _ hentry, hasks⟩

/-! ## 3. Steps -/

/-- The switchboard of a started engine is manned, and no chunk is under way on it. -/
theorem manned_crew {b : Switchboard} (h : crew config = .ok b) :
    b.Manned config.boundary ∧ ∀ c, ¬b.Underway c := by
  constructor
  · intro ch hch
    obtain ⟨name, job, hhired, rfl⟩ := eq_idle_of_mem_crew h hch
    exact ⟨_, hhired, (Channel.manned_idle name job (scheduling config)).1⟩
  · rintro c (⟨ch, hch, hunderway⟩ | ⟨chunk, hmem, -⟩)
    · obtain ⟨name, job, -, rfl⟩ := eq_idle_of_mem_crew h hch
      exact (Channel.manned_idle name job (scheduling config)).2 c hunderway
    · rw [(channels_crew h).2] at hmem
      cases hmem

/-- An engine starts with its books in order. -/
theorem kept_start (h : start config = .ok e) : e.config = config ∧ Kept False e := by
  unfold start at h
  split at h
  · cases h
  · next hvalidate =>
    split at h
    · cases h
    · next b hcrew =>
      cases h
      have hvalid := (Config.validate_eq_ok_iff config).mp hvalidate
      obtain ⟨hmanned, hnothing⟩ := manned_crew hcrew
      have hunloaded : ∀ c, (World.empty config.worldHeight).contains c = false := by
        intro c
        rw [World.contains_eq_isSome, World.chunk?_empty]
        rfl
      have hunasked : ∀ c, c ∉ (∅ : Std.TreeSet ChunkPos) := fun c => Std.TreeSet.not_mem_emptyc
      refine ⟨rfl, ⟨hmanned, fun c hc => absurd hc (hunasked c), fun c hc => ?_, fun c hc => ?_,
        fun c m hm => ?_, fun c hc => absurd hc (hunasked c)⟩, hvalid.viewer_aligned, False.elim⟩
      · rcases hc with hloaded | hpending
        · rw [ofCrew, hunloaded] at hloaded
          cases hloaded
        · exact absurd hpending (hunasked c)
      · rcases hc with hloaded | hpending | hunderway
        · rw [ofCrew, hunloaded] at hloaded
          cases hloaded
        · exact absurd hpending (hunasked c)
        · exact absurd hunderway (hnothing c)
      · have hnone : (∅ : Std.TreeMap ChunkPos Mesh)[c]? = some m := hm
        rw [Std.TreeMap.getElem?_emptyc] at hnone
        cases hnone

/-- An operation that does not break ends as described. -/
theorem Ends.outcome_of_smooth {α : Type} {op : EngineM α} {post : α → Engine → Prop}
    (h : Ends Broken op e post) (hsmooth : Smooth (outcome op e)) :
    ∃ a, post a (outcome op e).1 := by
  have hleaves := ends_iff_leaves.mp h
  rcases hout : outcome op e with ⟨e', failure | _⟩
  · rw [hout] at hsmooth
    exact absurd (hleaves.of_outcome_error hout) (hsmooth.operation failure rfl)
  · exact hleaves.of_outcome_ok hout

/-- **Every step keeps the books in order.** -/
theorem Kept.step (h : Kept asked e) {a : Action} (haligned : a.Aligned)
    (hsmooth : Smooth (e.step a)) :
    (e.step a).1.config = e.config ∧ Kept (asked ∨ a.Asks e) (e.step a).1 := by
  have hmore : ∀ {e' : Engine}, Kept asked e' → a.Asks e = False → Kept (asked ∨ a.Asks e) e' := by
    intro e' hkept hnothing
    rw [hnothing, or_false]
    exact hkept
  cases a with
  | load =>
    obtain ⟨-, hconfig, hkept⟩ := (h.toOrderly.requestInRange h.viewer).outcome_of_smooth hsmooth
    refine ⟨hconfig, hkept.toOrderly.mono fun _ => .inr trivial, hkept.viewer, fun _ => ?_⟩
    exact hkept.complete trivial
  | moveViewer viewer =>
    obtain ⟨-, hconfig, hkept⟩ := (h.moveViewer haligned).outcome_of_smooth hsmooth
    exact ⟨hconfig, hkept⟩
  | edit p block =>
    rcases h.edit p block with ⟨cause, hrun⟩ | hends
    · have hstep : e.step (.edit p block) = (e, .error (.refused cause)) := by
        show outcome (Engine.edit p block) e = _
        unfold outcome
        rw [hrun]
      rw [hstep]
      exact ⟨rfl, hmore h rfl⟩
    · obtain ⟨-, hconfig, hkept⟩ := hends.outcome_of_smooth hsmooth
      exact ⟨hconfig, hmore hkept rfl⟩
  | handleNext =>
    obtain ⟨-, hconfig, hkept⟩ := h.handleNext.outcome_of_smooth hsmooth
    exact ⟨hconfig, hmore hkept rfl⟩
  | receive i =>
    obtain ⟨hmanned, hsame⟩ := h.manned.receive i hsmooth.workers
    exact ⟨rfl, hmore (h.sameWork ⟨_, rfl, hmanned, hsame⟩) rfl⟩
  | process i =>
    obtain ⟨hmanned, hsame⟩ := h.manned.process i hsmooth.workers
    exact ⟨rfl, hmore (h.sameWork ⟨_, rfl, hmanned, hsame⟩) rfl⟩
  | deliver i =>
    obtain ⟨hmanned, hsame⟩ := h.manned.deliver i
    exact ⟨rfl, hmore (h.sameWork ⟨_, rfl, hmanned, hsame⟩) rfl⟩

theorem asked_cons {a : Action} : Asked ((e, a) :: past) ↔ Asked past ∨ a.Asks e := by
  simp [Asked, or_comm]

/-- **The books are in order in every state of a tour.** -/
theorem Tour.kept (h : Tour config past e) : e.config = config ∧ Kept (Asked past) e := by
  induction h with
  | start hstart =>
    have hnothing : Asked [] = False := by simp [Asked]
    rw [hnothing]
    exact kept_start hstart
  | @step past e a _ haligned hsmooth ih =>
    obtain ⟨hconfig, hkept⟩ := ih
    obtain ⟨hconfig', hkept'⟩ := hkept.step haligned hsmooth
    rw [propext asked_cons]
    exact ⟨hconfig'.trans hconfig, hkept'⟩

/-! ## 4. What is in order -/

/-- What holds in every state of a tour, between operations. -/
structure InOrder (config : Config) (past : List (Engine × Action)) (e : Engine) : Prop where
  /-- What is asked for is not loaded. -/
  apart : ∀ c ∈ e.pending, e.world.contains c = false
  /-- What is loaded or asked for is in range of the viewer. -/
  inRange : ∀ c, e.world.contains c = true ∨ c ∈ e.pending →
    ∃ wanted, e.world.surroundings e.viewer config.renderDistance = .ok wanted ∧ c ∈ wanted
  /-- A mesh on file has something to draw, and its chunk is loaded. -/
  meshes : ∀ c m, e.meshes.get? c = some m → m.hasQuads = true ∧ e.world.contains c = true
  /-- What is asked for is under way. -/
  underway : ∀ c ∈ e.pending, e.board.Underway c
  /-- Once something has been asked for, everything in range is loaded or asked for. -/
  complete : Asked past → ∃ wanted,
    e.world.surroundings e.viewer config.renderDistance = .ok wanted ∧
      ∀ c ∈ wanted, e.world.contains c = true ∨ c ∈ e.pending
  /-- At rest nothing is asked for. -/
  settled : e.board.AtRest → ∀ c, c ∉ e.pending
  /-- At rest exactly what is in range is loaded, once something has been asked for. -/
  exact : e.board.AtRest → Asked past → ∃ wanted,
    e.world.surroundings e.viewer config.renderDistance = .ok wanted ∧
      ∀ c, e.world.contains c = true ↔ c ∈ wanted

/-- **The engine keeps its books in order**, whatever the configuration, the interleaving and the
duplicate policy, as long as nothing breaks. -/
theorem Tour.in_order (h : Tour config past e) : InOrder config past e := by
  obtain ⟨rfl, hkept⟩ := h.kept
  have hwithin : ∀ c, e.world.contains c = true ∨ c ∈ e.pending → ∀ wanted,
      e.world.surroundings e.viewer e.config.renderDistance = .ok wanted → c ∈ wanted := by
    intro c hc wanted hwanted
    obtain ⟨-, haligned, hfloor⟩ := hkept.placed c (hc.imp_right .inl)
    exact (World.mem_surroundings hkept.viewer hwanted).mpr
      ⟨haligned, hfloor, hkept.inside c hc⟩
  have hsettled : e.board.AtRest → ∀ c, c ∉ e.pending :=
    fun hrest c hc => hrest.not_underway c (hkept.underway c hc)
  refine
    { apart := hkept.apart
      inRange := fun c hc => ?_
      meshes := hkept.meshes
      underway := hkept.underway
      complete := hkept.complete
      settled := hsettled
      exact := fun hrest hasked => ?_ }
  · obtain ⟨wanted, hwanted, -⟩ := hkept.complete (hkept.placed c (hc.imp_right .inl)).1
    exact ⟨wanted, hwanted, hwithin c hc wanted hwanted⟩
  · obtain ⟨wanted, hwanted, hall⟩ := hkept.complete hasked
    refine ⟨wanted, hwanted, fun c => ⟨fun hloaded => hwithin c (.inl hloaded) wanted hwanted, ?_⟩⟩
    intro hc
    exact (hall c hc).resolve_right (hsettled hrest c)

/-- The viewer of the meadow steps over to the next chunk, so that its own is unloaded again. -/
def meadowWalk : List Action :=
  [.load, .receive 0, .process 0, .deliver 0, .handleNext, .moveViewer ⟨1, 0, 0⟩, .receive 0,
    .receive 0, .process 0, .deliver 0, .handleNext, .receive 1, .receive 1, .receive 1,
    .process 1, .deliver 1, .process 1, .deliver 1, .handleNext, .handleNext]

theorem tour_meadow :
    Tour meadow (meadowStart.trail [] meadowWalk) (meadowStart.after meadowWalk) := by
  refine (Tour.start start_meadow).after (fun a ha => ?_) (by decide +kernel)
  cases a with
  | moveViewer viewer =>
    have hviewer : viewer = ⟨1, 0, 0⟩ := by simpa [meadowWalk] using ha
    subst hviewer
    show (⟨1, 0, 0⟩ : ChunkPos).Aligned
    decide
  | _ => trivial

theorem meadow_in_order :
    Tour meadow (meadowStart.trail [] meadowWalk) (meadowStart.after meadowWalk) ∧
      (meadowStart.after meadowWalk).board.AtRest ∧ Asked (meadowStart.trail [] meadowWalk) ∧
      InOrder meadow (meadowStart.trail [] meadowWalk) (meadowStart.after meadowWalk) := by
  have hrest : (meadowStart.after meadowWalk).board.AtRest := by decide +kernel
  have hload : Asked [(meadowStart, .load)] := ⟨_, List.mem_singleton_self _, trivial⟩
  have hasked : Asked (meadowStart.trail [] meadowWalk) := hload.after _
  exact ⟨tour_meadow, hrest, hasked, tour_meadow.in_order⟩

end Engine

end Blockworld
