/-
# Moves of the viewer that are tried again

The viewer is IN PLACE if no chunk out of range of it is loaded and every chunk in range is loaded
or asked for (`Engine.InPlace`).  A move that succeeds leaves the viewer in place
(`Engine.inPlace_of_move`), and no other operation of the main loop and no step of a worker takes it
out of place again, whether it succeeds or fails (`Engine.InPlace.step`).

A move that fails is different.  The viewer is put where it is to go before the workers are told,
before anything is dropped and before anything is asked for, and what fails of these does not take
the viewer back.  So a second attempt finds it there already: it succeeds, and does nothing
(`Engine.retry_exact`).  Whether the viewer is in place then depends on how far the first attempt
got.

The proofs say of each part of a move what it leaves behind whichever way it ends: the board
(`BoardOnly`), the meshes on file (`leaves_collectBorder`), or the board and more chunks that are
asked for (`AskedMore`).
-/
import Blockworld.Proofs.Aftermath
import Blockworld.Proofs.Coverage

namespace Blockworld.Engine

variable {e e' : Engine} {v : ChunkPos}

/-! ## 1. Parts of a move -/

/-- Dropping meshes changes nothing else. -/
theorem always_collectBorder (e : Engine) (cs : List ChunkPos) (border : Std.TreeSet ChunkPos) :
    Always (collectBorder cs border) e fun e' => e' = { e with meshes := e'.meshes } := by
  induction cs generalizing e border with
  | nil => exact leaves_pure rfl
  | cons c rest ih =>
    refine leaves_bind (leaves_modify (leaves_bind (leaves_get (leaves_bind
      (leaves_orAbort (fun _ _ => rfl) fun beside _ => ?_)))))
    refine (ih { e with meshes := e.meshes.erase c } _).mono fun e' he' => ?_
    rw [he']

/-! ## 2. The viewer in place -/

/-- A viewer is in place: nothing is loaded out of range of it, and everything in range is loaded or
asked for. -/
structure InPlace (e : Engine) (v : ChunkPos) : Prop where
  inside : ∀ c, e.world.contains c = true → World.isOutside v e.config.renderDistance c = false
  complete : ∃ wanted, e.world.surroundings v e.config.renderDistance = .ok wanted ∧
    ∀ c ∈ wanted, e.world.contains c = true ∨ c ∈ e.pending

/-- It matters for a viewer in place only what is loaded and asked for, and this may be more. -/
theorem InPlace.transfer (h : e.InPlace v) (hconfig : e'.config = e.config)
    (hheight : e'.world.height = e.world.height)
    (hloaded : ∀ c, e'.world.contains c = e.world.contains c)
    (hpending : ∀ c ∈ e.pending, c ∈ e'.pending) : e'.InPlace v := by
  obtain ⟨hinside, wanted, hwanted, hall⟩ := h
  refine ⟨fun c hc => ?_, wanted, ?_, fun c hc => ?_⟩
  · rw [hloaded] at hc
    rw [hconfig]
    exact hinside c hc
  · rw [hconfig, World.surroundings_congr hheight]
    exact hwanted
  · rw [hloaded]
    exact (hall c hc).imp_right (hpending c)

theorem InPlace.boardOnly (h : e.InPlace v) (hsame : BoardOnly e e') : e'.InPlace v := by
  obtain ⟨b, rfl⟩ := hsame
  exact h.transfer rfl rfl (fun _ => rfl) fun _ hc => hc

theorem InPlace.askedMore (h : e.InPlace v) (hmore : AskedMore e e') : e'.InPlace v :=
  h.transfer hmore.config (by rw [hmore.world]) (fun _ => by rw [hmore.world]) hmore.pending

/-- **Asking for all that is missing puts the viewer in place**, if nothing out of range is
loaded. -/
theorem leaves_requestInRange (e : Engine) :
    Leaves (fun _ => AskedMore e) requestInRange e fun _ e' => AskedMore e e' ∧
      ((∀ c, e.world.contains c = true →
        World.isOutside e.viewer e.config.renderDistance c = false) → e'.InPlace e.viewer) := by
  refine leaves_bind (leaves_get (leaves_bind (leaves_orAbort (fun _ _ => .refl e)
    fun wanted hwanted => ?_)))
  refine (leaves_requestMissing e wanted).mono (fun _ e' ⟨hmore, hall⟩ => ⟨hmore, fun hinside => ?_⟩)
    fun _ _ h => h
  rw [hmore.eq]
  exact ⟨hinside, wanted, hwanted, hall⟩

/-- What a move of the viewer that fails has done: the viewer is where it was to go, and either
nothing else has changed but the board, or everything out of its range is gone. -/
structure MoveFailed (e : Engine) (v : ChunkPos) (e' : Engine) : Prop where
  viewer : e'.viewer = v
  config : e'.config = e.config
  stage : (e'.world = e.world ∧ e'.meshes = e.meshes ∧ e'.pending = e.pending) ∨
    e'.world = (e.world.trim v e.config.renderDistance).1

/-- **A move of the viewer**, whichever way it ends: a success puts the viewer in place, and after a
failure the viewer is at its new position all the same. -/
theorem leaves_moveViewer (e : Engine) (hmoves : v ≠ e.viewer) :
    Leaves (fun _ => MoveFailed e v) (moveViewer v) e fun _ e' =>
      e'.viewer = v ∧ e'.config = e.config ∧ e'.InPlace v := by
  refine leaves_bind (leaves_get ?_)
  rw [if_neg hmoves]
  refine leaves_bind (leaves_modify (leaves_bind (leaves_publish
    (fun b _ _ => ⟨rfl, rfl, .inl ⟨rfl, rfl, rfl⟩⟩) fun b _ =>
      leaves_bind (leaves_get (leaves_bind (leaves_set (leaves_bind ?_)))))))
  have hinside : ∀ c, (e.world.trim v e.config.renderDistance).1.contains c = true →
      World.isOutside v e.config.renderDistance c = false :=
    fun c hc => (World.contains_trim.mp hc).2
  -- from here on the world is trimmed, and stays as it is
  refine Leaves.mono (always_collectBorder _ _ ∅) (fun border e₁ he₁ => ?_) fun _ e₁ he₁ => ?_
  · rw [he₁]
    refine leaves_bind (Leaves.mono (always_remeshAll _ false border.toList)
      (fun _ e₂ hsame => ?_) fun _ e₂ hsame => ?_)
    · obtain ⟨b₂, rfl⟩ := hsame
      refine leaves_bind (leaves_modify (leaves_bind ((leaves_requestInRange _).mono
        (fun _ e₃ ⟨hmore, hplace⟩ =>
          leaves_pure ⟨hmore.viewer, hmore.config, hplace hinside⟩)
        fun _ e₃ hmore => ⟨hmore.viewer, hmore.config, .inr hmore.world⟩)))
    · obtain ⟨b₂, rfl⟩ := hsame
      exact ⟨rfl, rfl, .inr rfl⟩
  · rw [he₁]
    exact ⟨rfl, rfl, .inr rfl⟩

/-- A move that succeeds puts the viewer in place, unless it was there already. -/
theorem inPlace_of_move (h : e.step (.moveViewer v) = (e', .ok ())) (hmoves : v ≠ e.viewer) :
    e'.viewer = v ∧ e'.config = e.config ∧ e'.InPlace v := by
  obtain ⟨-, hpost⟩ := (leaves_moveViewer e hmoves).of_outcome_ok h
  exact hpost

/-- A move to where the viewer is does nothing. -/
theorem step_moveViewer_self (e : Engine) : e.step (.moveViewer e.viewer) = (e, .ok ()) := by
  have hrun : (moveViewer e.viewer).run e = (.ok (), e) := by
    unfold moveViewer
    rw [run_bind, run_get]
    dsimp only
    rw [if_pos rfl]
    rfl
  show outcome (moveViewer e.viewer) e = _
  unfold outcome
  rw [hrun]

/-- **A move succeeds in putting the viewer in place** exactly if the viewer was not there before, or
was in place. -/
theorem inPlace_iff_of_move (h : e.step (.moveViewer v) = (e', .ok ())) :
    e'.InPlace v ↔ e.viewer ≠ v ∨ e.InPlace v := by
  by_cases hmoves : v = e.viewer
  · subst hmoves
    rw [step_moveViewer_self] at h
    cases h
    simp
  · exact iff_of_true (inPlace_of_move h hmoves).2.2 (.inl (Ne.symm hmoves))

/-! ## 3. All other steps -/

/-- A generated chunk that arrives goes from what is asked for to what is loaded. -/
theorem InPlace.acceptChunk (h : e.InPlace e.viewer) (hviewer : e.viewer.Aligned) (chunk : Chunk) :
    Always (Engine.acceptChunk chunk) e fun e' => e'.viewer = e.viewer ∧ e'.InPlace e.viewer := by
  have hcomplete : e.Complete := h.complete
  refine leaves_bind (leaves_modify (leaves_bind (leaves_get ?_)))
  split
  · next hspare =>
    have hkept := hcomplete.drop hviewer e.board (Bool.or_eq_true_iff.mp hspare)
    exact leaves_pure ⟨rfl, h.inside, hkept⟩
  · next hnew =>
    have houtside : World.isOutside e.viewer e.config.renderDistance chunk.position = false :=
      eq_false_of_ne_true fun houtside => hnew (Bool.or_eq_true_iff.mpr (.inl houtside))
    have hinserted : ({ e with
        pending := e.pending.erase chunk.position
        world := e.world.insert chunk } : Engine).InPlace e.viewer := by
      refine ⟨fun c hc => ?_, hcomplete.insert e.board chunk⟩
      rcases (World.contains_insert e.world chunk c).mp hc with rfl | hloaded
      · exact houtside
      · exact h.inside c hloaded
    have hdone : ∀ e' : Engine, BoardOnly { e with
        pending := e.pending.erase chunk.position
        world := e.world.insert chunk } e' → e'.viewer = e.viewer ∧ e'.InPlace e.viewer := by
      intro e' hsame
      refine ⟨?_, hinserted.boardOnly hsame⟩
      obtain ⟨b, rfl⟩ := hsame
      rfl
    refine leaves_bind (leaves_modify (leaves_bind (Leaves.mono (always_remesh _ false _)
      (fun _ e₁ hsame => ?_) fun _ e₁ hsame => hdone e₁ hsame)))
    refine leaves_bind (leaves_get (leaves_bind (leaves_orAbort (fun _ _ => hdone e₁ hsame)
      fun beside _ => ?_)))
    exact (always_remeshAll e₁ false beside).mono fun e₂ hsame₂ => hdone e₂ (hsame.trans hsame₂)

/-- A finished mesh that arrives leaves the chunks alone. -/
theorem InPlace.acceptMesh (h : e.InPlace e.viewer) (mesh : Mesh) :
    Always (Engine.acceptMesh mesh) e fun e' => e'.viewer = e.viewer ∧ e'.InPlace e.viewer := by
  refine leaves_modify ?_
  split
  · exact ⟨rfl, h.transfer rfl rfl (fun _ => rfl) fun _ hc => hc⟩
  · exact ⟨rfl, h⟩

/-- **Handling a response keeps the viewer in place**, also if a message about it is not
delivered. -/
theorem InPlace.handleNext (h : e.InPlace e.viewer) (hviewer : e.viewer.Aligned) :
    Always Engine.handleNext e fun e' => e'.viewer = e.viewer ∧ e'.InPlace e.viewer := by
  refine leaves_bind (leaves_get ?_)
  rcases e.board.takeResponse with ⟨_ | m, b⟩
  · exact leaves_pure ⟨rfl, h⟩
  · have htaken : ({ e with board := b } : Engine).InPlace e.viewer := h.boardOnly ⟨b, rfl⟩
    have haccept : Always (accept m) { e with board := b } fun e' =>
        e'.viewer = e.viewer ∧ e'.InPlace e.viewer := by
      cases m with
      | chunkResponse chunk => exact htaken.acceptChunk hviewer chunk
      | meshResponse mesh => exact htaken.acceptMesh mesh
      | _ => exact leaves_pure ⟨rfl, htaken⟩
    exact leaves_bind (leaves_set (leaves_bind (Leaves.mono haccept
      (fun _ _ he' => leaves_pure he') fun _ _ he' => he')))

/-- **Every step keeps the viewer in place**, but for moves that fail. -/
theorem InPlace.step (h : e.InPlace e.viewer) (hviewer : e.viewer.Aligned) {a : Action}
    (ha : a.Aligned) (hmoved : ∀ v, a = .moveViewer v → (e.step a).2 = .ok ()) :
    (e.step a).1.viewer.Aligned ∧ (e.step a).1.InPlace (e.step a).1.viewer := by
  have hstays : (e.step a).1.viewer = e.viewer ∧ (e.step a).1.InPlace e.viewer →
      (e.step a).1.viewer.Aligned ∧ (e.step a).1.InPlace (e.step a).1.viewer := by
    rintro ⟨hsame, hplace⟩
    rw [hsame]
    exact ⟨hviewer, hplace⟩
  cases a with
  | load =>
    have hkept : Always requestInRange e fun e' =>
        e'.viewer = e.viewer ∧ e'.InPlace e.viewer :=
      (leaves_requestInRange e).mono (fun _ e' ⟨hmore, _⟩ => ⟨hmore.viewer, h.askedMore hmore⟩)
        fun _ e' hmore => ⟨hmore.viewer, h.askedMore hmore⟩
    exact hstays hkept.outcome
  | moveViewer v =>
    have hstep : e.step (.moveViewer v) = ((e.step (.moveViewer v)).1, .ok ()) :=
      Prod.ext rfl (hmoved v rfl)
    by_cases hmoves : v = e.viewer
    · subst hmoves
      rw [step_moveViewer_self]
      exact ⟨hviewer, h⟩
    · obtain ⟨hv, -, hplace⟩ := inPlace_of_move hstep hmoves
      rw [hv]
      exact ⟨ha, hplace⟩
  | edit p block =>
    have hkept : Always (Engine.edit p block) e fun e' =>
        e'.viewer = e.viewer ∧ e'.InPlace e.viewer := by
      refine (always_edit e p block).mono ?_
      rintro _ ⟨world, result, hedit, b, rfl⟩
      obtain ⟨hheight, hloaded⟩ := World.edit_frame hedit
      exact ⟨rfl, h.transfer rfl hheight hloaded fun _ hc => hc⟩
    exact hstays hkept.outcome
  | handleNext => exact hstays ((h.handleNext hviewer).outcome)
  | receive i => exact ⟨hviewer, h.boardOnly ⟨_, rfl⟩⟩
  | process i => exact ⟨hviewer, h.boardOnly ⟨_, rfl⟩⟩
  | deliver i => exact ⟨hviewer, h.boardOnly ⟨_, rfl⟩⟩

/-- Several steps in which no move of the viewer fails. -/
def MovesSucceed (e : Engine) : List Action → Prop
  | [] => True
  | a :: rest => (∀ v, a = .moveViewer v → (e.step a).2 = .ok ()) ∧ (e.step a).1.MovesSucceed rest

/-- **The viewer is in place until a move fails.** -/
theorem InPlace.after (h : e.InPlace e.viewer) (hviewer : e.viewer.Aligned) {actions : List Action}
    (haligned : ∀ a ∈ actions, a.Aligned) (hmoves : e.MovesSucceed actions) :
    (e.after actions).InPlace (e.after actions).viewer := by
  induction actions generalizing e with
  | nil => exact h
  | cons a rest ih =>
    obtain ⟨hfirst, hrest⟩ := hmoves
    obtain ⟨hviewer', hplace⟩ := h.step hviewer (haligned a List.mem_cons_self) hfirst
    exact ih hplace hviewer' (fun a' ha' => haligned a' (List.mem_cons_of_mem _ ha')) hrest

/-- **In every run the viewer is in place once everything in range has been asked for**, until a move
of the viewer fails. -/
theorem inPlace_of_run {config : Config} (hstart : start config = .ok e)
    (hload : (e.step .load).2 = .ok ()) {actions : List Action} (haligned : ∀ a ∈ actions, a.Aligned)
    (hmoves : (e.step .load).1.MovesSucceed actions) :
    ((e.step .load).1.after actions).InPlace ((e.step .load).1.after actions).viewer := by
  obtain ⟨-, hkept⟩ := kept_start hstart
  obtain ⟨-, hmore, hplace⟩ := (leaves_requestInRange e).of_outcome_ok
    (show e.step .load = ((e.step .load).1, .ok ()) from Prod.ext rfl hload)
  have hviewer : (e.step .load).1.viewer = e.viewer := hmore.viewer
  refine InPlace.after ?_ ?_ haligned hmoves
  · rw [hviewer]
    exact hplace fun c hc => hkept.inside c (.inl hc)
  · rw [hviewer]
    exact hkept.viewer

/-! ## 4. Second attempts -/

/-- A move fails at once if somebody who is to be told of it has hung up. -/
theorem step_moveViewer_hungUp {b : Switchboard} {cause : DeliveryError} (hmoves : v ≠ e.viewer)
    (hpublish : e.board.publish (.viewerMoved v) = (b, .error cause)) :
    e.step (.moveViewer v) =
      ({ e with viewer := v, board := b }, .error (.refused (.delivery cause))) := by
  have hrun : (publish (.viewerMoved v)).run { e with viewer := v } =
      (.error (.refused (.delivery cause)), { e with viewer := v, board := b }) := by
    unfold publish
    rw [run_bind, run_get]
    dsimp only
    rw [hpublish]
    rfl
  have hmove : (moveViewer v).run e =
      (.error (.refused (.delivery cause)), { e with viewer := v, board := b }) := by
    unfold moveViewer
    rw [run_bind, run_get]
    dsimp only
    rw [if_neg hmoves, run_bind, run_modify]
    dsimp only
    rw [run_bind, hrun]
  show outcome (moveViewer v) e = _
  unfold outcome
  rw [hmove]

/-- **A move that has failed cannot be made up for by trying again.**  It has put the viewer where it
was to go, and a second attempt succeeds and does nothing.  Whatever happens in between, an attempt
that succeeds has put the viewer in place exactly if the viewer had been elsewhere again by then, or
if it was in place before the attempt. -/
theorem retry_exact {failed : Engine} {failure : Failure}
    (h : e.step (.moveViewer v) = (failed, .error failure)) :
    MoveFailed e v failed ∧ failed.step (.moveViewer v) = (failed, .ok ()) ∧
      ∀ (later : List Action) (e' : Engine),
        (failed.after later).step (.moveViewer v) = (e', .ok ()) →
          (e'.InPlace v ↔ (failed.after later).viewer ≠ v ∨ (failed.after later).InPlace v) := by
  have hmoves : v ≠ e.viewer := by
    rintro rfl
    rw [step_moveViewer_self] at h
    cases h
  have hfailed : MoveFailed e v failed := (leaves_moveViewer e hmoves).of_outcome_error h
  refine ⟨hfailed, ?_, fun later e' => inPlace_iff_of_move⟩
  have hself := step_moveViewer_self failed
  rw [hfailed.viewer] at hself
  exact hself

/-- The forsaken meadow once the viewer has tried to leave it. -/
def stranded : Engine :=
  { forsaken with
    viewer := ⟨1, 0, 0⟩
    board := forsaken.board.handOut (.viewerMoved ⟨1, 0, 0⟩) (forsaken.board.reached .viewerMoved) }

theorem step_forsaken : forsaken.step (.moveViewer ⟨1, 0, 0⟩) =
    (stranded, .error (.refused (.delivery (.hungUp .viewerMoved)))) := by
  have hmoves : (⟨1, 0, 0⟩ : ChunkPos) ≠ forsaken.viewer := by decide +kernel
  have hsubscribes : 1 ∈ forsaken.board.subscribers .viewerMoved := by decide +kernel
  have hsevered : ¬(forsaken.board.subscribers .viewerMoved).all forsaken.board.isConnectedAt :=
    fun hall => by
      have hconnected := List.all_eq_true.mp hall 1 hsubscribes
      rw [isConnectedAt_forsaken] at hconnected
      cases hconnected
  refine step_moveViewer_hungUp hmoves ?_
  rw [Switchboard.publish_event rfl]
  exact congrArg (Prod.mk _) (if_neg hsevered)

/-- The viewer tries a second time, and nothing happens. -/
theorem stranded_retry :
    forsaken.step (.moveViewer ⟨1, 0, 0⟩) =
        (stranded, .error (.refused (.delivery (.hungUp .viewerMoved)))) ∧
      stranded.step (.moveViewer ⟨1, 0, 0⟩) = (stranded, .ok ()) :=
  ⟨step_forsaken, (retry_exact step_forsaken).2.1⟩

/-- **A second attempt can succeed without the move being done.**  The chunk that the viewer has left
is still loaded. -/
theorem stranded_not_inPlace :
    (start meadow = .ok meadowStart ∧ (meadowStart.step .load).2 = .ok () ∧
        ∃ actions, forsaken = (meadowStart.step .load).1.after actions) ∧
      forsaken.step (.moveViewer ⟨1, 0, 0⟩) =
        (stranded, .error (.refused (.delivery (.hungUp .viewerMoved)))) ∧
      stranded.step (.moveViewer ⟨1, 0, 0⟩) = (stranded, .ok ()) ∧
      ¬stranded.InPlace ⟨1, 0, 0⟩ := by
  refine ⟨forsaken_reached, step_forsaken, step_moveViewer_self stranded, fun hplace => ?_⟩
  have hloaded : stranded.world.contains .zero = true := by decide +kernel
  have houtside : World.isOutside ⟨1, 0, 0⟩ stranded.config.renderDistance .zero = true := by
    decide +kernel
  rw [hplace.inside .zero hloaded] at houtside
  cases houtside

end Blockworld.Engine
