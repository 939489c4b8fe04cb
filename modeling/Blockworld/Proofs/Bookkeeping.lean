/-
# Bookkeeping

The engine keeps three books: the chunks that are loaded, those that are asked for, and the meshes
on file.  They are in order between operations (`Engine.Kept`):

* what is asked for is not loaded, and everything in either book is in range of the viewer;
* what is asked for is under way;
* every mesh on file has something to draw, and its chunk is loaded;
* once anything has been asked for, everything in range is in one of the two books of chunks.

The last item is what a move of the viewer breaks for a while, so the others stand apart
(`Engine.Orderly`); asking for all that is missing restores it (`Orderly.requestInRange`).  Asking
for meshes changes nothing but the board (`Engine.SameWork`), and edits nothing else but blocks.

Of operations that are stopped by a fault or cannot deliver a message (`Engine.Broken`) it is said
only that asking for chunks takes no request back (`Engine.AskedMore`).
-/
import Blockworld.Proofs.Convergence
import Blockworld.Proofs.Range
import Blockworld.Proofs.Underway

namespace Blockworld

/-! ## 1. Worlds with the same range -/

namespace World

variable {w w' : World} {c : ChunkPos}

theorem hasFloor_congr (h : w'.height = w.height) (c : ChunkPos) :
    w'.hasFloor c = w.hasFloor c := by
  unfold hasFloor inRange
  rw [h]

/-- What is in range depends on the height of the world alone. -/
theorem surroundings_congr (h : w'.height = w.height) (center : ChunkPos) (radius : Int32) :
    w'.surroundings center radius = w.surroundings center radius := by
  have hcandidate : w'.candidate center = w.candidate center := by
    funext dx dy dz
    simp only [candidate, hasFloor_congr h]
  unfold surroundings
  rw [hcandidate]

theorem contains_insert (w : World) (chunk : Chunk) (c : ChunkPos) :
    (w.insert chunk).contains c = true ↔ chunk.position = c ∨ w.contains c = true := by
  rw [contains_eq_isSome, contains_eq_isSome, chunk?_insert]
  split
  · next hc => simp [hc]
  · next hc => simp [hc]

/-- An edit loads nothing and unloads nothing. -/
theorem edit_frame {p : Point} {block : Block} {result : Except Failure (List ChunkPos)}
    (h : w.edit p block = (w', result)) :
    w'.height = w.height ∧ ∀ c, w'.contains c = w.contains c := by
  unfold edit at h
  split at h
  · dsimp only at h
    split at h
    · cases h
      exact ⟨rfl, fun _ => rfl⟩
    · next before hbefore =>
      split at h
      · cases h
        exact ⟨rfl, fun _ => rfl⟩
      · next after hset =>
        have hreplaced : ∀ c, ({ w with chunks := w.chunks.insert (.owner p) after } :
            World).contains c = w.contains c := fun c => contains_replace hbefore rfl
        split at h
        · cases h
          exact ⟨rfl, hreplaced⟩
        · cases h
          exact ⟨rfl, hreplaced⟩
  · cases h
    exact ⟨rfl, fun _ => rfl⟩

/-- An edit that is refused changes nothing. -/
theorem eq_of_edit_refused {p : Point} {block : Block} {cause : Error}
    (h : w.edit p block = (w', .error (.refused cause))) : w' = w := by
  unfold edit at h
  split at h
  · dsimp only at h
    split at h
    · cases h
      rfl
    · split at h
      · cases h
      · split at h
        · cases h
        · cases h
  · cases h
    rfl

end World

namespace Engine

variable {e e' : Engine} {asked : Prop} {c : ChunkPos}

/-! ## 2. The books -/

/-- The failure is a fault, or a message that could not be delivered. -/
def Broken : Failure → Prop
  | .aborted _ => True
  | .refused (.delivery _) => True
  | .refused _ => False

instance : DecidablePred Broken
  | .aborted _ => .isTrue trivial
  | .refused (.delivery _) => .isTrue trivial
  | .refused (.config _) | .refused (.io _) | .refused .json | .refused (.notLoaded _)
  | .refused (.outOfRange _) | .refused (.worker _) => .isFalse id

/-- The books, as far as they are in order inside of operations too.  Nothing is in them before
anything has been asked for. -/
structure Orderly (asked : Prop) (e : Engine) : Prop where
  manned : e.board.Manned e.config.boundary
  apart : ∀ c ∈ e.pending, e.world.contains c = false
  inside : ∀ c, e.world.contains c = true ∨ c ∈ e.pending →
    World.isOutside e.viewer e.config.renderDistance c = false
  placed : ∀ c, e.world.contains c = true ∨ c ∈ e.pending ∨ e.board.Underway c →
    asked ∧ c.Aligned ∧ e.world.hasFloor c = true
  meshes : ∀ c m, e.meshes.get? c = some m → m.hasQuads = true ∧ e.world.contains c = true
  underway : ∀ c ∈ e.pending, e.board.Underway c

/-- Everything in range is loaded or asked for. -/
def Complete (e : Engine) : Prop :=
  ∃ wanted, e.world.surroundings e.viewer e.config.renderDistance = .ok wanted ∧
    ∀ c ∈ wanted, e.world.contains c = true ∨ c ∈ e.pending

/-- The books are in order. -/
structure Kept (asked : Prop) (e : Engine) : Prop extends Orderly asked e where
  viewer : e.viewer.Aligned
  complete : asked → e.Complete

theorem Orderly.mono {asked' : Prop} (h : Orderly asked e) (himp : asked → asked') :
    Orderly asked' e :=
  ⟨h.manned, h.apart, h.inside, fun c hc => ⟨himp (h.placed c hc).1, (h.placed c hc).2⟩, h.meshes,
    h.underway⟩

/-! ## 3. Asking for meshes -/

/-- The states differ in nothing but the board, and the same chunks are under way. -/
def SameWork (e e' : Engine) : Prop :=
  ∃ b : Switchboard, e' = { e with board := b } ∧ b.Manned e.config.boundary ∧
    ∀ c, b.Underway c ↔ e.board.Underway c

theorem SameWork.refl (h : e.board.Manned e.config.boundary) : SameWork e e :=
  ⟨e.board, rfl, h, fun _ => Iff.rfl⟩

theorem SameWork.trans {e'' : Engine} (h : SameWork e e') (h' : SameWork e' e'') :
    SameWork e e'' := by
  obtain ⟨b, rfl, -, hsame⟩ := h
  obtain ⟨b', rfl, hmanned, hsame'⟩ := h'
  exact ⟨b', rfl, hmanned, fun c => (hsame' c).trans (hsame c)⟩

theorem SameWork.manned (h : SameWork e e') : e'.board.Manned e'.config.boundary := by
  obtain ⟨b, rfl, hmanned, -⟩ := h
  exact hmanned

theorem Orderly.sameWork (h : Orderly asked e) (hsame : SameWork e e') : Orderly asked e' := by
  obtain ⟨b, rfl, hmanned, hsame⟩ := hsame
  refine ⟨hmanned, h.apart, h.inside, fun c hc => ?_, h.meshes, fun c hc => ?_⟩
  · rw [hsame] at hc
    exact h.placed c hc
  · rw [hsame]
    exact h.underway c hc

theorem Kept.sameWork (h : Kept asked e) (hsame : SameWork e e') : Kept asked e' := by
  refine ⟨h.toOrderly.sameWork hsame, ?_, ?_⟩
  · obtain ⟨b, rfl, -⟩ := hsame
    exact h.viewer
  · obtain ⟨b, rfl, -⟩ := hsame
    exact h.complete

/-- **Asking for a mesh changes no work on chunks.** -/
theorem ends_remesh (h : e.board.Manned e.config.boundary) (urgent : Bool) (c : ChunkPos) :
    Ends Broken (remesh urgent c) e fun _ e' => SameWork e e' := by
  refine ends_bind (ends_get (ends_bind (ends_orAbort (fun _ _ => trivial) fun found _ => ?_)))
  cases found with
  | none => exact ends_pure (SameWork.refl h)
  | some s =>
    refine ends_publish (fun _ _ => trivial) fun b hpublish => ?_
    obtain ⟨hmanned, hsame⟩ := h.publish_meshRequest hpublish
    exact ⟨b, rfl, hmanned, hsame⟩

theorem ends_remeshAll (h : e.board.Manned e.config.boundary) (urgent : Bool)
    (cs : List ChunkPos) :
    Ends Broken (forEach (remesh urgent) cs) e fun _ e' => SameWork e e' := by
  refine ends_forEach (fun _ e' => SameWork e e') (SameWork.refl h) fun c _ e' hsame => ?_
  exact (ends_remesh hsame.manned urgent c).mono fun _ _ hsame' => hsame.trans hsame'

/-! ## 4. Asking for chunks -/

theorem mem_insert_pending {pending : Std.TreeSet ChunkPos} {c c' : ChunkPos} :
    c' ∈ pending.insert c ↔ c = c' ∨ c' ∈ pending := by
  rw [Std.TreeSet.mem_insert, Std.LawfulEqCmp.compare_eq_iff_eq]

/-- The states differ in the board and in what is asked for, which has not become less. -/
structure AskedMore (e e' : Engine) : Prop where
  eq : e' = { e with pending := e'.pending, board := e'.board }
  pending : ∀ c ∈ e.pending, c ∈ e'.pending

theorem AskedMore.refl (e : Engine) : AskedMore e e := ⟨rfl, fun _ hc => hc⟩

theorem AskedMore.world (h : AskedMore e e') : e'.world = e.world := by rw [h.eq]

theorem AskedMore.viewer (h : AskedMore e e') : e'.viewer = e.viewer := by rw [h.eq]

theorem AskedMore.config (h : AskedMore e e') : e'.config = e.config := by rw [h.eq]

theorem AskedMore.trans {e'' : Engine} (h : AskedMore e e') (h' : AskedMore e' e'') :
    AskedMore e e'' := by
  refine ⟨?_, fun c hc => h'.pending c (h.pending c hc)⟩
  rw [h'.eq, h.eq]

/-- Asking for one more chunk. -/
theorem AskedMore.ask (e : Engine) (b : Switchboard) (c : ChunkPos) :
    AskedMore e { e with board := b, pending := e.pending.insert c } :=
  ⟨rfl, fun _ hc => mem_insert_pending.mpr (.inr hc)⟩

/-- **Asking for chunks takes no request back**, and if it succeeds, all of them are loaded or asked
for. -/
theorem leaves_requestMissing (e : Engine) (cs : List ChunkPos) :
    Leaves (fun _ => AskedMore e) (requestMissing cs) e fun _ e' =>
      AskedMore e e' ∧ ∀ c ∈ cs, e.world.contains c = true ∨ c ∈ e'.pending := by
  induction cs generalizing e with
  | nil => exact leaves_pure ⟨.refl e, nofun⟩
  | cons c rest ih =>
    refine leaves_bind (leaves_get ?_)
    split
    · next hthere =>
      refine (ih e).mono (fun _ e' ⟨hmore, hrest⟩ => ⟨hmore, fun c' hc' => ?_⟩) fun _ _ h => h
      rcases List.mem_cons.mp hc' with rfl | hc'
      · exact (Bool.or_eq_true_iff.mp hthere).imp_right fun hpending =>
          hmore.pending c' (Std.TreeSet.mem_iff_contains.mpr hpending)
      · exact hrest c' hc'
    · refine leaves_bind (leaves_publish (fun b _ _ => ⟨rfl, fun _ hc => hc⟩) fun b _ =>
        leaves_bind (leaves_modify (leaves_bind ?_)))
      have hask := AskedMore.ask e b c
      refine (ih { e with board := b, pending := e.pending.insert c }).mono
        (fun _ e' ⟨hmore, hrest⟩ => leaves_pure ⟨hask.trans hmore, fun c' hc' => ?_⟩)
        fun _ _ hmore => hask.trans hmore
      rcases List.mem_cons.mp hc' with rfl | hc'
      · exact .inr (hmore.pending c' (mem_insert_pending.mpr (.inl rfl)))
      · exact hrest c' hc'

/-- A chunk in range that is asked for goes into the books. -/
theorem Orderly.ask (h : Orderly asked e) (hasked : asked) (hmissing : e.world.contains c = false)
    (haligned : c.Aligned) (hfloor : e.world.hasFloor c = true)
    (hinside : World.isOutside e.viewer e.config.renderDistance c = false) {b : Switchboard}
    (hmanned : b.Manned e.config.boundary)
    (hadds : ∀ c', b.Underway c' ↔ e.board.Underway c' ∨ c = c') :
    Orderly asked { e with board := b, pending := e.pending.insert c } := by
  refine ⟨hmanned, fun c' hc' => ?_, fun c' hc' => ?_, fun c' hc' => ?_, h.meshes,
    fun c' hc' => ?_⟩
  · rcases mem_insert_pending.mp hc' with rfl | hc'
    · exact hmissing
    · exact h.apart c' hc'
  · rcases hc' with hloaded | hpending
    · exact h.inside c' (.inl hloaded)
    · rcases mem_insert_pending.mp hpending with rfl | hpending
      · exact hinside
      · exact h.inside c' (.inr hpending)
  · by_cases hc : c = c'
    · subst hc
      exact ⟨hasked, haligned, hfloor⟩
    · refine h.placed c' ?_
      rcases hc' with hloaded | hpending | hunderway
      · exact .inl hloaded
      · exact .inr (.inl ((mem_insert_pending.mp hpending).resolve_left hc))
      · exact .inr (.inr (((hadds c').mp hunderway).resolve_right hc))
  · rw [hadds]
    rcases mem_insert_pending.mp hc' with rfl | hc'
    · exact .inr rfl
    · exact .inl (h.underway c' hc')

/-- **Asking for chunks in range keeps the books in order.** -/
theorem Orderly.requestMissing (h : Orderly asked e) (hasked : asked) {cs : List ChunkPos}
    (hcs : ∀ c ∈ cs, c.Aligned ∧ e.world.hasFloor c = true ∧
      World.isOutside e.viewer e.config.renderDistance c = false) :
    Ends Broken (Engine.requestMissing cs) e fun _ e' => Orderly asked e' := by
  induction cs generalizing e with
  | nil => exact ends_pure h
  | cons c rest ih =>
    refine ends_bind (ends_get ?_)
    split
    · exact ih h fun c' hc' => hcs c' (List.mem_cons_of_mem _ hc')
    · next hmissing =>
      refine ends_bind (ends_publish (fun _ _ => trivial) fun b hpublish =>
        ends_bind (ends_modify (ends_bind ?_)))
      obtain ⟨hmanned, hadds⟩ := h.manned.publish_chunkRequest hpublish
      obtain ⟨haligned, hfloor, hinside⟩ := hcs c List.mem_cons_self
      have hnew : e.world.contains c = false := by
        refine eq_false_of_ne_true fun hloaded => hmissing ?_
        rw [hloaded, Bool.true_or]
      have hnext := h.ask hasked hnew haligned hfloor hinside hmanned hadds
      exact (ih hnext fun c' hc' => hcs c' (List.mem_cons_of_mem _ hc')).mono
        fun _ _ horderly => ends_pure horderly

/-- **Asking for all that is missing puts the books in order.** -/
theorem Orderly.requestInRange (h : Orderly asked e) (hviewer : e.viewer.Aligned) :
    Ends Broken Engine.requestInRange e fun _ e' => e'.config = e.config ∧ Kept True e' := by
  refine ends_bind (ends_get (ends_bind (ends_orAbort (fun _ _ => trivial) ?_)))
  intro wanted hwanted
  have hcs : ∀ c ∈ wanted, c.Aligned ∧ e.world.hasFloor c = true ∧
      World.isOutside e.viewer e.config.renderDistance c = false := by
    intro c hc
    exact (World.mem_surroundings hviewer hwanted).mp hc
  have horderly := ends_iff_leaves.mp
    ((h.mono fun _ => trivial : Orderly True e).requestMissing trivial hcs)
  refine (horderly.and (leaves_requestMissing e wanted)).mono
    (fun _ e' ⟨horderly, hmore, hall⟩ => ?_) fun _ _ hfailed => hfailed.1
  refine ⟨hmore.config, horderly, ?_, fun _ => ⟨wanted, ?_, ?_⟩⟩
  · rw [hmore.viewer]
    exact hviewer
  · rw [hmore.world, hmore.viewer, hmore.config]
    exact hwanted
  · rw [hmore.world]
    exact hall

/-! ## 5. Responses -/

theorem mem_erase_pending {pending : Std.TreeSet ChunkPos} {c c' : ChunkPos} :
    c' ∈ pending.erase c ↔ c ≠ c' ∧ c' ∈ pending := by
  rw [Std.TreeSet.mem_erase, Ne, Std.LawfulEqCmp.compare_eq_iff_eq]

/-- A chunk that arrives is not asked for any more. -/
theorem Orderly.arrive (h : Orderly asked e) {b : Switchboard}
    (hmanned : b.Manned e.config.boundary)
    (harrives : ∀ c', e.board.Underway c' ↔ c = c' ∨ b.Underway c') :
    Orderly asked { e with board := b, pending := e.pending.erase c } := by
  refine ⟨hmanned, fun c' hc' => ?_, fun c' hc' => ?_, fun c' hc' => ?_, h.meshes,
    fun c' hc' => ?_⟩
  · exact h.apart c' (mem_erase_pending.mp hc').2
  · exact h.inside c' (hc'.imp_right fun hpending => (mem_erase_pending.mp hpending).2)
  · refine h.placed c' ?_
    rcases hc' with hloaded | hpending | hunderway
    · exact .inl hloaded
    · exact .inr (.inl (mem_erase_pending.mp hpending).2)
    · exact .inr (.inr ((harrives c').mpr (.inr hunderway)))
  · obtain ⟨hne, hpending⟩ := mem_erase_pending.mp hc'
    exact ((harrives c').mp (h.underway c' hpending)).resolve_left hne

/-- A chunk that arrives and is not needed takes nothing from what is complete. -/
theorem Complete.drop (h : e.Complete) (hviewer : e.viewer.Aligned) (b : Switchboard)
    (hspare : World.isOutside e.viewer e.config.renderDistance c = true ∨
      e.world.contains c = true) :
    Complete { e with board := b, pending := e.pending.erase c } := by
  obtain ⟨wanted, hwanted, hall⟩ := h
  refine ⟨wanted, hwanted, fun c' hc' => ?_⟩
  rcases hall c' hc' with hloaded | hpending
  · exact .inl hloaded
  · by_cases hc : c = c'
    · subst hc
      refine .inl (hspare.resolve_left fun houtside => ?_)
      rw [((World.mem_surroundings hviewer hwanted).mp hc').2.2] at houtside
      cases houtside
    · exact .inr (mem_erase_pending.mpr ⟨hc, hpending⟩)

/-- A chunk that is inserted has been asked for before, or adds to what is complete. -/
theorem Complete.insert (h : e.Complete) (b : Switchboard) (chunk : Chunk) :
    Complete { e with
      board := b
      pending := e.pending.erase chunk.position
      world := e.world.insert chunk } := by
  obtain ⟨wanted, hwanted, hall⟩ := h
  refine ⟨wanted, (World.surroundings_congr rfl _ _).trans hwanted, fun c hc => ?_⟩
  by_cases hposition : chunk.position = c
  · exact .inl ((World.contains_insert e.world chunk c).mpr (.inl hposition))
  · rcases hall c hc with hloaded | hpending
    · exact .inl ((World.contains_insert e.world chunk c).mpr (.inr hloaded))
    · exact .inr (mem_erase_pending.mpr ⟨hposition, hpending⟩)

/-- A chunk that is inserted goes from one book to the other. -/
theorem Orderly.insert (h : Orderly asked e) {chunk : Chunk} (hnot : chunk.position ∉ e.pending)
    (hinside : World.isOutside e.viewer e.config.renderDistance chunk.position = false)
    (hplaced : asked ∧ chunk.position.Aligned ∧ e.world.hasFloor chunk.position = true) :
    Orderly asked { e with world := e.world.insert chunk } := by
  refine ⟨h.manned, fun c hc => ?_, fun c hc => ?_, fun c hc => ?_, fun c m hm => ?_, h.underway⟩
  · refine eq_false_of_ne_true fun hloaded => ?_
    rcases (World.contains_insert e.world chunk c).mp hloaded with rfl | hloaded
    · exact hnot hc
    · rw [h.apart c hc] at hloaded
      cases hloaded
  · rcases hc with hloaded | hpending
    · rcases (World.contains_insert e.world chunk c).mp hloaded with rfl | hloaded
      · exact hinside
      · exact h.inside c (.inl hloaded)
    · exact h.inside c (.inr hpending)
  · rcases hc with hloaded | hpending | hunderway
    · rcases (World.contains_insert e.world chunk c).mp hloaded with rfl | hloaded
      · exact hplaced
      · exact h.placed c (.inl hloaded)
    · exact h.placed c (.inr (.inl hpending))
    · exact h.placed c (.inr (.inr hunderway))
  · obtain ⟨hquads, hloaded⟩ := h.meshes c m hm
    exact ⟨hquads, (World.contains_insert e.world chunk c).mpr (.inr hloaded)⟩

namespace Kept

section Arrivals

variable {chunk : Chunk} {b : Switchboard}

/-- The arrival of a chunk that is out of range by now or loaded already. -/
theorem drop (h : Kept asked e) (hmanned : b.Manned e.config.boundary)
    (harrives : ∀ c', e.board.Underway c' ↔ chunk.position = c' ∨ b.Underway c')
    (hspare : World.isOutside e.viewer e.config.renderDistance chunk.position = true ∨
      e.world.contains chunk.position = true) :
    Kept asked { e with board := b, pending := e.pending.erase chunk.position } :=
  ⟨h.toOrderly.arrive hmanned harrives, h.viewer,
    fun hasked => (h.complete hasked).drop h.viewer b hspare⟩

/-- The arrival of a chunk that is in range and not loaded. -/
theorem insert (h : Kept asked e) (hmanned : b.Manned e.config.boundary)
    (harrives : ∀ c', e.board.Underway c' ↔ chunk.position = c' ∨ b.Underway c')
    (hinside : World.isOutside e.viewer e.config.renderDistance chunk.position = false) :
    Kept asked { e with
      board := b
      pending := e.pending.erase chunk.position
      world := e.world.insert chunk } := by
  have hplaced := h.placed chunk.position (.inr (.inr ((harrives _).mpr (.inl rfl))))
  have hnot : chunk.position ∉ e.pending.erase chunk.position :=
    fun hmem => (mem_erase_pending.mp hmem).1 rfl
  exact ⟨(h.toOrderly.arrive hmanned harrives).insert hnot hinside hplaced, h.viewer,
    fun hasked => (h.complete hasked).insert b chunk⟩

/-- **A generated chunk leaves the books in order.** -/
theorem acceptChunk (h : Kept asked e) (hmanned : b.Manned e.config.boundary)
    (harrives : ∀ c', e.board.Underway c' ↔ chunk.position = c' ∨ b.Underway c') :
    Ends Broken (Engine.acceptChunk chunk) { e with board := b } fun _ e' =>
      e'.config = e.config ∧ Kept asked e' := by
  refine ends_bind (ends_modify (ends_bind (ends_get ?_)))
  split
  · next hspare => exact ends_pure ⟨rfl, h.drop hmanned harrives (Bool.or_eq_true_iff.mp hspare)⟩
  · next hnew =>
    have hinside : World.isOutside e.viewer e.config.renderDistance chunk.position = false := by
      refine eq_false_of_ne_true fun houtside => hnew ?_
      exact Bool.or_eq_true_iff.mpr (.inl houtside)
    have hinserted := h.insert hmanned harrives hinside
    refine ends_bind (ends_modify (ends_bind ?_))
    refine (ends_remesh hinserted.manned false chunk.position).mono fun _ e₁ hsame₁ => ?_
    refine ends_bind (ends_get (ends_bind (ends_orAbort (fun _ _ => trivial) fun beside _ => ?_)))
    refine (ends_remeshAll hsame₁.manned false beside).mono fun _ e₂ hsame₂ => ?_
    have hsame := hsame₁.trans hsame₂
    refine ⟨?_, hinserted.sameWork hsame⟩
    obtain ⟨b', rfl, -⟩ := hsame
    rfl

/-- **A finished mesh leaves the books in order**: it goes on file if its chunk is loaded and it has
something to draw. -/
theorem acceptMesh (h : Kept asked e) (m : Mesh) :
    Ends Broken (Engine.acceptMesh m) e fun _ e' => e'.config = e.config ∧ Kept asked e' := by
  refine ends_modify ?_
  split
  · next hloaded =>
    refine ⟨rfl, ⟨h.manned, h.apart, h.inside, h.placed, fun c m' hm' => ?_, h.underway⟩, h.viewer,
      h.complete⟩
    rw [MeshTable.get?_install] at hm'
    split at hm'
    · next hc =>
      split at hm'
      · next hquads =>
        cases hm'
        rw [← hc]
        exact ⟨hquads, hloaded⟩
      · cases hm'
    · exact h.meshes c m' hm'
  · exact ⟨rfl, h⟩

end Arrivals

/-- **Handling a response leaves the books in order.** -/
theorem handleNext (h : Kept asked e) :
    Ends Broken Engine.handleNext e fun _ e' => e'.config = e.config ∧ Kept asked e' := by
  refine ends_bind (ends_get ?_)
  cases htake : e.board.takeResponse with
  | mk m? b =>
    cases m? with
    | none => exact ends_pure ⟨rfl, h⟩
    | some m =>
      obtain ⟨hmanned, harrives⟩ := h.manned.takeResponse htake
      refine ends_bind (ends_set (ends_bind ?_))
      have hkept : ¬(∃ c, HoldsChunk [m] c) → Kept asked { e with board := b } := by
        intro hnone
        refine h.sameWork ⟨b, rfl, hmanned, fun c => ?_⟩
        rw [harrives]
        exact (or_iff_right fun hholds => hnone ⟨c, hholds⟩).symm
      have haccept : Ends Broken (accept m) { e with board := b } fun _ e' =>
          e'.config = e.config ∧ Kept asked e' := by
        cases m with
        | chunkResponse chunk =>
          refine h.acceptChunk hmanned fun c' => ?_
          rw [harrives]
          simp [HoldsChunk]
        | meshResponse mesh => exact (hkept (by simp [HoldsChunk])).acceptMesh mesh
        | _ => exact ends_pure ⟨rfl, hkept (by simp [HoldsChunk])⟩
      exact haccept.mono fun _ _ he' => ends_pure he'

/-! ## 6. Edits -/

/-- Another world with the same chunks loaded. -/
theorem world (h : Kept asked e) {world : World} (hheight : world.height = e.world.height)
    (hloaded : ∀ c, world.contains c = e.world.contains c) :
    Kept asked { e with world := world } := by
  refine ⟨⟨h.manned, fun c hc => ?_, fun c hc => ?_, fun c hc => ?_, fun c m hm => ?_, h.underway⟩,
    h.viewer, fun hasked => ?_⟩
  · exact (hloaded c).trans (h.apart c hc)
  · rw [hloaded] at hc
    exact h.inside c hc
  · rw [hloaded] at hc
    rw [World.hasFloor_congr hheight]
    exact h.placed c hc
  · rw [hloaded]
    exact h.meshes c m hm
  · obtain ⟨wanted, hwanted, hall⟩ := h.complete hasked
    refine ⟨wanted, (World.surroundings_congr hheight _ _).trans hwanted, fun c hc => ?_⟩
    rw [hloaded]
    exact hall c hc

/-- **An edit leaves the books in order.**  One that is refused changes nothing. -/
theorem edit (h : Kept asked e) (p : Point) (block : Block) :
    (∃ cause, (Engine.edit p block).run e = (.error (.refused cause), e)) ∨
      Ends Broken (Engine.edit p block) e fun _ e' => e'.config = e.config ∧ Kept asked e' := by
  rcases hedit : e.world.edit p block with ⟨world, failure | touched⟩
  · have hrun := run_edit_error hedit
    cases failure with
    | refused cause =>
      left
      rw [World.eq_of_edit_refused hedit] at hrun
      exact ⟨cause, hrun⟩
    | aborted f =>
      right
      unfold Ends
      rw [hrun]
      trivial
  · right
    obtain ⟨hheight, hloaded⟩ := World.edit_frame hedit
    have hwritten : Kept asked { e with world := world } := h.world hheight hloaded
    have hremesh : Ends Broken (do forEach (Engine.remesh true) touched; return touched)
        { e with world := world } fun _ e' => e'.config = e.config ∧ Kept asked e' := by
      refine ends_bind ((ends_remeshAll hwritten.manned true touched).mono fun _ e' hsame => ?_)
      refine ends_pure ⟨?_, hwritten.sameWork hsame⟩
      obtain ⟨b, rfl, -⟩ := hsame
      rfl
    unfold Ends at hremesh ⊢
    rw [run_edit_ok hedit]
    exact hremesh

/-! ## 7. The viewer moves -/

theorem mem_filter_pending {pending : Std.TreeSet ChunkPos} {p : ChunkPos → Bool} :
    c ∈ pending.filter p ↔ c ∈ pending ∧ p c = true := by
  show c ∈ pending.inner.filter (fun c' _ => p c') ↔ c ∈ pending.inner ∧ p c = true
  rw [Std.TreeMap.mem_filter]
  simp only [Std.TreeMap.getKey_eq, exists_prop]

/-- Dropping what is out of range of another viewer, from all books, leaves them in order as far as
they go. -/
theorem trim (h : Kept asked e) {viewer : ChunkPos} {b : Switchboard} {meshes : MeshTable}
    (hmanned : b.Manned e.config.boundary)
    (hsame : ∀ c, b.Underway c ↔ e.board.Underway c)
    (hdropped : ∀ c ∈ (e.world.trim viewer e.config.renderDistance).2, meshes.get? c = none)
    (hothers : ∀ c, c ∉ (e.world.trim viewer e.config.renderDistance).2 →
      meshes.get? c = e.meshes.get? c) :
    Orderly asked { e with
      board := b
      viewer := viewer
      world := (e.world.trim viewer e.config.renderDistance).1
      meshes := meshes
      pending := e.pending.filter (!World.isOutside viewer e.config.renderDistance ·) } := by
  refine ⟨hmanned, fun c hc => ?_, fun c hc => ?_, fun c hc => ?_, fun c m hm => ?_, fun c hc => ?_⟩
  · refine eq_false_of_ne_true fun hloaded => ?_
    have hnot := h.apart c (mem_filter_pending.mp hc).1
    rw [(World.contains_trim.mp hloaded).1] at hnot
    cases hnot
  · rcases hc with hloaded | hpending
    · exact (World.contains_trim.mp hloaded).2
    · have hinside := (mem_filter_pending.mp hpending).2
      simpa using hinside
  · refine h.placed c ?_
    rcases hc with hloaded | hpending | hunderway
    · exact .inl (World.contains_trim.mp hloaded).1
    · exact .inr (.inl (mem_filter_pending.mp hpending).1)
    · exact .inr (.inr ((hsame c).mp hunderway))
  · have hstays : c ∉ (e.world.trim viewer e.config.renderDistance).2 := by
      intro hgone
      rw [hdropped c hgone] at hm
      cases hm
    rw [hothers c hstays] at hm
    obtain ⟨hquads, hloaded⟩ := h.meshes c m hm
    refine ⟨hquads, World.contains_trim.mpr ⟨hloaded, eq_false_of_ne_true fun houtside => ?_⟩⟩
    exact hstays ((World.mem_trim ..).mpr ⟨hloaded, houtside⟩)
  · exact (hsame c).mpr (h.underway c (mem_filter_pending.mp hc).1)

/-- **A move of the viewer leaves the books in order.** -/
theorem moveViewer (h : Kept asked e) {viewer : ChunkPos} (hviewer : viewer.Aligned) :
    Ends Broken (Engine.moveViewer viewer) e fun _ e' =>
      e'.config = e.config ∧ Kept (asked ∨ viewer ≠ e.viewer) e' := by
  refine ends_bind (ends_get ?_)
  split
  · next hstays =>
    refine ends_pure ⟨rfl, h.toOrderly.mono .inl, h.viewer, fun hasked => ?_⟩
    exact h.complete (hasked.resolve_right fun hmoves => hmoves hstays)
  · next hmoves =>
    refine ends_bind (ends_modify (ends_bind (ends_publish (fun _ _ => trivial) fun b hpublish =>
      ends_bind (ends_get (ends_bind (ends_set (ends_bind ?_)))))))
    obtain ⟨hmanned, hsame⟩ := h.manned.publish_viewerMoved hpublish
    refine (ends_collectBorder _ (fun _ _ _ => trivial) _ _).mono
      fun border e₁ ⟨he₁, hdropped, hothers, _⟩ => ?_
    rw [he₁]
    refine ends_bind ((ends_remeshAll hmanned false border.toList).mono fun _ e₂ hsame₂ => ?_)
    obtain ⟨b₂, rfl, hmanned₂, hsame₂⟩ := hsame₂
    refine ends_bind (ends_modify (ends_bind ?_))
    have htrimmed := h.trim hmanned₂ (fun c => (hsame₂ c).trans (hsame c)) hdropped hothers
    refine (htrimmed.requestInRange hviewer).mono fun _ e₃ ⟨hconfig, hkept⟩ => ?_
    refine ends_pure ⟨hconfig, hkept.toOrderly.mono fun _ => .inr hmoves, hkept.viewer, fun _ => ?_⟩
    exact hkept.complete trivial

end Kept

end Engine

end Blockworld
