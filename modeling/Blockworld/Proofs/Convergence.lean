/-
# Meshes converge

When all work has come to rest, every loaded chunk has the mesh that the world gives it now.  Until
then a mesh may be out of date; but whatever changes it is followed by a request with a snapshot
taken after the change.  So the invariant looks at what is under way: the mesh of a chunk is CURRENT
if the last of the meshes to come is the one the world gives it, or none is to come and that one is
filed (`Engine.Current`).

An operation breaks the invariant for some chunks and repairs it by asking for their meshes.
`Engine.Tidy e stale` is the state in between: the meshes of all loaded chunks are current except
those of stale ones.  Each request takes its chunk off the stale ones (`Tidy.remesh`), and the
operations differ only in which chunks they make stale:

* an inserted chunk and those next to it (`Settled.insert`);
* chunks next to a dropped one (`Settled.trim`);
* the chunks that an edit lists (`Settled.write`).

Steps of workers keep the last mesh to come, and handling a mesh files the head of the list
(`Settled.acceptMesh`).
-/
import Blockworld.Proofs.Invalidation
import Blockworld.Proofs.Operations
import Blockworld.Proofs.Routing

namespace Blockworld.Engine

variable {e e' : Engine} {c : ChunkPos}

/-! ## 1. Current meshes -/

/-- The mesh of a loaded chunk is the one the world gives it now, or will be when all work that is
under way has come to an end. -/
def Current (e : Engine) (c : ChunkPos) : Prop :=
  ∃ m, e.world.freshMesh e.config.boundary c = .ok (some m) ∧
    ((e.board.backlog .meshRequest c).getLast? = some (.ok (.meshResponse m)) ∨
      e.board.backlog .meshRequest c = [] ∧
        e.meshes.get? c = if m.hasQuads then some m else none)

/-- A mesh stays current as long as the world gives the same mesh, the last mesh to come is the
same, and the filed one too. -/
theorem Current.transfer (h : e.Current c) (hconfig : e'.config = e.config)
    (hfresh : e'.world.freshMesh e.config.boundary c = e.world.freshMesh e.config.boundary c)
    (hlast : (e'.board.backlog .meshRequest c).getLast? =
      (e.board.backlog .meshRequest c).getLast?)
    (hmeshes : e'.meshes.get? c = e.meshes.get? c) : e'.Current c := by
  obtain ⟨m, hm, hcurrent⟩ := h
  refine ⟨m, by rw [hconfig, hfresh, hm], ?_⟩
  rw [hmeshes, hlast]
  rcases hcurrent with hlast' | ⟨hempty, hfiled⟩
  · exact .inl hlast'
  · refine .inr ⟨?_, hfiled⟩
    rw [hempty] at hlast
    exact List.getLast?_eq_none_iff.mp hlast

/-- A state in which the meshes of all loaded chunks are current but for the stale ones. -/
structure Tidy (e : Engine) (stale : ChunkPos → Prop) : Prop where
  staffed : e.board.Staffed e.config.onDuplicate e.config.boundary
  sound : e.world.Sound
  viewer : e.viewer.Aligned
  current : ∀ c, e.world.contains c = true → ¬stale c → e.Current c

namespace Tidy

variable {stale stale' : ChunkPos → Prop}

theorem mono (h : e.Tidy stale)
    (himp : ∀ c, e.world.contains c = true → stale c → stale' c) : e.Tidy stale' where
  staffed := h.staffed
  sound := h.sound
  viewer := h.viewer
  current c hc hstale := h.current c hc fun hs => hstale (himp c hc hs)

/-- Another board on which the same meshes are to come. -/
theorem board (h : e.Tidy stale) {b : Switchboard}
    (hb : b.Staffed e.config.onDuplicate e.config.boundary)
    (hlast : ∀ c, (b.backlog .meshRequest c).getLast? =
      (e.board.backlog .meshRequest c).getLast?) : ({ e with board := b } : Engine).Tidy stale where
  staffed := hb
  sound := h.sound
  viewer := h.viewer
  current c hc hstale := (h.current c hc hstale).transfer rfl rfl (hlast c) rfl

/-- What is asked for and has not arrived says nothing about meshes. -/
theorem pending (h : e.Tidy stale) (pending : Std.TreeSet ChunkPos) :
    ({ e with pending := pending } : Engine).Tidy stale where
  staffed := h.staffed
  sound := h.sound
  viewer := h.viewer
  current c hc hstale := (h.current c hc hstale).transfer rfl rfl rfl rfl

/-! ## 2. Asking for meshes -/

/-- **A mesh that is asked for is current.** -/
theorem remesh (h : e.Tidy stale) (urgent : Bool) (c : ChunkPos) :
    Leads (Engine.remesh urgent c) e fun _ e' =>
      e' = { e with board := e'.board } ∧ e'.Tidy fun c' => stale c' ∧ c' ≠ c := by
  refine ends_bind (ends_get (ends_bind (leads_orAbort (.snapshot? _ _) fun found hfound => ?_)))
  cases found with
  | none =>
    refine ends_pure ⟨rfl, h.mono fun c' hc' hstale => ⟨hstale, ?_⟩⟩
    rintro rfl
    rw [World.contains_of_snapshot?_eq_none hfound] at hc'
    cases hc'
  | some s =>
    have hs := h.sound.snapshot hfound
    have hcoords : s.coords = c := by
      obtain ⟨chunk, around, -, -, rfl⟩ := World.snapshot?_eq_some_iff.mp hfound
      rfl
    obtain ⟨b, hpublish, hstaffed, hbacklog⟩ := h.staffed.publish_meshRequest hs urgent
    refine leads_publish hpublish ⟨rfl, hstaffed, h.sound, h.viewer, fun c' hc' hstale => ?_⟩
    by_cases hcc : c' = c
    · subst hcc
      obtain ⟨qs, hmesh, -⟩ := hs.exists_mesh e.config.boundary
      have hlast : (b.backlog .meshRequest c').getLast? =
          some (.ok (.meshResponse (Mesh.ofQuads s.coords qs))) := by
        rw [hbacklog, if_pos hcoords, hmesh, List.getLast?_concat]
        rfl
      exact ⟨_, World.freshMesh_eq_some_iff.mpr ⟨s, hfound, hmesh⟩, .inl hlast⟩
    · have hsame : b.backlog .meshRequest c' = e.board.backlog .meshRequest c' := by
        rw [hbacklog, hcoords, if_neg (Ne.symm hcc), List.append_nil]
      have hold : e.Current c' := h.current c' hc' fun hs' => hstale ⟨hs', hcc⟩
      exact hold.transfer rfl rfl (congrArg List.getLast? hsame) rfl

/-- Meshes that are asked for one after the other are current. -/
theorem remeshAll (h : e.Tidy stale) (urgent : Bool) (cs : List ChunkPos) :
    Leads (forEach (Engine.remesh urgent) cs) e fun _ e' =>
      e' = { e with board := e'.board } ∧ e'.Tidy fun c => stale c ∧ c ∉ cs := by
  have hloop := ends_forEach (f := Engine.remesh urgent) (l := cs) (e := e)
    (fun rest e' => e' = { e with board := e'.board } ∧
      e'.Tidy fun c => stale c ∧ (c ∉ cs ∨ c ∈ rest))
    ⟨rfl, h.mono fun c _ hs => ⟨hs, (Classical.em (c ∈ cs)).symm⟩⟩
    fun a rest e' ⟨he', htidy⟩ => (htidy.remesh urgent a).mono fun _ e'' ⟨he'', htidy'⟩ => by
      refine ⟨?_, htidy'.mono fun c _ ⟨⟨hs, hleft⟩, hne⟩ => ⟨hs, ?_⟩⟩
      · rw [he'', he']
      · rcases hleft with hnot | hmem
        · exact .inl hnot
        · exact .inr ((List.mem_cons.mp hmem).resolve_left hne)
  refine hloop.mono fun _ e' ⟨he', htidy⟩ => ⟨he', htidy.mono fun c _ ⟨hs, hleft⟩ => ⟨hs, ?_⟩⟩
  exact hleft.resolve_right List.not_mem_nil

/-! ## 3. Asking for chunks -/

/-- **Asking for chunks changes no mesh.** -/
theorem requestMissing (h : e.Tidy stale) (cs : List ChunkPos) :
    Leads (Engine.requestMissing cs) e fun _ e' => e'.config = e.config ∧ e'.Tidy stale := by
  induction cs generalizing e with
  | nil => exact ends_pure ⟨rfl, h⟩
  | cons c rest ih =>
    refine ends_bind (ends_get ?_)
    split
    · exact ih h
    · obtain ⟨b, hpublish, hstaffed, hbacklog⟩ := h.staffed.publish_chunkRequest c false
      have htidy := h.board hstaffed fun c' => by rw [hbacklog]
      refine ends_bind (leads_publish hpublish (ends_bind (ends_modify (ends_bind ?_))))
      exact (ih (htidy.pending (e.pending.insert c))).mono fun _ e' he' => ends_pure he'

theorem requestInRange (h : e.Tidy stale) :
    Leads Engine.requestInRange e fun _ e' => e'.config = e.config ∧ e'.Tidy stale :=
  ends_bind (ends_get (ends_bind (leads_orAbort (.surroundings _ h.viewer _)
    fun wanted _ => h.requestMissing wanted)))

end Tidy

/-! ## 4. Collecting a border -/

theorem mem_foldl_insert {l : List ChunkPos} {s : Std.TreeSet ChunkPos} {c : ChunkPos} :
    c ∈ l.foldl (·.insert ·) s ↔ c ∈ s ∨ c ∈ l := by
  induction l generalizing s with
  | nil => simp
  | cons a rest ih =>
    rw [List.foldl_cons, ih, Std.TreeSet.mem_insert, Std.LawfulEqCmp.compare_eq_iff_eq]
    simp only [List.mem_cons]
    constructor
    · rintro ((rfl | hs) | hr)
      · exact .inr (.inl rfl)
      · exact .inl hs
      · exact .inr (.inr hr)
    · rintro (hs | rfl | hr)
      · exact .inl (.inr hs)
      · exact .inl (.inl rfl)
      · exact .inr hr

/-- Dropping the meshes of chunks that are gone leaves those of other chunks alone, and collects
every loaded chunk next to one of them. -/
theorem ends_collectBorder {fail : Failure → Prop} (e : Engine)
    (hfault : ∀ c f, e.world.loadedBeside c = .error f → fail (.aborted f)) (cs : List ChunkPos)
    (border : Std.TreeSet ChunkPos) :
    Ends fail (collectBorder cs border) e fun found e' =>
      e' = { e with meshes := e'.meshes } ∧ (∀ c ∈ cs, e'.meshes.get? c = none) ∧
        (∀ c, c ∉ cs → e'.meshes.get? c = e.meshes.get? c) ∧ (∀ c ∈ border, c ∈ found) ∧
        ∀ gone ∈ cs, ∀ side c, gone.neighbor side = .ok c → e.world.contains c = true →
          c ∈ found := by
  induction cs generalizing e border with
  | nil => exact ends_pure ⟨rfl, nofun, fun _ _ => rfl, fun _ hc => hc, nofun⟩
  | cons gone rest ih =>
    refine ends_bind (ends_modify (ends_bind (ends_get (ends_bind
      (ends_orAbort (hfault gone) fun beside hbeside => ?_)))))
    have hrest := ih { e with meshes := e.meshes.erase gone } hfault
      (beside.foldl (·.insert ·) border)
    refine hrest.mono fun found e' ⟨he', hdropped, hkept, hborder, hfound⟩ => ⟨?_, ?_, ?_, ?_, ?_⟩
    · rw [he']
    · intro c hc
      by_cases hrest : c ∈ rest
      · exact hdropped c hrest
      · have hgone : gone = c := ((List.mem_cons.mp hc).resolve_right hrest).symm
        rw [hkept c hrest, MeshTable.get?_erase, if_pos hgone]
    · intro c hc
      obtain ⟨hne, hrest⟩ := not_or.mp (mt List.mem_cons.mpr hc)
      rw [hkept c hrest, MeshTable.get?_erase, if_neg (Ne.symm hne)]
    · exact fun c hc => hborder c (mem_foldl_insert.mpr (.inl hc))
    · intro gone' hgone' side c hside hloaded
      rcases List.mem_cons.mp hgone' with rfl | hgone'
      · refine hborder c (mem_foldl_insert.mpr (.inr ?_))
        exact (World.mem_loadedBeside hbeside).mpr ⟨hloaded, side, hside⟩
      · exact hfound gone' hgone' side c hside hloaded

/-- A state in which the meshes of all loaded chunks are current. -/
def Settled (e : Engine) : Prop := e.Tidy fun _ => False

namespace Settled

/-! ## 5. What becomes stale -/

/-- An inserted chunk makes its own mesh stale and those next to it. -/
theorem insert (h : e.Settled) {chunk : Chunk} (hcoherent : chunk.Coherent) (hknown : chunk.Known) :
    ({ e with world := e.world.insert chunk } : Engine).Tidy fun c =>
      c = chunk.position ∨ ∃ side, c.neighbor side = .ok chunk.position := by
  refine ⟨h.staffed, h.sound.insert hcoherent hknown, h.viewer, fun c hc hs => ?_⟩
  obtain ⟨hne, hapart⟩ := not_or.mp hs
  have hne' : chunk.position ≠ c := Ne.symm hne
  have hold : e.world.contains c = true := by
    rw [World.contains_eq_isSome] at hc ⊢
    rw [World.chunk?_insert, if_neg hne'] at hc
    exact hc
  refine (h.current c hold not_false).transfer rfl ?_ rfl rfl
  exact World.freshMesh_insert hne' (fun side hside => hapart ⟨side, hside⟩) _

/-- Dropped chunks make the meshes next to them stale. -/
theorem trim (h : e.Settled) {viewer : ChunkPos} (hviewer : viewer.Aligned) {radius : Int32}
    {meshes : MeshTable}
    (hmeshes : ∀ c, c ∉ (e.world.trim viewer radius).2 → meshes.get? c = e.meshes.get? c) :
    ({ e with viewer := viewer, world := (e.world.trim viewer radius).1, meshes := meshes } :
        Engine).Tidy fun c =>
      ∃ side n, c.neighbor side = .ok n ∧ n ∈ (e.world.trim viewer radius).2 := by
  refine ⟨h.staffed, h.sound.trim viewer radius, hviewer, fun c hc hnot => ?_⟩
  obtain ⟨hold, hinside⟩ := World.contains_trim.mp hc
  have hstays : c ∉ (e.world.trim viewer radius).2 := by
    rw [World.mem_trim, hinside]
    exact fun hdropped => Bool.false_ne_true hdropped.2
  have hapart : ∀ side n, c.neighbor side = .ok n → e.world.contains n →
      World.isOutside viewer radius n = false := by
    intro side n hn hloaded
    refine Bool.eq_false_iff.mpr fun hout => hnot ⟨side, n, hn, ?_⟩
    exact (World.mem_trim ..).mpr ⟨hloaded, hout⟩
  refine (h.current c hold not_false).transfer rfl ?_ rfl (hmeshes c hstays)
  exact World.freshMesh_trim hinside hapart _

/-- An edit makes the meshes stale of the chunks it lists. -/
theorem write (h : e.Settled) {p : Point} {block : Block} (hblock : block.Known) {world : World}
    {touched : List ChunkPos} (hedit : e.world.edit p block = (world, .ok touched)) :
    ({ e with world := world } : Engine).Tidy (· ∈ touched) := by
  refine ⟨h.staffed, h.sound.edit hblock hedit, h.viewer, fun c hc hnot => ?_⟩
  obtain ⟨-, before, after, -, hbefore, -, -, hworld, -⟩ := World.edit_eq_ok_iff.mp hedit
  have hold : e.world.contains c = true := by
    rw [← World.contains_replace hbefore hworld]
    exact hc
  exact (h.current c hold not_false).transfer rfl (World.freshMesh_edit hedit hold hnot _) rfl rfl

/-! ## 6. Responses -/

/-- **A generated chunk leaves all meshes current.**  What it makes stale is asked for. -/
theorem acceptChunk (h : e.Settled) {chunk : Chunk} (hcoherent : chunk.Coherent)
    (hknown : chunk.Known) :
    Leads (Engine.acceptChunk chunk) e fun _ e' => e'.config = e.config ∧ e'.Settled := by
  refine ends_bind (ends_modify (ends_bind (ends_get ?_)))
  have harrived : ({ e with pending := e.pending.erase chunk.position } : Engine).Settled :=
    Tidy.pending h _
  split
  · exact ends_pure ⟨rfl, harrived⟩
  · refine ends_bind (ends_modify (ends_bind ?_))
    refine ((harrived.insert hcoherent hknown).remesh false chunk.position).mono
      fun _ e₁ ⟨he₁, htidy₁⟩ => ?_
    refine ends_bind (ends_get (ends_bind (leads_orAbort (.loadedBeside _ _)
      fun beside hbeside => ?_)))
    refine (htidy₁.remeshAll false beside).mono fun _ e₂ ⟨he₂, htidy₂⟩ => ⟨?_, ?_⟩
    · rw [he₂, he₁]
    · refine htidy₂.mono fun c hc ⟨⟨hstale, hne⟩, hnot⟩ => hnot ?_
      obtain ⟨side, hside⟩ := hstale.resolve_left hne
      rw [he₂] at hc
      rw [World.mem_loadedBeside hbeside]
      exact ⟨hc, side.opposite, ChunkPos.neighbor_opposite hside⟩

/-- **A finished mesh leaves all meshes current**: it was the next one to come for its position. -/
theorem acceptMesh {b : Switchboard} {m : Mesh} (h : e.Settled)
    (hstaffed : b.Staffed e.config.onDuplicate e.config.boundary)
    (hbacklog : ∀ c, e.board.backlog .meshRequest c =
      (if (Message.meshResponse m).answers .meshRequest c then [.ok (.meshResponse m)] else []) ++
        b.backlog .meshRequest c) :
    Leads (Engine.acceptMesh m) { e with board := b } fun _ e' =>
      e'.config = e.config ∧ e'.Settled := by
  have hanswers : ∀ c, (Message.meshResponse m).answers .meshRequest c = decide (m.coords = c) := by
    intro c
    unfold Message.answers
    simp [Message.coords?, Message.topic, Topic.response?, Bool.beq_eq_decide_eq]
  simp only [hanswers, decide_eq_true_eq] at hbacklog
  have hother : ∀ c, m.coords ≠ c → b.backlog .meshRequest c = e.board.backlog .meshRequest c := by
    intro c hc
    rw [hbacklog, if_neg hc, List.nil_append]
  refine ends_modify ?_
  dsimp only
  split
  · next hloaded =>
    refine ⟨rfl, hstaffed, h.sound, h.viewer, fun c hc hs => ?_⟩
    by_cases hmc : m.coords = c
    · subst hmc
      obtain ⟨m', hm', hcurrent⟩ := h.current m.coords hc hs
      refine ⟨m', hm', ?_⟩
      rw [hbacklog, if_pos rfl] at hcurrent
      rcases hcurrent with hlast | ⟨hempty, -⟩
      · cases hrest : b.backlog .meshRequest m.coords with
        | nil =>
          -- nothing is to come any more, so the mesh at hand is the one the world gives
          rw [hrest] at hlast
          cases hlast
          exact .inr ⟨rfl, by rw [MeshTable.get?_install, if_pos rfl]⟩
        | cons next rest =>
          rw [hrest, List.singleton_append, List.getLast?_cons_cons] at hlast
          exact .inl (hrest ▸ hlast)
      · cases hempty
    · have hfiled : (e.meshes.install m).get? c = e.meshes.get? c := by
        rw [MeshTable.get?_install, if_neg hmc]
      exact (h.current c hc hs).transfer rfl rfl (congrArg List.getLast? (hother c hmc)) hfiled
  · next hloaded =>
    refine ⟨rfl, hstaffed, h.sound, h.viewer, fun c hc hs => ?_⟩
    have hmc : m.coords ≠ c := by
      rintro rfl
      exact hloaded hc
    exact (h.current c hc hs).transfer rfl rfl (congrArg List.getLast? (hother c hmc)) rfl

/-- **Handling a response leaves all meshes current.** -/
theorem handleNext (h : e.Settled) :
    Leads Engine.handleNext e fun _ e' => e'.config = e.config ∧ e'.Settled := by
  refine ends_bind (ends_get ?_)
  rcases h.staffed.takeResponse_cases with
    ⟨htake, -⟩ | ⟨m, b, htake, ⟨j, c, hanswer⟩, hstaffed, hbacklog⟩
  · rw [htake]
    exact ends_pure ⟨rfl, h⟩
  · rw [htake]
    refine ends_bind (ends_set (ends_bind ?_))
    have haccept : Leads (accept m) { e with board := b } fun _ e' =>
        e'.config = e.config ∧ e'.Settled := by
      cases j with
      | generate t =>
        obtain ⟨chunk, rfl, hfresh⟩ := hanswer
        refine acceptChunk (h.board hstaffed fun c' => ?_) hfresh.coherent hfresh.known
        rw [hbacklog, if_neg (by simp [Message.answers, Topic.response?, Message.topic])]
        rfl
      | mesh policy =>
        obtain ⟨mesh, rfl, -⟩ := hanswer
        exact h.acceptMesh hstaffed (hbacklog .meshRequest)
      | relay => cases hanswer
    exact haccept.mono fun _ _ he' => ends_pure he'

/-! ## 7. Edits -/

/-- **An edit leaves all meshes current.**  The chunks it lists become stale and are asked for; an
edit that is refused changes nothing. -/
theorem edit (h : e.Settled) (p : Point) {block : Block} (hblock : block.Known) :
    (∃ cause, (Engine.edit p block).run e = (.error (.refused cause), e)) ∨
      Leads (Engine.edit p block) e fun _ e' => e'.config = e.config ∧ e'.Settled := by
  rcases hedit : e.world.edit p block with ⟨world, failure | touched⟩
  · have hrun := run_edit_error hedit
    rcases h.sound.edit_error hedit with ⟨rfl, cause, rfl⟩ | ⟨operation, rfl⟩
    · exact .inl ⟨cause, hrun⟩
    · right
      unfold Leads Ends
      rw [hrun]
      exact ⟨operation, rfl⟩
  · right
    have hremesh : Leads (do forEach (Engine.remesh true) touched; return touched)
        { e with world := world } fun _ e' => e'.config = e.config ∧ e'.Settled := by
      have hstale := h.write hblock hedit
      refine ends_bind ((hstale.remeshAll true touched).mono fun _ e' ⟨he', htidy'⟩ =>
        ends_pure ⟨by rw [he'], htidy'.mono fun c _ ⟨hin, hnot⟩ => hnot hin⟩)
    unfold Leads Ends at hremesh ⊢
    rw [run_edit_ok hedit]
    exact hremesh

/-! ## 8. The viewer moves -/

/-- **A move of the viewer leaves all meshes current.**  The chunks next to a dropped one become
stale; they make up the border, which is asked for. -/
theorem moveViewer (h : e.Settled) {viewer : ChunkPos} (hviewer : viewer.Aligned) :
    Leads (Engine.moveViewer viewer) e fun _ e' => e'.config = e.config ∧ e'.Settled := by
  refine ends_bind (ends_get ?_)
  split
  · exact ends_pure ⟨rfl, h⟩
  · obtain ⟨b, hpublish, hstaffed, hbacklog⟩ := h.staffed.publish_viewerMoved viewer
    refine ends_bind (ends_modify (ends_bind (leads_publish hpublish
      (ends_bind (ends_get (ends_bind (ends_set (ends_bind ?_))))))))
    have hpublished : ({ e with board := b } : Engine).Settled :=
      Tidy.board h hstaffed fun c => by rw [hbacklog]
    have hoverflow : ∀ w : World, ∀ c f, w.loadedBeside c = .error f →
        ∃ operation, Failure.aborted f = .aborted (.overflow operation) := by
      intro w c f hf
      obtain ⟨operation, rfl⟩ := OverflowOnly.loadedBeside w c f hf
      exact ⟨operation, rfl⟩
    refine (ends_collectBorder _ (hoverflow _) _ _).mono
      fun border e₁ ⟨he₁, _, hmeshes, _, hborder⟩ => ?_
    have htrimmed := hpublished.trim hviewer hmeshes
    rw [he₁]
    refine ends_bind ((htrimmed.remeshAll false border.toList).mono
      fun _ e₂ ⟨he₂, htidy₂⟩ => ?_)
    have hsettled : e₂.Settled := htidy₂.mono fun c hc ⟨⟨side, n, hn, hgone⟩, hnot⟩ => by
      rw [he₂] at hc
      refine hnot (Std.TreeSet.mem_toList.mpr ?_)
      exact hborder n hgone side.opposite c (ChunkPos.neighbor_opposite hn) hc
    refine ends_bind (ends_modify (ends_bind ?_))
    refine (Tidy.requestInRange (Tidy.pending hsettled _)).mono fun _ e₃ ⟨he₃, htidy₃⟩ => ?_
    refine ends_pure ⟨he₃.trans ?_, htidy₃⟩
    rw [he₂]

end Settled

end Blockworld.Engine
