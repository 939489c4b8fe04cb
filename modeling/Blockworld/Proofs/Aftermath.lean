/-
# After an edit that failed

An edit fails in two places.  The world can refuse it, because the point is out of range or its
chunk is not loaded; nothing has happened then.  Once the world has taken it, the meshes of the
chunks it touches are asked for, and the worker who is to make one of them may have hung up.  The
edit then fails as well, but the block stays written.

* The set of loaded chunks is the same after every edit, however it ends
  (`Engine.contains_after_edit`).
* What can be read after an edit that failed is what could be read before exactly if the world
  refused it, or if it wrote what was there already (`Engine.edit_refused_exact`).
* One worker that has been stopped is enough to show the difference: whatever is edited in a chunk
  that nobody is left to mesh is written, and fails (`Engine.step_edit_hungUp`).

Asking for meshes changes nothing but the board, whether or not the messages are delivered
(`Engine.BoardOnly`).  That is all that the second half of an edit does.
-/
import Blockworld.Proofs.BlockMap
import Blockworld.Proofs.Bookkeeping
import Blockworld.Proofs.Casualties

namespace Blockworld

/-- The world refuses an edit for one of two reasons. -/
theorem World.cause_of_edit_refused {w w' : World} {p : Point} {block : Block} {cause : Error}
    (h : w.edit p block = (w', .error (.refused cause))) :
    cause = .outOfRange p ∨ cause = .notLoaded (ChunkPos.owner p) := by
  unfold edit at h
  split at h
  · dsimp only at h
    split at h
    · cases h
      exact .inr rfl
    · split at h
      · cases h
      · split at h
        · cases h
        · cases h
  · cases h
    exact .inl rfl

namespace Engine

variable {e e' : Engine} {p : Point} {block : Block} {cause : Error}

/-! ## 1. Asking for meshes -/

/-- The states differ in nothing but the board. -/
def BoardOnly (e e' : Engine) : Prop := ∃ b : Switchboard, e' = { e with board := b }

theorem BoardOnly.refl (e : Engine) : BoardOnly e e := ⟨e.board, rfl⟩

theorem BoardOnly.trans {e'' : Engine} (h : BoardOnly e e') (h' : BoardOnly e' e'') :
    BoardOnly e e'' := by
  obtain ⟨b, rfl⟩ := h
  obtain ⟨b', rfl⟩ := h'
  exact ⟨b', rfl⟩

/-- The failure left only the board changed, and it was a fault or a message not delivered. -/
def BrokenAt (e : Engine) (failure : Failure) (e' : Engine) : Prop :=
  Broken failure ∧ BoardOnly e e'

/-- **Asking for a mesh changes nothing but the board**, delivered or not. -/
theorem leaves_remesh (e : Engine) (urgent : Bool) (c : ChunkPos) :
    Leaves (BrokenAt e) (remesh urgent c) e fun _ e' => BoardOnly e e' := by
  refine leaves_bind (leaves_get (leaves_bind (leaves_orAbort (fun _ _ => ⟨trivial, .refl e⟩)
    fun found _ => ?_)))
  cases found with
  | none => exact leaves_pure (.refl e)
  | some s => exact leaves_publish (fun b _ _ => ⟨trivial, b, rfl⟩) fun b _ => ⟨b, rfl⟩

theorem leaves_remeshAll (e : Engine) (urgent : Bool) (cs : List ChunkPos) :
    Leaves (BrokenAt e) (forEach (remesh urgent) cs) e fun _ e' => BoardOnly e e' := by
  refine leaves_forEach (fun _ e' => BoardOnly e e') (.refl e) fun c _ e' hsame => ?_
  exact (leaves_remesh e' urgent c).mono (fun _ _ hsame' => hsame.trans hsame')
    fun _ _ ⟨hbroken, hsame'⟩ => ⟨hbroken, hsame.trans hsame'⟩

theorem always_remesh (e : Engine) (urgent : Bool) (c : ChunkPos) :
    Always (remesh urgent c) e (BoardOnly e) :=
  (leaves_remesh e urgent c).mono (fun _ _ h => h) fun _ _ h => h.2

theorem always_remeshAll (e : Engine) (urgent : Bool) (cs : List ChunkPos) :
    Always (forEach (remesh urgent) cs) e (BoardOnly e) :=
  (leaves_remeshAll e urgent cs).mono (fun _ _ h => h) fun _ _ h => h.2

/-! ## 2. Edits -/

/-- What an edit that fails has done: nothing but what the world did to itself if the world did not
take it, and all of the writing if it did. -/
def EditFailed (e : Engine) (p : Point) (block : Block) (failure : Failure) (e' : Engine) : Prop :=
  (∃ world, e.world.edit p block = (world, .error failure) ∧ e' = { e with world := world }) ∨
    ∃ world touched, e.world.edit p block = (world, .ok touched) ∧
      BrokenAt { e with world := world } failure e'

/-- **An edit is written before anything is asked for.** -/
theorem leaves_edit (e : Engine) (p : Point) (block : Block) :
    Leaves (EditFailed e p block) (Engine.edit p block) e fun touched e' =>
      ∃ world, e.world.edit p block = (world, .ok touched) ∧
        BoardOnly { e with world := world } e' := by
  rcases hedit : e.world.edit p block with ⟨world, failure | touched⟩
  · unfold Leaves
    rw [run_edit_error hedit]
    exact .inl ⟨world, hedit, rfl⟩
  · have hremesh : Leaves (EditFailed e p block)
        (do forEach (Engine.remesh true) touched; return touched)
        { e with world := world } fun touched' e' => ∃ world',
          e.world.edit p block = (world', .ok touched') ∧
            BoardOnly { e with world := world' } e' := by
      refine leaves_bind ((leaves_remeshAll _ true touched).mono
        (fun _ e' hsame => leaves_pure ⟨world, hedit, hsame⟩) fun failure e' hbroken => ?_)
      exact .inr ⟨world, touched, hedit, hbroken⟩
    unfold Leaves at hremesh ⊢
    rw [run_edit_ok hedit]
    rw [hedit] at hremesh
    exact hremesh

/-- **An edit does to the world what the world does to itself**, and nothing else but to the
board. -/
theorem always_edit (e : Engine) (p : Point) (block : Block) :
    Always (Engine.edit p block) e fun e' => ∃ world result,
      e.world.edit p block = (world, result) ∧ BoardOnly { e with world := world } e' := by
  refine (leaves_edit e p block).mono (fun touched e' ⟨world, hedit, hsame⟩ => ?_)
    fun failure e' hfailed => ?_
  · exact ⟨world, .ok touched, hedit, hsame⟩
  · rcases hfailed with ⟨world, hedit, rfl⟩ | ⟨world, touched, hedit, -, hsame⟩
    · exact ⟨world, .error failure, hedit, .refl _⟩
    · exact ⟨world, .ok touched, hedit, hsame⟩

/-- **No edit loads or unloads anything**, however it ends. -/
theorem contains_after_edit (e : Engine) (p : Point) (block : Block) (c : ChunkPos) :
    (e.step (.edit p block)).1.world.contains c = e.world.contains c := by
  have hkept : Always (Engine.edit p block) e fun e' =>
      e'.world.contains c = e.world.contains c := by
    refine (always_edit e p block).mono ?_
    rintro _ ⟨world, result, hedit, b, rfl⟩
    exact (World.edit_frame hedit).2 c
  exact hkept.outcome

/-- **What an edit that is refused leaves behind.**  The same chunks are loaded.  If the world
refused it, nothing has changed at all; if a message was not delivered, the block is written.  So
everything reads as before exactly if it was the world that refused, or if the block was there
before. -/
theorem edit_refused_exact (h : e.step (.edit p block) = (e', .error (.refused cause))) :
    (∀ c, e'.world.contains c = e.world.contains c) ∧
      (((cause = .outOfRange p ∨ cause = .notLoaded (ChunkPos.owner p)) ∧ e' = e) ∨
        ∃ undelivered, cause = .delivery undelivered ∧
          ∀ q, e'.blockAt q = if q = p then block else e.blockAt q) ∧
      ((∀ q, e'.blockAt q = e.blockAt q) ↔
        (∀ undelivered, cause ≠ .delivery undelivered) ∨ e.blockAt p = block) := by
  have hloaded : ∀ c, e'.world.contains c = e.world.contains c := by
    intro c
    have hcontains := contains_after_edit e p block c
    rw [h] at hcontains
    exact hcontains
  refine ⟨hloaded, ?_⟩
  rcases (leaves_edit e p block).of_outcome_error h with
    ⟨world, hedit, rfl⟩ | ⟨world, touched, hedit, hbroken, b, rfl⟩
  · obtain rfl := World.eq_of_edit_refused hedit
    have hcause := World.cause_of_edit_refused hedit
    refine ⟨.inl ⟨hcause, rfl⟩, iff_of_true (fun _ => rfl) (.inl fun undelivered heq => ?_)⟩
    subst heq
    rcases hcause with heq | heq <;> cases heq
  · obtain ⟨undelivered, rfl⟩ : ∃ undelivered, cause = .delivery undelivered := by
      cases cause with
      | delivery undelivered => exact ⟨undelivered, rfl⟩
      | _ => cases hbroken
    have hwritten : ∀ q, Engine.blockAt { e with world := world, board := b } q =
        if q = p then block else e.blockAt q := World.blockAt_edit hedit
    refine ⟨.inr ⟨undelivered, rfl, hwritten⟩, ?_⟩
    constructor
    · intro hsame
      have hat := hwritten p
      rw [hsame p, if_pos rfl] at hat
      exact .inr hat
    · rintro (hno | hthere) q
      · exact absurd rfl (hno undelivered)
      · rw [hwritten q]
        split
        · next hq => rw [hq, hthere]
        · rfl

/-! ## 3. A mesh worker that has hung up -/

/-- A mesh cannot be asked for from a worker who has hung up. -/
theorem run_remesh_hungUp (urgent : Bool) {c : ChunkPos} {s : Snapshot} {i : Nat}
    (hs : e.world.snapshot? c = .ok (some s))
    (hplace : e.board.placeFor? .meshRequest c = some i)
    (hgone : e.board.isConnectedAt i = false) :
    (remesh urgent c).run e = (.error (.refused (.delivery (.hungUp .meshRequest))), e) := by
  have hcoords : (Message.meshRequest s urgent).coords? = some c := by
    obtain ⟨chunk, around, -, -, rfl⟩ := World.snapshot?_eq_some_iff.mp hs
    rfl
  have hroute : e.board.route? (.meshRequest s urgent) = some i :=
    (Switchboard.route?_eq hcoords).trans hplace
  have hpublish : e.board.publish (.meshRequest s urgent) =
      (e.board, .error (.hungUp .meshRequest)) := by
    unfold Switchboard.publish
    rw [hroute]
    show e.board.sendTo i (.meshRequest s urgent) = _
    rw [Switchboard.sendTo_eq, hgone]
    rfl
  unfold remesh
  rw [run_bind, run_get]
  dsimp only
  rw [hs]
  show (publish (.meshRequest s urgent)).run e = _
  unfold publish
  rw [run_bind, run_get]
  dsimp only
  rw [hpublish]
  rfl

/-- **An edit fails, and is written, if the worker who meshes its chunk has hung up.** -/
theorem step_edit_hungUp {world : World} {touched : List ChunkPos} {s : Snapshot} {i : Nat}
    (hedit : e.world.edit p block = (world, .ok touched))
    (hs : world.snapshot? (ChunkPos.owner p) = .ok (some s))
    (hplace : e.board.placeFor? .meshRequest (ChunkPos.owner p) = some i)
    (hgone : e.board.isConnectedAt i = false) :
    e.step (.edit p block) =
      ({ e with world := world }, .error (.refused (.delivery (.hungUp .meshRequest)))) := by
  obtain ⟨rest, rfl⟩ : ∃ rest, touched = ChunkPos.owner p :: rest := by
    obtain ⟨-, before, after, around, -, -, -, -, htouched⟩ := World.edit_eq_ok_iff.mp hedit
    exact ⟨_, htouched⟩
  have hfirst := run_remesh_hungUp (e := { e with world := world }) true hs hplace hgone
  show outcome (Engine.edit p block) e = _
  unfold outcome
  rw [run_edit_ok hedit, run_bind, forEach, run_bind, hfirst]

/-- The edit that takes the unknown block out of the forsaken meadow. -/
def healing : Action := .edit ⟨0, 0, 0⟩ (.ofMaterial .stone)

/-- The forsaken meadow with the unknown block replaced. -/
def healed : Engine :=
  { forsaken with world := (forsaken.world.edit ⟨0, 0, 0⟩ (.ofMaterial .stone)).1 }

theorem step_healing :
    forsaken.step healing = (healed, .error (.refused (.delivery (.hungUp .meshRequest)))) := by
  have hresult : (forsaken.world.edit ⟨0, 0, 0⟩ (.ofMaterial .stone)).2 = .ok [.zero] := by
    decide +kernel
  have hplace : forsaken.board.placeFor? .meshRequest (ChunkPos.owner ⟨0, 0, 0⟩) = some 1 := by
    decide +kernel
  have hsome : ((healed.world.snapshot? .zero).toOption.join).isSome = true := by decide +kernel
  obtain ⟨s, hs⟩ : ∃ s, healed.world.snapshot? .zero = .ok (some s) := by
    cases h : healed.world.snapshot? .zero with
    | error f => simp [h, Except.toOption] at hsome
    | ok s? =>
      cases s? with
      | none => simp [h, Except.toOption] at hsome
      | some s => exact ⟨s, rfl⟩
  exact step_edit_hungUp (Prod.ext rfl hresult) hs hplace isConnectedAt_forsaken

/-- The edit has failed, and its block is read where it was to be written. -/
theorem healing_refused :
    forsaken.step healing = (healed, .error (.refused (.delivery (.hungUp .meshRequest)))) ∧
      ∀ q, healed.blockAt q =
        if q = ⟨0, 0, 0⟩ then .ofMaterial .stone else forsaken.blockAt q := by
  refine ⟨step_healing, ?_⟩
  obtain ⟨-, ⟨hcause, -⟩ | ⟨-, -, hwritten⟩, -⟩ := edit_refused_exact step_healing
  · rcases hcause with heq | heq <;> cases heq
  · exact hwritten

/-- **An edit can fail and be written all the same.**  The unknown block has stopped the worker, and
the edit that takes it away again is refused and done. -/
theorem healing_is_written :
    (start meadow = .ok meadowStart ∧ (meadowStart.step .load).2 = .ok () ∧
        ∃ actions, forsaken = (meadowStart.step .load).1.after actions) ∧
      (forsaken.step healing).2 = .error (.refused (.delivery (.hungUp .meshRequest))) ∧
      forsaken.blockAt ⟨0, 0, 0⟩ = ⟨200, 0⟩ ∧
      (forsaken.step healing).1.blockAt ⟨0, 0, 0⟩ = .ofMaterial .stone := by
  rw [step_healing]
  exact ⟨forsaken_reached, rfl, by decide +kernel, by decide +kernel⟩

end Engine

end Blockworld
