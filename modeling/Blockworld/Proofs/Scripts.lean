/-
# Operations in single sends

An operation of the main loop can send many messages, and workers go on while it waits for room in a
channel.  `Engine.Script` is an operation taken apart: it looks at the state and changes it, or sends
one message to one place, and goes on.  Between any two of these, workers can take their steps.

What a script changes is the part of the state that belongs to the main loop, and in the inbox it
does not do more than take the oldest response out.  So a script never writes back what it has read
of the channels earlier.

Run without interruption, the scripts are the operations of the engine (`Script.Enacts`,
`Action.run_script`).  The rules follow the ways in which operations are put together.
-/
import Blockworld.Proofs.Operations
import Blockworld.Proofs.Places

namespace Blockworld.Engine

/-! ## 1. Scripts -/

/-- What is left of an operation. -/
inductive Script (α : Type) where
  | done (a : α)
  | fail (failure : Failure)
  /-- Changes the state, and goes on by what the state was before. -/
  | look (f : Engine → Engine) (k : Engine → Script α)
  /-- Sends a message to the channel at a place. -/
  | send (i : Nat) (m : Message) (k : Script α)

namespace Script

variable {α β : Type}

/-- One script after another. -/
def bind : Script α → (α → Script β) → Script β
  | done a, f => f a
  | fail failure, _ => fail failure
  | look g k, f => look g fun e => (k e).bind f
  | send i m k, f => send i m (k.bind f)

instance : Monad Script where
  pure := done
  bind := bind

/-- Runs a script without interruption. -/
def run : Script α → Engine → Except Failure α × Engine
  | done a, e => (.ok a, e)
  | fail failure, e => (.error failure, e)
  | look f k, e => (k e).run (f e)
  | send i m k, e =>
    match e.board.sendTo i m with
    | (b, .ok ()) => k.run { e with board := b }
    | (b, .error cause) => (.error (.refused (.delivery cause)), { e with board := b })

/-- Reads the state. -/
def read : Script Engine := look id done

/-- Changes the state. -/
def change (f : Engine → Engine) : Script Unit := look f fun _ => done ()

/-- Ends the operation if a computation faults. -/
def orAbort : Except Fault α → Script α
  | .ok a => done a
  | .error f => fail (.aborted f)

/-- Sends a message to one place after the other. -/
def sendAll (m : Message) : List Nat → Script Unit
  | [] => done ()
  | i :: rest => send i m (sendAll m rest)

/-- Publishes a message. -/
def publish (m : Message) : Script Unit :=
  if m.topic.isResponse then change fun e => { e with board := e.board.respond m }
  else
    look id fun e =>
      if m.topic.isRequest && (e.board.route? m).isNone then
        fail (.refused (.delivery (.unsubscribed m.topic)))
      else sendAll m (e.board.places m)

/-- Does something for each element of a list. -/
def forEach (f : α → Script Unit) : List α → Script Unit
  | [] => return ()
  | a :: rest => do
    f a
    forEach f rest

/-- Asks for the mesh of a chunk as it is now. -/
def remesh (urgent : Bool) (c : ChunkPos) : Script Unit := do
  let e ← read
  match ← orAbort (e.world.snapshot? c) with
  | some snapshot => publish (.meshRequest snapshot urgent)
  | none => return ()

/-- Asks for the chunks of a list that are neither loaded nor asked for. -/
def requestMissing : List ChunkPos → Script Nat
  | [] => return 0
  | c :: rest => do
    let e ← read
    if e.world.contains c || e.pending.contains c then requestMissing rest
    else
      publish (.chunkRequest c false)
      change fun e => { e with pending := e.pending.insert c }
      let n ← requestMissing rest
      return n + 1

/-- Asks for every chunk in range that is neither loaded nor asked for. -/
def requestInRange : Script Nat := do
  let e ← read
  let wanted ← orAbort (e.world.surroundings e.viewer e.config.renderDistance)
  requestMissing wanted

/-- Drops the meshes of unloaded chunks and collects their loaded neighbours. -/
def collectBorder : List ChunkPos → Std.TreeSet ChunkPos → Script (Std.TreeSet ChunkPos)
  | [], border => return border
  | c :: rest, border => do
    change fun e => { e with meshes := e.meshes.erase c }
    let e ← read
    let neighbors ← orAbort (e.world.loadedBeside c)
    collectBorder rest (neighbors.foldl (·.insert ·) border)

/-- What follows once the workers have been told that the viewer has moved. -/
def followViewer (viewer : ChunkPos) : Script Unit :=
  look (fun e => { e with world := (e.world.trim viewer e.config.renderDistance).1 }) fun e => do
    let border ← collectBorder (e.world.trim viewer e.config.renderDistance).2 ∅
    forEach (remesh false) border.toList
    change fun e =>
      { e with pending := e.pending.filter (!World.isOutside viewer e.config.renderDistance ·) }
    let _ ← requestInRange
    return ()

/-- Moves the viewer to another chunk. -/
def moveViewer (viewer : ChunkPos) : Script Unit := do
  let e ← read
  if viewer = e.viewer then return ()
  else
    change fun e => { e with viewer := viewer }
    publish (.viewerMoved viewer)
    followViewer viewer

/-- Writes a block and has the chunks it touches meshed again. -/
def edit (p : Point) (block : Block) : Script (List ChunkPos) :=
  look (fun e => { e with world := (e.world.edit p block).1 }) fun e =>
    match (e.world.edit p block).2 with
    | .error failure => fail failure
    | .ok touched => do
      forEach (remesh true) touched
      return touched

/-- Inserts a generated chunk and has it and its loaded neighbours meshed. -/
def acceptChunk (chunk : Chunk) : Script Unit := do
  change fun e => { e with pending := e.pending.erase chunk.position }
  let e ← read
  if World.isOutside e.viewer e.config.renderDistance chunk.position ||
      e.world.contains chunk.position then return ()
  else
    change fun e => { e with world := e.world.insert chunk }
    remesh false chunk.position
    let e ← read
    let neighbors ← orAbort (e.world.loadedBeside chunk.position)
    forEach (remesh false) neighbors

/-- Files a finished mesh, unless its chunk is gone. -/
def acceptMesh (mesh : Mesh) : Script Unit :=
  change fun e =>
    if e.world.contains mesh.coords then { e with meshes := e.meshes.install mesh } else e

/-- Handles a response. -/
def accept : Message → Script Unit
  | .chunkResponse chunk => acceptChunk chunk
  | .meshResponse mesh => acceptMesh mesh
  | _ => return ()

/-- Takes the oldest response out of the inbox and handles it. -/
def handleNext : Script Bool :=
  look (fun e => { e with board := e.board.takeResponse.2 }) fun e =>
    match e.board.takeResponse.1 with
    | none => return false
    | some m => do
      accept m
      return true

/-- The script without its result. -/
def discard (s : Script α) : Script Unit := do
  let _ ← s
  return ()

end Script

/-- The script of an operation.  Steps of workers have none. -/
def Action.script? : Action → Option (Script Unit)
  | .load => some Script.requestInRange.discard
  | .moveViewer viewer => some (Script.moveViewer viewer).discard
  | .edit p block => some (Script.edit p block).discard
  | .handleNext => some Script.handleNext.discard
  | .receive _ | .process _ | .deliver _ => none

/-! ## 2. Scripts enact operations -/

namespace Script

variable {α β : Type}

/-- Run without interruption, the script is the operation. -/
def Enacts (s : Script α) (op : EngineM α) : Prop := ∀ e, s.run e = op.run e

variable {s : Script α} {op : EngineM α}

theorem run_bind (s : Script α) (k : α → Script β) (e : Engine) :
    (s >>= k).run e =
      match s.run e with
      | (.ok a, e') => (k a).run e'
      | (.error failure, e') => (.error failure, e') := by
  show (s.bind k).run e = _
  induction s generalizing e with
  | done a => rfl
  | fail failure => rfl
  | look f k' ih => exact ih e (f e)
  | send i m k' ih =>
    have hsend : (Script.send i m k').bind k = .send i m (k'.bind k) := rfl
    rw [hsend]
    simp only [run]
    split
    · exact ih _
    · rfl

theorem Enacts.pure (a : α) : (Pure.pure a : Script α).Enacts (Pure.pure a) := fun _ => rfl

theorem Enacts.read : read.Enacts get := fun _ => rfl

theorem Enacts.change (f : Engine → Engine) : (change f).Enacts (modify f) := fun _ => rfl

theorem Enacts.bind {k : α → Script β} {f : α → EngineM β} (hs : s.Enacts op)
    (hk : ∀ a, (k a).Enacts (f a)) : (s >>= k).Enacts (op >>= f) := by
  intro e
  rw [run_bind, Engine.run_bind, hs e]
  cases op.run e with
  | mk result e' =>
    cases result with
    | ok a => exact hk a e'
    | error failure => rfl

/-- An operation that writes what it has just worked out from the state. -/
theorem Enacts.look {f : Engine → Engine} {k : Engine → Script α} {op : Engine → EngineM α}
    (hk : ∀ e, (k e).Enacts (op e)) :
    (Script.look f k).Enacts (do let e ← get; set (f e); op e) := fun e => hk e (f e)

theorem Enacts.ite {c : Prop} [Decidable c] {s s' : Script α} {op op' : EngineM α}
    (hs : s.Enacts op) (hs' : s'.Enacts op') :
    (if c then s else s').Enacts (if c then op else op') := by
  split
  · exact hs
  · exact hs'

theorem Enacts.orAbort (x : Except Fault α) : (orAbort x).Enacts (Engine.orAbort x) := by
  cases x with
  | ok a => exact fun _ => rfl
  | error f => exact fun _ => rfl

theorem run_sendAll (m : Message) (places : List Nat) (e : Engine) :
    (sendAll m places).run e =
      match e.board.sendToAll m places with
      | (b, .ok ()) => (.ok (), { e with board := b })
      | (b, .error cause) => (.error (.refused (.delivery cause)), { e with board := b }) := by
  induction places generalizing e with
  | nil => rfl
  | cons i rest ih =>
    cases hsent : e.board.sendTo i m with
    | mk b result =>
      cases result with
      | ok _ =>
        have hsends : (sendAll m (i :: rest)).run e =
            (sendAll m rest).run { e with board := b } := by simp only [sendAll, run, hsent]
        have hall : e.board.sendToAll m (i :: rest) = b.sendToAll m rest := by
          simp only [Switchboard.sendToAll, hsent]
        rw [hsends, hall, ih]
      | error cause => simp only [sendAll, run, Switchboard.sendToAll, hsent]

/-- **Published in single sends, a message is published.** -/
theorem Enacts.publish (m : Message) : (publish m).Enacts (Engine.publish m) := by
  intro e
  have hpublish : (Engine.publish m).run e =
      match e.board.publish m with
      | (b, .ok ()) => (.ok (), { e with board := b })
      | (b, .error cause) => (.error (.refused (.delivery cause)), { e with board := b }) := by
    unfold Engine.publish
    rw [Engine.run_bind, run_get]
    dsimp only
    cases e.board.publish m with
    | mk b result => cases result <;> rfl
  rw [hpublish]
  unfold Script.publish
  split
  · next hresponse =>
    rw [Switchboard.publish_response hresponse]
    rfl
  · next hresponse =>
    rw [Bool.not_eq_true] at hresponse
    show (if _ then _ else _ : Script Unit).run e = _
    split
    · next hnone =>
      rw [Bool.and_eq_true, Option.isNone_iff_eq_none] at hnone
      obtain ⟨hrequest, hroute⟩ := hnone
      unfold Switchboard.publish
      rw [hroute]
      simp [hresponse, (Switchboard.class_of_isRequest hrequest).2, run]
    · next hsome =>
      rw [Switchboard.publish_eq_sendToAll hresponse]
      · exact run_sendAll m _ e
      · intro hrequest hroute
        simp [hrequest, hroute] at hsome

theorem Enacts.forEach {f : α → Script Unit} {g : α → EngineM Unit} (h : ∀ a, (f a).Enacts (g a))
    (l : List α) : (forEach f l).Enacts (Engine.forEach g l) := by
  induction l with
  | nil => exact .pure ()
  | cons a rest ih => exact .bind (h a) fun _ => ih

/-! ## 3. The operations -/

theorem Enacts.remesh (urgent : Bool) (c : ChunkPos) :
    (remesh urgent c).Enacts (Engine.remesh urgent c) := by
  refine .bind .read fun e => .bind (.orAbort _) fun found => ?_
  cases found with
  | some snapshot => exact .publish _
  | none => exact .pure ()

theorem Enacts.requestMissing (cs : List ChunkPos) :
    (requestMissing cs).Enacts (Engine.requestMissing cs) := by
  induction cs with
  | nil => exact .pure 0
  | cons c rest ih =>
    exact .bind .read fun e => .ite ih <|
      .bind (.publish _) fun _ => .bind (.change _) fun _ => .bind ih fun n => .pure (n + 1)

theorem Enacts.requestInRange : requestInRange.Enacts Engine.requestInRange :=
  .bind .read fun _ => .bind (.orAbort _) fun wanted => .requestMissing wanted

theorem Enacts.collectBorder (cs : List ChunkPos) (border : Std.TreeSet ChunkPos) :
    (collectBorder cs border).Enacts (Engine.collectBorder cs border) := by
  induction cs generalizing border with
  | nil => exact .pure border
  | cons c rest ih =>
    exact .bind (.change _) fun _ => .bind .read fun e => .bind (.orAbort _) fun neighbors => ih _

theorem Enacts.moveViewer (viewer : ChunkPos) :
    (moveViewer viewer).Enacts (Engine.moveViewer viewer) := by
  refine .bind .read fun e => .ite (.pure ()) ?_
  refine .bind (.change _) fun _ => .bind (.publish _) fun _ => ?_
  exact .look fun e => .bind (.collectBorder _ _) fun border =>
    .bind (.forEach (.remesh false) _) fun _ => .bind (.change _) fun _ =>
      .bind .requestInRange fun _ => .pure ()

theorem Enacts.edit (p : Point) (block : Block) :
    (edit p block).Enacts (Engine.edit p block) := by
  intro e
  cases hedit : e.world.edit p block with
  | mk world result =>
    cases result with
    | error failure =>
      rw [run_edit_error hedit]
      simp only [Script.edit, run, hedit]
    | ok touched =>
      rw [run_edit_ok hedit]
      simp only [Script.edit, run, hedit]
      exact Enacts.bind (.forEach (.remesh true) touched) (fun _ => .pure touched) _

theorem Enacts.acceptChunk (chunk : Chunk) :
    (acceptChunk chunk).Enacts (Engine.acceptChunk chunk) :=
  .bind (.change _) fun _ => .bind .read fun _ => .ite (.pure ()) <|
    .bind (.change _) fun _ => .bind (.remesh _ _) fun _ => .bind .read fun _ =>
      .bind (.orAbort _) fun neighbors => .forEach (.remesh false) neighbors

theorem Enacts.accept (m : Message) : (accept m).Enacts (Engine.accept m) := by
  cases m with
  | chunkResponse chunk => exact .acceptChunk chunk
  | meshResponse mesh => exact .change _
  | _ => exact .pure ()

theorem Enacts.handleNext : handleNext.Enacts Engine.handleNext := by
  intro e
  unfold Engine.handleNext
  rw [Engine.run_bind, run_get]
  dsimp only
  cases htake : e.board.takeResponse with
  | mk found b =>
    cases found with
    | none =>
      have hsame : b = e.board := by
        unfold Switchboard.takeResponse at htake
        split at htake
        · cases htake
          rfl
        · cases htake
      simp only [Script.handleNext, run, htake, hsame]
      rfl
    | some m =>
      simp only [Script.handleNext, run, htake]
      exact Enacts.bind (.accept m) (fun _ => .pure true) _

/-- A script that enacts an operation comes to the outcome of the operation. -/
theorem Enacts.run_discard (h : s.Enacts op) (e : Engine) :
    s.discard.run e = ((outcome op e).2, (outcome op e).1) := by
  unfold discard outcome
  rw [run_bind, h e]
  cases op.run e with
  | mk result e' =>
    cases result with
    | ok a => rfl
    | error failure => rfl

end Script

/-- **Run without interruption, the script of an action is the action.** -/
theorem Action.run_script {a : Action} {s : Script Unit} (h : a.script? = some s) (e : Engine) :
    s.run e = ((e.step a).2, (e.step a).1) := by
  cases a with
  | load =>
    cases h
    exact Script.Enacts.requestInRange.run_discard e
  | moveViewer viewer =>
    cases h
    exact (Script.Enacts.moveViewer viewer).run_discard e
  | edit p block =>
    cases h
    exact (Script.Enacts.edit p block).run_discard e
  | handleNext =>
    cases h
    exact Script.Enacts.handleNext.run_discard e
  | _ => cases h

end Blockworld.Engine
