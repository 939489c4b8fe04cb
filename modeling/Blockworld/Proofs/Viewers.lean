/-
# The viewer that workers go by

A worker measures distances to the viewer it has last been told of, which can lag behind the viewer
of the engine: the message may be on its way, or not sent yet, for operations are interrupted by
workers wherever they send (`Engine.Timeline`).  Every message that is sent is put down, with the
viewer of the engine at that time.

1. **What is left of an operation** (`Script.Heeds`).  Only a move of the viewer changes the viewer,
   and before it sends anything else it tells all workers.  So there is a list of workers that are
   late, requests are sent to none of them, and nobody is late when the operation is over.

2. **Every moment is attuned** (`Timeline.attuned`).  A worker that is not late has been sent the
   present viewer last; the viewer of its queue is where the messages that it has read have put it;
   and every request was sent under the viewer that the messages ahead of it lead to.

3. **What follows** (`Timeline.agrees`).  Between operations a worker that reads what waits for it
   comes to the viewer of the engine; a worker about to read a request goes by the viewer that the
   engine had when it sent it; and once nothing waits, all distances are those to the present viewer.
-/
import Blockworld.Proofs.Coverage
import Blockworld.Proofs.Scripts
import Blockworld.Proofs.Turns

namespace Blockworld

/-! ## 1. Runs in single sends -/

/-- Where the viewer has moved, if the message tells. -/
def Message.viewer? : Message → Option ChunkPos
  | .viewerMoved viewer => some viewer
  | _ => none

/-- A queue that is retargeted by all moves among some messages ends up where they put the viewer. -/
theorem WorkQueue.viewer_foldl_retarget {α : Type} (ms : List Message) (q : WorkQueue α) :
    ((ms.filterMap Message.viewer?).foldl WorkQueue.retarget q).viewer =
      ms.foldl Message.viewerAfter q.viewer := by
  induction ms generalizing q with
  | nil => rfl
  | cons m rest ih =>
    cases m with
    | viewerMoved viewer => exact ih (q.retarget viewer)
    | _ => exact ih q

/-- A message that was sent, with the viewer of the engine at that time. -/
structure Post where
  place : Nat
  message : Message
  viewer : ChunkPos

namespace Engine

/-- A moment of a run: the engine, what is left of the operation under way, and all that has been
sent, in order. -/
structure Moment where
  engine : Engine
  rest : Option (Script Unit)
  posts : List Post

/-- The moments of the runs of an engine in which every message is delivered and no operation is
stopped by a fault. -/
inductive Timeline (config : Config) : Moment → Prop
  | start {e : Engine} (h : Engine.start config = .ok e) : Timeline config ⟨e, none, []⟩
  /-- The main loop begins an operation. -/
  | begin {e : Engine} {posts : List Post} {a : Action} {s : Script Unit}
      (h : Timeline config ⟨e, none, posts⟩) (ha : a.script? = some s) :
      Timeline config ⟨e, some s, posts⟩
  | look {e : Engine} {f : Engine → Engine} {k : Engine → Script Unit} {posts : List Post}
      (h : Timeline config ⟨e, some (.look f k), posts⟩) : Timeline config ⟨f e, some (k e), posts⟩
  /-- A channel accepts what is sent to it. -/
  | send {e : Engine} {i : Nat} {m : Message} {k : Script Unit} {posts : List Post}
      {b : Switchboard} (h : Timeline config ⟨e, some (.send i m k), posts⟩)
      (hsent : e.board.sendTo i m = (b, .ok ())) :
      Timeline config ⟨{ e with board := b }, some k, posts ++ [⟨i, m, e.viewer⟩]⟩
  /-- The operation is over. -/
  | finish {e : Engine} {posts : List Post} (h : Timeline config ⟨e, some (.done ()), posts⟩) :
      Timeline config ⟨e, none, posts⟩
  /-- The operation is refused. -/
  | refuse {e : Engine} {failure : Failure} {posts : List Post}
      (h : Timeline config ⟨e, some (.fail failure), posts⟩) (hwhole : ¬Broken failure) :
      Timeline config ⟨e, none, posts⟩
  /-- A worker takes a turn, whether or not an operation is under way. -/
  | turn {e : Engine} {rest : Option (Script Unit)} {posts : List Post}
      (h : Timeline config ⟨e, rest, posts⟩) (turn : Turn) (i : Nat) :
      Timeline config ⟨{ e with board := e.board.advance i turn.run }, rest, posts⟩

variable {config : Config} {e : Engine} {posts : List Post}

/-- An operation can be run without interruption, if it does not break. -/
theorem Timeline.run {s : Script Unit} (h : Timeline config ⟨e, some s, posts⟩)
    (hwhole : ∀ failure, (s.run e).1 = .error failure → ¬Broken failure) :
    ∃ posts', Timeline config ⟨(s.run e).2, none, posts'⟩ := by
  induction s generalizing e posts with
  | done a => exact ⟨posts, h.finish⟩
  | fail failure => exact ⟨posts, h.refuse (hwhole failure rfl)⟩
  | look f k ih => exact ih e h.look hwhole
  | send i m k ih =>
    simp only [Script.run] at hwhole ⊢
    cases hsent : e.board.sendTo i m with
    | mk b result =>
      cases result with
      | ok _ =>
        simp only [hsent] at hwhole
        exact ih (h.send hsent) hwhole
      | error cause =>
        simp only [hsent] at hwhole
        exact absurd trivial (hwhole _ rfl)

/-- **A step in which nothing breaks leads from a moment between operations to another one.** -/
theorem Timeline.step (h : Timeline config ⟨e, none, posts⟩) {a : Action}
    (hsmooth : Smooth (e.step a)) : ∃ posts', Timeline config ⟨(e.step a).1, none, posts'⟩ := by
  cases hs : a.script? with
  | some s =>
    have hrun := Action.run_script hs e
    have hlater := (h.begin hs).run fun failure hfailure =>
      hsmooth.operation failure (by rw [← hfailure, hrun])
    rw [hrun] at hlater
    exact hlater
  | none =>
    cases a with
    | receive i => exact ⟨posts, h.turn .receive i⟩
    | process i => exact ⟨posts, h.turn .process i⟩
    | deliver i => exact ⟨posts, h.turn .deliver i⟩
    | _ => cases hs

/-- A run goes on through any list of actions in which nothing breaks. -/
theorem Timeline.after (h : Timeline config ⟨e, none, posts⟩) {actions : List Action}
    (hsmooth : e.AllSmooth actions) :
    ∃ posts', Timeline config ⟨e.after actions, none, posts'⟩ := by
  induction actions generalizing e posts with
  | nil => exact ⟨posts, h⟩
  | cons a rest ih =>
    obtain ⟨hfirst, hrest⟩ := hsmooth
    obtain ⟨posts', hlater⟩ := h.step hfirst
    exact ih hlater hrest

/-! ## 2. What is left of an operation -/

namespace Script

variable {α β : Type} {audience : List Nat} {post post' : α → ChunkPos → List Nat → Prop}
  {s : Script α} {viewer : ChunkPos} {late : List Nat}

/-- What a script does, begun when the viewer is somewhere and some of the audience have not been
told.  It leaves the channels to the workers.  When it moves the viewer, all of the audience are
late.  It sends nothing but requests, to those who are not late, and the present viewer.  It is not
refused while anybody is late, and ends as described. -/
def Heeds (audience : List Nat) (post : α → ChunkPos → List Nat → Prop) :
    Script α → ChunkPos → List Nat → Prop
  | done a, viewer, late => post a viewer late
  | fail failure, _, late => ¬Broken failure → late = []
  | look f k, viewer, late => ∀ e : Engine,
    e.viewer = viewer → e.board.subscribers .viewerMoved = audience →
      (f e).board.channels = e.board.channels ∧
        (k e).Heeds audience post (f e).viewer (if (f e).viewer = viewer then late else audience)
  | send i m k, viewer, late =>
    m.topic.isRequest = true ∧ i ∉ late ∧ k.Heeds audience post viewer late ∨
      m = .viewerMoved viewer ∧ k.Heeds audience post viewer (late.erase i)

theorem Heeds.mono (h : s.Heeds audience post viewer late)
    (himp : ∀ a viewer late, post a viewer late → post' a viewer late) :
    s.Heeds audience post' viewer late := by
  induction s generalizing viewer late with
  | done a => exact himp a viewer late h
  | fail failure => exact h
  | look f k ih =>
    intro e hviewer haudience
    obtain ⟨hchannels, hrest⟩ := h e hviewer haudience
    exact ⟨hchannels, ih e hrest⟩
  | send i m k ih =>
    rcases h with ⟨hrequest, hi, hrest⟩ | ⟨hm, hrest⟩
    · exact .inl ⟨hrequest, hi, ih hrest⟩
    · exact .inr ⟨hm, ih hrest⟩

theorem Heeds.bind {k : α → Script β} {post : β → ChunkPos → List Nat → Prop}
    (h : s.Heeds audience (fun a viewer late => (k a).Heeds audience post viewer late) viewer late) :
    (s >>= k).Heeds audience post viewer late := by
  show (s.bind k).Heeds audience post viewer late
  induction s generalizing viewer late with
  | done a => exact h
  | fail failure => exact h
  | look f k' ih =>
    intro e hviewer haudience
    obtain ⟨hchannels, hrest⟩ := h e hviewer haudience
    exact ⟨hchannels, ih e hrest⟩
  | send i m k' ih =>
    rcases h with ⟨hrequest, hi, hrest⟩ | ⟨hm, hrest⟩
    · exact .inl ⟨hrequest, hi, ih hrest⟩
    · exact .inr ⟨hm, ih hrest⟩

/-- Telling everybody who is late where the viewer is. -/
theorem heeds_sendAll (viewer : ChunkPos) (late : List Nat) :
    (sendAll (.viewerMoved viewer) late).Heeds audience
      (fun _ viewer' late' => viewer' = viewer ∧ late' = []) viewer late := by
  induction late with
  | nil => exact ⟨rfl, rfl⟩
  | cons i rest ih =>
    refine .inr ⟨rfl, ?_⟩
    rw [List.erase_cons_head]
    exact ih

/-- The script leaves the viewer alone and sends nothing but requests. -/
def Calm (s : Script α) : Prop := ∀ audience viewer,
  s.Heeds audience (fun _ viewer' late => viewer' = viewer ∧ late = []) viewer []

theorem Calm.pure (a : α) : (Pure.pure a : Script α).Calm := fun _ _ => ⟨rfl, rfl⟩

theorem Calm.fail (failure : Failure) : (Script.fail failure : Script α).Calm :=
  fun _ _ _ => rfl

theorem Calm.look {f : Engine → Engine} {k : Engine → Script α}
    (hviewer : ∀ e, (f e).viewer = e.viewer)
    (hchannels : ∀ e, (f e).board.channels = e.board.channels) (hk : ∀ e, (k e).Calm) :
    (Script.look f k).Calm := by
  intro audience viewer e he haudience
  refine ⟨hchannels e, ?_⟩
  rw [hviewer e, he, if_pos rfl]
  exact hk e audience viewer

theorem Calm.read : read.Calm := .look (fun _ => rfl) (fun _ => rfl) .pure

theorem Calm.change {f : Engine → Engine} (hviewer : ∀ e, (f e).viewer = e.viewer)
    (hchannels : ∀ e, (f e).board.channels = e.board.channels) : (change f).Calm :=
  .look hviewer hchannels fun _ => .pure ()

theorem Calm.bind {k : α → Script β} (hs : s.Calm) (hk : ∀ a, (k a).Calm) : (s >>= k).Calm := by
  intro audience viewer
  refine Heeds.bind ((hs audience viewer).mono ?_)
  rintro a _ _ ⟨rfl, rfl⟩
  exact hk a audience _

theorem Calm.ite {c : Prop} [Decidable c] {s s' : Script α} (hs : s.Calm) (hs' : s'.Calm) :
    (if c then s else s').Calm := by
  split
  · exact hs
  · exact hs'

theorem Calm.orAbort (x : Except Fault α) : (orAbort x).Calm := by
  cases x with
  | ok a => exact .pure a
  | error f => exact .fail _

theorem Calm.sendAll {m : Message} (hm : m.topic.isRequest = true) (places : List Nat) :
    (sendAll m places).Calm := by
  induction places with
  | nil => exact .pure ()
  | cons i rest ih => exact fun audience viewer => .inl ⟨hm, List.not_mem_nil, ih audience viewer⟩

theorem Calm.publish {m : Message} (hm : m.topic.isRequest = true) : (publish m).Calm := by
  unfold Script.publish
  rw [(Switchboard.class_of_isRequest hm).1]
  exact .look (fun _ => rfl) (fun _ => rfl) fun e => .ite (.fail _) (.sendAll hm _)

theorem Calm.forEach {f : α → Script Unit} (h : ∀ a, (f a).Calm) (l : List α) :
    (forEach f l).Calm := by
  induction l with
  | nil => exact .pure ()
  | cons a rest ih => exact .bind (h a) fun _ => ih

theorem Calm.remesh (urgent : Bool) (c : ChunkPos) : (remesh urgent c).Calm := by
  refine .bind .read fun e => .bind (.orAbort _) fun found => ?_
  cases found with
  | some snapshot => exact .publish rfl
  | none => exact .pure ()

theorem Calm.requestMissing (cs : List ChunkPos) : (requestMissing cs).Calm := by
  induction cs with
  | nil => exact .pure 0
  | cons c rest ih =>
    exact .bind .read fun e => .ite ih <| .bind (.publish rfl) fun _ =>
      .bind (.change (fun _ => rfl) fun _ => rfl) fun _ => .bind ih fun n => .pure (n + 1)

theorem Calm.requestInRange : requestInRange.Calm :=
  .bind .read fun _ => .bind (.orAbort _) fun wanted => .requestMissing wanted

theorem Calm.collectBorder (cs : List ChunkPos) (border : Std.TreeSet ChunkPos) :
    (collectBorder cs border).Calm := by
  induction cs generalizing border with
  | nil => exact .pure border
  | cons c rest ih =>
    exact .bind (.change (fun _ => rfl) fun _ => rfl) fun _ => .bind .read fun e =>
      .bind (.orAbort _) fun neighbors => ih _

theorem Calm.followViewer (viewer : ChunkPos) : (followViewer viewer).Calm :=
  .look (fun _ => rfl) (fun _ => rfl) fun _ => .bind (.collectBorder _ _) fun _ =>
    .bind (.forEach (.remesh false) _) fun _ => .bind (.change (fun _ => rfl) fun _ => rfl) fun _ =>
      .bind .requestInRange fun _ => .pure ()

theorem Calm.edit (p : Point) (block : Block) : (edit p block).Calm := by
  refine .look (fun _ => rfl) (fun _ => rfl) fun e => ?_
  cases (e.world.edit p block).2 with
  | error failure => exact .fail failure
  | ok touched => exact .bind (.forEach (.remesh true) _) fun _ => .pure touched

theorem Calm.acceptChunk (chunk : Chunk) : (acceptChunk chunk).Calm :=
  .bind (.change (fun _ => rfl) fun _ => rfl) fun _ => .bind .read fun _ => .ite (.pure ()) <|
    .bind (.change (fun _ => rfl) fun _ => rfl) fun _ => .bind (.remesh _ _) fun _ =>
      .bind .read fun _ => .bind (.orAbort _) fun neighbors => .forEach (.remesh false) neighbors

theorem Calm.acceptMesh (mesh : Mesh) : (acceptMesh mesh).Calm := by
  refine .change (fun e => ?_) fun e => ?_
  all_goals split <;> rfl

theorem Calm.accept (m : Message) : (accept m).Calm := by
  cases m with
  | chunkResponse chunk => exact .acceptChunk chunk
  | meshResponse mesh => exact .acceptMesh mesh
  | _ => exact .pure ()

theorem Calm.handleNext : handleNext.Calm := by
  refine .look (fun _ => rfl) (fun e => ?_) fun e => ?_
  · dsimp only
    unfold Switchboard.takeResponse
    split <;> rfl
  · cases e.board.takeResponse.1 with
    | none => exact .pure false
    | some m => exact .bind (.accept m) fun _ => .pure true

/-- The viewer is told to the whole audience. -/
theorem heeds_publish (viewer : ChunkPos) :
    (publish (.viewerMoved viewer)).Heeds audience
      (fun _ viewer' late' => viewer' = viewer ∧ late' = []) viewer audience := by
  intro e hviewer haudience
  refine ⟨rfl, ?_⟩
  have hplaces : e.board.places (.viewerMoved viewer) = audience := haudience
  rw [ite_self]
  show (sendAll _ (e.board.places (.viewerMoved viewer))).Heeds audience _ e.viewer audience
  rw [hplaces, hviewer]
  exact heeds_sendAll viewer audience

/-- **A move of the viewer tells everybody before it sends anything else.** -/
theorem heeds_moveViewer (target : ChunkPos) :
    (moveViewer target).Heeds audience (fun _ _ late => late = []) viewer [] := by
  refine Heeds.bind fun e hviewer _ => ⟨rfl, ?_⟩
  show (if target = e.viewer then _ else _ : Script Unit).Heeds audience _ e.viewer
    (if e.viewer = viewer then [] else audience)
  rw [if_pos hviewer]
  by_cases hmoved : target = e.viewer
  · rw [if_pos hmoved]
    rfl
  · rw [if_neg hmoved]
    refine Heeds.bind fun e' hviewer' _ => ⟨rfl, ?_⟩
    show (publish (.viewerMoved target) >>= fun _ => followViewer target).Heeds audience _ target
      (if target = e.viewer then [] else audience)
    rw [if_neg hmoved]
    refine Heeds.bind ((heeds_publish target).mono ?_)
    rintro _ _ _ ⟨rfl, rfl⟩
    exact (Calm.followViewer _ audience _).mono fun _ _ _ hlate => hlate.2

/-- A script without its result does the same. -/
theorem Heeds.discard (h : s.Heeds audience (fun _ _ late => late = []) viewer late) :
    s.discard.Heeds audience (fun _ _ late => late = []) viewer late :=
  Heeds.bind (h.mono fun _ _ _ hlate => hlate)

theorem Calm.discard (h : s.Calm) :
    s.discard.Heeds audience (fun _ _ late => late = []) viewer [] :=
  Heeds.discard ((h audience viewer).mono fun _ _ _ hlate => hlate.2)

end Script

/-- **Every operation heeds the workers**, and nobody is late in the end. -/
theorem Action.heeds_script {a : Action} {s : Script Unit} (h : a.script? = some s)
    (audience : List Nat) (viewer : ChunkPos) :
    s.Heeds audience (fun _ _ late => late = []) viewer [] := by
  cases a with
  | load =>
    cases h
    exact Script.Calm.requestInRange.discard
  | moveViewer target =>
    cases h
    exact (Script.heeds_moveViewer target).discard
  | edit p block =>
    cases h
    exact (Script.Calm.edit p block).discard
  | handleNext =>
    cases h
    exact Script.Calm.handleNext.discard
  | _ => cases h

/-! ## 3. What the workers have been sent -/

/-- What was sent to a place. -/
def postsTo (posts : List Post) (i : Nat) : List Post := posts.filter (·.place == i)

/-- Where the viewer is, who started at a given position, after some messages. -/
def heard (start : ChunkPos) (posts : List Post) : ChunkPos :=
  (posts.map Post.message).foldl Message.viewerAfter start

/-- Every request was sent under the viewer that the messages ahead of it lead to. -/
def Punctual : ChunkPos → List Post → Prop
  | _, [] => True
  | viewer, p :: rest =>
    (p.message.topic.isRequest = true → p.viewer = viewer) ∧
      Punctual (p.message.viewerAfter viewer) rest

theorem heard_append (start : ChunkPos) (posts posts' : List Post) :
    heard start (posts ++ posts') = heard (heard start posts) posts' := by
  unfold heard
  rw [List.map_append, List.foldl_append]

theorem punctual_append {viewer : ChunkPos} {posts' : List Post} :
    Punctual viewer (posts ++ posts') ↔
      Punctual viewer posts ∧ Punctual (heard viewer posts) posts' := by
  induction posts generalizing viewer with
  | nil => simp [Punctual, heard]
  | cons p rest ih => simp [Punctual, ih, and_assoc, heard]

/-- What an operation that is under way, or none, will have done in the end: nobody is late. -/
def Heeded (audience : List Nat) (viewer : ChunkPos) (late : List Nat) :
    Option (Script Unit) → Prop
  | none => late = []
  | some s => s.Heeds audience (fun _ _ late => late = []) viewer late

/-- A worker is in tune with what it has been sent: this is what it has read and what waits in its
inbox, and its viewer is where the part that it has read has put it. -/
def Tuned (start : ChunkPos) (posts : List Post) (ch : Channel) : Prop :=
  ∀ a, ch.subscriber = .worker a → a.worker.queue.Sound ∧
    ∃ read waiting, posts = read ++ waiting ∧ waiting.map Post.message = ch.inbox ∧
      a.worker.queue.viewer = heard start read

theorem Tuned.send {start : ChunkPos} {ch : Channel} (h : Tuned start posts ch) (p : Post) :
    Tuned start (posts ++ [p])
      { ch with inbox := ch.inbox ++ [p.message], sent := ch.sent + 1 } := by
  intro a ha
  obtain ⟨hsound, read, waiting, hposts, hinbox, hviewer⟩ := h a ha
  refine ⟨hsound, read, waiting ++ [p], ?_, ?_, hviewer⟩
  · rw [hposts, List.append_assoc]
  · rw [List.map_append, hinbox]
    rfl

theorem Tuned.goes {start : ChunkPos} {ch ch' : Channel} {reads : List Message}
    (h : Tuned start posts ch) (hgoes : ch.Goes reads ch') : Tuned start posts ch' := by
  intro a' ha'
  obtain ⟨a, ha, hbecomes⟩ := hgoes.worker a' ha'
  obtain ⟨hsound, read, waiting, hposts, hinbox, hviewer⟩ := h a ha
  rw [hgoes.inbox] at hinbox
  obtain ⟨first, later, rfl, hfirst, hlater⟩ := List.map_eq_append_iff.mp hinbox
  refine ⟨hbecomes.sound hsound, read ++ first, later, ?_, hlater, ?_⟩
  · rw [hposts, List.append_assoc]
  · rw [hbecomes.viewer, heard_append, ← hviewer, ← hfirst]
    rfl

/-- A moment at which every worker is in tune with what it has been sent, and all but those who are
late have been sent the present viewer. -/
structure Attuned (config : Config) (t : Moment) : Prop where
  hears : ∀ (i : Nat) (ch : Channel), t.engine.board.channels[i]? = some ch →
    ch.subscribes .viewerMoved = true
  tuned : ∀ (i : Nat) (ch : Channel), t.engine.board.channels[i]? = some ch →
    Tuned config.viewer (postsTo t.posts i) ch
  punctual : ∀ i, Punctual config.viewer (postsTo t.posts i)
  told : ∃ late, Heeded (t.engine.board.subscribers .viewerMoved) t.engine.viewer late t.rest ∧
    ∀ (i : Nat) (ch : Channel), t.engine.board.channels[i]? = some ch → i ∉ late →
      heard config.viewer (postsTo t.posts i) = t.engine.viewer

namespace Attuned

variable {rest : Option (Script Unit)}

/-- At the start nothing has been sent, and all go by the viewer of the configuration. -/
theorem start (h : Engine.start config = .ok e) : Attuned config ⟨e, none, []⟩ := by
  unfold Engine.start at h
  split at h
  · cases h
  · split at h
    · cases h
    · next b hcrew =>
      cases h
      have hidle : ∀ (i : Nat) (ch : Channel), b.channels[i]? = some ch →
          ∃ name job, ch = Channel.idle name job (scheduling config) := by
        intro i ch hi
        obtain ⟨name, job, -, hch⟩ := eq_idle_of_mem_crew hcrew (List.mem_of_getElem? hi)
        exact ⟨name, job, hch⟩
      constructor
      case hears =>
        intro i ch hi
        obtain ⟨name, job, rfl⟩ := hidle i ch hi
        simp [Channel.subscribes, Channel.idle, Switchboard.workerTopics]
      case tuned =>
        intro i ch hi a ha
        obtain ⟨name, job, rfl⟩ := hidle i ch hi
        cases ha
        exact ⟨WorkQueue.sound_empty _ _, [], [], rfl, rfl, rfl⟩
      case punctual =>
        intro i
        exact trivial
      case told => exact ⟨[], rfl, fun _ _ _ _ => rfl⟩

theorem begin {a : Action} {s : Script Unit} (h : Attuned config ⟨e, none, posts⟩)
    (ha : a.script? = some s) : Attuned config ⟨e, some s, posts⟩ := by
  obtain ⟨late, hlate, htold⟩ := h.told
  cases hlate
  exact ⟨h.hears, h.tuned, h.punctual, [], Action.heeds_script ha _ _, htold⟩

/-- If the viewer moves, everybody is late. -/
theorem look {f : Engine → Engine} {k : Engine → Script Unit}
    (h : Attuned config ⟨e, some (.look f k), posts⟩) : Attuned config ⟨f e, some (k e), posts⟩ := by
  obtain ⟨late, hlate, htold⟩ := h.told
  obtain ⟨hchannels, hrest⟩ := hlate e rfl rfl
  have haudience : (f e).board.subscribers .viewerMoved = e.board.subscribers .viewerMoved :=
    Switchboard.subscribers_congr (congrArg _ hchannels) _
  rw [← haudience] at hrest
  constructor
  case hears =>
    intro i ch hi
    exact h.hears i ch (hchannels ▸ hi)
  case tuned =>
    intro i ch hi
    exact h.tuned i ch (hchannels ▸ hi)
  case punctual => exact h.punctual
  case told =>
    refine ⟨_, hrest, fun i ch hi hin => ?_⟩
    dsimp only at hi
    rw [hchannels] at hi
    by_cases hviewer : (f e).viewer = e.viewer
    · rw [if_pos hviewer] at hin
      exact (htold i ch hi hin).trans hviewer.symm
    · rw [if_neg hviewer, haudience] at hin
      exact absurd (Switchboard.mem_subscribers.mpr ⟨ch, hi, h.hears i ch hi⟩) hin

/-- What is sent goes behind all that was sent before: a request under the viewer that everybody who
is not late has been sent last, or this viewer itself. -/
theorem send {i : Nat} {m : Message} {k : Script Unit} {b : Switchboard}
    (h : Attuned config ⟨e, some (.send i m k), posts⟩)
    (hsent : e.board.sendTo i m = (b, .ok ())) :
    Attuned config ⟨{ e with board := b }, some k, posts ++ [⟨i, m, e.viewer⟩]⟩ := by
  obtain ⟨ch, hi, -, rfl⟩ := Switchboard.sendTo_eq_ok hsent
  obtain ⟨late, hlate, htold⟩ := h.told
  have hmine : postsTo (posts ++ [⟨i, m, e.viewer⟩]) i = postsTo posts i ++ [⟨i, m, e.viewer⟩] := by
    simp [postsTo]
  have hothers : ∀ j, j ≠ i → postsTo (posts ++ [⟨i, m, e.viewer⟩]) j = postsTo posts j := by
    intro j hji
    simp [postsTo, Ne.symm hji]
  have haudience : (e.board.swap i { ch with inbox := ch.inbox ++ [m], sent := ch.sent + 1 }
      []).subscribers .viewerMoved = e.board.subscribers .viewerMoved :=
    Switchboard.subscribers_congr (Switchboard.topics_swap hi (by rfl) []) .viewerMoved
  -- a request goes to someone who is not late, and a move makes one more who is not
  have hcases : (m.topic.isRequest = true → heard config.viewer (postsTo posts i) = e.viewer) ∧
      ∃ late', Heeded (e.board.subscribers .viewerMoved) e.viewer late' (some k) ∧
        (i ∉ late' → heard config.viewer (postsTo posts i ++ [⟨i, m, e.viewer⟩]) = e.viewer) ∧
        ∀ j, j ≠ i → j ∉ late' → j ∉ late := by
    rw [heard_append]
    rcases hlate with ⟨hrequest, hin, hrest⟩ | ⟨hm, hrest⟩
    · have hheard := htold i ch hi hin
      refine ⟨fun _ => hheard, late, hrest, fun _ => ?_, fun _ _ => id⟩
      rw [hheard]
      cases m <;> first | rfl | cases hrequest
    · have hmove : m = .viewerMoved e.viewer := hm
      subst hmove
      refine ⟨nofun, late.erase i, hrest, fun _ => rfl, fun j hji hj hmem => hj ?_⟩
      exact (List.mem_erase_of_ne hji).mpr hmem
  obtain ⟨hrequest, late', hrest, hlast, hsame⟩ := hcases
  constructor
  case hears =>
    intro j x hj
    rcases Switchboard.getElem?_swap hi hj with ⟨rfl, rfl⟩ | ⟨-, hj'⟩
    · exact h.hears j ch hi
    · exact h.hears j x hj'
  case tuned =>
    intro j x hj
    rcases Switchboard.getElem?_swap hi hj with ⟨rfl, rfl⟩ | ⟨hji, hj'⟩
    · rw [hmine]
      exact (h.tuned j ch hi).send ⟨j, m, e.viewer⟩
    · rw [hothers j hji]
      exact h.tuned j x hj'
  case punctual =>
    intro j
    by_cases hji : j = i
    · subst hji
      rw [hmine, punctual_append]
      exact ⟨h.punctual j, fun hm => (hrequest hm).symm, trivial⟩
    · rw [hothers j hji]
      exact h.punctual j
  case told =>
    refine ⟨late', haudience ▸ hrest, fun j x hj hin => ?_⟩
    rcases Switchboard.getElem?_swap hi hj with ⟨rfl, rfl⟩ | ⟨hji, hj'⟩
    · rw [hmine]
      exact hlast hin
    · rw [hothers j hji]
      exact htold j x hj' (hsame j hji hin)

/-- What a worker reads has been sent to it before. -/
theorem turn (h : Attuned config ⟨e, rest, posts⟩) (turn : Turn) (i : Nat) :
    Attuned config ⟨{ e with board := e.board.advance i turn.run }, rest, posts⟩ := by
  cases hi : e.board.channels[i]? with
  | none =>
    rw [Switchboard.advance_of_none hi]
    exact h
  | some ch =>
    have hgoes := turn.goes ch
    obtain ⟨late, hlate, htold⟩ := h.told
    rw [Switchboard.advance_eq hi]
    have haudience := Switchboard.subscribers_congr
      (Switchboard.topics_swap hi hgoes.topics (turn.run ch).2) .viewerMoved
    constructor
    case hears =>
      intro j x hj
      rcases Switchboard.getElem?_swap hi hj with ⟨rfl, rfl⟩ | ⟨-, hj'⟩
      · unfold Channel.subscribes
        rw [hgoes.topics]
        exact h.hears j ch hi
      · exact h.hears j x hj'
    case tuned =>
      intro j x hj
      rcases Switchboard.getElem?_swap hi hj with ⟨rfl, rfl⟩ | ⟨-, hj'⟩
      · exact (h.tuned j ch hi).goes hgoes
      · exact h.tuned j x hj'
    case punctual => exact h.punctual
    case told =>
      refine ⟨late, haudience ▸ hlate, fun j x hj hin => ?_⟩
      rcases Switchboard.getElem?_swap hi hj with ⟨rfl, rfl⟩ | ⟨-, hj'⟩
      · exact htold j ch hi hin
      · exact htold j x hj' hin

theorem finish (h : Attuned config ⟨e, some (.done ()), posts⟩) :
    Attuned config ⟨e, none, posts⟩ := ⟨h.hears, h.tuned, h.punctual, h.told⟩

theorem refuse {failure : Failure} (h : Attuned config ⟨e, some (.fail failure), posts⟩)
    (hwhole : ¬Broken failure) : Attuned config ⟨e, none, posts⟩ := by
  obtain ⟨late, hlate, htold⟩ := h.told
  exact ⟨h.hears, h.tuned, h.punctual, late, hlate hwhole, htold⟩

end Attuned

/-- **Every moment is attuned.** -/
theorem Timeline.attuned {t : Moment} (h : Timeline config t) : Attuned config t := by
  induction h with
  | start h => exact .start h
  | begin _ ha ih => exact ih.begin ha
  | look _ ih => exact ih.look
  | send _ hsent ih => exact ih.send hsent
  | finish _ ih => exact ih.finish
  | refuse _ hwhole ih => exact ih.refuse hwhole
  | turn _ turn i ih => exact ih.turn turn i

/-! ## 4. The viewer of the engine and those of the workers -/

/-- How the viewers of the workers agree with that of the engine. -/
structure Agrees (t : Moment) : Prop where
  /-- Between operations, the moves that wait for a worker put its viewer where that of the engine
  is. -/
  between : t.rest = none → ∀ (i : Nat) (ch : Channel) (a : ActiveWorker),
    t.engine.board.channels[i]? = some ch → ch.subscriber = .worker a →
      ((ch.inbox.filterMap Message.viewer?).foldl WorkQueue.retarget a.worker.queue).viewer =
        t.engine.viewer
  /-- At any moment, the messages that wait for a worker are the last ones that it was sent, and if
  the first of them is a request, the worker goes by the viewer that the engine had when it sent
  it. -/
  requested : ∀ (i : Nat) (ch : Channel) (a : ActiveWorker),
    t.engine.board.channels[i]? = some ch → ch.subscriber = .worker a →
      ∃ read waiting, postsTo t.posts i = read ++ waiting ∧
        waiting.map Post.message = ch.inbox ∧
          ∀ p later, waiting = p :: later → p.message.topic.isRequest = true →
            a.worker.queue.viewer = p.viewer
  /-- Between operations, once nothing waits for a worker, it has measured all distances to the
  viewer of the engine. -/
  measured : t.rest = none → ∀ (i : Nat) (ch : Channel) (a : ActiveWorker),
    t.engine.board.channels[i]? = some ch → ch.subscriber = .worker a → ch.inbox = [] →
      ∀ w ∈ a.worker.queue.heap.toList, w.priority = w.coords.squaredDistance t.engine.viewer

/-- **The workers go by the viewer of the engine**, as far as messages on their way let them. -/
theorem Timeline.agrees {t : Moment} (h : Timeline config t) : Agrees t := by
  obtain ⟨hhears, htuned, hpunctual, late, hlate, htold⟩ := h.attuned
  have hbetween : t.rest = none → ∀ (i : Nat) (ch : Channel) (a : ActiveWorker),
      t.engine.board.channels[i]? = some ch → ch.subscriber = .worker a →
        ch.inbox.foldl Message.viewerAfter a.worker.queue.viewer = t.engine.viewer := by
    intro hrest i ch a hi ha
    obtain ⟨-, read, waiting, hposts, hinbox, hviewer⟩ := htuned i ch hi a ha
    rw [hrest] at hlate
    cases hlate
    rw [← htold i ch hi List.not_mem_nil, hposts, heard_append, hviewer, ← hinbox]
    rfl
  constructor
  case between =>
    intro hrest i ch a hi ha
    rw [WorkQueue.viewer_foldl_retarget]
    exact hbetween hrest i ch a hi ha
  case requested =>
    intro i ch a hi ha
    obtain ⟨-, read, waiting, hposts, hinbox, hviewer⟩ := htuned i ch hi a ha
    refine ⟨read, waiting, hposts, hinbox, ?_⟩
    rintro p later rfl hrequest
    have hpunctual := hpunctual i
    rw [hposts, punctual_append] at hpunctual
    rw [hviewer]
    exact (hpunctual.2.1 hrequest).symm
  case measured =>
    intro hrest i ch a hi ha hempty w hw
    have hviewer := hbetween hrest i ch a hi ha
    rw [hempty] at hviewer
    rw [← hviewer]
    exact (htuned i ch hi a ha).1.timely.priority w hw

/-- The viewer of the meadow steps over to the next chunk while a mesh is asked for.  The worker that
generates chunks has read that the viewer has moved, and the one that meshes has not. -/
def meadowStep : List Action :=
  [.load, .receive 0, .process 0, .deliver 0, .handleNext, .moveViewer ⟨1, 0, 0⟩, .receive 0,
    .receive 0]

theorem meadow_agrees :
    (∃ posts, Timeline meadow ⟨meadowStart.after meadowStep, none, posts⟩ ∧
      Agrees ⟨meadowStart.after meadowStep, none, posts⟩) ∧
    ∃ t, Timeline meadow t ∧ t.rest ≠ none ∧ t.posts.length = 1 ∧ Agrees t := by
  constructor
  · have hsmooth : meadowStart.AllSmooth meadowStep := by decide +kernel
    obtain ⟨posts, hmoment⟩ := (Timeline.start start_meadow).after hsmooth
    exact ⟨posts, hmoment, hmoment.agrees⟩
  · -- the first worker hears of a move, and reads the message before the second one is told
    have hbegun := (Timeline.start start_meadow).begin (a := .moveViewer ⟨1, 0, 0⟩) rfl
    have hmoved := Timeline.look (k := fun _ => _) hbegun.look
    have hsent := Timeline.send (i := 0) hmoved.look rfl
    have hread := hsent.turn .receive 0
    exact ⟨_, hread, nofun, rfl, hread.agrees⟩

end Engine

end Blockworld
