/-
# Workers

A worker runs one service.  It keeps the requests it has received in a work queue of its own and
repeats three steps:

1. if nothing is queued, it waits for a message;
2. it handles every message that has arrived, so that the queue reflects the latest viewer before
   work is chosen;
3. it processes one queued request and sends the response.

It ends when it reads an exit message or finds that its inbox is empty and nobody is left to write
to it.  What is still queued then is processed or discarded, by how the worker is set to end.

`Worker.run` is the whole life of a worker against a schedule of arrivals.  The schedule is a list
of batches: the first is there at the start, each later one arrives at the next point where the
worker waits or processes a request, and behind the last one the sender hangs up.  Empty batches put
off what comes behind them, so that every timing of arrivals and of the end has a schedule.
-/
import Blockworld.Queue
import Blockworld.Service

namespace Blockworld

/-! ## 1. State -/

/-- What happens to queued requests when a worker ends. -/
inductive Ending where
  /-- They are discarded. -/
  | immediate
  /-- They are processed first. -/
  | drain
  deriving DecidableEq, Repr

/-- The name used in configuration. -/
def Ending.name : Ending → String
  | immediate => "immediate"
  | drain => "drain"

/-- What a worker is doing. -/
inductive WorkerPhase where
  | idle
  | busy
  | ended
  deriving DecidableEq, Repr

/-- The printed name of a phase. -/
def WorkerPhase.name : WorkerPhase → String
  | idle => "Idle"
  | busy => "Processing"
  | ended => "Terminated"

/-- How a worker schedules its requests. -/
structure Scheduling where
  /-- The position distances are measured to at first. -/
  viewer : ChunkPos
  policy : OnDuplicate
  ending : Ending
  deriving DecidableEq, Repr

/-- The counters of a worker. -/
structure Tally where
  name : String
  /-- Requests processed to the end. -/
  processed : Nat
  /-- Requests that found their position already queued. -/
  deduplicated : Nat
  /-- Requests still queued at an immediate shutdown. -/
  discarded : Nat
  deriving DecidableEq, Repr

/-- A worker for requests with payload `ρ`. -/
structure Worker (ρ : Type) where
  queue : WorkQueue ρ
  ending : Ending
  phase : WorkerPhase
  tally : Tally

namespace Worker

variable {ρ : Type}

/-- A worker that has received nothing. -/
def start (name : String) (scheduling : Scheduling) : Worker ρ where
  queue := .empty scheduling.viewer scheduling.policy
  ending := scheduling.ending
  phase := .idle
  tally := ⟨name, 0, 0, 0⟩

/-! ## 2. Single steps -/

/-- Queues a submission; one that is not urgent and finds its position queued is counted. -/
def submit (w : Worker ρ) (s : Submission ρ) : Worker ρ :=
  if s.urgent then { w with queue := w.queue.promote s.coords s.request }
  else
    match w.queue.enqueue s.coords s.request with
    | (true, queue) => { w with queue := queue }
    | (false, queue) =>
      { w with
        queue := queue
        tally := { w.tally with deduplicated := w.tally.deduplicated + 1 } }

/-- Handles a message; `none` on an exit.  A message of a foreign topic is a fault, and so is one
that the service does not recognise as its own request. -/
def handle (service : Service ρ) (w : Worker ρ) (m : Message) : Except Fault (Option (Worker ρ)) :=
  match m with
  | .exit => .ok none
  | .viewerMoved viewer => .ok (some { w with queue := w.queue.retarget viewer })
  | m =>
    if m.topic = service.topic then
      match service.unpack m with
      | some s => .ok (some (w.submit s))
      | none => .error (.cannotUnpack w.tally.name m.text)
    else .error (.malformedMessage w.tally.name m.topic)

/-- A request that a worker has taken out of its queue, with the worker as it is meanwhile. -/
structure Taken (ρ : Type) where
  coords : ChunkPos
  request : ρ
  worker : Worker ρ

/-- Takes the next request out of the queue, if there is one. -/
def take (w : Worker ρ) : Except Fault (Option (Taken ρ)) :=
  match w.queue.dequeue with
  | .error f => .error f
  | .ok none => .ok none
  | .ok (some ((coords, request), queue)) =>
    .ok (some ⟨coords, request, { w with queue := queue, phase := .busy }⟩)

/-- The worker after a request has been processed and the response sent. -/
def finish (w : Worker ρ) : Worker ρ :=
  { w with phase := .idle, tally := { w.tally with processed := w.tally.processed + 1 } }

/-- The worker at its end, with the requests that were still queued counted as discarded. -/
def conclude (w : Worker ρ) : Worker ρ :=
  match w.ending with
  | .drain => { w with phase := .ended }
  | .immediate =>
    { w with phase := .ended, tally := { w.tally with discarded := w.queue.size } }

/-! ## 3. Runs -/

/-- What happens in a run. -/
inductive Event (ρ : Type) where
  /-- Messages arrived in the inbox. -/
  | arrived (batch : List Message)
  /-- A message was taken out of the inbox. -/
  | received (message : Message)
  /-- The work for a request was begun. -/
  | called (coords : ChunkPos) (request : ρ)
  /-- A response was sent. -/
  | sent (response : Message)
  /-- The worker began to end: it had read an exit, or had found its inbox empty and nobody left to
  write to it. -/
  | stopped

/-- A finished run: what happened, in order, the worker at the end, and the fault that ended it if
there was one. -/
structure Run (ρ : Type) where
  events : List (Event ρ)
  worker : Worker ρ
  fault : Option Fault

namespace Run

/-- A run in which nothing happened. -/
def halt (w : Worker ρ) : Run ρ := ⟨[], w, none⟩

/-- A run that ended in a fault before anything happened. -/
def abort (w : Worker ρ) (f : Fault) : Run ρ := ⟨[], w, some f⟩

/-- The run with an event in front. -/
def after (e : Event ρ) (r : Run ρ) : Run ρ := { r with events := e :: r.events }

/-- The responses sent, in order. -/
def responses (r : Run ρ) : List Message :=
  r.events.filterMap fun
    | .sent m => some m
    | _ => none

/-- The work begun, in order. -/
def calls (r : Run ρ) : List (ChunkPos × ρ) :=
  r.events.filterMap fun
    | .called coords request => some (coords, request)
    | _ => none

end Run

section Runs

variable {μ : Type} (service : StatefulService μ ρ)

/-- Computes and sends the response to a request, and goes on with the rest of the run. -/
def respond (memory : μ) (t : Taken ρ) (rest : μ → Worker ρ → Run ρ) : Run ρ :=
  match service.process memory t.coords t.request with
  | .error f => .abort t.worker f
  | .ok (response, memory) => .after (.sent response) (rest memory t.worker.finish)

/-- Processes queued requests until none is left, at most `fuel` of them. -/
def processAll : Nat → μ → Worker ρ → Run ρ
  | 0, _, w => .halt w
  | fuel + 1, memory, w =>
    match w.take with
    | .error f => .abort w f
    | .ok none => .halt w
    | .ok (some t) =>
      .after (.called t.coords t.request) (respond service memory t (processAll fuel))

/-- The end of a worker.  To drain, it processes as many requests as are queued. -/
def close (memory : μ) (w : Worker ρ) : Run ρ :=
  .after .stopped <|
    match w.ending with
    | .immediate => .halt w.conclude
    | .drain =>
      let r := processAll service w.queue.size memory w
      match r.fault with
      | some _ => r
      | none => { r with worker := r.worker.conclude }

/-- Handles the messages of an inbox one after the other.  An exit closes the worker and leaves the
messages behind it unread; behind the last message `rest` goes on. -/
def drain (memory : μ) (rest : Worker ρ → Run ρ) : List Message → Worker ρ → Run ρ
  | [], w => rest w
  | m :: inbox, w =>
    .after (.received m) <|
      match w.handle (service.given memory) m with
      | .error f => .abort w f
      | .ok none => close service memory w
      | .ok (some w) => drain memory rest inbox w

/-- The life of a worker that finds `inbox` and will receive the batches `upcoming`. -/
def serve : List (List Message) → List Message → μ → Worker ρ → Run ρ
  | [], inbox, memory, w => drain service memory (close service memory) inbox w
  | batch :: upcoming, inbox, memory, w =>
    drain service memory (fun w =>
      match w.take with
      | .error f => .abort w f
      | .ok none => .after (.arrived batch) (serve upcoming batch memory w)
      | .ok (some t) =>
        .after (.called t.coords t.request) <| .after (.arrived batch) <|
          respond service memory t (serve upcoming batch)) inbox w

/-- The life of a worker against a schedule of arrivals. -/
def run (memory : μ) (w : Worker ρ) (schedule : List (List Message)) : Run ρ :=
  match schedule with
  | [] => serve service [] [] memory w
  | inbox :: upcoming => .after (.arrived inbox) (serve service upcoming inbox memory w)

end Runs

end Worker

end Blockworld
