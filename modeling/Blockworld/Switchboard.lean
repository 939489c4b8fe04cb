/-
# The switchboard

The switchboard connects the main loop to its subscribers.  Every subscriber has a channel of its
own, in which messages wait in the order in which they were sent; all responses come together in
one inbox of the main loop.  A subscriber is either outside the library, or a worker that runs one
of the jobs.

Routing depends on the class of the topic alone:

* a request goes to one of the channels that subscribe to its topic, chosen by the fingerprint of
  its chunk, so that all requests of a topic about one chunk reach the same worker;
* an event goes to every channel that subscribes to it, in the order of the channels, up to the
  first one that has hung up;
* a response goes to the inbox.

A sender waits while a channel is full and does nothing meanwhile, so the capacity of channels does
not show in what is delivered, and channels accept any number of messages here.  It shows only when
a channel is opened: room for as many messages is set aside then, and a capacity with more room than
can be addressed is a fault.

Workers advance in single steps: receive one message, process one request, send the response.
Any interleaving of these steps with publishing is a possible run; `runWorkers` is the one that
carries every worker to rest.
-/
import Blockworld.Error
import Blockworld.Worker

namespace Blockworld

/-! ## 1. Active workers -/

/-- A worker at one of its steps. -/
structure ActiveWorker where
  job : Job
  worker : Worker job.Request
  /-- The response to the request in process, once it is computed. -/
  held : Option Message
  /-- The fault that stopped the worker. -/
  fault : Option Fault

namespace ActiveWorker

/-- A worker that has received nothing. -/
def start (job : Job) (name : String) (scheduling : Scheduling) : ActiveWorker :=
  ⟨job, Worker.start name scheduling, none, none⟩

/-- Whether the worker has neither ended nor been stopped. -/
def isRunning (a : ActiveWorker) : Bool :=
  a.fault.isNone && a.worker.phase != .ended

/-- Handles a message; on an exit, the whole rest of the worker's life, with the responses it sends
in it. -/
def receive (a : ActiveWorker) (m : Message) : ActiveWorker × List Message :=
  match a.worker.handle a.job.service m with
  | .error f => ({ a with fault := some f }, [])
  | .ok (some w) => ({ a with worker := w }, [])
  | .ok none =>
    let r := Worker.close a.job.service.stateful () a.worker
    ({ a with worker := r.worker, fault := r.fault }, r.responses)

/-- Takes the next queued request, if there is one, and computes the response. -/
def process (a : ActiveWorker) : ActiveWorker :=
  match a.worker.take with
  | .error f => { a with fault := some f }
  | .ok none => a
  | .ok (some t) =>
    match a.job.service.process t.coords t.request with
    | .error f => { a with worker := t.worker, fault := some f }
    | .ok response => { a with worker := t.worker, held := some response }

/-- Sends the response, if one is held. -/
def deliver (a : ActiveWorker) : ActiveWorker × List Message :=
  match a.held with
  | none => (a, [])
  | some response => ({ a with worker := a.worker.finish, held := none }, [response])

end ActiveWorker

/-! ## 2. Channels -/

/-- Who reads a channel. -/
inductive Subscriber where
  /-- Someone outside the library, who may have hung up. -/
  | outside (attached : Bool)
  | worker (active : ActiveWorker)

/-- Whether the reader is still there. -/
def Subscriber.isConnected : Subscriber → Bool
  | outside attached => attached
  | worker active => active.isRunning

/-- The way from the main loop to one subscriber. -/
structure Channel where
  name : String
  topics : List Topic
  /-- The messages that have not been read, oldest first. -/
  inbox : List Message
  /-- The number of messages ever accepted. -/
  sent : Nat
  subscriber : Subscriber

namespace Channel

/-- The number of bytes set aside for each message that a channel has room for. -/
def slotBytes : Nat := 88

/-- The largest number of bytes that can be set aside at once. -/
def addressableBytes : Nat := 0x7ffffffffffffff8

/-- A new channel with room for `capacity` messages. -/
def create (capacity : Nat) (name : String) (topics : List Topic) (subscriber : Subscriber) :
    Except Fault Channel :=
  if capacity * slotBytes ≤ addressableBytes then .ok ⟨name, topics, [], 0, subscriber⟩
  else .error .channelTooLarge

/-- Whether messages of a topic come this way. -/
def subscribes (c : Channel) (t : Topic) : Bool := c.topics.contains t

/-- Accepts a message, unless the subscriber has hung up. -/
def send (c : Channel) (m : Message) : Option Channel :=
  if c.subscriber.isConnected then some { c with inbox := c.inbox ++ [m], sent := c.sent + 1 }
  else none

/-- The worker receives the oldest message, unless it is in the middle of a request. -/
def receive (c : Channel) : Channel × List Message :=
  match c.subscriber, c.inbox with
  | .worker a, m :: rest =>
    if a.isRunning && a.held.isNone then
      let (a, out) := a.receive m
      ({ c with inbox := rest, subscriber := .worker a }, out)
    else (c, [])
  | _, _ => (c, [])

/-- The worker processes a queued request, unless it is in the middle of one. -/
def process (c : Channel) : Channel × List Message :=
  match c.subscriber with
  | .worker a =>
    if a.isRunning && a.held.isNone then ({ c with subscriber := .worker a.process }, [])
    else (c, [])
  | .outside _ => (c, [])

/-- The worker sends the response it holds. -/
def deliver (c : Channel) : Channel × List Message :=
  match c.subscriber with
  | .worker a =>
    let (a, out) := a.deliver
    ({ c with subscriber := .worker a }, out)
  | .outside _ => (c, [])

/-- Two steps one after the other. -/
def andThen (f g : Channel → Channel × List Message) (c : Channel) : Channel × List Message :=
  let (c, first) := f c
  let (c, second) := g c
  (c, first ++ second)

/-- A step taken a number of times. -/
def repeated (f : Channel → Channel × List Message) : Nat → Channel → Channel × List Message
  | 0, c => (c, [])
  | n + 1, c => andThen f (repeated f n) c

/-- The number of requests queued in the worker. -/
def queued (c : Channel) : Nat :=
  match c.subscriber with
  | .worker a => a.worker.queue.size
  | .outside _ => 0

/-- The worker receives every waiting message and then processes every queued request. -/
def runToRest (c : Channel) : Channel × List Message :=
  let (c, first) := andThen deliver (repeated receive c.inbox.length) c
  let (c, second) := repeated (andThen process deliver) c.queued c
  (c, first ++ second)

end Channel

/-! ## 3. Publishing -/

/-- The channels of all subscribers and the inbox of the main loop. -/
structure Switchboard where
  /-- The number of messages that each channel has room for. -/
  capacity : Nat
  channels : List Channel
  /-- The responses that have not been taken, oldest first. -/
  responses : List Message

namespace Switchboard

/-- No subscriber. -/
def empty (capacity : Nat) : Switchboard := ⟨capacity, [], []⟩

/-- The topics of a worker: the requests of its service and both events. -/
def workerTopics (job : Job) : List Topic := [job.service.topic, .viewerMoved, .exit]

/-- Adds a channel behind the others. -/
def attach (b : Switchboard) (c : Channel) : Switchboard :=
  { b with channels := b.channels ++ [c] }

/-- Adds a worker.  The channel is opened before the name of the worker is looked at. -/
def spawn (b : Switchboard) (name : String) (job : Job) (scheduling : Scheduling) :
    Except Fault Switchboard :=
  match Channel.create b.capacity name (workerTopics job) (.worker (.start job name scheduling)) with
  | .error f => .error f
  | .ok c => if name.toList.contains '\x00' then .error (.nulInName name) else .ok (b.attach c)

/-- Adds a subscriber outside the library. -/
def subscribe (b : Switchboard) (name : String) (topics : List Topic) :
    Except Fault Switchboard :=
  (Channel.create b.capacity name topics (.outside true)).map b.attach

/-- The places of the channels that subscribe to a topic. -/
def subscribers (b : Switchboard) (t : Topic) : List Nat :=
  (List.range b.channels.length).filter fun i => (b.channels[i]?.map (·.subscribes t)).getD false

/-- The place of the channel that a request is routed to. -/
def route? (b : Switchboard) (m : Message) : Option Nat :=
  let places := b.subscribers m.topic
  let key := (m.coords?.map ChunkPos.fingerprint).getD 0
  places[key.toNat % places.length]?

/-- Sends to the channel at a place. -/
def sendTo (b : Switchboard) (i : Nat) (m : Message) :
    Switchboard × Except DeliveryError Unit :=
  match b.channels[i]?.bind (·.send m) with
  | some c => ({ b with channels := b.channels.set i c }, .ok ())
  | none => (b, .error (.hungUp m.topic))

/-- Sends to the channels at several places, up to the first that has hung up. -/
def sendToAll (b : Switchboard) (m : Message) : List Nat → Switchboard × Except DeliveryError Unit
  | [] => (b, .ok ())
  | i :: rest =>
    match b.sendTo i m with
    | (b, .ok ()) => sendToAll b m rest
    | (b, .error e) => (b, .error e)

/-- Adds a message to the inbox of the main loop. -/
def respond (b : Switchboard) (m : Message) : Switchboard :=
  { b with responses := b.responses ++ [m] }

/-- Publishes a message by the class of its topic. -/
def publish (b : Switchboard) (m : Message) : Switchboard × Except DeliveryError Unit :=
  if m.topic.isResponse then (b.respond m, .ok ())
  else if m.topic.isEvent then b.sendToAll m (b.subscribers m.topic)
  else
    match b.route? m with
    | none => (b, .error (.unsubscribed m.topic))
    | some i => b.sendTo i m

/-- Takes the oldest response, if there is one. -/
def takeResponse (b : Switchboard) : Option Message × Switchboard :=
  match b.responses with
  | [] => (none, b)
  | m :: rest => (some m, { b with responses := rest })

/-! ## 4. Subscribers at work -/

/-- Lets the subscriber at a place take a step and collects the responses it sends. -/
def advance (b : Switchboard) (i : Nat) (step : Channel → Channel × List Message) : Switchboard :=
  match b.channels[i]? with
  | none => b
  | some c =>
    let (c, out) := step c
    { b with channels := b.channels.set i c, responses := b.responses ++ out }

/-- Every worker receives all that waits for it and processes all that is queued. -/
def runWorkers (b : Switchboard) : Switchboard :=
  (List.range b.channels.length).foldl (fun b i => b.advance i Channel.runToRest) b

/-- The subscriber at a place reads all that waits for it. -/
def takeWaiting (b : Switchboard) (i : Nat) : List Message × Switchboard :=
  match b.channels[i]? with
  | none => ([], b)
  | some c => (c.inbox, { b with channels := b.channels.set i { c with inbox := [] } })

/-- The subscriber at a place hangs up. -/
def hangUp (b : Switchboard) (i : Nat) : Switchboard :=
  match b.channels[i]? with
  | none => b
  | some c =>
    { b with channels := b.channels.set i { c with inbox := [], subscriber := .outside false } }

/-- The workers of all channels, in order. -/
def workers (b : Switchboard) : List (String × ActiveWorker) :=
  b.channels.filterMap fun c =>
    match c.subscriber with
    | .worker a => some (c.name, a)
    | .outside _ => none

/-! ## 5. Shutdown -/

/-- Sends an exit to every channel that takes one; who has hung up needs none. -/
def announceExit (b : Switchboard) : Switchboard :=
  (b.subscribers .exit).foldl (fun b i => (b.sendTo i .exit).1) b

/-- Ends every worker.  Answers with their counters, or with an error that names the first worker
stopped by a fault. -/
def shutdown (b : Switchboard) : Except Error (List Tally) :=
  let workers := b.announceExit.runWorkers.workers
  match workers.find? fun (_, a) => a.fault.isSome with
  | some (name, _) => .error (.worker s!"worker {name} panicked")
  | none => .ok (workers.map fun (_, a) => a.worker.tally)

end Switchboard

end Blockworld
