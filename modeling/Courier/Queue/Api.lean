import Courier.Queue.ReadLoop

/-! What a user of a queue can do with it.

Publishing and subscribing are done at once. Unsubscribing and closing wait until the loops
concerned have ended: they leave a pending call behind. -/
namespace Courier.Queue

open Broker (Transport)

def closedQueue : Error := ⟨.connectivity, "kafka message queue is closed"⟩

def emptyGroup : Error := ⟨.configuration, "consumer group id is empty"⟩

def unknownSubscription (id : SubscriptionId) : Error :=
  ⟨.configuration, "unknown subscription: " ++ id.render⟩

def unwritable (reason : String) : Error :=
  ⟨.serialization, "failed to marshal message to JSON: " ++ reason⟩

/-- A probe that fails in another way is a failure to connect all the same. -/
def probeError (e : Error) : Error :=
  match e.kind with
  | .connectivity => e
  | _ => ⟨.connectivity, "failed to connect to Kafka: " ++ e.message⟩

namespace World

variable {T α : Type} [Transport T]

/-- Opens a queue: the configuration is checked, the broker probed, the writer made, and the
first failure ends it. Answers the number of the queue. -/
def connect (w : World T α) (files : Files) (config : Broker.Config) :
    Except Error (Nat × Broker.Connection) × World T α :=
  match config.validate files with
  | .error e => (.error e, w)
  | .ok connection =>
    let (probed, broker) := Transport.probe w.broker
    match probed with
    | .error e => (.error (probeError e), { w with broker })
    | .ok () =>
      let (opened, broker) := Transport.openWriter broker
      match opened with
      | .error e => (.error e, { w with broker })
      | .ok writer =>
        let queue : MessageQueue T :=
          { isDebug := connection.isDebug, writer := some writer }
        let w := { w with broker, queues := w.queues ++ [queue] }
        (.ok (w.queues.length - 1, connection),
          w.log .info "Kafka message queue connected"
            [⟨"brokers", ",".intercalate connection.brokers⟩,
              ⟨"protocol", connection.protocol.name⟩])

def writer (w : World T α) (q : Nat) : Except Error (Transport.Writer T) :=
  match w.queues[q]?.bind (·.writer) with
  | some writer => .ok writer
  | none => .error closedQueue

/-- An empty message is refused before the queue is looked at. -/
def publish (w : World T α) (q : Nat) (topic : Topic) (payload : Payload) :
    Except Error Unit × World T α :=
  match payload.toRecord topic with
  | .error e => (.error e, w)
  | .ok record =>
    match w.writer q with
    | .error e => (.error e, w)
    | .ok writer =>
      let (r, broker) := Transport.write w.now writer record w.broker
      match r with
      | .ok () => (.ok (), ({ w with broker }.note (.published record true)).wake)
      | .error e => (.error e, { w with broker }.note (.published record false))

/-- Publishes the text of a value, if the value has one. -/
def publishJson (w : World T α) (q : Nat) (topic : Topic) (value : Except String Json) :
    Except Error Unit × World T α :=
  match value with
  | .error reason => (.error (unwritable reason), w)
  | .ok json => w.publish q topic (.text json.compact)

/-- Starts a read loop of its own for the subscription. Entries whose loops have ended are
forgotten on this occasion. -/
def subscribe (w : World T α) (q : Nat) (topic : Topic) (group label : String)
    (subscriber : Subscriber α) : Except Error SubscriptionId × World T α :=
  match w.writer q, w.queues[q]? with
  | .error e, _ => (.error e, w)
  | .ok _, none => (.error closedQueue, w)
  | .ok _, some queue =>
    if Text.blank group then (.error emptyGroup, w) else
    let (opened, broker) := Transport.openReader topic group w.broker
    let w := { w with broker }
    match opened with
    | .error e => (.error e, w)
    | .ok reader =>
      let id : SubscriptionId := ⟨queue.registry.next⟩
      let k := w.loops.length
      let running := queue.registry.entries.filter fun (_, k) => !w.loopFinished k
      let registry : Registry :=
        { next := queue.registry.next + 1, entries := running ++ [(id, k)] }
      let l : ReadLoop T α :=
        { label, queue := q, topic, group, isDebug := queue.isDebug, reader, subscriber }
      let w := { w with loops := w.loops ++ [l] }.setQueue q { queue with registry }
      (.ok id, w.log .info "Subscribed to topic"
        [⟨"subscription", id.render⟩, ⟨"topic", topic.name⟩, ⟨"group_id", group⟩])

def cancelLoop (w : World T α) (k : Nat) : World T α :=
  { w with loops := w.loops.modify k fun l => { l with cancelled := true } }

def cancelAll (w : World T α) (q : Nat) : World T α :=
  { w with loops := w.loops.map fun l => if l.queue = q then { l with cancelled := true } else l }

/-- The call is pending from now on; answers its number. -/
def await (w : World T α) (p : Pending) : Nat × World T α :=
  (w.pending.length, { w with pending := w.pending ++ [p] })

/-- Takes the subscription out of the registry and cancels its loop. -/
def unsubscribe (w : World T α) (q : Nat) (id : SubscriptionId) :
    Except Error Nat × World T α :=
  match w.queues[q]? with
  | none => (.error (unknownSubscription id), w)
  | some queue =>
    match queue.registry.entries.find? (·.1 = id) with
    | none => (.error (unknownSubscription id), w)
    | some (_, k) =>
      let registry :=
        { queue.registry with entries := queue.registry.entries.filter (·.1 ≠ id) }
      let w := (w.setQueue q { queue with registry }).cancelLoop k
      let (c, w) := w.await { purpose := .unsubscribe id, awaiting := [.loop k] }
      (.ok c, w)

/-- Takes the writer and closes it, cancels all loops and empties the registry. Nothing is left
to do for a queue without writer. A registry is emptied in no order of its own; the loops that were
in it are awaited here in the order of their subscriptions, one of those there may be. -/
def close (w : World T α) (q : Nat) : Option Nat × World T α :=
  match w.queues[q]? with
  | none => (none, w)
  | some queue =>
    match queue.writer with
    | none => (none, w)
    | some writer =>
      let (result, _, broker) := Transport.closeWriter writer w.broker
      let w := { w with broker }
      let w := match result with
        | .ok () => w
        | .error e => w.log .error "Failed to close Kafka writer" [.error e]
      let awaiting := queue.registry.entries.map fun (_, k) => Awaited.loop k
      let registry := { queue.registry with entries := [] }
      let w := (w.setQueue q { queue with writer := none, registry }).cancelAll q
      let (c, w) := w.await { purpose := .close result, awaiting }
      (some c, w)

/-- A queue that is given up without being closed cancels its loops and waits for none. -/
def drop (w : World T α) (q : Nat) : World T α := w.cancelAll q

def startPool (w : World T α) (label : String) (work : α → Work) (size : Nat) :
    Nat × World T α :=
  (w.pools.length, { w with pools := w.pools ++ [Pool.start label work size] })

/-- A closed pool refuses whatever is offered, and its idle workers stop. -/
def closePool (w : World T α) (p : Nat) : World T α :=
  { w with pools := w.pools.modify p Pool.close }

/-- Closes a pool and waits for its workers, one after the other. -/
def shutdownPool (w : World T α) (p : Nat) : Nat × World T α :=
  let workers := (w.pools[p]?.map Pool.size).getD 0
  (w.closePool p).await
    { purpose := .shutdown, awaiting := (List.range workers).map (.worker p) }

def control (w : World T α) (c : Transport.Control T) : World T α :=
  let w := { w with broker := Transport.control c w.broker }
  if Transport.wakes c then w.wake else w

def release (w : World T α) (value : α) : World T α := { w with released := w.released ++ [value] }

end World

end Courier.Queue
