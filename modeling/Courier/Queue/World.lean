import Courier.Broker.Connection
import Courier.Broker.Transport
import Courier.Pool
import Courier.Queue.Backoff
import Courier.Subscriber
import Courier.Telemetry

/-! Queues over one broker, with their read loops, the pools that work for them, the calls that
still wait, and a clock.

Everything that can be seen from outside is in the journal: log lines, events, and what the loops
and the publishers do. The counters are a view of it. -/
namespace Courier.Queue

open Broker (Transport Fetched)

inductive Act where
  | delivered (m : Message)
  | answered (m : Message) (accept : Bool)
  | committed (m : Message) (r : Except Error Unit)
  | withheld (m : Message) (r : Except Error Unit)
  | fetchFailed (e : Error)
  | rested (ms : Nat)
  | closed

/-- One thing that happened. Acts are told apart by the number of their loop. -/
inductive Note (α : Type) where
  | act (loop : Nat) (topic : String) (a : Act)
  | published (r : Record) (ok : Bool)
  | heard (label : String) (e : Event α)
  | line (l : Log.Line)

/-- How far the handling of a message is. -/
inductive Stage (α : Type) where
  | answered (accept : Bool) (due : Nat)
  /-- The call is in progress, and fails when it is due. -/
  | failing (due : Nat)
  /-- The value waits for a slot in the pool. -/
  | offered

inductive Phase (α : Type) where
  | ready
  /-- Nothing was there; it fetches again when something was written. -/
  | parked
  | handling (m : Message) (stage : Stage α)
  | resting (due : Nat)
  | ended
  /-- Ended by a failure of its subscriber. -/
  | failed

def Phase.isFinished : Phase α → Bool
  | ended | failed => true
  | _ => false

/-- One subscription's loop: fetch, hand over, then commit or hold back. -/
structure ReadLoop (T α : Type) [Transport T] where
  label : String
  queue : Nat
  topic : Topic
  group : String
  isDebug : Bool
  reader : Transport.Reader T
  subscriber : Subscriber α
  /-- Calls of the subscriber's listener so far. -/
  calls : Nat := 0
  /-- Failed fetches since the last message. -/
  failures : UInt32 := 0
  /-- Messages not accepted since the last one that was. -/
  rejections : UInt32 := 0
  cancelled : Bool := false
  phase : Phase α := .ready

/-- Subscriptions by number, and the number of the loop of each. -/
structure Registry where
  next : Nat := 1
  entries : List (SubscriptionId × Nat) := []

/-- A queue; without its writer it is closed. -/
structure MessageQueue (T : Type) [Transport T] where
  isDebug : Bool
  writer : Option (Transport.Writer T)
  registry : Registry := {}

/-- Something a call waits for. -/
inductive Awaited where
  | loop (number : Nat)
  | worker (pool number : Nat)
  deriving DecidableEq, Repr

/-- What a call does when all it waits for has ended. -/
inductive Purpose where
  | unsubscribe (id : SubscriptionId)
  | close (result : Except Error Unit)
  | shutdown

structure Pending where
  purpose : Purpose
  awaiting : List Awaited
  result : Option (Except Error Unit) := none

structure World (T α : Type) [Transport T] where
  now : Nat := 0
  broker : T
  queues : List (MessageQueue T) := []
  loops : List (ReadLoop T α) := []
  pools : List (Pool α) := []
  pending : List Pending := []
  /-- Work that may end, one entry for each piece of it. -/
  released : List α := []
  /-- The last note first, each with its time. -/
  journal : List (Nat × Note α) := []

namespace World

variable {T α : Type} [Transport T]

def note (w : World T α) (n : Note α) : World T α := { w with journal := (w.now, n) :: w.journal }

def log (w : World T α) (level : Log.Level) (message : String) (fields : List Log.Field) :
    World T α :=
  w.note (.line ⟨level, message, fields⟩)

def utter (w : World T α) (label : String) : Utterance α → World T α
  | .event e => w.note (.heard label e)
  | .line l => w.note (.line l)

def setLoop (w : World T α) (k : Nat) (l : ReadLoop T α) : World T α :=
  { w with loops := w.loops.set k l }

def setQueue (w : World T α) (q : Nat) (queue : MessageQueue T) : World T α :=
  { w with queues := w.queues.set q queue }

def loopFinished (w : World T α) (k : Nat) : Bool :=
  match w.loops[k]? with
  | some l => l.phase.isFinished
  | none => true

/-- Every loop that found nothing looks again. -/
def wake (w : World T α) : World T α :=
  { w with loops := w.loops.map fun l =>
      match l.phase with
      | .parked => { l with phase := .ready }
      | _ => l }

def subscriptions (w : World T α) (q : Nat) : Nat :=
  match w.queues[q]? with
  | none => 0
  | some queue => (queue.registry.entries.filter fun (_, k) => !w.loopFinished k).length

end World

/-- What a note counts as, and for which topic. -/
def Note.counts : Note α → Option (Metric × String)
  | .published r true => some (.published, r.topic.name)
  | .published r false => some (.publishFailures, r.topic.name)
  | .act _ topic (.delivered _) => some (.consumed, topic)
  | .act _ topic (.committed _ (.ok _)) => some (.committed, topic)
  | .act _ topic (.committed _ (.error _)) => some (.commitFailures, topic)
  | .act _ topic (.fetchFailed _) => some (.fetchErrors, topic)
  | _ => none

def World.count {T α : Type} [Transport T] (w : World T α) (m : Metric) (topic : String) : Nat :=
  w.journal.countP fun (_, n) => n.counts == some (m, topic)

/-- The counters that were ever used. -/
def World.counters {T α : Type} [Transport T] (w : World T α) : List (Metric × String) :=
  (w.journal.filterMap fun (_, n) => n.counts).eraseDups

end Courier.Queue
