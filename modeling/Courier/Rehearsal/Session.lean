import Courier.Rehearsal.Clock

/-! A rehearsal: named queues over one broker and labelled subscriptions, taken through a list of
commands in virtual time. -/
namespace Courier.Rehearsal

open Broker (Transport)
open Queue (World Note)

structure Session (T α : Type) [Transport T] where
  world : World T α
  queues : List (String × Nat) := []
  /-- Subscriptions made, by label. -/
  subscriptions : List (String × SubscriptionId) := []
  pools : List (String × Nat) := []

inductive Answer where
  | done
  | nothing
  | connected (brokers : List String)
  | subscribed (id : SubscriptionId)
  | failed (e : Error)
  | noQueue
  | stuck

/-- The subscriber a subscription is made with; a pool is started for it if it needs one. -/
inductive Handler (α : Type) where
  | direct (listener : Listener Message)
  | typed (decoder : Decoder α) (listener : Listener α)
  | pooled (decoder : Decoder α) (work : α → Work) (workers : Nat)

/-- A subscription by its number or its label. -/
inductive Named where
  | id (id : SubscriptionId)
  | label (label : String)

inductive Command (α : Type) where
  | connect (queue : String) (config : Broker.Config)
  | publish (queue topic : String) (payload : Payload)
  | publishJson (queue topic : String) (value : Except String Json)
  | subscribe (queue label topic group : String) (handler : Handler α)
  | unsubscribe (queue : String) (which : Named)
  | close (queue : String)
  | dropQueue (queue : String)
  | shutdownPool (label : String)
  | dropPool (label : String)
  | release (value : α)
  | advance (ms : Nat)

namespace Session

variable {T α : Type} [Transport T] [DecidableEq α]

def put (name : String) (a : β) (named : List (String × β)) : List (String × β) :=
  named.filter (·.1 != name) ++ [(name, a)]

def ofResult : Except Error Unit → Answer
  | .ok () => .done
  | .error e => .failed e

def onQueue (s : Session T α) (queue : String) (f : Nat → Answer × Session T α) :
    Answer × Session T α :=
  match s.queues.lookup queue with
  | none => (.noQueue, s)
  | some q => f q

def onTopic (s : Session T α) (topic : String) (f : Topic → Answer × Session T α) :
    Answer × Session T α :=
  match Topic.ofName topic with
  | .error e => (.failed e, s)
  | .ok t => f t

def withWorld (s : Session T α) (w : World T α) : Session T α := { s with world := w }

def await (s : Session T α) (c : Nat) : Answer × Session T α :=
  let (r, w) := s.world.waitFor c
  (match r with
    | some r => ofResult r
    | none => .stuck, s.withWorld w)

/-- A queue of that name is given up for the new one. -/
def connect (s : Session T α) (queue : String) (config : Broker.Config) : Answer × Session T α :=
  let (r, w) := s.world.connect ⟨[]⟩ config
  match r with
  | .error e => (.failed e, s.withWorld w)
  | .ok (q, connection) =>
    let w := match s.queues.lookup queue with
      | some old => w.drop old
      | none => w
    (.connected connection.brokers, { s with world := w, queues := put queue q s.queues })

/-- Starts the pool of a label, giving up one that the label had. -/
def keepPool (s : Session T α) (label : String) (work : α → Work) (workers : Nat) :
    Nat × Session T α :=
  let w := match s.pools.lookup label with
    | some old => s.world.closePool old
    | none => s.world
  let (p, w) := w.startPool label work workers
  (p, { s with world := w, pools := put label p s.pools })

def prepare (s : Session T α) (label : String) : Handler α → Subscriber α × Session T α
  | .direct listener => (.direct listener, s)
  | .typed decoder listener => (.typed decoder listener, s)
  | .pooled decoder work workers =>
    let (p, s) := s.keepPool label work workers
    (.pooled decoder p, s)

def subscribe (s : Session T α) (q : Nat) (label : String) (topic : Topic) (group : String)
    (handler : Handler α) : Answer × Session T α :=
  let (subscriber, s) := s.prepare label handler
  let (r, w) := s.world.subscribe q topic group label subscriber
  match r with
  | .error e => (.failed e, s.withWorld w)
  | .ok id =>
    (.subscribed id, { s with world := w, subscriptions := put label id s.subscriptions })

def unsubscribe (s : Session T α) (q : Nat) (which : Named) : Answer × Session T α :=
  let id := match which with
    | .id id => id
    | .label label => (s.subscriptions.lookup label).getD ⟨0⟩
  let (r, w) := s.world.unsubscribe q id
  match r with
  | .error e => (.failed e, s.withWorld w)
  | .ok c => (s.withWorld w).await c

def close (s : Session T α) (q : Nat) : Answer × Session T α :=
  let (c, w) := s.world.close q
  match c with
  | none => (.done, s.withWorld w)
  | some c => (s.withWorld w).await c

/-- Takes the pool of a label away from the session. -/
def takePool (s : Session T α) (label : String) : Option Nat × Session T α :=
  (s.pools.lookup label, { s with pools := s.pools.filter (·.1 != label) })

def perform (s : Session T α) : Command α → Answer × Session T α
  | .connect queue config => s.connect queue config
  | .publish queue topic payload =>
    s.onQueue queue fun q => s.onTopic topic fun t =>
      let (r, w) := s.world.publish q t payload
      (ofResult r, s.withWorld w)
  | .publishJson queue topic value =>
    s.onQueue queue fun q => s.onTopic topic fun t =>
      let (r, w) := s.world.publishJson q t value
      (ofResult r, s.withWorld w)
  | .subscribe queue label topic group handler =>
    s.onQueue queue fun q => s.onTopic topic fun t => s.subscribe q label t group handler
  | .unsubscribe queue which => s.onQueue queue fun q => s.unsubscribe q which
  | .close queue => s.onQueue queue fun q => s.close q
  | .dropQueue queue =>
    s.onQueue queue fun q =>
      (.nothing,
        { s with world := s.world.drop q, queues := s.queues.filter (·.1 != queue) })
  | .shutdownPool label =>
    match s.takePool label with
    | (none, s) => (.nothing, s)
    | (some p, s) =>
      let (c, w) := s.world.shutdownPool p
      match (s.withWorld w).await c with
      | (.stuck, s) => (.stuck, s)
      | (_, s) => (.nothing, s)
  | .dropPool label =>
    match s.takePool label with
    | (none, s) => (.nothing, s)
    | (some p, s) => (.nothing, s.withWorld (s.world.closePool p))
  | .release value => (.nothing, s.withWorld (s.world.release value))
  | .advance ms => (.nothing, s.withWorld (s.world.advance ms))

/-- Performs a command and lets everything that follows at that instant happen. -/
def run (s : Session T α) (c : Command α) : Answer × Session T α :=
  let (answer, s) := s.perform c
  (answer, s.withWorld s.world.settled)

def since (s : Session T α) (length : Nat) : List (Nat × Note α) :=
  (s.world.journal.take (s.world.journal.length - length)).reverse

def counts (s : Session T α) : List (String × Nat) :=
  s.queues.map fun (name, q) => (name, s.world.subscriptions q)

def idle (s : Session T α) : List (String × Nat) :=
  s.pools.map fun (label, p) => (label, (s.world.pools[p]?.map (·.free)).getD 0)

end Session

end Courier.Rehearsal
