import Courier.Queue.World

/-! The steps of a read loop.

A loop can be cancelled while it fetches or rests. A message that has been handed over is dealt
with to the end before a cancelled loop stops. A loop whose subscriber fails is gone with it, and
leaves its message and its reader as they are. -/
namespace Courier.Queue.World

open Broker (Transport Fetched)

variable {T α : Type} [Transport T]

def act (w : World T α) (k : Nat) (l : ReadLoop T α) (a : Act) : World T α :=
  w.note (.act k l.topic.name a)

def report (w : World T α) (l : ReadLoop T α) (m : Option Message) (e : Error) : World T α :=
  w.utter l.label (l.subscriber.report m e)

def streamFields (l : ReadLoop T α) (reason : String) : List Log.Field :=
  [⟨"topic", l.topic.name⟩, ⟨"group_id", l.group⟩, ⟨"reason", reason⟩]

def receivedFields (l : ReadLoop T α) (m : Message) : List Log.Field :=
  [⟨"topic", m.topic⟩, ⟨"group_id", l.group⟩, .int "partition" m.partition,
    .int "offset" m.offset, .int "size" m.payload.length]

def endLoop (w : World T α) (k : Nat) (l : ReadLoop T α) : World T α :=
  let (reader, broker) := Transport.closeReader l.reader w.broker
  let w := w.act k l .closed
  { w with broker }.setLoop k { l with reader, phase := .ended }

/-- The loop waits, longer with each failure in a row. -/
def rest (w : World T α) (k : Nat) (l : ReadLoop T α) (failures : UInt32) : World T α :=
  let ms := (pause failures).toNat
  (w.act k l (.rested ms)).setLoop k { l with phase := .resting (w.now + ms) }

def offer (w : World T α) (pool ticket : Nat) (value : α) : World T α :=
  { w with pools := w.pools.modify pool fun p => p.offer ticket value }

def deliver (w : World T α) (k : Nat) (l : ReadLoop T α) (m : Message) : World T α :=
  let w := w.act k l (.delivered m)
  let w := if l.isDebug then w.log .debug "Message received" (receivedFields l m) else w
  let (reception, said, calls) := l.subscriber.receive l.calls m
  let w := said.foldl (fun w u => w.utter l.label u) w
  let l := { l with calls }
  match reception with
  | .failed delay => w.setLoop k { l with phase := .handling m (.failing (w.now + delay)) }
  | .answered accept delay =>
    w.setLoop k { l with phase := .handling m (.answered accept (w.now + delay)) }
  | .offered value =>
    let w := w.setLoop k { l with phase := .handling m .offered }
    match l.subscriber with
    | .pooled _ pool => w.offer pool k value
    | _ => w

def fetch (w : World T α) (k : Nat) (l : ReadLoop T α) : World T α :=
  let (fetched, reader, broker) := Transport.fetch l.reader w.broker
  let w := { w with broker }
  let l := { l with reader }
  match fetched with
  | .nothing => w.setLoop k { l with phase := .parked }
  | .message m => w.deliver k { l with failures := 0 } m
  | .closed e =>
    (w.log .error "Kafka stream closed" (streamFields l e.message)).endLoop k l
  | .transient e =>
    let w := (w.act k l (.fetchFailed e)).report l none e
    w.rest k { l with failures := oneMore l.failures } l.failures

/-- Commits an accepted message and holds back one that was not. Either may fail, and the
subscriber is told so; the loop goes on all the same. -/
def settle (w : World T α) (k : Nat) (l : ReadLoop T α) (m : Message) (accept : Bool) :
    World T α :=
  let w := w.act k l (.answered m accept)
  let tell (w : World T α) (r : Except Error Unit) : World T α :=
    match r with
    | .ok () => w
    | .error e => w.report l (some m) e
  if accept then
    let (r, reader, broker) := Transport.commit l.reader m w.broker
    let w := tell ({ w with broker }.act k l (.committed m r)) r
    w.setLoop k { l with reader, rejections := 0, phase := .ready }
  else
    let (r, reader, broker) := Transport.withhold l.reader m w.broker
    let w := tell ({ w with broker }.act k l (.withheld m r)) r
    w.rest k { l with reader, rejections := oneMore l.rejections } l.rejections

/-- The next step of loop `k`, if it has one now. -/
def loopStep (w : World T α) (k : Nat) : Option (World T α) :=
  match w.loops[k]? with
  | none => none
  | some l =>
    match l.phase with
    | .ready | .parked =>
      if l.cancelled then
        some ((w.log .debug "Kafka stream closed"
          (streamFields l "subscription cancelled")).endLoop k l)
      else
        match l.phase with
        | .ready => some (w.fetch k l)
        | _ => none
    | .handling m (.answered accept due) =>
      if due ≤ w.now then some (w.settle k l m accept) else none
    | .handling _ (.failing due) =>
      if due ≤ w.now then some (w.setLoop k { l with phase := .failed }) else none
    | .handling _ .offered => none
    | .resting due =>
      if l.cancelled then some (w.endLoop k l)
      else if due ≤ w.now then some (w.setLoop k { l with phase := .ready })
      else none
    | .ended | .failed => none

/-- The time loop `k` waits for, if it waits for one. -/
def loopDue (l : ReadLoop T α) : Option Nat :=
  match l.phase with
  | .handling _ (.answered _ due) | .handling _ (.failing due) => some due
  | .resting due => some due
  | _ => none

end Courier.Queue.World
