import Courier.Decoder
import Courier.Log
import Courier.Message

/-! Subscribers: what becomes of a message that is handed to one.

A direct subscriber is given the message itself. A typed one is given the decoded value, and a
pooled one leaves the decoded value to a pool of workers. A message that cannot be decoded is
reported and counts as dealt with, so that it does not come again. -/
namespace Courier

/-- How a listener takes one call: its answer, whether it fails in place of giving it, and how long
this takes. -/
structure Verdict where
  accept : Bool
  fails : Bool := false
  delay : Nat := 0
  deriving DecidableEq, Repr

/-- A listener decides by the number of its calls so far and what it is called with. -/
structure Listener (β : Type) where
  decide : Nat → β → Verdict

/-- Something that is heard of a subscriber or a pool from outside. -/
inductive Event (α : Type) where
  | message (m : Message) (accept : Bool)
  | failure (m : Option Message) (e : Error)
  | value (v : α) (accept : Bool)
  | started (v : α)
  | finished (v : α)

inductive Subscriber (α : Type) where
  | direct (listener : Listener Message)
  | typed (decoder : Decoder α) (listener : Listener α)
  | pooled (decoder : Decoder α) (pool : Nat)

/-- What a call of a subscriber leads to: an answer or a failure after a time, or an offer to the
pool, the answer to which is the subscriber's. -/
inductive Reception (α : Type) where
  | answered (accept : Bool) (delay : Nat)
  | failed (delay : Nat)
  | offered (v : α)

inductive Utterance (α : Type) where
  | event (e : Event α)
  | line (l : Log.Line)

namespace Subscriber

variable {α : Type}

/-- An error and, if it is about a message, where the message stands. -/
def errorFields (m : Option Message) (e : Error) : List Log.Field :=
  .error e :: match m with
    | none => []
    | some m => [⟨"topic", m.topic⟩, .int "partition" m.partition, .int "offset" m.offset]

def typedError (m : Option Message) (e : Error) : Log.Line :=
  ⟨.error, "StructSubscriber error", errorFields m e⟩

def pooledError (m : Option Message) (e : Error) : Log.Line :=
  ⟨.error, "AsyncStructSubscriber error", errorFields m e⟩

def report (s : Subscriber α) (m : Option Message) (e : Error) : Utterance α :=
  match s with
  | direct _ => .event (.failure m e)
  | typed _ _ => .line (typedError m e)
  | pooled _ _ => .line (pooledError m e)

def handoffRefused : Error := ⟨.internal, "worker pool is shut down, message not handed off"⟩

def reception (v : Verdict) : Reception α :=
  if v.fails then .failed v.delay else .answered v.accept v.delay

/-- Hands a message to a subscriber whose listener has been called `calls` times. Answers what
this leads to, what is let out, and the number of calls now. -/
def receive (s : Subscriber α) (calls : Nat) (m : Message) :
    Reception α × List (Utterance α) × Nat :=
  match s with
  | direct listener =>
    let v := listener.decide calls m
    (reception v, [.event (.message m v.accept)], calls + 1)
  | typed decoder listener =>
    match decoder.decode m.payload with
    | .error e => (.answered true 0, [s.report (some m) e], calls)
    | .ok value =>
      let v := listener.decide calls value
      (reception v, [.event (.value value v.accept)], calls + 1)
  | pooled decoder _ =>
    match decoder.decode m.payload with
    | .error e => (.answered true 0, [s.report (some m) e], calls)
    | .ok value => (.offered value, [], calls)

end Subscriber

end Courier
