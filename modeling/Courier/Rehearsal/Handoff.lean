import Courier.Pool
import Courier.Subscriber

/-! A pooled subscriber on its own: messages are handed to it one beside the other, each by a
caller who waits for the answer, and its pool works in virtual time. -/
namespace Courier.Rehearsal

/-- How far the pool's owner is with giving it up. -/
inductive Ownership where
  | kept
  /-- Waits for the workers from the given one on. -/
  | stopping (worker : Nat)
  | given

structure Handoff (α : Type) where
  decoder : Decoder α
  pool : Pool α
  owner : Ownership := .kept
  present : Bool := true
  now : Nat := 0
  released : List α := []
  /-- The messages whose callers wait or have waited, by ticket. -/
  callers : List (String × Message) := []
  returned : List (String × Bool) := []
  events : List (Event α) := []
  lines : List Log.Line := []

namespace Handoff

inductive Command (α : Type) where
  | handle (caller : String) (m : Message)
  | report (m : Option Message) (e : Error)
  | release (value : α)
  | advance (ms : Nat)
  | shutdown
  | dropPool
  | dropSubscriber
  | look

variable {α : Type} [DecidableEq α]

def start (decoder : Decoder α) (work : α → Work) (workers : Nat) : Handoff α where
  decoder
  pool := Pool.start "" work workers

/-- Shutting the pool down is a call as well and returns under this name. -/
def shutdownName : String := "shutdown"

def say (h : Handoff α) : Utterance α → Handoff α
  | .event e => { h with events := e :: h.events }
  | .line l => { h with lines := l :: h.lines }

def subscriber (h : Handoff α) : Subscriber α := .pooled h.decoder 0

def answer (h : Handoff α) (caller : String) (accept : Bool) : Handoff α :=
  { h with returned := (caller, accept) :: h.returned }

def apply (h : Handoff α) : Pool.Effect α → Handoff α
  | .accepted ticket =>
    match h.callers[ticket]? with
    | some (caller, _) => h.answer caller true
    | none => h
  | .refused ticket =>
    match h.callers[ticket]? with
    | some (caller, m) =>
      (h.say (h.subscriber.report (some m) Subscriber.handoffRefused)).answer caller false
    | none => h
  | .started v => { h with events := .started v :: h.events }
  | .finished v released =>
    { h with
      events := .finished v :: h.events
      released := if released then h.released.erase v else h.released }
  | .none => h

/-- The owner goes on when the next worker has ended. -/
def stopStep (h : Handoff α) : Option (Handoff α) :=
  match h.owner with
  | .stopping i =>
    match h.pool.workers[i]? with
    | none => some { h.answer shutdownName true with owner := .given }
    | some .stopped => some { h with owner := .stopping (i + 1) }
    | some .dead =>
      some { h.say (.line ⟨.warn, "Worker terminated abnormally", []⟩) with
        owner := .stopping (i + 1) }
    | some _ => none
  | _ => none

def turn (h : Handoff α) : Option (Handoff α) :=
  (h.pool.steps.findSome? fun s =>
    (h.pool.step h.now h.released s).map fun (pool, effect) => { h with pool }.apply effect).orElse
  fun _ => h.stopStep

def quiesce : Nat → Handoff α → Handoff α
  | 0, h => h
  | rounds + 1, h =>
    match h.turn with
    | none => h
    | some h => quiesce rounds h

def settled (h : Handoff α) : Handoff α := h.quiesce 1000000

def advanceTo (time : Nat) : Nat → Handoff α → Handoff α
  | 0, h => { h with now := time }
  | instants + 1, h =>
    let h := h.settled
    match h.pool.dues.min? with
    | some due =>
      if due ≤ time then advanceTo time instants { h with now := max h.now due }
      else { h with now := time }
    | none => { h with now := time }

def handle (h : Handoff α) (caller : String) (m : Message) : Handoff α :=
  if !h.present then h else
  let (reception, said, _) := h.subscriber.receive 0 m
  let h := said.foldl say h
  let ticket := h.callers.length
  let h := { h with callers := h.callers ++ [(caller, m)] }
  match reception with
  | .answered accept _ => h.answer caller accept
  | .offered v => { h with pool := h.pool.offer ticket v }
  | .failed _ => h

def close (h : Handoff α) (owner : Ownership) : Handoff α :=
  match h.owner with
  | .kept => { h with pool := h.pool.close, owner }
  | _ => h

def perform (h : Handoff α) : Command α → Handoff α
  | .handle caller m => h.handle caller m
  | .report m e => if h.present then h.say (h.subscriber.report m e) else h
  | .release v => { h with released := h.released ++ [v] }
  | .advance ms => h.advanceTo (h.now + ms) (ms + 1)
  | .shutdown => h.close (.stopping 0)
  | .dropPool => h.close .given
  | .dropSubscriber => { h with present := false }
  | .look => h

/-- What was let out is that of this command alone. -/
def run (h : Handoff α) (c : Command α) : Handoff α :=
  ({ h with returned := [], events := [], lines := [] }.perform c).settled

end Handoff

end Courier.Rehearsal
