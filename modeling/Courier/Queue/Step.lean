import Courier.Queue.Api

/-! The steps that a world takes by itself, and the runs made of them.

Any step that is possible may be taken next: a run is one order of the steps of loops, pools and
calls, and the clock moves on in between. -/
namespace Courier.Queue

open Broker (Transport)

inductive Step where
  | loop (number : Nat)
  | pool (number : Nat) (s : Pool.Step)
  | call (number : Nat)
  | wait (ms : Nat)

namespace World

variable {T α : Type} [Transport T] [DecidableEq α]

/-- The answer of the pool to what loop `k` has offered is the subscriber's answer. -/
def answerOffer (w : World T α) (k : Nat) (accepted : Bool) : World T α :=
  match w.loops[k]? with
  | some l =>
    match l.phase with
    | .handling m .offered =>
      let w := if accepted then w else w.report l (some m) Subscriber.handoffRefused
      w.setLoop k { l with phase := .handling m (.answered accepted w.now) }
    | _ => w
  | none => w

def poolStep (w : World T α) (p : Nat) (s : Pool.Step) : Option (World T α) :=
  match w.pools[p]? with
  | none => none
  | some pool =>
    match pool.step w.now w.released s with
    | none => none
    | some (pool, effect) =>
      let w := { w with pools := w.pools.set p pool }
      some (match effect with
        | .accepted k => w.answerOffer k true
        | .refused k => w.answerOffer k false
        | .started v => w.note (.heard pool.label (.started v))
        | .finished v released =>
          let w := w.note (.heard pool.label (.finished v))
          if released then { w with released := w.released.erase v } else w
        | .none => w)

/-- What is awaited has ended, and whether it ended by a failure. -/
def ended (w : World T α) : Awaited → Option Bool
  | .loop k =>
    match w.loops[k]? with
    | some l => if l.phase.isFinished then some (l.phase matches .failed) else none
    | none => some false
  | .worker p i =>
    match w.pools[p]?.bind (·.workers[i]?) with
    | some .stopped => some false
    | some .dead => some true
    | some _ => none
    | none => some false

def abnormalEnd : Awaited → String
  | .loop _ => "Subscription loop ended abnormally"
  | .worker _ _ => "Worker terminated abnormally"

def complete (w : World T α) : Purpose → Except Error Unit × World T α
  | .unsubscribe id => (.ok (), w.log .info "Unsubscribed" [⟨"subscription", id.render⟩])
  | .close result => (result, w.log .info "Kafka message queue closed" [])
  | .shutdown => (.ok (), w)

/-- A pending call goes on when the next thing it waits for has ended. -/
def callStep (w : World T α) (c : Nat) : Option (World T α) :=
  match w.pending[c]? with
  | none => none
  | some p =>
    if p.result.isSome then none else
    match p.awaiting with
    | [] =>
      let (r, w) := w.complete p.purpose
      some { w with pending := w.pending.set c { p with result := some r } }
    | a :: rest =>
      match w.ended a with
      | none => none
      | some abnormal =>
        let w := if abnormal then w.log .warn (abnormalEnd a) [] else w
        some { w with pending := w.pending.set c { p with awaiting := rest } }

/-- The world after a step, if the step is possible. -/
def step (w : World T α) : Step → Option (World T α)
  | .loop k => w.loopStep k
  | .pool p s => w.poolStep p s
  | .call c => w.callStep c
  | .wait ms => some { w with now := w.now + ms }

/-- What may be done to a world at any time. -/
inductive Command (T α : Type) [Transport T] where
  | connect (files : Files) (config : Broker.Config)
  | publish (queue : Nat) (topic : Topic) (payload : Payload)
  | publishJson (queue : Nat) (topic : Topic) (value : Except String Json)
  | subscribe (queue : Nat) (topic : Topic) (group label : String) (subscriber : Subscriber α)
  | unsubscribe (queue : Nat) (id : SubscriptionId)
  | close (queue : Nat)
  | drop (queue : Nat)
  | startPool (label : String) (work : α → Work) (size : Nat)
  | closePool (pool : Nat)
  | shutdownPool (pool : Nat)
  | release (value : α)
  | control (c : Transport.Control T)

/-- The world after a command, without the command's answer. -/
def obey (w : World T α) : Command T α → World T α
  | .connect files config => (w.connect files config).2
  | .publish q topic payload => (w.publish q topic payload).2
  | .publishJson q topic value => (w.publishJson q topic value).2
  | .subscribe q topic group label s => (w.subscribe q topic group label s).2
  | .unsubscribe q id => (w.unsubscribe q id).2
  | .close q => (w.close q).2
  | .drop q => w.drop q
  | .startPool label work size => (w.startPool label work size).2
  | .closePool p => w.closePool p
  | .shutdownPool p => (w.shutdownPool p).2
  | .release v => w.release v
  | .control c => w.control c

inductive Move (w : World T α) : World T α → Prop where
  | step {v : World T α} (s : Step) : w.step s = some v → Move w v
  | command (c : Command T α) : Move w (w.obey c)

/-- The worlds that can come about, starting with nothing but a broker. -/
inductive Reachable (broker : T) : World T α → Prop where
  | start : Reachable broker { broker }
  | next {w v : World T α} : Reachable broker w → Move w v → Reachable broker v

end World

end Courier.Queue
