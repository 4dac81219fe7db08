/-! A pool of workers.

A value is handed over in three stages: it is offered, it is accepted when a slot is free, and a
worker takes it up. Its slot is freed when the worker is done with it. Whoever offers a value
waits until it is accepted or refused, in the order of the offers. -/
namespace Courier

/-- What a worker does with a value. -/
inductive Work where
  /-- At once, as the value is taken up. -/
  | fails
  | takes (ms : Nat)
  /-- Until somebody lets it end. -/
  | held
  deriving DecidableEq, Repr

inductive Ending where
  | due (time : Nat)
  | onRelease
  deriving DecidableEq, Repr

inductive Worker (α : Type) where
  | idle
  | busy (value : α) (ending : Ending)
  | stopped
  /-- Ended by a failure. -/
  | dead

def Worker.isAlive : Worker α → Bool
  | idle | busy _ _ => true
  | stopped | dead => false

structure Pool (α : Type) where
  /-- Under this name its work is heard of. -/
  label : String
  work : α → Work
  free : Nat
  offers : List (Nat × α) := []
  accepted : List α := []
  workers : List (Worker α)
  closed : Bool := false

namespace Pool

inductive Step where
  | accept
  | take (worker : Nat)
  | finish (worker : Nat)
  | halt (worker : Nat)
  deriving DecidableEq, Repr

/-- What is to be seen of a step from outside. -/
inductive Effect (α : Type) where
  | accepted (ticket : Nat)
  | refused (ticket : Nat)
  | started (value : α)
  /-- `released` if the work ended because it was let end. -/
  | finished (value : α) (released : Bool)
  | none

variable {α : Type}

/-- A pool has at least one worker and a slot for each. -/
def start (label : String) (work : α → Work) (size : Nat) : Pool α where
  label
  work
  free := max size 1
  workers := List.replicate (max size 1) .idle

def size (p : Pool α) : Nat := p.workers.length

def isAlive (p : Pool α) : Bool := p.workers.any Worker.isAlive

def offer (p : Pool α) (ticket : Nat) (value : α) : Pool α :=
  { p with offers := p.offers ++ [(ticket, value)] }

def close (p : Pool α) : Pool α := { p with closed := true }

/-- Sets a worker. With the last worker goes what was accepted and not taken up. -/
def setWorker (p : Pool α) (i : Nat) (w : Worker α) : Pool α :=
  let p := { p with workers := p.workers.set i w }
  if p.isAlive then p else { p with accepted := [], free := p.free + p.accepted.length }

/-- The first offer is refused by a closed pool and by one without workers, and accepted as soon
as a slot is free. -/
def accept (p : Pool α) : Option (Pool α × Effect α) :=
  match p.offers with
  | [] => none
  | (ticket, value) :: rest =>
    if p.closed || !p.isAlive then some ({ p with offers := rest }, .refused ticket)
    else if p.free = 0 then none
    else some
      ({ p with offers := rest, free := p.free - 1, accepted := p.accepted ++ [value] },
        .accepted ticket)

/-- An idle worker takes up the oldest accepted value. -/
def take (now : Nat) (p : Pool α) (i : Nat) : Option (Pool α × Effect α) :=
  match p.workers[i]?, p.accepted with
  | some .idle, value :: rest =>
    let q := { p with accepted := rest }
    some (match p.work value with
      | .fails => { q with free := q.free + 1 }.setWorker i .dead
      | .takes ms => q.setWorker i (.busy value (.due (now + ms)))
      | .held => q.setWorker i (.busy value .onRelease), .started value)
  | _, _ => none

def finish [DecidableEq α] (now : Nat) (released : List α) (p : Pool α) (i : Nat) :
    Option (Pool α × Effect α) :=
  match p.workers[i]? with
  | some (.busy value (.due time)) =>
    if time ≤ now then
      some ({ p with free := p.free + 1 }.setWorker i .idle, .finished value false)
    else none
  | some (.busy value .onRelease) =>
    if value ∈ released then
      some ({ p with free := p.free + 1 }.setWorker i .idle, .finished value true)
    else none
  | _ => none

/-- An idle worker of a closed pool stops, even if something is left to be taken up. -/
def halt (p : Pool α) (i : Nat) : Option (Pool α × Effect α) :=
  match p.workers[i]? with
  | some .idle => if p.closed then some (p.setWorker i .stopped, .none) else none
  | _ => none

/-- `now` is the time and `released` what has been let end. -/
def step [DecidableEq α] (now : Nat) (released : List α) (p : Pool α) :
    Step → Option (Pool α × Effect α)
  | .accept => p.accept
  | .take i => p.take now i
  | .finish i => p.finish now released i
  | .halt i => p.halt i

/-- Every step that may be possible, stopping before taking up. -/
def steps (p : Pool α) : List Step :=
  .accept :: (List.range p.size).flatMap fun i => [.halt i, .take i, .finish i]

def dues (p : Pool α) : List Nat :=
  p.workers.filterMap fun
    | .busy _ (.due time) => some time
    | _ => none

end Pool

end Courier
