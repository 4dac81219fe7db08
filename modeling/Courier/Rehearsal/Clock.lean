import Courier.Queue.Step

/-! Running a world in virtual time.

Everything that can happen at one instant happens before the clock moves, and then it moves to
the next instant at which something is due. -/
namespace Courier.Queue.World

open Broker (Transport)

variable {T α : Type} [Transport T] [DecidableEq α]

def candidates (w : World T α) : List Step :=
  (List.range w.pending.length).map .call ++ (List.range w.loops.length).map .loop ++
  w.pools.zipIdx.flatMap fun (pool, p) => pool.steps.map (.pool p)

def turn (w : World T α) : Option (World T α) := w.candidates.findSome? w.step

/-- Steps until none is possible, `rounds` of them at most. -/
def quiesce : Nat → World T α → World T α
  | 0, w => w
  | rounds + 1, w =>
    match w.turn with
    | none => w
    | some w => quiesce rounds w

/-- More rounds than there are to be taken at one instant. -/
def settled (w : World T α) : World T α := w.quiesce 1000000

/-- The next instant at which something is due. -/
def nextDue (w : World T α) : Option Nat :=
  (w.loops.filterMap loopDue ++ w.pools.flatMap Pool.dues).min?

/-- Moves on to the next instant at which something is due, but not past `deadline`. -/
def tick (w : World T α) (deadline : Nat) : Option (World T α) :=
  match w.nextDue with
  | some due => if due ≤ deadline then some { w with now := max w.now due } else none
  | none => none

def runUntil (deadline : Nat) : Nat → World T α → World T α
  | 0, w => { w with now := deadline }
  | instants + 1, w =>
    let w := w.settled
    match w.tick deadline with
    | some w => runUntil deadline instants w
    | none => { w with now := deadline }

def advance (w : World T α) (ms : Nat) : World T α :=
  (w.runUntil (w.now + ms) (ms + 1)).settled

def resultOf (w : World T α) (c : Nat) : Option (Except Error Unit) :=
  w.pending[c]?.bind (·.result)

/-- Runs until call `c` has returned or `deadline` is reached. -/
def runCall (c deadline : Nat) : Nat → World T α → Option (Except Error Unit) × World T α
  | 0, w => (none, w)
  | instants + 1, w =>
    let w := w.settled
    match w.resultOf c with
    | some r => (some r, w)
    | none =>
      match w.tick deadline with
      | some w => runCall c deadline instants w
      | none => (none, { w with now := deadline })

/-- A call that has not returned by then is given up. -/
def patience : Nat := 3600000

def waitFor (w : World T α) (c : Nat) : Option (Except Error Unit) × World T α :=
  let (r, w) := w.runCall c (w.now + patience) (patience + 1)
  match r with
  | some r => (some r, w)
  | none =>
    let pending := w.pending.modify c fun p => { p with awaiting := [], result := some (.ok ()) }
    (none, { w with pending }.settled)

end Courier.Queue.World
