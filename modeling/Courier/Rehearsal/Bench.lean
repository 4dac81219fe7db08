import Courier.Broker.Ledger

/-! A ledger on the bench: named writers and readers used directly, without queues. A fetch may be
left waiting; it is made again whenever something was written or the streams were closed. -/
namespace Courier.Rehearsal

open Broker (Ledger Fetched)

structure Bench where
  ledger : Ledger := {}
  writers : List (String × Ledger.Writer) := []
  readers : List Ledger.Reader := []
  names : List (String × Nat) := []
  /-- Fetches that wait, the oldest first: the name they are known by and their reader. -/
  waiting : List (String × Nat) := []

namespace Bench

inductive Command where
  | probe
  | writer (name : String)
  | write (name : String) (record : Record)
  | closeWriter (name : String)
  | reader (name : String) (topic : Topic) (group : String)
  | fetch (name : String)
  | fetchWait (name : String)
  | commit (name : String) (m : Message)
  | withhold (name : String) (m : Message)
  | closeReader (name : String)
  | control (c : Ledger.Control)

inductive Answer where
  | done
  | nothing
  | failed (e : Error)
  | fetched (f : Fetched)
  | pending
  | busy
  | unknown

def ofResult : Except Error Unit → Answer
  | .ok () => .done
  | .error e => .failed e

def put (name : String) (a : β) (named : List (String × β)) : List (String × β) :=
  named.filter (·.1 != name) ++ [(name, a)]

def setReader (b : Bench) (n : Nat) (r : Ledger.Reader) (ledger : Ledger) : Bench :=
  { b with readers := b.readers.set n r, ledger }

def isWaiting (b : Bench) (n : Nat) : Bool := b.waiting.any (·.2 == n)

def fetchNow (b : Bench) (n : Nat) (r : Ledger.Reader) : Fetched × Bench :=
  let (f, r, ledger) := Ledger.fetch r b.ledger
  (f, b.setReader n r ledger)

/-- Every waiting fetch is made again, the oldest first; of several on one reader only the first. -/
def recheck (b : Bench) : List (String × Nat) → List (String × Fetched) × Bench
  | [] => ([], b)
  | (name, n) :: rest =>
    let keep (b : Bench) : Bench := { b with waiting := b.waiting ++ [(name, n)] }
    if b.isWaiting n then recheck (keep b) rest
    else
      match b.readers[n]? with
      | none => recheck b rest
      | some r =>
        match b.fetchNow n r with
        | (.nothing, b) => recheck (keep b) rest
        | (f, b) =>
          let (ended, b) := recheck b rest
          ((name, f) :: ended, b)

def wake (b : Bench) : List (String × Fetched) × Bench :=
  recheck { b with waiting := [] } b.waiting

/-- A reader that is not kept by a waiting fetch. -/
def onReader (b : Bench) (name : String) (f : Nat → Ledger.Reader → Answer × Bench) :
    Answer × Bench :=
  match b.names.lookup name with
  | none => (.unknown, b)
  | some n =>
    match b.readers[n]? with
    | none => (.unknown, b)
    | some r => if b.isWaiting n then (.busy, b) else f n r

def ofFetched : Fetched → Answer
  | .nothing => .pending
  | f => .fetched f

def perform (b : Bench) : Command → Answer × Bench
  | .probe =>
    let (r, ledger) := b.ledger.probe
    (ofResult r, { b with ledger })
  | .writer name => (.done, { b with writers := put name {} b.writers })
  | .write name record =>
    match b.writers.lookup name with
    | none => (.unknown, b)
    | some w =>
      let (r, ledger) := Ledger.write 0 w record b.ledger
      (ofResult r, { b with ledger })
  | .closeWriter name =>
    match b.writers.lookup name with
    | none => (.unknown, b)
    | some _ => (.done, { b with writers := put name { closed := true } b.writers })
  | .reader name topic group =>
    (.done,
      { b with
        readers := b.readers ++ [b.ledger.openReader topic group]
        names := put name b.readers.length b.names })
  | .fetch name =>
    match b.onReader name fun n r =>
      let (f, b) := b.fetchNow n r
      (ofFetched f, b) with
    | (.busy, b) => (.pending, b)
    | result => result
  | .fetchWait name =>
    let wait (b : Bench) : Answer × Bench :=
      match b.names.lookup name with
      | some n => (.pending, { b with waiting := b.waiting ++ [(name, n)] })
      | none => (.unknown, b)
    match b.onReader name fun n r =>
      let (f, b) := b.fetchNow n r
      (ofFetched f, b) with
    | (.busy, b) => wait b
    | (.pending, b) => wait b
    | result => result
  | .commit name m =>
    b.onReader name fun n r =>
      let (result, r, ledger) := Ledger.commit r m b.ledger
      (ofResult result, b.setReader n r ledger)
  | .withhold name m =>
    b.onReader name fun n r =>
      let (result, r, ledger) := Ledger.withhold r m b.ledger
      (ofResult result, b.setReader n r ledger)
  | .closeReader name =>
    b.onReader name fun n r => (.nothing, b.setReader n { r with closed := true } b.ledger)
  | .control c => (.nothing, { b with ledger := b.ledger.control c })

/-- A command after which waiting fetches are made again. -/
def wakes (c : Command) (a : Answer) : Bool :=
  match c, a with
  | .write _ _, .done => true
  | .control .closeReaders, _ => true
  | _, _ => false

/-- Performs a command; answers also the waiting fetches that ended, by name. -/
def run (b : Bench) (c : Command) : Answer × List (String × Fetched) × Bench :=
  let (a, b) := b.perform c
  if wakes c a then
    let (ended, b) := b.wake
    (a, ended, b)
  else (a, [], b)

end Bench

end Courier.Rehearsal
