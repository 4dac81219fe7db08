import Courier.Broker.Transport

/-! A broker that answers from a script and notes down how it was called. -/
namespace Courier.Broker

/-- What a reader answers, call after call. When a list is used up, everything succeeds and there
is nothing more to fetch. -/
structure ReaderScript where
  create : Option Error := none
  fetches : List Fetched := []
  commits : List (Option Error) := []
  withholds : List (Option Error) := []
  /-- A message held back comes next, without its key. -/
  redeliver : Bool := false
  /-- The reader does not know of messages held back. -/
  plain : Bool := false

inductive Call where
  | probe
  | writer
  | write (topic : String) (key : Option Bytes) (value : Bytes)
  | closeWriter
  | reader (name : String)
  | commit (name : String) (offset : Int)
  | withhold (name : String) (offset : Int)
  | closeReader (name : String)

/-- What is left of the script, and the calls so far, the last one first. -/
structure Script where
  probe : Option Error := none
  writer : Option Error := none
  writes : List (Option Error) := []
  writerClose : Option Error := none
  readers : List ReaderScript := []
  calls : List Call := []

namespace Script

structure Reader where
  name : String
  script : ReaderScript

def result : Option Error → Except Error Unit
  | none => .ok ()
  | some e => .error e

def next (answers : List (Option Error)) : Except Error Unit := result (answers.head?.getD none)

def note (s : Script) (c : Call) : Script := { s with calls := c :: s.calls }

def openReader (topic : Topic) (group : String) (s : Script) : Except Error Reader × Script :=
  let name := topic.name ++ "/" ++ group
  let script := s.readers.head?.getD {}
  let s := { s.note (.reader name) with readers := s.readers.tail }
  match script.create with
  | some e => (.error e, s)
  | none => (.ok ⟨name, script⟩, s)

def fetch (r : Reader) (s : Script) : Fetched × Reader × Script :=
  (r.script.fetches.head?.getD .nothing,
    { r with script.fetches := r.script.fetches.tail }, s)

def commit (r : Reader) (m : Message) (s : Script) : Except Error Unit × Reader × Script :=
  (next r.script.commits, { r with script.commits := r.script.commits.tail },
    s.note (.commit r.name m.offset))

def withhold (r : Reader) (m : Message) (s : Script) : Except Error Unit × Reader × Script :=
  if r.script.plain then (.ok (), r, s)
  else
    let again := if r.script.redeliver then [Fetched.message { m with key := none }] else []
    (next r.script.withholds,
      { r with
        script.withholds := r.script.withholds.tail
        script.fetches := again ++ r.script.fetches },
      s.note (.withhold r.name m.offset))

instance : Transport Script where
  Writer := Unit
  Reader := Reader
  Control := Empty
  probe s := (result s.probe, s.note .probe)
  openWriter s := (result s.writer, s.note .writer)
  write _ _ r s :=
    (next s.writes, { s.note (.write r.topic.name r.key r.value) with writes := s.writes.tail })
  closeWriter w s := (result s.writerClose, w, s.note .closeWriter)
  openReader := openReader
  fetch := fetch
  commit := commit
  withhold := withhold
  closeReader r s := (r, s.note (.closeReader r.name))
  control c _ := c.elim
  wakes c := c.elim

end Script

end Courier.Broker
