import Courier.Broker.Transport

/-! A broker within the process: one log of messages for each topic, and for each group the
offset it has committed on each topic.

* `log_append` and `committed_setCommitted` say what writing and committing change;
* a failing operation changes nothing but the number of faults still to come. -/
namespace Courier.Broker

structure Ledger where
  log : String → List Message := fun _ => []
  committed : String → String → Option Int := fun _ _ => none
  /-- A reader of an earlier epoch has lost its stream. -/
  epoch : Nat := 0
  probes : Nat := 0
  commits : Nat := 0
  failProbe : Bool := false
  failWrites : Bool := false
  /-- The next so many commits fail. -/
  commitFaults : Nat := 0
  /-- The next so many fetches fail. -/
  fetchFaults : Nat := 0

namespace Ledger

structure Writer where
  closed : Bool := false

structure Reader where
  topic : String
  group : String
  cursor : Int
  epoch : Nat
  closed : Bool := false
  deriving DecidableEq, Repr

def unreachable : Error := ⟨.connectivity, "failed to connect to Kafka: broker unreachable"⟩

def writerClosed : Error := ⟨.delivery, "failed to publish message: writer is closed"⟩

def writeRejected : Error := ⟨.delivery, "failed to publish message: write rejected"⟩

def brokerUnavailable : Error := ⟨.fetch, "fetch failed: broker not available"⟩

def readerClosed : Error := ⟨.streamClosed, "reader closed"⟩

def coordinatorUnavailable : Error :=
  ⟨.commit, "failed to commit message: coordinator not available"⟩

def append (ledger : Ledger) (topic : String) (m : Message) : Ledger :=
  { ledger with log := fun t => if t = topic then ledger.log t ++ [m] else ledger.log t }

/-- The group goes on after the given offset, whatever it had committed before. -/
def setCommitted (ledger : Ledger) (topic group : String) (next : Int) : Ledger :=
  { ledger with
    committed := fun t g => if t = topic ∧ g = group then some next else ledger.committed t g }

/-- The message a record becomes at the end of its log. -/
def entry (ledger : Ledger) (now : Nat) (r : Record) : Message where
  topic := r.topic.name
  payload := r.value
  partition := 0
  offset := (ledger.log r.topic.name).length
  key := r.key
  timestamp := some now

def probe (ledger : Ledger) : Except Error Unit × Ledger :=
  (if ledger.failProbe then .error unreachable else .ok (),
    { ledger with probes := ledger.probes + 1 })

def write (now : Nat) (w : Writer) (r : Record) (ledger : Ledger) : Except Error Unit × Ledger :=
  if w.closed then (.error writerClosed, ledger)
  else if ledger.failWrites then (.error writeRejected, ledger)
  else (.ok (), ledger.append r.topic.name (ledger.entry now r))

/-- A group starts where it left off, at first at the beginning. -/
def openReader (topic : Topic) (group : String) (ledger : Ledger) : Reader where
  topic := topic.name
  group
  cursor := (ledger.committed topic.name group).getD 0
  epoch := ledger.epoch

/-- The entry under a cursor. Before the start and past the end of a log there is none. -/
def at? (ledger : Ledger) (topic : String) (cursor : Int) : Option Message :=
  if cursor < 0 then none else (ledger.log topic)[cursor.toNat]?

/-- A fault still to come goes first, then the end of the stream, then the message. -/
def fetch (r : Reader) (ledger : Ledger) : Fetched × Reader × Ledger :=
  if ledger.fetchFaults ≠ 0 then
    (.transient brokerUnavailable, r, { ledger with fetchFaults := ledger.fetchFaults - 1 })
  else if r.closed || r.epoch != ledger.epoch then (.closed readerClosed, r, ledger)
  else
    match ledger.at? r.topic r.cursor with
    | some m => (.message m, { r with cursor := r.cursor + 1 }, ledger)
    | none => (.nothing, r, ledger)

def commit (r : Reader) (m : Message) (ledger : Ledger) : Except Error Unit × Reader × Ledger :=
  let ledger := { ledger with commits := ledger.commits + 1 }
  if ledger.commitFaults ≠ 0 then
    (.error coordinatorUnavailable, r, { ledger with commitFaults := ledger.commitFaults - 1 })
  else (.ok (), r, ledger.setCommitted r.topic r.group (m.offset + 1))

def withhold (r : Reader) (m : Message) (ledger : Ledger) : Except Error Unit × Reader × Ledger :=
  (.ok (), { r with cursor := m.offset }, ledger)

inductive Control where
  | failProbe (on : Bool)
  | failWrites (on : Bool)
  | failCommits (n : Nat)
  | failFetches (n : Nat)
  | closeReaders
  deriving DecidableEq, Repr

/-- Every reader there is loses its stream; readers opened later are not concerned. -/
def closeReaders (ledger : Ledger) : Ledger := { ledger with epoch := ledger.epoch + 1 }

def control (ledger : Ledger) : Control → Ledger
  | .failProbe on => { ledger with failProbe := on }
  | .failWrites on => { ledger with failWrites := on }
  | .failCommits n => { ledger with commitFaults := n }
  | .failFetches n => { ledger with fetchFaults := n }
  | .closeReaders => ledger.closeReaders

instance : Transport Ledger where
  Writer := Writer
  Reader := Reader
  Control := Control
  probe := probe
  openWriter ledger := (.ok {}, ledger)
  write := write
  closeWriter w ledger := (.ok (), { w with closed := true }, ledger)
  openReader topic group ledger := (.ok (ledger.openReader topic group), ledger)
  fetch := fetch
  commit := commit
  withhold := withhold
  closeReader r ledger := ({ r with closed := true }, ledger)
  control c ledger := ledger.control c
  wakes c := c matches .closeReaders

theorem log_append (ledger : Ledger) (topic t : String) (m : Message) :
    (ledger.append topic m).log t = ledger.log t ++ if t = topic then [m] else [] := by
  by_cases h : t = topic <;> simp [append, h]

theorem committed_setCommitted (ledger : Ledger) (topic group t g : String) (next : Int) :
    (ledger.setCommitted topic group next).committed t g =
      if t = topic ∧ g = group then some next else ledger.committed t g := rfl

end Ledger

end Courier.Broker
