import Courier.Proofs.Broker.Ledger

/-!
# A ledger and all who deal with it

Any number of writers and readers deal with one ledger, and their requests come in any order:

* `Desk.serve`: what a request comes to. A fetch that finds nothing sleeps until it is woken, and
  it can be abandoned while it waits;
* `Serves`, `serve_serves`: everything that a request can do, said once;
* `Desk.after`, `Desk.replies`: what comes of one request after the other;
* `Spends`: a stock of faults that strikes one outcome after the other until it is spent.
-/

namespace Courier

/-- What is the same of an entry and of the one put in its place is the same of the whole list. -/
theorem map_set_of_eq {α β : Type} {f : α → β} {xs : List α} {x y : α} {k : Nat}
    (here : xs[k]? = some x) (same : f y = f x) : (xs.set k y).map f = xs.map f := by
  apply List.ext_getElem?
  intro j
  simp only [List.getElem?_map]
  by_cases mine : k = j
  · subst mine
    have bound := (List.getElem?_eq_some_iff.mp here).1
    simp [List.getElem?_set_self bound, here, same]
  · rw [List.getElem?_set_ne mine]

section
variable {β : Type} {struck spared : β → Prop} {n m l : Nat} {xs ys : List β}

/-- Of a stock of `n` faults one goes to each outcome, the first outcome first, until none is left.
What is struck and what is spared are told apart by what came of it. -/
structure Spends (struck spared : β → Prop) (n : Nat) (outcomes : List β) (left : Nat) : Prop where
  struck : ∀ (i : Nat) (x : β), outcomes[i]? = some x → i < n → struck x
  spared : ∀ (i : Nat) (x : β), outcomes[i]? = some x → n ≤ i → spared x
  left : left = n - outcomes.length

theorem Spends.none (n : Nat) : Spends struck spared n [] n := ⟨nofun, nofun, rfl⟩

theorem getElem?_single {x y : β} {i : Nat} (found : [x][i]? = some y) : i = 0 ∧ x = y := by
  rw [List.getElem?_singleton] at found
  split at found
  · next first => exact ⟨first, Option.some.inj found⟩
  · cases found

/-- While there is a fault, it goes to the next outcome. -/
theorem Spends.hit {x : β} (faulty : n ≠ 0) (hit : struck x) :
    Spends struck spared n [x] (n - 1) := by
  refine ⟨?_, ?_, rfl⟩
  · intro i y found _
    obtain ⟨-, rfl⟩ := getElem?_single found
    exact hit
  · intro i y found past
    obtain ⟨rfl, -⟩ := getElem?_single found
    omega

theorem Spends.miss {x : β} (none : n = 0) (miss : spared x) :
    Spends struck spared n [x] n := by
  subst none
  refine ⟨nofun, ?_, rfl⟩
  intro i y found _
  obtain ⟨-, rfl⟩ := getElem?_single found
  exact miss

/-- What is left over by some outcomes goes to those that come after them. -/
theorem Spends.append (first : Spends struck spared n xs m) (rest : Spends struck spared m ys l) :
    Spends struck spared n (xs ++ ys) l := by
  have left := first.left
  constructor
  case struck =>
    intro i x found below
    rw [List.getElem?_append] at found
    split at found
    · exact first.struck i x found below
    · exact rest.struck _ x found (by omega)
  case spared =>
    intro i x found past
    rw [List.getElem?_append] at found
    split at found
    · exact first.spared i x found past
    · exact rest.spared _ x found (by omega)
  case left =>
    rw [rest.left, left, List.length_append]
    omega

end

namespace Broker.Ledger

section
variable {b b' : Ledger}

theorem write_error {now : Nat} {w : Writer} {record : Record} {e : Error}
    (h : write now w record b = (.error e, b')) : b' = b := by
  unfold write at h
  split at h
  · exact (Prod.mk.inj h).2.symm
  · split at h
    · exact (Prod.mk.inj h).2.symm
    · simp at h

theorem write_refused {w : Writer} (fails : w.closed = true ∨ b.failWrites = true) (now : Nat)
    (record : Record) : ∃ e, write now w record b = (.error e, b) := by
  unfold write
  split
  · exact ⟨_, rfl⟩
  · next isOpen =>
    obtain closed | failing := fails
    · exact absurd closed isOpen
    · rw [if_pos failing]
      exact ⟨_, rfl⟩

theorem write_ok {now : Nat} {w : Writer} {record : Record}
    (h : write now w record b = (.ok (), b')) :
    b' = b.append record.topic.name (b.entry now record) := by
  unfold write at h
  split at h
  · simp at h
  · split at h
    · simp at h
    · exact (Prod.mk.inj h).2.symm

end

/-- How the fetch of a reader stands. -/
inductive Fetching where
  | idle
  /-- It found nothing and waits. -/
  | asleep
  /-- It was woken and has not looked again. -/
  | woken
  deriving DecidableEq

/-- A reader and its fetch. While the fetch is under way the reader does nothing else. -/
structure Seat where
  reader : Reader
  fetching : Fetching := .idle

def Seat.rouse (s : Seat) : Seat :=
  match s.fetching with
  | .asleep => { s with fetching := .woken }
  | _ => s

/-- A ledger with its writers and its readers. -/
structure Desk where
  ledger : Ledger := {}
  writers : List Writer := []
  seats : List Seat := []

inductive Request where
  | probe
  | openWriter
  | write (writer now : Nat) (r : Record)
  | closeWriter (writer : Nat)
  | openReader (topic : Topic) (group : String)
  /-- A fetch begins, or one that was woken looks again. -/
  | fetch (reader : Nat)
  /-- A fetch that waits is given up. -/
  | abandon (reader : Nat)
  | commit (reader : Nat) (m : Message)
  | withhold (reader : Nat) (m : Message)
  | closeReader (reader : Nat)
  | control (c : Control)

inductive Reply where
  | done
  | probed (r : Except Error Unit)
  | wrote (r : Except Error Unit)
  | fetched (f : Fetched)
  | committed (r : Except Error Unit)

def Fetching.after : Fetched → Fetching
  | .nothing => asleep
  | _ => idle

namespace Desk

/-- Every fetch that sleeps is woken. -/
def rouse (d : Desk) : Desk := { d with seats := d.seats.map Seat.rouse }

def setSeat (d : Desk) (k : Nat) (s : Seat) : Desk := { d with seats := d.seats.set k s }

/-- Reader `k`, if no fetch of its is under way. -/
def free (d : Desk) (k : Nat) : Option Reader :=
  match d.seats[k]? with
  | some ⟨reader, .idle⟩ => some reader
  | _ => none

/-- The reply to a request and the desk after it, if there is someone who can make the request. -/
def serve (d : Desk) : Request → Option (Reply × Desk)
  | .probe =>
    let (r, ledger) := d.ledger.probe
    some (.probed r, { d with ledger })
  | .openWriter => some (.done, { d with writers := d.writers ++ [{}] })
  | .write w now r => d.writers[w]?.map fun writer =>
      let (result, ledger) := Ledger.write now writer r d.ledger
      (.wrote result, match result with
        | .ok () => { d with ledger }.rouse
        | .error _ => { d with ledger })
  | .closeWriter w => d.writers[w]?.map fun writer =>
      (.done, { d with writers := d.writers.set w { writer with closed := true } })
  | .openReader topic group =>
    some (.done, { d with seats := d.seats ++ [{ reader := d.ledger.openReader topic group }] })
  | .fetch k =>
    match d.seats[k]? with
    | none => none
    | some seat =>
      if seat.fetching = .asleep then none else
      let (fetched, reader, ledger) := Ledger.fetch seat.reader d.ledger
      some (.fetched fetched, { d with ledger }.setSeat k ⟨reader, .after fetched⟩)
  | .abandon k =>
    match d.seats[k]? with
    | none => none
    | some seat =>
      if seat.fetching = .idle then none else
      some (.done, d.setSeat k { seat with fetching := .idle })
  | .commit k m => (d.free k).map fun reader =>
      let (r, reader, ledger) := Ledger.commit reader m d.ledger
      (.committed r, { d with ledger }.setSeat k { reader })
  | .withhold k m => (d.free k).map fun reader =>
      let (_, reader, ledger) := Ledger.withhold reader m d.ledger
      (.done, { d with ledger }.setSeat k { reader })
  | .closeReader k => (d.free k).map fun reader =>
      (.done, d.setSeat k { reader := { reader with closed := true } })
  | .control c =>
    let d := { d with ledger := d.ledger.control c }
    some (.done, if c matches .closeReaders then d.rouse else d)

/-- The desk after some requests. Those that nobody can make are left out. -/
def after (d : Desk) : List Request → Desk
  | [] => d
  | q :: requests =>
    match d.serve q with
    | some (_, v) => v.after requests
    | none => d.after requests

def replies (d : Desk) : List Request → List Reply
  | [] => []
  | q :: requests =>
    match d.serve q with
    | some (reply, v) => reply :: v.replies requests
    | none => d.replies requests

/-- Everything that a request can do. -/
inductive Serves (d : Desk) : Request → Reply → Desk → Prop where
  | probe : Serves d .probe (.probed d.ledger.probe.1) { d with ledger := d.ledger.probe.2 }
  | openWriter : Serves d .openWriter .done { d with writers := d.writers ++ [{}] }
  | write {w now : Nat} {r : Record} {writer : Writer} {ledger : Ledger}
    (here : d.writers[w]? = some writer)
    (written : Ledger.write now writer r d.ledger = (.ok (), ledger)) :
    Serves d (.write w now r) (.wrote (.ok ())) { d with ledger }.rouse
  | refuse {w now : Nat} {r : Record} {writer : Writer} {e : Error} {ledger : Ledger}
    (here : d.writers[w]? = some writer)
    (refused : Ledger.write now writer r d.ledger = (.error e, ledger)) :
    Serves d (.write w now r) (.wrote (.error e)) { d with ledger }
  | closeWriter {w : Nat} {writer : Writer} (here : d.writers[w]? = some writer) :
    Serves d (.closeWriter w) .done
      { d with writers := d.writers.set w { writer with closed := true } }
  | openReader (topic : Topic) (group : String) : Serves d (.openReader topic group) .done
      { d with seats := d.seats ++ [{ reader := d.ledger.openReader topic group }] }
  | fetch {k : Nat} {seat : Seat} {f : Fetched} {reader : Reader} {ledger : Ledger}
    (here : d.seats[k]? = some seat) (awake : seat.fetching ≠ .asleep)
    (fetched : Ledger.fetch seat.reader d.ledger = (f, reader, ledger)) :
    Serves d (.fetch k) (.fetched f) ({ d with ledger }.setSeat k ⟨reader, .after f⟩)
  | abandon {k : Nat} {seat : Seat} (here : d.seats[k]? = some seat)
    (waits : seat.fetching ≠ .idle) :
    Serves d (.abandon k) .done (d.setSeat k { seat with fetching := .idle })
  | commit {k : Nat} {m : Message} {reader reader' : Reader} {r : Except Error Unit}
    {ledger : Ledger} (here : d.seats[k]? = some { reader })
    (committed : Ledger.commit reader m d.ledger = (r, reader', ledger)) :
    Serves d (.commit k m) (.committed r) ({ d with ledger }.setSeat k { reader := reader' })
  | withhold {k : Nat} {m : Message} {reader : Reader} (here : d.seats[k]? = some { reader }) :
    Serves d (.withhold k m) .done (d.setSeat k { reader := { reader with cursor := m.offset } })
  | closeReader {k : Nat} {reader : Reader} (here : d.seats[k]? = some { reader }) :
    Serves d (.closeReader k) .done (d.setSeat k { reader := { reader with closed := true } })
  | control {c : Control} (other : c ≠ .closeReaders) :
    Serves d (.control c) .done { d with ledger := d.ledger.control c }
  | closeReaders : Serves d (.control .closeReaders) .done
      { d with ledger := d.ledger.closeReaders }.rouse

variable {d v : Desk}

theorem free_eq_some {k : Nat} {reader : Reader} :
    d.free k = some reader ↔ d.seats[k]? = some { reader } := by
  unfold free
  split
  · next here => simp [here]
  · next other =>
    constructor
    · exact nofun
    · intro here
      exact absurd here (other reader)

theorem serve_serves {q : Request} {reply : Reply} (served : d.serve q = some (reply, v)) :
    Serves d q reply v := by
  cases q with
  | probe =>
    obtain ⟨rfl, rfl⟩ := Prod.mk.inj (Option.some.inj served)
    exact .probe
  | openWriter =>
    obtain ⟨rfl, rfl⟩ := Prod.mk.inj (Option.some.inj served)
    exact .openWriter
  | write w now r =>
    obtain ⟨writer, here, eq⟩ := Option.map_eq_some_iff.mp served
    rcases written : Ledger.write now writer r d.ledger with ⟨result, ledger⟩
    simp only [written] at eq
    obtain ⟨rfl, rfl⟩ := Prod.mk.inj eq
    cases result with
    | ok => exact .write here written
    | error e => exact .refuse here written
  | closeWriter w =>
    obtain ⟨writer, here, eq⟩ := Option.map_eq_some_iff.mp served
    obtain ⟨rfl, rfl⟩ := Prod.mk.inj eq
    exact .closeWriter here
  | openReader topic group =>
    obtain ⟨rfl, rfl⟩ := Prod.mk.inj (Option.some.inj served)
    exact .openReader topic group
  | fetch k =>
    simp only [serve] at served
    split at served
    · cases served
    · next seat here =>
      split at served
      · cases served
      · next awake =>
        obtain ⟨rfl, rfl⟩ := Prod.mk.inj (Option.some.inj served)
        exact .fetch here awake rfl
  | abandon k =>
    simp only [serve] at served
    split at served
    · cases served
    · next seat here =>
      split at served
      · cases served
      · next waits =>
        obtain ⟨rfl, rfl⟩ := Prod.mk.inj (Option.some.inj served)
        exact .abandon here waits
  | commit k m =>
    obtain ⟨reader, here, eq⟩ := Option.map_eq_some_iff.mp served
    obtain ⟨rfl, rfl⟩ := Prod.mk.inj eq
    exact .commit (free_eq_some.mp here) rfl
  | withhold k m =>
    obtain ⟨reader, here, eq⟩ := Option.map_eq_some_iff.mp served
    obtain ⟨rfl, rfl⟩ := Prod.mk.inj eq
    exact .withhold (free_eq_some.mp here)
  | closeReader k =>
    obtain ⟨reader, here, eq⟩ := Option.map_eq_some_iff.mp served
    obtain ⟨rfl, rfl⟩ := Prod.mk.inj eq
    exact .closeReader (free_eq_some.mp here)
  | control c =>
    obtain ⟨rfl, rfl⟩ := Prod.mk.inj (Option.some.inj served)
    cases c with
    | closeReaders => exact .closeReaders
    | failProbe | failWrites | failCommits | failFetches => exact .control nofun

/-- What every request keeps, and any that is left out, a run keeps. -/
theorem after_induct {P : Desk → Prop} (requests : List Request) (start : P d)
    (step : ∀ d v q reply, q ∈ requests → Serves d q reply v → P d → P v) :
    P (d.after requests) := by
  induction requests generalizing d with
  | nil => exact start
  | cons q requests ih =>
    have step' := fun d v q' reply member => step d v q' reply (List.mem_cons_of_mem q member)
    unfold after
    split
    · next reply v served =>
      exact ih (step d v q reply List.mem_cons_self (serve_serves served) start) step'
    · exact ih start step'

/-- A stock of faults is spent in a run as it is spent by each request. -/
theorem spends {β : Type} {struck spared : β → Prop} (stock : Desk → Nat)
    (outcome : Reply → Option β) (requests : List Request)
    (step : ∀ d v q reply, q ∈ requests → Serves d q reply v →
      Spends struck spared (stock d) (outcome reply).toList (stock v)) (d : Desk) :
    Spends struck spared (stock d) ((d.replies requests).filterMap outcome)
      (stock (d.after requests)) := by
  induction requests generalizing d with
  | nil => exact .none _
  | cons q requests ih =>
    have step' := fun d v q' reply member => step d v q' reply (List.mem_cons_of_mem q member)
    unfold after replies
    split
    · next reply v served =>
      have first := step d v q reply List.mem_cons_self (serve_serves served)
      have rest := first.append (ih step' v)
      rw [List.filterMap_cons]
      cases happened : outcome reply <;> simpa [happened] using rest
    · exact ih step' d

end Desk

end Broker.Ledger

end Courier
