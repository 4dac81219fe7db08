import Courier.Proofs.Broker.Desk
import Courier.Proofs.Queue.Journal

/-!
# What fails changes nothing

A ledger can be told to fail. What fails leaves the logs, the offsets and the cursors as they were,
and the faults go to the attempts that come first, whoever makes them:

* `commit_spends`, `fetch_spends`: a commit takes a fault if there is one, and so does a fetch that
  comes to an end. One that finds nothing takes none;
* `Desk.FaultLaw`: the law for any writers and readers that deal with a ledger;
* `World.FaultLaw`: the law for queues and their loops;
* `fault_law`: both hold whatever happened before.
-/

namespace Courier

open Broker (Ledger Fetched)

namespace Broker

def Fetched.answer : Fetched → Option Fetched
  | .nothing => none
  | f => some f

namespace Ledger

section
variable {r r' : Reader} {b b' : Ledger}

/-- A commit takes a fault if there is one. -/
theorem commit_spends {m : Message} {result : Except Error Unit}
    (h : commit r m b = (result, r', b')) :
    Spends (· = .error coordinatorUnavailable) (· = .ok ()) b.commitFaults [result]
      b'.commitFaults := by
  unfold commit at h
  simp only at h
  split at h
  · next fault =>
    simp only [Prod.mk.injEq] at h
    obtain ⟨rfl, -, rfl⟩ := h
    exact .hit fault rfl
  · next none =>
    simp only [Prod.mk.injEq] at h
    obtain ⟨rfl, -, rfl⟩ := h
    exact .miss (by simpa using none) rfl

theorem commit_fetchFaults {m : Message} {result : Except Error Unit}
    (h : commit r m b = (result, r', b')) : b'.fetchFaults = b.fetchFaults := by
  unfold commit at h
  simp only at h
  split at h <;>
    (simp only [Prod.mk.injEq] at h; obtain ⟨-, -, rfl⟩ := h; rfl)

/-- A fetch that comes to an end takes a fault if there is one, and one that goes on takes none. -/
theorem fetch_spends {f : Fetched} (h : fetch r b = (f, r', b')) :
    Spends (· = .transient brokerUnavailable) (fun f => ∀ e, f ≠ .transient e) b.fetchFaults
      f.answer.toList b'.fetchFaults := by
  unfold fetch at h
  split at h
  · next fault =>
    simp only [Prod.mk.injEq] at h
    obtain ⟨rfl, -, rfl⟩ := h
    exact .hit fault rfl
  · next none =>
    have none : b.fetchFaults = 0 := by simpa using none
    split at h
    · simp only [Prod.mk.injEq] at h
      obtain ⟨rfl, -, rfl⟩ := h
      exact .miss none nofun
    · split at h
      · simp only [Prod.mk.injEq] at h
        obtain ⟨rfl, -, rfl⟩ := h
        exact .miss none nofun
      · simp only [Prod.mk.injEq] at h
        obtain ⟨rfl, -, rfl⟩ := h
        exact .none _

theorem fetch_commitFaults {f : Fetched} (h : fetch r b = (f, r', b')) :
    b'.commitFaults = b.commitFaults := by
  cases f with
  | nothing => rw [(fetch_nothing h).2.1]
  | message m => rw [(fetch_message h).2.1]
  | closed e => rw [(fetch_closed h).2.1]
  | transient e => rw [(fetch_transient h).2.1]

/-- Only to be told so changes how many commits, and how many fetches, are to fail. -/
theorem control_faults (b : Ledger) (c : Control) :
    ((∀ n, c ≠ .failCommits n) → (b.control c).commitFaults = b.commitFaults) ∧
      ((∀ n, c ≠ .failFetches n) → (b.control c).fetchFaults = b.fetchFaults) := by
  cases c <;> simp [control, closeReaders]

end

def Reply.isFailure : Reply → Bool
  | .probed (.error _) | .wrote (.error _) | .committed (.error _) => true
  | .fetched (.transient _) | .fetched (.closed _) => true
  | _ => false

def Reply.commit : Reply → Option (Except Error Unit)
  | .committed r => some r
  | _ => none

def Reply.fetch : Reply → Option Fetched
  | .fetched f => f.answer
  | _ => none

namespace Desk

/-- The logs, the offsets, the writers and the readers with their cursors are the same. -/
structure Unmoved (d v : Desk) : Prop where
  ledger : d.ledger.Alike v.ledger
  writers : v.writers = d.writers
  readers : v.seats.map (·.reader) = d.seats.map (·.reader)

/-- The law of faults, for all who deal with a ledger. -/
structure FaultLaw (d : Desk) : Prop where
  failed : ∀ q reply v, d.serve q = some (reply, v) → reply.isFailure = true → Unmoved d v
  /-- A write through a closed writer, or when writes fail, is refused and that is all. -/
  refused : ∀ w now r writer, d.writers[w]? = some writer →
    writer.closed = true ∨ d.ledger.failWrites = true →
    ∃ e, d.serve (.write w now r) = some (.wrote (.error e), d)
  /-- Until it is told otherwise, the ledger fails the first `n` commits and no other. -/
  commits : ∀ n requests, (∀ m, .control (.failCommits m) ∉ requests) →
    let start := d.after [.control (.failCommits n)]
    Spends (· = .error coordinatorUnavailable) (· = .ok ()) n
      ((start.replies requests).filterMap Reply.commit) (start.after requests).ledger.commitFaults
  /-- Until it is told otherwise, the ledger fails the first `n` fetches that come to an end, and no
  other. -/
  fetches : ∀ n requests, (∀ m, .control (.failFetches m) ∉ requests) →
    let start := d.after [.control (.failFetches n)]
    Spends (· = .transient brokerUnavailable) (fun f => ∀ e, f ≠ .transient e) n
      ((start.replies requests).filterMap Reply.fetch) (start.after requests).ledger.fetchFaults
  waits : ∀ k v, d.serve (.fetch k) = some (.fetched .nothing, v) →
    v.ledger = d.ledger ∧ Unmoved d v
  /-- A fetch that is abandoned has taken no fault and moved no cursor. -/
  abandoned : ∀ k reply v, d.serve (.abandon k) = some (reply, v) →
    v.ledger = d.ledger ∧ Unmoved d v
  /-- Every attempt is answered. -/
  attempted : ∀ k seat, d.seats[k]? = some seat →
    (seat.fetching ≠ .asleep → ∃ f v, d.serve (.fetch k) = some (.fetched f, v)) ∧
      (seat.fetching = .idle → ∀ m, ∃ r v, d.serve (.commit k m) = some (.committed r, v))

variable {d v : Desk}

theorem Serves.failed {q : Request} {reply : Reply} (serves : Serves d q reply v)
    (failure : reply.isFailure = true) : Unmoved d v := by
  cases serves with
  | probe => exact ⟨⟨rfl, rfl⟩, rfl, rfl⟩
  | refuse here refused =>
    obtain rfl := write_error refused
    exact ⟨.refl _, rfl, rfl⟩
  | @fetch k seat f reader ledger here awake fetched =>
    cases f with
    | nothing | message => cases failure
    | transient e =>
      obtain ⟨rfl, rfl, -⟩ := fetch_transient fetched
      exact ⟨⟨rfl, rfl⟩, rfl, map_set_of_eq here rfl⟩
    | closed e =>
      obtain ⟨rfl, rfl, -⟩ := fetch_closed fetched
      exact ⟨.refl _, rfl, map_set_of_eq here rfl⟩
  | @commit k m reader reader' r ledger here committed =>
    cases r with
    | ok => cases failure
    | error e =>
      obtain rfl := commit_reader committed
      exact ⟨commit_error committed, rfl, map_set_of_eq here rfl⟩
  | write | openWriter | closeWriter | openReader | abandon | withhold | closeReader | control
  | closeReaders => cases failure

theorem Serves.commit_spends {q : Request} {reply : Reply} (serves : Serves d q reply v)
    (other : ∀ m, q ≠ .control (.failCommits m)) :
    Spends (· = .error coordinatorUnavailable) (· = .ok ()) d.ledger.commitFaults
      reply.commit.toList v.ledger.commitFaults := by
  cases serves with
  | commit here committed => exact Ledger.commit_spends committed
  | write here written =>
    obtain rfl := write_ok written
    exact .none _
  | refuse here refused =>
    obtain rfl := write_error refused
    exact .none _
  | fetch here awake fetched =>
    have same : _ = d.ledger.commitFaults := fetch_commitFaults fetched
    exact same ▸ .none _
  | control =>
    have same := (control_faults d.ledger _).1 fun n eq => other n (congrArg _ eq)
    exact same ▸ .none _
  | probe | openWriter | closeWriter | openReader | abandon | withhold | closeReader
  | closeReaders => exact .none _

theorem Serves.fetch_spends {q : Request} {reply : Reply} (serves : Serves d q reply v)
    (other : ∀ m, q ≠ .control (.failFetches m)) :
    Spends (· = .transient brokerUnavailable) (fun f => ∀ e, f ≠ .transient e)
      d.ledger.fetchFaults reply.fetch.toList v.ledger.fetchFaults := by
  cases serves with
  | fetch here awake fetched => exact Ledger.fetch_spends fetched
  | write here written =>
    obtain rfl := write_ok written
    exact .none _
  | refuse here refused =>
    obtain rfl := write_error refused
    exact .none _
  | commit here committed =>
    have same : _ = d.ledger.fetchFaults := commit_fetchFaults committed
    exact same ▸ .none _
  | control =>
    have same := (control_faults d.ledger _).2 fun n eq => other n (congrArg _ eq)
    exact same ▸ .none _
  | probe | openWriter | closeWriter | openReader | abandon | withhold | closeReader
  | closeReaders => exact .none _

theorem faultLaw (d : Desk) : FaultLaw d := by
  constructor
  case failed => exact fun q reply v served => (serve_serves served).failed
  case refused =>
    intro w now r writer here fails
    obtain ⟨e, refused⟩ := write_refused fails now r
    exact ⟨e, by simp [serve, here, refused]⟩
  case commits =>
    intro n requests untold start
    refine spends (·.ledger.commitFaults) Reply.commit requests ?_ start
    intro d v q reply member serves
    exact serves.commit_spends fun m eq => untold m (eq ▸ member)
  case fetches =>
    intro n requests untold start
    refine spends (·.ledger.fetchFaults) Reply.fetch requests ?_ start
    intro d v q reply member serves
    exact serves.fetch_spends fun m eq => untold m (eq ▸ member)
  case waits =>
    intro k v served
    cases serve_serves served with
    | fetch here awake fetched =>
      obtain ⟨rfl, rfl, -⟩ := fetch_nothing fetched
      exact ⟨rfl, .refl _, rfl, map_set_of_eq here rfl⟩
  case abandoned =>
    intro k reply v served
    cases serve_serves served with
    | abandon here => exact ⟨rfl, .refl _, rfl, map_set_of_eq here rfl⟩
  case attempted =>
    intro k seat here
    constructor
    · intro awake
      simp only [serve, here, awake, ↓reduceIte, Option.some.injEq, Prod.mk.injEq]
      exact ⟨_, _, rfl, rfl⟩
    · intro idle m
      have free : d.free k = some seat.reader := free_eq_some.mpr (by rw [here, ← idle])
      simp only [serve, free, Option.map_some, Option.some.injEq, Prod.mk.injEq]
      exact ⟨_, _, rfl, rfl⟩

/-- Two fetches wait when a fault is set, and one of them is abandoned. The fault strikes the other
one, though the write that woke it was for its topic. -/
example : (({} : Desk).replies [
      .openWriter, .openReader ⟨"orders", rfl⟩ "audit", .openReader ⟨"orders", rfl⟩ "billing",
      .fetch 0, .fetch 1, .control (.failFetches 1),
      .write 0 0 ⟨⟨"orders", rfl⟩, none, [65]⟩, .abandon 0, .fetch 1, .fetch 0]).filterMap
      (fun reply => reply.fetch.map (· matches .transient _)) = [true, false] := by
  decide

end Desk

end Ledger

end Broker

namespace Queue

open Broker.Ledger (brokerUnavailable coordinatorUnavailable)

def Act.commitResult : Act → Option (Except Error Unit)
  | .committed _ r => some r
  | _ => none

/-- What a fetch came to that the loop has survived. -/
def Act.fetchResult : Act → Option Fetched
  | .delivered m => some (.message m)
  | .fetchFailed e => some (.transient e)
  | _ => none

def Act.isFailure : Act → Bool
  | .committed _ (.error _) | .fetchFailed _ => true
  | _ => false

def Note.isFailure : Note α → Bool
  | .act _ _ a => a.isFailure
  | .published _ ok => !ok
  | _ => false

theorem isFailure_of_said {n : Note α} (said : n.isSaid = true) : n.isFailure = false := by
  cases n with
  | heard | line => rfl
  | act | published => cases said

/-- A stock of faults on which nothing but the turns of loops draws. -/
structure Draws {β : Type} (α : Type) (struck spared : β → Prop) (stock : Ledger → Nat)
    (outcome : Act → Option β) : Prop where
  turn : ∀ (k now : Nat) (b : Ledger) (l : ReadLoop Ledger α) (t : Turn Ledger α),
    l.Takes k now b t → Spends struck spared (stock b)
      ((t.notes.filterMap Note.deed).filterMap outcome) (stock t.broker)
  append : ∀ b topic m, stock (b.append topic m) = stock b
  probe : ∀ b, stock b.probe.2 = stock b

section
variable {k now : Nat} {b : Ledger} {l : ReadLoop Ledger α} {t : Turn Ledger α}

theorem takes_commit_spends (takes : l.Takes k now b t) :
    Spends (· = .error coordinatorUnavailable) (· = .ok ()) b.commitFaults
      ((t.notes.filterMap Note.deed).filterMap Act.commitResult) t.broker.commitFaults := by
  cases takes with
  | stop | leave | rise | fail =>
    simpa [List.filterMap_cons, Act.commitResult] using .none b.commitFaults
  | park _ _ fetched | falter _ _ fetched | deliver _ _ fetched =>
    have same := Ledger.fetch_commitFaults fetched
    simpa [List.filterMap_cons, Act.commitResult, same] using .none b.commitFaults
  | @lose _ b' _ _ _ fetched =>
    obtain ⟨-, rfl, -⟩ := Ledger.fetch_closed fetched
    simpa [List.filterMap_cons, Act.commitResult] using .none b'.commitFaults
  | accept _ _ committed =>
    simpa [List.filterMap_cons, Act.commitResult] using Ledger.commit_spends committed
  | reject _ _ withheld =>
    obtain ⟨-, -, rfl⟩ := Ledger.withhold_eq withheld
    simpa [List.filterMap_cons, Act.commitResult] using .none _

theorem takes_fetch_spends (takes : l.Takes k now b t) :
    Spends (· = .transient brokerUnavailable) (fun f => ∀ e, f ≠ .transient e) b.fetchFaults
      ((t.notes.filterMap Note.deed).filterMap Act.fetchResult) t.broker.fetchFaults := by
  cases takes with
  | stop | leave | rise | fail =>
    simpa [List.filterMap_cons, Act.fetchResult] using .none b.fetchFaults
  | park _ _ fetched | deliver _ _ fetched | falter _ _ fetched =>
    simpa [List.filterMap_cons, Act.fetchResult, Fetched.answer] using Ledger.fetch_spends fetched
  | @lose _ b' _ _ _ fetched =>
    obtain ⟨-, rfl, -⟩ := Ledger.fetch_closed fetched
    simpa [List.filterMap_cons, Act.fetchResult] using .none b'.fetchFaults
  | accept _ _ committed =>
    have same := Ledger.commit_fetchFaults committed
    simpa [List.filterMap_cons, Act.fetchResult, same] using .none b.fetchFaults
  | reject _ _ withheld =>
    obtain ⟨-, -, rfl⟩ := Ledger.withhold_eq withheld
    simpa [List.filterMap_cons, Act.fetchResult] using .none _

theorem commits_draw : Draws α (· = .error coordinatorUnavailable) (· = .ok ())
    (·.commitFaults) Act.commitResult :=
  ⟨fun _ _ _ _ _ => takes_commit_spends, fun _ _ _ => rfl, fun _ => rfl⟩

theorem fetches_draw : Draws α (· = .transient brokerUnavailable) (fun f => ∀ e, f ≠ .transient e)
    (·.fetchFaults) Act.fetchResult :=
  ⟨fun _ _ _ _ _ => takes_fetch_spends, fun _ _ _ => rfl, fun _ => rfl⟩

/-- A failure changes no log, no offset and nothing of the loop's reader. -/
theorem takes_failed (takes : l.Takes k now b t) {a : Act}
    (did : a ∈ t.notes.filterMap Note.deed) (failure : a.isFailure = true) :
    b.Alike t.broker ∧ t.loop.reader = l.reader := by
  cases takes with
  | falter _ _ fetched =>
    obtain ⟨same, rfl, -⟩ := Ledger.fetch_transient fetched
    exact ⟨⟨rfl, rfl⟩, same⟩
  | @accept _ _ m _ r _ _ committed =>
    cases r with
    | error e => exact ⟨Ledger.commit_error committed, Ledger.commit_reader committed⟩
    | ok =>
      obtain rfl | rfl : a = .answered m true ∨ a = .committed m (.ok ()) := by simpa using did
      · cases failure
      · cases failure
  | reject =>
    simp at did
    obtain rfl | rfl | rfl := did <;> cases failure
  | stop | leave | lose | deliver =>
    obtain rfl : a = _ := by simpa [List.filterMap_cons] using did
    cases failure
  | park | rise | fail => simp at did

/-- A turn that ends the loop, and one that finds nothing, changes nothing of the ledger and no
cursor. -/
theorem takes_idle (takes : l.Takes k now b t) (idle : t.loop.phase = .ended ∨
    t.loop.phase = .parked) : t.broker = b ∧ t.loop.reader.cursor = l.reader.cursor := by
  cases takes with
  | stop | leave => exact ⟨rfl, rfl⟩
  | park _ _ fetched =>
    obtain ⟨rfl, rfl, -⟩ := Ledger.fetch_nothing fetched
    exact ⟨rfl, rfl⟩
  | lose _ _ fetched =>
    obtain ⟨rfl, rfl, -⟩ := Ledger.fetch_closed fetched
    exact ⟨rfl, rfl⟩
  | @deliver _ _ _ r => cases r <;> simp [phaseAfter] at idle
  | falter | accept | reject | rise | fail => simp at idle

end

namespace World

def cursors (w : World Ledger α) : List Int := w.loops.map (·.reader.cursor)

theorem cursors_kept {w v : World Ledger α} (h : KeptAll w.loops v.loops) :
    v.cursors = w.cursors :=
  h.map_eq fun l l' kept => by rw [kept.reader]

theorem cursors_turned {w : World Ledger α} {k : Nat} {l : ReadLoop Ledger α}
    {t : Turn Ledger α} (here : w.loops[k]? = some l)
    (same : t.loop.reader.cursor = l.reader.cursor) : (w.turned k t).cursors = w.cursors :=
  map_set_of_eq here same

section
variable {β : Type} {struck spared : β → Prop} {stock : Ledger → Nat} {outcome : Act → Option β}
variable {w v : World Ledger α}

theorem Quiet.spends (quiet : Quiet w v) (same : stock v.broker = stock w.broker) :
    ∃ since, v.notes = w.notes ++ since ∧ Spends struck spared (stock w.broker)
      ((since.filterMap Note.deed).filterMap outcome) (stock v.broker) := by
  obtain ⟨said, noted, all⟩ := quiet
  refine ⟨said, noted, ?_⟩
  rw [deeds_of_said all, same]
  exact .none _

/-- A move draws on a stock of faults as a turn does, or not at all. -/
theorem Entry.spends {c : Option Ledger.Control} {p : Option (Record × Bool)}
    (entry : Entry w v c p) (draws : Draws α struck spared stock outcome)
    (untold : ∀ c' ∈ c, ∀ b, stock (b.control c') = stock b) :
    ∃ since, v.notes = w.notes ++ since ∧ Spends struck spared (stock w.broker)
      ((since.filterMap Note.deed).filterMap outcome) (stock v.broker) := by
  cases entry with
  | @turn k l t here takes eq =>
    subst eq
    exact ⟨t.notes, notes_turned w k t, draws.turn _ _ _ _ _ takes⟩
  | put r ok ledger loops noted =>
    refine ⟨_, noted, ?_⟩
    have same : stock v.broker = stock w.broker := by
      rw [ledger]
      cases ok with
      | true => exact draws.append ..
      | false => rfl
    exact same ▸ .none _
  | subscribe _ _ ledger _ quiet | other ledger _ quiet => exact quiet.spends (by rw [ledger])
  | probe ledger _ quiet => exact quiet.spends (by rw [ledger, draws.probe])
  | control c ledger _ quiet => exact quiet.spends (by rw [ledger, untold c rfl])

/-- What fails changes no log, no offset and no cursor. -/
theorem Entry.failed {c : Option Ledger.Control} {p : Option (Record × Bool)}
    (entry : Entry w v c p) {since : List (Note α)} (noted : v.notes = w.notes ++ since)
    {n : Note α} (new : n ∈ since) (failure : n.isFailure = true) :
    w.broker.Alike v.broker ∧ v.cursors = w.cursors := by
  have silent (quiet : Quiet w v) : w.broker.Alike v.broker ∧ v.cursors = w.cursors := by
    obtain ⟨said, noted', all⟩ := quiet
    obtain rfl := List.append_cancel_left (noted.symm.trans noted')
    simp [isFailure_of_said (all n new)] at failure
  cases entry with
  | @turn k l t here takes eq =>
    subst eq
    obtain rfl := List.append_cancel_left (noted.symm.trans (notes_turned w k t))
    cases n with
    | act j topic a =>
      have did : a ∈ t.notes.filterMap Note.deed := List.mem_filterMap.mpr ⟨_, new, rfl⟩
      obtain ⟨alike, reader⟩ := takes_failed takes did failure
      exact ⟨alike, cursors_turned here (by rw [reader])⟩
    | published r ok =>
      obtain said | ⟨a, act⟩ := takes_notes takes new
      · cases said
      · cases act
    | heard | line => cases failure
  | put r ok ledger loops noted' =>
    obtain rfl := List.append_cancel_left (noted.symm.trans noted')
    obtain rfl := List.mem_singleton.mp new
    obtain rfl : ok = false := by simpa [Note.isFailure] using failure
    exact ⟨by rw [ledger]; exact .refl _, cursors_kept loops⟩
  | subscribe _ _ _ _ quiet | other _ _ quiet | probe _ _ quiet | control _ _ _ quiet =>
    exact silent quiet

end

section
variable [DecidableEq α]

/-- A stock of faults is spent in a run as it is spent by each move. -/
theorem after_spends {β : Type} {struck spared : β → Prop} {stock : Ledger → Nat}
    {outcome : Act → Option β} (draws : Draws α struck spared stock outcome)
    (attempts : List (Attempt Ledger α))
    (untold : ∀ a ∈ attempts, ∀ c ∈ a.controls, ∀ b, stock (b.control c) = stock b)
    (w : World Ledger α) :
    ∃ since, (w.after attempts).notes = w.notes ++ since ∧ Spends struck spared (stock w.broker)
      ((since.filterMap Note.deed).filterMap outcome) (stock (w.after attempts).broker) := by
  induction attempts generalizing w with
  | nil => exact ⟨[], (List.append_nil _).symm, .none _⟩
  | cons a attempts ih =>
    obtain ⟨p, entry⟩ := attempt_entry w a
    obtain ⟨first, noted, spent⟩ := entry.spends draws (untold a List.mem_cons_self)
    obtain ⟨rest, noted', spent'⟩ :=
      ih (fun a member => untold a (List.mem_cons_of_mem _ member)) (w.attempt a)
    refine ⟨first ++ rest, ?_, ?_⟩
    · rw [← List.append_assoc, ← noted]
      exact noted'
    · rw [List.filterMap_append, List.filterMap_append]
      exact spent.append spent'

/-- The law of faults, for queues and their loops. -/
structure FaultLaw (w : World Ledger α) : Prop where
  /-- What fails changes no log, no offset and no cursor. -/
  failed : ∀ a since, (w.attempt a).notes = w.notes ++ since → ∀ n ∈ since, n.isFailure = true →
    w.broker.Alike (w.attempt a).broker ∧ (w.attempt a).cursors = w.cursors
  /-- A loop takes no fault when it finds nothing, and none when it ends, whatever it waited for. -/
  idle : ∀ k v l, w.loopStep k = some v → v.loops[k]? = some l →
    l.phase = .ended ∨ l.phase = .parked → v.broker = w.broker ∧ v.cursors = w.cursors
  /-- Until the ledger is told otherwise, the first `n` commits of any loops fail and no other. -/
  commits : ∀ n attempts, (∀ a ∈ attempts, ∀ m, a.controls ≠ some (.failCommits m)) →
    let start := w.control (.failCommits n)
    ∃ since, (start.after attempts).notes = start.notes ++ since ∧
      Spends (· = .error coordinatorUnavailable) (· = .ok ()) n
        ((since.filterMap Note.deed).filterMap Act.commitResult)
        (start.after attempts).broker.commitFaults
  /-- Until the ledger is told otherwise, the first `n` fetches of any loops that come to an end
  fail, and no other. -/
  fetches : ∀ n attempts, (∀ a ∈ attempts, ∀ m, a.controls ≠ some (.failFetches m)) →
    let start := w.control (.failFetches n)
    ∃ since, (start.after attempts).notes = start.notes ++ since ∧
      Spends (· = .transient brokerUnavailable) (fun f => ∀ e, f ≠ .transient e) n
        ((since.filterMap Note.deed).filterMap Act.fetchResult)
        (start.after attempts).broker.fetchFaults

theorem faultLaw (w : World Ledger α) : FaultLaw w := by
  constructor
  case failed =>
    intro a since noted n new failure
    obtain ⟨p, entry⟩ := attempt_entry w a
    exact entry.failed noted new failure
  case idle =>
    intro k v l possible there idle
    obtain ⟨l₀, t, here, takes, rfl⟩ := loopStep_takes possible
    obtain rfl : t.loop = l := Option.some.inj ((turned_self here t).symm.trans there)
    obtain ⟨broker, cursor⟩ := takes_idle takes idle
    exact ⟨broker, cursors_turned here cursor⟩
  case commits =>
    intro n attempts untold start
    refine after_spends commits_draw attempts ?_ start
    intro a member c told b
    exact (Ledger.control_faults b c).1 fun m eq => untold a member m (told.trans (congrArg _ eq))
  case fetches =>
    intro n attempts untold start
    refine after_spends fetches_draw attempts ?_ start
    intro a member c told b
    exact (Ledger.control_faults b c).2 fun m eq => untold a member m (told.trans (congrArg _ eq))

/-- **What fails changes nothing, and every fault is spent on the attempt that comes next.** This
is so for any writers and readers of a ledger, and for queues and their loops, whatever has happened
before and in whatever order they act. -/
theorem fault_law (d : Ledger.Desk) (w : World Ledger α) : d.FaultLaw ∧ w.FaultLaw :=
  ⟨d.faultLaw, w.faultLaw⟩

end

end World

end Queue

end Courier
