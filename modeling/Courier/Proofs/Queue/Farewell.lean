import Courier.Proofs.Queue.Journal
import Courier.Proofs.Queue.Run

/-!
# The last words of a loop

A loop that ends because its stream was closed, or because it was cancelled while it fetched, says
so in one line. A loop that is cancelled while it rests ends without a word. This holds over any
broker:

* `Turns`: the turns of one loop in a run, each with its notes;
* `Leaves`: the ends that a loop can come to;
* `farewell`: what a loop says of its end;
* `takes_leaves`: a turn of a loop is its end, with these words, or it is silent;
* `farewell_law`: what a loop has said of its stream in a run;
* `farewell_missed`: a loop was cancelled and has ended without a word.
-/

namespace Courier.Queue

open Broker (Transport Ledger)

variable {T α : Type} [Transport T]

def Note.isFarewell : Note α → Bool
  | .line l => l.message = "Kafka stream closed"
  | _ => false

def farewells (notes : List (Note α)) : List (Note α) := notes.filter Note.isFarewell

/-- Why a loop ends. -/
inductive Exit where
  /-- Its stream was closed. -/
  | lost (e : Error)
  /-- It was cancelled before it fetched, or while it did. -/
  | stopped
  /-- It was cancelled while it rested. -/
  | left

namespace ReadLoop

/-- The end that a loop comes to with its next turn, over a broker. -/
inductive Leaves (l : ReadLoop T α) (b : T) : Exit → Prop where
  | lost {e : Error} (phase : l.phase = .ready) (running : l.cancelled = false)
    (closed : (Transport.fetch l.reader b).1 = .closed e) : Leaves l b (.lost e)
  | stopped (phase : l.phase = .ready ∨ l.phase = .parked) (cancelled : l.cancelled = true) :
    Leaves l b .stopped
  | left {due : Nat} (phase : l.phase = .resting due) (cancelled : l.cancelled = true) :
    Leaves l b .left

/-- What a loop says of its end. -/
def farewell (l : ReadLoop T α) : Exit → List (Note α)
  | .lost e => [l.streamNote .error e.message]
  | .stopped => [l.streamNote .debug "subscription cancelled"]
  | .left => []

/-- All that is noted of the last turn of loop `k`. -/
def ending (l : ReadLoop T α) (k : Nat) (exit : Exit) : List (Note α) :=
  l.farewell exit ++ [.act k l.topic.name .closed]

end ReadLoop

theorem farewells_append (a b : List (Note α)) :
    farewells (a ++ b) = farewells a ++ farewells b :=
  List.filter_append ..

@[simp] theorem farewells_ending (l : ReadLoop T α) (k : Nat) (exit : Exit) :
    farewells (l.ending k exit) = l.farewell exit := by
  cases exit <;> rfl

theorem Kept.ending {l l' : ReadLoop T α} (kept : Kept l l') (k : Nat) (exit : Exit) :
    l'.ending k exit = l.ending k exit := by
  rw [kept.rest]
  cases exit <;> rfl

/-- Only its own turn ends a loop. -/
theorem Kept.ended {l l' : ReadLoop T α} (kept : Kept l l') :
    l'.phase = .ended ↔ l.phase = .ended := by
  obtain same | ⟨parked, ready⟩ | ⟨m, accept, due, offered, answered⟩ := kept.phase
  · rw [same]
  · simp [parked, ready]
  · simp [offered, answered]

@[simp] theorem isFarewell_act (k : Nat) (topic : String) (a : Act) :
    (Note.act k topic a : Note α).isFarewell = false := rfl

/-- No subscriber speaks of streams. -/
@[simp] theorem isFarewell_report (label : String) (s : Subscriber α) (m : Option Message)
    (e : Error) : (noteOf label (s.report m e)).isFarewell = false := by
  cases s <;> rfl

theorem farewells_received {s : Subscriber α} {calls calls' : Nat} {m : Message} {r : Reception α}
    {said : List (Utterance α)} (received : s.receive calls m = (r, said, calls'))
    (label : String) : farewells (said.map (noteOf label)) = [] := by
  obtain rfl : said = (s.receive calls m).2.1 := by rw [received]
  cases s with
  | direct => rfl
  | typed decoder | pooled decoder =>
    simp only [Subscriber.receive]
    cases decoder.decode m.payload <;> rfl

section
variable {k now : Nat} {b : T} {l : ReadLoop T α} {t : Turn T α}

theorem farewells_receivedNotes (l : ReadLoop T α) (m : Message) :
    farewells (l.receivedNotes m) = [] := by
  unfold ReadLoop.receivedNotes
  split <;> rfl

theorem farewells_toldOf (l : ReadLoop T α) (m : Message) (r : Except Error Unit) :
    farewells (l.toldOf m r) = [] := by
  cases r with
  | ok => rfl
  | error e => simp [farewells, ReadLoop.toldOf]

/-- A turn of a loop is its end, or nothing is said of the stream. -/
theorem takes_leaves (takes : l.Takes k now b t) :
    (∃ exit, l.Leaves b exit ∧ t.loop.phase = .ended ∧ t.notes = l.ending k exit ∧
        t.loop.ending k exit = l.ending k exit) ∨
      (t.loop.phase ≠ .ended ∧ farewells t.notes = []) := by
  cases takes with
  | stop phase cancelled => exact .inl ⟨.stopped, .stopped phase cancelled, rfl, rfl, rfl⟩
  | @lose _ _ e phase running fetched =>
    have closed : (Transport.fetch l.reader b).1 = .closed e := by rw [fetched]
    exact .inl ⟨.lost e, .lost phase running closed, rfl, rfl, rfl⟩
  | leave phase cancelled => exact .inl ⟨.left, .left phase cancelled, rfl, rfl, rfl⟩
  | park | rise | fail => exact .inr ⟨nofun, rfl⟩
  | @deliver _ _ m r said calls phase running fetched received =>
    refine .inr ⟨by cases r <;> nofun, ?_⟩
    have silent : farewells (l.receivedNotes m ++ said.map (noteOf l.label)) = [] := by
      rw [farewells_append, farewells_receivedNotes, farewells_received received]
      rfl
    exact silent
  | falter =>
    refine .inr ⟨nofun, ?_⟩
    simp [farewells]
  | @accept _ _ m _ r =>
    have silent : farewells (l.toldOf m r) = [] := farewells_toldOf ..
    exact .inr ⟨nofun, silent⟩
  | @reject _ _ m _ r =>
    have silent (ms : Nat) :
        farewells (l.toldOf m r ++ [.act k l.topic.name (.rested ms)]) = [] := by
      rw [farewells_append, farewells_toldOf]
      rfl
    exact .inr ⟨nofun, silent _⟩

/-- A loop that can come to an end has a turn in which it does. -/
theorem leaves_takes {exit : Exit} (leaves : l.Leaves b exit) (k now : Nat) :
    ∃ t, l.Takes k now b t ∧ t.loop.phase = .ended ∧ t.notes = l.ending k exit := by
  cases leaves with
  | @lost e phase running closed =>
    rcases fetched : Transport.fetch l.reader b with ⟨result, reader, b'⟩
    obtain rfl : result = .closed e := by rw [← closed, fetched]
    exact ⟨_, .lose phase running fetched, rfl, rfl⟩
  | stopped phase cancelled => exact ⟨_, .stop phase cancelled, rfl, rfl⟩
  | left phase cancelled => exact ⟨_, .leave phase cancelled, rfl, rfl⟩

end

namespace World

section
variable [DecidableEq α] {broker : T} {w v : World T α} {k : Nat} {l : ReadLoop T α}
  {turns : List (List (Note α))}

/-- The turns that loop `k` takes in a run, each with all that is noted in it. -/
inductive Turns (broker : T) (k : Nat) : World T α → List (List (Note α)) → Prop where
  | start : Turns broker k { broker } []
  | turn {w v : World T α} {turns : List (List (Note α))} {notes : List (Note α)}
    (before : Turns broker k w turns) (possible : w.loopStep k = some v)
    (noted : v.notes = w.notes ++ notes) : Turns broker k v (turns ++ [notes])
  | step {w v : World T α} {turns : List (List (Note α))} (before : Turns broker k w turns)
    (s : Step) (other : s ≠ .loop k) (possible : w.step s = some v) : Turns broker k v turns
  | command {w : World T α} {turns : List (List (Note α))} (before : Turns broker k w turns)
    (c : Command T α) : Turns broker k (w.obey c) turns

/-- Every run has the turns of each loop. -/
theorem turns_of_reachable (reach : Reachable broker w) (k : Nat) :
    ∃ turns, Turns broker k w turns := by
  induction reach with
  | start => exact ⟨[], .start⟩
  | next _ move ih =>
    obtain ⟨turns, before⟩ := ih
    cases move with
    | command c => exact ⟨turns, before.command c⟩
    | step s possible =>
      by_cases mine : s = .loop k
      · subst mine
        obtain ⟨l, t, -, -, rfl⟩ := loopStep_takes possible
        exact ⟨_, before.turn possible (notes_turned ..)⟩
      · exact ⟨turns, before.step s mine possible⟩

/-- Loop `k` has ended as loops do: in the last of its turns, after it was silent. -/
def Parted (broker : T) (w : World T α) (k : Nat) (l : ReadLoop T α)
    (turns : List (List (Note α))) : Prop :=
  ∃ u l₀ exit before, Turns broker k u before ∧ u.Leads w ∧ u.loops[k]? = some l₀ ∧
    l₀.Leaves u.broker exit ∧ turns = before ++ [l.ending k exit] ∧ farewells before.flatten = []

/-- What a loop has said, by what it is at. -/
structure Said (broker : T) (w : World T α) (k : Nat) (turns : List (List (Note α))) : Prop where
  absent : w.loops[k]? = none → turns = []
  silent : ∀ l, w.loops[k]? = some l → l.phase ≠ .ended → farewells turns.flatten = []
  ended : ∀ l, w.loops[k]? = some l → l.phase = .ended → Parted broker w k l turns

theorem Said.spared (said : Said broker w k turns) (move : Move w v) (spared : Spared k w v) :
    Said broker v k turns := by
  constructor
  case absent =>
    intro absent
    apply said.absent
    rw [Option.eq_none_iff_forall_ne_some]
    intro l here
    obtain ⟨l', there, -⟩ := spared.loop l here
    simp [absent] at there
  case silent =>
    intro l' there running
    cases here : w.loops[k]? with
    | none => rw [said.absent here]; rfl
    | some l =>
      obtain ⟨l'', also, kept⟩ := spared.loop l here
      obtain rfl : l' = l'' := Option.some.inj (there.symm.trans also)
      exact said.silent l here (mt kept.ended.mpr running)
  case ended =>
    intro l' there ended
    cases here : w.loops[k]? with
    | none =>
      have ready := (spared.new here l' there).phase
      rw [ended] at ready
      cases ready
    | some l =>
      obtain ⟨l'', also, kept⟩ := spared.loop l here
      obtain rfl : l' = l'' := Option.some.inj (there.symm.trans also)
      obtain ⟨u, l₀, exit, before, run, later, found, leaves, last, silent⟩ :=
        said.ended l here (kept.ended.mp ended)
      refine ⟨u, l₀, exit, before, run, later.tail move, found, leaves, ?_, silent⟩
      rw [kept.ending, last]

theorem Said.before (said : Said broker w k turns) {t : Turn T α} (here : w.loops[k]? = some l)
    (takes : l.Takes k w.now w.broker t) : farewells turns.flatten = [] := by
  refine said.silent l here fun ended => ?_
  have step := takes_loopStep here takes
  simp [loopStep, here, ended] at step

theorem Said.turn (said : Said broker w k turns) (run : Turns broker k w turns) {t : Turn T α}
    (here : w.loops[k]? = some l) (takes : l.Takes k w.now w.broker t) :
    Said broker (w.turned k t) k (turns ++ [t.notes]) := by
  have there := turned_self here t
  have silent := said.before here takes
  constructor
  case absent =>
    intro absent
    simp [there] at absent
  case silent =>
    intro l' also running
    obtain rfl : t.loop = l' := Option.some.inj (there.symm.trans also)
    obtain ⟨exit, -, ended, -⟩ | ⟨-, none⟩ := takes_leaves takes
    · exact absurd ended running
    · simp [farewells_append, silent, none]
  case ended =>
    intro l' also ended
    obtain rfl : t.loop = l' := Option.some.inj (there.symm.trans also)
    obtain ⟨exit, leaves, -, notes, same⟩ | ⟨running, -⟩ := takes_leaves takes
    · have later : w.Leads (w.turned k t) := .single (.step (.loop k) (takes_loopStep here takes))
      exact ⟨w, l, exit, turns, run, later, here, leaves, by rw [notes, same], silent⟩
    · exact absurd ended running

theorem Turns.said (run : Turns broker k w turns) : Said broker w k turns := by
  induction run with
  | start =>
    constructor
    case absent => exact fun _ => rfl
    case silent | ended => simp
  | @turn w v turns notes before possible noted ih =>
    obtain ⟨l, t, here, takes, rfl⟩ := loopStep_takes possible
    obtain rfl : t.notes = notes := List.append_cancel_left ((notes_turned ..).symm.trans noted)
    exact ih.turn before here takes
  | step before s other possible ih =>
    obtain ⟨l, t, mine, -⟩ | ⟨-, spared⟩ := step_turn possible k
    · exact absurd mine other
    · exact ih.spared (.step s possible) spared
  | command before c ih => exact ih.spared (.command c) (obey_spared _ k c)

/-- What loop `k`, which is at `l`, has said of its stream in the turns of a run. -/
structure FarewellLaw (broker : T) (w : World T α) (k : Nat) (l : ReadLoop T α)
    (turns : List (List (Note α))) : Prop where
  /-- Until it ends, it has said nothing. -/
  silent : l.phase ≠ .ended → farewells turns.flatten = []
  /-- When it has ended, it has said what it says of such an end, once and last. -/
  ended : l.phase = .ended → ∃ u l₀ exit before, Turns broker k u before ∧ u.Leads w ∧
    u.loops[k]? = some l₀ ∧ l₀.Leaves u.broker exit ∧ turns = before ++ [l.ending k exit] ∧
    farewells turns.flatten = l.farewell exit
  /-- When it can come to an end, its next turn is this end. -/
  next : ∀ exit, l.Leaves w.broker exit → ∃ v l', w.loopStep k = some v ∧
    v.loops[k]? = some l' ∧ l'.phase = .ended ∧ v.notes = w.notes ++ l.ending k exit ∧
    Turns broker k v (turns ++ [l.ending k exit]) ∧
    farewells (turns ++ [l.ending k exit]).flatten = l.farewell exit

/-- **A loop says why it ends, once, unless it was cancelled while it rested.** In every run and
over any broker, a loop whose stream was closed says so as an error, with the reason, and one that
was cancelled before or while it fetched says so when debugging. One that was cancelled while it
rested, after a fetch that failed or a message that was not accepted, says nothing. -/
theorem farewell_law (run : Turns broker k w turns) (here : w.loops[k]? = some l) :
    FarewellLaw broker w k l turns := by
  have said := run.said
  have last (before : List (List (Note α))) (exit : Exit) (silent : farewells before.flatten = []) :
      farewells (before ++ [l.ending k exit]).flatten = l.farewell exit := by
    simp [farewells_append, silent]
  constructor
  case silent => exact said.silent l here
  case ended =>
    intro ended
    obtain ⟨u, l₀, exit, before, run', later, found, leaves, rfl, silent⟩ := said.ended l here ended
    exact ⟨u, l₀, exit, before, run', later, found, leaves, rfl, last before exit silent⟩
  case next =>
    intro exit leaves
    obtain ⟨t, takes, ended, notes⟩ := leaves_takes leaves k w.now
    have possible := takes_loopStep here takes
    have noted : (w.turned k t).notes = w.notes ++ l.ending k exit := by rw [notes_turned, notes]
    exact ⟨_, t.loop, possible, turned_self here t, ended, noted, run.turn possible noted,
      last turns exit (said.before here takes)⟩

/-- A subscription of one group, whose subscriber gives the same answer to every message. -/
def joining (group : String) (accept : Bool) : Attempt Ledger String :=
  .command (.subscribe 0 orders group "auditor" (.direct ⟨fun _ _ => { accept }⟩))

/-- One loop is cancelled while it fetches and one while it rests, and the third loses its
stream. -/
def partings : List (Attempt Ledger String) :=
  [joining "audit" true, joining "stock" true, joining "billing" false,
    .command (.publish 0 orders (.text "first")), .step (.loop 2), .step (.loop 2),
    .command (.unsubscribe 0 ⟨2⟩), .step (.loop 1), .command (.unsubscribe 0 ⟨3⟩), .step (.loop 2),
    .command (.control Ledger.Control.closeReaders), .step (.loop 0)]

theorem farewell_law_partings :
    let w := opened.after partings
    (∀ k l, w.loops[k]? = some l → ∃ turns, Turns {} k w turns ∧
        FarewellLaw {} w k l turns) ∧
      w.loops.map (·.phase matches .ended) = [true, true, true] ∧
      (farewells w.notes).filterMap (fun | .line l => some (l.level, l.fields) | _ => none) =
        [(.debug, [⟨"topic", "orders"⟩, ⟨"group_id", "stock"⟩,
            ⟨"reason", "subscription cancelled"⟩]),
          (.error, [⟨"topic", "orders"⟩, ⟨"group_id", "audit"⟩,
            ⟨"reason", "Stream closed: reader closed"⟩])] := by
  intro w
  have reach : Reachable {} w :=
    reachable_opened.leads (leads_iff_after.mpr ⟨partings, rfl⟩)
  refine ⟨fun k l here => ?_, by decide, by decide⟩
  obtain ⟨turns, run⟩ := turns_of_reachable reach k
  exact ⟨turns, run, farewell_law run here⟩

/-- A subscription is given up while its loop rests, for its message was not accepted. The loop was
cancelled and ends, and nothing is said of its stream. -/
theorem farewell_missed : ∃ w : World Ledger String, Reachable {} w ∧
    (∃ l, w.loops[0]? = some l ∧ l.cancelled = true ∧ l.phase = .ended) ∧
      farewells w.notes = [] :=
  ⟨opened.after [joining "audit" false, .command (.publish 0 orders (.text "first")),
      .step (.loop 0), .step (.loop 0), .command (.unsubscribe 0 ⟨1⟩), .step (.loop 0)],
    reachable_opened.leads (leads_iff_after.mpr ⟨_, rfl⟩), ⟨_, rfl, rfl, rfl⟩, rfl⟩

end

end World

end Courier.Queue
