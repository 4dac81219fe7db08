import Courier.Proofs.Queue.Journal
import Courier.Proofs.Queue.Publication
import Courier.Proofs.Queue.Transcript

/-!
# What is noted of the acts of a loop

A loop's turns are noted act by act, each act with all that is said of it:

* `Passage`: an act and what is said of it;
* `takes_passages`: the notes of a turn are passages, one for each act;
* `Chronicle`: a run of publishers and queues, with the turns that one loop takes in it;
* `ReportLaw`: what a subscriber is called with and told of in the turns of its loop;
* `Chronicle.reportLaw`: this is so in every run.
-/

namespace Courier

namespace Broker.Ledger

variable {r r' : Reader} {b b' : Ledger}

/-- A fetch that fails and may be tried again tells that it is the fetch that failed. -/
theorem kind_of_transient {e : Error} (h : fetch r b = (.transient e, r', b')) :
    e.kind = .fetch := by
  unfold fetch at h
  split at h
  · obtain rfl := Fetched.transient.inj (Prod.mk.inj h).1
    rfl
  · split at h
    · simp at h
    · split at h <;> simp at h

theorem kind_of_uncommitted {m : Message} {e : Error} (h : commit r m b = (.error e, r', b')) :
    e.kind = .commit := by
  unfold commit at h
  simp only at h
  split at h
  · obtain rfl := Except.error.inj (Prod.mk.inj h).1
    rfl
  · simp at h

end Broker.Ledger

namespace Queue

open Broker (Transport Ledger)

/-- What a loop tells its subscriber of on the occasion of an act: of a fetch that failed, without
a message, and of a commit that failed, with its message. -/
def Act.report : Act → Option (Option Message × Error)
  | .fetchFailed e => some (none, e)
  | .committed m (.error e) => some (some m, e)
  | .withheld m (.error e) => some (some m, e)
  | _ => none

def Act.isPlain : Act → Bool
  | .answered .. | .committed _ (.ok _) | .withheld _ (.ok _) | .rested _ | .closed => true
  | .delivered _ | .fetchFailed _ | .committed _ (.error _) | .withheld _ (.error _) => false

/-- The call of a subscriber that a note tells of. -/
def Note.handled : Note α → Option Message
  | .heard _ (.message m _) => some m
  | _ => none

def Note.failure : Note α → Option (Option Message × Error)
  | .heard _ (.failure m e) => some (m, e)
  | _ => none

/-- What a loop never changes of itself is the same. -/
structure ReadLoop.Akin {T α : Type} [Transport T] (l l' : ReadLoop T α) : Prop where
  label : l'.label = l.label
  topic : l'.topic = l.topic
  group : l'.group = l.group
  isDebug : l'.isDebug = l.isDebug
  subscriber : l'.subscriber = l.subscriber

variable {α ι : Type}

/-- An act of loop `k` and all that is said of it. -/
inductive ReadLoop.Passage (k : Nat) (l : ReadLoop Ledger α) : Act → List (Note α) → Prop where
  | delivered {m : Message} {calls calls' : Nat} {r : Reception α} {said : List (Utterance α)}
    (received : l.subscriber.receive calls m = (r, said, calls')) :
    Passage k l (.delivered m) (.act k l.topic.name (.delivered m) ::
      (l.receivedNotes m ++ said.map (noteOf l.label)))
  | fetchFailed {e : Error} (kind : e.kind = .fetch) :
    Passage k l (.fetchFailed e) [.act k l.topic.name (.fetchFailed e),
      noteOf l.label (l.subscriber.report none e)]
  | uncommitted {m : Message} {e : Error} (kind : e.kind = .commit) :
    Passage k l (.committed m (.error e)) [.act k l.topic.name (.committed m (.error e)),
      noteOf l.label (l.subscriber.report (some m) e)]
  | plain {a : Act} (plain : a.isPlain = true) : Passage k l a [.act k l.topic.name a]
  | closed (level : Log.Level) (reason : String) :
    Passage k l .closed [l.streamNote level reason, .act k l.topic.name .closed]

namespace ReadLoop

variable {k : Nat} {l l' : ReadLoop Ledger α}

theorem Passage.of_akin {a : Act} {notes : List (Note α)} (passage : l.Passage k a notes)
    (akin : l.Akin l') : l'.Passage k a notes := by
  cases l
  cases l'
  obtain ⟨rfl, rfl, rfl, rfl, rfl⟩ := akin
  cases passage with
  | delivered received => exact .delivered received
  | fetchFailed kind => exact .fetchFailed kind
  | uncommitted kind => exact .uncommitted kind
  | plain plain => exact .plain plain
  | closed level reason => exact .closed level reason

end ReadLoop

theorem Kept.akin {l l' : ReadLoop Ledger α} (kept : Kept l l') : l.Akin l' := by
  rw [kept.rest]
  exact ⟨rfl, rfl, rfl, rfl, rfl⟩

section
variable {k now : Nat} {b : Ledger} {l : ReadLoop Ledger α} {t : Turn Ledger α}

theorem takes_akin (takes : l.Takes k now b t) : l.Akin t.loop := by
  cases takes <;> exact ⟨rfl, rfl, rfl, rfl, rfl⟩

/-- The notes of a turn are passages, one for each act. -/
theorem takes_passages (takes : l.Takes k now b t) : ∃ blocks, t.notes = blocks.flatten ∧
    List.Forall₂ (l.Passage k) (t.notes.filterMap (·.actOf k)) blocks := by
  have plain (a : Act) (plain : a.isPlain = true) : l.Passage k a [.act k l.topic.name a] :=
    .plain plain
  cases takes with
  | stop | lose => exact ⟨[[_, _]], rfl, by simpa [List.filterMap_cons] using .closed ..⟩
  | leave => exact ⟨[[_]], rfl, by simpa [List.filterMap_cons] using plain _ rfl⟩
  | park | rise | fail => exact ⟨[], rfl, .nil⟩
  | @deliver _ _ m _ said _ _ _ _ received =>
    refine ⟨[.act k l.topic.name (.delivered m) ::
      (l.receivedNotes m ++ said.map (noteOf l.label))], (List.append_nil _).symm, ?_⟩
    simpa [List.filterMap_cons] using ReadLoop.Passage.delivered received
  | falter _ _ fetched =>
    refine ⟨[[_, _], [_]], rfl, ?_⟩
    simpa using ⟨.fetchFailed (Ledger.kind_of_transient fetched), plain _ rfl⟩
  | @accept _ _ m _ r _ _ committed =>
    cases r with
    | ok =>
      refine ⟨[[_], [_]], rfl, ?_⟩
      simpa using ⟨plain (.answered m true) rfl, plain (.committed m (.ok ())) rfl⟩
    | error e =>
      refine ⟨[[_], [_, _]], rfl, ?_⟩
      simpa using ⟨plain (.answered m true) rfl,
        .uncommitted (Ledger.kind_of_uncommitted committed)⟩
  | @reject _ _ m _ _ _ _ withheld =>
    obtain ⟨rfl, -, -⟩ := Ledger.withhold_eq withheld
    refine ⟨[[_], [_], [_]], rfl, ?_⟩
    simpa using ⟨plain (.answered m false) rfl, plain (.withheld m (.ok ())) rfl, plain _ rfl⟩

end

namespace ReadLoop

variable {k : Nat} {l : ReadLoop Ledger α} {a : Act} {notes : List (Note α)}

theorem Passage.kind (passage : l.Passage k a notes) {m : Option Message} {e : Error}
    (told : a.report = some (m, e)) : e.kind = if m = none then .fetch else .commit := by
  cases passage with
  | delivered | closed => cases told
  | fetchFailed kind =>
    obtain ⟨rfl, rfl⟩ := Prod.mk.inj (Option.some.inj told)
    exact kind
  | uncommitted kind =>
    obtain ⟨rfl, rfl⟩ := Prod.mk.inj (Option.some.inj told)
    exact kind
  | plain plain =>
    cases a with
    | answered | rested | closed => cases told
    | committed m r | withheld m r =>
      cases r with
      | ok => cases told
      | error => cases plain
    | delivered | fetchFailed => cases plain

variable {listener : Listener Message}

@[simp] theorem failure_receivedNotes (l : ReadLoop Ledger α) (m : Message) :
    (l.receivedNotes m).filterMap Note.failure = [] := by
  unfold receivedNotes
  split <;> rfl

@[simp] theorem handled_receivedNotes (l : ReadLoop Ledger α) (m : Message) :
    (l.receivedNotes m).filterMap Note.handled = [] := by
  unfold receivedNotes
  split <;> rfl

/-- A direct subscriber is told of the error of an act, if it has one, and once. -/
theorem Passage.failures (passage : l.Passage k a notes)
    (direct : l.subscriber = .direct listener) :
    notes.filterMap Note.failure = a.report.toList := by
  cases passage with
  | delivered received =>
    simp only [direct, Subscriber.receive, Prod.mk.injEq] at received
    obtain ⟨-, rfl, -⟩ := received
    simp [List.filterMap_cons, Note.failure, Act.report, noteOf]
  | fetchFailed | uncommitted =>
    simp [List.filterMap_cons, Note.failure, Act.report, direct, Subscriber.report, noteOf]
  | plain plain =>
    cases a with
    | answered | rested | closed => rfl
    | committed m r | withheld m r =>
      cases r with
      | ok => rfl
      | error => cases plain
    | delivered | fetchFailed => cases plain
  | closed => rfl

/-- A direct subscriber is called once for each message that is handed over. -/
theorem Passage.calls (passage : l.Passage k a notes) (direct : l.subscriber = .direct listener) :
    notes.filterMap Note.handled = a.delivery.toList := by
  cases passage with
  | delivered received =>
    simp only [direct, Subscriber.receive, Prod.mk.injEq] at received
    obtain ⟨-, rfl, -⟩ := received
    simp [List.filterMap_cons, Note.handled, Act.delivery, noteOf]
  | fetchFailed | uncommitted =>
    simp [List.filterMap_cons, Note.handled, Act.delivery, direct, Subscriber.report, noteOf]
  | plain plain =>
    cases a with
    | delivered => cases plain
    | answered | rested | closed | committed | withheld | fetchFailed => rfl
  | closed => rfl

theorem filterMap_passages {acts : List Act} {blocks : List (List (Note α))} {β : Type}
    {f : Note α → Option β} {g : Act → Option β} (passages : List.Forall₂ (l.Passage k) acts blocks)
    (each : ∀ a notes, l.Passage k a notes → notes.filterMap f = (g a).toList) :
    blocks.flatten.filterMap f = acts.filterMap g := by
  induction passages with
  | nil => rfl
  | @cons a notes _ _ passage _ ih =>
    rw [List.flatten_cons, List.filterMap_append, ih, each a notes passage, List.filterMap_cons]
    cases g a <;> rfl

end ReadLoop

namespace Traffic

/-- The runs, with what was noted in each of the turns that loop `k` has taken. -/
inductive Chronicle [DecidableEq α] (k : Nat) : Traffic ι α → List (List (Note α)) → Prop where
  | start : Chronicle k { world := { broker := {} } } []
  | turn {s : Traffic ι α} {turns : List (List (Note α))} {v : World Ledger α}
    (before : Chronicle k s turns) (taken : s.world.loopStep k = some v) :
    Chronicle k { s with world := v } (turns ++ [s.world.added v])
  | other {s t : Traffic ι α} {turns : List (List (Note α))} (before : Chronicle k s turns)
    (move : Move s t) (spared : s.world.Spared k t.world) : Chronicle k t turns

/-- What is noted in the turns of loop `k`. -/
structure ReportLaw (w : World Ledger α) (k : Nat) (turns : List (List (Note α))) : Prop where
  /-- Each act goes with all that is said of it, and nothing else is said. -/
  passages : ∀ l, w.loops[k]? = some l → ∃ blocks, turns.flatten = blocks.flatten ∧
    List.Forall₂ (l.Passage k) (w.acts k) blocks
  /-- A subscriber is told of fetches and of commits that failed, and of nothing else. -/
  kinds : ∀ a ∈ w.acts k, ∀ m e, a.report = some (m, e) →
    e.kind = if m = none then .fetch else .commit
  /-- A subscriber that lets all be heard is heard to be told so, once each time. -/
  failures : ∀ l listener, w.loops[k]? = some l → l.subscriber = .direct listener →
    turns.flatten.filterMap Note.failure = (w.acts k).filterMap Act.report
  /-- It is heard to be called once for each message. -/
  calls : ∀ l listener, w.loops[k]? = some l → l.subscriber = .direct listener →
    turns.flatten.filterMap Note.handled = w.deliveries k

/-- The acts of loop `k` and what was noted in its turns go together. -/
structure Fits (w : World Ledger α) (k : Nat) (turns : List (List (Note α))) : Prop where
  passages : ∀ l, w.loops[k]? = some l → ∃ blocks, turns.flatten = blocks.flatten ∧
    List.Forall₂ (l.Passage k) (w.acts k) blocks
  absent : w.loops[k]? = none → turns = [] ∧ w.acts k = []

section
variable {w v : World Ledger α} {k : Nat} {turns : List (List (Note α))}

theorem put_spared (w : World Ledger α) (k q : Nat) (r : Record) :
    w.Spared k (w.put q r).2 := by
  obtain eq | ⟨e, eq⟩ := w.put_eq q r
  · rw [eq]
    exact .of_kept (Nat.le_refl _) (World.wake_kept _) (World.acts_note_of_none rfl)
  · rw [eq]
    exact .of_kept (Nat.le_refl _) (.refl _) (World.acts_note_of_none rfl)

theorem Fits.turned (fits : Fits w k turns) {l : ReadLoop Ledger α} {t : Turn Ledger α}
    (here : w.loops[k]? = some l) (takes : l.Takes k w.now w.broker t) :
    Fits (w.turned k t) k (turns ++ [t.notes]) := by
  obtain ⟨before, same, passages⟩ := fits.passages l here
  obtain ⟨blocks, notes, more⟩ := takes_passages takes
  have there := World.turned_self here t
  constructor
  case passages =>
    intro l' here'
    obtain rfl : t.loop = l' := Option.some.inj (there.symm.trans here')
    refine ⟨before ++ blocks, ?_, ?_⟩
    · simp [same, notes]
    · rw [World.acts_turned]
      exact (List.rel_append passages more).imp fun a notes passage =>
        passage.of_akin (takes_akin takes)
  case absent =>
    intro absent
    simp [there] at absent

theorem Fits.spared (fits : Fits w k turns) (spared : w.Spared k v) : Fits v k turns := by
  cases here : w.loops[k]? with
  | some l =>
    obtain ⟨l₁, there, kept⟩ := spared.loop l here
    obtain ⟨blocks, same, passages⟩ := fits.passages l here
    constructor
    case passages =>
      intro l' here'
      obtain rfl : l₁ = l' := Option.some.inj (there.symm.trans here')
      refine ⟨blocks, same, ?_⟩
      rw [spared.acts]
      exact passages.imp fun a notes passage => passage.of_akin kept.akin
    case absent =>
      intro absent
      simp [there] at absent
  | none =>
    obtain ⟨untaken, idle⟩ := fits.absent here
    constructor
    case passages =>
      intro l there
      rw [spared.acts, idle, untaken]
      exact ⟨[], rfl, .nil⟩
    case absent =>
      intro absent
      rw [spared.acts]
      exact ⟨untaken, idle⟩

end

section
variable [DecidableEq α] {s t : Traffic ι α} {k : Nat} {turns : List (List (Note α))}

theorem Move.turn (move : Move s t) (k : Nat) :
    (∃ v, s.world.loopStep k = some v ∧ t = { s with world := v }) ∨
      s.world.Spared k t.world := by
  cases move with
  | ask c =>
    refine .inr ?_
    unfold Traffic.ask
    split <;> exact .refl k s.world
  | write => exact .inr (put_spared ..)
  | @step v st possible =>
    obtain ⟨l, t, rfl, -⟩ | ⟨-, spared⟩ := World.step_turn possible k
    · exact .inl ⟨v, possible, rfl⟩
    · exact .inr spared
  | command c => exact .inr (World.obey_spared ..)

/-- Every run has its chronicle, and nothing else has. -/
theorem ran_iff_chronicle (k : Nat) : Ran s ↔ ∃ turns, Chronicle k s turns := by
  constructor
  · intro ran
    induction ran with
    | start => exact ⟨[], .start⟩
    | next _ move ih =>
      obtain ⟨turns, chronicle⟩ := ih
      obtain ⟨v, taken, rfl⟩ | spared := move.turn k
      · exact ⟨_, chronicle.turn taken⟩
      · exact ⟨turns, chronicle.other move spared⟩
  · rintro ⟨turns, chronicle⟩
    induction chronicle with
    | start => exact .start
    | turn _ taken ih => exact ih.next (.step (.loop k) taken)
    | other _ move _ ih => exact ih.next move

theorem Chronicle.fits (chronicle : Chronicle k s turns) : Fits s.world k turns := by
  induction chronicle with
  | start => exact ⟨by simp, fun _ => ⟨rfl, rfl⟩⟩
  | turn _ taken ih =>
    obtain ⟨l, t, here, takes, rfl⟩ := World.loopStep_takes taken
    rw [World.added_turned]
    exact ih.turned here takes
  | other _ _ spared ih => exact ih.spared spared

theorem Chronicle.reportLaw (chronicle : Chronicle k s turns) : ReportLaw s.world k turns := by
  have fits := chronicle.fits
  constructor
  case passages => exact fits.passages
  case kinds =>
    intro a did m e told
    cases here : s.world.loops[k]? with
    | none => simp [(fits.absent here).2] at did
    | some l =>
      obtain ⟨blocks, -, passages⟩ := fits.passages l here
      obtain ⟨i, bound, rfl⟩ := List.mem_iff_getElem.mp did
      have passage := passages.get bound (passages.length_eq ▸ bound)
      exact passage.kind told
  case failures =>
    intro l listener here direct
    obtain ⟨blocks, same, passages⟩ := fits.passages l here
    rw [same]
    exact ReadLoop.filterMap_passages passages fun a notes passage => passage.failures direct
  case calls =>
    intro l listener here direct
    obtain ⟨blocks, same, passages⟩ := fits.passages l here
    rw [same]
    exact ReadLoop.filterMap_passages passages fun a notes passage => passage.calls direct

end

end Traffic

end Queue

end Courier
