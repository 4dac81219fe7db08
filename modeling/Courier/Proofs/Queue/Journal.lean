import Courier.Proofs.Queue.Spared

/-!
# What a move enters in the journal

A move is a turn of a loop, with the turn's notes, or it leaves the loops alone:

* `Note.deed`: what any loop did, told apart from what was published and said;
* `notes`: the journal, the first note first;
* `Quiet`: nothing is noted but what was said;
* `Entry`: everything that a move can do to the ledger, the loops and the journal at once;
* `step_entry`, `command_entry`, `put_entry`: steps, commands and publications do nothing else.
-/

namespace Courier.Queue

open Broker (Transport Ledger)

variable {T α : Type} [Transport T]

/-- A note of what was said. It is neither the act of a loop nor a publication. -/
def Note.isSaid : Note α → Bool
  | .heard .. | .line _ => true
  | .act .. | .published .. => false

@[simp] theorem isSaid_noteOf (label : String) (u : Utterance α) :
    (noteOf label u).isSaid = true := by
  cases u <;> rfl

/-- The act that a note records, whichever loop did it. -/
def Note.deed : Note α → Option Act
  | .act _ _ a => some a
  | _ => none

theorem said_of_told {l : ReadLoop T α} {m : Message} {r : Except Error Unit} {n : Note α}
    (told : n ∈ l.toldOf m r) : n.isSaid = true := by
  cases r with
  | ok => cases told
  | error e =>
    obtain rfl := List.mem_singleton.mp told
    exact isSaid_noteOf ..

theorem said_of_received {l : ReadLoop T α} {m : Message} {n : Note α}
    (received : n ∈ l.receivedNotes m) : n.isSaid = true := by
  unfold ReadLoop.receivedNotes at received
  split at received
  · obtain rfl := List.mem_singleton.mp received
    rfl
  · cases received

/-- What a loop's turn notes are acts of the loop, and what is said over them. -/
theorem takes_notes {k now : Nat} {b : T} {l : ReadLoop T α} {t : Turn T α}
    (takes : l.Takes k now b t) {n : Note α} (noted : n ∈ t.notes) :
    n.isSaid = true ∨ ∃ a, n = .act k l.topic.name a := by
  cases takes with
  | park | rise | fail => cases noted
  | stop | lose =>
    obtain rfl | rfl : n = l.streamNote _ _ ∨ n = .act k l.topic.name .closed := by
      simpa using noted
    · exact .inl rfl
    · exact .inr ⟨_, rfl⟩
  | leave => exact .inr ⟨_, List.mem_singleton.mp noted⟩
  | @deliver _ _ m _ said =>
    obtain rfl | received | ⟨u, -, rfl⟩ : n = .act k l.topic.name (.delivered m) ∨
        n ∈ l.receivedNotes m ∨ ∃ u ∈ said, noteOf l.label u = n := by simpa using noted
    · exact .inr ⟨_, rfl⟩
    · exact .inl (said_of_received received)
    · exact .inl (isSaid_noteOf ..)
  | @falter _ _ e =>
    obtain rfl | rfl | rfl : n = .act k l.topic.name (.fetchFailed e) ∨ n = noteOf _ _ ∨
        n = .act k l.topic.name (.rested _) := by simpa using noted
    · exact .inr ⟨_, rfl⟩
    · exact .inl (isSaid_noteOf ..)
    · exact .inr ⟨_, rfl⟩
  | @accept _ _ m _ r =>
    obtain rfl | rfl | told : n = .act k l.topic.name (.answered m true) ∨
        n = .act k l.topic.name (.committed m r) ∨ n ∈ l.toldOf m r := by simpa using noted
    · exact .inr ⟨_, rfl⟩
    · exact .inr ⟨_, rfl⟩
    · exact .inl (said_of_told told)
  | @reject _ _ m _ r =>
    obtain rfl | rfl | told | rfl : n = .act k l.topic.name (.answered m false) ∨
        n = .act k l.topic.name (.withheld m r) ∨ n ∈ l.toldOf m r ∨
        n = .act k l.topic.name (.rested _) := by simpa using noted
    · exact .inr ⟨_, rfl⟩
    · exact .inr ⟨_, rfl⟩
    · exact .inl (said_of_told told)
    · exact .inr ⟨_, rfl⟩

theorem KeptAll.map_eq {β : Type} {a b : List (ReadLoop T α)} (h : KeptAll a b)
    {f : ReadLoop T α → β} (same : ∀ l l', Kept l l' → f l' = f l) : b.map f = a.map f := by
  apply List.ext_getElem?
  intro k
  have rel := h k
  simp only [List.getElem?_map]
  cases here : a[k]? with
  | none =>
    cases there : b[k]? with
    | none => rfl
    | some l' =>
      rw [here, there] at rel
      cases rel
  | some l =>
    obtain ⟨l', there, kept⟩ := h.of_some here
    simp [there, same l l' kept]

@[simp] theorem deed_act (k : Nat) (topic : String) (a : Act) :
    (Note.act k topic a : Note α).deed = some a := rfl

theorem deed_of_said {n : Note α} (said : n.isSaid = true) : n.deed = none := by
  cases n with
  | heard | line => rfl
  | act | published => cases said

theorem deeds_of_said {said : List (Note α)} (all : ∀ n ∈ said, n.isSaid = true) :
    said.filterMap Note.deed = [] :=
  List.filterMap_eq_nil_iff.mpr fun n member => deed_of_said (all n member)

@[simp] theorem deed_noteOf (label : String) (u : Utterance α) : (noteOf label u).deed = none :=
  deed_of_said (isSaid_noteOf label u)

@[simp] theorem deed_utterances (label : String) (said : List (Utterance α)) :
    said.filterMap (Note.deed ∘ noteOf label) = [] := by
  simp

@[simp] theorem deed_streamNote (l : ReadLoop T α) (level : Log.Level) (reason : String) :
    (l.streamNote level reason).deed = none := rfl

@[simp] theorem deed_toldOf (l : ReadLoop T α) (m : Message) (r : Except Error Unit) :
    (l.toldOf m r).filterMap Note.deed = [] :=
  deeds_of_said fun _ => said_of_told

@[simp] theorem deed_receivedNotes (l : ReadLoop T α) (m : Message) :
    (l.receivedNotes m).filterMap Note.deed = [] :=
  deeds_of_said fun _ => said_of_received

namespace World

def notes (w : World T α) : List (Note α) := (w.journal.map (·.2)).reverse

theorem notes_note (w : World T α) (n : Note α) : (w.note n).notes = w.notes ++ [n] := by
  simp [notes, note]

theorem notes_jot (w : World T α) (more : List (Note α)) :
    (w.jot more).notes = w.notes ++ more := by
  rw [notes, jot, List.map_append, List.map_reverse, List.map_map, List.reverse_append,
    List.reverse_reverse]
  exact congrArg (w.notes ++ ·) (List.map_id more)

theorem notes_turned (w : World T α) (k : Nat) (t : Turn T α) :
    (w.turned k t).notes = w.notes ++ t.notes :=
  notes_jot w t.notes

theorem acts_eq_notes (w : World T α) (k : Nat) : w.acts k = w.notes.filterMap (·.actOf k) := by
  rw [acts, notes, List.filterMap_reverse, List.filterMap_map]
  rfl

theorem count_eq_notes (w : World T α) (m : Metric) (topic : String) :
    w.count m topic = w.notes.countP fun n => n.counts == some (m, topic) := by
  simp [count, notes, List.countP_map, Function.comp_def]

/-- Between `w` and `v` nothing was noted but what was said. -/
def Quiet (w v : World T α) : Prop :=
  ∃ said, v.notes = w.notes ++ said ∧ ∀ n ∈ said, n.isSaid = true

theorem quiet_of_journal {w v : World T α} (same : v.journal = w.journal) : Quiet w v := by
  refine ⟨[], ?_, by simp⟩
  rw [notes, same, notes, List.append_nil]

theorem Quiet.refl (w : World T α) : Quiet w w := quiet_of_journal rfl

/-- What only other notes have is the same. -/
theorem Quiet.filterMap {w v : World T α} {β : Type} {f : Note α → Option β} (quiet : Quiet w v)
    (none : ∀ n, n.isSaid = true → f n = none) : v.notes.filterMap f = w.notes.filterMap f := by
  obtain ⟨said, noted, all⟩ := quiet
  rw [noted, List.filterMap_append,
    List.filterMap_eq_nil_iff.mpr fun n member => none n (all n member), List.append_nil]

theorem quiet_note (w : World T α) {n : Note α} (said : n.isSaid = true) : Quiet w (w.note n) := by
  refine ⟨[n], notes_note w n, ?_⟩
  intro n' member
  rw [List.mem_singleton.mp member, said]

theorem quiet_report (w : World T α) (l : ReadLoop T α) (m : Option Message) (e : Error) :
    Quiet w (w.report l m e) := by
  rw [report, utter_eq_note]
  exact quiet_note w (isSaid_noteOf ..)

theorem answerOffer_quiet (w : World T α) (k : Nat) (accepted : Bool) :
    Quiet w (w.answerOffer k accepted) := by
  unfold answerOffer
  split
  · next l _ =>
    split
    · next m _ =>
      cases accepted with
      | true => exact quiet_of_journal rfl
      | false => exact quiet_report w l (some m) Subscriber.handoffRefused
    · exact .refl w
  · exact .refl w

theorem callStep_quiet {w v : World T α} {c : Nat} (possible : w.callStep c = some v) :
    Quiet w v := by
  unfold callStep at possible
  split at possible
  · cases possible
  · next p _ =>
    split at possible
    · cases possible
    · split at possible
      · obtain rfl := Option.some.inj possible
        cases p.purpose with
        | shutdown => exact quiet_of_journal rfl
        | unsubscribe | close => exact quiet_note w rfl
      · split at possible
        · cases possible
        · next abnormal _ =>
          obtain rfl := Option.some.inj possible
          cases abnormal with
          | true => exact quiet_note w rfl
          | false => exact quiet_of_journal rfl

theorem poolStep_quiet [DecidableEq α] {w v : World T α} {p : Nat} {s : Pool.Step}
    (possible : w.poolStep p s = some v) : Quiet w v := by
  obtain ⟨pool, pool', effect, -, -, rfl⟩ := poolStep_worked possible
  unfold worked
  cases effect with
  | accepted k | refused k => exact answerOffer_quiet ..
  | started value => exact quiet_note w rfl
  | finished value released => cases released <;> exact quiet_note w rfl
  | none => exact quiet_of_journal rfl

/-- What a move does to the ledger, the loops and the journal: what it does to the ledger from
outside, and what it publishes, if it does. -/
inductive Entry (w v : World Ledger α) : Option Ledger.Control → Option (Record × Bool) → Prop where
  | turn {k : Nat} {l : ReadLoop Ledger α} {t : Turn Ledger α} (here : w.loops[k]? = some l)
    (takes : l.Takes k w.now w.broker t) (eq : v = w.turned k t) : Entry w v none none
  /-- A record is written, or it is refused. -/
  | put (r : Record) (ok : Bool)
    (ledger : v.broker =
      if ok then w.broker.append r.topic.name (w.broker.entry w.now r) else w.broker)
    (loops : KeptAll w.loops v.loops) (noted : v.notes = w.notes ++ [.published r ok]) :
    Entry w v none (some (r, ok))
  | subscribe {l : ReadLoop Ledger α} (untried : l.Untried)
    (reader : l.reader = w.broker.openReader l.topic l.group) (ledger : v.broker = w.broker)
    (loops : v.loops = w.loops ++ [l]) (quiet : Quiet w v) : Entry w v none none
  | probe (ledger : v.broker = w.broker.probe.2) (loops : v.loops = w.loops) (quiet : Quiet w v) :
    Entry w v none none
  | control (c : Ledger.Control) (ledger : v.broker = w.broker.control c)
    (loops : KeptAll w.loops v.loops) (quiet : Quiet w v) : Entry w v (some c) none
  | other (ledger : v.broker = w.broker) (loops : KeptAll w.loops v.loops) (quiet : Quiet w v) :
    Entry w v none none

theorem Entry.refl (w : World Ledger α) : Entry w w none none := .other rfl (.refl _) (.refl w)

theorem Apart.entry {w v : World Ledger α} (apart : Apart w v) (quiet : Quiet w v) :
    Entry w v none none :=
  .other apart.broker apart.loops quiet

theorem step_entry [DecidableEq α] {w v : World Ledger α} {s : Step}
    (possible : w.step s = some v) : Entry w v none none := by
  cases s with
  | loop k =>
    obtain ⟨l, t, here, takes, eq⟩ := loopStep_takes possible
    exact .turn here takes eq
  | pool p s => exact (poolStep_apart possible).entry (poolStep_quiet possible)
  | call c => exact (callStep_apart possible).entry (callStep_quiet possible)
  | wait ms =>
    obtain rfl := Option.some.inj possible
    exact .other rfl (.refl _) (quiet_of_journal rfl)

theorem put_entry (w : World Ledger α) (q : Nat) (r : Record) :
    ∃ ok, Entry w (w.put q r).2 none (some (r, ok)) := by
  obtain eq | ⟨e, eq⟩ := put_eq w q r
  · rw [eq]
    exact ⟨true, .put r true rfl (wake_kept _) (notes_note ..)⟩
  · rw [eq]
    exact ⟨false, .put r false rfl (.refl _) (notes_note ..)⟩

theorem publish_entry (w : World Ledger α) (q : Nat) (topic : Topic) (payload : Payload) :
    ∃ p, Entry w (w.publish q topic payload).2 none p := by
  rw [publish_eq]
  split
  · exact ⟨none, .refl w⟩
  · next r _ =>
    split
    · exact ⟨none, .refl w⟩
    · obtain ⟨ok, entry⟩ := put_entry w q r
      exact ⟨_, entry⟩

theorem connect_entry (w : World Ledger α) (files : Files) (config : Broker.Config) :
    Entry w (w.connect files config).2 none none := by
  unfold connect
  cases config.validate files with
  | error e => exact .refl w
  | ok connection =>
    simp only [Transport.probe, Transport.openWriter, Ledger.probe]
    split
    · exact .probe rfl rfl (quiet_of_journal rfl)
    · exact .probe rfl rfl (quiet_note _ rfl)

theorem subscribe_entry (w : World Ledger α) (q : Nat) (topic : Topic) (group label : String)
    (subscriber : Subscriber α) :
    Entry w (w.subscribe q topic group label subscriber).2 none none := by
  unfold subscribe
  split
  · exact .refl w
  · exact .refl w
  · split
    · exact .refl w
    · exact .subscribe ⟨rfl, rfl, rfl⟩ rfl rfl rfl (quiet_note _ rfl)

theorem unsubscribe_entry (w : World Ledger α) (q : Nat) (id : SubscriptionId) :
    Entry w (w.unsubscribe q id).2 none none := by
  unfold unsubscribe
  split
  · exact .refl w
  · split
    · exact .refl w
    · exact .other rfl (cancelLoop_kept _ _) (quiet_of_journal rfl)

theorem close_entry (w : World Ledger α) (q : Nat) : Entry w (w.close q).2 none none := by
  unfold close
  split
  · exact .refl w
  · split
    · exact .refl w
    · exact .other rfl (cancelAll_kept w q) (quiet_of_journal rfl)

theorem control_entry (w : World Ledger α) (c : Ledger.Control) :
    Entry w (w.control c) (some c) none := by
  unfold control
  simp only [Transport.control]
  split
  · exact .control c rfl (wake_kept _) (quiet_of_journal rfl)
  · exact .control c rfl (.refl _) (quiet_of_journal rfl)

/-- What a command does to the ledger from outside. -/
def Command.controls : Command Ledger α → Option Ledger.Control
  | .control c => some c
  | _ => none

theorem silent_entry (w : World Ledger α) {c : Command Ledger α} (silent : c.publishes = false) :
    Entry w (w.obey c) c.controls none := by
  cases c with
  | connect files config => exact connect_entry w files config
  | publish | publishJson => simp [Command.publishes] at silent
  | subscribe q topic group label s => exact subscribe_entry w q topic group label s
  | unsubscribe q id => exact unsubscribe_entry w q id
  | close q => exact close_entry w q
  | drop q => exact .other rfl (cancelAll_kept w q) (quiet_of_journal rfl)
  | startPool | closePool | shutdownPool | release =>
    exact .other rfl (.refl _) (quiet_of_journal rfl)
  | control c => exact control_entry w c

theorem command_entry (w : World Ledger α) (c : Command Ledger α) :
    ∃ p, Entry w (w.obey c) c.controls p := by
  cases silent : c.publishes with
  | false => exact ⟨none, silent_entry w silent⟩
  | true =>
    cases c with
    | publish q topic payload => exact publish_entry w q topic payload
    | publishJson q topic value =>
      cases value with
      | error reason => exact ⟨none, .refl w⟩
      | ok json => exact publish_entry w q topic _
    | _ => cases silent

/-- What becomes of a loop with a move: it takes a turn, or others move it on. -/
theorem Entry.loop {w v : World Ledger α} {c : Option Ledger.Control} {p : Option (Record × Bool)}
    {k : Nat} (entry : Entry w v c p) {l : ReadLoop Ledger α} (here : w.loops[k]? = some l) :
    (∃ t, l.Takes k w.now w.broker t ∧ v = w.turned k t) ∨
      ∃ l', v.loops[k]? = some l' ∧ Kept l l' ∧ v.acts k = w.acts k := by
  have silent {since : List (Note α)} (noted : v.notes = w.notes ++ since)
      (none : since.filterMap (·.actOf k) = []) : v.acts k = w.acts k := by
    rw [acts_eq_notes, acts_eq_notes, noted, List.filterMap_append, none, List.append_nil]
  have still (quiet : Quiet w v) : v.acts k = w.acts k := by
    rw [acts_eq_notes, acts_eq_notes]
    refine quiet.filterMap fun n said => ?_
    cases n with
    | heard | line => rfl
    | act | published => cases said
  cases entry with
  | @turn j l₀ t there takes eq =>
    by_cases mine : j = k
    · subst mine
      obtain rfl : l = l₀ := Option.some.inj (here.symm.trans there)
      exact .inl ⟨t, takes, eq⟩
    · subst eq
      exact .inr ⟨l, (turned_ne t mine).trans here, .refl l, acts_turned_ne takes mine⟩
  | put r ok _ loops noted =>
    obtain ⟨l', there, kept⟩ := loops.of_some here
    exact .inr ⟨l', there, kept, silent noted rfl⟩
  | subscribe _ _ _ loops quiet =>
    have bound := (List.getElem?_eq_some_iff.mp here).1
    refine .inr ⟨l, ?_, .refl l, still quiet⟩
    rw [loops, List.getElem?_append_left bound, here]
  | probe _ loops quiet => exact .inr ⟨l, by rw [loops, here], .refl l, still quiet⟩
  | control _ _ loops quiet | other _ loops quiet =>
    obtain ⟨l', there, kept⟩ := loops.of_some here
    exact .inr ⟨l', there, kept, still quiet⟩

/-- A loop that was not there before a move is new after it, and reads from an open stream. -/
theorem Entry.made {w v : World Ledger α} {c : Option Ledger.Control} {p : Option (Record × Bool)}
    {k : Nat} (entry : Entry w v c p) (absent : w.loops[k]? = none) {l : ReadLoop Ledger α}
    (here : v.loops[k]? = some l) :
    l.Untried ∧ l.reader = w.broker.openReader l.topic l.group ∧ v.broker = w.broker := by
  have kept (loops : KeptAll w.loops v.loops) : False := by
    have rel := loops k
    rw [absent, here] at rel
    cases rel
  cases entry with
  | @turn j _ t _ _ eq =>
    subst eq
    have none : (w.turned j t).loops[k]? = none := by simpa [turned] using absent
    rw [none] at here
    cases here
  | subscribe untried reader ledger loops =>
    rw [loops] at here
    obtain old | ⟨-, rfl⟩ := getElem?_concat_some here
    · simp [absent] at old
    · exact ⟨untried, reader, ledger⟩
  | probe _ loops =>
    rw [loops, absent] at here
    cases here
  | put _ _ _ loops | control _ _ loops | other _ loops => exact (kept loops).elim

section
variable [DecidableEq α] {w v : World Ledger α}

def Attempt.controls : Attempt Ledger α → Option Ledger.Control
  | .command c => c.controls
  | .step _ => none

theorem attempt_entry (w : World Ledger α) (a : Attempt Ledger α) :
    ∃ p, Entry w (w.attempt a) a.controls p := by
  cases a with
  | command c => exact command_entry w c
  | step s =>
    cases possible : w.step s with
    | none =>
      have same : w.attempt (.step s) = w := by simp [attempt, possible]
      rw [same]
      exact ⟨none, .refl w⟩
    | some v =>
      have taken : w.attempt (.step s) = v := by simp [attempt, possible]
      rw [taken]
      exact ⟨none, step_entry possible⟩

theorem move_entry (move : Move w v) : ∃ c p, Entry w v c p := by
  cases move with
  | step s possible => exact ⟨none, none, step_entry possible⟩
  | command c =>
    obtain ⟨p, entry⟩ := command_entry w c
    exact ⟨c.controls, p, entry⟩

end

end World

end Courier.Queue
