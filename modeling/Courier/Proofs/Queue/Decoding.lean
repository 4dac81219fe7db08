import Courier.Proofs.Queue.Delivery
import Courier.Proofs.Queue.Transcript

/-!
# Messages that cannot be decoded

A typed subscriber calls its listener with what a message decodes to. What
cannot be decoded is reported and counts as accepted:

* `Script`: what the loop of a typed subscriber says, turn by turn;
* `takes_script`: every turn goes on with the script;
* `Placed.accepted_eq`: what was accepted is the log itself, from the start on;
* `decoding_law`: the listener is called with the log decoded, nothing else, and
  no message holds up those behind it.
-/

namespace Courier

def Decoder.value {α : Type} (decoder : Decoder α) (m : Message) : Option α :=
  (decoder.decode m.payload).toOption

/-- The call that an answer comes from: the value and what the listener said to it. -/
def Decoder.call {α : Type} (decoder : Decoder α) : Message × Bool → Option (α × Bool)
  | (m, accept) => (decoder.value m).map (·, accept)

theorem Decoder.call_fst {α : Type} (decoder : Decoder α) (answers : List (Message × Bool)) :
    (answers.filterMap decoder.call).map (·.1) =
      (answers.map (·.1)).filterMap decoder.value := by
  rw [List.map_filterMap, List.filterMap_map]
  congr
  funext ⟨m, accept⟩
  cases h : decoder.value m <;> simp [Decoder.call, h]

theorem Decoder.approved_eq {α : Type} (decoder : Decoder α) (answers : List (Message × Bool)) :
    ((answers.filterMap decoder.call).filter (·.2)).map (·.1) =
      ((answers.filter (·.2)).map (·.1)).filterMap decoder.value := by
  induction answers with
  | nil => rfl
  | cons answer answers ih =>
    obtain ⟨m, accept⟩ := answer
    cases h : decoder.value m <;> cases accept <;> simp_all [Decoder.call]

namespace Queue

open Broker (Ledger)

variable {α β : Type}

def Note.call : Note α → Option (α × Bool)
  | .heard _ (.value v accept) => some (v, accept)
  | _ => none

/-- Notes in which no message is handed over or answered, and nobody is called. -/
structure Quiet (k : Nat) (notes : List (Note α)) : Prop where
  calls : notes.filterMap Note.call = []
  deliveries : (notes.filterMap (·.actOf k)).filterMap Act.delivery = []
  answers : (notes.filterMap (·.actOf k)).filterMap Act.answer = []

/-- A message is handed over; debug lines may come before what the subscriber says. -/
def handing (k : Nat) (topic : String) (m : Message) (lines : List Log.Line) (said : Note α) :
    List (Note α) :=
  .act k topic (.delivered m) :: (lines.map .line ++ [said])

/-- What a typed subscriber lets out of a call that failed. -/
def failing (m : Message) : Except Error Unit → List (Note α)
  | .ok () => []
  | .error e => [.line (Subscriber.typedError (some m) e)]

def accepting (k : Nat) (topic : String) (m : Message) (r : Except Error Unit) : List (Note α) :=
  .act k topic (.answered m true) :: .act k topic (.committed m r) :: failing m r

def rejecting (k : Nat) (topic : String) (m : Message) (r : Except Error Unit) (ms : Nat) :
    List (Note α) :=
  .act k topic (.answered m false) :: .act k topic (.withheld m r) ::
    (failing m r ++ [.act k topic (.rested ms)])

/-- What the loop of a typed subscriber says, turn by turn, with the number of its listener's
calls and the message in hand with its answer. -/
inductive Script (k : Nat) (topic : String) (decoder : Decoder α) (listener : Listener α) :
    List (List (Note α)) → Nat → Option (Message × Bool) → Prop where
  | start : Script k topic decoder listener [] 0 none
  | quiet {said : List (List (Note α))} {calls : Nat} {notes : List (Note α)}
    (before : Script k topic decoder listener said calls none) (quiet : Quiet k notes) :
    Script k topic decoder listener (said ++ [notes]) calls none
  | call {said : List (List (Note α))} {calls : Nat} {m : Message} {value : α}
    (before : Script k topic decoder listener said calls none)
    (decoded : decoder.decode m.payload = .ok value) {lines : List Log.Line}
    (debug : ∀ line ∈ lines, line.level = .debug) (label : String) :
    Script k topic decoder listener
      (said ++ [handing k topic m lines
        (.heard label (.value value (listener.decide calls value).accept))])
      (calls + 1) (some (m, (listener.decide calls value).accept))
  /-- A message that cannot be decoded is reported and accepted. -/
  | drop {said : List (List (Note α))} {calls : Nat} {m : Message} {e : Error}
    (before : Script k topic decoder listener said calls none)
    (undecoded : decoder.decode m.payload = .error e) {lines : List Log.Line}
    (debug : ∀ line ∈ lines, line.level = .debug) :
    Script k topic decoder listener
      (said ++ [handing k topic m lines (.line (Subscriber.typedError (some m) e))])
      calls (some (m, true))
  | accept {said : List (List (Note α))} {calls : Nat} {m : Message}
    (before : Script k topic decoder listener said calls (some (m, true)))
    (r : Except Error Unit) :
    Script k topic decoder listener (said ++ [accepting k topic m r]) calls none
  | reject {said : List (List (Note α))} {calls : Nat} {m : Message}
    (before : Script k topic decoder listener said calls (some (m, false)))
    (r : Except Error Unit) (ms : Nat) :
    Script k topic decoder listener (said ++ [rejecting k topic m r ms]) calls none
  /-- The listener has failed over a value, and its answer is never heard. -/
  | fall {said : List (List (Note α))} {calls : Nat} {m : Message} {accept : Bool}
    (before : Script k topic decoder listener said calls (some (m, accept)))
    (readable : decoder.value m ≠ none) :
    Script k topic decoder listener (said ++ [[]]) calls (some (m, accept))

/-- What a loop is at, as far as the message in hand goes. -/
inductive Holds (decoder : Decoder α) (now : Nat) (l : ReadLoop Ledger α) :
    Option (Message × Bool) → Prop where
  | nothing (free : ∀ m stage, l.phase ≠ .handling m stage) (alive : l.phase ≠ .failed) :
    Holds decoder now l none
  /-- An answer that nobody was called for is there at once. -/
  | answer {m : Message} {accept : Bool} {due : Nat}
    (phase : l.phase = .handling m (.answered accept due))
    (prompt : decoder.value m = none → due ≤ now) : Holds decoder now l (some (m, accept))
  | failure {m : Message} {accept : Bool}
    (phase : (∃ due, l.phase = .handling m (.failing due)) ∨ l.phase = .failed)
    (called : decoder.value m ≠ none) : Holds decoder now l (some (m, accept))

section
variable {decoder : Decoder α} {listener : Listener α} {k now : Nat} {topic : String}

@[simp] theorem call_act (j : Nat) (topic : String) (a : Act) :
    (Note.act j topic a : Note α).call = none := rfl

@[simp] theorem call_line (line : Log.Line) : (Note.line line : Note α).call = none := rfl

@[simp] theorem call_value (label : String) (value : α) (accept : Bool) :
    (Note.heard label (.value value accept)).call = some (value, accept) := rfl

@[simp] theorem actOf_heard (label : String) (e : Event α) (j : Nat) :
    (Note.heard label e).actOf j = none := rfl

theorem filterMap_lines (lines : List Log.Line) (f : Note α → Option β)
    (silent : ∀ line, f (.line line) = none) : (lines.map Note.line).filterMap f = [] := by
  rw [List.filterMap_map]
  exact List.filterMap_eq_nil_iff.mpr fun line _ => silent line

theorem filterMap_failing (m : Message) (r : Except Error Unit) (f : Note α → Option β)
    (silent : ∀ line, f (.line line) = none) : (failing m r).filterMap f = [] := by
  cases r with
  | ok => rfl
  | error e => exact filterMap_lines [_] f silent

@[simp] theorem calls_handing (m : Message) (lines : List Log.Line) (said : Note α) :
    (handing k topic m lines said).filterMap Note.call = said.call.toList := by
  rw [handing, List.filterMap_cons, List.filterMap_append, filterMap_lines _ _ call_line]
  cases call : said.call <;> simp [call]

@[simp] theorem acts_handing (m : Message) (lines : List Log.Line) (said : Note α) :
    (handing k topic m lines said).filterMap (·.actOf k) =
      .delivered m :: (said.actOf k).toList := by
  rw [handing, List.filterMap_cons, List.filterMap_append, filterMap_lines _ _ (actOf_line k)]
  cases act : said.actOf k <;> simp [act]

@[simp] theorem calls_accepting (m : Message) (r : Except Error Unit) :
    (accepting k topic m r : List (Note α)).filterMap Note.call = [] :=
  filterMap_failing m r _ call_line

@[simp] theorem acts_accepting (m : Message) (r : Except Error Unit) :
    (accepting k topic m r : List (Note α)).filterMap (·.actOf k) =
      [.answered m true, .committed m r] := by
  simp [accepting, filterMap_failing m r _ (actOf_line (α := α) k)]

@[simp] theorem calls_rejecting (m : Message) (r : Except Error Unit) (ms : Nat) :
    (rejecting k topic m r ms : List (Note α)).filterMap Note.call = [] := by
  simp [rejecting, List.filterMap_cons, filterMap_failing m r _ (call_line (α := α))]

@[simp] theorem acts_rejecting (m : Message) (r : Except Error Unit) (ms : Nat) :
    (rejecting k topic m r ms : List (Note α)).filterMap (·.actOf k) =
      [.answered m false, .withheld m r, .rested ms] := by
  simp [rejecting, filterMap_failing m r _ (actOf_line (α := α) k)]

def callsIn (said : List (List (Note α))) : List (α × Bool) := said.flatten.filterMap Note.call

def actsIn (k : Nat) (said : List (List (Note α))) : List Act :=
  said.flatten.filterMap (·.actOf k)

@[simp] theorem callsIn_concat (said : List (List (Note α))) (notes : List (Note α)) :
    callsIn (said ++ [notes]) = callsIn said ++ notes.filterMap Note.call := by
  simp [callsIn]

@[simp] theorem actsIn_concat (k : Nat) (said : List (List (Note α))) (notes : List (Note α)) :
    actsIn k (said ++ [notes]) = actsIn k said ++ notes.filterMap (·.actOf k) := by
  simp [actsIn]

namespace Script

variable {said : List (List (Note α))} {calls : Nat} {pending : Option (Message × Bool)}

/-- The listener has been called for what was answered and for the message in hand, where they
can be decoded. -/
theorem calls_eq (h : Script k topic decoder listener said calls pending) :
    callsIn said =
      ((actsIn k said).filterMap Act.answer ++ pending.toList).filterMap decoder.call := by
  induction h with
  | start => rfl
  | quiet _ quiet ih => simpa [quiet.calls, quiet.answers] using ih
  | call _ decoded _ _ ih =>
    simpa [List.filterMap_cons, Act.answer, Decoder.call, Decoder.value, decoded,
      Except.toOption] using ih
  | drop _ undecoded _ ih =>
    simpa [List.filterMap_cons, Act.answer, Decoder.call, Decoder.value,
      undecoded, Except.toOption] using ih
  | accept _ r ih => simpa [List.filterMap_cons, Act.answer] using ih
  | reject _ r ms ih => simpa [List.filterMap_cons, Act.answer] using ih
  | fall _ _ ih => simpa using ih

theorem deliveries_eq (h : Script k topic decoder listener said calls pending) :
    (actsIn k said).filterMap Act.delivery =
      ((actsIn k said).filterMap Act.answer ++ pending.toList).map (·.1) := by
  induction h with
  | start => rfl
  | quiet _ quiet ih => simpa [quiet.deliveries, quiet.answers] using ih
  | call _ _ _ _ ih | drop _ _ _ ih =>
    simpa [List.filterMap_cons, Act.answer, Act.delivery] using ih
  | accept _ r ih =>
    simpa [List.filterMap_cons, Act.answer, Act.delivery] using ih
  | reject _ r ms ih =>
    simpa [List.filterMap_cons, Act.answer, Act.delivery] using ih
  | fall _ _ ih => simpa using ih

/-- The listener decides by the number of its calls so far. -/
theorem verdicts (h : Script k topic decoder listener said calls pending) :
    (callsIn said).length = calls ∧
      ∀ i value accept, (callsIn said)[i]? = some (value, accept) →
        accept = (listener.decide i value).accept := by
  induction h with
  | start => simp [callsIn]
  | quiet _ quiet ih => simpa [quiet.calls] using ih
  | @call said calls m value _ _ _ _ _ ih =>
    obtain ⟨count, verdict⟩ := ih
    simp only [callsIn_concat, calls_handing, call_value, Option.toList_some, List.length_append,
      List.length_singleton, count, true_and]
    intro i value' accept found
    obtain old | ⟨last, same⟩ := getElem?_concat_some found
    · exact verdict i value' accept old
    · obtain ⟨rfl, rfl⟩ := Prod.mk.inj same
      rw [last, count]
  | drop _ _ _ ih => simpa using ih
  | accept _ r ih => simpa using ih
  | reject _ r ms ih => simpa using ih
  | fall _ _ ih => simpa using ih

theorem undecoded (h : Script k topic decoder listener said calls pending) :
    ∀ answer ∈ (actsIn k said).filterMap Act.answer ++ pending.toList,
      decoder.value answer.1 = none → answer.2 = true := by
  induction h with
  | start => simp [actsIn]
  | quiet _ quiet ih => simpa only [actsIn_concat, List.filterMap_append, quiet.answers,
      List.append_nil] using ih
  | call _ decoded _ _ ih =>
    intro answer answered unreadable
    simp only [actsIn_concat, acts_handing, actOf_heard,
      Option.toList_some, Option.toList_none, List.append_nil, List.filterMap_append,
      List.filterMap_cons, List.filterMap_nil, Act.answer, List.mem_append,
      List.mem_singleton] at answered
    obtain earlier | rfl := answered
    · exact ih answer (List.mem_append_left _ earlier) unreadable
    · simp [Decoder.value, decoded, Except.toOption] at unreadable
  | drop _ _ _ ih =>
    intro answer answered unreadable
    simp only [actsIn_concat, acts_handing, actOf_line,
      Option.toList_some, Option.toList_none, List.append_nil, List.filterMap_append,
      List.filterMap_cons, List.filterMap_nil, Act.answer, List.mem_append,
      List.mem_singleton] at answered
    obtain earlier | rfl := answered
    · exact ih answer (List.mem_append_left _ earlier) unreadable
    · rfl
  | accept _ r ih =>
    simpa [List.filterMap_cons, Act.answer] using ih
  | reject _ r ms ih =>
    simpa [List.filterMap_cons, Act.answer] using ih
  | fall _ _ ih => simpa using ih

end Script

theorem delivered_mem {notes : List (Note α)} {m : Message}
    (given : .act k topic (.delivered m) ∈ notes) :
    m ∈ (notes.filterMap (·.actOf k)).filterMap Act.delivery := by
  have act : .delivered m ∈ notes.filterMap (·.actOf k) :=
    List.mem_filterMap.mpr ⟨_, given, by simp⟩
  exact List.mem_filterMap.mpr ⟨_, act, rfl⟩

/-- Turn `i` hands over a message that cannot be decoded: the subscriber reports that, once, and
calls nobody. The next turn attempts to commit it, or it is still in hand. -/
structure Dropped (k : Nat) (topic : String) (said : List (List (Note α))) (i : Nat) (m : Message)
    (e : Error) (inHand : Prop) : Prop where
  reported : ∃ lines : List Log.Line, (∀ line ∈ lines, line.level = .debug) ∧
    said[i]? = some (handing k topic m lines (.line (Subscriber.typedError (some m) e)))
  passed : (∃ r, said[i + 1]? = some (accepting k topic m r)) ∨ (i + 1 = said.length ∧ inHand)

theorem Dropped.snoc {said : List (List (Note α))} {i : Nat} {m : Message} {e : Error}
    {inHand inHand' : Prop} (h : Dropped k topic said i m e inHand) {notes : List (Note α)}
    (next : inHand → ∃ r, notes = accepting k topic m r) :
    Dropped k topic (said ++ [notes]) i m e inHand' := by
  obtain ⟨⟨lines, debug, reported⟩, passed⟩ := h
  have bound := (List.getElem?_eq_some_iff.mp reported).1
  constructor
  case reported => exact ⟨lines, debug, by rw [List.getElem?_append_left bound, reported]⟩
  case passed =>
    obtain ⟨r, accepted⟩ | ⟨last, held⟩ := passed
    · have bound := (List.getElem?_eq_some_iff.mp accepted).1
      exact .inl ⟨r, by rw [List.getElem?_append_left bound, accepted]⟩
    · obtain ⟨r, rfl⟩ := next held
      exact .inl ⟨r, by rw [last, List.getElem?_concat_length]⟩

theorem Dropped.imp {said : List (List (Note α))} {i : Nat} {m : Message} {e : Error}
    {inHand inHand' : Prop} (h : Dropped k topic said i m e inHand) (weaker : inHand → inHand') :
    Dropped k topic said i m e inHand' :=
  ⟨h.reported, h.passed.imp_right fun ⟨last, held⟩ => ⟨last, weaker held⟩⟩

/-- Every message of a transcript that cannot be decoded is dropped; the last one may be in hand. -/
def Drops (k : Nat) (topic : String) (decoder : Decoder α) (said : List (List (Note α)))
    (pending : Option (Message × Bool)) : Prop :=
  ∀ i notes m e, said[i]? = some notes → .act k topic (.delivered m) ∈ notes →
    decoder.decode m.payload = .error e → Dropped k topic said i m e (pending = some (m, true))

/-- Only the last turn is new, and what was in hand before it is dealt with by it. -/
theorem Drops.concat {said : List (List (Note α))} {notes : List (Note α)}
    {pending pending' : Option (Message × Bool)} (h : Drops k topic decoder said pending)
    (next : ∀ m, decoder.value m = none → pending = some (m, true) →
      ∃ r, notes = accepting k topic m r)
    (last : ∀ m e, m ∈ (notes.filterMap (·.actOf k)).filterMap Act.delivery →
      decoder.decode m.payload = .error e →
      Dropped k topic (said ++ [notes]) said.length m e (pending' = some (m, true))) :
    Drops k topic decoder (said ++ [notes]) pending' := by
  intro i notes' m e turn given undecoded
  obtain old | ⟨rfl, rfl⟩ := getElem?_concat_some turn
  · have unreadable : decoder.value m = none := by simp [Decoder.value, undecoded, Except.toOption]
    exact (h i notes' m e old given undecoded).snoc (next m unreadable)
  · exact last m e (delivered_mem given) undecoded

theorem Script.dropped {said : List (List (Note α))} {calls : Nat}
    {pending : Option (Message × Bool)}
    (h : Script k topic decoder listener said calls pending) :
    Drops k topic decoder said pending := by
  induction h with
  | start => simp [Drops]
  | quiet before quiet ih => exact ih.concat (by simp) (by simp [quiet.deliveries])
  | call before decoded debug label ih =>
    apply ih.concat (by simp)
    intro m e given undecoded
    obtain rfl : m = _ := by simpa [List.filterMap_cons, Act.delivery] using given
    simp [undecoded] at decoded
  | drop before undecoded' debug ih =>
    apply ih.concat (by simp)
    intro m e given undecoded
    obtain rfl : m = _ := by simpa [List.filterMap_cons, Act.delivery] using given
    obtain rfl := Except.error.inj (undecoded.symm.trans undecoded')
    exact ⟨⟨_, debug, List.getElem?_concat_length⟩, .inr ⟨by simp, rfl⟩⟩
  | accept before r ih =>
    refine ih.concat ?_ (by simp [List.filterMap_cons, Act.delivery])
    intro m _ held
    obtain ⟨rfl, -⟩ := Prod.mk.inj (Option.some.inj held)
    exact ⟨r, rfl⟩
  | reject before r ms ih =>
    exact ih.concat (by simp) (by simp [List.filterMap_cons, Act.delivery])
  | fall before readable ih =>
    refine ih.concat ?_ (by simp)
    intro m unreadable held
    obtain ⟨rfl, -⟩ := Prod.mk.inj (Option.some.inj held)
    exact absurd unreadable readable

namespace Holds

variable {now' : Nat} {l l' : ReadLoop Ledger α} {pending : Option (Message × Bool)}

/-- A loop that is between two messages, or has ended, holds none. -/
theorem aside (phase : l.phase = .ready ∨ l.phase = .parked ∨ l.phase = .ended ∨
    ∃ due, l.phase = .resting due) : Holds decoder now l none := by
  obtain phase | phase | phase | ⟨due, phase⟩ := phase <;>
    exact .nothing (by simp [phase]) (by simp [phase])

theorem none_of_free (h : Holds decoder now l pending)
    (free : l.phase = .ready ∨ l.phase = .parked ∨ ∃ due, l.phase = .resting due) :
    pending = none := by
  cases h with
  | nothing => rfl
  | answer phase =>
    obtain free | free | ⟨due, free⟩ := free <;> simp [phase] at free
  | failure phase =>
    obtain ⟨due, phase⟩ | phase := phase <;> obtain free | free | ⟨due, free⟩ := free <;>
      simp [phase] at free

theorem eq_of_answered (h : Holds decoder now l pending) {m : Message} {accept : Bool} {due : Nat}
    (phase : l.phase = .handling m (.answered accept due)) : pending = some (m, accept) := by
  cases h with
  | nothing free => exact absurd phase (free m _)
  | @answer m' accept' due' held =>
    obtain ⟨rfl, rfl, -⟩ : m = m' ∧ accept = accept' ∧ _ := by simpa [phase] using held
    rfl
  | failure failed => obtain ⟨due, failed⟩ | failed := failed <;> simp [phase] at failed

/-- Only a listener can fail, and it is called with what can be decoded. -/
theorem eq_of_failing (h : Holds decoder now l pending) {m : Message} {due : Nat}
    (phase : l.phase = .handling m (.failing due)) :
    ∃ accept, decoder.value m ≠ none ∧ pending = some (m, accept) := by
  cases h with
  | nothing free => exact absurd phase (free m _)
  | answer held => simp [phase] at held
  | @failure m' accept failed readable =>
    obtain ⟨due', failed⟩ | failed := failed
    · obtain ⟨rfl, -⟩ : m = m' ∧ due = due' := by simpa [phase] using failed
      exact ⟨accept, readable, rfl⟩
    · simp [phase] at failed

theorem not_offered (h : Holds decoder now l pending) (m : Message) :
    l.phase ≠ .handling m .offered := by
  intro offered
  cases h with
  | nothing free => exact free m _ offered
  | answer phase => simp [offered] at phase
  | failure phase => obtain ⟨due, phase⟩ | phase := phase <;> simp [offered] at phase

theorem kept (h : Holds decoder now l pending) (kept : Kept l l') (later : now ≤ now') :
    Holds decoder now' l' pending := by
  obtain same | ⟨parked, ready⟩ | ⟨m, accept, due, offered, -⟩ := kept.phase
  · cases h with
    | nothing free alive =>
      exact .nothing (by simpa [same] using free) (by simpa [same] using alive)
    | answer phase prompt =>
      refine .answer (same.trans phase) ?_
      intro unreadable
      exact Nat.le_trans (prompt unreadable) later
    | failure phase called => exact .failure (by simpa [same] using phase) called
  · obtain rfl := h.none_of_free (.inr (.inl parked))
    exact .nothing (by simp [ready]) (by simp [ready])
  · exact absurd offered (h.not_offered m)

end Holds

theorem toldOf_typed {l : ReadLoop Ledger α} (typed : l.subscriber = .typed decoder listener)
    (m : Message) (r : Except Error Unit) : l.toldOf m r = failing m r := by
  cases r with
  | ok => rfl
  | error e => simp [ReadLoop.toldOf, failing, typed, Subscriber.report, noteOf]

theorem receivedNotes_lines (l : ReadLoop Ledger α) (m : Message) :
    ∃ lines : List Log.Line, (∀ line ∈ lines, line.level = .debug) ∧
      l.receivedNotes m = lines.map .line := by
  unfold ReadLoop.receivedNotes
  split
  · exact ⟨[⟨.debug, "Message received", World.receivedFields l m⟩], by simp, rfl⟩
  · exact ⟨[], by simp, rfl⟩

/-- Every turn of a typed subscriber's loop goes on with the script. -/
theorem takes_script {b : Ledger} {l : ReadLoop Ledger α} {t : Turn Ledger α}
    {said : List (List (Note α))} {pending : Option (Message × Bool)}
    (typed : l.subscriber = .typed decoder listener) (holds : Holds decoder now l pending)
    (script : Script k l.topic.name decoder listener said l.calls pending)
    (takes : l.Takes k now b t) :
    ∃ pending', Holds decoder now t.loop pending' ∧
      Script k l.topic.name decoder listener (said ++ [t.notes]) t.loop.calls pending' := by
  -- Only a delivery puts a message in hand, and only an answer or a failure deals with it.
  cases takes with
  | stop phase =>
    obtain rfl := holds.none_of_free (phase.imp_right .inl)
    refine ⟨none, .aside (.inr (.inr (.inl rfl))), script.quiet ?_⟩
    constructor <;> simp [List.filterMap_cons, Act.delivery, Act.answer, ReadLoop.streamNote]
  | park phase =>
    obtain rfl := holds.none_of_free (.inl phase)
    exact ⟨none, .aside (.inr (.inl rfl)), script.quiet ⟨rfl, rfl, rfl⟩⟩
  | lose phase =>
    obtain rfl := holds.none_of_free (.inl phase)
    refine ⟨none, .aside (.inr (.inr (.inl rfl))), script.quiet ?_⟩
    constructor <;> simp [List.filterMap_cons, Act.delivery, Act.answer, ReadLoop.streamNote]
  | falter phase =>
    obtain rfl := holds.none_of_free (.inl phase)
    refine ⟨none, .aside (.inr (.inr (.inr ⟨_, rfl⟩))), script.quiet ?_⟩
    constructor <;>
      simp [List.filterMap_cons, Act.delivery, Act.answer, typed, Subscriber.report, noteOf]
  | leave phase =>
    obtain rfl := holds.none_of_free (.inr (.inr ⟨_, phase⟩))
    refine ⟨none, .aside (.inr (.inr (.inl rfl))), script.quiet ?_⟩
    constructor <;> simp [List.filterMap_cons, Act.delivery, Act.answer]
  | rise phase =>
    obtain rfl := holds.none_of_free (.inr (.inr ⟨_, phase⟩))
    exact ⟨none, .aside (.inl rfl), script.quiet ⟨rfl, rfl, rfl⟩⟩
  | @deliver _ _ m _ _ _ phase _ _ received =>
    obtain rfl := holds.none_of_free (.inl phase)
    obtain ⟨lines, debug, lines_eq⟩ := receivedNotes_lines l m
    simp only [typed, Subscriber.receive] at received
    rw [lines_eq]
    cases decoded : decoder.decode m.payload with
    | error e =>
      simp only [decoded, Prod.mk.injEq] at received
      obtain ⟨rfl, rfl, rfl⟩ := received
      exact ⟨_, .answer rfl fun _ => Nat.le_refl _, script.drop decoded debug⟩
    | ok value =>
      simp only [decoded, Prod.mk.injEq] at received
      obtain ⟨rfl, rfl, rfl⟩ := received
      have readable : decoder.value m ≠ none := by simp [Decoder.value, decoded, Except.toOption]
      refine ⟨_, ?_, script.call decoded debug l.label⟩
      unfold Subscriber.reception
      split
      · exact .failure (.inl ⟨_, rfl⟩) readable
      · exact .answer rfl fun unreadable => absurd unreadable readable
  | @accept _ _ m due r phase =>
    obtain rfl := holds.eq_of_answered phase
    rw [toldOf_typed typed]
    exact ⟨none, .aside (.inl rfl), script.accept r⟩
  | @reject _ _ m due r phase =>
    obtain rfl := holds.eq_of_answered phase
    rw [toldOf_typed typed]
    exact ⟨none, .aside (.inr (.inr (.inr ⟨_, rfl⟩))), script.reject r _⟩
  | @fail m due phase =>
    obtain ⟨accept, readable, rfl⟩ := holds.eq_of_failing phase
    exact ⟨_, .failure (.inr rfl) readable, script.fall readable⟩

end

theorem takes_subscriber {k now : Nat} {b : Ledger} {l : ReadLoop Ledger α} {t : Turn Ledger α}
    (takes : l.Takes k now b t) : t.loop.subscriber = l.subscriber := by
  cases takes <;> rfl

theorem nonneg_of_placed {b : Ledger} {topic : String} {c : Int} {answers : List (Message × Bool)}
    (placed : Placed b topic c answers) (some : answers ≠ []) : 0 ≤ c := by
  obtain ⟨⟨m, accept⟩, rest, rfl⟩ := List.exists_cons_of_ne_nil some
  obtain ⟨entry, place⟩ := placed 0 m accept rfl
  obtain ⟨j, same, -⟩ := Ledger.at?_eq_some.mp entry
  simp [accepted] at place
  omega

/-- What was accepted is the log itself, from the start on. -/
theorem Placed.accepted_eq {b : Ledger} {topic : String} {c : Int}
    {answers : List (Message × Bool)} (placed : Placed b topic c answers) :
    (answers.filter (·.2)).map (·.1) =
      ((b.log topic).drop c.toNat).take (accepted answers) := by
  induction answers using List.reverseRecOn with
  | nil => simp [accepted]
  | append_singleton answers answer ih =>
    obtain ⟨m, accept⟩ := answer
    have before : Placed b topic c answers := by
      intro i m' accept' found
      have bound := (List.getElem?_eq_some_iff.mp found).1
      have place := placed i m' accept' (by rw [List.getElem?_append_left bound, found])
      rwa [List.take_append_of_le_length (Nat.le_of_lt bound)] at place
    cases accept with
    | false => simpa [accepted] using ih before
    | true =>
      obtain ⟨entry, place⟩ := placed answers.length m true List.getElem?_concat_length
      rw [List.take_left] at place
      have start := nonneg_of_placed placed (by simp)
      obtain ⟨j, same, found⟩ := Ledger.at?_eq_some.mp entry
      obtain rfl : j = c.toNat + accepted answers := by omega
      have one : accepted (answers ++ [(m, true)]) = accepted answers + 1 := by simp [accepted]
      rw [one, List.take_add_one, List.getElem?_drop, found, ← ih before]
      simp

namespace World

def reply (w : World Ledger α) (k : Nat) : Option (Message × Bool) :=
  match w.loops[k]? with
  | some l =>
    match l.phase with
    | .handling m (.answered accept _) => some (m, accept)
    | _ => none
  | none => none

theorem phase_of_reply {w : World Ledger α} {k : Nat} {l : ReadLoop Ledger α} {m : Message}
    {accept : Bool} (here : w.loops[k]? = some l) (reply : w.reply k = some (m, accept)) :
    ∃ due, l.phase = .handling m (.answered accept due) := by
  simp only [World.reply, here] at reply
  split at reply
  · next due phase =>
    obtain ⟨rfl, rfl⟩ := Prod.mk.inj (Option.some.inj reply)
    exact ⟨due, phase⟩
  · cases reply

/-- Loop `k` is that of a typed subscriber, and has kept to its script. -/
def Spoken (w : World Ledger α) (k : Nat) (topic : Topic) (decoder : Decoder α)
    (listener : Listener α) (said : List (List (Note α))) : Prop :=
  ∃ l pending, w.loops[k]? = some l ∧ l.topic = topic ∧
    l.subscriber = .typed decoder listener ∧ Holds decoder w.now l pending ∧
    Script k topic.name decoder listener said l.calls pending

/-- What was answered is the log decoded. -/
structure Decoded (b : Ledger) (topic : String) (c : Int) (decoder : Decoder α)
    (calls : List (α × Bool)) (answers : List (Message × Bool)) : Prop where
  /-- The answers are those of the listener's calls, except where there was nothing to call it
  with. -/
  returned : answers.filterMap decoder.call <+: calls
  taken : (answers.filter (·.2)).map (·.1) = ((b.log topic).drop c.toNat).take (accepted answers)
  /-- The values that were approved are the accepted part of the log, less what cannot be
  decoded. -/
  approved : ((answers.filterMap decoder.call).filter (·.2)).map (·.1) =
    (((b.log topic).drop c.toNat).take (accepted answers)).filterMap decoder.value

/-- The law of a typed subscription that was made when its group had committed offset `c`. -/
structure DecodingLaw (w : World Ledger α) (k : Nat) (topic : Topic) (c : Int)
    (decoder : Decoder α) (listener : Listener α) (said : List (List (Note α))) : Prop where
  /-- The listener is called once for each message handed over that can be decoded, and for no
  other. -/
  called : (callsIn said).map (·.1) = (w.deliveries k).filterMap decoder.value
  verdict : ∀ i value accept, (callsIn said)[i]? = some (value, accept) →
    accept = (listener.decide i value).accept
  settled : Decoded w.broker topic.name c decoder (callsIn said) (w.answers k)
  given : Decoded w.broker topic.name c decoder (callsIn said)
    (w.answers k ++ (w.reply k).toList)
  /-- A message that cannot be decoded is reported once each time it is handed over, and the
  loop's next turn attempts to commit it. -/
  dropped : ∀ i notes m e, said[i]? = some notes → .act k topic.name (.delivered m) ∈ notes →
    decoder.decode m.payload = .error e →
    Dropped k topic.name said i m e
      (∃ v r, w.loopStep k = some v ∧ w.added v = accepting k topic.name m r)
  once : ∀ (i j : Nat) (m m' : Message), i < j → (w.deliveries k)[i]? = some m →
    (w.deliveries k)[j]? = some m' → decoder.value m = none → m.offset < m'.offset

variable {w : World Ledger α} {k : Nat} {topic : Topic} {decoder : Decoder α}
  {listener : Listener α} {said : List (List (Note α))}

theorem Spoken.attempt [DecidableEq α] (h : Spoken w k topic decoder listener said)
    (a : Attempt Ledger α) :
    Spoken (w.attempt a) k topic decoder listener (said ++ w.turnNotes k a) := by
  obtain ⟨l, pending, here, rfl, typed, holds, script⟩ := h
  obtain ⟨l', t, here', takes, eq, notes⟩ | ⟨none, spared⟩ := attempt_turn w k a
  · obtain rfl : l = l' := Option.some.inj (here.symm.trans here')
    obtain ⟨pending', holds, script⟩ := takes_script typed holds script takes
    rw [eq, notes]
    exact ⟨t.loop, pending', turned_self here t, (takes_identity takes).1,
      (takes_subscriber takes).trans typed, holds, script⟩
  · obtain ⟨l', there, kept⟩ := spared.loop l here
    have subscriber : l'.subscriber = l.subscriber := by rw [kept.rest]
    have calls : l'.calls = l.calls := by rw [kept.rest]
    rw [none, List.append_nil]
    exact ⟨l', pending, there, kept.topic, subscriber.trans typed, holds.kept kept spared.now,
      calls ▸ script⟩

theorem Spoken.after [DecidableEq α] (h : Spoken w k topic decoder listener [])
    (attempts : List (Attempt Ledger α)) :
    Spoken (w.after attempts) k topic decoder listener (w.transcript k attempts) := by
  induction attempts using List.reverseRecOn with
  | nil => exact h
  | append_singleton attempts a ih =>
    rw [after_concat, transcript_concat]
    exact ih.attempt a

theorem spoken_new {made : World Ledger α} {q : Nat} {group label : String} {id : SubscriptionId}
    (subscribed : w.subscribe q topic group label (.typed decoder listener) = (.ok id, made)) :
    Spoken made w.loops.length topic decoder listener [] := by
  obtain ⟨isDebug, -, loops, -⟩ := subscribe_ok subscribed
  have last := (congrArg (·[w.loops.length]?) loops).trans List.getElem?_concat_length
  exact ⟨_, none, last, rfl, rfl, .aside (.inl rfl), .start⟩

/-- What cannot be decoded and is in hand is committed by the next turn. -/
theorem Spoken.next {l : ReadLoop Ledger α} {m : Message} {due : Nat}
    (typed : l.subscriber = .typed decoder listener) (here : w.loops[k]? = some l)
    (phase : l.phase = .handling m (.answered true due)) (elapsed : due ≤ w.now) :
    ∃ v r, w.loopStep k = some v ∧ w.added v = accepting k l.topic.name m r := by
  obtain ⟨t, takes, eq⟩ := settle_takes w k l phase elapsed
  have step := loopStep_of_answered here phase elapsed
  rw [eq] at step
  cases takes with
  | @accept _ _ m' _ r held =>
    obtain ⟨rfl, -⟩ : m' = m ∧ _ := by simpa [held] using phase
    refine ⟨_, r, step, ?_⟩
    rw [added_turned, toldOf_typed typed]
    rfl
  | @reject _ _ _ _ _ held => simp [held] at phase
  | stop free => obtain free | free := free <;> simp [free] at phase
  | park free | deliver free | lose free | falter free | leave free | rise free | fail free =>
    simp [free] at phase

theorem Decoded.of_placed {b : Ledger} {topic : String} {c : Int} {calls : List (α × Bool)}
    {answers : List (Message × Bool)} (placed : Placed b topic c answers)
    (returned : answers.filterMap decoder.call <+: calls) :
    Decoded b topic c decoder calls answers := by
  have taken := placed.accepted_eq
  exact ⟨returned, taken, by rw [decoder.approved_eq, taken]⟩

theorem Spoken.law {c : Int} (spoken : Spoken w k topic decoder listener said)
    {group : String} (follows : Follows w k topic group c) (acts : w.acts k = actsIn k said) :
    DecodingLaw w k topic c decoder listener said := by
  obtain ⟨l, pending, here, rfl, typed, holds, script⟩ := spoken
  obtain ⟨-, unanswered, -, told, -⟩ := follows.told
  have calls : callsIn said = (w.answers k ++ pending.toList).filterMap decoder.call := by
    rw [script.calls_eq, ← acts]
    rfl
  have deliveries : w.deliveries k = (w.answers k ++ pending.toList).map (·.1) := by
    rw [World.deliveries, acts, script.deliveries_eq, ← acts]
    rfl
  have settled : Decoded w.broker l.topic.name c decoder (callsIn said) (w.answers k) := by
    apply Decoded.of_placed told.placed
    rw [calls, List.filterMap_append]
    exact List.prefix_append ..
  constructor
  case called => rw [calls, decoder.call_fst, deliveries]
  case verdict => exact script.verdicts.2
  case settled => exact settled
  case given =>
    cases reply : w.reply k with
    | none => simpa using settled
    | some answer =>
      obtain ⟨m, accept⟩ := answer
      obtain ⟨due, phase⟩ := phase_of_reply here reply
      obtain rfl := holds.eq_of_answered phase
      have waits : m ∈ unanswered := by
        have same : (w.answers k).map (·.1) ++ unanswered.toList = w.deliveries k :=
          told.delivered.symm
        rw [deliveries, List.map_append, List.append_cancel_left_eq] at same
        simpa using same
      obtain ⟨entry, place⟩ := told.pending m waits
      apply Decoded.of_placed (told.placed.snoc entry place accept)
      rw [calls]
      exact List.prefix_refl _
  case dropped =>
    intro i notes m e turn given undecoded
    apply (script.dropped i notes m e turn given undecoded).imp
    rintro rfl
    cases holds with
    | answer phase prompt =>
      have unreadable : decoder.value m = none := by
        simp [Decoder.value, undecoded, Except.toOption]
      exact Spoken.next typed here phase (prompt unreadable)
    | failure _ called => simp [Decoder.value, undecoded, Except.toOption] at called
  case once =>
    intro i j m m' before found found' unreadable
    have short : i < (w.answers k).length := by
      have bound := (List.getElem?_eq_some_iff.mp found').1
      rw [deliveries, List.length_map, List.length_append] at bound
      cases pending <;> simp at bound <;> omega
    obtain ⟨accept, answered⟩ : ∃ accept, (w.answers k)[i]? = some (m, accept) := by
      rw [deliveries, List.getElem?_map, List.getElem?_append_left short,
        Option.map_eq_some_iff] at found
      obtain ⟨⟨_, accept⟩, answered, rfl⟩ := found
      exact ⟨accept, answered⟩
    -- What cannot be decoded is accepted, and so the loop is past it: it is not handed over again.
    obtain rfl : accept = true := by
      apply script.undecoded (m, accept) ?_ unreadable
      rw [← acts]
      exact List.mem_append_left _ (List.mem_of_getElem? answered)
    have onward := accepted_take_succ answered
    have grows : accepted ((w.answers k).take (i + 1)) ≤ accepted ((w.answers k).take j) :=
      (List.take_sublist_take_left before).countP_le
    have place := (told.place found).2
    have place' := (told.place found').2
    simp only [World.answers, if_true] at onward grows
    omega

/-- **What cannot be decoded holds nothing up.** From the moment a typed subscription is made,
whatever the payloads are, its listener is called with the log decoded, and approves of it in its
order. -/
theorem decoding_law [DecidableEq α] {made : World Ledger α} {q : Nat} {group label : String}
    {id : SubscriptionId} (reach : Reachable {} w)
    (subscribed : w.subscribe q topic group label (.typed decoder listener) = (.ok id, made))
    (attempts : List (Attempt Ledger α)) :
    DecodingLaw (made.after attempts) w.loops.length topic
      ((w.broker.committed topic.name group).getD 0) decoder listener
      (made.transcript w.loops.length attempts) := by
  have orderly := reachable_orderly reach
  have later : made.Leads (made.after attempts) := leads_iff_after.mpr ⟨attempts, rfl⟩
  have spoken := (spoken_new subscribed).after attempts
  apply spoken.law (later.changes.subscribed orderly subscribed)
  obtain ⟨-, -, -, acts⟩ := subscribe_ok subscribed
  rw [acts_after, acts, orderly.fresh _ (Nat.le_refl _)]
  rfl

/-- A decoder for two one-byte messages; it can make nothing of any other. -/
def flags : Decoder String :=
  .custom fun
    | [1] => .ok "up"
    | [2] => .ok "down"
    | _ => .error ⟨.serialization, "unknown flag"⟩

/-- A listener that rejects what it is called with the second time. -/
def hesitant : Listener String := ⟨fun calls _ => { accept := calls != 1 }⟩

/-- A message that cannot be decoded, and whose commit fails, between two that can. -/
def mixed : List (Attempt Ledger String) :=
  [.command (.publish 0 orders (.bytes [1])), .command (.publish 0 orders (.bytes [0, 255])),
    .command (.publish 0 orders (.bytes [2])),
    .step (.loop 0), .step (.loop 0), .step (.loop 0),
    .command (.control (.failCommits 1)), .step (.loop 0),
    .step (.loop 0), .step (.loop 0), .step (.wait 100), .step (.loop 0), .step (.loop 0)]

theorem decoding_law_mixed :
    let asked := opened.subscribe 0 orders "audit" "auditor" (.typed flags hesitant)
    let w := asked.2.after mixed
    let said := asked.2.transcript 0 mixed
    asked.1 = .ok ⟨1⟩ ∧ DecodingLaw w 0 orders 0 flags hesitant said ∧
      callsIn said = [("up", true), ("down", false), ("down", true)] ∧
      (w.answers 0).map (fun (m, accept) => (m.offset, accept)) =
        [(0, true), (1, true), (2, false)] := by
  intro asked w said
  have subscribed : asked.1 = .ok ⟨1⟩ := by decide
  have none : opened.loops.length = 0 := by decide
  have start : (opened.broker.committed orders.name "audit").getD 0 = 0 := by decide
  refine ⟨subscribed, ?_, by decide, by decide⟩
  have law := decoding_law reachable_opened (Prod.ext subscribed rfl) mixed
  rwa [none, start] at law

end World

end Queue

end Courier
