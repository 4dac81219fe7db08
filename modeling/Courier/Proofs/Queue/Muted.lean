import Courier.Proofs.Broker.Validation
import Courier.Proofs.Queue.Delivery
import Courier.Proofs.Queue.Journal

/-!
# Worlds without diagnostics

What a world would be if nobody had asked for diagnostics:

* `Config.muted`, `ReadLoop.muted`: the same, with the diagnostics off;
* `aloud`: what the loops that are watched add to a chronicle, which is one line for each message
  that is handed over;
* `Muted`: two worlds, one of them without diagnostics, that are the same but for these lines;
* `Muted.step`, `Muted.obey`: they stay so, whatever happens to both.
-/

namespace Courier

namespace Broker

def Config.muted (config : Config) : Config := { config with isDebug := false, hasLogger := false }

def Connection.muted (c : Connection) : Connection :=
  { c with isDebug := false, hasLogger := false }

/-- Diagnostics make no difference to what is accepted. -/
theorem Config.validate_muted (files : Files) (config : Config) :
    config.muted.validate files = (config.validate files).map Connection.muted := by
  have checked (read : Reader) :
      config.muted.check read = Connection.muted <$> config.check read := by
    simp only [check, muted, map_bind, map_pure]
    rfl
  unfold validate validateWith
  rw [checked]
  cases config.check _ <;> rfl

end Broker

namespace Queue

open Broker (Transport Connection Config)

section
variable {T α : Type} [Transport T]

def mute (queue : MessageQueue T) : MessageQueue T := { queue with isDebug := false }

def ReadLoop.muted (l : ReadLoop T α) : ReadLoop T α := { l with isDebug := false }

/-- The group of a loop for which every message is noted, if the loop is one. -/
def ReadLoop.watched (l : ReadLoop T α) : Option String := if l.isDebug then some l.group else none

/-- The line that is written of a message. -/
def remark (group : String) (m : Message) : Log.Line :=
  ⟨.debug, "Message received",
    [⟨"topic", m.topic⟩, ⟨"group_id", group⟩, .int "partition" m.partition,
      .int "offset" m.offset, .int "size" m.payload.length]⟩

def Note.isRemark : Note α → Bool
  | .line l => l.message == "Message received"
  | _ => false

/-- Behind the act of handing over a message, loops that are watched have a line written of it. -/
def voices (watched : Nat → Option String) : Note α → List (Note α)
  | .act k topic (.delivered m) =>
    .act k topic (.delivered m) :: ((watched k).map fun group => .line (remark group m)).toList
  | n => [n]

/-- The line is written at the same time. -/
def aloud (watched : Nat → Option String) (noted : Nat × Note α) : List (Nat × Note α) :=
  (voices watched noted.2).map (noted.1, ·)

namespace World

/-- All that was noted, the first note first, each with its time. -/
def chronicle (w : World T α) : List (Nat × Note α) := w.journal.reverse

/-- The groups of the loops that are watched, by the numbers of these. -/
def watched (w : World T α) (k : Nat) : Option String := w.loops[k]?.bind ReadLoop.watched

theorem chronicle_jot (w : World T α) (notes : List (Note α)) :
    (w.jot notes).chronicle = w.chronicle ++ notes.map (w.now, ·) := by
  simp [chronicle, jot]

end World

/-- The world `v` is what `w` would be without diagnostics. -/
structure Muted (w v : World T α) : Prop where
  now : v.now = w.now
  broker : v.broker = w.broker
  queues : v.queues = w.queues.map mute
  loops : v.loops = w.loops.map ReadLoop.muted
  pools : v.pools = w.pools
  pending : v.pending = w.pending
  released : v.released = w.released
  chronicle : w.chronicle = v.chronicle.flatMap (aloud w.watched)
  plain : ∀ noted ∈ v.chronicle, noted.2.isRemark = false
  /-- No act is that of a loop to come. -/
  known : ∀ noted ∈ v.chronicle, ∀ k topic a, noted.2 = .act k topic a → k < v.loops.length

namespace Muted

variable {w v : World T α}

theorem opening (broker : T) : Muted ({ broker } : World T α) { broker } :=
  ⟨rfl, rfl, rfl, rfl, rfl, rfl, rfl, rfl, by simp [World.chronicle], by simp [World.chronicle]⟩

theorem length_eq (h : Muted w v) : v.loops.length = w.loops.length := by
  rw [h.loops, List.length_map]

theorem loop (h : Muted w v) (k : Nat) : v.loops[k]? = w.loops[k]?.map ReadLoop.muted := by
  rw [h.loops, List.getElem?_map]

theorem queue (h : Muted w v) (q : Nat) : v.queues[q]? = w.queues[q]?.map mute := by
  rw [h.queues, List.getElem?_map]

theorem writer (h : Muted w v) (q : Nat) : v.writer q = w.writer q := by
  unfold World.writer
  rw [h.queue]
  cases w.queues[q]? <;> rfl

theorem loopFinished (h : Muted w v) (k : Nat) : v.loopFinished k = w.loopFinished k := by
  unfold World.loopFinished
  rw [h.loop]
  cases w.loops[k]? <;> rfl

theorem subscriptions (h : Muted w v) (q : Nat) : v.subscriptions q = w.subscriptions q := by
  simp only [World.subscriptions, h.queue, h.loopFinished]
  cases w.queues[q]? <;> rfl

/-! ## Notes -/

/-- What is noted on one side, and with the remarks on it on the other. -/
theorem jot (h : Muted w v) {n : Note α} (plain : n.isRemark = false)
    (known : ∀ k topic a, n = .act k topic a → k < v.loops.length) :
    Muted (w.jot (voices w.watched n)) (v.note n) := by
  have noted : (v.note n).chronicle = v.chronicle ++ [(v.now, n)] := World.chronicle_jot v [n]
  refine { h with chronicle := ?_, plain := ?_, known := ?_ }
  · rw [World.chronicle_jot, noted, List.flatMap_append, h.now, h.chronicle]
    simp only [List.flatMap_singleton]
    rfl
  · rw [noted, List.forall_mem_append]
    exact ⟨h.plain, by simpa using plain⟩
  · rw [noted, List.forall_mem_append]
    refine ⟨h.known, ?_⟩
    rw [List.forall_mem_singleton]
    exact known

/-- What is no act is noted on both sides, if it is no remark. -/
theorem note (h : Muted w v) {n : Note α} (idle : ∀ k, n.actOf k = none)
    (plain : n.isRemark = false) : Muted (w.note n) (v.note n) := by
  have quiet : voices w.watched n = [n] := by
    cases n with
    | act k => simpa using idle k
    | published | heard | line => rfl
  have jotted := h.jot plain ?_
  · rwa [quiet] at jotted
  · rintro k topic a rfl
    simpa using idle k

theorem log (h : Muted w v) (level : Log.Level) (message : String) (fields : List Log.Field)
    (other : message ≠ "Message received") :
    Muted (w.log level message fields) (v.log level message fields) :=
  h.note (fun _ => rfl) (beq_false_of_ne other)

/-- A line that is written of a loop may be that of a copy of it. -/
theorem act (h : Muted w v) {k : Nat} (bound : k < w.loops.length) (l : ReadLoop T α) {a : Act}
    (other : a.delivery = none) : Muted (w.act k l a) (v.act k l.muted a) := by
  have quiet : voices w.watched (.act k l.topic.name a : Note α) = [.act k l.topic.name a] := by
    cases a with
    | delivered => cases other
    | answered | committed | withheld | fetchFailed | rested | closed => rfl
  have jotted := h.jot (n := .act k l.topic.name a) rfl ?_
  · rwa [quiet] at jotted
  · rintro j topic b same
    obtain ⟨rfl, -, -⟩ := Note.act.inj same
    rwa [h.length_eq]

/-! ## Loops -/

theorem reloop (h : Muted w v) (loops : List (ReadLoop T α))
    (grown : w.loops.length ≤ loops.length)
    (same : ∀ k < w.loops.length, loops[k]?.bind ReadLoop.watched = w.watched k) :
    Muted { w with loops } { v with loops := loops.map ReadLoop.muted } := by
  have known : ∀ noted ∈ v.chronicle, ∀ k topic a, noted.2 = .act k topic a →
      k < w.loops.length := by
    rw [← h.length_eq]
    exact h.known
  refine { h with loops := rfl, chronicle := ?_, known := ?_ }
  · rw [show ({ w with loops } : World T α).chronicle = w.chronicle from rfl, h.chronicle]
    apply List.flatMap_congr
    rintro ⟨t, n⟩ member
    cases n with
    | act k topic a =>
      have watched := same k (known _ member k topic a rfl)
      cases a with
      | delivered m =>
        simp only [aloud, voices]
        rw [← watched]
        rfl
      | answered | committed | withheld | fetchFailed | rested | closed => rfl
    | published | heard | line => rfl
  · intro noted member k topic a act
    rw [List.length_map]
    exact Nat.lt_of_lt_of_le (known noted member k topic a act) grown

theorem addLoop (h : Muted w v) (l : ReadLoop T α) :
    Muted { w with loops := w.loops ++ [l] } { v with loops := v.loops ++ [l.muted] } := by
  have more := h.reloop (w.loops ++ [l]) (by simp) ?_
  · rw [h.loops]
    rwa [List.map_append] at more
  · intro k bound
    rw [List.getElem?_append_left bound]
    rfl

theorem map (h : Muted w v) {f : ReadLoop T α → ReadLoop T α}
    (muted : ∀ l, (f l).muted = f l.muted) (watched : ∀ l, (f l).watched = l.watched) :
    Muted { w with loops := w.loops.map f } { v with loops := v.loops.map f } := by
  have mapped := h.reloop (w.loops.map f) (by simp) ?_
  · rw [h.loops]
    simpa [Function.comp_def, muted] using mapped
  · intro k _
    rw [World.watched, List.getElem?_map]
    cases w.loops[k]? with
    | none => rfl
    | some l => exact watched l

theorem wake (h : Muted w v) : Muted w.wake v.wake := by
  apply h.map
  · intro l
    cases phase : l.phase <;> simp [ReadLoop.muted, phase]
  · intro l
    cases l.phase <;> rfl

theorem cancelAll (h : Muted w v) (q : Nat) : Muted (w.cancelAll q) (v.cancelAll q) := by
  apply h.map
  · intro l
    by_cases mine : l.queue = q <;> simp [ReadLoop.muted, mine]
  · intro l
    by_cases mine : l.queue = q <;> simp [ReadLoop.watched, mine]

/-- What a loop becomes is watched as the loop was. -/
structure Stays (w : World T α) (k : Nat) (l : ReadLoop T α) : Prop where
  bound : k < w.loops.length
  watched : w.watched k = l.watched

theorem Stays.here {k : Nat} {l : ReadLoop T α} (here : w.loops[k]? = some l) : Stays w k l := by
  refine ⟨(List.getElem?_eq_some_iff.mp here).1, ?_⟩
  rw [World.watched, here]
  rfl

theorem Stays.of {w' : World T α} {k : Nat} {l l' : ReadLoop T α} (h : Stays w k l)
    (loops : w'.loops = w.loops) (same : l'.watched = l.watched) : Stays w' k l' := by
  refine ⟨loops ▸ h.bound, ?_⟩
  rw [same, ← h.watched, World.watched, loops]
  rfl

theorem setLoop (h : Muted w v) {k : Nat} {l : ReadLoop T α} (stays : Stays w k l) :
    Muted (w.setLoop k l) (v.setLoop k l.muted) := by
  have set := h.reloop (w.loops.set k l) (by simp) ?_
  · rw [World.setLoop, World.setLoop, h.loops, ← List.map_set]
    exact set
  · intro j _
    by_cases mine : k = j
    · subst mine
      rw [stays.watched, List.getElem?_set_self stays.bound]
      rfl
    · rw [List.getElem?_set_ne mine]
      rfl

theorem cancelLoop (h : Muted w v) (k : Nat) : Muted (w.cancelLoop k) (v.cancelLoop k) := by
  let cancel (l : ReadLoop T α) : ReadLoop T α := { l with cancelled := true }
  have modified := h.reloop (w.loops.modify k cancel) (by simp) ?_
  · have both : (w.loops.modify k cancel).map ReadLoop.muted =
        (w.loops.map ReadLoop.muted).modify k cancel := by
      apply List.ext_getElem?
      intro j
      simp only [List.getElem?_map, List.getElem?_modify]
      cases w.loops[j]? with
      | none => rfl
      | some l => by_cases mine : k = j <;> simp [mine, cancel, ReadLoop.muted]
    rw [World.cancelLoop, World.cancelLoop, h.loops, ← both]
    exact modified
  · intro j _
    rw [World.watched, List.getElem?_modify]
    cases w.loops[j]? with
    | none => rfl
    | some l => by_cases mine : k = j <;> simp [cancel, ReadLoop.watched, mine]

/-! ## Queues, brokers and pools -/

theorem rebroker (h : Muted w v) (b : T) : Muted { w with broker := b } { v with broker := b } :=
  { h with broker := rfl }

theorem setQueue (h : Muted w v) (q : Nat) (queue : MessageQueue T) :
    Muted (w.setQueue q queue) (v.setQueue q (mute queue)) := by
  refine { h with queues := ?_ }
  rw [World.setQueue, World.setQueue, h.queues, List.map_set]

theorem await (h : Muted w v) (p : Pending) :
    (v.await p).1 = (w.await p).1 ∧ Muted (w.await p).2 (v.await p).2 := by
  refine ⟨congrArg List.length h.pending, { h with pending := ?_ }⟩
  rw [World.await, World.await, h.pending]

theorem setPending (h : Muted w v) (c : Nat) (p : Pending) :
    Muted { w with pending := w.pending.set c p } { v with pending := v.pending.set c p } := by
  refine { h with pending := ?_ }
  rw [h.pending]

theorem repool (h : Muted w v) (f : List (Pool α) → List (Pool α)) :
    Muted { w with pools := f w.pools } { v with pools := f v.pools } := by
  refine { h with pools := ?_ }
  rw [h.pools]

theorem unleash (h : Muted w v) (f : List α → List α) :
    Muted { w with released := f w.released } { v with released := f v.released } := by
  refine { h with released := ?_ }
  rw [h.released]

theorem wait (h : Muted w v) (ms : Nat) :
    Muted { w with now := w.now + ms } { v with now := v.now + ms } := by
  refine { h with now := ?_ }
  rw [h.now]

/-! ## Turns -/

theorem utter (h : Muted w v) (label : String) {u : Utterance α}
    (plain : (noteOf label u).isRemark = false) : Muted (w.utter label u) (v.utter label u) := by
  rw [World.utter_eq_note, World.utter_eq_note]
  exact h.note (fun _ => actOf_noteOf ..) plain

theorem report_plain (s : Subscriber α) (label : String) (m : Option Message) (e : Error) :
    (noteOf label (s.report m e)).isRemark = false := by
  cases s <;> rfl

theorem report (h : Muted w v) (l : ReadLoop T α) (m : Option Message) (e : Error) :
    Muted (w.report l m e) (v.report l.muted m e) :=
  h.utter l.label (report_plain ..)

theorem receive_plain {s : Subscriber α} {calls : Nat} {m : Message} {r : Reception α}
    {said : List (Utterance α)} {calls' : Nat} (received : s.receive calls m = (r, said, calls'))
    (label : String) : ∀ u ∈ said, (noteOf label u).isRemark = false := by
  unfold Subscriber.receive at received
  split at received
  · simp only [Prod.mk.injEq] at received
    obtain ⟨-, rfl, -⟩ := received
    simp [noteOf, Note.isRemark]
  · split at received
    · simp only [Prod.mk.injEq] at received
      obtain ⟨-, rfl, -⟩ := received
      simp [report_plain]
    · simp only [Prod.mk.injEq] at received
      obtain ⟨-, rfl, -⟩ := received
      simp [noteOf, Note.isRemark]
  · split at received
    · simp only [Prod.mk.injEq] at received
      obtain ⟨-, rfl, -⟩ := received
      simp [report_plain]
    · simp only [Prod.mk.injEq] at received
      obtain ⟨-, rfl, -⟩ := received
      nofun

/-- What a loop's subscriber is heard to say is said on both sides. -/
theorem utterances (h : Muted w v) (label : String) {said : List (Utterance α)}
    (plain : ∀ u ∈ said, (noteOf label u).isRemark = false) :
    Muted (w.jot (said.map (noteOf label))) (v.jot (said.map (noteOf label))) := by
  induction said generalizing w v with
  | nil => exact h
  | cons u said ih =>
    obtain ⟨first, rest⟩ := List.forall_mem_cons.mp plain
    rw [List.map_cons, ← World.note_jot, ← World.note_jot]
    exact ih (h.note (fun _ => actOf_noteOf ..) first) rest

theorem voices_delivered {k : Nat} {l : ReadLoop T α} (stays : Stays w k l) (m : Message) :
    voices w.watched (.act k l.topic.name (.delivered m)) =
      .act k l.topic.name (.delivered m) :: l.receivedNotes m := by
  simp only [voices, stays.watched, ReadLoop.watched, ReadLoop.receivedNotes]
  cases l.isDebug <;> rfl

theorem endLoop (h : Muted w v) {k : Nat} {l : ReadLoop T α} (stays : Stays w k l) :
    Muted (w.endLoop k l) (v.endLoop k l.muted) := by
  have closed : Transport.closeReader l.muted.reader v.broker =
      Transport.closeReader l.reader w.broker := by rw [h.broker]; rfl
  unfold World.endLoop
  rw [closed]
  exact ((h.act stays.bound l rfl).rebroker _).setLoop (stays.of rfl rfl)

theorem rest (h : Muted w v) {k : Nat} {l : ReadLoop T α} (stays : Stays w k l)
    (failures : UInt32) : Muted (w.rest k l failures) (v.rest k l.muted failures) := by
  unfold World.rest
  rw [h.now]
  exact (h.act stays.bound l rfl).setLoop (stays.of rfl rfl)

theorem offer (h : Muted w v) (pool ticket : Nat) (value : α) :
    Muted (w.offer pool ticket value) (v.offer pool ticket value) :=
  h.repool (·.modify pool fun p => p.offer ticket value)

theorem report_loops (w : World T α) (l : ReadLoop T α) (m : Option Message) (e : Error) :
    (w.report l m e).loops = w.loops := by
  rw [World.report, World.utter_eq_note]
  rfl

/-- Before its subscriber is called, a message is remarked upon if the loop is watched. -/
theorem deliver (h : Muted w v) {k : Nat} {l : ReadLoop T α} (stays : Stays w k l) (m : Message) :
    Muted (w.deliver k l m) (v.deliver k l.muted m) := by
  rcases received : l.subscriber.receive l.calls m with ⟨r, said, calls⟩
  have received' : l.muted.subscriber.receive l.muted.calls m = (r, said, calls) := received
  have noted := h.jot (n := .act k l.topic.name (.delivered m)) rfl ?_
  · rw [voices_delivered stays] at noted
    have said := noted.utterances l.label (receive_plain received l.label)
    rw [World.jot_jot, World.note_jot] at said
    have set := said.setLoop (l := { l with calls, phase := phaseAfter w.now m r })
      (stays.of rfl rfl)
    rw [World.deliver_eq _ _ _ _ received, World.deliver_eq _ _ _ _ received', h.now]
    unfold World.turned
    have same : offerOf l.muted.subscriber r = offerOf l.subscriber r := rfl
    rw [same]
    cases offerOf l.subscriber r with
    | none => exact set
    | some offer => exact set.offer offer.1 k offer.2
  · rintro j topic a same
    obtain ⟨rfl, -, -⟩ := Note.act.inj same
    rw [h.length_eq]
    exact stays.bound

theorem fetch (h : Muted w v) {k : Nat} {l : ReadLoop T α} (stays : Stays w k l) :
    Muted (w.fetch k l) (v.fetch k l.muted) := by
  have same : Transport.fetch l.muted.reader v.broker = Transport.fetch l.reader w.broker := by
    rw [h.broker]
    rfl
  unfold World.fetch
  rw [same]
  rcases Transport.fetch l.reader w.broker with ⟨fetched, reader, b⟩
  have h := h.rebroker b
  have stays : Stays { w with broker := b } k { l with reader } := stays.of rfl rfl
  cases fetched with
  | nothing => exact h.setLoop (stays.of rfl rfl)
  | message m => exact h.deliver (l := { l with reader, failures := 0 }) (stays.of rfl rfl) m
  | closed e => exact (h.log _ _ _ (by decide)).endLoop (stays.of rfl rfl)
  | transient e =>
    have told := (h.act stays.bound { l with reader } (a := .fetchFailed e) rfl).report
      { l with reader } none e
    exact told.rest (l := { l with reader, failures := oneMore l.failures })
      (stays.of (report_loops ..) rfl) l.failures

theorem told (h : Muted w v) (l : ReadLoop T α) (m : Message) (r : Except Error Unit) :
    Muted (w.jot (l.toldOf m r)) (v.jot (l.muted.toldOf m r)) := by
  cases r with
  | ok => exact h
  | error e => exact h.note (fun _ => actOf_noteOf ..) (report_plain ..)

theorem settle (h : Muted w v) {k : Nat} {l : ReadLoop T α} (stays : Stays w k l) (m : Message)
    (accept : Bool) : Muted (w.settle k l m accept) (v.settle k l.muted m accept) := by
  have answered := h.act stays.bound l (a := .answered m accept) rfl
  unfold World.settle
  cases accept with
  | true =>
    have same : Transport.commit l.muted.reader m (v.act k l.muted (.answered m true)).broker =
        Transport.commit l.reader m (w.act k l (.answered m true)).broker := by
      rw [answered.broker]
      rfl
    simp only [↓reduceIte]
    rw [same]
    rcases Transport.commit l.reader m (w.act k l (.answered m true)).broker with ⟨r, reader, b⟩
    have done := ((answered.rebroker b).act stays.bound l (a := .committed m r) rfl).told l m r
    have set := done.setLoop (l := { l with reader, rejections := 0, phase := .ready })
      (stays.of rfl rfl)
    cases r with
    | ok => exact set
    | error e =>
      simp only [World.report, World.utter_eq_note]
      exact set
  | false =>
    have same : Transport.withhold l.muted.reader m (v.act k l.muted (.answered m false)).broker =
        Transport.withhold l.reader m (w.act k l (.answered m false)).broker := by
      rw [answered.broker]
      rfl
    simp only [Bool.false_eq_true, ↓reduceIte]
    rw [same]
    rcases Transport.withhold l.reader m (w.act k l (.answered m false)).broker
      with ⟨r, reader, b⟩
    have done := ((answered.rebroker b).act stays.bound l (a := .withheld m r) rfl).told l m r
    have rested := done.rest (l := { l with reader, rejections := oneMore l.rejections })
      (stays.of rfl rfl) l.rejections
    cases r with
    | ok => exact rested
    | error e =>
      simp only [World.report, World.utter_eq_note]
      exact rested

theorem loopStep (h : Muted w v) (k : Nat) : Option.Rel Muted (w.loopStep k) (v.loopStep k) := by
  unfold World.loopStep
  rw [h.loop]
  cases here : w.loops[k]? with
  | none => exact .none
  | some l =>
    have stays : Stays w k l := .here here
    have stopped := (h.log .debug "Kafka stream closed"
      (World.streamFields l "subscription cancelled") (by decide)).endLoop (stays.of rfl rfl)
    simp only [Option.map_some, h.now, show l.muted.phase = l.phase from rfl,
      show l.muted.cancelled = l.cancelled from rfl]
    cases phase : l.phase with
    | ready =>
      cases l.cancelled with
      | true => exact .some stopped
      | false => exact .some (h.fetch stays)
    | parked =>
      cases l.cancelled with
      | true => exact .some stopped
      | false => exact .none
    | handling m stage =>
      cases stage with
      | offered => exact .none
      | failing due =>
        by_cases elapsed : due ≤ w.now
        · simp only [elapsed, ↓reduceIte]
          exact .some (h.setLoop (l := { l with phase := .failed }) (stays.of rfl rfl))
        · simp only [elapsed, ↓reduceIte]
          exact .none
      | answered accept due =>
        by_cases elapsed : due ≤ w.now
        · simp only [elapsed, ↓reduceIte]
          exact .some (h.settle stays m accept)
        · simp only [elapsed, ↓reduceIte]
          exact .none
    | resting due =>
      cases l.cancelled with
      | true => exact .some (h.endLoop stays)
      | false =>
        by_cases elapsed : due ≤ w.now
        · simp only [elapsed, Bool.false_eq_true, ↓reduceIte]
          exact .some (h.setLoop (l := { l with phase := .ready, cancelled := false })
            (stays.of rfl rfl))
        · simp only [elapsed, Bool.false_eq_true, ↓reduceIte]
          exact .none
    | ended | failed => exact .none

/-! ## Steps -/

theorem answerOffer (h : Muted w v) (k : Nat) (accepted : Bool) :
    Muted (w.answerOffer k accepted) (v.answerOffer k accepted) := by
  unfold World.answerOffer
  rw [h.loop]
  cases here : w.loops[k]? with
  | none => exact h
  | some l =>
    have stays : Stays w k l := .here here
    simp only [Option.map_some, show l.muted.phase = l.phase from rfl]
    split
    · next m offered =>
      cases accepted with
      | true =>
        simp only [↓reduceIte, h.now]
        exact h.setLoop (l := { l with phase := .handling m (.answered true w.now) })
          (stays.of rfl rfl)
      | false =>
        have told := h.report l (some m) Subscriber.handoffRefused
        simp only [Bool.false_eq_true, ↓reduceIte, told.now]
        exact told.setLoop (l := { l with phase := .handling m (.answered false
          (w.report l (some m) Subscriber.handoffRefused).now) })
          (stays.of (report_loops ..) rfl)
    · exact h

theorem ended (h : Muted w v) (a : Awaited) : v.ended a = w.ended a := by
  cases a with
  | loop k =>
    simp only [World.ended, h.loop]
    cases w.loops[k]? <;> rfl
  | worker p i => simp only [World.ended, h.pools]

theorem complete (h : Muted w v) (p : Purpose) :
    (v.complete p).1 = (w.complete p).1 ∧ Muted (w.complete p).2 (v.complete p).2 := by
  cases p with
  | unsubscribe id => exact ⟨rfl, h.log .info _ _ (by decide)⟩
  | close result => exact ⟨rfl, h.log .info _ _ (by decide)⟩
  | shutdown => exact ⟨rfl, h⟩

theorem abnormalEnd_plain (a : Awaited) : World.abnormalEnd a ≠ "Message received" := by
  cases a
  · rw [World.abnormalEnd]
    decide
  · rw [World.abnormalEnd]
    decide

theorem callStep (h : Muted w v) (c : Nat) : Option.Rel Muted (w.callStep c) (v.callStep c) := by
  unfold World.callStep
  rw [h.pending]
  cases w.pending[c]? with
  | none => exact .none
  | some p =>
    simp only
    split
    · exact .none
    · split
      · obtain ⟨same, done⟩ := h.complete p.purpose
        rw [same]
        exact .some (done.setPending c _)
      · next a rest _ =>
        rw [h.ended]
        cases w.ended a with
        | none => exact .none
        | some abnormal =>
          cases abnormal with
          | true => exact .some ((h.log .warn _ [] (abnormalEnd_plain a)).setPending c _)
          | false => exact .some (h.setPending c _)

variable [DecidableEq α]

theorem worked (h : Muted w v) (p : Nat) (pool : Pool α) (effect : Pool.Effect α) :
    Muted (w.worked p pool effect) (v.worked p pool effect) := by
  have h := h.repool (·.set p pool)
  have heard (e : Event α) := h.note (n := .heard pool.label e) (fun _ => rfl) rfl
  unfold World.worked World.effected
  cases effect with
  | accepted k => exact h.answerOffer k true
  | refused k => exact h.answerOffer k false
  | started value => exact heard (.started value)
  | finished value released =>
    cases released with
    | true => exact (heard (.finished value)).unleash (·.erase value)
    | false => exact heard (.finished value)
  | none => exact h

theorem poolStep (h : Muted w v) (p : Nat) (s : Pool.Step) :
    Option.Rel Muted (w.poolStep p s) (v.poolStep p s) := by
  have eq (w : World T α) : w.poolStep p s = w.pools[p]?.bind fun pool =>
      (pool.step w.now w.released s).map fun made => w.worked p made.1 made.2 := by
    unfold World.poolStep
    cases w.pools[p]? with
    | none => rfl
    | some pool =>
      simp only [Option.bind_some]
      cases pool.step w.now w.released s with
      | none => rfl
      | some made => cases made with | mk pool effect => cases effect <;> rfl
  rw [eq, eq, h.pools, h.now, h.released]
  cases w.pools[p]? with
  | none => exact .none
  | some pool =>
    simp only [Option.bind_some]
    cases pool.step w.now w.released s with
    | none => exact .none
    | some made => exact .some (h.worked p made.1 made.2)

theorem step (h : Muted w v) (s : Step) : Option.Rel Muted (w.step s) (v.step s) := by
  cases s with
  | loop k => exact h.loopStep k
  | pool p s => exact h.poolStep p s
  | call c => exact h.callStep c
  | wait ms => exact .some (h.wait ms)

/-! ## Commands -/

end Muted

def World.Command.muted : World.Command T α → World.Command T α
  | .connect files config => .connect files config.muted
  | c => c

namespace Muted

variable {w v : World T α}

/-- The same comes of both, but that a connection knows of its diagnostics. -/
theorem connect (h : Muted w v) (files : Files) (config : Config) :
    (v.connect files config.muted).1 =
        (w.connect files config).1.map (fun (q, c) => (q, c.muted)) ∧
      Muted (w.connect files config).2 (v.connect files config.muted).2 := by
  unfold World.connect
  rw [Config.validate_muted, h.broker]
  cases config.validate files with
  | error e => exact ⟨rfl, h⟩
  | ok c =>
    simp only [Except.map]
    rcases Transport.probe w.broker with ⟨probed, b⟩
    cases probed with
    | error e => exact ⟨rfl, h.rebroker b⟩
    | ok =>
      rcases opened : Transport.openWriter b with ⟨result, b'⟩
      simp only
      cases result with
      | error e => exact ⟨rfl, h.rebroker b'⟩
      | ok writer =>
        have more : Muted
            { w with broker := b', queues := w.queues ++ [{ isDebug := c.isDebug, writer }] }
            { v with broker := b', queues := v.queues ++ [{ isDebug := false, writer }] } := by
          refine { h with broker := rfl, queues := ?_ }
          rw [h.queues, List.map_append]
          rfl
        refine ⟨?_, more.log .info _ _ (by decide)⟩
        simp [h.queues, Connection.muted]

theorem publish (h : Muted w v) (q : Nat) (topic : Topic) (payload : Payload) :
    (v.publish q topic payload).1 = (w.publish q topic payload).1 ∧
      Muted (w.publish q topic payload).2 (v.publish q topic payload).2 := by
  unfold World.publish
  rw [h.writer]
  cases payload.toRecord topic with
  | error e => exact ⟨rfl, h⟩
  | ok r =>
    cases w.writer q with
    | error e => exact ⟨rfl, h⟩
    | ok writer =>
      have same : Transport.write v.now writer r v.broker =
          Transport.write w.now writer r w.broker := by rw [h.now, h.broker]
      simp only [same]
      rcases Transport.write w.now writer r w.broker with ⟨result, b⟩
      cases result with
      | ok =>
        exact ⟨rfl, ((h.rebroker b).note (n := .published r true) (fun _ => rfl) rfl).wake⟩
      | error e =>
        exact ⟨rfl, (h.rebroker b).note (n := .published r false) (fun _ => rfl) rfl⟩

theorem publishJson (h : Muted w v) (q : Nat) (topic : Topic) (value : Except String Json) :
    (v.publishJson q topic value).1 = (w.publishJson q topic value).1 ∧
      Muted (w.publishJson q topic value).2 (v.publishJson q topic value).2 := by
  cases value with
  | error reason => exact ⟨rfl, h⟩
  | ok json => exact h.publish q topic _

theorem subscribe (h : Muted w v) (q : Nat) (topic : Topic) (group label : String)
    (s : Subscriber α) :
    (v.subscribe q topic group label s).1 = (w.subscribe q topic group label s).1 ∧
      Muted (w.subscribe q topic group label s).2 (v.subscribe q topic group label s).2 := by
  unfold World.subscribe
  rw [h.writer, h.queue]
  cases w.writer q with
  | error e => exact ⟨rfl, h⟩
  | ok writer =>
    cases w.queues[q]? with
    | none => exact ⟨rfl, h⟩
    | some queue =>
      simp only [Option.map_some]
      split
      · exact ⟨rfl, h⟩
      · have same : Transport.openReader topic group v.broker =
            Transport.openReader topic group w.broker := by rw [h.broker]
        simp only [same]
        rcases Transport.openReader topic group w.broker with ⟨opened, b⟩
        have h := h.rebroker b
        cases opened with
        | error e => exact ⟨rfl, h⟩
        | ok reader =>
          have finished (k : Nat) : World.loopFinished { v with broker := b } k =
              World.loopFinished { w with broker := b } k := h.loopFinished k
          simp only [finished, h.length_eq]
          exact ⟨rfl, ((h.addLoop _).setQueue q _).log .info _ _ (by decide)⟩

theorem unsubscribe (h : Muted w v) (q : Nat) (id : SubscriptionId) :
    (v.unsubscribe q id).1 = (w.unsubscribe q id).1 ∧
      Muted (w.unsubscribe q id).2 (v.unsubscribe q id).2 := by
  unfold World.unsubscribe
  rw [h.queue]
  cases w.queues[q]? with
  | none => exact ⟨rfl, h⟩
  | some queue =>
    simp only [Option.map_some, show (mute queue).registry = queue.registry from rfl]
    split
    · exact ⟨rfl, h⟩
    · next k _ =>
      have gone := (h.setQueue q { queue with registry := { queue.registry with
        entries := queue.registry.entries.filter (·.1 ≠ id) } }).cancelLoop k
      obtain ⟨same, waits⟩ := gone.await { purpose := .unsubscribe id, awaiting := [.loop k] }
      exact ⟨congrArg Except.ok same, waits⟩

theorem close (h : Muted w v) (q : Nat) :
    (v.close q).1 = (w.close q).1 ∧ Muted (w.close q).2 (v.close q).2 := by
  unfold World.close
  rw [h.queue]
  cases w.queues[q]? with
  | none => exact ⟨rfl, h⟩
  | some queue =>
    have shut {w v : World T α} (h : Muted w v) := (h.setQueue q { queue with
      writer := none, registry := { queue.registry with entries := [] } }).cancelAll q
    simp only [Option.map_some, show (mute queue).writer = queue.writer from rfl]
    cases queue.writer with
    | none => exact ⟨rfl, h⟩
    | some writer =>
      have same : Transport.closeWriter writer v.broker =
          Transport.closeWriter writer w.broker := by rw [h.broker]
      simp only [same]
      rcases Transport.closeWriter writer w.broker with ⟨result, writer', b⟩
      have h := h.rebroker b
      cases result with
      | ok =>
        obtain ⟨same, waits⟩ := (shut h).await {
          purpose := .close (.ok ()), awaiting := queue.registry.entries.map fun e => .loop e.2 }
        exact ⟨congrArg some same, waits⟩
      | error e =>
        have h := h.log .error "Failed to close Kafka writer" [.error e] (by decide)
        obtain ⟨same, waits⟩ := (shut h).await {
          purpose := .close (.error e), awaiting := queue.registry.entries.map fun e => .loop e.2 }
        exact ⟨congrArg some same, waits⟩

theorem startPool (h : Muted w v) (label : String) (work : α → Work) (size : Nat) :
    (v.startPool label work size).1 = (w.startPool label work size).1 ∧
      Muted (w.startPool label work size).2 (v.startPool label work size).2 :=
  ⟨congrArg List.length h.pools, h.repool (· ++ [Pool.start label work size])⟩

theorem closePool (h : Muted w v) (p : Nat) : Muted (w.closePool p) (v.closePool p) :=
  h.repool (·.modify p Pool.close)

theorem shutdownPool (h : Muted w v) (p : Nat) :
    (v.shutdownPool p).1 = (w.shutdownPool p).1 ∧
      Muted (w.shutdownPool p).2 (v.shutdownPool p).2 := by
  unfold World.shutdownPool
  rw [h.pools]
  exact (h.closePool p).await _

theorem control (h : Muted w v) (c : Transport.Control T) :
    Muted (w.control c) (v.control c) := by
  have turned := h.rebroker (Transport.control c w.broker)
  unfold World.control
  rw [h.broker]
  cases Transport.wakes c with
  | true => exact turned.wake
  | false => exact turned

theorem obey (h : Muted w v) (c : World.Command T α) : Muted (w.obey c) (v.obey c.muted) := by
  cases c with
  | connect files config => exact (h.connect files config).2
  | publish q topic payload => exact (h.publish q topic payload).2
  | publishJson q topic value => exact (h.publishJson q topic value).2
  | subscribe q topic group label s => exact (h.subscribe q topic group label s).2
  | unsubscribe q id => exact (h.unsubscribe q id).2
  | close q => exact (h.close q).2
  | drop q => exact h.cancelAll q
  | startPool label work size => exact (h.startPool label work size).2
  | closePool p => exact h.closePool p
  | shutdownPool p => exact (h.shutdownPool p).2
  | release value => exact h.unleash (· ++ [value])
  | control c => exact h.control c

end Muted

end

end Queue

end Courier
