import Courier.Proofs.Queue.Acts

/-!
# Turns of a read loop

Everything a step of a loop can do, said once:

* `Takes`: the ten turns, each with the broker, the loop, the notes and the
  offer it ends with;
* `loopStep_takes`, `takes_loopStep`: a loop's steps are its turns, so that an
  invariant of the loops is checked turn by turn;
* `loopStep_of_answered`: a loop whose subscriber has answered has a step,
  whether it was cancelled or not.
-/

namespace Courier.Queue

open Broker (Transport)

variable {T α : Type} [Transport T]

/-- What a turn of a loop leaves behind. An offer is made to a pool in the loop's name. -/
structure Turn (T α : Type) [Transport T] where
  broker : T
  loop : ReadLoop T α
  notes : List (Note α) := []
  offer : Option (Nat × α) := none

/-- How far the handling of a message is once its subscriber has been called. -/
def phaseAfter (now : Nat) (m : Message) : Reception α → Phase α
  | .failed delay => .handling m (.failing (now + delay))
  | .answered accept delay => .handling m (.answered accept (now + delay))
  | .offered _ => .handling m .offered

/-- Only a pooled subscriber leaves a value to its pool. -/
def offerOf (s : Subscriber α) (r : Reception α) : Option (Nat × α) :=
  match r, s with
  | .offered value, .pooled _ pool => some (pool, value)
  | _, _ => none

namespace ReadLoop

/-- What the subscriber of a loop is heard to say of a call that failed. -/
def toldOf (l : ReadLoop T α) (m : Message) : Except Error Unit → List (Note α)
  | .ok () => []
  | .error e => [noteOf l.label (l.subscriber.report (some m) e)]

def streamNote (l : ReadLoop T α) (level : Log.Level) (reason : String) : Note α :=
  .line ⟨level, "Kafka stream closed", World.streamFields l reason⟩

def receivedNotes (l : ReadLoop T α) (m : Message) : List (Note α) :=
  if l.isDebug then [.line ⟨.debug, "Message received", World.receivedFields l m⟩] else []

variable (k now : Nat) (b : T) (l : ReadLoop T α)

/-- The turns that loop `k` can take in its present state, at a time and over a broker. -/
inductive Takes : Turn T α → Prop where
  /-- A loop that was cancelled before it fetched, or while it did. -/
  | stop (phase : l.phase = .ready ∨ l.phase = .parked) (cancelled : l.cancelled = true) :
    Takes {
      broker := (Transport.closeReader l.reader b).2
      loop := { l with reader := (Transport.closeReader l.reader b).1, phase := .ended }
      notes := [l.streamNote .debug "subscription cancelled", .act k l.topic.name .closed] }
  | park {reader : Transport.Reader T} {b' : T} (phase : l.phase = .ready)
    (running : l.cancelled = false)
    (fetched : Transport.fetch l.reader b = (.nothing, reader, b')) :
    Takes { broker := b', loop := { l with reader, phase := .parked } }
  | deliver {reader : Transport.Reader T} {b' : T} {m : Message} {r : Reception α}
    {said : List (Utterance α)} {calls : Nat} (phase : l.phase = .ready)
    (running : l.cancelled = false)
    (fetched : Transport.fetch l.reader b = (.message m, reader, b'))
    (received : l.subscriber.receive l.calls m = (r, said, calls)) :
    Takes {
      broker := b'
      loop := { l with reader, failures := 0, calls, phase := phaseAfter now m r }
      notes := .act k l.topic.name (.delivered m) ::
        (l.receivedNotes m ++ said.map (noteOf l.label))
      offer := offerOf l.subscriber r }
  /-- The stream has come to its end. -/
  | lose {reader : Transport.Reader T} {b' : T} {e : Error} (phase : l.phase = .ready)
    (running : l.cancelled = false)
    (fetched : Transport.fetch l.reader b = (.closed e, reader, b')) :
    Takes {
      broker := (Transport.closeReader reader b').2
      loop := { l with reader := (Transport.closeReader reader b').1, phase := .ended }
      notes := [l.streamNote .error e.message, .act k l.topic.name .closed] }
  | falter {reader : Transport.Reader T} {b' : T} {e : Error} (phase : l.phase = .ready)
    (running : l.cancelled = false)
    (fetched : Transport.fetch l.reader b = (.transient e, reader, b')) :
    Takes {
      broker := b'
      loop := { l with
        reader, failures := oneMore l.failures
        phase := .resting (now + (pause l.failures).toNat) }
      notes := [.act k l.topic.name (.fetchFailed e), noteOf l.label (l.subscriber.report none e),
        .act k l.topic.name (.rested (pause l.failures).toNat)] }
  | accept {reader : Transport.Reader T} {b' : T} {m : Message} {due : Nat} {r : Except Error Unit}
    (phase : l.phase = .handling m (.answered true due)) (elapsed : due ≤ now)
    (committed : Transport.commit l.reader m b = (r, reader, b')) :
    Takes {
      broker := b'
      loop := { l with reader, rejections := 0, phase := .ready }
      notes := .act k l.topic.name (.answered m true) :: .act k l.topic.name (.committed m r) ::
        l.toldOf m r }
  | reject {reader : Transport.Reader T} {b' : T} {m : Message} {due : Nat} {r : Except Error Unit}
    (phase : l.phase = .handling m (.answered false due)) (elapsed : due ≤ now)
    (withheld : Transport.withhold l.reader m b = (r, reader, b')) :
    Takes {
      broker := b'
      loop := { l with
        reader, rejections := oneMore l.rejections
        phase := .resting (now + (pause l.rejections).toNat) }
      notes := .act k l.topic.name (.answered m false) :: .act k l.topic.name (.withheld m r) ::
        (l.toldOf m r ++ [.act k l.topic.name (.rested (pause l.rejections).toNat)]) }
  /-- The call has failed, and the loop with it. Nothing is closed, and nothing said. -/
  | fail {m : Message} {due : Nat} (phase : l.phase = .handling m (.failing due))
    (elapsed : due ≤ now) : Takes { broker := b, loop := { l with phase := .failed } }
  /-- A loop that was cancelled while it rested. -/
  | leave {due : Nat} (phase : l.phase = .resting due) (cancelled : l.cancelled = true) :
    Takes {
      broker := (Transport.closeReader l.reader b).2
      loop := { l with reader := (Transport.closeReader l.reader b).1, phase := .ended }
      notes := [.act k l.topic.name .closed] }
  | rise {due : Nat} (phase : l.phase = .resting due) (running : l.cancelled = false)
    (elapsed : due ≤ now) :
    Takes { broker := b, loop := { l with phase := .ready } }

end ReadLoop

@[simp] theorem actOf_toldOf (l : ReadLoop T α) (m : Message) (r : Except Error Unit)
    (j : Nat) : (l.toldOf m r).filterMap (·.actOf j) = [] := by
  cases r with
  | ok => rfl
  | error e => simp [ReadLoop.toldOf]

@[simp] theorem actOf_receivedNotes (l : ReadLoop T α) (m : Message) (j : Nat) :
    (l.receivedNotes m).filterMap (·.actOf j) = [] := by
  unfold ReadLoop.receivedNotes
  split <;> rfl

@[simp] theorem actOf_streamNote (l : ReadLoop T α) (level : Log.Level) (reason : String)
    (j : Nat) : (l.streamNote level reason).actOf j = none := rfl

theorem takes_other {k now : Nat} {b : T} {l : ReadLoop T α} {t : Turn T α}
    (takes : l.Takes k now b t) {j : Nat} (other : k ≠ j) :
    t.notes.filterMap (·.actOf j) = [] := by
  cases takes <;> simp [other]

namespace World

def turned (w : World T α) (k : Nat) (t : Turn T α) : World T α :=
  { w.jot t.notes with
    broker := t.broker
    loops := w.loops.set k t.loop
    pools := match t.offer with
      | some (p, value) => w.pools.modify p fun pool => pool.offer k value
      | none => w.pools }

theorem acts_turned (w : World T α) (k : Nat) (t : Turn T α) (j : Nat) :
    (w.turned k t).acts j = w.acts j ++ t.notes.filterMap (·.actOf j) :=
  acts_jot w t.notes j

section
variable {w : World T α} {j k : Nat} {l : ReadLoop T α} {t : Turn T α}

theorem turned_self (here : w.loops[k]? = some l) (t : Turn T α) :
    (w.turned k t).loops[k]? = some t.loop :=
  List.getElem?_set_self (List.getElem?_eq_some_iff.mp here).1

theorem turned_ne (t : Turn T α) (other : j ≠ k) : (w.turned j t).loops[k]? = w.loops[k]? :=
  List.getElem?_set_ne other

theorem acts_turned_ne (takes : l.Takes j w.now w.broker t) (other : j ≠ k) :
    (w.turned j t).acts k = w.acts k := by
  rw [acts_turned, takes_other takes other, List.append_nil]

end

theorem deliver_eq (w : World T α) (k : Nat) (l : ReadLoop T α) (m : Message) {r : Reception α}
    {said : List (Utterance α)} {calls : Nat}
    (received : l.subscriber.receive l.calls m = (r, said, calls)) :
    w.deliver k l m = w.turned k {
      broker := w.broker
      loop := { l with calls, phase := phaseAfter w.now m r }
      notes := .act k l.topic.name (.delivered m) ::
        (l.receivedNotes m ++ said.map (noteOf l.label))
      offer := offerOf l.subscriber r } := by
  have noted : said.foldl (fun w u => w.utter l.label u)
      (if l.isDebug then
          (w.act k l (.delivered m)).log .debug "Message received" (receivedFields l m)
        else w.act k l (.delivered m)) =
      w.jot (.act k l.topic.name (.delivered m) ::
        (l.receivedNotes m ++ said.map (noteOf l.label))) := by
    rw [foldl_utter, ← note_jot, ← jot_jot]
    cases h : l.isDebug
    · simp [ReadLoop.receivedNotes, h, jot_nil, act]
    · simp [ReadLoop.receivedNotes, h, act, log, ← note_jot, jot_nil]
  unfold deliver
  simp only [received]
  rw [noted]
  cases r with
  | failed delay => rfl
  | answered accept delay => rfl
  | offered value => cases l.subscriber <;> rfl

theorem fetch_takes (w : World T α) (k : Nat) (l : ReadLoop T α) (phase : l.phase = .ready)
    (running : l.cancelled = false) :
    ∃ t, l.Takes k w.now w.broker t ∧ w.fetch k l = w.turned k t := by
  rcases hf : Transport.fetch l.reader w.broker with ⟨fetched, reader, b'⟩
  unfold fetch
  simp only [hf]
  cases fetched with
  | nothing => exact ⟨_, .park phase running hf, rfl⟩
  | message m =>
    rcases hr : l.subscriber.receive l.calls m with ⟨r, said, calls⟩
    exact ⟨_, .deliver phase running hf hr, deliver_eq _ _ _ _ hr⟩
  | closed e => exact ⟨_, .lose phase running hf, rfl⟩
  | transient e =>
    refine ⟨_, .falter phase running hf, ?_⟩
    simp only [report, utter_eq_note]
    rfl

theorem settle_takes (w : World T α) (k : Nat) (l : ReadLoop T α) {m : Message} {accept : Bool}
    {due : Nat} (phase : l.phase = .handling m (.answered accept due)) (elapsed : due ≤ w.now) :
    ∃ t, l.Takes k w.now w.broker t ∧ w.settle k l m accept = w.turned k t := by
  unfold settle
  cases accept with
  | true =>
    rcases hc : Transport.commit l.reader m (w.act k l (.answered m true)).broker
      with ⟨r, reader, b'⟩
    refine ⟨_, .accept phase elapsed hc, ?_⟩
    simp only [hc, report, utter_eq_note, ↓reduceIte]
    cases r <;> rfl
  | false =>
    rcases hc : Transport.withhold l.reader m (w.act k l (.answered m false)).broker
      with ⟨r, reader, b'⟩
    refine ⟨_, .reject phase elapsed hc, ?_⟩
    simp only [hc, report, utter_eq_note, Bool.false_eq_true, ↓reduceIte]
    cases r <;> rfl

/-- A loop's step is one of its turns. -/
theorem loopStep_takes {w v : World T α} {k : Nat} (h : w.loopStep k = some v) :
    ∃ l t, w.loops[k]? = some l ∧ l.Takes k w.now w.broker t ∧ v = w.turned k t := by
  unfold loopStep at h
  cases hl : w.loops[k]? with
  | none => simp [hl] at h
  | some l =>
    simp only [hl] at h
    refine ⟨l, ?_⟩
    cases hp : l.phase with
    | ready =>
      cases hc : l.cancelled with
      | true =>
        simp only [hp, hc, ↓reduceIte, Option.some.injEq] at h
        exact ⟨_, rfl, .stop (.inl hp) hc, h.symm⟩
      | false =>
        simp only [hp, hc, Bool.false_eq_true, ↓reduceIte, Option.some.injEq] at h
        obtain ⟨t, takes, eq⟩ := fetch_takes w k l hp hc
        exact ⟨t, rfl, takes, h.symm.trans eq⟩
    | parked =>
      cases hc : l.cancelled with
      | true =>
        simp only [hp, hc, ↓reduceIte, Option.some.injEq] at h
        exact ⟨_, rfl, .stop (.inr hp) hc, h.symm⟩
      | false => simp [hp, hc] at h
    | handling m stage =>
      cases stage with
      | offered => simp [hp] at h
      | failing due =>
        by_cases elapsed : due ≤ w.now
        · simp only [hp, elapsed, ↓reduceIte, Option.some.injEq] at h
          exact ⟨_, rfl, .fail hp elapsed, h.symm⟩
        · simp [hp, elapsed] at h
      | answered accept due =>
        by_cases elapsed : due ≤ w.now
        · simp only [hp, elapsed, ↓reduceIte, Option.some.injEq] at h
          obtain ⟨t, takes, eq⟩ := settle_takes w k l hp elapsed
          exact ⟨t, rfl, takes, h.symm.trans eq⟩
        · simp [hp, elapsed] at h
    | resting due =>
      cases hc : l.cancelled with
      | true =>
        simp only [hp, hc, ↓reduceIte, Option.some.injEq] at h
        exact ⟨_, rfl, .leave hp hc, h.symm⟩
      | false =>
        by_cases elapsed : due ≤ w.now
        · simp only [hp, elapsed, ↓reduceIte] at h
          rw [if_neg (by simp [hc]), Option.some.injEq] at h
          exact ⟨_, rfl, .rise hp hc elapsed, h.symm⟩
        · simp [hp, hc, elapsed] at h
    | ended => simp [hp] at h
    | failed => simp [hp] at h

/-- Cancelling a loop does not keep it from dealing with a message that has been answered. -/
theorem loopStep_of_answered {w : World T α} {k : Nat} {l : ReadLoop T α} {m : Message}
    {accept : Bool} {due : Nat} (here : w.loops[k]? = some l)
    (phase : l.phase = .handling m (.answered accept due)) (elapsed : due ≤ w.now) :
    w.loopStep k = some (w.settle k l m accept) := by
  simp [loopStep, here, phase, elapsed]

/-- Every turn that a loop can take is its step. -/
theorem takes_loopStep {w : World T α} {k : Nat} {l : ReadLoop T α} {t : Turn T α}
    (here : w.loops[k]? = some l) (takes : l.Takes k w.now w.broker t) :
    w.loopStep k = some (w.turned k t) := by
  have fetching (phase : l.phase = .ready) (running : l.cancelled = false) :
      w.loopStep k = some (w.fetch k l) := by
    simp [loopStep, here, phase, running]
  cases takes with
  | stop phase cancelled =>
    have step : w.loopStep k = some ((w.log .debug "Kafka stream closed"
        (streamFields l "subscription cancelled")).endLoop k l) := by
      obtain phase | phase := phase <;> simp [loopStep, here, phase, cancelled]
    exact step
  | park phase running fetched =>
    rw [fetching phase running]
    simp only [fetch, fetched]
    rfl
  | @deliver reader b' m r said calls phase running fetched received =>
    rw [fetching phase running]
    simp only [fetch, fetched]
    exact congrArg some (deliver_eq { w with broker := b' } k { l with reader, failures := 0 } m
      received)
  | lose phase running fetched =>
    rw [fetching phase running]
    simp only [fetch, fetched]
    rfl
  | falter phase running fetched =>
    rw [fetching phase running]
    simp only [fetch, fetched, report, utter_eq_note]
    rfl
  | @accept _ _ m _ r phase elapsed committed =>
    have committed : Transport.commit l.reader m (w.act k l (.answered m true)).broker = _ :=
      committed
    rw [loopStep_of_answered here phase elapsed]
    simp only [settle, committed, report, utter_eq_note, ↓reduceIte]
    cases r <;> rfl
  | @reject _ _ m _ r phase elapsed withheld =>
    have withheld : Transport.withhold l.reader m (w.act k l (.answered m false)).broker = _ :=
      withheld
    rw [loopStep_of_answered here phase elapsed]
    simp only [settle, withheld, report, utter_eq_note, Bool.false_eq_true, ↓reduceIte]
    cases r <;> rfl
  | fail phase elapsed =>
    have step : w.loopStep k = some (w.setLoop k { l with phase := .failed }) := by
      simp [loopStep, here, phase, elapsed]
    exact step
  | leave phase cancelled =>
    have step : w.loopStep k = some (w.endLoop k l) := by
      simp [loopStep, here, phase, cancelled]
    exact step
  | rise phase running elapsed =>
    have step : w.loopStep k = some (w.setLoop k { l with phase := .ready }) := by
      simp [loopStep, here, phase, running, elapsed]
    exact step

end World

end Courier.Queue
