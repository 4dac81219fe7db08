import Courier.Proofs.Queue.Books
import Courier.Proofs.Queue.Muted

/-!
# Diagnostics are passive

Two runs of the same operations, for which different diagnostics were asked for, come to the same:

* `Muted.after`: each of them is what happens without diagnostics, and the remarks on it;
* `filterMap_aloud`: nothing is counted or acted upon that is a remark;
* `Heeded`, `isDebug_of_connected`: loops have the diagnostics that their queue was asked for;
* `PassiveLaw`: what the worlds after the two runs have in common, and the lines that tell them
  apart;
* `passive_law`: it holds after any operations over any broker.
-/

namespace Courier.Queue

open Broker (Transport Ledger)

variable {T α : Type} [Transport T]

def Note.isLine : Note α → Bool
  | .line _ => true
  | _ => false

/-- Remarks are lost on whatever is blind to log lines. -/
theorem filterMap_aloud {β : Type} {f : Nat × Note α → Option β}
    (blind : ∀ noted, noted.2.isLine = true → f noted = none) (watched : Nat → Option String)
    (plain : List (Nat × Note α)) :
    (plain.flatMap (aloud watched)).filterMap f = plain.filterMap f := by
  have one (noted : Nat × Note α) : (aloud watched noted).filterMap f = [noted].filterMap f := by
    obtain ⟨t, n⟩ := noted
    cases n with
    | act k topic a =>
      cases a with
      | delivered m =>
        cases group : watched k with
        | none => simp [aloud, voices, group]
        | some group => simp [aloud, voices, group, List.filterMap_cons, blind (t, .line _) rfl]
      | answered | committed | withheld | fetchFailed | rested | closed => rfl
    | published | heard | line => rfl
  induction plain with
  | nil => rfl
  | cons noted plain ih =>
    rw [List.flatMap_cons, List.filterMap_append, one, ih, ← List.filterMap_append]
    rfl

theorem aloud_unwatched {watched : Nat → Option String} (none : ∀ k, watched k = none)
    (plain : List (Nat × Note α)) : plain.flatMap (aloud watched) = plain := by
  have one (noted : Nat × Note α) : aloud watched noted = [noted] := by
    obtain ⟨t, n⟩ := noted
    cases n with
    | act k topic a =>
      cases a with
      | delivered m => simp [aloud, voices, none]
      | answered | committed | withheld | fetchFailed | rested | closed => rfl
    | published | heard | line => rfl
  rw [show aloud watched = fun noted => [noted] from funext one, List.flatMap_singleton']

namespace World

/-- All that was noted but log lines, each with its time. -/
def events (w : World T α) : List (Nat × Note α) := w.chronicle.filter (!·.2.isLine)

theorem acts_eq_chronicle (w : World T α) (k : Nat) :
    w.acts k = w.chronicle.filterMap (·.2.actOf k) := by
  simp [acts, chronicle, List.filterMap_reverse]

def tally (w : World T α) : List (Metric × String) := w.chronicle.filterMap (·.2.counts)

theorem count_eq_tally (w : World T α) (m : Metric) (topic : String) :
    w.count m topic = w.tally.count (m, topic) := by
  rw [tally, List.count_filterMap, chronicle, List.countP_reverse]
  rfl

theorem counters_eq_tally (w : World T α) : w.counters = w.tally.reverse.eraseDups := by
  simp [counters, tally, chronicle, List.filterMap_reverse]

variable [DecidableEq α]

def Attempt.muted : Attempt T α → Attempt T α
  | .step s => .step s
  | .command c => .command c.muted

end World

open World (Attempt)

namespace Muted

variable {w v : World T α}

theorem tally (h : Muted w v) : v.tally = w.tally := by
  rw [World.tally, World.tally, h.chronicle, filterMap_aloud]
  rintro ⟨t, n⟩ line
  cases n <;> first | rfl | cases line

theorem acts (h : Muted w v) (k : Nat) : v.acts k = w.acts k := by
  rw [World.acts_eq_chronicle, World.acts_eq_chronicle, h.chronicle, filterMap_aloud]
  rintro ⟨t, n⟩ line
  cases n <;> first | rfl | cases line

theorem events (h : Muted w v) : v.events = w.events := by
  simp only [World.events, ← List.filterMap_eq_filter]
  rw [h.chronicle, filterMap_aloud]
  rintro ⟨t, n⟩ line
  cases n <;> first | rfl | cases line

theorem isSome_eq {a b : Option (World T α)} (h : Option.Rel Muted a b) : b.isSome = a.isSome := by
  cases h <;> rfl

variable [DecidableEq α]

theorem attempt (h : Muted w v) (a : Attempt T α) : Muted (w.attempt a) (v.attempt a.muted) := by
  cases a with
  | command c => exact h.obey c
  | step s =>
    have rel := h.step s
    simp only [World.attempt, Attempt.muted]
    generalize w.step s = next at rel
    generalize v.step s = next' at rel
    cases rel with
    | none => exact h
    | some stepped => exact stepped

theorem after (h : Muted w v) (attempts : List (Attempt T α)) :
    Muted (w.after attempts) (v.after (attempts.map Attempt.muted)) := by
  induction attempts generalizing w v with
  | nil => exact h
  | cons a attempts ih => exact ih (h.attempt a)

end Muted

namespace World

section
variable {w v u : World T α} {q : Nat} {queue : MessageQueue T}

/-- Every loop is watched if its queue is to be. -/
def Heeded (w : World T α) : Prop :=
  ∀ (k : Nat) (l : ReadLoop T α), w.loops[k]? = some l →
    ∃ queue, w.queues[l.queue]? = some queue ∧ l.isDebug = queue.isDebug

/-- Queues and loops keep their diagnostics, and a new loop has those of its queue. -/
structure Heeds (w v : World T α) : Prop where
  queue : ∀ (q : Nat) (queue : MessageQueue T), w.queues[q]? = some queue →
    ∃ queue', v.queues[q]? = some queue' ∧ queue'.isDebug = queue.isDebug
  loop : ∀ (k : Nat) (l' : ReadLoop T α), v.loops[k]? = some l' →
    (∃ l, w.loops[k]? = some l ∧ l'.queue = l.queue ∧ l'.isDebug = l.isDebug) ∨
      ∃ queue, w.queues[l'.queue]? = some queue ∧ l'.isDebug = queue.isDebug

theorem Heeds.heeded (heeds : Heeds w v) (heeded : Heeded w) : Heeded v := by
  intro k l' there
  obtain ⟨queue, here, same⟩ : ∃ queue, w.queues[l'.queue]? = some queue ∧
      l'.isDebug = queue.isDebug := by
    obtain ⟨l, here, owner, same⟩ | new := heeds.loop k l' there
    · obtain ⟨queue, found, heeds⟩ := heeded k l here
      exact ⟨queue, owner ▸ found, same.trans heeds⟩
    · exact new
  obtain ⟨queue', found, keeps⟩ := heeds.queue _ queue here
  exact ⟨queue', found, same.trans keeps.symm⟩

theorem close_isDebug (j : Nat) (here : w.queues[q]? = some queue) :
    ∃ queue', (w.close j).2.queues[q]? = some queue' ∧ queue'.isDebug = queue.isDebug := by
  rw [close_eq]
  cases taken : w.takeWriter j with
  | none => exact ⟨queue, here, rfl⟩
  | some half =>
    obtain ⟨result, v⟩ := half
    obtain ⟨parted, there, fate⟩ := (takeWriter_books taken).fate here
    cases found : v.queues[j]? with
    | none => exact ⟨parted, by simpa only [found] using there, fate.isDebug⟩
    | some closing =>
      obtain ⟨closed, there', fate'⟩ := (drain_books found result).fate there
      exact ⟨closed, by simpa only [found] using there', fate'.isDebug.trans fate.isDebug⟩

theorem close_length (w : World T α) (q : Nat) :
    (w.close q).2.loops.length = w.loops.length := by
  unfold close
  split
  · rfl
  · split
    · rfl
    · next writer _ =>
      rcases closed : Transport.closeWriter writer w.broker with ⟨result, writer', broker⟩
      cases result <;> exact (cancelAll_kept w q).length_eq

/-- A queue has the diagnostics it is configured with. -/
theorem connect_isDebug {files : Files} {config : Broker.Config} {c : Broker.Connection}
    (made : w.connect files config = (.ok (q, c), v)) :
    ∃ queue, v.queues[q]? = some queue ∧ queue.isDebug = config.isDebug := by
  unfold connect at made
  split at made
  · simp at made
  · next connection accepted =>
    simp only at made
    split at made
    · simp at made
    · split at made
      · simp at made
      · next writer _ =>
        obtain ⟨answer, rfl⟩ := Prod.mk.inj made
        obtain ⟨rfl, -⟩ := Prod.mk.inj (Except.ok.inj answer)
        have asked := (Broker.Config.validateWith_eq_ok.mp accepted).isDebug
        exact ⟨{ isDebug := connection.isDebug, writer := some writer }, by simp [log, note], asked⟩

variable [DecidableEq α]

/-- A move is none of the registries' business but for a call to close. -/
theorem Move.books (move : Move w v) : Books w v false ∨ ∃ q, v = (w.close q).2 := by
  cases move with
  | step s possible => exact .inl (step_books possible)
  | command c =>
    cases other : c.closes with
    | false => exact .inl (obey_books other)
    | true =>
      obtain ⟨q, rfl⟩ : ∃ q, c = .close q := by
        cases c <;> simp [Command.closes] at other ⊢
      exact .inr ⟨q, rfl⟩

theorem Move.heeds (move : Move w v) : Heeds w v := by
  constructor
  case queue =>
    intro q queue here
    obtain books | ⟨j, rfl⟩ := move.books
    · obtain ⟨queue', there, fate⟩ := books.fate here
      exact ⟨queue', there, fate.isDebug⟩
    · exact close_isDebug j here
  case loop =>
    intro k l' there
    cases here : w.loops[k]? with
    | some l =>
      refine .inl ⟨l, rfl, ?_⟩
      obtain ⟨l₀, t, here₀, takes, rfl⟩ | spared := move_turn move k
      · obtain rfl : l = l₀ := Option.some.inj (here.symm.trans here₀)
        obtain rfl : t.loop = l' := Option.some.inj ((turned_self here t).symm.trans there)
        cases takes <;> exact ⟨rfl, rfl⟩
      · obtain ⟨l₁, there₁, kept⟩ := spared.loop l here
        obtain rfl : l₁ = l' := Option.some.inj (there₁.symm.trans there)
        rw [kept.rest]
        exact ⟨rfl, rfl⟩
    | none =>
      obtain books | ⟨j, rfl⟩ := move.books
      · exact .inr (books.new here there)
      · have bound := (List.getElem?_eq_some_iff.mp there).1
        rw [close_length] at bound
        exact absurd bound (Nat.not_lt_of_le (List.getElem?_eq_none_iff.mp here))

theorem reachable_heeded {broker : T} (reach : Reachable broker w) : Heeded w := by
  induction reach with
  | start =>
    intro k l here
    cases here
  | next _ move ih => exact move.heeds.heeded ih

theorem Leads.isDebug (later : w.Leads v) (here : w.queues[q]? = some queue) :
    ∃ queue', v.queues[q]? = some queue' ∧ queue'.isDebug = queue.isDebug := by
  induction later with
  | refl => exact ⟨queue, here, rfl⟩
  | tail _ move ih =>
    obtain ⟨queue₁, here₁, same₁⟩ := ih
    obtain ⟨queue₂, here₂, same₂⟩ := move.heeds.queue q queue₁ here₁
    exact ⟨queue₂, here₂, same₂.trans same₁⟩

/-- A loop is watched if its queue was connected with diagnostics, and no other loop is. -/
theorem isDebug_of_connected {broker : T} (reach : Reachable broker w) {files : Files}
    {config : Broker.Config} {c : Broker.Connection}
    (made : w.connect files config = (.ok (q, c), u)) (later : u.Leads v) {k : Nat}
    {l : ReadLoop T α} (here : v.loops[k]? = some l) (owner : l.queue = q) :
    l.isDebug = config.isDebug := by
  obtain ⟨queue, found, asked⟩ := connect_isDebug made
  obtain ⟨queue', there, keeps⟩ := later.isDebug found
  have connected : Reachable broker u := by
    have obeyed : w.obey (.connect files config) = u := congrArg Prod.snd made
    exact obeyed ▸ reach.next (.command _)
  obtain ⟨own, there', heeds⟩ := reachable_heeded (connected.leads later) k l here
  obtain rfl : own = queue' := Option.some.inj ((owner ▸ there').symm.trans there)
  rw [heeds, keeps, asked]

end

section
variable (w v : World T α)

/-- Whatever may be asked next, both give the same answer. -/
structure Agree : Prop where
  /-- But a connection knows of its diagnostics. -/
  connect : ∀ files config config', config.muted = config'.muted →
    (v.connect files config').1.map (fun (q, c) => (q, c.muted)) =
      (w.connect files config).1.map (fun (q, c) => (q, c.muted))
  publish : ∀ q topic payload, (v.publish q topic payload).1 = (w.publish q topic payload).1
  publishJson : ∀ q topic value, (v.publishJson q topic value).1 = (w.publishJson q topic value).1
  subscribe : ∀ q topic group label s,
    (v.subscribe q topic group label s).1 = (w.subscribe q topic group label s).1
  unsubscribe : ∀ q id, (v.unsubscribe q id).1 = (w.unsubscribe q id).1
  close : ∀ q, (v.close q).1 = (w.close q).1
  startPool : ∀ label work size, (v.startPool label work size).1 = (w.startPool label work size).1
  shutdownPool : ∀ p, (v.shutdownPool p).1 = (w.shutdownPool p).1
  subscriptions : ∀ q, v.subscriptions q = w.subscriptions q

/-- What two worlds have in common after the same operations, whatever diagnostics were asked for,
and what tells them apart. -/
structure PassiveLaw [DecidableEq α] : Prop where
  now : v.now = w.now
  /-- The logs and the offsets of a ledger are part of it. -/
  broker : v.broker = w.broker
  queues : v.queues.map mute = w.queues.map mute
  loops : v.loops.map ReadLoop.muted = w.loops.map ReadLoop.muted
  /-- Every loop has the diagnostics of its queue. -/
  heeded : Heeded w ∧ Heeded v
  pools : v.pools = w.pools
  /-- The results of calls are part of it. -/
  pending : v.pending = w.pending
  released : v.released = w.released
  acts : ∀ k, v.acts k = w.acts k
  /-- Everything else that was to be seen, but log lines, was so at the same time. -/
  events : v.events = w.events
  counts : ∀ m topic, v.count m topic = w.count m topic
  counters : v.counters = w.counters
  agree : Agree w v
  possible : ∀ s, (v.step s).isSome = (w.step s).isSome
  /-- A loop that hands over a message notes this act, then the remark if the loop is watched, and
  then what its subscriber is heard to say when it is called. -/
  called : ∀ k u m more, w.loopStep k = some u → u.acts k = w.acts k ++ more →
    .delivered m ∈ more → ∃ l r said calls, w.loops[k]? = some l ∧
      l.subscriber.receive l.calls m = (r, said, calls) ∧
      u.notes = w.notes ++ (voices w.watched (.act k l.topic.name (.delivered m)) ++
        said.map (noteOf l.label))
  /-- There are lines that neither writes because of its diagnostics. These, and one line behind
  every handing over by a loop that is watched, are all that is written. -/
  lines : ∃ plain : List (Nat × Note α), (∀ noted ∈ plain, noted.2.isRemark = false) ∧
    w.chronicle = plain.flatMap (aloud w.watched) ∧ v.chronicle = plain.flatMap (aloud v.watched)
  /-- With diagnostics for none of its loops, a world writes the first of these only. -/
  added : (∀ l ∈ v.loops, l.isDebug = false) →
    (∀ noted ∈ v.chronicle, noted.2.isRemark = false) ∧
      w.chronicle = v.chronicle.flatMap (aloud w.watched)

end

theorem delivery_notes {w u : World T α} {k : Nat} {m : Message} (step : w.loopStep k = some u)
    {more : List Act} (acts : u.acts k = w.acts k ++ more) (given : .delivered m ∈ more) :
    ∃ l r said calls, w.loops[k]? = some l ∧ l.subscriber.receive l.calls m = (r, said, calls) ∧
      u.notes = w.notes ++ (voices w.watched (.act k l.topic.name (.delivered m)) ++
        said.map (noteOf l.label)) := by
  obtain ⟨l, t, here, takes, rfl⟩ := loopStep_takes step
  rw [acts_turned] at acts
  obtain rfl := List.append_cancel_left acts
  refine ⟨l, ?_⟩
  cases takes with
  | @deliver reader b m' r said calls _ _ _ received =>
    obtain rfl : m = m' := by simpa using given
    refine ⟨r, said, calls, here, received, ?_⟩
    rw [notes_turned, Muted.voices_delivered (.here here)]
    rfl
  | stop | park | lose | falter | accept | reject | leave | rise | fail =>
    simp [List.filterMap_cons] at given

end World

namespace Muted

variable {w v u : World T α}

theorem agree (first : Muted w u) (second : Muted v u) : World.Agree w v := by
  constructor
  case connect =>
    intro files config config' same
    rw [← (first.connect files config).1, same, (second.connect files config').1]
  case publish =>
    intro q topic payload
    rw [← (first.publish q topic payload).1, (second.publish q topic payload).1]
  case publishJson =>
    intro q topic value
    rw [← (first.publishJson q topic value).1, (second.publishJson q topic value).1]
  case subscribe =>
    intro q topic group label s
    rw [← (first.subscribe q topic group label s).1, (second.subscribe q topic group label s).1]
  case unsubscribe =>
    intro q id
    rw [← (first.unsubscribe q id).1, (second.unsubscribe q id).1]
  case close =>
    intro q
    rw [← (first.close q).1, (second.close q).1]
  case startPool =>
    intro label work size
    rw [← (first.startPool label work size).1, (second.startPool label work size).1]
  case shutdownPool =>
    intro p
    rw [← (first.shutdownPool p).1, (second.shutdownPool p).1]
  case subscriptions =>
    intro q
    rw [← first.subscriptions, second.subscriptions]

/-- Two worlds that would be the same without diagnostics. -/
theorem passiveLaw [DecidableEq α] (first : Muted w u) (second : Muted v u)
    (heeded : w.Heeded ∧ v.Heeded) : World.PassiveLaw w v := by
  constructor
  case now => rw [← first.now, second.now]
  case broker => rw [← first.broker, second.broker]
  case queues => rw [← first.queues, second.queues]
  case loops => rw [← first.loops, second.loops]
  case heeded => exact heeded
  case pools => rw [← first.pools, second.pools]
  case pending => rw [← first.pending, second.pending]
  case released => rw [← first.released, second.released]
  case acts => exact fun k => by rw [← first.acts, second.acts]
  case events => rw [← first.events, second.events]
  case counts =>
    intro m topic
    rw [World.count_eq_tally, World.count_eq_tally, ← first.tally, second.tally]
  case counters =>
    rw [World.counters_eq_tally, World.counters_eq_tally, ← first.tally, second.tally]
  case agree => exact first.agree second
  case possible =>
    intro s
    rw [← isSome_eq (first.step s), isSome_eq (second.step s)]
  case called => exact fun k u m more step acts given => World.delivery_notes step acts given
  case lines => exact ⟨u.chronicle, first.plain, first.chronicle, second.chronicle⟩
  case added =>
    intro off
    have unwatched (k : Nat) : v.watched k = none := by
      unfold World.watched
      cases here : v.loops[k]? with
      | none => rfl
      | some l =>
        have off := off l (List.mem_of_getElem? here)
        simp [ReadLoop.watched, off]
    have same : v.chronicle = u.chronicle := by
      rw [second.chronicle, aloud_unwatched unwatched]
    rw [same]
    exact ⟨first.plain, first.chronicle⟩

end Muted

namespace World

/-- **Diagnostics are passive.** After the same operations two worlds are the same, whoever has
asked for diagnostics in either of them, and what the one writes and the other does not is a line
for each message, just before its subscriber is called. -/
theorem passive_law [DecidableEq α] (broker : T) {xs ys : List (Attempt T α)}
    (same : xs.map Attempt.muted = ys.map Attempt.muted) :
    PassiveLaw (after { broker } xs) (after { broker } ys) := by
  have first := (Muted.opening (α := α) broker).after xs
  have second := (Muted.opening (α := α) broker).after ys
  rw [← same] at second
  exact first.passiveLaw second
    ⟨reachable_heeded (reachable_after broker xs), reachable_heeded (reachable_after broker ys)⟩

/-- A message that is rejected once, and so handed over twice. -/
def rehearsed (diagnostics : Bool) : List (Attempt Ledger String) :=
  .command (.connect ⟨[]⟩ {
    brokers := "memory:9092", username := "develop", password := "secret", mechanisms := "PLAIN"
    protocol := "PLAINTEXT", isDebug := diagnostics, hasLogger := diagnostics }) ::
  .command (.subscribe 0 orders "audit" "auditor"
    (.direct ⟨fun calls _ => { accept := calls != 0 }⟩)) :: disturbed

/-- There are as many remarks as messages were handed over, or none. -/
theorem passive_law_rehearsed :
    let w : World Ledger String := after { broker := {} } (rehearsed true)
    let v : World Ledger String := after { broker := {} } (rehearsed false)
    PassiveLaw w v ∧ (w.deliveries 0).map (·.offset) = [0, 0, 1] ∧
      w.chronicle.countP (·.2.isRemark) = 3 ∧ v.chronicle.countP (·.2.isRemark) = 0 := by
  have same : (rehearsed true).map Attempt.muted = (rehearsed false).map Attempt.muted := rfl
  have law := passive_law (T := Ledger) {} same
  exact ⟨law, by decide +kernel, by decide +kernel, by decide +kernel⟩

end World

end Courier.Queue
