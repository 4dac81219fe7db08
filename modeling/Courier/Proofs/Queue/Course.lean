import Courier.Proofs.Queue.Change

/-!
# The course of a read loop

Whole rounds of a loop, and where they lead:

* `Course`: rounds that begin at an offset, each over the entry that is next;
* `Steady`: a loop between two rounds, within one, or at its end, with its
  cursor where the rounds have led;
* `Steady.turn`: every turn keeps a loop steady, whatever it does.
-/

namespace Courier.Queue

open Broker (Transport Ledger)

def Act.commit : Act → Option Message
  | .committed m (.ok _) => some m
  | _ => none

/-- Where a loop is between two rounds: the offset it reads next, the fetches that failed since
the last message, and the messages not accepted since the last one that was. -/
structure Point where
  offset : Int
  failures : Nat
  rejections : Nat

/-- The acts of whole rounds over the log of a topic, from offset `c` on, and where they lead. -/
inductive Course (b : Ledger) (topic : String) (c : Int) : List Act → Point → Prop where
  | start : Course b topic c [] ⟨c, 0, 0⟩
  | falter {acts : List Act} {p : Point} (before : Course b topic c acts p) (e : Error) :
    Course b topic c (acts ++ [.fetchFailed e, .rested (backoff p.failures)])
      { p with failures := p.failures + 1 }
  | accept {acts : List Act} {p : Point} (before : Course b topic c acts p) {m : Message}
    (entry : b.at? topic p.offset = some m) (place : m.offset = p.offset) (r : Except Error Unit) :
    Course b topic c (acts ++ [.delivered m, .answered m true, .committed m r])
      ⟨p.offset + 1, 0, 0⟩
  | reject {acts : List Act} {p : Point} (before : Course b topic c acts p) {m : Message}
    (entry : b.at? topic p.offset = some m) (place : m.offset = p.offset) (r : Except Error Unit) :
    Course b topic c
      (acts ++ [.delivered m, .answered m false, .withheld m r, .rested (backoff p.rejections)])
      ⟨p.offset, 0, p.rejections + 1⟩

theorem Course.grow {b b' : Ledger} {topic : String} {c : Int} {acts : List Act} {p : Point}
    (h : Course b topic c acts p) (grows : b.log topic <+: b'.log topic) :
    Course b' topic c acts p := by
  induction h with
  | start => exact .start
  | falter _ e ih => exact ih.falter e
  | accept _ entry place r ih => exact ih.accept (Ledger.at?_of_prefix grows entry) place r
  | reject _ entry place r ih => exact ih.reject (Ledger.at?_of_prefix grows entry) place r

variable {α : Type}

/-- What a loop has done and what it is at fit together. -/
inductive OnCourse (b : Ledger) (c : Int) (l : ReadLoop Ledger α) (acts : List Act) : Prop where
  | between {p : Point}
    (phase : l.phase = .ready ∨ l.phase = .parked ∨ ∃ due, l.phase = .resting due)
    (course : Course b l.topic.name c acts p) (cursor : l.reader.cursor = p.offset)
    (failures : Counts l.failures p.failures) (rejections : Counts l.rejections p.rejections)
  /-- A message has been handed over and not been answered. -/
  | inHand {done : List Act} {p : Point} {m : Message}
    (phase : (∃ stage, l.phase = .handling m stage) ∨ l.phase = .failed)
    (acts : acts = done ++ [.delivered m]) (course : Course b l.topic.name c done p)
    (entry : b.at? l.topic.name p.offset = some m) (place : m.offset = p.offset)
    (cursor : l.reader.cursor = p.offset + 1) (failures : l.failures = 0)
    (rejections : Counts l.rejections p.rejections)
  | gone {done : List Act} {p : Point} (phase : l.phase = .ended) (acts : acts = done ++ [.closed])
    (course : Course b l.topic.name c done p)

namespace OnCourse

variable {b b' : Ledger} {c : Int} {l l' : ReadLoop Ledger α} {acts : List Act}

/-- A loop that holds no message and has not ended is between two rounds. -/
theorem point (h : OnCourse b c l acts)
    (phase : l.phase = .ready ∨ l.phase = .parked ∨ ∃ due, l.phase = .resting due) :
    ∃ p, Course b l.topic.name c acts p ∧ l.reader.cursor = p.offset ∧
      Counts l.failures p.failures ∧ Counts l.rejections p.rejections := by
  cases h with
  | between _ course cursor failures rejections =>
    exact ⟨_, course, cursor, failures, rejections⟩
  | inHand held =>
    obtain ⟨stage, held⟩ | held := held <;> obtain free | free | ⟨due, free⟩ := phase <;>
      simp [held] at free
  | gone ended =>
    obtain free | free | ⟨due, free⟩ := phase <;> simp [ended] at free

/-- A message in hand is the entry before the cursor, and all rounds before it are whole. -/
theorem held {m : Message} {stage : Stage α} (h : OnCourse b c l acts)
    (phase : l.phase = .handling m stage) :
    ∃ done p, acts = done ++ [.delivered m] ∧ Course b l.topic.name c done p ∧
      b.at? l.topic.name p.offset = some m ∧ m.offset = p.offset ∧
      l.reader.cursor = p.offset + 1 ∧ l.failures = 0 ∧ Counts l.rejections p.rejections := by
  cases h with
  | between free =>
    obtain free | free | ⟨due, free⟩ := free <;> simp [phase] at free
  | @inHand done p m' held acts course entry place cursor failures rejections =>
    obtain ⟨stage', held⟩ | held := held
    · obtain ⟨rfl, -⟩ : m = m' ∧ stage = stage' := by simpa [phase] using held
      exact ⟨done, p, acts, course, entry, place, cursor, failures, rejections⟩
    · simp [phase] at held
  | gone ended => simp [phase] at ended

theorem grow (h : OnCourse b c l acts) (grows : b.log l.topic.name <+: b'.log l.topic.name) :
    OnCourse b' c l acts := by
  cases h with
  | between phase course cursor failures rejections =>
    exact .between phase (course.grow grows) cursor failures rejections
  | inHand phase acts course entry place cursor failures rejections =>
    exact .inHand phase acts (course.grow grows) (Ledger.at?_of_prefix grows entry) place cursor
      failures rejections
  | gone phase acts course => exact .gone phase acts (course.grow grows)

theorem kept (h : OnCourse b c l acts) (kept : Kept l l') : OnCourse b c l' acts := by
  have same := kept.rest
  cases h with
  | between phase course cursor failures rejections =>
    refine .between ?_ (by rw [same]; exact course) (by rw [same]; exact cursor)
      (by rw [same]; exact failures) (by rw [same]; exact rejections)
    obtain eq | ⟨-, eq⟩ | ⟨m, accept, due, offered, -⟩ := kept.phase
    · rw [eq]; exact phase
    · exact .inl eq
    · simp [offered] at phase
  | @inHand done p m phase acts course entry place cursor failures rejections =>
    refine .inHand ?_ acts (by rw [same]; exact course) (by rw [same]; exact entry) place
      (by rw [same]; exact cursor) (by rw [same]; exact failures) (by rw [same]; exact rejections)
    obtain eq | ⟨parked, -⟩ | ⟨m', accept, due, offered, eq⟩ := kept.phase
    · rw [eq]; exact phase
    · simp [parked] at phase
    · obtain ⟨stage, held⟩ | failed := phase
      · obtain ⟨rfl, -⟩ : m = m' ∧ stage = .offered := by simpa [held] using offered
        exact .inl ⟨_, eq⟩
      · simp [failed] at offered
  | gone phase acts course =>
    refine .gone ?_ acts (by rw [same]; exact course)
    obtain eq | ⟨parked, -⟩ | ⟨m', accept, due, offered, -⟩ := kept.phase
    · rw [eq]; exact phase
    · simp [parked] at phase
    · simp [offered] at phase

end OnCourse

/-- A loop reads its own topic for its own group and is on its course from offset `c`. It waits
for a message only where its log ends. -/
structure Steady (b : Ledger) (c : Int) (l : ReadLoop Ledger α) (acts : List Act) : Prop where
  topic : l.reader.topic = l.topic.name
  group : l.reader.group = l.group
  parked : l.phase = .parked → b.at? l.topic.name l.reader.cursor = none
  course : OnCourse b c l acts

section
variable {k now : Nat} {b : Ledger} {l : ReadLoop Ledger α} {t : Turn Ledger α}

theorem takes_log (takes : l.Takes k now b t) : t.broker.log = b.log := by
  cases takes with
  | stop | rise | leave | fail => rfl
  | park _ _ fetched => rw [(Ledger.fetch_nothing fetched).2.1]
  | deliver _ _ fetched => rw [(Ledger.fetch_message fetched).2.1]
  | lose _ _ fetched => exact congrArg Ledger.log (Ledger.fetch_closed fetched).2.1
  | falter _ _ fetched => rw [(Ledger.fetch_transient fetched).2.1]
  | @accept _ _ m _ r _ _ committed =>
    cases r with
    | ok => exact (Ledger.commit_ok committed).1
    | error e => exact (Ledger.commit_error committed).log
  | reject _ _ withheld => rw [(Ledger.withhold_eq withheld).2.2]

/-- A commit that succeeds sets the group's offset behind the message in hand, and nothing else
does. -/
theorem takes_commits (takes : l.Takes k now b t) :
    (t.broker.committed = b.committed ∧
      (t.notes.filterMap (·.actOf k)).filterMap Act.commit = []) ∨
    ∃ m due, l.phase = .handling m (.answered true due) ∧
      t.broker.committed =
        (b.setCommitted l.reader.topic l.reader.group (m.offset + 1)).committed ∧
      (t.notes.filterMap (·.actOf k)).filterMap Act.commit = [m] := by
  cases takes with
  | stop | rise | leave | fail =>
    exact .inl ⟨rfl, by simp [List.filterMap_cons, Act.commit]⟩
  | park _ _ fetched =>
    obtain ⟨-, rfl, -⟩ := Ledger.fetch_nothing fetched
    exact .inl ⟨rfl, rfl⟩
  | deliver _ _ fetched =>
    obtain ⟨-, rfl, -⟩ := Ledger.fetch_message fetched
    exact .inl ⟨rfl, by simp [Act.commit]⟩
  | lose _ _ fetched =>
    obtain ⟨-, rfl, -⟩ := Ledger.fetch_closed fetched
    exact .inl ⟨rfl, by simp [List.filterMap_cons, Act.commit]⟩
  | falter _ _ fetched =>
    obtain ⟨-, rfl, -⟩ := Ledger.fetch_transient fetched
    exact .inl ⟨rfl, by simp [List.filterMap_cons, Act.commit]⟩
  | @accept _ _ m due r phase _ committed =>
    cases r with
    | ok =>
      have commits := (Ledger.commit_ok committed).2
      exact .inr ⟨m, due, phase, commits, by simp [List.filterMap_cons, Act.commit]⟩
    | error e =>
      have same := (Ledger.commit_error committed).committed
      exact .inl ⟨same, by simp [List.filterMap_cons, Act.commit]⟩
  | reject _ _ withheld =>
    obtain ⟨-, -, rfl⟩ := Ledger.withhold_eq withheld
    exact .inl ⟨rfl, by simp [List.filterMap_cons, Act.commit]⟩

theorem takes_identity (takes : l.Takes k now b t) :
    t.loop.topic = l.topic ∧ t.loop.group = l.group := by
  cases takes <;> exact ⟨rfl, rfl⟩

/-- Every turn keeps a loop steady. -/
theorem Steady.turn {c : Int} {acts : List Act} (h : Steady b c l acts) (numbered : b.Numbered)
    (takes : l.Takes k now b t) :
    Steady t.broker c t.loop (acts ++ t.notes.filterMap (·.actOf k)) := by
  have log := takes_log takes
  have grows : b.log l.topic.name <+: t.broker.log l.topic.name := by
    simp [log]
  obtain ⟨topic, group, parked, course⟩ := h
  -- A failed fetch and an answer complete a round of the course; the other turns add none.
  cases takes with
  | stop phase =>
    obtain ⟨p, whole, -⟩ := course.point (phase.imp_right .inl)
    exact ⟨topic, group, nofun, .gone rfl (by simp [List.filterMap_cons]) whole⟩
  | leave phase =>
    obtain ⟨p, whole, -⟩ := course.point (.inr (.inr ⟨_, phase⟩))
    exact ⟨topic, group, nofun, .gone rfl (by simp) whole⟩
  | rise phase =>
    obtain ⟨p, whole, cursor, failures, rejections⟩ := course.point (.inr (.inr ⟨_, phase⟩))
    refine ⟨topic, group, nofun, .between (.inl rfl) ?_ cursor failures rejections⟩
    simpa using whole
  | park phase _ fetched =>
    obtain ⟨p, whole, cursor, failures, rejections⟩ := course.point (.inl phase)
    obtain ⟨rfl, rfl, none⟩ := Ledger.fetch_nothing fetched
    rw [topic] at none
    refine ⟨topic, group, fun _ => none,
      .between (.inr (.inl rfl)) ?_ cursor failures rejections⟩
    simpa using whole
  | lose phase _ fetched =>
    obtain ⟨p, whole, -⟩ := course.point (.inl phase)
    obtain ⟨rfl, rfl, -⟩ := Ledger.fetch_closed fetched
    exact ⟨topic, group, nofun, .gone rfl (by simp [List.filterMap_cons]) whole⟩
  | falter phase _ fetched =>
    obtain ⟨p, whole, cursor, failures, rejections⟩ := course.point (.inl phase)
    obtain ⟨rfl, -, -⟩ := Ledger.fetch_transient fetched
    have round := (whole.grow grows).falter
    refine ⟨topic, group, nofun, .between (p := { p with failures := p.failures + 1 })
      (.inr (.inr ⟨_, rfl⟩)) ?_ cursor failures.oneMore rejections⟩
    simpa [List.filterMap_cons, failures.pause] using round _
  | @deliver _ _ m r _ _ phase _ fetched received =>
    obtain ⟨p, whole, cursor, failures, rejections⟩ := course.point (.inl phase)
    obtain ⟨rfl, rfl, entry⟩ := Ledger.fetch_message fetched
    rw [topic, cursor] at entry
    have place := numbered.offset_at? entry
    have onward := congrArg (· + 1) cursor
    refine ⟨topic, group, ?_, .inHand ?_ (by simp) whole entry place onward rfl rejections⟩
    · cases r <;> nofun
    · cases r <;> exact .inl ⟨_, rfl⟩
  | fail phase =>
    obtain ⟨done, p, rfl, whole, entry, place, cursor, failures, rejections⟩ := course.held phase
    exact ⟨topic, group, nofun,
      .inHand (.inr rfl) (by simp) whole entry place cursor failures rejections⟩
  | @accept _ _ m _ r phase _ committed =>
    obtain ⟨done, p, rfl, whole, entry, place, cursor, failures, rejections⟩ := course.held phase
    obtain rfl := Ledger.commit_reader committed
    have entry := Ledger.at?_of_prefix grows entry
    have round := (whole.grow grows).accept entry place r
    refine ⟨topic, group, nofun, .between (p := ⟨p.offset + 1, 0, 0⟩) (.inl rfl) ?_ cursor
      (failures ▸ .zero) .zero⟩
    simpa using round
  | @reject _ _ m _ r phase _ withheld =>
    obtain ⟨done, p, rfl, whole, entry, place, cursor, failures, rejections⟩ := course.held phase
    obtain ⟨rfl, rfl, rfl⟩ := Ledger.withhold_eq withheld
    have round := whole.reject entry place (.ok ())
    refine ⟨topic, group, nofun, .between (p := ⟨p.offset, 0, p.rejections + 1⟩)
      (.inr (.inr ⟨_, rfl⟩)) ?_ place (failures ▸ .zero) rejections.oneMore⟩
    simpa [rejections.pause] using round

end

theorem Steady.keep {b b' : Ledger} {c : Int} {l l' : ReadLoop Ledger α} {acts : List Act}
    (h : Steady b c l acts) (kept : Kept l l') (log : b'.log = b.log) : Steady b' c l' acts := by
  have grows : b.log l.topic.name <+: b'.log l.topic.name := by
    simp [log]
  have same := kept.rest
  constructor
  case topic => rw [same]; exact h.topic
  case group => rw [same]; exact h.group
  case parked =>
    intro parked
    rw [kept.reader, kept.topic, Ledger.at?, log, ← Ledger.at?]
    apply h.parked
    obtain eq | ⟨-, ready⟩ | ⟨m, accept, due, -, held⟩ := kept.phase
    · rw [← eq, parked]
    · simp [parked] at ready
    · simp [parked] at held
  case course => exact (h.course.grow grows).kept kept

theorem Steady.awake {b b' : Ledger} {c : Int} {l l' : ReadLoop Ledger α} {acts : List Act}
    (h : Steady b c l acts) (kept : Kept l l') (awake : l'.phase ≠ .parked)
    (grows : b.log l.topic.name <+: b'.log l.topic.name) : Steady b' c l' acts := by
  have same := kept.rest
  constructor
  case topic => rw [same]; exact h.topic
  case group => rw [same]; exact h.group
  case parked =>
    intro parked
    exact absurd parked awake
  case course => exact (h.course.grow grows).kept kept

end Courier.Queue
