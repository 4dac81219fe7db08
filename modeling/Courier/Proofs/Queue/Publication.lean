import Courier.Proofs.Queue.Handout

/-!
# Publications

Many publishers write to one ledger, while it is read, fails, and while queues
are closed:

* `Traffic`: a world with the calls made in it, those under way and those that
  have returned;
* `Whole`, `Runs`: what becomes of it when nothing comes between the halves of a
  call, as `runs_of_reachable` says of every world that can be reached;
* `PublishLaw`: every log holds what the calls that succeeded have published,
  in their order, and nothing else;
* `publish_law`: this is so in every run;
* `Runs.log`: the same of calls made one after the other.
-/

namespace Courier.Queue

open Broker (Ledger)

/-- A call that has returned, with the record it wrote or the reason why it wrote none. -/
structure Return (ι : Type) where
  call : Call ι
  time : Nat
  outcome : Except Error Record

def Return.writtenTo {ι : Type} (topic : String) (d : Return ι) : Option (Nat × Record) :=
  match d.outcome with
  | .ok r => if topic = d.call.topic.name then some (d.time, r) else none
  | .error _ => none

@[simp] theorem writtenTo_ok {ι : Type} (topic : String) (c : Call ι) (time : Nat) (r : Record) :
    Return.writtenTo topic ⟨c, time, .ok r⟩ =
      if topic = c.topic.name then some (time, r) else none := rfl

@[simp] theorem writtenTo_error {ι : Type} (topic : String) (c : Call ι) (time : Nat) (e : Error) :
    Return.writtenTo topic ⟨c, time, .error e⟩ = none := rfl

/-- The entry that a record makes at a place of its log. -/
def storedAt (offset : Nat) (written : Nat × Record) : Message where
  topic := written.2.topic.name
  payload := written.2.value
  partition := 0
  offset
  key := written.2.key
  timestamp := some written.1

/-- A world with the calls made in it: all of them in their order, those whose record has not been
written yet, and those that have returned. -/
structure Traffic (ι α : Type) where
  world : World Ledger α
  asked : List (Call ι) := []
  underway : List (Call ι × Record) := []
  returned : List (Return ι) := []

namespace Traffic

variable {ι α : Type}

/-- A publisher makes a call. Without a record it returns at once. -/
def ask (s : Traffic ι α) (c : Call ι) : Traffic ι α :=
  match s.world.draft c with
  | .error e => { s with
      asked := s.asked ++ [c], returned := s.returned ++ [⟨c, s.world.now, .error e⟩] }
  | .ok r => { s with asked := s.asked ++ [c], underway := s.underway ++ [(c, r)] }

theorem ask_refused {s : Traffic ι α} {c : Call ι} {e : Error} (h : s.world.draft c = .error e) :
    s.ask c = { s with
      asked := s.asked ++ [c], returned := s.returned ++ [⟨c, s.world.now, .error e⟩] } := by
  rw [ask, h]

theorem ask_drafted {s : Traffic ι α} {c : Call ι} {r : Record} (h : s.world.draft c = .ok r) :
    s.ask c = { s with asked := s.asked ++ [c], underway := s.underway ++ [(c, r)] } := by
  rw [ask, h]

/-- A call between others writes its record, or fails to, and returns. -/
def write (s : Traffic ι α) (before after : List (Call ι × Record)) (c : Call ι) (r : Record) :
    Traffic ι α :=
  let (result, world) := s.world.put c.queue r
  { s with
    world
    underway := before ++ after
    returned := s.returned ++ [⟨c, s.world.now, result.map fun _ => r⟩] }

/-- After a call that nothing came between, with the record it wrote or its answer. -/
def called (s : Traffic ι α) (c : Call ι) : Traffic ι α :=
  { s with
    world := (s.world.call c).2
    asked := s.asked ++ [c]
    returned := s.returned ++ [⟨c, s.world.now, (s.world.call c).1.bind fun _ => c.record⟩] }

/-- A publisher waits for its call to return before it makes the next one. All else that can be
done to a world may be done at any time. -/
inductive Move [DecidableEq α] (s : Traffic ι α) : Traffic ι α → Prop where
  | ask (c : Call ι) (idle : ∀ u ∈ s.underway, u.1.publisher ≠ c.publisher) : Move s (s.ask c)
  | write (before after : List (Call ι × Record)) {c : Call ι} {r : Record}
    (here : s.underway = before ++ (c, r) :: after) : Move s (s.write before after c r)
  | step {v : World Ledger α} (st : Step) (possible : s.world.step st = some v) :
    Move s { s with world := v }
  | command (c : World.Command Ledger α) (silent : c.publishes = false) :
    Move s { s with world := s.world.obey c }

/-- The runs, starting with nothing but an empty ledger. -/
inductive Ran [DecidableEq α] : Traffic ι α → Prop where
  | start : Ran { world := { broker := {} } }
  | next {s t : Traffic ι α} : Ran s → Move s t → Ran t

abbrev Leads [DecidableEq α] : Traffic ι α → Traffic ι α → Prop := Relation.ReflTransGen Move

/-- What happens when nothing comes between the halves of a call. -/
inductive Whole [DecidableEq α] (s : Traffic ι α) : Traffic ι α → Prop where
  | call (c : Call ι) : Whole s (s.called c)
  | step {v : World Ledger α} (st : Step) (possible : s.world.step st = some v) :
    Whole s { s with world := v }
  | command (c : World.Command Ledger α) (silent : c.publishes = false) :
    Whole s { s with world := s.world.obey c }

/-- A run in which nothing ever does. -/
abbrev Runs [DecidableEq α] : Traffic ι α → Prop :=
  Relation.ReflTransGen Whole { world := { broker := {} } }

/-- What was written to a topic's log by calls that have returned, the first one first. -/
def written (s : Traffic ι α) (topic : String) : List (Nat × Record) :=
  s.returned.filterMap (Return.writtenTo topic)

def callsOf [DecidableEq ι] (p : ι) (calls : List (Call ι)) : List (Call ι) :=
  calls.filter (·.publisher = p)

/-- What the logs have to do with the calls. -/
structure Lawful [DecidableEq ι] (s : Traffic ι α) : Prop where
  /-- One entry for each call that has written its record, and none for any other. -/
  log : ∀ topic, s.world.broker.log topic = (s.written topic).mapIdx storedAt
  drafted : ∀ u ∈ s.underway, u.1.record = .ok u.2
  records : ∀ d ∈ s.returned, ∀ r, d.outcome = .ok r → d.call.record = .ok r
  /-- The calls of one publisher return in the order in which it makes them. -/
  order : ∀ p, callsOf p (s.returned.map (·.call)) ++ callsOf p (s.underway.map (·.1)) =
    callsOf p s.asked
  single : ∀ p, (callsOf p (s.underway.map (·.1))).length ≤ 1

theorem draft_eq_ok {w : World Ledger α} {c : Call ι} {r : Record} (h : w.draft c = .ok r) :
    c.record = .ok r := by
  unfold World.draft at h
  split at h
  · cases h
  · next r' made =>
    cases opened : w.writer c.queue with
    | error e => simp [opened, Except.map] at h
    | ok writer => simpa [opened, Except.map, made] using h

section
variable [DecidableEq ι] {s : Traffic ι α}

theorem callsOf_append (p : ι) (a b : List (Call ι)) :
    callsOf p (a ++ b) = callsOf p a ++ callsOf p b := List.filter_append ..

theorem callsOf_singleton (p : ι) (c : Call ι) :
    callsOf p [c] = if c.publisher = p then [c] else [] := by
  by_cases mine : c.publisher = p <;> simp [callsOf, mine]

theorem Lawful.ask (h : Lawful s) (c : Call ι)
    (idle : ∀ u ∈ s.underway, u.1.publisher ≠ c.publisher) : Lawful (s.ask c) := by
  -- A publisher that calls has nothing under way, so that its calls stay in order.
  have quiet : ∀ p, c.publisher = p → callsOf p (s.underway.map (·.1)) = [] := by
    rintro p rfl
    simpa [callsOf] using fun call r here => idle (call, r) here
  unfold Traffic.ask
  split
  · next e refused =>
    constructor
    case log =>
      intro topic
      simpa [written, List.filterMap_cons] using h.log topic
    case drafted => exact h.drafted
    case records =>
      intro d here r wrote
      obtain old | new := List.mem_append.mp here
      · exact h.records d old r wrote
      · obtain rfl := List.mem_singleton.mp new
        cases wrote
    case order =>
      intro p
      simp only [List.map_append, List.map_cons, List.map_nil, callsOf_append, callsOf_singleton,
        ← h.order p]
      by_cases mine : c.publisher = p
      · simp [mine, quiet p mine]
      · simp [mine]
    case single => exact h.single
  · next r made =>
    constructor
    case log => exact h.log
    case drafted =>
      intro u here
      obtain old | new := List.mem_append.mp here
      · exact h.drafted u old
      · obtain rfl := List.mem_singleton.mp new
        exact draft_eq_ok made
    case records => exact h.records
    case order =>
      intro p
      simp only [List.map_append, List.map_cons, List.map_nil, callsOf_append, callsOf_singleton,
        ← h.order p, List.append_assoc]
    case single =>
      intro p
      have few := h.single p
      simp only [List.map_append, List.map_cons, List.map_nil, callsOf_append, callsOf_singleton,
        List.length_append]
      by_cases mine : c.publisher = p
      · simp [mine, quiet p mine]
      · simpa [mine] using few

/-- At most one call of a publisher is under way: beside it there is no other. -/
theorem Lawful.alone (h : Lawful s) {before after : List (Call ι × Record)} {c : Call ι}
    {r : Record} (here : s.underway = before ++ (c, r) :: after) :
    callsOf c.publisher (before.map (·.1)) = [] ∧
      callsOf c.publisher (after.map (·.1)) = [] := by
  have single := h.single c.publisher
  simp only [here, callsOf, List.map_append, List.map_cons, List.filter_append, List.filter_cons,
    decide_true, ↓reduceIte, List.length_append, List.length_cons] at single
  constructor
  · apply List.length_eq_zero_iff.mp
    simp only [callsOf]
    omega
  · apply List.length_eq_zero_iff.mp
    simp only [callsOf]
    omega

theorem Lawful.write (h : Lawful s) {before after : List (Call ι × Record)} {c : Call ι}
    {r : Record} (here : s.underway = before ++ (c, r) :: after) :
    Lawful (s.write before after c r) := by
  have made : c.record = .ok r := by
    apply h.drafted (c, r)
    simp [here]
  -- Its publisher has no other call under way.
  have fewer : ∀ p, callsOf p (s.underway.map (·.1)) =
      (if c.publisher = p then [c] else []) ++ callsOf p ((before ++ after).map (·.1)) := by
    intro p
    have split : callsOf p (s.underway.map (·.1)) =
        callsOf p (before.map (·.1)) ++ (callsOf p [c] ++ callsOf p (after.map (·.1))) := by
      rw [here, List.map_append, List.map_cons, callsOf_append, ← callsOf_append p [c]]
      rfl
    rw [split, List.map_append, callsOf_append, callsOf_singleton]
    by_cases mine : c.publisher = p
    · obtain ⟨first, last⟩ := h.alone here
      rw [← mine, first, last]
      rfl
    · simp [mine]
  obtain ⟨result, v, put, change⟩ := World.put_change s.world c.queue r
  simp only [Traffic.write, put]
  constructor
  case log =>
    intro topic
    have topic_eq := (Call.record_eq_ok made).1
    have entry : s.world.broker.entry s.world.now r =
        storedAt (s.written r.topic.name).length (s.world.now, r) := by
      simp [storedAt, Ledger.entry, h.log]
    cases result with
    | error e =>
      rw [(show World.Change s.world v none from change).log_eq]
      simpa [written, List.filterMap_cons, Except.map] using h.log topic
    | ok =>
      rw [(show World.Change s.world v (some r) from change).log_eq, h.log topic]
      by_cases same : topic = r.topic.name
      · simp [written, Except.map, Option.filter, same, ← topic_eq, entry]
      · simp [written, Except.map, Option.filter, same, ← topic_eq]
  case drafted =>
    intro u there
    apply h.drafted
    rw [here]
    obtain first | last := List.mem_append.mp there
    · exact List.mem_append_left _ first
    · exact List.mem_append_right _ (List.mem_cons_of_mem _ last)
  case records =>
    intro d there r' wrote
    obtain old | new := List.mem_append.mp there
    · exact h.records d old r' wrote
    · obtain rfl := List.mem_singleton.mp new
      cases result with
      | ok => exact made.trans wrote
      | error e => cases wrote
  case order =>
    intro p
    simp only [List.map_append, List.map_cons, List.map_nil, ← h.order p, fewer p]
    rw [← List.map_append, callsOf_append, callsOf_singleton, List.append_assoc]
  case single =>
    intro p
    have few := h.single p
    rw [fewer p, List.length_append] at few
    exact Nat.le_trans (Nat.le_add_left ..) few

/-- What publishes nothing leaves the calls as they are. -/
theorem Lawful.silent (h : Lawful s) {v : World Ledger α} (change : s.world.Change v none) :
    Lawful { s with world := v } := by
  refine ⟨?_, h.drafted, h.records, h.order, h.single⟩
  intro topic
  rw [change.log_eq]
  simpa [written] using h.log topic

theorem Lawful.entry (h : Lawful s) {topic : String} {i : Nat} {m : Message}
    (found : (s.world.broker.log topic)[i]? = some m) :
    m.topic = topic ∧ m.partition = 0 ∧ m.offset = i ∧ m.timestamp ≠ none ∧ m.payload ≠ [] ∧
      m.key ≠ some [] := by
  rw [h.log, List.getElem?_mapIdx, Option.map_eq_some_iff] at found
  obtain ⟨⟨time, r⟩, written, rfl⟩ := found
  obtain ⟨d, returned, wrote⟩ := List.mem_filterMap.mp (List.mem_of_getElem? written)
  unfold Return.writtenTo at wrote
  split at wrote
  · next r' outcome =>
    split at wrote
    · next same =>
      obtain ⟨-, rfl⟩ := Prod.mk.inj (Option.some.inj wrote)
      have made := h.records d returned r' outcome
      obtain ⟨topic_eq, value, key⟩ := Call.record_eq_ok made
      have named : r'.topic.name = topic := by rw [topic_eq, same]
      exact ⟨named, rfl, rfl, nofun, value, key⟩
    · cases wrote
  · cases wrote

end

variable [DecidableEq α] {s t : Traffic ι α}

theorem Move.lawful [DecidableEq ι] (move : Move s t) (h : Lawful s) : Lawful t := by
  cases move with
  | ask c idle => exact h.ask c idle
  | write _ _ here => exact h.write here
  | step st possible => exact h.silent (World.step_change possible)
  | command c silent => exact h.silent (World.command_change s.world silent)

theorem Move.change (move : Move s t) : ∃ published, s.world.Change t.world published := by
  cases move with
  | ask c idle =>
    unfold Traffic.ask
    split <;> exact ⟨none, .keep (.refl _) (.refl _) fun _ => rfl⟩
  | @write _ _ c r here =>
    obtain ⟨result, v, put, change⟩ := World.put_change s.world c.queue r
    simp only [Traffic.write, put]
    cases result with
    | ok => exact ⟨some r, change⟩
    | error e => exact ⟨none, change⟩
  | step st possible => exact ⟨none, World.step_change possible⟩
  | command c silent => exact ⟨none, World.command_change s.world silent⟩

theorem ran_lawful [DecidableEq ι] (h : Ran s) : Lawful s := by
  induction h with
  | start => constructor <;> simp [written, callsOf]
  | next _ move ih => exact move.lawful ih

theorem Leads.changes (later : Leads s t) : World.Changes s.world t.world := by
  induction later with
  | refl => exact .refl
  | tail _ move ih => exact ih.tail move.change

theorem ran_orderly (h : Ran s) : s.world.Orderly := by
  induction h with
  | start => exact World.orderly_empty
  | next _ move ih =>
    obtain ⟨published, change⟩ := move.change
    exact change.orderly ih

theorem leads_called (quiet : s.underway = []) (c : Call ι) : Leads s (s.called c) := by
  have asked : Move s (s.ask c) := .ask c (by simp [quiet])
  cases draft : s.world.draft c with
  | error e =>
    have answer : s.world.call c = (.error e, s.world) := by rw [World.call_eq, draft]
    have same : s.called c = s.ask c := by
      rw [ask_refused draft, called, answer]
      rfl
    exact same ▸ .single asked
  | ok r =>
    have answer : s.world.call c = s.world.put c.queue r := by rw [World.call_eq, draft]
    have made : c.record = .ok r := draft_eq_ok draft
    rw [ask_drafted draft] at asked
    have only : s.underway ++ [(c, r)] = [] ++ (c, r) :: [] := by rw [quiet]
    have written := Move.write (s := { s with
      asked := s.asked ++ [c], underway := s.underway ++ [(c, r)] }) [] [] only
    have same : s.called c = Traffic.write { s with
        asked := s.asked ++ [c], underway := s.underway ++ [(c, r)] } [] [] c r := by
      rw [called, answer, made, Traffic.write, quiet]
      rfl
    exact same ▸ .tail (.single asked) written

theorem Whole.leads (whole : Whole s t) (quiet : s.underway = []) :
    Leads s t ∧ t.underway = [] := by
  cases whole with
  | call c => exact ⟨leads_called quiet c, quiet⟩
  | step st possible => exact ⟨.single (.step st possible), quiet⟩
  | command c silent => exact ⟨.single (.command c silent), quiet⟩

theorem Ran.leads (ran : Ran s) (later : Leads s t) : Ran t := by
  induction later with
  | refl => exact ran
  | tail _ move ih => exact ih.next move

theorem Runs.ran (runs : Runs s) : Ran s ∧ s.underway = [] := by
  induction runs with
  | refl => exact ⟨.start, rfl⟩
  | tail _ whole ih =>
    obtain ⟨leads, quiet⟩ := whole.leads ih.2
    exact ⟨ih.1.leads leads, quiet⟩

/-- Every world that can be reached comes about in such a run, whoever makes the calls in it. -/
theorem runs_of_reachable (p : ι) {w : World Ledger α} (h : World.Reachable {} w) :
    ∃ s : Traffic ι α, Runs s ∧ s.world = w := by
  induction h with
  | start => exact ⟨_, .refl, rfl⟩
  | next _ move ih =>
    obtain ⟨s, runs, rfl⟩ := ih
    cases move with
    | step st possible => exact ⟨_, runs.tail (.step st possible), rfl⟩
    | command c =>
      cases silent : c.publishes with
      | false => exact ⟨_, runs.tail (.command c silent), rfl⟩
      | true =>
        cases c <;> simp [World.Command.publishes] at silent
        · next q topic payload =>
          exact ⟨_, runs.tail (.call ⟨p, q, topic, .payload payload⟩), rfl⟩
        · next q topic value =>
          exact ⟨_, runs.tail (.call ⟨p, q, topic, .value value⟩), rfl⟩

/-- What is published is kept, and is what subscribers are handed. -/
structure PublishLaw [DecidableEq ι] (s : Traffic ι α) : Prop extends Lawful s where
  entry : ∀ (topic : String) (i : Nat) m, (s.world.broker.log topic)[i]? = some m →
    m.topic = topic ∧ m.partition = 0 ∧ m.offset = i ∧ m.timestamp ≠ none ∧ m.payload ≠ [] ∧
      m.key ≠ some []
  lasting : ∀ t, Leads s t → ∀ topic, s.world.broker.log topic <+: t.world.broker.log topic
  /-- A subscription that starts at the beginning and accepts everything is handed the log. -/
  handed : ∀ (q : Nat) (topic : Topic) (group label : String) (subscriber : Subscriber α)
    (id : SubscriptionId) (made : World Ledger α) (t : Traffic ι α),
    s.world.subscribe q topic group label subscriber = (.ok id, made) →
    s.world.broker.committed topic.name group = none → Leads { s with world := made } t →
    (∀ m, (m, false) ∉ t.world.answers s.world.loops.length) →
    t.world.Handed s.world.loops.length topic
  /-- Where no call is under way, one may be made as a whole. -/
  whole : s.underway = [] → ∀ t, Whole s t → Leads s t

/-- **Publications are kept whole.** However the calls of many publishers overlap with each other,
with failures and with the closing of queues, the logs hold what was published. -/
theorem publish_law [DecidableEq ι] (ran : Ran s) : PublishLaw s := by
  have lawful := ran_lawful ran
  have orderly := ran_orderly ran
  constructor
  case toLawful => exact lawful
  case entry =>
    intro topic i m found
    exact lawful.entry found
  case lasting =>
    intro t later topic
    exact later.changes.grows topic
  case handed =>
    intro q topic group label subscriber id made t subscribed fresh later willing
    have follows := later.changes.subscribed orderly subscribed
    rw [fresh] at follows
    exact follows.handed willing
  case whole => exact fun quiet _ whole => (whole.leads quiet).1

/-- The same of calls that are made one after the other: they return in this order, and each log
holds the records of those that have succeeded. -/
theorem Runs.log [DecidableEq ι] (runs : Runs s) :
    s.returned.map (·.call) = s.asked ∧ ∀ topic,
      s.world.broker.log topic = (s.written topic).mapIdx storedAt := by
  refine ⟨?_, (ran_lawful runs.ran.1).log⟩
  induction runs with
  | refl => rfl
  | tail _ whole ih => cases whole <;> simp [called, ih]

/-- Two calls that overlap. -/
def rivals : Traffic Bool String :=
  let first : Call Bool := ⟨false, 0, World.orders, .payload (.text "a")⟩
  let second : Call Bool := ⟨true, 0, World.orders, .payload (.keyed [] (.ok [98]))⟩
  { world := World.opened
    asked := [first, second]
    underway := [(first, ⟨first.topic, none, [97]⟩), (second, ⟨second.topic, none, [98]⟩)] }

theorem ran_rivals : Ran rivals := by
  have opened : Ran ({ world := World.opened } : Traffic Bool String) :=
    Ran.start.next (.command (.connect ..) rfl)
  have first := opened.next (.ask ⟨false, 0, World.orders, .payload (.text "a")⟩ (by simp))
  rw [ask_drafted (r := ⟨World.orders, none, [97]⟩) (by decide)] at first
  have second := first.next
    (.ask ⟨true, 0, World.orders, .payload (.keyed [] (.ok [98]))⟩ (by simp))
  rwa [ask_drafted (r := ⟨World.orders, none, [98]⟩) (by decide)] at second

/-- The later call writes first. Then the queue is closed, and the other one is refused. -/
theorem publish_law_rivals :
    ∃ s : Traffic Bool String, PublishLaw s ∧
      s.asked.map (·.publisher) = [false, true] ∧
      s.returned.map (fun d => (d.call.publisher, d.outcome.isOk)) =
        [(true, true), (false, false)] ∧
      s.world.broker.log "orders" = [storedAt 0 (0, ⟨World.orders, none, [98]⟩)] := by
  have written := ran_rivals.next (.write [_] [] rfl)
  have closed := written.next (.command (.close 0) rfl)
  have refused := closed.next (.write [] [] rfl)
  exact ⟨_, publish_law refused, by decide, by decide, by decide⟩

end Traffic

end Courier.Queue
