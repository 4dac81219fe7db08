import Courier.Proofs.Queue.Course

/-!
# Runs

What every run keeps:

* `Changes.grows`: logs grow at their ends only;
* `Changes.orderly`: logs stay numbered from zero;
* `Changes.follows`: a loop keeps its course, whatever the other loops, the
  publishers and the faults do;
* `Changes.subscribed`: so does a subscription from the moment it is made;
* `Leads.changes`, `reachable_changes`: runs are made of changes.
-/

namespace Courier.Queue

open Broker (Ledger)

variable {α : Type}

namespace World

/-- Loop `k` serves a topic and a group and is on its course from offset `c`. -/
def Follows (w : World Ledger α) (k : Nat) (topic : Topic) (group : String) (c : Int) : Prop :=
  ∃ l, w.loops[k]? = some l ∧ l.topic = topic ∧ l.group = group ∧ Steady w.broker c l (w.acts k)

/-- Logs are numbered, and no act is that of a loop to come. -/
structure Orderly (w : World Ledger α) : Prop where
  numbered : w.broker.Numbered
  fresh : ∀ k, w.loops.length ≤ k → w.acts k = []

section
variable {w v : World Ledger α} {published : Option Record}

/-- What a move publishes is put at the end of its log, and nothing else is changed there. -/
theorem Change.log_eq (h : Change w v published) (topic : String) :
    v.broker.log topic = w.broker.log topic ++
      (published.filter (topic = ·.topic.name)).toList.map (w.broker.entry w.now) := by
  cases h with
  | turn _ takes eq =>
    rw [eq, show (w.turned _ _).broker.log = _ from takes_log takes]
    simp
  | keep ledger => simp [ledger.log]
  | subscribe _ _ _ _ _ _ ledger => simp [ledger]
  | publish r ledger =>
    rw [ledger, Ledger.log_append]
    by_cases same : topic = r.topic.name <;> simp [same, Option.filter]

/-- Nothing that stands in a log is ever changed, moved or removed. -/
theorem Change.grows (h : Change w v published) (topic : String) :
    w.broker.log topic <+: v.broker.log topic := by
  rw [h.log_eq]
  exact List.prefix_append ..

theorem Change.orderly (h : Change w v published) (orderly : Orderly w) : Orderly v := by
  obtain ⟨numbered, fresh⟩ := orderly
  cases h with
  | @turn j l t here takes eq =>
    subst eq
    constructor
    · intro topic i m found
      exact numbered topic i m (takes_log takes ▸ found)
    · intro k past
      have bound := (List.getElem?_eq_some_iff.mp here).1
      have past : w.loops.length ≤ k := by simpa [turned] using past
      rw [acts_turned_ne takes (by omega), fresh k past]
  | keep ledger loops acts =>
    constructor
    · exact numbered.alike ledger
    · intro k past
      rw [loops.length_eq] at past
      rw [acts, fresh k past]
  | publish r ledger loops _ acts =>
    constructor
    · rw [ledger]
      exact numbered.append w.now r
    · intro k past
      rw [loops.length_eq] at past
      rw [acts, fresh k past]
  | subscribe _ _ _ _ _ _ ledger loops acts =>
    constructor
    · rw [ledger]
      exact numbered
    · intro k past
      simp only [loops, List.length_append, List.length_singleton] at past
      have before : w.loops.length ≤ k := by omega
      rw [acts, fresh k before]

theorem Change.follows {k : Nat} {topic : Topic} {group : String} {c : Int}
    (h : Change w v published) (orderly : Orderly w) (follows : Follows w k topic group c) :
    Follows v k topic group c := by
  have grows := h.grows topic.name
  obtain ⟨l, here, rfl, rfl, steady⟩ := follows
  cases h with
  | @turn j l' t there takes eq =>
    subst eq
    by_cases same : j = k
    · subst same
      obtain rfl : l = l' := Option.some.inj (here.symm.trans there)
      obtain ⟨topic, group⟩ := takes_identity takes
      refine ⟨t.loop, turned_self here t, topic, group, ?_⟩
      rw [acts_turned]
      exact steady.turn orderly.numbered takes
    · refine ⟨l, (turned_ne t same).trans here, rfl, rfl, ?_⟩
      rw [acts_turned_ne takes same]
      exact steady.keep (.refl l) (takes_log takes)
  | keep ledger loops acts =>
    obtain ⟨l', here', kept⟩ := loops.of_some here
    refine ⟨l', here', kept.topic, kept.group, ?_⟩
    rw [acts]
    exact steady.keep kept ledger.log
  | publish r ledger loops awake acts =>
    obtain ⟨l', here', kept⟩ := loops.of_some here
    have woken := awake l' (List.mem_of_getElem? here')
    refine ⟨l', here', kept.topic, kept.group, ?_⟩
    rw [acts]
    exact steady.awake kept woken grows
  | subscribe _ _ _ _ _ _ ledger loops acts =>
    have bound : k < w.loops.length := (List.getElem?_eq_some_iff.mp here).1
    have stays : v.loops[k]? = some l := by
      rw [loops, List.getElem?_append_left bound]
      exact here
    refine ⟨l, stays, rfl, rfl, ?_⟩
    rw [acts, ledger]
    exact steady

/-- A new loop is on its course from the offset its group has committed. -/
theorem follows_new {l : ReadLoop Ledger α} {topic : Topic} {group : String} (orderly : Orderly w)
    (loops : v.loops = w.loops ++ [l]) (acts : ∀ k, v.acts k = w.acts k)
    (serves : l.topic = topic ∧ l.group = group) (phase : l.phase = .ready)
    (reader : l.reader = w.broker.openReader topic group)
    (untried : l.failures = 0 ∧ l.rejections = 0) :
    Follows v w.loops.length topic group ((w.broker.committed topic.name group).getD 0) := by
  obtain ⟨rfl, rfl⟩ := serves
  have last : v.loops[w.loops.length]? = some l := by
    rw [loops]
    exact List.getElem?_concat_length
  refine ⟨l, last, rfl, rfl, ?_⟩
  rw [acts, orderly.fresh _ (Nat.le_refl _)]
  constructor
  case topic => rw [reader]; rfl
  case group => rw [reader]; rfl
  case parked => simp [phase]
  case course =>
    have cursor : l.reader.cursor = (w.broker.committed l.topic.name l.group).getD 0 := by
      rw [reader]
      rfl
    exact .between (.inl phase) .start cursor (untried.1 ▸ .zero) (untried.2 ▸ .zero)

theorem subscribe_follows {q : Nat} {topic : Topic} {group label : String}
    {subscriber : Subscriber α} {id : SubscriptionId} (orderly : Orderly w)
    (made : w.subscribe q topic group label subscriber = (.ok id, v)) :
    Follows v w.loops.length topic group ((w.broker.committed topic.name group).getD 0) := by
  obtain ⟨isDebug, -, loops, acts⟩ := subscribe_ok made
  exact follows_new orderly loops acts ⟨rfl, rfl⟩ rfl rfl ⟨rfl, rfl⟩

theorem Change.acts_grow (h : Change w v published) (k : Nat) : w.acts k <+: v.acts k := by
  cases h with
  | turn _ _ eq =>
    rw [eq, acts_turned]
    exact List.prefix_append ..
  | keep _ _ acts | publish _ _ _ _ acts | subscribe _ _ _ _ _ _ _ _ acts =>
    simp [acts]

theorem Change.serves (h : Change w v published) {k : Nat} {l : ReadLoop Ledger α}
    (here : w.loops[k]? = some l) :
    ∃ l', v.loops[k]? = some l' ∧ l'.topic = l.topic ∧ l'.group = l.group := by
  cases h with
  | @turn j l₀ t there takes eq =>
    subst eq
    by_cases same : j = k
    · subst same
      obtain rfl : l = l₀ := Option.some.inj (here.symm.trans there)
      exact ⟨t.loop, turned_self here t, takes_identity takes⟩
    · exact ⟨l, (turned_ne t same).trans here, rfl, rfl⟩
  | keep _ loops | publish _ _ loops =>
    obtain ⟨l', here', kept⟩ := loops.of_some here
    exact ⟨l', here', kept.topic, kept.group⟩
  | subscribe _ _ _ _ _ _ _ loops =>
    have bound : k < w.loops.length := (List.getElem?_eq_some_iff.mp here).1
    have stays : v.loops[k]? = some l := by
      rw [loops, List.getElem?_append_left bound]
      exact here
    exact ⟨l, stays, rfl, rfl⟩

/-- One world comes about from another by changes, whatever brings them about. -/
abbrev Changes : World Ledger α → World Ledger α → Prop :=
  Relation.ReflTransGen fun w v => ∃ published, Change w v published

namespace Changes

theorem grows (later : Changes w v) (topic : String) :
    w.broker.log topic <+: v.broker.log topic := by
  induction later with
  | refl => exact List.prefix_refl _
  | tail _ change ih =>
    obtain ⟨published, change⟩ := change
    exact ih.trans (change.grows topic)

theorem orderly (later : Changes w v) (start : Orderly w) : Orderly v := by
  induction later with
  | refl => exact start
  | tail _ change ih =>
    obtain ⟨published, change⟩ := change
    exact change.orderly ih

theorem follows {k : Nat} {topic : Topic} {group : String} {c : Int} (later : Changes w v)
    (start : Orderly w) (follows : Follows w k topic group c) : Follows v k topic group c := by
  induction later with
  | refl => exact follows
  | tail before change ih =>
    obtain ⟨published, change⟩ := change
    have between := orderly before start
    exact change.follows between ih

/-- From the moment it is made, a subscription keeps its course from its group's offset. -/
theorem subscribed {q : Nat} {topic : Topic} {group label : String} {subscriber : Subscriber α}
    {id : SubscriptionId} {made : World Ledger α} (later : Changes made v) (start : Orderly w)
    (answer : w.subscribe q topic group label subscriber = (.ok id, made)) :
    Follows v w.loops.length topic group ((w.broker.committed topic.name group).getD 0) := by
  have change : Change w made none := by
    have change := subscribe_change w q topic group label subscriber
    rwa [answer] at change
  have follows := subscribe_follows start answer
  exact later.follows (change.orderly start) follows

end Changes

theorem orderly_empty : Orderly ({ broker := {} } : World Ledger α) :=
  ⟨Ledger.numbered_empty, fun _ _ => rfl⟩

end

section
variable [DecidableEq α] {w v : World Ledger α}

theorem Leads.changes (later : w.Leads v) : Changes w v := by
  apply Relation.ReflTransGen.mono ?_ _ _ later
  intro u v move
  exact move_change move

theorem reachable_changes (h : Reachable {} w) : Changes { broker := {} } w := by
  induction h with
  | start => exact .refl
  | next _ move ih => exact ih.tail (move_change move)

theorem reachable_orderly (h : Reachable {} w) : Orderly w :=
  (reachable_changes h).orderly orderly_empty

end

def orders : Topic := ⟨"orders", by decide⟩

/-- One queue over an empty ledger. -/
def opened : World Ledger String :=
  after { broker := {} } [.command (.connect ⟨[]⟩ {
    brokers := "memory:9092", username := "develop", password := "secret", mechanisms := "PLAIN"
    protocol := "PLAINTEXT" })]

theorem reachable_opened : Reachable {} opened := reachable_after ..

end World

end Courier.Queue
