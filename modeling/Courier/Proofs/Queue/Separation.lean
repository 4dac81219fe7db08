import Courier.Proofs.Queue.Delivery
import Courier.Proofs.Queue.Lane

/-!
# Topics and groups do not interfere

Queues over one broker share its logs, its offsets and the waking of their loops. They do not
share what their subscribers are handed:

* `readOut`: what is handed over, as a function of a log and of the answers;
* `Follows.readOut`: a subscriber is handed this, wherever it starts;
* `Concur`: two worlds have the same for a topic and a group;
* `separation_law`: no attempt changes what is another's, and runs that are the same to a topic and
  a group have the same for them in the end.
-/

namespace Courier.Queue

open Broker (Ledger)

/-- What is handed over from a place in a log on. An entry that was accepted is gone past, one that
was rejected comes again. -/
def readOut (log : List Message) : Int → List Bool → List Message
  | _, [] => []
  | c, accept :: rest =>
    (if c < 0 then none else log[c.toNat]?).toList ++
      readOut log (if accept then c + 1 else c) rest

section
variable {b : Ledger} {topic : String} {c : Int}

theorem readOut_concat (b : Ledger) (topic : String) (c : Int) (answers : List Bool)
    (accept : Bool) :
    readOut (b.log topic) c (answers ++ [accept]) =
      readOut (b.log topic) c answers ++ (b.at? topic (c + answers.count true)).toList := by
  induction answers generalizing c with
  | nil => simp [readOut, Ledger.at?]
  | cons first rest ih =>
    rw [List.cons_append, readOut, readOut, ih, List.append_assoc]
    cases first with
    | true =>
      have next : c + 1 + (rest.count true : Int) = c + (rest.count true + 1 : Nat) := by omega
      simp [next]
    | false => simp

/-- After the first message was answered, the others stand behind it or begin with it. -/
theorem Placed.tail {m : Message} {accept : Bool} {rest : List (Message × Bool)}
    (h : Placed b topic c ((m, accept) :: rest)) :
    Placed b topic (if accept then c + 1 else c) rest := by
  intro i m' accept' found
  obtain ⟨entry, place⟩ := h (i + 1) m' accept' (by simpa using found)
  refine ⟨entry, ?_⟩
  rw [place, List.take_succ_cons, accepted, List.countP_cons, accepted]
  cases accept with
  | true =>
    simp
    omega
  | false => simp

theorem Placed.readOut {answers : List (Message × Bool)} (h : Placed b topic c answers) :
    answers.map (·.1) = readOut (b.log topic) c (answers.map (·.2)) := by
  induction answers generalizing c with
  | nil => rfl
  | cons answer rest ih =>
    obtain ⟨m, accept⟩ := answer
    obtain ⟨entry, place⟩ := h 0 m accept rfl
    have here : b.at? topic c = some m := by
      rw [← entry, place]
      simp [accepted]
    rw [List.map_cons, List.map_cons, Queue.readOut, ← ih h.tail,
      show (if c < 0 then none else (b.log topic)[c.toNat]?) = some m from here]
    rfl

end

namespace World

variable {α : Type}

/-- A subscriber is handed what its log and its answers make of it, as far as it has answered, or
one message more. -/
theorem Follows.readOut {w : World Ledger α} {k : Nat} {topic : Topic} {group : String} {c : Int}
    (h : Follows w k topic group c) :
    let answers := (w.answers k).map (·.2)
    let log := w.broker.log topic.name
    w.deliveries k = Queue.readOut log c answers ∨
      w.deliveries k = Queue.readOut log c (answers ++ [true]) := by
  obtain ⟨l, pending, -, told, -⟩ := h.told
  have settled := told.placed.readOut
  have delivered := told.delivered
  cases pending with
  | none => exact .inl (by rw [deliveries, delivered, settled]; simp [answers])
  | some m =>
    obtain ⟨entry, place⟩ := told.pending m rfl
    refine .inr ?_
    have count : ((w.answers k).map (·.2)).count true = accepted (w.answers k) := by
      simp [accepted, List.count, List.countP_map, Function.comp_def]
    have next : w.broker.at? topic.name (c + ((w.answers k).map (·.2)).count true) = some m := by
      rw [count, ← entry, place]
      rfl
    rw [readOut_concat, next, deliveries, delivered, settled]
    rfl

/-- Two worlds have the same for a topic and a group: the log, the offset, and of each of their
loops all it has done, the reader and the counters. -/
structure Concur (topic : Topic) (group : String) (w v : World Ledger α) : Prop where
  log : v.broker.log topic.name = w.broker.log topic.name
  committed : v.broker.committed topic.name group = w.broker.committed topic.name group
  subscriptions : (v.own topic group).length = (w.own topic group).length
  deliveries : ∀ i k j : Nat, (w.own topic group)[i]? = some k → (v.own topic group)[i]? = some j →
    v.deliveries j = w.deliveries k
  acts : ∀ i k j : Nat, (w.own topic group)[i]? = some k → (v.own topic group)[i]? = some j →
    v.acts j = w.acts k
  loops : ∀ i k j : Nat, (w.own topic group)[i]? = some k → (v.own topic group)[i]? = some j →
    ∃ l l', w.loops[k]? = some l ∧ v.loops[j]? = some l' ∧ l'.reader = l.reader ∧
      l'.failures = l.failures ∧ l'.rejections = l.rejections

/-- What two worlds have in common with the same world alone they have in common. -/
theorem Alone.concur {w v u : World Ledger α} {topic : Topic} {group : String}
    (h : Alone topic group w u) (h' : Alone topic group v u) : Concur topic group w v := by
  have acts : ∀ i k j : Nat, (w.own topic group)[i]? = some k →
      (v.own topic group)[i]? = some j → v.acts j = w.acts k := by
    intro i k j mine mine'
    exact (h'.acts i j mine').symm.trans (h.acts i k mine)
  constructor
  case log => exact h'.shared.log.symm.trans h.shared.log
  case committed => exact h'.shared.committed.symm.trans h.shared.committed
  case subscriptions => rw [← h.length_eq, h'.length_eq]
  case acts => exact acts
  case deliveries =>
    intro i k j mine mine'
    rw [World.deliveries, acts i k j mine mine', World.deliveries]
  case loops =>
    intro i k j mine mine'
    obtain ⟨l, here, -⟩ := mem_own.mp (List.mem_of_getElem? mine)
    obtain ⟨l', here', -⟩ := mem_own.mp (List.mem_of_getElem? mine')
    have both := (h.loops i k mine).symm.trans (h'.loops i j mine')
    rw [here, here', Option.map_some, Option.map_some, Option.some.injEq] at both
    have part {β : Type} (f : ReadLoop Ledger α → β) : f l'.bare = f l.bare := by rw [both]
    exact ⟨l, l', here, here', part (·.reader), part (·.failures), part (·.rejections)⟩

/-- How the others are kept from a topic and a group, and these from what the others do. -/
structure SeparationLaw (α : Type) [DecidableEq α] (topic : Topic) (group : String) : Prop where
  /-- Only what is published to the topic is written to its log. No step of a subscription is. -/
  log : ∀ (w : World Ledger α) (a : Attempt Ledger α), a.topic ≠ some topic →
    (w.attempt a).broker.log topic.name = w.broker.log topic.name
  /-- Only a step of a subscription to the topic in the group changes their offset. -/
  committed : ∀ w : World Ledger α, Reachable {} w → ∀ a : Attempt Ledger α,
    (∀ k l, a = .step (.loop k) → w.loops[k]? = some l → ¬ l.Serves topic group) →
    (w.attempt a).broker.committed topic.name group = w.broker.committed topic.name group
  /-- Only its own steps move the cursor of a reader and change the counters of its loop, or hand
  anything over. -/
  loops : ∀ (w : World Ledger α) (a : Attempt Ledger α) (k : Nat) (l : ReadLoop Ledger α),
    w.loops[k]? = some l → a ≠ .step (.loop k) →
    (w.attempt a).deliveries k = w.deliveries k ∧
      ∃ l', (w.attempt a).loops[k]? = some l' ∧ l'.reader = l.reader ∧
        l'.failures = l.failures ∧ l'.rejections = l.rejections
  /-- From the offset at which a subscription is made, its subscriber is handed what the log and
  its answers make of it: as far as it has answered, or one message more. -/
  handed : ∀ (u made w : World Ledger α) (q : Nat) (label : String) (s : Subscriber α)
    (id : SubscriptionId), Reachable {} u →
    u.subscribe q topic group label s = (.ok id, made) → made.Leads w →
    let k := u.loops.length
    let c := (u.broker.committed topic.name group).getD 0
    let answers := (w.answers k).map (·.2)
    let log := w.broker.log topic.name
    w.deliveries k = readOut log c answers ∨ w.deliveries k = readOut log c (answers ++ [true])
  /-- Two runs without faults and without streams that end may differ in all else they have. -/
  runs : ∀ xs ys : List (Attempt Ledger α), (∀ a ∈ xs ++ ys, a.controls = none) →
    traffic topic group { broker := {} } xs = traffic topic group { broker := {} } ys →
    Concur topic group (after { broker := {} } xs) (after { broker := {} } ys)

/-- **Topics and groups do not interfere.** -/
theorem separation_law [DecidableEq α] (topic : Topic) (group : String) :
    SeparationLaw α topic group := by
  constructor
  case log =>
    intro w a other
    exact attempt_log w other
  case committed =>
    intro w reach a foreign
    exact attempt_committed reach foreign
  case loops =>
    intro w a k l here other
    obtain ⟨acts, l', there, kept⟩ := attempt_loop w other here
    refine ⟨congrArg (·.filterMap Act.delivery) acts, l', there, kept.reader, ?_, ?_⟩
    · rw [kept.rest]
    · rw [kept.rest]
  case handed =>
    intro u made w q label s id reach subscribed later
    exact (later.changes.subscribed (reachable_orderly reach) subscribed).readOut
  case runs =>
    intro xs ys undisturbed same
    have first := alone_after (alone_empty topic group) .start fun a member =>
      undisturbed a (List.mem_append_left ys member)
    have second := alone_after (alone_empty topic group) .start fun a member =>
      undisturbed a (List.mem_append_right xs member)
    rw [← same] at second
    exact first.concur second

def refunds : Topic := ⟨"refunds", by decide⟩

def opening : Attempt Ledger String :=
  .command (.connect ⟨[]⟩ {
    brokers := "memory:9092", username := "develop", password := "secret", mechanisms := "PLAIN"
    protocol := "PLAINTEXT" })

/-- A subscriber that rejects the first message it is given. -/
def auditor : Subscriber String := .direct ⟨fun calls _ => { accept := calls != 0 }⟩

/-- One subscription, and nothing beside it. -/
def undivided : List (Attempt Ledger String) :=
  [opening, .command (.subscribe 0 orders "audit" "auditor" auditor),
    .command (.publish 0 orders (.text "first")), .step (.loop 0), .step (.loop 0),
    .step (.wait 100), .step (.loop 0), .step (.loop 0), .step (.loop 0)]

/-- The same subscription among others to another topic and in another group, which wake it, are
given up and commit in between. -/
def amidst : List (Attempt Ledger String) :=
  [opening, opening, .command (.subscribe 1 refunds "audit" "clerk" auditor),
    .command (.subscribe 1 orders "audit" "auditor" auditor), .step (.loop 1),
    .command (.publish 0 refunds (.text "second")),
    .command (.subscribe 0 orders "billing" "clerk" auditor), .step (.loop 1),
    .command (.publish 0 orders (.text "first")), .step (.loop 0), .step (.loop 2), .step (.loop 1),
    .step (.loop 2), .step (.loop 0), .step (.loop 1), .command (.unsubscribe 1 ⟨1⟩),
    .step (.wait 100), .step (.loop 2), .step (.loop 1), .step (.loop 2), .step (.loop 0),
    .step (.loop 1), .step (.loop 2), .step (.loop 1)]

def audited : List (Nat × Matter String) :=
  [(0, .joined auditor), (0, .written ⟨orders, none, Utf8.encode "first"⟩), (0, .turn 0),
    (0, .turn 0), (100, .turn 0), (100, .turn 0), (100, .turn 0)]

theorem separation_law_amidst :
    let w : World Ledger String := after { broker := {} } undivided
    let v : World Ledger String := after { broker := {} } amidst
    Concur orders "audit" w v ∧ v.own orders "audit" = [1] ∧
      (v.deliveries 1).map (·.offset) = [0, 0] ∧ v.broker.committed "orders" "audit" = some 1 := by
  have same : traffic orders "audit" { broker := {} } undivided = audited := rfl
  have same' : traffic orders "audit" { broker := {} } amidst = audited := rfl
  have law := separation_law (α := String) orders "audit"
  have concur := law.runs undivided amidst (by decide) (same.trans same'.symm)
  exact ⟨concur, by decide +kernel, by decide +kernel, by decide +kernel⟩

end World

end Courier.Queue
