import Courier.Proofs.Queue.Run
import Mathlib.Data.List.Chain

/-!
# Deliveries of one subscription

What a subscriber is given, and what becomes of its answers:

* `DeliveryLaw`: offsets go up by one with each acceptance and stay with each
  rejection, and every answer is settled before anything else happens;
* `delivery_law`: every subscription obeys it in every run.
-/

namespace Courier.Queue

open Broker (Ledger)

namespace Act

def delivery : Act → Option Message
  | .delivered m => some m
  | _ => none

def answer : Act → Option (Message × Bool)
  | .answered m accept => some (m, accept)
  | _ => none

/-- An attempt to commit settles an acceptance, holding a message back settles a rejection. -/
def settlement : Act → Option (Message × Bool)
  | .committed m _ => some (m, true)
  | .withheld m _ => some (m, false)
  | _ => none

/-- Nothing comes between a message and its answer, and nothing between an answer and its
settlement. -/
def Allows : Act → Act → Prop
  | .delivered m, a => ∃ accept, a = .answered m accept
  | .answered m accept, a => a.settlement = some (m, accept)
  | _, _ => True

end Act

def accepted (answers : List (Message × Bool)) : Nat := answers.countP (·.2)

/-- Every answered message stands in the log, as far behind offset `c` as messages were accepted
before it. -/
def Placed (b : Ledger) (topic : String) (c : Int) (answers : List (Message × Bool)) : Prop :=
  ∀ (i : Nat) (m : Message) (accept : Bool), answers[i]? = some (m, accept) →
    b.at? topic m.offset = some m ∧ m.offset = c + accepted (answers.take i)

theorem Placed.snoc {b : Ledger} {topic : String} {c : Int} {answers : List (Message × Bool)}
    (h : Placed b topic c answers) {m : Message} (entry : b.at? topic m.offset = some m)
    (place : m.offset = c + accepted answers) (accept : Bool) :
    Placed b topic c (answers ++ [(m, accept)]) := by
  intro i m' accept' found
  obtain old | ⟨rfl, same⟩ := getElem?_concat_some found
  · have before := (List.getElem?_eq_some_iff.mp old).1
    rw [List.take_append_of_le_length (Nat.le_of_lt before)]
    exact h i m' accept' old
  · obtain ⟨rfl, rfl⟩ := Prod.mk.inj same
    rw [List.take_left]
    exact ⟨entry, place⟩

/-- Acts that are in order, and that anything may come after. -/
structure InOrder (acts : List Act) : Prop where
  chain : acts.IsChain Act.Allows
  free : ∀ a ∈ acts.getLast?, ∀ next, a.Allows next

theorem InOrder.append {acts more : List Act} (h : InOrder acts) (h' : InOrder more) :
    InOrder (acts ++ more) := by
  constructor
  · apply h.chain.append h'.chain
    intro a last next _
    exact h.free a last next
  · intro a last
    rw [List.getLast?_append] at last
    cases ends : more.getLast? with
    | none =>
      rw [ends, Option.none_or] at last
      exact h.free a last
    | some a' =>
      rw [ends, Option.some_or] at last
      exact h'.free a (ends.trans last)

namespace Course

variable {b : Ledger} {topic : String} {c : Int} {acts : List Act} {p : Point}

theorem deliveries_eq (h : Course b topic c acts p) :
    acts.filterMap Act.delivery = (acts.filterMap Act.answer).map (·.1) := by
  induction h with
  | start => rfl
  | falter _ _ ih => simpa [List.filterMap_cons, Act.delivery, Act.answer] using ih
  | accept _ _ _ _ ih => simp [List.filterMap_cons, Act.delivery, Act.answer, ih]
  | reject _ _ _ _ ih => simp [List.filterMap_cons, Act.delivery, Act.answer, ih]

theorem settlements_eq (h : Course b topic c acts p) :
    acts.filterMap Act.settlement = acts.filterMap Act.answer := by
  induction h with
  | start => rfl
  | falter _ _ ih => simpa [List.filterMap_cons, Act.settlement, Act.answer] using ih
  | accept _ _ _ _ ih => simp [List.filterMap_cons, Act.settlement, Act.answer, ih]
  | reject _ _ _ _ ih => simp [List.filterMap_cons, Act.settlement, Act.answer, ih]

theorem offset_eq (h : Course b topic c acts p) :
    p.offset = c + accepted (acts.filterMap Act.answer) := by
  induction h with
  | start => simp [accepted]
  | falter _ _ ih => simpa [List.filterMap_cons, Act.answer, accepted] using ih
  | accept _ _ _ _ ih =>
    simp only [accepted] at ih
    simp [List.filterMap_cons, Act.answer, accepted]
    omega
  | reject _ _ _ _ ih => simpa [List.filterMap_cons, Act.answer, accepted] using ih

/-- What was answered stands in the log, as far from the start as messages were accepted before. -/
theorem placed (h : Course b topic c acts p) :
    Placed b topic c (acts.filterMap Act.answer) := by
  induction h with
  | start => nofun
  | falter _ _ ih => simpa [List.filterMap_cons, Act.answer] using ih
  | @accept acts p before m entry place r ih =>
    rw [List.filterMap_append]
    exact ih.snoc (place ▸ entry) (place.trans before.offset_eq) true
  | @reject acts p before m entry place r ih =>
    rw [List.filterMap_append]
    exact ih.snoc (place ▸ entry) (place.trans before.offset_eq) false

theorem inOrder (h : Course b topic c acts p) : InOrder acts := by
  induction h with
  | start => constructor <;> simp
  | falter _ _ ih =>
    apply ih.append
    constructor <;> simp [Act.Allows]
  | accept _ _ _ _ ih =>
    apply ih.append
    constructor <;> simp [Act.Allows, Act.settlement]
  | reject _ _ _ _ ih =>
    apply ih.append
    constructor <;> simp [Act.Allows, Act.settlement]

/-- A message is accepted once at most, and once it is, it does not come again. -/
theorem count_accepted (h : Course b topic c acts p) (m : Message) :
    (acts.filterMap Act.answer).count (m, true) ≤ 1 ∧
      (p.offset ≤ m.offset → (acts.filterMap Act.answer).count (m, true) = 0) := by
  induction h with
  | start => simp
  | falter _ _ ih => simpa [List.filterMap_cons, Act.answer] using ih
  | @accept acts p before m' entry place r ih =>
    simp only [List.filterMap_append, List.filterMap_cons, List.filterMap_nil, Act.answer,
      List.count_append, List.count_singleton, beq_iff_eq, Prod.mk.injEq, and_true]
    obtain ⟨once, never⟩ := ih
    split
    · next same =>
      subst same
      have none := never (by omega)
      omega
    · omega
  | reject _ _ _ _ ih => simpa [List.filterMap_cons, Act.answer] using ih

end Course

theorem accepted_take_succ {answers : List (Message × Bool)} {i : Nat} {m : Message} {accept : Bool}
    (found : answers[i]? = some (m, accept)) :
    accepted (answers.take (i + 1)) = accepted (answers.take i) + if accept then 1 else 0 := by
  rw [List.take_add_one, found, accepted, List.countP_append]
  cases accept <;> simp [accepted]

theorem count_message (answers : List (Message × Bool)) (m : Message) :
    (answers.map (·.1)).count m = answers.count (m, false) + answers.count (m, true) := by
  induction answers with
  | nil => rfl
  | cons answer answers ih =>
    obtain ⟨m', accept⟩ := answer
    simp only [List.map_cons, List.count_cons, ih, beq_iff_eq, Prod.mk.injEq]
    cases accept <;> simp <;> omega

/-- What a loop's acts come to, with or without a message that has not been answered. -/
structure Told (b : Ledger) (topic : String) (c : Int) (acts : List Act)
    (pending : Option Message) : Prop where
  settled : acts.filterMap Act.settlement = acts.filterMap Act.answer
  delivered : acts.filterMap Act.delivery = (acts.filterMap Act.answer).map (·.1) ++ pending.toList
  placed : Placed b topic c (acts.filterMap Act.answer)
  pending : ∀ m ∈ pending, b.at? topic m.offset = some m ∧
    m.offset = c + accepted (acts.filterMap Act.answer)
  chain : acts.IsChain Act.Allows
  last : ∀ m accept, acts.getLast? ≠ some (.answered m accept)
  once : ∀ m, (acts.filterMap Act.answer).count (m, true) ≤ 1 ∧
    (c + accepted (acts.filterMap Act.answer) ≤ m.offset →
      (acts.filterMap Act.answer).count (m, true) = 0)

namespace Told

variable {b : Ledger} {topic : String} {c : Int} {acts : List Act} {pending : Option Message}

theorem of_course {p : Point} (h : Course b topic c acts p) : Told b topic c acts none where
  settled := h.settlements_eq
  delivered := by simpa using h.deliveries_eq
  placed := h.placed
  pending := nofun
  chain := h.inOrder.chain
  last := by
    intro m accept last
    have allowed := h.inOrder.free _ last .closed
    simp [Act.Allows, Act.settlement] at allowed
  once := fun m => h.offset_eq ▸ h.count_accepted m

/-- An act that neither answers nor settles can follow whole rounds. -/
theorem snoc {p : Point} (h : Course b topic c acts p) {a : Act} (noAnswer : a.answer = none)
    (noSettlement : a.settlement = none)
    (entry : ∀ m ∈ a.delivery, b.at? topic p.offset = some m ∧ m.offset = p.offset) :
    Told b topic c (acts ++ [a]) a.delivery := by
  have told := of_course h
  have answers : (acts ++ [a]).filterMap Act.answer = acts.filterMap Act.answer := by
    simp [noAnswer]
  constructor
  case settled => rw [answers, ← told.settled]; simp [noSettlement]
  case delivered =>
    rw [answers, List.filterMap_append, told.delivered]
    cases delivered : a.delivery <;> simp [delivered]
  case placed => rw [answers]; exact told.placed
  case pending =>
    intro m here
    obtain ⟨found, place⟩ := entry m here
    rw [answers, place, ← h.offset_eq]
    exact ⟨found, rfl⟩
  case chain =>
    apply told.chain.append
    · simp
    · intro x last next _
      exact h.inOrder.free x last next
  case last =>
    intro m accept last
    simp only [List.getLast?_append, List.getLast?_singleton, Option.some_or,
      Option.some.injEq] at last
    simp [last, Act.answer] at noAnswer
  case once => rw [answers]; exact told.once

/-- A message that was handed over stands in the log, as far from the start as messages were
accepted before it. -/
theorem place (h : Told b topic c acts pending) {i : Nat} {m : Message}
    (found : (acts.filterMap Act.delivery)[i]? = some m) :
    b.at? topic m.offset = some m ∧
      m.offset = c + accepted ((acts.filterMap Act.answer).take i) := by
  rw [h.delivered, List.getElem?_append] at found
  split at found
  · rw [List.getElem?_map, Option.map_eq_some_iff] at found
    obtain ⟨⟨m', accept⟩, answered, rfl⟩ := found
    exact h.placed i m' accept answered
  · next past =>
    simp only [List.length_map] at past found
    have here : m ∈ pending := by
      have := List.mem_of_getElem? found
      simpa using this
    rw [List.take_of_length_le (by omega)]
    exact h.pending m here

/-- Each message but the last one given has been answered, and the next is given accordingly. -/
theorem next (h : Told b topic c acts pending) {i : Nat} {m m' : Message}
    (found : (acts.filterMap Act.delivery)[i]? = some m)
    (found' : (acts.filterMap Act.delivery)[i + 1]? = some m') :
    ∃ accept, (acts.filterMap Act.answer)[i]? = some (m, accept) ∧
      m'.offset = if accept then m.offset + 1 else m.offset := by
  have short : i < (acts.filterMap Act.answer).length := by
    have bound := (List.getElem?_eq_some_iff.mp found').1
    rw [h.delivered, List.length_append, List.length_map] at bound
    cases pending <;> simp at bound; omega; omega
  rcases value : (acts.filterMap Act.answer)[i] with ⟨m₀, accept⟩
  have answered : (acts.filterMap Act.answer)[i]? = some (m₀, accept) := by
    rw [List.getElem?_eq_getElem short, value]
  obtain rfl : m₀ = m := by
    rw [h.delivered, List.getElem?_append_left (by simpa using short), List.getElem?_map,
      answered] at found
    exact Option.some.inj found
  refine ⟨accept, answered, ?_⟩
  rw [(h.place found').2, (h.place found).2, accepted_take_succ answered]
  cases accept with
  | true => simp; omega
  | false => simp

/-- A message that was accepted was given once more than it was rejected. -/
theorem repeated (h : Told b topic c acts pending) {m : Message}
    (acceptance : (m, true) ∈ acts.filterMap Act.answer) :
    (acts.filterMap Act.delivery).count m = (acts.filterMap Act.answer).count (m, false) + 1 := by
  have positive := List.count_pos_iff.mpr acceptance
  have once := (h.once m).1
  have gone : m ∉ pending := by
    intro here
    have place := (h.pending m here).2
    have := (h.once m).2 (by omega)
    omega
  have none_left : pending.toList.count m = 0 := by
    rw [List.count_eq_zero]
    simpa using gone
  rw [h.delivered, List.count_append, count_message, none_left]
  omega

end Told

/-- The turn of a loop whose subscriber has answered settles the answer, cancelled or not. -/
theorem takes_settles {α : Type} {k now : Nat} {b : Ledger} {l : ReadLoop Ledger α}
    {t : Turn Ledger α} {m : Message} {accept : Bool} {due : Nat} (takes : l.Takes k now b t)
    (phase : l.phase = .handling m (.answered accept due)) :
    ∃ a rest, t.notes.filterMap (·.actOf k) = .answered m accept :: a :: rest ∧
      a.settlement = some (m, accept) := by
  cases takes with
  | @accept _ _ m' _ r held =>
    obtain ⟨rfl, rfl, -⟩ : m' = m ∧ true = accept ∧ _ := by simpa [held] using phase
    exact ⟨.committed m' r, [], by simp, rfl⟩
  | @reject _ _ m' _ r held =>
    obtain ⟨rfl, rfl, -⟩ : m' = m ∧ false = accept ∧ _ := by simpa [held] using phase
    exact ⟨.withheld m' r, [.rested (pause l.rejections).toNat], by simp, rfl⟩
  | stop free => obtain free | free := free <;> simp [free] at phase
  | park free | deliver free | lose free | falter free | leave free | rise free | fail free =>
    simp [free] at phase

namespace World

variable {α : Type}

def deliveries (w : World Ledger α) (k : Nat) : List Message := (w.acts k).filterMap Act.delivery

def answers (w : World Ledger α) (k : Nat) : List (Message × Bool) :=
  (w.acts k).filterMap Act.answer

/-- The commits that loop `k` has attempted (`true`) and the messages it has held back. -/
def settlements (w : World Ledger α) (k : Nat) : List (Message × Bool) :=
  (w.acts k).filterMap Act.settlement

/-- The law of a subscription that was made when its group had committed offset `c`. -/
structure DeliveryLaw (w : World Ledger α) (k : Nat) (topic : Topic) (group : String) (c : Int) :
    Prop where
  serves : ∃ l, w.loops[k]? = some l ∧ l.topic = topic ∧ l.group = group
  first : ∀ m, (w.deliveries k)[0]? = some m → m.offset = c
  /-- The next message comes after an answer: behind the last one if that was accepted, else it is
  that one again. -/
  next : ∀ i m m', (w.deliveries k)[i]? = some m → (w.deliveries k)[i + 1]? = some m' →
    ∃ accept, (w.answers k)[i]? = some (m, accept) ∧
      m'.offset = if accept then m.offset + 1 else m.offset
  entry : ∀ m ∈ w.deliveries k, w.broker.at? topic.name m.offset = some m
  inOrder : (w.answers k).map (·.1) <+: w.deliveries k
  /-- One attempt to commit for each acceptance, one message held back for each rejection, and
  no others. -/
  settled : w.settlements k = w.answers k
  atOnce : ∀ i m accept, (w.acts k)[i]? = some (.answered m accept) →
    ∃ a, (w.acts k)[i + 1]? = some a ∧ a.settlement = some (m, accept)
  undisturbed : ∀ i m a, (w.acts k)[i]? = some (.delivered m) → (w.acts k)[i + 1]? = some a →
    ∃ accept, a = .answered m accept
  /-- A loop fetches, rests and ends only when every message has been answered. -/
  idle : ∀ l, w.loops[k]? = some l → (∀ m stage, l.phase ≠ .handling m stage) →
    l.phase ≠ .failed → (w.answers k).map (·.1) = w.deliveries k
  /-- Whether the loop was cancelled or not, an answer is settled by the loop's next step. -/
  carried : ∀ l m accept due, w.loops[k]? = some l → l.phase = .handling m (.answered accept due) →
    due ≤ w.now → ∃ v a rest, w.loopStep k = some v ∧
      v.acts k = w.acts k ++ .answered m accept :: a :: rest ∧ a.settlement = some (m, accept)
  /-- A message that was rejected some times and then accepted was delivered once more than that. -/
  repeated : ∀ m, (m, true) ∈ w.answers k →
    (w.deliveries k).count m = (w.answers k).count (m, false) + 1

/-- A loop that has a message in hand is handling it, or it failed over it. -/
theorem Follows.told {w : World Ledger α} {k : Nat} {topic : Topic} {group : String} {c : Int}
    (h : Follows w k topic group c) :
    ∃ l pending, w.loops[k]? = some l ∧ Told w.broker topic.name c (w.acts k) pending ∧
      ((∀ m stage, l.phase ≠ .handling m stage) → l.phase ≠ .failed → pending = none) := by
  obtain ⟨l, here, rfl, -, steady⟩ := h
  cases steady.course with
  | between phase course => exact ⟨l, none, here, .of_course course, fun _ _ => rfl⟩
  | @inHand done p m phase acts course entry place =>
    refine ⟨l, some m, here, ?_, ?_⟩
    · rw [acts]
      exact .snoc course rfl rfl (by rintro _ ⟨⟩; exact ⟨entry, place⟩)
    · intro free alive
      obtain ⟨stage, held⟩ | failed := phase
      · exact absurd held (free m stage)
      · exact absurd failed alive
  | gone phase acts course =>
    refine ⟨l, none, here, ?_, fun _ _ => rfl⟩
    rw [acts]
    exact .snoc course rfl rfl nofun

theorem Follows.deliveryLaw {w : World Ledger α} {k : Nat} {topic : Topic} {group : String}
    {c : Int} (h : Follows w k topic group c) : DeliveryLaw w k topic group c := by
  obtain ⟨l, pending, here, told, free⟩ := h.told
  constructor
  case serves =>
    obtain ⟨l, here, topic, group, -⟩ := h
    exact ⟨l, here, topic, group⟩
  case first =>
    intro m found
    simpa [accepted] using (told.place found).2
  case next =>
    intro i m m' found found'
    exact told.next found found'
  case entry =>
    intro m given
    obtain ⟨i, found⟩ := List.mem_iff_getElem?.mp given
    exact (told.place found).1
  case inOrder =>
    rw [deliveries, told.delivered]
    exact List.prefix_append ..
  case settled => exact told.settled
  case atOnce =>
    intro i m accept answered
    obtain ⟨bound, value⟩ := List.getElem?_eq_some_iff.mp answered
    have more : i + 1 < (w.acts k).length := by
      by_contra short
      have last : (w.acts k).length - 1 = i := by omega
      apply told.last m accept
      rw [List.getLast?_eq_getElem?, last, answered]
    have allowed := List.isChain_iff_getElem.mp told.chain i more
    rw [value] at allowed
    exact ⟨_, List.getElem?_eq_getElem more, allowed⟩
  case undisturbed =>
    intro i m a delivered next
    obtain ⟨bound, value⟩ := List.getElem?_eq_some_iff.mp delivered
    obtain ⟨more, value'⟩ := List.getElem?_eq_some_iff.mp next
    have allowed := List.isChain_iff_getElem.mp told.chain i more
    rwa [value, value'] at allowed
  case idle =>
    intro l₁ here₁ noHandling alive
    obtain rfl : l = l₁ := Option.some.inj (here.symm.trans here₁)
    rw [deliveries, told.delivered, free noHandling alive]
    simp [answers]
  case carried =>
    intro l₁ m accept due here₁ phase elapsed
    obtain ⟨t, takes, eq⟩ := settle_takes w k l₁ phase elapsed
    obtain ⟨a, rest, notes, settles⟩ := takes_settles takes phase
    have step : w.loopStep k = some (w.turned k t) := by
      rw [← eq, loopStep_of_answered here₁ phase elapsed]
    have acts : (w.turned k t).acts k = w.acts k ++ .answered m accept :: a :: rest := by
      rw [acts_turned, notes]
    exact ⟨w.turned k t, a, rest, step, acts, settles⟩
  case repeated =>
    intro m acceptance
    exact told.repeated acceptance

/-- **The law of deliveries.** From the moment a subscription is made, whatever is published,
cancelled, closed or made to fail, its subscriber is given the log from the group's offset on. -/
theorem delivery_law [DecidableEq α] {w made v : World Ledger α} {q : Nat} {topic : Topic}
    {group label : String} {subscriber : Subscriber α} {id : SubscriptionId}
    (reach : Reachable {} w)
    (subscribed : w.subscribe q topic group label subscriber = (.ok id, made))
    (later : made.Leads v) :
    DeliveryLaw v w.loops.length topic group ((w.broker.committed topic.name group).getD 0) := by
  have orderly := reachable_orderly reach
  have follows := later.changes.subscribed orderly subscribed
  exact follows.deliveryLaw

/-- A message that is rejected once, a commit that fails, and a subscription that is given up while
its subscriber is busy. -/
def disturbed : List (Attempt Ledger String) :=
  [.command (.publish 0 orders (.text "first")),
    .command (.publish 0 orders (.text "second")),
    .step (.loop 0), .step (.loop 0), .step (.wait 100), .step (.loop 0), .step (.loop 0),
    .command (.control (.failCommits 1)), .step (.loop 0), .step (.loop 0),
    .command (.unsubscribe 0 ⟨1⟩), .step (.loop 0), .step (.loop 0)]

theorem delivery_law_disturbed :
    let asked := opened.subscribe 0 orders "audit" "auditor"
      (.direct ⟨fun calls _ => { accept := calls != 0 }⟩)
    let w := asked.2.after disturbed
    asked.1 = .ok ⟨1⟩ ∧ DeliveryLaw w 0 orders "audit" 0 ∧
      (w.answers 0).map (fun (m, accept) => (m.offset, accept)) =
        [(0, false), (0, true), (1, true)] ∧
      w.broker.committed "orders" "audit" = some 2 := by
  intro asked w
  have subscribed : asked.1 = .ok ⟨1⟩ := by decide
  have none : opened.loops.length = 0 := by decide
  have start : (opened.broker.committed orders.name "audit").getD 0 = 0 := by decide
  refine ⟨subscribed, ?_, by decide, by decide⟩
  have law := delivery_law reachable_opened (Prod.ext subscribed rfl)
    (leads_iff_after.mpr ⟨disturbed, rfl⟩)
  rwa [none, start] at law

end World

end Courier.Queue
