import Courier.Proofs.Queue.Acceptance
import Courier.Proofs.Queue.Passages
import Mathlib.Algebra.BigOperators.Group.Finset.Piecewise

/-!
# Accounts

What is counted adds up, whatever the publishers, the queues and the faults do:

* `actsOn`: what loops have done on a topic; the counters are counts of this;
* `Settles`: what was handed over was committed, failed to be committed, was rejected, or is owed
  an answer;
* `Entry.settles`, `Entry.commits`, `Entry.publications`, `Entry.written`: every move keeps the
  accounts;
* `AccountingLaw`: the accounts of the subscribers and of the publishers;
* `accounting_law`: they are in order in every run.
-/

namespace Courier

theorem countP_cons_toNat {β : Type} (p : β → Bool) (x : β) (xs : List β) :
    (x :: xs).countP p = xs.countP p + (p x).toNat := by
  cases counts : p x <;> simp [counts]

/-- What one element counts for is given up for what another counts for. -/
theorem countP_set_add {β : Type} (p : β → Bool) {xs : List β} {k : Nat} {x : β}
    (here : xs[k]? = some x) (y : β) :
    (xs.set k y).countP p + (p x).toNat = xs.countP p + (p y).toNat := by
  induction xs generalizing k with
  | nil => simp at here
  | cons z xs ih =>
    cases k with
    | zero =>
      obtain rfl : z = x := by simpa using here
      rw [List.set_cons_zero, countP_cons_toNat, countP_cons_toNat]
      omega
    | succ k =>
      have rest := ih (k := k) (by simpa using here)
      rw [List.set_cons_succ, countP_cons_toNat, countP_cons_toNat]
      omega

theorem countP_add_countP {β : Type} {p q r : β → Bool}
    (each : ∀ x, (p x).toNat + (q x).toNat = (r x).toNat) (xs : List β) :
    xs.countP p + xs.countP q = xs.countP r := by
  induction xs with
  | nil => rfl
  | cons x xs ih =>
    have here := each x
    simp only [countP_cons_toNat]
    omega

theorem sum_countP {ι β : Type} {indices : Finset ι} {p : ι → β → Bool} {q : β → Bool}
    {xs : List β} (each : ∀ x ∈ xs, ∑ i ∈ indices, (p i x).toNat = (q x).toNat) :
    ∑ i ∈ indices, xs.countP (p i) = xs.countP q := by
  induction xs with
  | nil => simp
  | cons x xs ih =>
    have rest := ih fun y member => each y (List.mem_cons_of_mem x member)
    simp only [countP_cons_toNat, Finset.sum_add_distrib, rest, each x List.mem_cons_self]

namespace Broker.Ledger

variable {r r' : Reader} {b b' : Ledger}

theorem fetch_commits {f : Fetched} (h : fetch r b = (f, r', b')) : b'.commits = b.commits := by
  cases f with
  | nothing => rw [(fetch_nothing h).2.1]
  | message m => rw [(fetch_message h).2.1]
  | closed e => rw [(fetch_closed h).2.1]
  | transient e => rw [(fetch_transient h).2.1]

/-- Every attempt to commit is counted, whether it succeeds or not. -/
theorem commit_commits {m : Message} {result : Except Error Unit}
    (h : commit r m b = (result, r', b')) : b'.commits = b.commits + 1 := by
  unfold commit at h
  simp only at h
  split at h <;>
    (simp only [Prod.mk.injEq] at h; obtain ⟨-, -, rfl⟩ := h; rfl)

@[simp] theorem control_commits (b : Ledger) (c : Control) : (b.control c).commits = b.commits := by
  cases c <;> rfl

end Broker.Ledger

namespace Queue

open Broker (Transport Ledger)

def Act.metric : Act → Option Metric
  | .delivered _ => some .consumed
  | .committed _ (.ok _) => some .committed
  | .committed _ (.error _) => some .commitFailures
  | .fetchFailed _ => some .fetchErrors
  | _ => none

def Act.isRejection : Act → Bool
  | .answered _ accept => !accept
  | _ => false

def Act.isCommit : Act → Bool
  | .committed .. => true
  | _ => false

section
variable {T α : Type} [Transport T]

/-- A message was handed over, and its answer has not been dealt with. -/
def ReadLoop.owes (l : ReadLoop T α) : Bool :=
  match l.phase with
  | .handling .. | .failed => true
  | _ => false

theorem Kept.owes {l l' : ReadLoop T α} (kept : Kept l l') : l'.owes = l.owes := by
  unfold ReadLoop.owes
  obtain same | ⟨parked, ready⟩ | ⟨m, accept, due, offered, answered⟩ := kept.phase
  · rw [same]
  · rw [parked, ready]
  · rw [offered, answered]

end

variable {T α ι : Type} [Transport T]

def Note.actOn (topic : String) : Note α → Option Act
  | .act _ t a => if t = topic then some a else none
  | _ => none

theorem counts_act (k : Nat) (topic : String) (a : Act) :
    (Note.act k topic a : Note α).counts = a.metric.map (·, topic) := by
  cases a with
  | committed m r => cases r <;> rfl
  | delivered | answered | withheld | fetchFailed | rested | closed => rfl

theorem actOn_of_said (topic : String) {n : Note α} (said : n.isSaid = true) :
    n.actOn topic = none := by
  cases n with
  | heard | line => rfl
  | act | published => cases said

def Note.publication : Note α → Option (Record × Bool)
  | .published r ok => some (r, ok)
  | _ => none

theorem publication_of_said {n : Note α} (said : n.isSaid = true) : n.publication = none := by
  cases n with
  | heard | line => rfl
  | act | published => cases said

/-- A loop on its course owes at most one answer. -/
theorem OnCourse.pending {b : Ledger} {c : Int} {l : ReadLoop Ledger α} {acts : List Act}
    (h : OnCourse b c l acts) : ∃ pending : Option Message,
      acts.filterMap Act.delivery = (acts.filterMap Act.answer).map (·.1) ++ pending.toList ∧
        pending.isSome = l.owes := by
  cases h with
  | between phase course =>
    refine ⟨none, by simp [course.deliveries_eq], ?_⟩
    obtain phase | phase | ⟨due, phase⟩ := phase <;> simp [ReadLoop.owes, phase]
  | @inHand done p m phase acts course =>
    subst acts
    refine ⟨some m, ?_, ?_⟩
    · simp [List.filterMap_cons, course.deliveries_eq, Act.delivery, Act.answer]
    · obtain ⟨stage, phase⟩ | phase := phase <;> simp [ReadLoop.owes, phase]
  | gone phase acts course =>
    subst acts
    refine ⟨none, ?_, by simp [ReadLoop.owes, phase]⟩
    simp [List.filterMap_cons, course.deliveries_eq, Act.delivery, Act.answer]

namespace World

/-- What the loops of a topic have done, the first act first. -/
def actsOn (w : World T α) (topic : String) : List Act := w.notes.filterMap (·.actOn topic)

def deeds (w : World T α) : List Act := w.notes.filterMap Note.deed

/-- The records that were given to a writer, and whether they were written. -/
def publications (w : World T α) : List (Record × Bool) := w.notes.filterMap Note.publication

def loopsOn (w : World T α) (topic : String) : Finset Nat :=
  (Finset.range w.loops.length).filter fun k =>
    (w.loops[k]?.map (·.topic.name)) = some topic

theorem mem_loopsOn {w : World T α} {topic : String} {k : Nat} :
    k ∈ w.loopsOn topic ↔ ∃ l, w.loops[k]? = some l ∧ l.topic.name = topic := by
  rw [loopsOn, Finset.mem_filter, Finset.mem_range, Option.map_eq_some_iff, and_iff_right_iff_imp]
  rintro ⟨l, here, -⟩
  exact (List.getElem?_eq_some_iff.mp here).1

def rejections (w : World T α) (topic : String) : Nat := (w.actsOn topic).countP Act.isRejection

/-- How many loops of the topic owe an answer: one answer each. -/
def unsettled (w : World T α) (topic : String) : Nat :=
  w.loops.countP fun l => l.topic.name = topic && l.owes

def topics (w : World T α) : Finset String := (w.counters.map (·.2)).toFinset

/-- What is counted of the loops of a topic is how often they did it. -/
theorem count_eq_actsOn (w : World T α) {m : Metric}
    (subscribers : m ≠ .published ∧ m ≠ .publishFailures) (topic : String) :
    w.count m topic = (w.actsOn topic).countP (·.metric == some m) := by
  rw [count_eq_notes, actsOn, List.countP_filterMap]
  apply List.countP_congr
  intro n _
  cases n with
  | act k t a =>
    rw [counts_act]
    by_cases here : t = topic
    · cases metric : a.metric <;> simp [Note.actOn, here, metric]
    · cases metric : a.metric <;> simp [Note.actOn, here]
  | published r ok =>
    obtain ⟨written, failed⟩ := subscribers
    cases ok <;> simp [Note.actOn, Note.counts, written.symm, failed.symm]
  | heard | line => simp [Note.actOn, Note.counts]

end World

section
variable {k now : Nat} {b : Ledger} {l : ReadLoop Ledger α} {t : Turn Ledger α}

theorem takes_actsOn (takes : l.Takes k now b t) (topic : String) :
    t.notes.filterMap (·.actOn topic) =
      if l.topic.name = topic then t.notes.filterMap Note.deed else [] := by
  split
  · next here =>
    apply List.filterMap_congr
    intro n noted
    obtain said | ⟨a, rfl⟩ := takes_notes takes noted
    · rw [actOn_of_said topic said, deed_of_said said]
    · simp [Note.actOn, here]
  · next elsewhere =>
    apply List.filterMap_eq_nil_iff.mpr
    intro n noted
    obtain said | ⟨a, rfl⟩ := takes_notes takes noted
    · exact actOn_of_said topic said
    · simp [Note.actOn, elsewhere]

/-- What is done settles so many answers that were owed, and leaves so many owed. -/
def Settles (acts : List Act) (before after : Nat) : Prop :=
  acts.countP (·.metric == some .consumed) + before =
    acts.countP (·.metric == some .committed) + acts.countP (·.metric == some .commitFailures) +
      acts.countP Act.isRejection + after

theorem takes_account (takes : l.Takes k now b t) :
    Settles (t.notes.filterMap Note.deed) l.owes.toNat t.loop.owes.toNat := by
  cases takes with
  | stop phase =>
    obtain phase | phase := phase <;>
      simp [Settles, List.filterMap_cons, ReadLoop.owes, phase, Act.metric, Act.isRejection]
  | park phase | falter phase | lose phase | rise phase | leave phase | fail phase =>
    simp [Settles, List.filterMap_cons, ReadLoop.owes, phase, Act.metric, Act.isRejection]
  | @deliver _ _ _ r _ _ phase =>
    cases r <;> simp [Settles, ReadLoop.owes, phase, phaseAfter, Act.metric, Act.isRejection]
  | @accept _ _ _ _ r phase =>
    cases r <;> simp [Settles, ReadLoop.owes, phase, Act.metric, Act.isRejection]
  | reject phase => simp [Settles, ReadLoop.owes, phase, Act.metric, Act.isRejection]

theorem takes_commit_count (takes : l.Takes k now b t) :
    t.broker.commits = b.commits + (t.notes.filterMap Note.deed).countP Act.isCommit := by
  cases takes with
  | stop | leave | rise | fail =>
    simp [List.filterMap_cons, Act.isCommit, Broker.Transport.closeReader]
  | park _ _ fetched | falter _ _ fetched | deliver _ _ fetched =>
    simpa [List.filterMap_cons, Act.isCommit] using Ledger.fetch_commits fetched
  | @lose _ b' _ _ _ fetched =>
    have same : b'.commits = b.commits := Ledger.fetch_commits fetched
    show b'.commits = _
    simpa [List.filterMap_cons, Act.isCommit] using same
  | accept _ _ committed =>
    simpa [Act.isCommit] using Ledger.commit_commits committed
  | reject _ _ withheld =>
    obtain ⟨-, -, rfl⟩ := Ledger.withhold_eq withheld
    simp [Act.isCommit]

end

namespace World

section
variable {w v : World Ledger α} {c : Option Ledger.Control} {p : Option (Record × Bool)}

theorem Quiet.actsOn (quiet : Quiet w v) (topic : String) : v.actsOn topic = w.actsOn topic :=
  quiet.filterMap fun _ said => actOn_of_said topic said

theorem Quiet.deeds (quiet : Quiet w v) : v.deeds = w.deeds :=
  quiet.filterMap fun _ said => deed_of_said said

theorem Quiet.publications (quiet : Quiet w v) : v.publications = w.publications :=
  quiet.filterMap fun _ said => publication_of_said said

theorem unsettled_kept (kept : KeptAll w.loops v.loops) (topic : String) :
    v.unsettled topic = w.unsettled topic := by
  have same := kept.map_eq (f := fun l => decide (l.topic.name = topic) && l.owes)
    fun l l' kept => by rw [kept.topic, kept.owes]
  have counted := congrArg (List.countP id) same
  rwa [List.countP_map, List.countP_map] at counted

/-- A turn settles what it takes from the account of its topic. -/
theorem settles_turned {k : Nat} {l : ReadLoop Ledger α} {t : Turn Ledger α} {topic : String}
    (settled : Settles (w.actsOn topic) 0 (w.unsettled topic)) (here : w.loops[k]? = some l)
    (takes : l.Takes k w.now w.broker t) :
    Settles ((w.turned k t).actsOn topic) 0 ((w.turned k t).unsettled topic) := by
  have account := takes_account takes
  have owed := countP_set_add (fun l : ReadLoop Ledger α => l.topic.name = topic && l.owes) here
    t.loop
  have acts : (w.turned k t).actsOn topic = w.actsOn topic ++
      if l.topic.name = topic then t.notes.filterMap Note.deed else [] := by
    rw [actsOn, notes_turned, List.filterMap_append, takes_actsOn takes]
    rfl
  have unsettled : (w.turned k t).unsettled topic =
      (w.loops.set k t.loop).countP fun l => l.topic.name = topic && l.owes := rfl
  rw [acts, unsettled]
  rw [World.unsettled] at settled
  simp only [(takes_akin takes).topic] at owed
  unfold Settles at settled account ⊢
  by_cases mine : l.topic.name = topic
  · simp only [mine, decide_true, Bool.true_and, List.countP_append, ↓reduceIte] at owed ⊢
    omega
  · simp only [mine, decide_false, Bool.false_and, Bool.toNat_false, Nat.add_zero,
      List.append_nil, ↓reduceIte] at owed ⊢
    rw [owed]
    exact settled

/-- What was handed over on a topic was committed, or failed to be, or was rejected, or is owed an
answer. Every move keeps this so. -/
theorem Entry.settles (entry : Entry w v c p) {topic : String}
    (settled : Settles (w.actsOn topic) 0 (w.unsettled topic)) :
    Settles (v.actsOn topic) 0 (v.unsettled topic) := by
  cases entry with
  | turn here takes eq => exact eq ▸ settles_turned settled here takes
  | put r ok _ loops noted =>
    have same : v.actsOn topic = w.actsOn topic := by
      rw [actsOn, noted, List.filterMap_append]
      exact List.append_nil _
    rwa [same, unsettled_kept loops]
  | subscribe untried _ _ loops quiet =>
    have same : v.unsettled topic = w.unsettled topic := by
      simp [unsettled, loops, ReadLoop.owes, untried.phase]
    rwa [quiet.actsOn, same]
  | probe _ loops quiet =>
    have same : v.unsettled topic = w.unsettled topic := by
      rw [unsettled, loops]
      rfl
    rwa [quiet.actsOn, same]
  | control _ _ loops quiet | other _ loops quiet => rwa [quiet.actsOn, unsettled_kept loops]

theorem Entry.loopsOn (entry : Entry w v c p) {topic : String} {k : Nat}
    (member : k ∈ w.loopsOn topic) : k ∈ v.loopsOn topic := by
  obtain ⟨l, here, rfl⟩ := mem_loopsOn.mp member
  refine mem_loopsOn.mpr ?_
  obtain ⟨t, takes, rfl⟩ | ⟨l', there, kept, -⟩ := entry.loop here
  · exact ⟨t.loop, turned_self here t, by rw [(takes_akin takes).topic]⟩
  · exact ⟨l', there, by rw [kept.topic]⟩

/-- The acts noted on a topic are those of its loops, and every move keeps this so. -/
theorem Entry.labelled (entry : Entry w v c p)
    (labelled : ∀ k topic a, .act k topic a ∈ w.notes → k ∈ w.loopsOn topic) :
    ∀ k topic a, .act k topic a ∈ v.notes → k ∈ v.loopsOn topic := by
  intro k topic a noted
  have silent (quiet : Quiet w v) : k ∈ v.loopsOn topic := by
    obtain ⟨said, eq, all⟩ := quiet
    rw [eq] at noted
    obtain old | new := List.mem_append.mp noted
    · exact entry.loopsOn (labelled k topic a old)
    · cases all _ new
  cases entry with
  | @turn j l t here takes eq =>
    rw [eq, notes_turned] at noted
    obtain old | new := List.mem_append.mp noted
    · exact Entry.loopsOn (.turn here takes eq) (labelled k topic a old)
    · obtain said | ⟨a', act⟩ := takes_notes takes new
      · cases said
      · obtain ⟨rfl, rfl, -⟩ := Note.act.inj act
        exact Entry.loopsOn (.turn here takes eq) (mem_loopsOn.mpr ⟨l, here, rfl⟩)
  | put r ok ledger loops eq =>
    rw [eq] at noted
    obtain old | new := List.mem_append.mp noted
    · exact Entry.loopsOn (.put r ok ledger loops eq) (labelled k topic a old)
    · cases List.mem_singleton.mp new
  | subscribe _ _ _ _ quiet | probe _ _ quiet | control _ _ _ quiet | other _ _ quiet =>
    exact silent quiet

/-- The ledger counts the attempts to commit, and every move keeps this so. -/
theorem Entry.commits (entry : Entry w v c p)
    (counted : w.broker.commits = w.deeds.countP Act.isCommit) :
    v.broker.commits = v.deeds.countP Act.isCommit := by
  cases entry with
  | @turn k l t here takes eq =>
    subst eq
    have more : (w.turned k t).deeds = w.deeds ++ t.notes.filterMap Note.deed := by
      rw [deeds, notes_turned, List.filterMap_append]
      rfl
    rw [more, List.countP_append, ← counted]
    exact takes_commit_count takes
  | put r ok ledger loops noted =>
    have same : v.deeds = w.deeds := by
      rw [deeds, noted, List.filterMap_append]
      exact List.append_nil _
    rw [same, ← counted, ledger]
    cases ok <;> rfl
  | subscribe _ _ ledger _ quiet | other ledger _ quiet => rw [quiet.deeds, ledger, counted]
  | probe ledger _ quiet =>
    rw [quiet.deeds, ledger, ← counted]
    rfl
  | control c ledger _ quiet => rw [quiet.deeds, ledger, Ledger.control_commits, counted]

theorem Entry.publications (entry : Entry w v c p) :
    v.publications = w.publications ++ p.toList := by
  cases entry with
  | @turn k l t here takes eq =>
    subst eq
    have none : t.notes.filterMap Note.publication = [] := by
      refine List.filterMap_eq_nil_iff.mpr fun n noted => ?_
      obtain said | ⟨a, rfl⟩ := takes_notes takes noted
      · exact publication_of_said said
      · rfl
    rw [World.publications, notes_turned, List.filterMap_append, none]
    rfl
  | put r ok _ _ noted =>
    rw [World.publications, noted, List.filterMap_append]
    rfl
  | subscribe _ _ _ _ quiet | probe _ _ quiet | control _ _ _ quiet | other _ _ quiet =>
    rw [quiet.publications]
    exact (List.append_nil _).symm

theorem Entry.written (entry : Entry w v c p) (topic : String) :
    (v.broker.log topic).length = (w.broker.log topic).length +
      p.toList.countP fun (r, ok) => ok && r.topic.name = topic := by
  have still (same : v.broker.log topic = w.broker.log topic) :
      (v.broker.log topic).length = (w.broker.log topic).length + 0 := by rw [same]; rfl
  cases entry with
  | turn here takes eq =>
    subst eq
    exact still (congrFun (takes_log takes) topic)
  | put r ok ledger =>
    cases ok with
    | false => simp [ledger]
    | true =>
      by_cases here : topic = r.topic.name
      · simp [ledger, Ledger.log_append, here]
      · simp [ledger, Ledger.log_append, here, Ne.symm here]
  | subscribe _ _ ledger | other ledger => exact still (by rw [ledger])
  | probe ledger => exact still (by rw [ledger]; rfl)
  | control c ledger => exact still (by rw [ledger, (Ledger.control_alike w.broker c).log])

end

theorem count_publications (w : World Ledger α) (topic : String) :
    w.count .published topic = w.publications.countP (fun (r, ok) => ok && r.topic.name = topic) ∧
      w.count .publishFailures topic =
        w.publications.countP (fun (r, ok) => !ok && r.topic.name = topic) := by
  constructor
  all_goals
    rw [count_eq_notes, World.publications, List.countP_filterMap]
    refine List.countP_congr fun n _ => ?_
    cases n with
    | published r ok => cases ok <;> simp [Note.counts, Note.publication]
    | act k t a =>
      rw [counts_act]
      cases a with
      | committed m r => cases r <;> simp [Act.metric, Note.publication]
      | delivered | answered | withheld | fetchFailed | rested | closed =>
        simp [Act.metric, Note.publication]
    | heard | line => simp [Note.counts, Note.publication]

theorem sum_commits (notes : List (Note α)) {topics : Finset String}
    (all : ∀ k topic a, .act k topic a ∈ notes → a.isCommit = true → topic ∈ topics) :
    ∑ topic ∈ topics, (notes.filterMap (·.actOn topic)).countP Act.isCommit =
      (notes.filterMap Note.deed).countP Act.isCommit := by
  simp only [List.countP_filterMap]
  refine sum_countP fun n noted => ?_
  cases n with
  | act k topic a =>
    have each (here : String) :
        ((((Note.act k topic a : Note α).actOn here).map Act.isCommit).getD false).toNat =
          if topic = here then a.isCommit.toNat else 0 := by
      by_cases same : topic = here <;> simp [Note.actOn, same]
    rw [Finset.sum_congr rfl fun here _ => each here, Finset.sum_ite_eq]
    cases commits : a.isCommit with
    | false => simp [commits]
    | true => simp [all k topic a noted commits, commits]
  | published | heard | line => simp [Note.actOn, Note.deed]

theorem mem_topics {w : World Ledger α} {k : Nat} {topic : String} {a : Act}
    (noted : .act k topic a ∈ w.notes) (commits : a.isCommit = true) : topic ∈ w.topics := by
  obtain ⟨m, metric⟩ : ∃ m, a.metric = some m := by
    cases a with
    | committed m r => cases r <;> exact ⟨_, rfl⟩
    | delivered | answered | withheld | fetchFailed | rested | closed => cases commits
  have counted : (m, topic) ∈ w.counters := by
    rw [counters, List.mem_eraseDups, List.mem_filterMap]
    simp only [notes, List.mem_reverse, List.mem_map] at noted
    obtain ⟨⟨time, n⟩, member, rfl⟩ := noted
    refine ⟨_, member, ?_⟩
    show (Note.act k topic a : Note α).counts = _
    rw [counts_act, metric]
    rfl
  exact List.mem_toFinset.mpr (List.mem_map_of_mem counted)

/-- What is committed on a topic, and what fails to be, is what is attempted to be. -/
theorem count_commits (w : World Ledger α) (topic : String) :
    w.count .committed topic + w.count .commitFailures topic =
      (w.actsOn topic).countP Act.isCommit := by
  rw [w.count_eq_actsOn (m := .committed) (by decide),
    w.count_eq_actsOn (m := .commitFailures) (by decide)]
  refine countP_add_countP (fun a => ?_) (w.actsOn topic)
  cases a with
  | committed m r => cases r <;> rfl
  | delivered | answered | withheld | fetchFailed | rested | closed => rfl

theorem sum_deliveries (notes : List (Note α)) {topic : String} {loops : Finset Nat}
    (labelled : ∀ k t a, .act k t a ∈ notes → (k ∈ loops ↔ t = topic)) :
    ∑ k ∈ loops, ((notes.filterMap (·.actOf k)).filterMap Act.delivery).length =
      (notes.filterMap (·.actOn topic)).countP (·.metric == some .consumed) := by
  simp only [List.length_filterMap_eq_countP, List.countP_filterMap]
  refine sum_countP fun n noted => ?_
  cases n with
  | act k t a =>
    have consumed : a.delivery.isSome = (a.metric == some .consumed) := by
      cases a with
      | committed m r => cases r <;> rfl
      | delivered | answered | withheld | fetchFailed | rested | closed => rfl
    have each (j : Nat) :
        ((((Note.act k t a : Note α).actOf j).map fun a => a.delivery.isSome).getD false).toNat =
          if k = j then (a.metric == some .consumed).toNat else 0 := by
      by_cases mine : k = j <;> simp [Note.actOf, mine, consumed]
    rw [Finset.sum_congr rfl fun j _ => each j, Finset.sum_ite_eq]
    have serves := labelled k t a noted
    by_cases here : t = topic <;> simp [Note.actOn, here, serves]
  | published | heard | line => simp [Note.actOn, Note.actOf]

end World

/-- Whether a call has come as far as the writer: its record was made, and its queue was open. -/
def Return.reached (d : Return ι) : Bool :=
  match d.call.record, d.outcome with
  | .error _, _ => false
  | .ok _, .error e => e ≠ closedQueue
  | .ok _, .ok _ => true

namespace Traffic

/-- The accounts of the subscribers and of the publishers. -/
structure AccountingLaw [DecidableEq α] (s : Traffic ι α) : Prop where
  /-- What was handed over on a topic was handed over by its loops. -/
  handed : ∀ topic, s.world.count .consumed topic =
    ∑ k ∈ s.world.loopsOn topic, (s.world.deliveries k).length
  /-- It was committed, or failed to be, or was rejected, or is owed an answer. -/
  consumed : ∀ topic, s.world.count .consumed topic =
    s.world.count .committed topic + s.world.count .commitFailures topic +
      s.world.rejections topic + s.world.unsettled topic
  /-- A loop owes at most one answer. -/
  pending : ∀ k l, s.world.loops[k]? = some l → ∃ pending : Option Message,
    s.world.deliveries k = (s.world.answers k).map (·.1) ++ pending.toList ∧
      pending.isSome = l.owes
  /-- The ledger counts all attempts to commit, on all topics. -/
  commits : s.world.broker.commits = ∑ topic ∈ s.world.topics,
    (s.world.count .committed topic + s.world.count .commitFailures topic)
  published : ∀ topic, s.world.count .published topic = (s.world.broker.log topic).length
  /-- Every call that has come as far as the writer is counted once. -/
  written : ∀ topic, s.returned.countP (fun d => d.reached && d.call.topic.name = topic) =
    s.world.count .published topic + s.world.count .publishFailures topic
  /-- No other call is counted: neither one without a record, nor one to a closed queue. -/
  unmade : ∀ (c : Call ι) e, c.record = .error e → s.world.call c = (.error e, s.world)
  closed : ∀ (c : Call ι) r, c.record = .ok r →
    (∀ queue, s.world.queues[c.queue]? = some queue → queue.writer = none) →
    s.world.call c = (.error closedQueue, s.world)
  /-- Every loop has its turns in the run, and tells its subscriber what it has to in them. -/
  told : ∀ k, (∃ turns, Chronicle k s turns) ∧
    ∀ turns, Chronicle k s turns → ReportLaw s.world k turns

section
variable [DecidableEq α] {s t : Traffic ι α}

theorem Move.entry (move : Move s t) : ∃ c p, s.world.Entry t.world c p := by
  cases move with
  | ask c =>
    refine ⟨none, none, ?_⟩
    unfold Traffic.ask
    split <;> exact .refl s.world
  | @write _ _ c r =>
    obtain ⟨ok, entry⟩ := World.put_entry s.world c.queue r
    exact ⟨none, _, entry⟩
  | step st possible => exact ⟨none, none, World.step_entry possible⟩
  | command c silent => exact ⟨_, none, World.silent_entry s.world silent⟩

theorem ran_after (ran : Ran s) {attempts : List (World.Attempt Ledger α)}
    (silent : ∀ a ∈ attempts, ∀ c, a = .command c → c.publishes = false) :
    Ran { s with world := s.world.after attempts } := by
  induction attempts generalizing s with
  | nil => exact ran
  | cons a attempts ih =>
    have first : Ran { s with world := s.world.attempt a } := by
      cases a with
      | command c => exact ran.next (.command c (silent _ List.mem_cons_self c rfl))
      | step st =>
        cases possible : s.world.step st with
        | none =>
          have same : s.world.attempt (.step st) = s.world := by simp [World.attempt, possible]
          rw [same]
          exact ran
        | some v =>
          have taken : s.world.attempt (.step st) = v := by simp [World.attempt, possible]
          rw [taken]
          exact ran.next (.step st possible)
    exact ih first fun a member => silent a (List.mem_cons_of_mem _ member)

theorem ran_settled (ran : Ran s) (topic : String) :
    Settles (s.world.actsOn topic) 0 (s.world.unsettled topic) := by
  induction ran with
  | start => rfl
  | next _ move ih =>
    obtain ⟨c, p, entry⟩ := move.entry
    exact entry.settles ih

theorem ran_labelled (ran : Ran s) :
    ∀ k topic a, .act k topic a ∈ s.world.notes → k ∈ s.world.loopsOn topic := by
  induction ran with
  | start =>
    intro k topic a noted
    cases noted
  | next _ move ih =>
    obtain ⟨c, p, entry⟩ := move.entry
    exact entry.labelled ih

theorem ran_commits (ran : Ran s) : s.world.broker.commits = s.world.deeds.countP Act.isCommit := by
  induction ran with
  | start => rfl
  | next _ move ih =>
    obtain ⟨c, p, entry⟩ := move.entry
    exact entry.commits ih

theorem ran_published (ran : Ran s) (topic : String) :
    s.world.count .published topic = (s.world.broker.log topic).length := by
  rw [(s.world.count_publications topic).1]
  induction ran with
  | start => rfl
  | next _ move ih =>
    obtain ⟨c, p, entry⟩ := move.entry
    rw [entry.publications, List.countP_append, ih, entry.written]

theorem ran_covered (ran : Ran s) : s.world.Covered := by
  induction ran with
  | start => exact ⟨by simp, by simp⟩
  | next before move ih =>
    obtain ⟨published, change⟩ := move.change
    exact change.covered (ran_orderly before) ih

end

section
variable {w : World Ledger α}

/-- A call that is refused before it has come to the writer is not counted as one that has. -/
theorem reached_of_refused {c : Call ι} {e : Error} {time : Nat} (refused : w.draft c = .error e) :
    Return.reached ⟨c, time, .error e⟩ = false := by
  unfold World.draft at refused
  unfold Return.reached
  cases made : c.record with
  | error => rfl
  | ok r =>
    simp only [made] at refused
    unfold World.writer at refused
    split at refused
    · cases refused
    · obtain rfl := Except.error.inj refused
      simp

/-- What the writer refuses is not refused for want of a queue. -/
theorem reached_of_put (w : World Ledger α) {c : Call ι} {r : Record} (made : c.record = .ok r)
    (q time : Nat) :
    Return.reached ⟨c, time, (w.put q r).1.map fun _ => r⟩ = true := by
  unfold Return.reached World.put Ledger.write
  rw [made]
  cases (w.inHand q).closed <;> cases w.broker.failWrites <;> rfl

theorem put_publications (w : World Ledger α) (q : Nat) (r : Record) :
    (w.put q r).2.publications = w.publications ++ [(r, (w.put q r).1.isOk)] := by
  obtain eq | ⟨e, eq⟩ := w.put_eq q r
  · rw [eq]
    show (w.note (.published r true)).publications = _
    rw [World.publications, World.notes_note, List.filterMap_append]
    rfl
  · rw [eq, World.publications, World.notes_note, List.filterMap_append]
    rfl

end

section
variable [DecidableEq α] [DecidableEq ι] {s : Traffic ι α}

theorem ran_written (ran : Ran s) (topic : String) :
    s.returned.countP (fun d => d.reached && d.call.topic.name = topic) =
      s.world.publications.countP fun p => p.1.topic.name = topic := by
  have silent {s : Traffic ι α} {v : World Ledger α} {c : Option Ledger.Control}
      (entry : s.world.Entry v c none) : v.publications = s.world.publications := by
    rw [entry.publications]
    exact List.append_nil _
  induction ran with
  | start => rfl
  | @next s t ran move ih =>
    cases move with
    | ask c =>
      cases draft : s.world.draft c with
      | error e => simpa [ask_refused draft, reached_of_refused draft] using ih
      | ok r => simpa [ask_drafted draft] using ih
    | @write before after c r here =>
      have made : c.record = .ok r := (ran_lawful ran).drafted (c, r) (by simp [here])
      have reached := reached_of_put s.world made c.queue s.world.now
      simp only [Traffic.write]
      rw [put_publications, List.countP_append, List.countP_append, ih]
      simp [reached, (Call.record_eq_ok made).1]
    | step st possible => exact (silent (World.step_entry possible)).symm ▸ ih
    | command c unpublished =>
      exact (silent (World.silent_entry s.world unpublished)).symm ▸ ih

/-- **Accounts are in order.** Whatever is published, subscribed, cancelled, closed or made to fail,
what is counted adds up, and every subscriber is told of what fails, once. -/
theorem accounting_law (ran : Ran s) : AccountingLaw s := by
  have settled := ran_settled ran
  constructor
  case handed =>
    intro topic
    rw [s.world.count_eq_actsOn (m := .consumed) (by decide), World.actsOn]
    refine Eq.trans ?_ <| Finset.sum_congr rfl fun k _ => by
      rw [World.deliveries, World.acts_eq_notes]
    refine (World.sum_deliveries _ fun k t a noted => ?_).symm
    have own := ran_labelled ran k t a noted
    refine ⟨fun member => ?_, fun same => same ▸ own⟩
    obtain ⟨l, here, rfl⟩ := World.mem_loopsOn.mp own
    obtain ⟨l', here', rfl⟩ := World.mem_loopsOn.mp member
    rw [Option.some.inj (here.symm.trans here')]
  case consumed =>
    intro topic
    rw [s.world.count_eq_actsOn (m := .consumed) (by decide),
      s.world.count_eq_actsOn (m := .committed) (by decide),
      s.world.count_eq_actsOn (m := .commitFailures) (by decide)]
    exact settled topic
  case pending =>
    intro k l here
    obtain ⟨topic, group, c, ⟨l', here', -, -, steady⟩, -⟩ :=
      (ran_covered ran).loops k (List.getElem?_eq_some_iff.mp here).1
    obtain rfl : l' = l := Option.some.inj (here'.symm.trans here)
    exact steady.course.pending
  case commits =>
    rw [Finset.sum_congr rfl fun topic _ => s.world.count_commits topic]
    refine (ran_commits ran).trans ?_
    exact (World.sum_commits _ fun _ _ _ noted => World.mem_topics noted).symm
  case published => exact ran_published ran
  case written =>
    intro topic
    obtain ⟨published, failed⟩ := s.world.count_publications topic
    rw [ran_written ran, published, failed]
    refine (countP_add_countP (fun p => ?_) s.world.publications).symm
    obtain ⟨r, ok⟩ := p
    cases ok <;> simp
  case unmade =>
    intro c e unmade
    rw [World.call_eq, World.draft, unmade]
  case closed =>
    intro c r made closed
    have refused : s.world.writer c.queue = .error closedQueue := by
      unfold World.writer
      cases here : s.world.queues[c.queue]? with
      | none => rfl
      | some queue => simp [closed queue here]
    rw [World.call_eq, World.draft, made]
    simp only [refused]
    rfl
  case told =>
    exact fun k => ⟨(ran_iff_chronicle k).mp ran, fun turns chronicle => chronicle.reportLaw⟩

/-- A fetch that fails, a message that is rejected once and is not committed when it is accepted,
and the end of the queue. -/
def troubles : List (World.Attempt Ledger String) :=
  [.command (.subscribe 0 World.orders "audit" "auditor"
      (.direct ⟨fun n _ => { accept := n != 0 }⟩)),
    .command (.control (.failFetches 1)), .command (.control (.failCommits 1)),
    .step (.loop 0), .step (.wait 100), .step (.loop 0), .step (.loop 0), .step (.loop 0),
    .step (.wait 100), .step (.loop 0), .step (.loop 0), .step (.loop 0), .command (.close 0)]

/-- One of two calls writes before the troubles, the other one when its queue is closed, and a call
after that is refused. -/
theorem accounting_law_troubles :
    ∃ s : Traffic Bool String, AccountingLaw s ∧
      s.returned.map (·.reached) = [true, true, false] ∧
      (s.world.count .published "orders", s.world.count .publishFailures "orders") = (1, 1) ∧
      s.world.count .consumed "orders" = 2 ∧ s.world.rejections "orders" = 1 ∧
      s.world.count .committed "orders" = 0 ∧ s.world.count .commitFailures "orders" = 1 ∧
      s.world.unsettled "orders" = 0 ∧ s.world.broker.commits = 1 ∧
      ((s.world.acts 0).filterMap Act.report).map (fun (m, e) => (m.map (·.offset), e.kind)) =
        [(none, .fetch), (some 0, .commit)] := by
  have written := ran_rivals.next (.write [_] [] rfl)
  have silent : ∀ a ∈ troubles, ∀ c, a = .command c → c.publishes = false := by
    simp [troubles, World.Command.publishes]
  have refused := (ran_after written silent).next (.write [] [] rfl)
  have last := refused.next (.ask ⟨true, 0, World.orders, .payload (.text "c")⟩
    fun u underway => absurd (show u ∈ [] from underway) List.not_mem_nil)
  exact ⟨_, accounting_law last, by decide, by decide, by decide, by decide, by decide, by decide,
    by decide, by decide, by decide⟩

end

end Traffic

end Queue

end Courier
