import Courier.Proofs.Broker.Streams
import Courier.Proofs.Queue.Cancellation
import Courier.Proofs.Queue.Handout
import Courier.Proofs.Queue.Journal

/-!
# Loops whose stream has come to its end

All streams that there are can be ended at once, whatever their loops are at:

* `takes_cut`: a loop whose stream was cut is handed nothing and does not wait;
* `Severed`, `Attached`: the loops concerned and those made later, in any run;
* `Awaited.again`: what no subscriber of the group has accepted is handed to the next one;
* `StreamLaw`: the law of queues and their loops;
* `stream_law`: it holds in every run, and so does that of all readers of a ledger.
-/

namespace Courier.Queue

open Broker (Ledger)

variable {α : Type}

section
variable {k now : Nat} {b : Ledger} {l : ReadLoop Ledger α} {t : Turn Ledger α}

theorem takes_epoch (takes : l.Takes k now b t) : t.broker.epoch = b.epoch ∧
    t.loop.reader.epoch = l.reader.epoch ∧
    (l.reader.closed = true → t.loop.reader.closed = true) ∧
    (t.loop.Running → t.loop.reader.closed = l.reader.closed) := by
  cases takes with
  | stop | leave => exact ⟨rfl, rfl, fun _ => rfl, nofun⟩
  | rise | fail => exact ⟨rfl, rfl, id, fun _ => rfl⟩
  | park _ _ fetched | falter _ _ fetched | deliver _ _ fetched =>
    obtain ⟨closed, epoch, -, same⟩ := Ledger.fetch_keeps fetched
    exact ⟨same, epoch, closed.trans, fun _ => closed⟩
  | lose _ _ fetched =>
    obtain ⟨-, epoch, -, same⟩ := Ledger.fetch_keeps fetched
    exact ⟨same, epoch, fun _ => rfl, nofun⟩
  | accept _ _ committed =>
    obtain rfl := Ledger.commit_reader committed
    exact ⟨Ledger.commit_epoch committed, rfl, id, fun _ => rfl⟩
  | reject _ _ withheld =>
    obtain ⟨-, rfl, rfl⟩ := Ledger.withhold_eq withheld
    exact ⟨rfl, rfl, id, fun _ => rfl⟩

/-- A loop whose stream was cut is handed nothing and does not wait. -/
theorem takes_cut (cut : l.reader.Cut b) (takes : l.Takes k now b t) :
    t.loop.reader.Cut t.broker ∧ t.loop.phase ≠ .parked ∧
      (t.notes.filterMap (·.actOf k)).filterMap Act.delivery = [] := by
  obtain ⟨same, epoch, closed, -⟩ := takes_epoch takes
  refine ⟨cut.imp closed fun past => by omega, ?_⟩
  obtain ⟨b₁, fails⟩ := Ledger.fetch_of_cut cut
  have unanswered {f : Broker.Fetched} {r : Ledger.Reader} {b' : Ledger}
      (fetched : Ledger.fetch l.reader b = (f, r, b')) : b.cutOff = f :=
    (Prod.mk.inj (fails.symm.trans fetched)).1
  cases takes with
  | park _ _ fetched | deliver _ _ fetched =>
    have given := unanswered fetched
    unfold Ledger.cutOff at given
    split at given <;> cases given
  | stop | leave | rise | fail | lose | falter | accept | reject =>
    refine ⟨?_, by simp [List.filterMap_cons, Act.delivery]⟩
    intro parked
    cases parked

end

namespace World

/-- The stream of loop `k` was cut, and the loop does not wait for a message. -/
def Severed (w : World Ledger α) (k : Nat) : Prop :=
  ∃ l, w.loops[k]? = some l ∧ l.reader.Cut w.broker ∧ l.phase ≠ .parked

/-- While loop `k` runs, its stream is open. -/
def Attached (w : World Ledger α) (k : Nat) : Prop :=
  ∃ l, w.loops[k]? = some l ∧ (l.Running → l.reader.Open w.broker)

/-- No loop reads from a stream to come, and none goes on when it has closed its reader. -/
def Dated (w : World Ledger α) : Prop :=
  ∀ l ∈ w.loops, l.reader.epoch ≤ w.broker.epoch ∧ (l.Running → l.reader.closed = false)

section
variable {w v : World Ledger α} {c : Option Ledger.Control} {p : Option (Record × Bool)} {k : Nat}

/-- Only the end of all streams begins an epoch. -/
theorem Entry.epoch (entry : Entry w v c p) : w.broker.epoch ≤ v.broker.epoch ∧
    (c ≠ some .closeReaders → v.broker.epoch = w.broker.epoch) := by
  have still (same : v.broker.epoch = w.broker.epoch) : w.broker.epoch ≤ v.broker.epoch ∧
      (c ≠ some .closeReaders → v.broker.epoch = w.broker.epoch) :=
    ⟨Nat.le_of_eq same.symm, fun _ => same⟩
  cases entry with
  | turn here takes eq =>
    subst eq
    exact still (takes_epoch takes).1
  | put r ok ledger =>
    refine still ?_
    rw [ledger]
    cases ok <;> rfl
  | subscribe _ _ ledger | other ledger => exact still (by rw [ledger])
  | probe ledger => exact still (by rw [ledger]; rfl)
  | control c ledger =>
    cases c with
    | closeReaders =>
      rw [ledger]
      exact ⟨Nat.le_succ _, absurd rfl⟩
    | failProbe | failWrites | failCommits | failFetches =>
      refine still ?_
      rw [ledger]
      rfl

/-- A stream that was cut stays so, and nothing comes from it. -/
theorem Entry.severed (entry : Entry w v c p) (severed : Severed w k) :
    Severed v k ∧ v.deliveries k = w.deliveries k := by
  obtain ⟨l, here, cut, awake⟩ := severed
  obtain ⟨t, takes, rfl⟩ | ⟨l', there, kept, acts⟩ := entry.loop here
  · obtain ⟨cut', awake', none⟩ := takes_cut cut takes
    refine ⟨⟨t.loop, turned_self here t, cut', awake'⟩, ?_⟩
    rw [deliveries, acts_turned, List.filterMap_append, none, List.append_nil]
    rfl
  · refine ⟨⟨l', there, ?_, ?_⟩, by rw [deliveries, acts]; rfl⟩
    · rw [kept.reader]
      exact cut.imp id fun past => Nat.lt_of_lt_of_le past entry.epoch.1
    · intro parked
      obtain same | ⟨waited, -⟩ | ⟨m, accept, due, -, held⟩ := kept.phase
      · exact awake (same.symm.trans parked)
      · exact awake waited
      · simp [parked] at held

/-- An open stream stays open while its loop runs and streams are not ended. -/
theorem Entry.attached (entry : Entry w v c p) (others : c ≠ some .closeReaders)
    (attached : Attached w k) : Attached v k := by
  have same := entry.epoch.2 others
  obtain ⟨l, here, connected⟩ := attached
  obtain ⟨t, takes, rfl⟩ | ⟨l', there, kept, -⟩ := entry.loop here
  · refine ⟨t.loop, turned_self here t, fun running => ?_⟩
    obtain ⟨-, epoch, -, closed⟩ := takes_epoch takes
    obtain ⟨isOpen, current⟩ := connected (takes_running takes)
    exact ⟨(closed running).trans isOpen, epoch.trans (current.trans same.symm)⟩
  · refine ⟨l', there, fun running => ?_⟩
    obtain ⟨isOpen, current⟩ := connected (kept.running.mp running)
    rw [kept.reader]
    exact ⟨isOpen, current.trans same.symm⟩

theorem Entry.dated (entry : Entry w v c p) (dated : Dated w) : Dated v := by
  have grown := entry.epoch.1
  intro l' member
  obtain ⟨k, there⟩ := List.mem_iff_getElem?.mp member
  cases before : w.loops[k]? with
  | some l =>
    obtain ⟨known, unclosed⟩ := dated l (List.mem_of_getElem? before)
    obtain ⟨t, takes, rfl⟩ | ⟨l₁, there₁, kept, -⟩ := entry.loop before
    · obtain rfl : t.loop = l' := Option.some.inj ((turned_self before t).symm.trans there)
      obtain ⟨-, epoch, -, closed⟩ := takes_epoch takes
      rw [epoch]
      exact ⟨Nat.le_trans known grown, fun running =>
        (closed running).trans (unclosed (takes_running takes))⟩
    · obtain rfl : l₁ = l' := Option.some.inj (there₁.symm.trans there)
      rw [kept.reader]
      exact ⟨Nat.le_trans known grown, fun running => unclosed (kept.running.mp running)⟩
  | none =>
    obtain ⟨-, reader, ledger⟩ := entry.made before there
    rw [reader, ledger]
    exact ⟨Nat.le_refl _, fun _ => rfl⟩

end

end World

/-- Whole rounds have handed over no entry beyond the offset to which they have led. -/
theorem Course.reached {b : Ledger} {topic : String} {c : Int} {acts : List Act} {p : Point}
    (h : Course b topic c acts p) :
    ∀ m ∈ acts.filterMap Act.delivery, m.offset ≤ p.offset := by
  induction h with
  | start => nofun
  | falter _ e ih => simpa [List.filterMap_cons, Act.delivery] using ih
  | accept _ _ place _ ih =>
    intro m member
    simp only [List.filterMap_append, List.mem_append] at member
    obtain old | new := member
    · have := ih m old
      simp only
      omega
    · obtain rfl : m = _ := by simpa [List.filterMap_cons, Act.delivery] using new
      simp only
      omega
  | reject _ _ place _ ih =>
    intro m member
    simp only [List.filterMap_append, List.mem_append] at member
    obtain old | new := member
    · exact ih m old
    · obtain rfl : m = _ := by simpa [List.filterMap_cons, Act.delivery] using new
      exact Int.le_of_eq place

/-- A loop has handed over all that stands between its start and where it is, and nothing from
beyond. -/
theorem OnCourse.passed {b : Ledger} {c : Int} {l : ReadLoop Ledger α} {acts : List Act}
    (h : OnCourse b c l acts) : ∃ p : Int, (∀ m ∈ acts.filterMap Act.delivery, m.offset ≤ p) ∧
      (∀ o, c ≤ o → o < p → ∀ m, b.at? l.topic.name o = some m →
        m ∈ acts.filterMap Act.delivery) ∧ c ≤ p ∧
      (l.phase = .ready ∨ l.phase = .parked → l.reader.cursor = p) := by
  -- All below the point of the course were accepted, and so they were handed over.
  have between {done : List Act} {p : Point} (course : Course b l.topic.name c done p) (o : Int)
      (start : c ≤ o) (past : o < p.offset) (m : Message)
      (entry : b.at? l.topic.name o = some m) : m ∈ done.filterMap Act.delivery := by
    obtain ⟨m', entry', given⟩ := course.accepted start past
    obtain rfl : m' = m := Option.some.inj (entry'.symm.trans entry)
    exact List.mem_filterMap.mpr ⟨_, given.subset List.mem_cons_self, rfl⟩
  have started {done : List Act} {p : Point} (course : Course b l.topic.name c done p) :
      c ≤ p.offset := by
    rw [course.offset_eq]
    omega
  cases h with
  | between _ course cursor =>
    exact ⟨_, course.reached, between course, started course, fun _ => cursor⟩
  | inHand phase acts course _ place =>
    subst acts
    refine ⟨_, ?_, ?_, started course, ?_⟩
    · intro m member
      rw [List.filterMap_append] at member
      obtain old | new := List.mem_append.mp member
      · exact course.reached m old
      · obtain rfl : m = _ := by simpa [Act.delivery] using new
        exact Int.le_of_eq place
    · intro o start past m entry
      rw [List.filterMap_append]
      exact List.mem_append_left _ (between course o start past m entry)
    · intro free
      obtain ⟨stage, held⟩ | failed := phase
      · obtain free | free := free <;> simp [held] at free
      · obtain free | free := free <;> simp [failed] at free
  | gone phase acts course =>
    subst acts
    refine ⟨_, ?_, ?_, started course, ?_⟩
    · intro m member
      exact course.reached m (by simpa [Act.delivery] using member)
    · intro o start past m entry
      rw [List.filterMap_append]
      exact List.mem_append_left _ (between course o start past m entry)
    · intro free
      obtain free | free := free <;> simp [phase] at free

namespace World

theorem reachable_committed [DecidableEq α] {w : World Ledger α} (reach : Reachable {} w)
    {topic group : String} {c : Int} (committed : w.broker.committed topic group = some c) :
    0 ≤ c := by
  induction reach generalizing c with
  | start => simp at committed
  | @next w v before move ih =>
    obtain ⟨published, change⟩ := move_change move
    have covered := reachable_covered before
    obtain ⟨same, -⟩ | ⟨k, l, m, commits⟩ := change.commits covered
    · exact ih (same ▸ committed)
    · have sets := congrFun (congrFun commits.broker topic) group
      rw [committed, Ledger.committed_setCommitted] at sets
      split at sets
      · obtain ⟨c₀, steady⟩ := covered.steady commits.here
        obtain ⟨due, phase⟩ := commits.phase
        obtain ⟨_, p, -, -, entry, place, -⟩ := steady.course.held phase
        obtain ⟨i, offset, -⟩ := Ledger.at?_eq_some.mp entry
        have := Option.some.inj sets
        omega
      · exact ih sets.symm

/-- Loop `k` hands over the message, and does so before it goes past it. -/
structure Again (v : World Ledger α) (k : Nat) (m : Message) : Prop where
  inOrder : ∀ m' ∈ v.deliveries k, m.offset < m'.offset → m ∈ v.deliveries k
  /-- A loop that waits for a message has handed it over. -/
  waits : ∀ l, v.loops[k]? = some l → l.phase = .parked → m ∈ v.deliveries k
  /-- Until it has, it hands over something when it fetches, and comes no further than that. -/
  onward : ∀ l, v.loops[k]? = some l → l.phase = .ready → l.cancelled = false →
    v.broker.fetchFaults = 0 → m ∉ v.deliveries k →
    ∃ u m', v.loopStep k = some u ∧ u.deliveries k = v.deliveries k ++ [m'] ∧
      m'.offset ≤ m.offset

theorem Follows.again {v : World Ledger α} {k : Nat} {topic : Topic} {group : String} {c : Int}
    (follows : Follows v k topic group c) (attached : Attached v k) (numbered : v.broker.Numbered)
    (nonneg : 0 ≤ c) {m : Message} (entry : v.broker.at? topic.name m.offset = some m)
    (start : c ≤ m.offset) : Again v k m := by
  obtain ⟨l, here, rfl, rfl, steady⟩ := follows
  obtain ⟨p, reached, given, started, cursor⟩ := steady.course.passed
  have only {l' : ReadLoop Ledger α} (also : v.loops[k]? = some l') : l' = l :=
    Option.some.inj (also.symm.trans here)
  obtain ⟨i, place, found⟩ := Ledger.at?_eq_some.mp entry
  have bound := (List.getElem?_eq_some_iff.mp found).1
  constructor
  case inOrder =>
    intro m' member past
    have := reached m' member
    exact given m.offset start (by omega) m entry
  case waits =>
    intro l' also parked
    obtain rfl := only also
    have none := Ledger.at?_eq_none.mp (steady.parked parked)
    rw [cursor (.inr parked)] at none
    exact given m.offset start (by omega) m entry
  case onward =>
    intro l' also phase running faultless fresh
    obtain rfl := only also
    -- What was not handed over is not behind the cursor, so that there is something to fetch.
    have ahead : p ≤ m.offset := by
      by_contra past
      exact fresh (given m.offset start (by omega) m entry)
    obtain ⟨j, rfl⟩ : ∃ j : Nat, p = j := ⟨p.toNat, by omega⟩
    have less : j < (v.broker.log l'.topic.name).length := by omega
    have next : v.broker.at? l'.reader.topic l'.reader.cursor =
        some (v.broker.log l'.topic.name)[j] := by
      rw [steady.topic, cursor (.inl phase)]
      exact Ledger.at?_eq_some.mpr ⟨j, rfl, List.getElem?_eq_getElem less⟩
    obtain ⟨l₁, here₁, connected⟩ := attached
    obtain rfl := only here₁
    have ⟨isOpen, current⟩ := connected (by rw [ReadLoop.Running, phase]; rfl)
    have fetched := Ledger.fetch_of_open faultless isOpen current next
    obtain ⟨u, step, more⟩ := deliveries_step also phase running fetched
    have offset := (numbered _ j _ (List.getElem?_eq_getElem less)).2
    exact ⟨u, _, step, more, by omega⟩

/-- What holds of loop `k` from the moment it has ended. -/
structure EndedLaw [DecidableEq α] (w : World Ledger α) (k : Nat) : Prop where
  /-- It is not started again. -/
  final : w.loopStep k = none ∧ ∀ v, w.Leads v → v.acts k = w.acts k ∧
    ∃ l, v.loops[k]? = some l ∧ l.phase.isFinished = true
  /-- It is not counted. -/
  uncounted : ∀ q queue, w.queues[q]? = some queue → w.subscriptions q =
    (queue.registry.entries.filter fun (_, j) => j ≠ k && !w.loopFinished j).length

/-- The law of loop `k` of the world `w`, in which all streams were ended. -/
structure SeveredLaw [DecidableEq α] (w v : World Ledger α) (k : Nat) : Prop where
  /-- No message is handed over any more, and none is waited for. -/
  undelivered : v.deliveries k = w.deliveries k
  restless : ∀ l, v.loops[k]? = some l → l.phase ≠ .parked
  /-- With a fault before it, a fetch fails and the loop rests. -/
  falters : ∀ l, v.loops[k]? = some l → l.phase = .ready → l.cancelled = false →
    v.broker.fetchFaults ≠ 0 → ∃ u l' due, v.loopStep k = some u ∧ u.loops[k]? = some l' ∧
      l'.phase = .resting due ∧ u.acts k = v.acts k ++
        [.fetchFailed Ledger.brokerUnavailable, .rested (pause l.failures).toNat]
  /-- Without one, the loop closes its reader and ends. -/
  ends : ∀ l, v.loops[k]? = some l → l.phase = .ready → v.broker.fetchFaults = 0 →
    ∃ u l', v.loopStep k = some u ∧ u.loops[k]? = some l' ∧ l'.phase = .ended ∧
      l'.reader.closed = true ∧ u.acts k = v.acts k ++ [.closed] ∧
      (l.cancelled = false → u.notes = v.notes ++
        [l.streamNote .error Ledger.readerClosed.message, .act k l.topic.name .closed])
  /-- An answer to the message in hand is settled by the next step. -/
  carried : ∀ l m accept due, v.loops[k]? = some l →
    l.phase = .handling m (.answered accept due) → due ≤ v.now →
    ∃ u a rest, v.loopStep k = some u ∧ u.acts k = v.acts k ++ .answered m accept :: a :: rest ∧
      a.settlement = some (m, accept) ∧ (accept = true → v.broker.commitFaults = 0 →
        u.broker.committed l.topic.name l.group = some (m.offset + 1))
  /-- When no message is in hand, all that were handed over have been answered, and each answer has
  been settled. -/
  settled : ∀ l, v.loops[k]? = some l → (∀ m stage, l.phase ≠ .handling m stage) →
    l.phase ≠ .failed → (v.answers k).map (·.1) = w.deliveries k ∧
      v.settlements k = v.answers k
  ended : ∀ l, v.loops[k]? = some l → l.phase.isFinished = true → EndedLaw v k

/-- The law of loop `k`, which was made in the world `w`, while no streams are ended. -/
structure NewcomerLaw (w v : World Ledger α) (k : Nat) (topic : Topic) (group : String) :
    Prop where
  /-- It starts at the offset of its group, and goes on from there. -/
  start : DeliveryLaw v k topic group (w.groupOffset topic group)
  attached : Attached v k
  /-- What was handed to the group and not accepted by it is handed over again. -/
  again : ∀ j l m, w.loops[j]? = some l → l.topic = topic → l.group = group →
    m ∈ w.deliveries j → ¬ Vouched w topic.name group m.offset → Again v k m

/-- The law of streams, for queues and their loops. -/
structure StreamLaw [DecidableEq α] (w : World Ledger α) : Prop where
  /-- To end all streams changes no log and no offset. -/
  alike : w.broker.Alike (w.control .closeReaders).broker
  /-- Loops that wait are woken, and no other is touched. -/
  woken : ∀ (k : Nat) (l : ReadLoop Ledger α), w.loops[k]? = some l →
    (w.control .closeReaders).loops[k]? =
      some (match l.phase with
        | .parked => { l with phase := .ready }
        | _ => l)
  severed : ∀ k < w.loops.length, ∀ v, (w.control .closeReaders).Leads v → SeveredLaw w v k
  /-- A loop that has closed its reader has ended. -/
  closed : ∀ (k : Nat) (l : ReadLoop Ledger α), w.loops[k]? = some l → l.reader.closed = true →
    EndedLaw w k
  newcomer : ∀ q topic group label subscriber id made,
    w.subscribe q topic group label subscriber = (.ok id, made) →
    ∀ attempts, (∀ a ∈ attempts, a.controls ≠ some .closeReaders) →
      NewcomerLaw w (made.after attempts) w.loops.length topic group

section
variable {w v : World Ledger α} {k : Nat}

/-- When all streams are ended, every loop that there is loses its own. -/
theorem Dated.severed (dated : Dated w) (bound : k < w.loops.length) :
    Severed (w.control .closeReaders) k := by
  have here := List.getElem?_eq_getElem bound
  have known := (dated _ (List.mem_of_getElem? here)).1
  obtain ⟨l, there, kept⟩ := (wake_kept w).of_some here
  have woken : (w.control .closeReaders).loops[k]? = some l := there
  refine ⟨l, woken, .inr ?_, wake_awake w l (List.mem_of_getElem? there)⟩
  rw [kept.reader]
  exact Nat.lt_succ_of_le known

/-- A loop that is ready and whose stream was cut ends, or it rests after a fault. -/
theorem Severed.fetches {l : ReadLoop Ledger α} (here : v.loops[k]? = some l)
    (cut : l.reader.Cut v.broker) (phase : l.phase = .ready) :
    (l.cancelled = false → v.broker.fetchFaults ≠ 0 → ∃ u l' due, v.loopStep k = some u ∧
      u.loops[k]? = some l' ∧ l'.phase = .resting due ∧ u.acts k = v.acts k ++
        [.fetchFailed Ledger.brokerUnavailable, .rested (pause l.failures).toNat]) ∧
    (v.broker.fetchFaults = 0 → ∃ u l', v.loopStep k = some u ∧ u.loops[k]? = some l' ∧
      l'.phase = .ended ∧ l'.reader.closed = true ∧ u.acts k = v.acts k ++ [.closed] ∧
      (l.cancelled = false → u.notes = v.notes ++
        [l.streamNote .error Ledger.readerClosed.message, .act k l.topic.name .closed])) := by
  obtain ⟨b, fetched⟩ := Ledger.fetch_of_cut cut
  constructor
  · intro running faulty
    rw [Ledger.cutOff, if_neg faulty] at fetched
    have takes : l.Takes k v.now v.broker _ := .falter phase running fetched
    refine ⟨_, _, _, takes_loopStep here takes, turned_self here _, rfl, ?_⟩
    rw [acts_turned]
    simp
  · intro faultless
    rw [Ledger.cutOff, if_pos faultless] at fetched
    cases cancelled : l.cancelled with
    | true =>
      have takes : l.Takes k v.now v.broker _ := .stop (.inl phase) cancelled
      refine ⟨_, _, takes_loopStep here takes, turned_self here _, rfl, rfl, ?_, nofun⟩
      rw [acts_turned]
      simp [List.filterMap_cons]
    | false =>
      have takes : l.Takes k v.now v.broker _ := .lose phase cancelled fetched
      refine ⟨_, _, takes_loopStep here takes, turned_self here _, rfl, rfl, ?_, fun _ => ?_⟩
      · rw [acts_turned]
        simp [List.filterMap_cons]
      · exact notes_turned ..

theorem settles_of_steady {c : Int} {l : ReadLoop Ledger α} (here : v.loops[k]? = some l)
    (steady : Steady v.broker c l (v.acts k)) {m : Message} {accept : Bool} {due : Nat}
    (phase : l.phase = .handling m (.answered accept due)) (elapsed : due ≤ v.now) :
    ∃ u a rest, v.loopStep k = some u ∧ u.acts k = v.acts k ++ .answered m accept :: a :: rest ∧
      a.settlement = some (m, accept) ∧ (accept = true → v.broker.commitFaults = 0 →
        u.broker.committed l.topic.name l.group = some (m.offset + 1)) := by
  obtain ⟨t, takes, eq⟩ := settle_takes v k l phase elapsed
  obtain ⟨a, rest, notes, settles⟩ := takes_settles takes phase
  refine ⟨v.turned k t, a, rest, takes_loopStep here takes, by rw [acts_turned, notes], settles, ?_⟩
  rintro rfl faultless
  cases takes with
  | @accept reader b m' due' r held _ committed =>
    obtain ⟨rfl, -⟩ : m' = m ∧ due' = due := by simpa [held] using phase
    have success : Ledger.commit l.reader m' v.broker = _ := committed
    simp only [Ledger.commit, faultless, ne_eq, not_true_eq_false, ↓reduceIte,
      Prod.mk.injEq] at success
    obtain ⟨-, -, rfl⟩ := success
    show (v.broker.setCommitted l.reader.topic l.reader.group (m'.offset + 1)).committed
      l.topic.name l.group = _
    rw [Ledger.committed_setCommitted, if_pos ⟨steady.topic.symm, steady.group.symm⟩]
  | reject held => simp [held] at phase
  | stop free => obtain free | free := free <;> simp [free] at phase
  | park free | deliver free | lose free | falter free | leave free | rise free | fail free =>
    simp [free] at phase

theorem subscriptions_of_finished {l : ReadLoop Ledger α} (here : v.loops[k]? = some l)
    (finished : l.phase.isFinished = true) {q : Nat} {queue : MessageQueue Ledger}
    (found : v.queues[q]? = some queue) : v.subscriptions q =
      (queue.registry.entries.filter fun (_, j) => j ≠ k && !v.loopFinished j).length := by
  simp only [subscriptions, found]
  congr 1
  apply List.filter_congr
  rintro ⟨id, j⟩ -
  by_cases mine : j = k
  · subst mine
    simp [loopFinished, here, finished]
  · simp [mine]

variable [DecidableEq α]

theorem reachable_dated (reach : Reachable {} w) : Dated w := by
  induction reach with
  | start =>
    intro l member
    cases member
  | next _ move ih =>
    obtain ⟨c, p, entry⟩ := move_entry move
    exact entry.dated ih

theorem Severed.leads (severed : Severed w k) (later : w.Leads v) :
    Severed v k ∧ v.deliveries k = w.deliveries k := by
  induction later with
  | refl => exact ⟨severed, rfl⟩
  | tail _ move ih =>
    obtain ⟨severed, same⟩ := ih
    obtain ⟨c, p, entry⟩ := move_entry move
    obtain ⟨severed', same'⟩ := entry.severed severed
    exact ⟨severed', same'.trans same⟩

theorem Attached.after (attached : Attached w k) {attempts : List (Attempt Ledger α)}
    (others : ∀ a ∈ attempts, a.controls ≠ some .closeReaders) :
    Attached (w.after attempts) k := by
  induction attempts generalizing w with
  | nil => exact attached
  | cons a attempts ih =>
    obtain ⟨p, entry⟩ := attempt_entry w a
    have first := entry.attached (others a List.mem_cons_self) attached
    exact ih first fun a member => others a (List.mem_cons_of_mem _ member)

theorem ended_law {l : ReadLoop Ledger α} (here : w.loops[k]? = some l)
    (finished : l.phase.isFinished = true) : EndedLaw w k := by
  refine ⟨⟨loopStep_of_finished here finished, ?_⟩, ?_⟩
  · intro v later
    obtain ⟨l', there, stays⟩ := later.changes.stays here
    obtain ⟨phase, -, acts⟩ := stays finished
    exact ⟨acts, l', there, phase ▸ finished⟩
  · exact fun q queue => subscriptions_of_finished here finished

theorem severed_law (reach : Reachable {} w) (bound : k < w.loops.length)
    (later : (w.control .closeReaders).Leads v) : SeveredLaw w v k := by
  have ended : Reachable {} (w.control .closeReaders) :=
    reach.next (.command (w := w) (.control Ledger.Control.closeReaders))
  obtain ⟨⟨l₀, here, cut, awake⟩, same⟩ := ((reachable_dated reach).severed bound).leads later
  have undelivered : v.deliveries k = w.deliveries k := same
  obtain ⟨topic, group, c, follows, -⟩ := (reachable_covered (ended.leads later)).loops k
    (List.getElem?_eq_some_iff.mp here).1
  have law := follows.deliveryLaw
  obtain ⟨_, here', rfl, rfl, steady⟩ := follows
  obtain rfl := Option.some.inj (here'.symm.trans here)
  have only {l : ReadLoop Ledger α} (also : v.loops[k]? = some l) : l = _ :=
    Option.some.inj (also.symm.trans here)
  constructor
  case undelivered => exact undelivered
  case restless =>
    intro l also
    obtain rfl := only also
    exact awake
  case falters =>
    intro l also phase
    obtain rfl := only also
    exact (Severed.fetches also cut phase).1
  case ends =>
    intro l also phase
    obtain rfl := only also
    exact (Severed.fetches also cut phase).2
  case carried =>
    intro l m accept due also phase elapsed
    obtain rfl := only also
    exact settles_of_steady also steady phase elapsed
  case settled =>
    intro l also free alive
    exact ⟨(law.idle l also free alive).trans undelivered, law.settled⟩
  case ended => exact fun l also finished => ended_law also finished

theorem newcomer_law (reach : Reachable {} w) {q : Nat} {topic : Topic} {group label : String}
    {subscriber : Subscriber α} {id : SubscriptionId} {made : World Ledger α}
    (subscribed : w.subscribe q topic group label subscriber = (.ok id, made))
    {attempts : List (Attempt Ledger α)}
    (others : ∀ a ∈ attempts, a.controls ≠ some .closeReaders) :
    NewcomerLaw w (made.after attempts) w.loops.length topic group := by
  have orderly := reachable_orderly reach
  have covered := reachable_covered reach
  have later : made.Leads (made.after attempts) := leads_iff_after.mpr ⟨attempts, rfl⟩
  have before : Reachable {} made := by
    have step := reach.next (.command (.subscribe q topic group label subscriber))
    rwa [obey, subscribed] at step
  have follows := later.changes.subscribed orderly subscribed
  have attached : Attached (made.after attempts) w.loops.length := by
    refine Attached.after ?_ others
    obtain ⟨isDebug, ledger, loops, -⟩ := subscribe_ok subscribed
    refine ⟨_, by rw [loops]; exact List.getElem?_concat_length, fun _ => ?_⟩
    rw [ledger]
    exact Ledger.open_openReader ..
  have grows : w.broker.log topic.name <+: (made.after attempts).broker.log topic.name := by
    obtain ⟨isDebug, ledger, -⟩ := subscribe_ok subscribed
    rw [← ledger]
    exact later.changes.grows topic.name
  refine ⟨follows.deliveryLaw, attached, ?_⟩
  intro j l m here serves member given unaccepted
  have entry : w.broker.at? topic.name m.offset = some m := by
    obtain ⟨topic', group', c', follows', -⟩ :=
      covered.loops j (List.getElem?_eq_some_iff.mp here).1
    have law := follows'.deliveryLaw
    obtain ⟨l', here', rfl, -⟩ := law.serves
    obtain rfl := Option.some.inj (here'.symm.trans here)
    rw [← serves]
    exact law.entry m given
  obtain ⟨i, place, -⟩ := Ledger.at?_eq_some.mp entry
  have start : 0 ≤ w.groupOffset topic group ∧ w.groupOffset topic group ≤ m.offset := by
    unfold groupOffset
    cases committed : w.broker.committed topic.name group with
    | none => exact ⟨Int.le_refl _, by simp [place]⟩
    | some c =>
      refine ⟨reachable_committed reach committed, ?_⟩
      by_contra past
      have past : m.offset < c := Int.lt_of_not_ge past
      exact unaccepted (covered.committed _ _ c committed m.offset (by omega) past)
  have numbered := (reachable_orderly (before.leads later)).numbered
  exact follows.again attached numbered start.1 (Ledger.at?_of_prefix grows entry) start.2

/-- **To end all streams is final for the readers that there are, and for no others.** They get no
message any more and their loops end, with the message in hand dealt with; a reader that is opened
later starts where its group has left off. -/
theorem stream_law (reach : Reachable {} w) (requests : List Ledger.Request) :
    StreamLaw w ∧ (({} : Ledger.Desk).after requests).StreamLaw := by
  refine ⟨?_, (Ledger.Desk.sound_after requests).streamLaw⟩
  constructor
  case alike => exact ⟨rfl, rfl⟩
  case woken =>
    intro k l here
    show (w.wake.loops)[k]? = _
    rw [wake, List.getElem?_map, here]
    rfl
  case severed => exact fun k bound v later => severed_law reach bound later
  case closed =>
    intro k l here closed
    refine ended_law here ?_
    by_contra running
    have running : l.Running := by simpa [ReadLoop.Running] using running
    have unclosed := (reachable_dated reach l (List.mem_of_getElem? here)).2 running
    simp [closed] at unclosed
  case newcomer =>
    intro q topic group label subscriber id made subscribed attempts others
    exact newcomer_law reach subscribed others

/-- All streams are ended while a subscriber is busy. Its answer is committed and its loop ends, and
the next subscription of the group goes on behind the message. -/
theorem stream_law_engaged :
    let w := opened.after engaged
    let v := w.after [.command (.control Ledger.Control.closeReaders), .step (.wait 50),
      .step (.loop 0), .step (.loop 0)]
    let u := v.after [.command (.subscribe 0 orders "audit" "auditor"
      (.direct ⟨fun _ _ => { accept := true }⟩)), .step (.loop 1)]
    StreamLaw w ∧ StreamLaw v ∧ (({} : Ledger.Desk).after []).StreamLaw ∧
      (w.deliveries 0).map (·.offset) = [0] ∧ w.broker.committed "orders" "audit" = none ∧
      w.subscriptions 0 = 1 ∧ (v.deliveries 0).map (·.offset) = [0] ∧
      v.broker.committed "orders" "audit" = some 1 ∧ v.subscriptions 0 = 0 ∧
      (u.deliveries 1).map (·.offset) = [1] := by
  intro w v u
  have reach : Reachable {} w := reachable_opened.leads (leads_iff_after.mpr ⟨engaged, rfl⟩)
  have later : Reachable {} v := reach.leads (leads_iff_after.mpr ⟨_, rfl⟩)
  obtain ⟨law, desk⟩ := stream_law reach []
  obtain ⟨law', -⟩ := stream_law later []
  exact ⟨law, law', desk, by decide, by decide, by decide, by decide, by decide, by decide,
    by decide⟩

end

end World

end Courier.Queue
