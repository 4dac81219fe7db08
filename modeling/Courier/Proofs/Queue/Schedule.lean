import Courier.Proofs.Queue.Run
import Courier.Proofs.Queue.Spared
import Mathlib.Algebra.Group.Nat.Defs

/-!
# When a loop rests, and how long

A loop rests after a fetch that failed and after a message that was not accepted,
and never otherwise:

* `failuresIn`, `rejectionsIn`: the failures in a row, read off what was done;
* `Sequel`: what each act has to be followed by;
* `Reckoned`: the counts of a loop stand for these numbers, and every act has had
  its sequel;
* `Waits`: a loop that rests does nothing before it is due, unless it is
  cancelled, and may fetch as soon as it is;
* `retry_law`: what holds of every loop in every run, over any broker.
-/

namespace Courier.Queue

open Broker (Ledger Transport)

variable {T α : Type} [Transport T]

section
variable {last counted : Act → Bool} {acts : List Act}

/-- How many acts of one kind there are after the last one of another kind. -/
def since (last counted : Act → Bool) (acts : List Act) : Nat :=
  (acts.reverse.takeWhile fun a => !last a).countP counted

theorem since_concat (a : Act) : since last counted (acts ++ [a]) =
    if last a then 0 else since last counted acts + if counted a then 1 else 0 := by
  unfold since
  rw [List.reverse_append, List.reverse_singleton, List.singleton_append, List.takeWhile_cons]
  cases last a with
  | true => rfl
  | false => simp [List.countP_cons]

theorem since_append (more : List Act) : since last counted (acts ++ more) =
    more.foldl (fun n a => if last a then 0 else n + if counted a then 1 else 0)
      (since last counted acts) := by
  induction more using List.reverseRecOn with
  | nil => simp
  | append_singleton more a ih =>
    rw [← List.append_assoc, since_concat, ih, List.foldl_append, List.foldl_cons, List.foldl_nil]

theorem since_le_append {more : List Act} (free : ∀ a ∈ more, last a = false) :
    since last counted acts ≤ since last counted (acts ++ more) := by
  induction more using List.reverseRecOn with
  | nil => simp
  | append_singleton more a ih =>
    have before := ih fun a' within => free a' (List.mem_append_left _ within)
    have here : last a = false := free a (by simp)
    rw [← List.append_assoc, since_concat, here, if_neg Bool.false_ne_true]
    omega

end

/-- The fetches that failed since the last message was fetched. -/
def failuresIn (acts : List Act) : Nat :=
  since (· matches .delivered _) (· matches .fetchFailed _) acts

/-- The messages that were not accepted since the last one that was. -/
def rejectionsIn (acts : List Act) : Nat :=
  since (· matches .answered _ true) (· matches .answered _ false) acts

theorem backoff_eq (n : Nat) : backoff n = min (100 * 2 ^ n) 5000 := by
  unfold backoff
  rw [Nat.shiftLeft_eq]
  by_cases few : n ≤ 6
  · rw [Nat.min_eq_left few]
  · have many : 2 ^ 6 ≤ 2 ^ n := Nat.pow_le_pow_right (by decide) (by omega)
    have capped : min n 6 = 6 := by omega
    rw [capped]
    omega

theorem failuresIn_le {acts more : List Act} (free : ∀ m, .delivered m ∉ more) :
    failuresIn acts ≤ failuresIn (acts ++ more) := by
  apply since_le_append
  intro a within
  cases a with
  | delivered m => exact absurd within (free m)
  | _ => rfl

theorem rejectionsIn_le {acts more : List Act} (free : ∀ m, .answered m true ∉ more) :
    rejectionsIn acts ≤ rejectionsIn (acts ++ more) := by
  apply since_le_append
  intro a within
  cases a with
  | answered m accept =>
    cases accept with
    | true => exact absurd within (free m)
    | false => rfl
  | _ => rfl

/-- What is reckoned in words comes to what the numbers come to. -/
structure Exact (count : UInt32) (n : Nat) : Prop where
  shift : (shift count).toNat < 64
  shifted : ((1 : UInt64) <<< Queue.shift count).toNat = 2 ^ min n 6
  product : (saturatingMul 100 (1 <<< Queue.shift count)).toNat = 100 * 2 ^ min n 6
  pause : (pause count).toNat = min (100 * 2 ^ n) 5000
  next : (oneMore count).toNat = min (n + 1) (2 ^ 32 - 1)

theorem Counts.exact {count : UInt32} {n : Nat} (h : Counts count n) : Exact count n := by
  have few : min count.toNat 6 = min n 6 := by
    rw [h]
    omega
  have shifted : ((1 : UInt64) <<< shift count).toNat = 2 ^ min n 6 := by
    rw [toNat_shifted, few, Nat.one_shiftLeft]
  constructor
  case shift =>
    rw [toNat_shift]
    omega
  case shifted => exact shifted
  case product =>
    have fits := product_lt count
    rw [saturatingMul, if_pos fits, UInt64.toNat_mul, shifted]
    rw [shifted] at fits
    exact Nat.mod_eq_of_lt fits
  case pause => exact h.pause.trans (backoff_eq n)
  case next =>
    rw [toNat_oneMore, h]
    omega

/-- What follows an act, and what a rest follows, with the length of every rest. -/
def Sequel (before : List Act) (a : Act) (after : List Act) : Prop :=
  match a with
  | .fetchFailed _ =>
    ∃ rest, after = .rested (min (100 * 2 ^ failuresIn before) 5000) :: rest
  | .answered m true => ∃ r rest, after = .committed m r :: rest
  | .answered m false => ∃ r rest,
    after = .withheld m r :: .rested (min (100 * 2 ^ rejectionsIn before) 5000) :: rest
  | .rested _ => ∃ done,
    (∃ e, before = done ++ [.fetchFailed e]) ∨
      ∃ m r, before = done ++ [.answered m false, .withheld m r]
  | _ => True

theorem Sequel.append {before after : List Act} {a : Act} (h : Sequel before a after)
    (more : List Act) : Sequel before a (after ++ more) := by
  unfold Sequel at h ⊢
  split
  · obtain ⟨rest, rfl⟩ := h
    exact ⟨rest ++ more, rfl⟩
  · obtain ⟨r, rest, rfl⟩ := h
    exact ⟨r, rest ++ more, rfl⟩
  · obtain ⟨r, rest, rfl⟩ := h
    exact ⟨r, rest ++ more, rfl⟩
  · exact h
  · trivial

/-- Every act has had its sequel, after what was done before. -/
def Followed (before : List Act) : List Act → Prop
  | [] => True
  | a :: after => Sequel before a after ∧ Followed (before ++ [a]) after

namespace Followed

variable {before acts : List Act}

theorem append {more : List Act} (h : Followed before acts)
    (round : Followed (before ++ acts) more) : Followed before (acts ++ more) := by
  induction acts generalizing before with
  | nil => simpa using round
  | cons a acts ih =>
    obtain ⟨sequel, rest⟩ := h
    refine ⟨sequel.append more, ih rest ?_⟩
    simpa using round

theorem sequel {earlier after : List Act} {a : Act} (h : Followed before (earlier ++ a :: after)) :
    Sequel (before ++ earlier) a after := by
  induction earlier generalizing before with
  | nil =>
    rw [List.append_nil]
    exact h.1
  | cons b earlier ih =>
    have := ih h.2
    simpa using this

theorem fetch_rest {earlier after : List Act} {e : Error} {ms : Nat}
    (h : Followed [] (earlier ++ .fetchFailed e :: .rested ms :: after)) :
    ms = min (100 * 2 ^ failuresIn earlier) 5000 := by
  obtain ⟨rest, eq⟩ : Sequel ([] ++ earlier) (.fetchFailed e) _ := h.sequel
  simpa using (List.cons.inj eq).1

theorem rejection_rest {earlier after : List Act} {m m' : Message} {r : Except Error Unit}
    {ms : Nat}
    (h : Followed [] (earlier ++ .answered m false :: .withheld m' r :: .rested ms :: after)) :
    ms = min (100 * 2 ^ rejectionsIn earlier) 5000 := by
  obtain ⟨r', rest, eq⟩ : Sequel ([] ++ earlier) (.answered m false) _ := h.sequel
  simpa using (List.cons.inj (List.cons.inj eq).2).1

theorem rest_length {ms : Nat} (h : Followed [] acts) (within : .rested ms ∈ acts) :
    ∃ n, ms = min (100 * 2 ^ n) 5000 := by
  obtain ⟨earlier, after, rfl⟩ := List.append_of_mem within
  obtain ⟨done, ⟨e, rfl⟩ | ⟨m, r, rfl⟩⟩ : Sequel ([] ++ earlier) (.rested ms) after := h.sequel
  · rw [List.append_assoc] at h
    exact ⟨_, h.fetch_rest⟩
  · rw [List.append_assoc] at h
    exact ⟨_, h.rejection_rest⟩

/-- While no message comes in, the rests after failed fetches do not get shorter. -/
theorem fetch_rests_climb {earlier mid after : List Act} {e e' : Error} {ms ms' : Nat}
    (h : Followed [] (earlier ++ .fetchFailed e :: .rested ms ::
      (mid ++ .fetchFailed e' :: .rested ms' :: after)))
    (none : ∀ m, .delivered m ∉ mid) : ms ≤ ms' := by
  have later : Followed [] ((earlier ++ .fetchFailed e :: .rested ms :: mid) ++
      .fetchFailed e' :: .rested ms' :: after) := by simpa using h
  have fewer : failuresIn earlier ≤ failuresIn (earlier ++ .fetchFailed e :: .rested ms :: mid) :=
    failuresIn_le (by simpa using none)
  rw [h.fetch_rest, later.fetch_rest, ← backoff_eq, ← backoff_eq]
  exact backoff_mono fewer

/-- While no message is accepted, the rests after rejections do not get shorter. -/
theorem rejection_rests_climb {earlier mid after : List Act} {m n m' n' : Message}
    {r r' : Except Error Unit} {ms ms' : Nat}
    (h : Followed [] (earlier ++ .answered m false :: .withheld n r :: .rested ms ::
      (mid ++ .answered m' false :: .withheld n' r' :: .rested ms' :: after)))
    (none : ∀ m, .answered m true ∉ mid) : ms ≤ ms' := by
  have later : Followed [] ((earlier ++ .answered m false :: .withheld n r :: .rested ms :: mid) ++
      .answered m' false :: .withheld n' r' :: .rested ms' :: after) := by simpa using h
  have fewer : rejectionsIn earlier ≤
      rejectionsIn (earlier ++ .answered m false :: .withheld n r :: .rested ms :: mid) :=
    rejectionsIn_le (by simpa using none)
  rw [h.rejection_rest, later.rejection_rest, ← backoff_eq, ← backoff_eq]
  exact backoff_mono fewer

end Followed

section
variable {k now : Nat} {b : T} {l l' : ReadLoop T α} {t : Turn T α} {acts : List Act}

/-- The counts of a loop stand for its failures in a row, and every act has had its sequel. -/
structure Reckoned (l : ReadLoop T α) (acts : List Act) : Prop where
  followed : Followed [] acts
  failures : Counts l.failures (failuresIn acts)
  rejections : Counts l.rejections (rejectionsIn acts)

theorem Reckoned.kept (h : Reckoned l acts) (kept : Kept l l') : Reckoned l' acts := by
  obtain ⟨followed, failures, rejections⟩ := h
  have same := kept.rest
  constructor
  case followed => exact followed
  case failures => rw [same]; exact failures
  case rejections => rw [same]; exact rejections

theorem Reckoned.untried (h : l.Untried) : Reckoned l [] :=
  ⟨trivial, h.failures ▸ .zero, h.rejections ▸ .zero⟩

theorem Reckoned.turn (h : Reckoned l acts) (takes : l.Takes k now b t) :
    Reckoned t.loop (acts ++ t.notes.filterMap (·.actOf k)) := by
  obtain ⟨followed, failures, rejections⟩ := h
  have closing : Followed [] (acts ++ [.closed]) := followed.append ⟨trivial, trivial⟩
  cases takes with
  | stop | leave | lose =>
    constructor
    case followed => simpa [List.filterMap_cons] using closing
    case failures => simpa [List.filterMap_cons, failuresIn, since_append] using failures
    case rejections => simpa [List.filterMap_cons, rejectionsIn, since_append] using rejections
  | rise | park | fail =>
    constructor
    case followed => simpa using followed
    case failures => simpa using failures
    case rejections => simpa using rejections
  | @falter _ _ e =>
    have round : Followed [] (acts ++
        [.fetchFailed e, .rested (min (100 * 2 ^ failuresIn acts) 5000)]) :=
      followed.append ⟨⟨[], rfl⟩, ⟨acts, .inl ⟨e, rfl⟩⟩, trivial⟩
    constructor
    case followed => simpa [List.filterMap_cons, failures.exact.pause] using round
    case failures =>
      simpa [List.filterMap_cons, failuresIn, since_append] using failures.oneMore
    case rejections => simpa [List.filterMap_cons, rejectionsIn, since_append] using rejections
  | @deliver _ _ m _ said =>
    have round : Followed [] (acts ++ [.delivered m]) := followed.append ⟨trivial, trivial⟩
    have made : (.act k l.topic.name (.delivered m) ::
        (l.receivedNotes m ++ said.map (noteOf l.label))).filterMap (·.actOf k) =
        [.delivered m] := by simp
    rw [made]
    constructor
    case followed => exact round
    case failures => simpa [failuresIn, since_append] using Counts.zero
    case rejections => simpa [rejectionsIn, since_append] using rejections
  | @accept _ _ m _ r =>
    have round : Followed [] (acts ++ [.answered m true, .committed m r]) :=
      followed.append ⟨⟨r, [], rfl⟩, trivial, trivial⟩
    constructor
    case followed => simpa using round
    case failures => simpa [failuresIn, since_append] using failures
    case rejections => simpa [rejectionsIn, since_append] using Counts.zero
  | @reject _ _ m _ r =>
    have round : Followed [] (acts ++ [.answered m false, .withheld m r,
        .rested (min (100 * 2 ^ rejectionsIn acts) 5000)]) :=
      followed.append ⟨⟨r, [], rfl⟩, trivial, ⟨acts, .inr ⟨m, r, by simp⟩⟩, trivial⟩
    constructor
    case followed => simpa [rejections.exact.pause] using round
    case failures => simpa [failuresIn, since_append] using failures
    case rejections => simpa [rejectionsIn, since_append] using rejections.oneMore

end

namespace World

variable {w v : World T α} {k : Nat}

/-- Loop `k` is reckoned; while it is still to come, it has done nothing. -/
structure Accounts (w : World T α) (k : Nat) : Prop where
  here : ∀ l, w.loops[k]? = some l → Reckoned l (w.acts k)
  absent : w.loops[k]? = none → w.acts k = []

theorem Accounts.spared (h : Accounts w k) (spared : Spared k w v) : Accounts v k := by
  constructor
  case here =>
    intro l' there
    rw [spared.acts]
    cases before : w.loops[k]? with
    | none =>
      rw [h.absent before]
      exact .untried (spared.new before l' there)
    | some l =>
      obtain ⟨l'', also, kept⟩ := spared.loop l before
      obtain rfl : l' = l'' := Option.some.inj (there.symm.trans also)
      exact (h.here l before).kept kept
  case absent =>
    intro absent
    rw [spared.acts]
    apply h.absent
    rw [Option.eq_none_iff_forall_ne_some]
    intro l before
    obtain ⟨l', there, -⟩ := spared.loop l before
    simp [absent] at there

theorem Accounts.turn (h : Accounts w k) {l : ReadLoop T α} {t : Turn T α}
    (here : w.loops[k]? = some l) (takes : l.Takes k w.now w.broker t) :
    Accounts (w.turned k t) k := by
  have there := turned_self here t
  constructor
  case here =>
    intro l' also
    obtain rfl : t.loop = l' := Option.some.inj (there.symm.trans also)
    rw [acts_turned]
    exact (h.here l here).turn takes
  case absent =>
    intro absent
    simp [there] at absent

/-- In every run the counts of every loop stand for its failures in a row. -/
theorem reachable_accounts [DecidableEq α] {broker : T} (reach : Reachable broker w) (k : Nat) :
    Accounts w k := by
  induction reach with
  | start =>
    constructor
    case here => simp
    case absent => exact fun _ => rfl
  | next _ move ih =>
    obtain ⟨l, t, here, takes, rfl⟩ | spared := move_turn move k
    · exact ih.turn here takes
    · exact ih.spared spared

/-- What may have become of a loop that rested in `w` until `due`. -/
inductive Rested (w v : World T α) (k due : Nat) : Prop where
  | still {l : ReadLoop T α} (here : v.loops[k]? = some l) (phase : l.phase = .resting due)
    (acts : v.acts k = w.acts k)
  | elapsed (elapsed : due ≤ v.now)
  | left {l : ReadLoop T α} (here : v.loops[k]? = some l) (phase : l.phase = .ended)
    (cancelled : l.cancelled = true) (acts : v.acts k = w.acts k ++ [.closed])

theorem Rested.spared {u : World T α} {due : Nat} (h : Rested w v k due) (spared : Spared k v u) :
    Rested w u k due := by
  cases h with
  | still here phase acts =>
    obtain ⟨l', there, kept⟩ := spared.loop _ here
    have stays := kept.stays (by simp [phase]) (by simp [phase])
    exact .still there (stays.trans phase) (spared.acts.trans acts)
  | elapsed elapsed => exact .elapsed (Nat.le_trans elapsed spared.now)
  | left here phase cancelled acts =>
    obtain ⟨l', there, kept⟩ := spared.loop _ here
    have stays := kept.stays (by simp [phase]) (by simp [phase])
    exact .left there (stays.trans phase) (kept.cancelled cancelled) (spared.acts.trans acts)

/-- A loop that rests turns only to its end, when it is cancelled, or on, when it is due. -/
theorem Rested.turn {due : Nat} (h : Rested w v k due) {l : ReadLoop T α} {t : Turn T α}
    (here : v.loops[k]? = some l) (takes : l.Takes k v.now v.broker t) :
    Rested w (v.turned k t) k due := by
  have there := turned_self here t
  cases h with
  | elapsed elapsed => exact .elapsed elapsed
  | still also phase acts =>
    obtain rfl := Option.some.inj (here.symm.trans also)
    cases takes with
    | leave _ cancelled =>
      refine .left there rfl cancelled ?_
      rw [acts_turned, acts]
      simp
    | rise held _ elapsed =>
      obtain rfl : due = _ := by simpa [phase] using held
      exact .elapsed elapsed
    | stop free => obtain free | free := free <;> simp [phase] at free
    | park free | deliver free | lose free | falter free | accept free | reject free | fail free =>
      simp [phase] at free
  | left also phase =>
    obtain rfl := Option.some.inj (here.symm.trans also)
    cases takes with
    | stop free => obtain free | free := free <;> simp [phase] at free
    | park free | deliver free | lose free | falter free | accept free | reject free | leave free
    | rise free | fail free =>
      simp [phase] at free

theorem loopStep_ready {l : ReadLoop T α} (here : w.loops[k]? = some l) (phase : l.phase = .ready)
    (running : l.cancelled = false) : w.loopStep k = some (w.fetch k l) := by
  simp [loopStep, here, phase, running]

section
variable [DecidableEq α]

theorem Leads.rested {due : Nat} (later : w.Leads v) {l : ReadLoop T α}
    (here : w.loops[k]? = some l) (phase : l.phase = .resting due) : Rested w v k due := by
  induction later with
  | refl => exact .still here phase rfl
  | tail _ move ih =>
    obtain ⟨l, t, here, takes, rfl⟩ | spared := move_turn move k
    · exact ih.turn here takes
    · exact ih.spared spared

/-- Loop `k` rests until `due`. -/
structure Waits (w : World T α) (k due : Nat) : Prop where
  standing : ∃ l, w.loops[k]? = some l ∧ l.phase = .resting due
  /-- Until then it does nothing, unless it is cancelled, and then it ends. -/
  patient : ∀ v, w.Leads v → v.now < due → ∃ l, v.loops[k]? = some l ∧
    ((l.phase = .resting due ∧ v.acts k = w.acts k ∧
        (l.cancelled = false → v.loopStep k = none) ∧
        (l.cancelled = true → v.loopStep k = some (v.endLoop k l))) ∨
      (l.phase = .ended ∧ l.cancelled = true ∧ v.acts k = w.acts k ++ [.closed]))
  /-- From then on it may fetch at any time, unless it is cancelled. -/
  prompt : ∀ v l, w.Leads v → v.loops[k]? = some l → l.phase = .resting due →
    l.cancelled = false → due ≤ v.now → ∃ u, v.loopStep k = some u ∧ u.now = v.now ∧
      u.acts k = v.acts k ∧ u.loopStep k = some (u.fetch k { l with phase := .ready })
  /-- If nothing else happens, it may fetch right then. -/
  punctual : ∀ l, w.loops[k]? = some l → l.cancelled = false → w.now ≤ due → ∃ v l',
    w.Leads v ∧ v.now = due ∧ v.acts k = w.acts k ∧ v.loopStep k = some (v.fetch k l')

theorem waits_of_resting {l : ReadLoop T α} {due : Nat} (here : w.loops[k]? = some l)
    (phase : l.phase = .resting due) : Waits w k due := by
  -- The rest is over in one step, and the next one fetches.
  have onward (v : World T α) (l : ReadLoop T α) (here : v.loops[k]? = some l)
      (phase : l.phase = .resting due) (running : l.cancelled = false) (elapsed : due ≤ v.now) :
      ∃ u, v.loopStep k = some u ∧ u.now = v.now ∧ u.acts k = v.acts k ∧
        u.loopStep k = some (u.fetch k { l with phase := .ready }) := by
    have bound : k < v.loops.length := (List.getElem?_eq_some_iff.mp here).1
    refine ⟨v.setLoop k { l with phase := .ready }, ?_, rfl, rfl, ?_⟩
    · simp [loopStep, here, phase, running, elapsed]
    · exact loopStep_ready (List.getElem?_set_self bound) rfl running
  constructor
  case standing => exact ⟨l, here, phase⟩
  case patient =>
    intro v later early
    cases later.rested here phase with
    | still there phase acts =>
      refine ⟨_, there, .inl ⟨phase, acts, ?_, ?_⟩⟩
      · intro running
        have : ¬ due ≤ v.now := by omega
        simp [loopStep, there, phase, running, this]
      · intro cancelled
        simp [loopStep, there, phase, cancelled]
    | elapsed elapsed => omega
    | left there ended cancelled acts => exact ⟨_, there, .inr ⟨ended, cancelled, acts⟩⟩
  case prompt =>
    intro v l' later there phase running elapsed
    exact onward v l' there phase running elapsed
  case punctual =>
    intro l' also running early
    obtain rfl := Option.some.inj (here.symm.trans also)
    have passed : w.Leads { w with now := w.now + (due - w.now) } :=
      .single (.step (.wait (due - w.now)) rfl)
    have elapsed : w.now + (due - w.now) = due := by omega
    obtain ⟨u, step, now, acts, fetches⟩ := onward { w with now := w.now + (due - w.now) } l here
      phase running (Nat.le_of_eq elapsed.symm)
    exact ⟨u, _, passed.tail (.step (.loop k) step), now.trans elapsed, acts, fetches⟩

/-- In a step of its own, loop `k` does something, and then it rests for some milliseconds. -/
def Rests (w : World T α) (k : Nat) (acts : List Act) (ms : Nat) : Prop :=
  ∃ v, w.loopStep k = some v ∧ v.now = w.now ∧ v.acts k = w.acts k ++ acts ++ [.rested ms] ∧
    Waits v k (w.now + ms)

/-- The retry schedule of loop `k`, which is at `l`. -/
structure RetryLaw (w : World T α) (k : Nat) (l : ReadLoop T α) : Prop where
  /-- Whatever it has done had its sequel: it rested after each failure, for the time that is due
  then, and at no other time. -/
  schedule : ∀ before a after, w.acts k = before ++ a :: after → Sequel before a after
  faltering : ∀ e, l.phase = .ready → l.cancelled = false →
    (Transport.fetch l.reader w.broker).1 = .transient e →
    Rests w k [.fetchFailed e] (min (100 * 2 ^ failuresIn (w.acts k)) 5000)
  rejecting : ∀ m due, l.phase = .handling m (.answered false due) → due ≤ w.now →
    Rests w k [.answered m false, .withheld m (Transport.withhold l.reader m w.broker).1]
      (min (100 * 2 ^ rejectionsIn (w.acts k)) 5000)
  /-- After a message that is accepted, whether it can be committed or not, it may fetch at once. -/
  accepting : ∀ m due, l.phase = .handling m (.answered true due) → due ≤ w.now → ∃ v l',
    w.loopStep k = some v ∧ v.now = w.now ∧ v.loops[k]? = some l' ∧ l'.phase = .ready ∧
      v.acts k = w.acts k ++
        [.answered m true, .committed m (Transport.commit l.reader m w.broker).1] ∧
      (l.cancelled = false → v.loopStep k = some (v.fetch k l'))
  resting : ∀ due, l.phase = .resting due → Waits w k due
  fetchesClimb : ∀ {earlier mid after : List Act} {e e' : Error} {ms ms' : Nat},
    w.acts k = earlier ++ .fetchFailed e :: .rested ms ::
      (mid ++ .fetchFailed e' :: .rested ms' :: after) →
    (∀ m, .delivered m ∉ mid) → ms ≤ ms'
  rejectionsClimb : ∀ {earlier mid after : List Act} {m n m' n' : Message}
    {r r' : Except Error Unit} {ms ms' : Nat},
    w.acts k = earlier ++ .answered m false :: .withheld n r :: .rested ms ::
      (mid ++ .answered m' false :: .withheld n' r' :: .rested ms' :: after) →
    (∀ m, .answered m true ∉ mid) → ms ≤ ms'
  bounded : ∀ ms, .rested ms ∈ w.acts k → 100 ≤ ms ∧ ms ≤ 5000
  /-- However many failures there were, the counts and what is reckoned with them are exact; only
  the counts themselves stop at the largest word. -/
  failures : Exact l.failures (failuresIn (w.acts k))
  rejections : Exact l.rejections (rejectionsIn (w.acts k))

/-- Every loop keeps to the retry schedule in every run, over any broker. -/
theorem retry_law {broker : T} {l : ReadLoop T α} (reach : Reachable broker w)
    (here : w.loops[k]? = some l) : RetryLaw w k l := by
  obtain ⟨followed, failures, rejections⟩ := (reachable_accounts reach k).here l here
  constructor
  case schedule =>
    intro before a after eq
    rw [eq] at followed
    exact followed.sequel
  -- The counts of the loop are exact as far as the pause depends on them.
  case faltering =>
    intro e phase running fails
    rcases fetched : Transport.fetch l.reader w.broker with ⟨result, reader, broker'⟩
    obtain rfl : result = .transient e := by simpa [fetched] using fails
    have takes : l.Takes k w.now w.broker _ := .falter phase running fetched
    refine ⟨_, takes_loopStep here takes, rfl, ?_, ?_⟩
    · rw [acts_turned]
      simp [failures.exact.pause]
    · apply waits_of_resting (turned_self here _)
      rw [failures.exact.pause]
  case rejecting =>
    intro m due phase elapsed
    rcases withheld : Transport.withhold l.reader m w.broker with ⟨r, reader, broker'⟩
    have takes : l.Takes k w.now w.broker _ := .reject phase elapsed withheld
    refine ⟨_, takes_loopStep here takes, rfl, ?_, ?_⟩
    · rw [acts_turned]
      simp [rejections.exact.pause]
    · apply waits_of_resting (turned_self here _)
      rw [rejections.exact.pause]
  case accepting =>
    intro m due phase elapsed
    rcases committed : Transport.commit l.reader m w.broker with ⟨r, reader, broker'⟩
    have takes : l.Takes k w.now w.broker _ := .accept phase elapsed committed
    refine ⟨_, _, takes_loopStep here takes, rfl, turned_self here _, rfl, ?_, ?_⟩
    · rw [acts_turned]
      simp
    · intro running
      exact loopStep_ready (turned_self here _) rfl running
  case resting =>
    intro due phase
    exact waits_of_resting here phase
  case fetchesClimb =>
    intro earlier mid after e e' ms ms' eq none
    rw [eq] at followed
    exact followed.fetch_rests_climb none
  case rejectionsClimb =>
    intro earlier mid after m n m' n' r r' ms ms' eq none
    rw [eq] at followed
    exact followed.rejection_rests_climb none
  case bounded =>
    intro ms within
    obtain ⟨n, rfl⟩ := followed.rest_length within
    rw [← backoff_eq]
    exact ⟨le_backoff n, backoff_le n⟩
  case failures => exact failures.exact
  case rejections => exact rejections.exact

def turns (n : Nat) : List (Attempt Ledger String) := List.replicate n (.step (.loop 0))

/-- A subscription whose fetches fail, whose subscriber accepts nothing at first, and whose first
commit fails. -/
def troubled : List (Attempt Ledger String) :=
  [.command (.subscribe 0 orders "audit" "auditor"
      (.direct ⟨fun n _ => { accept := decide (2 ≤ n), delay := 0 }⟩)),
    .command (.publish 0 orders (.text "first")), .command (.control (.failFetches 2)),
    .command (.control (.failCommits 1))] ++
  turns 1 ++ .step (.wait 100) :: turns 2 ++ .step (.wait 200) :: turns 3 ++
  .command (.control (.failFetches 1)) :: .step (.wait 100) :: turns 2 ++
  .step (.wait 100) :: turns 3 ++ .step (.wait 200) :: turns 3 ++
  .command (.control (.failFetches 1)) :: turns 1

/-- After one fetch more that fails it rests until 800, but it is given up at 700. -/
theorem retry_law_troubled :
    let w := opened.after troubled
    let v := (w.obey (.unsubscribe 0 ⟨1⟩)).after (turns 1)
    ∃ l, w.loops[0]? = some l ∧ RetryLaw w 0 l ∧ l.phase = .resting 800 ∧
      (w.acts 0).filterMap (fun | .rested ms => some ms | _ => none) =
        [100, 200, 100, 100, 200, 100] ∧
      (w.acts 0).filterMap (fun | .committed _ r => some r.isOk | _ => none) = [false] ∧
      (failuresIn (w.acts 0), rejectionsIn (w.acts 0)) = (1, 0) ∧ v.now = 700 ∧
      (v.acts 0).map (· matches .closed) = (w.acts 0).map (fun _ => false) ++ [true] := by
  intro w v
  have reach : Reachable {} w :=
    reachable_opened.leads (leads_iff_after.mpr ⟨troubled, rfl⟩)
  obtain ⟨l, here, resting⟩ : ∃ l, w.loops[0]? = some l ∧ l.phase = .resting 800 := ⟨_, rfl, rfl⟩
  exact ⟨l, here, retry_law reach here, resting, by decide, by decide, by decide, by decide,
    by decide⟩

end

end World

end Courier.Queue
