import Courier.Proofs.Queue.Streams

/-!
# Offsets and cursors keep within their logs

Nothing checks the offset of a message that is committed or held back, and no cursor is checked
before it is used. There is no need to:

* `Ledger.Within`: a place in a log, or its end;
* `takes_within`: a turn leaves the cursor of its loop within the log;
* `Bounded`, `Change.bounded`: offsets and cursors are within their logs, whatever happens;
* `Ledger.Holds`: the message that a reader holds is the entry before its cursor;
* `bounds_law`: hence nothing overflows, and no fetch waits in front of a message.
-/

namespace Courier

namespace Broker.Ledger

/-- A place in the log of a topic, or the end of it. -/
def Within (b : Ledger) (topic : String) (c : Int) : Prop :=
  0 ≤ c ∧ c ≤ (b.log topic).length

section
variable {b b' : Ledger} {topic : String} {c : Int} {m : Message}

theorem Within.start (b : Ledger) (topic : String) : b.Within topic 0 :=
  ⟨Int.le_refl _, by omega⟩

theorem Within.grow (within : b.Within topic c) (grows : b.log topic <+: b'.log topic) :
    b'.Within topic c := by
  have longer := grows.length_le
  have ⟨low, high⟩ := within
  exact ⟨low, by omega⟩

theorem within_of_at? (entry : b.at? topic c = some m) :
    b.Within topic c ∧ b.Within topic (c + 1) := by
  obtain ⟨i, rfl, found⟩ := at?_eq_some.mp entry
  have bound := (List.getElem?_eq_some_iff.mp found).1
  exact ⟨⟨by omega, by omega⟩, by omega, by omega⟩

theorem Within.entry (within : b.Within topic c) (before : c < (b.log topic).length) :
    ∃ m, b.at? topic c = some m := by
  obtain ⟨low, -⟩ := within
  have bound : c.toNat < (b.log topic).length := by omega
  exact ⟨_, at?_eq_some.mpr ⟨c.toNat, by omega, List.getElem?_eq_getElem bound⟩⟩

end

/-- A message that a reader can commit or hold back: the entry of its topic before its cursor. -/
structure Holds (b : Ledger) (r : Reader) (m : Message) : Prop where
  topic : m.topic = r.topic
  offset : m.offset = r.cursor - 1
  below : m.offset < (b.log r.topic).length
  entry : b.at? r.topic m.offset = some m

end Broker.Ledger

namespace Queue

open Broker (Ledger Transport)

variable {α : Type}

section
variable {k now : Nat} {b : Ledger} {c : Int} {l : ReadLoop Ledger α} {t : Turn Ledger α}
  {acts : List Act} {m : Message}

theorem Steady.holds (steady : Steady b c l acts) (numbered : b.Numbered) {stage : Stage α}
    (phase : l.phase = .handling m stage) : b.Holds l.reader m := by
  obtain ⟨_, p, -, -, entry, place, cursor, -⟩ := steady.course.held phase
  rw [← place, ← steady.topic] at entry
  obtain ⟨i, offset, found⟩ := Ledger.at?_eq_some.mp entry
  have bound := (List.getElem?_eq_some_iff.mp found).1
  exact ⟨(numbered _ i m found).1, by omega, by omega, entry⟩

/-- Only a message in hand is committed or held back. -/
theorem takes_settlement (takes : l.Takes k now b t) {a : Act} {accept : Bool}
    (noted : a ∈ t.notes.filterMap (·.actOf k)) (settles : a.settlement = some (m, accept)) :
    ∃ stage, l.phase = .handling m stage := by
  cases takes with
  | stop | lose | leave =>
    obtain rfl : a = .closed := by simpa [List.filterMap_cons] using noted
    cases settles
  | park | rise | fail => cases noted
  | deliver =>
    obtain rfl : a = .delivered _ := by simpa using noted
    cases settles
  | falter =>
    obtain rfl | rfl : a = .fetchFailed _ ∨ a = .rested _ := by
      simpa [List.filterMap_cons] using noted
    · cases settles
    · cases settles
  | accept phase =>
    obtain rfl | rfl : a = .answered _ true ∨ a = .committed _ _ := by simpa using noted
    · cases settles
    · obtain ⟨rfl, -⟩ := Prod.mk.inj (Option.some.inj settles)
      exact ⟨_, phase⟩
  | reject phase =>
    obtain rfl | rfl | rfl : a = .answered _ false ∨ a = .withheld _ _ ∨ a = .rested _ := by
      simpa using noted
    · cases settles
    · obtain ⟨rfl, -⟩ := Prod.mk.inj (Option.some.inj settles)
      exact ⟨_, phase⟩
    · cases settles

theorem takes_within (steady : Steady b c l acts) (numbered : b.Numbered)
    (within : b.Within l.topic.name l.reader.cursor) (takes : l.Takes k now b t) :
    t.broker.Within t.loop.topic.name t.loop.reader.cursor := by
  have grows : b.log l.topic.name <+: t.broker.log l.topic.name :=
    (takes_log takes).symm ▸ List.prefix_rfl
  have stays := within.grow grows
  cases takes with
  | stop | leave | rise | fail => exact stays
  | park _ _ fetched =>
    obtain ⟨rfl, -⟩ := Ledger.fetch_nothing fetched
    exact stays
  | lose _ _ fetched =>
    obtain ⟨rfl, -⟩ := Ledger.fetch_closed fetched
    exact stays
  | falter _ _ fetched =>
    obtain ⟨rfl, -⟩ := Ledger.fetch_transient fetched
    exact stays
  | deliver _ _ fetched =>
    obtain ⟨rfl, -, entry⟩ := Ledger.fetch_message fetched
    rw [steady.topic] at entry
    exact (Ledger.within_of_at? entry).2.grow grows
  | accept _ _ committed =>
    obtain rfl := Ledger.commit_reader committed
    exact stays
  | reject phase _ withheld =>
    obtain ⟨-, rfl, -⟩ := Ledger.withhold_eq withheld
    have entry := (steady.holds numbered phase).entry
    rw [steady.topic] at entry
    exact (Ledger.within_of_at? entry).1.grow grows

end

namespace World

/-- Offsets and cursors are places in their logs. -/
structure Bounded (w : World Ledger α) : Prop where
  committed : ∀ topic group c, w.broker.committed topic group = some c → w.broker.Within topic c
  cursors : ∀ l ∈ w.loops, w.broker.Within l.topic.name l.reader.cursor

section
variable {w v : World Ledger α} {published : Option Record}

theorem Bounded.groupOffset (h : Bounded w) (topic : Topic) (group : String) :
    w.broker.Within topic.name ((w.broker.committed topic.name group).getD 0) := by
  cases committed : w.broker.committed topic.name group with
  | none => exact .start ..
  | some c => exact h.committed _ _ c committed

theorem Change.committed_within (h : Change w v published) (orderly : Orderly w)
    (covered : Covered w) (bounded : Bounded w) {topic group : String} {c : Int}
    (committed : v.broker.committed topic group = some c) : v.broker.Within topic c := by
  have old (same : v.broker.committed topic group = w.broker.committed topic group) :
      v.broker.Within topic c :=
    (bounded.committed _ _ c (same ▸ committed)).grow (h.grows topic)
  have grows := h.grows topic
  cases h with
  | @turn k l t here takes eq =>
    subst eq
    obtain ⟨same, -⟩ | ⟨m, due, phase, commits, -⟩ := takes_commits takes
    · exact old (congrFun (congrFun same topic) group)
    · have commits : (w.turned k t).broker.committed topic group = _ :=
        congrFun (congrFun commits topic) group
      rw [Ledger.committed_setCommitted] at commits
      split at commits
      · next mine =>
        obtain ⟨rfl, rfl⟩ := mine
        obtain rfl := Option.some.inj (commits.symm.trans committed)
        obtain ⟨c₀, steady⟩ := covered.steady here
        have holds := steady.holds orderly.numbered phase
        exact (Ledger.within_of_at? holds.entry).2.grow grows
      · exact old commits
  | keep ledger => exact old (by rw [ledger.committed])
  | publish r ledger => exact old (by rw [ledger]; rfl)
  | subscribe _ _ _ _ _ _ ledger => exact old (by rw [ledger])

theorem Change.bounded (h : Change w v published) (orderly : Orderly w) (covered : Covered w)
    (bounded : Bounded w) : Bounded v := by
  refine ⟨fun _ _ _ => h.committed_within orderly covered bounded, ?_⟩
  have grows := h.grows
  have kept (loops : KeptAll w.loops v.loops) :
      ∀ l' ∈ v.loops, v.broker.Within l'.topic.name l'.reader.cursor := by
    intro l' member
    obtain ⟨k, there⟩ := List.mem_iff_getElem?.mp member
    have rel := loops k
    rw [there] at rel
    generalize before : w.loops[k]? = here at rel
    cases rel with
    | @some l _ same =>
      rw [same.topic, same.reader]
      exact (bounded.cursors l (List.mem_of_getElem? before)).grow (grows _)
  cases h with
  | @turn k l t here takes eq =>
    subst eq
    obtain ⟨c, steady⟩ := covered.steady here
    have within := bounded.cursors l (List.mem_of_getElem? here)
    intro l' member
    obtain old | rfl := List.mem_or_eq_of_mem_set member
    · exact (bounded.cursors l' old).grow (grows _)
    · exact takes_within steady orderly.numbered within takes
  | keep _ loops => exact kept loops
  | publish _ _ loops => exact kept loops
  | subscribe _ topic group _ _ _ ledger loops =>
    intro l' member
    rw [ledger]
    rw [loops] at member
    obtain old | new := List.mem_append.mp member
    · exact bounded.cursors l' old
    · obtain rfl := List.mem_singleton.mp new
      exact bounded.groupOffset topic group

end

theorem reachable_bounded [DecidableEq α] {w : World Ledger α} (reach : Reachable {} w) :
    Bounded w := by
  induction reach with
  | start => exact ⟨by simp, by simp⟩
  | next before move ih =>
    obtain ⟨published, change⟩ := move_change move
    exact change.bounded (reachable_orderly before) (reachable_covered before) ih

end World

/-! ## Words -/

/-- A number below zero or beyond the largest signed word is not among these. -/
def Fits (n : Int) : Prop := 0 ≤ n ∧ n < 0x8000000000000000

namespace Fits

variable {n : Int}

theorem toInt (fits : Fits n) : (Int64.ofInt n).toInt = n := by
  have ⟨low, high⟩ := fits
  exact Int64.toInt_ofInt_of_le (by omega) (by omega)

theorem toUInt64 (fits : Fits n) : ((Int64.ofInt n).toUInt64.toNat : Int) = n := by
  obtain ⟨low, high⟩ := fits
  obtain ⟨i, rfl⟩ := Int.eq_ofNat_of_zero_le low
  have small : i % 2 ^ 64 = i := by omega
  rw [Int64.ofInt_eq_ofNat, Int64.toUInt64_ofNat', UInt64.toNat_ofNat', small]

theorem succ (fits : Fits (n + 1)) : (Int64.ofInt n + 1).toInt = n + 1 := by
  rw [show (1 : Int64) = Int64.ofInt 1 from rfl, ← Int64.ofInt_add, fits.toInt]

end Fits

theorem fits_of_within {b : Ledger} {topic : String} {c : Int} (within : b.Within topic c)
    (short : (b.log topic).length < 0x8000000000000000) : Fits c := by
  obtain ⟨low, high⟩ := within
  exact ⟨low, by omega⟩

namespace World

/-- What a ledger reckons in signed words is what the numbers come to. -/
structure InWords (w : World Ledger α) : Prop where
  /-- The offset that a group goes on with, when an entry has been accepted. -/
  next : ∀ topic (i : Nat) (m : Message), (w.broker.log topic)[i]? = some m →
    (Int64.ofInt m.offset + 1).toInt = m.offset + 1
  /-- The index of the entry that a reader looks for. -/
  index : ∀ l ∈ w.loops, ((Int64.ofInt l.reader.cursor).toUInt64.toNat : Int) = l.reader.cursor
  /-- The cursor of a reader that has found an entry. -/
  advance : ∀ l ∈ w.loops, l.reader.cursor < (w.broker.log l.topic.name).length →
    (Int64.ofInt l.reader.cursor + 1).toInt = l.reader.cursor + 1

/-- What is so of offsets and cursors at any time. -/
structure BoundsLaw (w : World Ledger α) : Prop where
  committed : ∀ topic group c, w.broker.committed topic group = some c →
    0 ≤ c ∧ c ≤ (w.broker.log topic).length
  /-- It makes no difference whether the reader is open. -/
  cursors : ∀ l ∈ w.loops, l.reader.topic = l.topic.name ∧ 0 ≤ l.reader.cursor ∧
    l.reader.cursor ≤ (w.broker.log l.reader.topic).length
  /-- A message that a loop commits or holds back is the entry before its reader's cursor. -/
  settled : ∀ k v, w.loopStep k = some v → ∀ more, v.acts k = w.acts k ++ more →
    ∀ a ∈ more, ∀ m accept, a.settlement = some (m, accept) →
      ∃ l, w.loops[k]? = some l ∧ w.broker.Holds l.reader m
  words : (∀ topic, (w.broker.log topic).length < 0x8000000000000000) → InWords w
  /-- In front of an entry a fetch hands it over, and moves behind it. -/
  fetches : ∀ l ∈ w.loops, l.reader.Open w.broker → w.broker.fetchFaults = 0 →
    l.reader.cursor < (w.broker.log l.reader.topic).length →
    ∃ m, w.broker.at? l.reader.topic l.reader.cursor = some m ∧
      Ledger.fetch l.reader w.broker =
        (.message m, { l.reader with cursor := l.reader.cursor + 1 }, w.broker)
  /-- Only at the end of its log a reader waits. -/
  waits : ∀ l ∈ w.loops, l.phase = .parked →
    l.reader.cursor = (w.broker.log l.reader.topic).length

section
variable {w v : World Ledger α}

theorem Bounded.inWords (bounded : Bounded w) (orderly : Orderly w)
    (short : ∀ topic, (w.broker.log topic).length < 0x8000000000000000) : InWords w := by
  constructor
  case next =>
    intro topic i m found
    obtain ⟨-, offset⟩ := orderly.numbered topic i m found
    have entry : w.broker.at? topic m.offset = some m :=
      Ledger.at?_eq_some.mpr ⟨i, offset, found⟩
    exact (fits_of_within (Ledger.within_of_at? entry).2 (short topic)).succ
  case index =>
    intro l member
    exact (fits_of_within (bounded.cursors l member) (short _)).toUInt64
  case advance =>
    intro l member before
    obtain ⟨m, entry⟩ := (bounded.cursors l member).entry before
    exact (fits_of_within (Ledger.within_of_at? entry).2 (short _)).succ

theorem Covered.settles (covered : Covered w) (orderly : Orderly w) {k : Nat}
    (step : w.loopStep k = some v) {more : List Act} (acts : v.acts k = w.acts k ++ more) {a : Act}
    (new : a ∈ more) {m : Message} {accept : Bool} (settles : a.settlement = some (m, accept)) :
    ∃ l, w.loops[k]? = some l ∧ w.broker.Holds l.reader m := by
  obtain ⟨l, t, here, takes, rfl⟩ := loopStep_takes step
  rw [acts_turned] at acts
  obtain rfl := List.append_cancel_left acts
  obtain ⟨stage, phase⟩ := takes_settlement takes new settles
  obtain ⟨c, steady⟩ := covered.steady here
  exact ⟨l, here, steady.holds orderly.numbered phase⟩

end

/-- **Cursors keep within their logs.** So do the offsets that groups have committed, and what a
loop commits or holds back is an entry of its topic; hence no number overflows, and no reader waits
in front of a message. -/
theorem bounds_law [DecidableEq α] {w : World Ledger α} (reach : Reachable {} w) :
    BoundsLaw w := by
  have bounded := reachable_bounded reach
  have orderly := reachable_orderly reach
  have covered := reachable_covered reach
  have steady {l : ReadLoop Ledger α} (member : l ∈ w.loops) :
      ∃ k c, Steady w.broker c l (w.acts k) := by
    obtain ⟨k, here⟩ := List.mem_iff_getElem?.mp member
    exact ⟨k, covered.steady here⟩
  have within {l : ReadLoop Ledger α} (member : l ∈ w.loops) :
      l.reader.topic = l.topic.name ∧ w.broker.Within l.reader.topic l.reader.cursor := by
    obtain ⟨k, c, steady⟩ := steady member
    exact ⟨steady.topic, steady.topic ▸ bounded.cursors l member⟩
  constructor
  case committed => exact bounded.committed
  case cursors =>
    intro l member
    exact within member
  case settled =>
    intro k v step more acts a new m accept settles
    exact covered.settles orderly step acts new settles
  case words => exact bounded.inWords orderly
  case fetches =>
    intro l member ⟨isOpen, current⟩ faultless before
    obtain ⟨m, entry⟩ := (within member).2.entry before
    exact ⟨m, entry, Ledger.fetch_of_open faultless isOpen current entry⟩
  case waits =>
    intro l member parked
    obtain ⟨k, c, steady⟩ := steady member
    have none := Ledger.at?_eq_none.mp (steady.parked parked)
    obtain ⟨topic, low, high⟩ := within member
    rw [← topic] at none
    omega

/-- After the subscriber has rejected a message once, and one commit has failed. -/
theorem bounds_law_disturbed :
    let w := opened.after (.command (.subscribe 0 orders "audit" "auditor"
      (.direct ⟨fun calls _ => { accept := calls != 0 }⟩)) :: disturbed)
    BoundsLaw w ∧ w.broker.committed "orders" "audit" = some 2 ∧
      w.loops.map (·.reader.cursor) = [2] :=
  ⟨bounds_law (reachable_opened.leads (leads_iff_after.mpr ⟨_, rfl⟩)), by decide, by decide⟩

end World

end Queue

end Courier
