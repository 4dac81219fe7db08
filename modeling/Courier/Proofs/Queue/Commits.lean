import Courier.Proofs.Queue.Acceptance

/-!
# Commits of several subscriptions

The subscriptions of a group share one committed offset, and each of them
commits behind the message it has in hand:

* `Course.commits_rise`: what one subscription commits goes up;
* `Change.commits`: an offset changes by such a commit alone;
* `Move.paced`: a subscription is behind its group's offset only if another one,
  which has run at the same time, has committed it;
* `commits_retreat`: with two subscriptions of a group the offset may go back;
* `commit_law`: it does so only where one has overtaken the other.
-/

namespace Courier.Queue

open Broker (Ledger)

/-- One subscription commits one message after the other, and none that it is to read yet. -/
theorem Course.commits_rise {b : Ledger} {topic : String} {c : Int} {acts : List Act} {p : Point}
    (h : Course b topic c acts p) :
    (acts.filterMap Act.commit).Pairwise (·.offset < ·.offset) ∧
      ∀ m ∈ acts.filterMap Act.commit, m.offset < p.offset := by
  induction h with
  | start => simp
  | falter _ _ ih => simpa [List.filterMap_cons, Act.commit] using ih
  | @accept acts p before m entry place r ih =>
    obtain ⟨rising, behind⟩ := ih
    cases r with
    | error e =>
      simp only [List.filterMap_append, List.filterMap_cons, Act.commit, List.filterMap_nil,
        List.append_nil]
      refine ⟨rising, ?_⟩
      intro m' committed
      have := behind m' committed
      omega
    | ok =>
      simp only [List.filterMap_append, List.filterMap_cons, Act.commit, List.filterMap_nil,
        List.pairwise_append, List.mem_append, List.mem_singleton]
      refine ⟨⟨rising, List.pairwise_singleton .., ?_⟩, ?_⟩
      · rintro m' committed _ rfl
        have := behind m' committed
        omega
      · rintro m' (committed | rfl)
        · have := behind m' committed
          omega
        · omega
  | reject _ _ _ _ ih => simpa [List.filterMap_cons, Act.commit] using ih

variable {α : Type}

namespace ReadLoop

/-- The offset a loop has in hand, or else the one it reads next. -/
def position (l : ReadLoop Ledger α) : Int :=
  match l.phase with
  | .handling m _ => m.offset
  | _ => l.reader.cursor

/-- The loop is that of a subscription to the pair. -/
def Serves (l : ReadLoop Ledger α) (topic : Topic) (group : String) : Prop :=
  l.topic = topic ∧ l.group = group

def Running (l : ReadLoop Ledger α) : Prop := l.phase.isFinished = false

end ReadLoop

section
variable {l l' : ReadLoop Ledger α}

theorem Kept.position (h : Kept l l') : l'.position = l.position := by
  have cursor : l'.reader.cursor = l.reader.cursor := by rw [h.reader]
  unfold ReadLoop.position
  obtain same | ⟨parked, ready⟩ | ⟨m, accept, due, offered, answered⟩ := h.phase
  · rw [same, cursor]
  · rw [parked, ready]
    exact cursor
  · rw [offered, answered]

theorem Kept.running (h : Kept l l') : l'.Running ↔ l.Running := by
  unfold ReadLoop.Running
  obtain same | ⟨parked, ready⟩ | ⟨m, accept, due, offered, answered⟩ := h.phase
  · rw [same]
  · rw [parked, ready]
    rfl
  · rw [offered, answered]
    rfl

end

section
variable {k now : Nat} {b : Ledger} {l : ReadLoop Ledger α} {t : Turn Ledger α}

theorem takes_running (takes : l.Takes k now b t) : l.Running := by
  unfold ReadLoop.Running
  cases takes with
  | stop phase => obtain phase | phase := phase <;> rw [phase] <;> rfl
  | park phase | deliver phase | lose phase | falter phase | accept phase | reject phase
  | leave phase | rise phase | fail phase => rw [phase]; rfl

/-- A loop that goes on never goes back, and goes on behind a message that was accepted. -/
theorem Steady.position_turn {c : Int} {acts : List Act} (h : Steady b c l acts)
    (numbered : b.Numbered) (takes : l.Takes k now b t) (running : t.loop.Running) :
    l.position ≤ t.loop.position ∧
      ∀ m due, l.phase = .handling m (.answered true due) → t.loop.position = m.offset + 1 := by
  cases takes with
  | stop | leave | lose | fail => cases running
  | park phase _ fetched =>
    obtain ⟨rfl, -, -⟩ := Ledger.fetch_nothing fetched
    simp [ReadLoop.position, phase]
  | falter phase _ fetched =>
    obtain ⟨rfl, -, -⟩ := Ledger.fetch_transient fetched
    simp [ReadLoop.position, phase]
  | rise phase => simp [ReadLoop.position, phase]
  | @deliver _ _ m r _ _ phase _ fetched =>
    obtain ⟨rfl, -, entry⟩ := Ledger.fetch_message fetched
    have place := numbered.offset_at? entry
    cases r <;> simp [ReadLoop.position, phase, phaseAfter, place]
  | @accept _ _ m _ _ phase _ committed =>
    obtain ⟨done, p, -, -, -, place, cursor, -⟩ := h.course.held phase
    obtain rfl := Ledger.commit_reader committed
    simp only [ReadLoop.position, phase]
    refine ⟨by omega, ?_⟩
    intro m' due held
    obtain ⟨rfl, -⟩ : m = m' ∧ _ := by simpa using held
    omega
  | reject phase _ withheld =>
    obtain ⟨-, rfl, -⟩ := Ledger.withhold_eq withheld
    simp [ReadLoop.position, phase]

end

namespace World

def commits (w : World Ledger α) (k : Nat) : List Message := (w.acts k).filterMap Act.commit

def groupOffset (w : World Ledger α) (topic : Topic) (group : String) : Int :=
  (w.broker.committed topic.name group).getD 0

section
variable {w v : World Ledger α} {published : Option Record}

theorem Covered.steady (covered : Covered w) {k : Nat} {l : ReadLoop Ledger α}
    (here : w.loops[k]? = some l) : ∃ c, Steady w.broker c l (w.acts k) := by
  obtain ⟨_, _, c, ⟨l', here', -, -, steady⟩, -⟩ :=
    covered.loops k (List.getElem?_eq_some_iff.mp here).1
  obtain rfl : l = l' := Option.some.inj (here.symm.trans here')
  exact ⟨c, steady⟩

theorem Orderly.commits_fresh (orderly : Orderly w) {k : Nat} (past : w.loops.length ≤ k) :
    w.commits k = [] := by
  rw [commits, orderly.fresh k past]
  rfl

theorem commits_turned (w : World Ledger α) (k : Nat) (t : Turn Ledger α) (j : Nat) :
    (w.turned k t).commits j =
      w.commits j ++ (t.notes.filterMap (·.actOf j)).filterMap Act.commit := by
  rw [commits, acts_turned, List.filterMap_append]
  rfl

/-- Loop `k` commits the message it has in hand. -/
structure Commits (w v : World Ledger α) (k : Nat) (l : ReadLoop Ledger α) (m : Message) :
    Prop where
  here : w.loops[k]? = some l
  phase : ∃ due, l.phase = .handling m (.answered true due)
  broker : v.broker.committed =
    (w.broker.setCommitted l.topic.name l.group (m.offset + 1)).committed
  commits : ∀ j, v.commits j = w.commits j ++ if j = k then [m] else []

/-- Offsets and commits stay as they are, or one loop commits. -/
theorem Change.commits (h : Change w v published) (covered : Covered w) :
    (v.broker.committed = w.broker.committed ∧ ∀ k, v.commits k = w.commits k) ∨
      ∃ k l m, Commits w v k l m := by
  cases h with
  | @turn k l t here takes eq =>
    subst eq
    obtain ⟨c, steady⟩ := covered.steady here
    have others {j : Nat} (other : k ≠ j) : (w.turned k t).commits j = w.commits j := by
      rw [commits_turned, takes_other takes other]
      simp
    obtain ⟨same, none⟩ | ⟨m, due, phase, commits, one⟩ := takes_commits takes
    · refine .inl ⟨same, ?_⟩
      intro j
      by_cases mine : k = j
      · subst mine
        rw [commits_turned, none, List.append_nil]
      · exact others mine
    · rw [steady.topic, steady.group] at commits
      refine .inr ⟨k, l, m, here, ⟨due, phase⟩, commits, ?_⟩
      intro j
      by_cases mine : k = j
      · subst mine
        rw [commits_turned, one, if_pos rfl]
      · rw [others mine, if_neg (Ne.symm mine), List.append_nil]
  | keep ledger loops acts =>
    exact .inl ⟨ledger.committed, fun k => by rw [World.commits, acts]; rfl⟩
  | publish r ledger loops awake acts =>
    exact .inl ⟨by rw [ledger]; rfl, fun k => by rw [World.commits, acts]; rfl⟩
  | subscribe _ _ _ _ _ _ ledger loops acts =>
    exact .inl ⟨by rw [ledger], fun k => by rw [World.commits, acts]; rfl⟩

theorem Commits.running {k : Nat} {l : ReadLoop Ledger α} {m : Message} (h : Commits w v k l m) :
    l.Running := by
  obtain ⟨due, phase⟩ := h.phase
  rw [ReadLoop.Running, phase]
  rfl

theorem Commits.position {k : Nat} {l : ReadLoop Ledger α} {m : Message} (h : Commits w v k l m) :
    l.position = m.offset := by
  obtain ⟨due, phase⟩ := h.phase
  rw [ReadLoop.position, phase]

theorem Commits.groupOffset {k : Nat} {l : ReadLoop Ledger α} {m : Message} {topic : Topic}
    {group : String} (h : Commits w v k l m) (serves : l.Serves topic group) :
    v.groupOffset topic group = m.offset + 1 := by
  obtain ⟨rfl, rfl⟩ := serves
  rw [World.groupOffset, h.broker, Ledger.committed_setCommitted, if_pos ⟨rfl, rfl⟩]
  rfl

theorem Commits.groupOffset_other {k : Nat} {l : ReadLoop Ledger α} {m : Message} {topic : Topic}
    {group : String} (h : Commits w v k l m) (other : ¬ l.Serves topic group) :
    v.broker.committed topic.name group = w.broker.committed topic.name group := by
  rw [h.broker, Ledger.committed_setCommitted, if_neg]
  rintro ⟨same, rfl⟩
  exact other ⟨(Topic.name_inj.mp same).symm, rfl⟩

/-- A loop has gone from `l` to `l'`: not back, and behind the message that it has committed. -/
structure Onward (w v : World Ledger α) (k : Nat) (l l' : ReadLoop Ledger α) : Prop where
  here : w.loops[k]? = some l
  running : l.Running
  topic : l'.topic = l.topic
  group : l'.group = l.group
  position : l.position ≤ l'.position
  committed : ∀ m, Commits w v k l m → l'.position = m.offset + 1

theorem Onward.of_kept {k : Nat} {l l' : ReadLoop Ledger α} (here : w.loops[k]? = some l)
    (running : l'.Running) (kept : Kept l l') (acts : v.acts k = w.acts k) :
    Onward w v k l l' := by
  refine ⟨here, kept.running.mp running, kept.topic, kept.group,
    Int.le_of_eq kept.position.symm, ?_⟩
  intro m commits
  have grown := commits.commits k
  simp [World.commits, acts] at grown

/-- A loop that runs was just made, at its group's offset, or it ran before. -/
theorem Change.advances (h : Change w v published) (orderly : Orderly w) (covered : Covered w)
    {k : Nat} {l' : ReadLoop Ledger α} (there : v.loops[k]? = some l') (running : l'.Running) :
    (k = w.loops.length ∧ v.loops = w.loops ++ [l'] ∧
        v.broker.committed = w.broker.committed ∧
        l'.position = w.groupOffset l'.topic l'.group) ∨
      ∃ l, Onward w v k l l' := by
  cases h with
  | @turn j l t here takes eq =>
    subst eq
    by_cases mine : j = k
    · subst mine
      obtain rfl : t.loop = l' := Option.some.inj ((turned_self here t).symm.trans there)
      obtain ⟨c, steady⟩ := covered.steady here
      obtain ⟨onward, behind⟩ := steady.position_turn orderly.numbered takes running
      obtain ⟨topic, group⟩ := takes_identity takes
      refine .inr ⟨l, here, takes_running takes, topic, group, onward, ?_⟩
      intro m commits
      obtain ⟨due, phase⟩ := commits.phase
      exact behind m due phase
    · have here : w.loops[k]? = some l' := (turned_ne t mine).symm.trans there
      refine .inr ⟨l', .of_kept here running (.refl l') ?_⟩
      rw [acts_turned_ne takes mine]
  | keep _ loops acts | publish _ _ loops _ acts =>
    have bound := (List.getElem?_eq_some_iff.mp there).1
    rw [loops.length_eq] at bound
    obtain ⟨l₁, there₁, kept⟩ := loops.of_some (List.getElem?_eq_getElem bound)
    obtain rfl : l₁ = l' := Option.some.inj (there₁.symm.trans there)
    exact .inr ⟨_, .of_kept (List.getElem?_eq_getElem bound) running kept (acts k)⟩
  | subscribe _ _ _ _ _ _ ledger loops acts =>
    rw [loops] at there
    obtain here | ⟨last, rfl⟩ := getElem?_concat_some there
    · exact .inr ⟨l', .of_kept here running (.refl l') (acts k)⟩
    · exact .inl ⟨last, loops, by rw [ledger], rfl⟩

end

variable [DecidableEq α] {w v : World Ledger α} {topic : Topic} {group : String}

/-- Two subscriptions of a group have run at the same time. -/
def Met (w : World Ledger α) (topic : Topic) (group : String) (j k : Nat) : Prop :=
  ∃ u l l', Reachable {} u ∧ u.Leads w ∧
    u.loops[j]? = some l ∧ l.Serves topic group ∧ l.Running ∧
    u.loops[k]? = some l' ∧ l'.Serves topic group ∧ l'.Running

/-- Another subscription, which has run at the same time as `k`, has committed the group's
offset. -/
def Overtaken (w : World Ledger α) (topic : Topic) (group : String) (k : Nat) : Prop :=
  ∃ j m, j ≠ k ∧ m ∈ w.commits j ∧ w.groupOffset topic group = m.offset + 1 ∧
    Met w topic group j k

/-- A subscription that runs is not behind its group's offset, or it was overtaken. -/
def Paced (w : World Ledger α) : Prop :=
  ∀ (k : Nat) (l : ReadLoop Ledger α), w.loops[k]? = some l → l.Running →
    w.groupOffset l.topic l.group ≤ l.position ∨ Overtaken w l.topic l.group k

theorem Met.later {j k : Nat} (h : Met w topic group j k) (move : Move w v) :
    Met v topic group j k := by
  obtain ⟨u, l, l', reach, leads, together⟩ := h
  exact ⟨u, l, l', reach, leads.tail move, together⟩

theorem Overtaken.later {k : Nat} (h : Overtaken w topic group k) (move : Move w v)
    (same : v.groupOffset topic group = w.groupOffset topic group)
    (grow : ∀ j, w.commits j ⊆ v.commits j) : Overtaken v topic group k := by
  obtain ⟨j, m, other, committed, eq, met⟩ := h
  exact ⟨j, m, other, grow j committed, same.trans eq, met.later move⟩

theorem Move.paced (move : Move w v) (reach : Reachable {} w) (paced : Paced w) : Paced v := by
  intro k l' there running
  have covered := reachable_covered reach
  obtain ⟨published, change⟩ := move_change move
  obtain ⟨-, -, same, start⟩ | ⟨l, here, ran, topic, group, onward, behind⟩ :=
    change.advances (reachable_orderly reach) covered there running
  · rw [groupOffset, same, start]
    exact .inl (Int.le_refl _)
  · rw [topic, group]
    -- Unless its offset is set in this move, the group has been level with the loop or past it.
    have kept (same : v.groupOffset l.topic l.group = w.groupOffset l.topic l.group)
        (grow : ∀ j, w.commits j ⊆ v.commits j) :
        v.groupOffset l.topic l.group ≤ l'.position ∨ Overtaken v l.topic l.group k := by
      obtain level | overtaken := paced k l here ran
      · exact .inl (by omega)
      · exact .inr (overtaken.later move same grow)
    obtain ⟨same, commits⟩ | ⟨j, l₁, m, commit⟩ := change.commits covered
    · apply kept
      · rw [groupOffset, same]
        rfl
      · intro j
        rw [commits]
        exact List.Subset.refl _
    · have grow (i : Nat) : w.commits i ⊆ v.commits i := by
        rw [commit.commits i]
        exact List.subset_append_left ..
      by_cases serves : l₁.Serves l.topic l.group
      · have eq := commit.groupOffset serves
        by_cases mine : j = k
        · subst mine
          obtain rfl : l₁ = l := Option.some.inj (commit.here.symm.trans here)
          rw [eq, behind m commit]
          exact .inl (Int.le_refl _)
        · have mem : m ∈ v.commits j := by
            rw [commit.commits j]
            simp
          have met : Met w l.topic l.group j k :=
            ⟨w, l₁, l, reach, .refl, commit.here, serves, commit.running, here, ⟨rfl, rfl⟩, ran⟩
          exact .inr ⟨j, m, mine, mem, eq, met.later move⟩
      · have same := commit.groupOffset_other serves
        exact kept (by rw [groupOffset, same]; rfl) grow

theorem reachable_paced (reach : Reachable {} w) : Paced w := by
  induction reach with
  | start => intro k l here; simp at here
  | next before move ih => exact move.paced before ih

/-- What a move does to the offset of a group. -/
structure CommitLaw (w v : World Ledger α) (topic : Topic) (group : String) : Prop where
  /-- It stays, or a subscription of the group sets it behind the message it has in hand. -/
  changed : v.broker.committed topic.name group = w.broker.committed topic.name group ∨
    ∃ k l m, Commits w v k l m ∧ l.Serves topic group
  /-- What one subscription commits goes up. -/
  rising : ∀ k, (v.commits k).Pairwise (·.offset < ·.offset)
  /-- It goes back only when another subscription, which has run at the same time, has committed
  a later message than the one that is committed now. -/
  overtaken : v.groupOffset topic group < w.groupOffset topic group →
    ∃ k l m j m', Commits w v k l m ∧ l.Serves topic group ∧ j ≠ k ∧ m' ∈ w.commits j ∧
      m.offset < m'.offset ∧ Met w topic group j k

theorem commits_rise (reach : Reachable {} w) (k : Nat) :
    (w.commits k).Pairwise (·.offset < ·.offset) := by
  by_cases bound : k < w.loops.length
  · obtain ⟨c, steady⟩ := (reachable_covered reach).steady (List.getElem?_eq_getElem bound)
    cases steady.course with
    | between _ course => exact course.commits_rise.1
    | inHand _ acts course =>
      simpa [World.commits, acts, List.filterMap_cons, Act.commit] using course.commits_rise.1
    | gone _ acts course =>
      simpa [World.commits, acts, List.filterMap_cons, Act.commit] using course.commits_rise.1
  · rw [(reachable_orderly reach).commits_fresh (by omega)]
    exact .nil

/-- **Commits advance each subscription.** However many subscriptions of a group there are, its
offset goes back only where one of them has overtaken the other. -/
theorem commit_law (reach : Reachable {} w) (move : Move w v) (topic : Topic) (group : String) :
    CommitLaw w v topic group := by
  obtain ⟨published, change⟩ := move_change move
  have commits := change.commits (reachable_covered reach)
  constructor
  case changed =>
    obtain ⟨same, -⟩ | ⟨k, l, m, commit⟩ := commits
    · exact .inl (by rw [same])
    · by_cases serves : l.Serves topic group
      · exact .inr ⟨k, l, m, commit, serves⟩
      · exact .inl (commit.groupOffset_other serves)
  case rising =>
    intro k
    exact commits_rise (reach.next move) k
  case overtaken =>
    intro less
    obtain ⟨same, -⟩ | ⟨k, l, m, commit⟩ := commits
    · simp [groupOffset, same] at less
    · by_cases serves : l.Serves topic group
      · have now := commit.groupOffset serves
        obtain ⟨rfl, rfl⟩ := serves
        have held := commit.position
        obtain level | ⟨j, m', other, committed, eq, met⟩ :=
          reachable_paced reach k l commit.here commit.running
        · omega
        · exact ⟨k, l, m, j, m', commit, ⟨rfl, rfl⟩, other, committed, by omega, met⟩
      · have same := commit.groupOffset_other serves
        simp [groupOffset, same] at less

/-- Two subscriptions of one group over the same two messages: the first has gone past both while
the second is still busy with the first message. -/
def race : List (Attempt Ledger String) :=
  let eager : Subscriber String := .direct ⟨fun _ _ => { accept := true }⟩
  [.command (.subscribe 0 orders "audit" "fast" eager),
    .command (.subscribe 0 orders "audit" "slow" eager),
    .command (.publish 0 orders (.text "first")),
    .command (.publish 0 orders (.text "second")),
    .step (.loop 1), .step (.loop 0), .step (.loop 0), .step (.loop 0), .step (.loop 0)]

theorem reachable_race : Reachable {} (opened.after race) :=
  reachable_opened.leads (leads_iff_after.mpr ⟨race, rfl⟩)

theorem race_step : ∃ v, (opened.after race).step (.loop 1) = some v ∧
    v.broker.committed "orders" "audit" = some 1 := ⟨_, rfl, by decide⟩

theorem commit_law_race : ∃ v, Move (opened.after race) v ∧
    v.groupOffset orders "audit" < (opened.after race).groupOffset orders "audit" ∧
    CommitLaw (opened.after race) v orders "audit" := by
  obtain ⟨v, possible, back⟩ := race_step
  have move : Move (opened.after race) v := .step _ possible
  have before : (opened.after race).groupOffset orders "audit" = 2 := by decide
  have after : v.groupOffset orders "audit" = 1 := congrArg (Option.getD · 0) back
  exact ⟨v, move, by omega, commit_law reachable_race move orders "audit"⟩

/-- With two subscriptions of a group its offset may go back. -/
theorem commits_retreat : ¬ ∀ (w v : World Ledger String), Reachable {} w → Move w v →
    ∀ (topic : Topic) (group : String), w.groupOffset topic group ≤ v.groupOffset topic group := by
  intro advance
  obtain ⟨v, possible, back⟩ := race_step
  have before : (opened.after race).groupOffset orders "audit" = 2 := by decide
  have after : v.groupOffset orders "audit" = 1 := congrArg (Option.getD · 0) back
  have := advance _ v reachable_race (.step _ possible) orders "audit"
  omega

end World

end Courier.Queue
