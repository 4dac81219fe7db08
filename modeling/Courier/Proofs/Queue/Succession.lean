import Courier.Proofs.Queue.Commits

/-!
# Subscriptions that follow one another

Where a subscription to a topic and a group is made only after the earlier ones
have ended, what was committed stays behind:

* `Succeeds`: the moves of such a run;
* `Settled`: at most one subscription runs, it is not behind its group's offset,
  and all that was committed is;
* `no_redelivery`: what was committed does not come again.
-/

namespace Courier.Queue

open Broker (Ledger)

variable {α : Type}

/-- Only a fetch gives a loop a message, and it is the one at the loop's position. -/
theorem takes_delivery {k now : Nat} {b : Ledger} {l : ReadLoop Ledger α} {t : Turn Ledger α}
    (numbered : b.Numbered) (takes : l.Takes k now b t) :
    (t.notes.filterMap (·.actOf k)).filterMap Act.delivery = [] ∨
      ∃ m, (t.notes.filterMap (·.actOf k)).filterMap Act.delivery = [m] ∧
        m.offset = l.position := by
  cases takes with
  | @deliver _ _ m _ _ _ phase _ fetched =>
    obtain ⟨-, -, entry⟩ := Ledger.fetch_message fetched
    refine .inr ⟨m, by simp [Act.delivery], ?_⟩
    rw [numbered.offset_at? entry, ReadLoop.position, phase]
  | stop | park | lose | falter | accept | reject | leave | rise | fail =>
    exact .inl (by simp [List.filterMap_cons, Act.delivery])

namespace World

/-- No subscription to the pair is running. -/
def Vacant (w : World Ledger α) (topic : Topic) (group : String) : Prop :=
  ∀ l ∈ w.loops, l.Serves topic group → ¬ l.Running

/-- A subscription to the pair is made only when none is running. -/
def Yields (w v : World Ledger α) (topic : Topic) (group : String) : Prop :=
  ∀ l ∈ v.loops.drop w.loops.length, l.Serves topic group → w.Vacant topic group

/-- At most one subscription to the pair runs, not behind the group's offset, and all that its
subscriptions have committed is behind it. -/
structure Settled (w : World Ledger α) (topic : Topic) (group : String) : Prop where
  single : ∀ (i j : Nat) (l l' : ReadLoop Ledger α), w.loops[i]? = some l → l.Serves topic group →
    l.Running → w.loops[j]? = some l' → l'.Serves topic group → l'.Running → i = j
  level : ∀ (k : Nat) (l : ReadLoop Ledger α), w.loops[k]? = some l → l.Serves topic group →
    l.Running → w.groupOffset topic group ≤ l.position
  behind : ∀ (k : Nat) (l : ReadLoop Ledger α), w.loops[k]? = some l → l.Serves topic group →
    ∀ m ∈ w.commits k, m.offset < w.groupOffset topic group

section
variable {w v : World Ledger α} {published : Option Record} {topic : Topic} {group : String}

theorem Onward.serves {k : Nat} {l l' : ReadLoop Ledger α} (h : Onward w v k l l')
    (serves : l'.Serves topic group) : l.Serves topic group :=
  ⟨h.topic.symm.trans serves.1, h.group.symm.trans serves.2⟩

theorem Change.served (h : Change w v published) {k : Nat} {l l' : ReadLoop Ledger α}
    (here : w.loops[k]? = some l) (there : v.loops[k]? = some l')
    (serves : l'.Serves topic group) : l.Serves topic group := by
  obtain ⟨l₁, there₁, topic_eq, group_eq⟩ := h.serves here
  obtain rfl : l₁ = l' := Option.some.inj (there₁.symm.trans there)
  exact ⟨topic_eq.symm.trans serves.1, group_eq.symm.trans serves.2⟩

/-- A subscription that has been made is in the place of the last loop, and the only one made. -/
theorem Yields.vacant {l : ReadLoop Ledger α} (yields : Yields w v topic group)
    (loops : v.loops = w.loops ++ [l]) (serves : l.Serves topic group) :
    w.Vacant topic group := by
  apply yields l ?_ serves
  rw [loops, List.drop_left]
  exact List.mem_singleton_self l

theorem Settled.groupOffset_le (settled : Settled w topic group) (covered : Covered w)
    (change : Change w v published) : w.groupOffset topic group ≤ v.groupOffset topic group := by
  obtain ⟨same, -⟩ | ⟨k, l, m, commit⟩ := change.commits covered
  · apply Int.le_of_eq
    rw [groupOffset, groupOffset, same]
  · by_cases serves : l.Serves topic group
    · have level := settled.level k l commit.here serves commit.running
      rw [commit.position] at level
      rw [commit.groupOffset serves]
      omega
    · apply Int.le_of_eq
      rw [groupOffset, groupOffset, commit.groupOffset_other serves]

theorem Settled.change (settled : Settled w topic group) (orderly : Orderly w)
    (covered : Covered w) (change : Change w v published) (yields : Yields w v topic group) :
    Settled v topic group := by
  have onward := settled.groupOffset_le covered change
  constructor
  case single =>
    intro i j l l' there serves running there' serves' running'
    obtain ⟨last, loops, -⟩ | ⟨l₀, old⟩ := change.advances orderly covered there running <;>
      obtain ⟨last', loops', -⟩ | ⟨l₀', old'⟩ := change.advances orderly covered there' running'
    · exact last.trans last'.symm
    · have vacant := yields.vacant loops serves
      exact absurd old'.running (vacant l₀' (List.mem_of_getElem? old'.here) (old'.serves serves'))
    · have vacant := yields.vacant loops' serves'
      exact absurd old.running (vacant l₀ (List.mem_of_getElem? old.here) (old.serves serves))
    · exact settled.single i j l₀ l₀' old.here (old.serves serves) old.running old'.here
        (old'.serves serves') old'.running
  case level =>
    intro k l' there serves running
    obtain ⟨-, -, same, start⟩ | ⟨l, old⟩ := change.advances orderly covered there running
    · obtain ⟨rfl, rfl⟩ := serves
      apply Int.le_of_eq
      rw [start, groupOffset, groupOffset, same]
    · have level := settled.level k l old.here (old.serves serves) old.running
      have position := old.position
      obtain ⟨same, -⟩ | ⟨j, l₁, m, commit⟩ := change.commits covered
      · rw [groupOffset, same]
        exact Int.le_trans level position
      · by_cases serves₁ : l₁.Serves topic group
        · -- Whoever commits is running, and so it is this loop.
          obtain rfl : j = k := settled.single j k l₁ l commit.here serves₁ commit.running old.here
            (old.serves serves) old.running
          obtain rfl : l₁ = l := Option.some.inj (commit.here.symm.trans old.here)
          apply Int.le_of_eq
          rw [commit.groupOffset serves₁, old.committed m commit]
        · rw [groupOffset, commit.groupOffset_other serves₁]
          exact Int.le_trans level position
  case behind =>
    intro k l' there serves m committed
    have old (earlier : m ∈ w.commits k) : m.offset < v.groupOffset topic group := by
      have before : k < w.loops.length := by
        by_contra past
        rw [orderly.commits_fresh (by omega)] at earlier
        cases earlier
      have here := List.getElem?_eq_getElem before
      have := settled.behind k _ here (change.served here there serves) m earlier
      omega
    obtain ⟨-, same⟩ | ⟨j, l, m₁, commit⟩ := change.commits covered
    · exact old (same k ▸ committed)
    · rw [commit.commits k, List.mem_append] at committed
      obtain earlier | now := committed
      · exact old earlier
      · split at now
        · next mine =>
          subst mine
          obtain rfl := List.mem_singleton.mp now
          rw [commit.groupOffset (change.served commit.here there serves)]
          omega
        · cases now

theorem Orderly.deliveries_fresh (orderly : Orderly w) {k : Nat} (past : w.loops.length ≤ k) :
    w.deliveries k = [] := by
  rw [World.deliveries, orderly.fresh k past]
  rfl

/-- What a loop is handed is not before its group's offset. -/
theorem Settled.deliveries (settled : Settled w topic group) (orderly : Orderly w)
    (change : Change w v published) {k : Nat} {l : ReadLoop Ledger α} (there : v.loops[k]? = some l)
    (serves : l.Serves topic group) : v.deliveries k = w.deliveries k ∨
      ∃ m, v.deliveries k = w.deliveries k ++ [m] ∧ w.groupOffset topic group ≤ m.offset := by
  cases change with
  | @turn j l₀ t here takes eq =>
    subst eq
    by_cases mine : j = k
    · subst mine
      obtain rfl : t.loop = l := Option.some.inj ((turned_self here t).symm.trans there)
      obtain ⟨topic_eq, group_eq⟩ := takes_identity takes
      have level := settled.level j l₀ here
        ⟨topic_eq.symm.trans serves.1, group_eq.symm.trans serves.2⟩ (takes_running takes)
      rw [World.deliveries, acts_turned, List.filterMap_append]
      obtain none | ⟨m, one, place⟩ := takes_delivery orderly.numbered takes
      · exact .inl (by rw [none, List.append_nil]; rfl)
      · exact .inr ⟨m, by rw [one]; rfl, by omega⟩
    · rw [World.deliveries, acts_turned_ne takes mine]
      exact .inl rfl
  | keep _ _ acts | publish _ _ _ _ acts | subscribe _ _ _ _ _ _ _ _ acts =>
    rw [World.deliveries, acts]
    exact .inl rfl

end

variable [DecidableEq α]

/-- The moves of a run in which each subscription to the pair is made after the earlier ones have
ended. -/
def Succeeds (topic : Topic) (group : String) (w v : World Ledger α) : Prop :=
  Move w v ∧ Yields w v topic group

abbrev Succession (topic : Topic) (group : String) : World Ledger α → World Ledger α → Prop :=
  Relation.ReflTransGen (Succeeds topic group)

section
variable {w v : World Ledger α} {topic : Topic} {group : String}

theorem Succession.leads (run : Succession topic group w v) : w.Leads v := by
  apply Relation.ReflTransGen.mono ?_ _ _ run
  intro u v succeeds
  exact succeeds.1

theorem Succession.reachable (run : Succession topic group { broker := {} } w) :
    Reachable {} w :=
  Reachable.leads .start run.leads

theorem Succession.deliveries_grow (later : Succession topic group w v) (k : Nat) :
    w.deliveries k <+: v.deliveries k := by
  induction later with
  | refl => exact List.prefix_refl _
  | tail _ succeeds ih =>
    obtain ⟨published, change⟩ := move_change succeeds.1
    exact ih.trans ((change.acts_grow k).filterMap _)

theorem Succession.settled (run : Succession topic group { broker := {} } w) :
    Settled w topic group := by
  induction run with
  | refl => constructor <;> simp
  | tail before succeeds ih =>
    obtain ⟨move, yields⟩ := succeeds
    have reach := Succession.reachable before
    obtain ⟨published, change⟩ := move_change move
    exact ih.change (reachable_orderly reach) (reachable_covered reach) change yields

/-- From a state on, a subscription to the pair is handed only what is not before the offset that
the pair's group has there. -/
theorem Succession.deliveries (run : Succession topic group { broker := {} } w)
    (later : Succession topic group w v) :
    w.groupOffset topic group ≤ v.groupOffset topic group ∧
      ∀ (j : Nat) (l : ReadLoop Ledger α), v.loops[j]? = some l → l.Serves topic group →
        ∃ handed, v.deliveries j = w.deliveries j ++ handed ∧
          ∀ m ∈ handed, w.groupOffset topic group ≤ m.offset := by
  induction later with
  | refl => exact ⟨Int.le_refl _, fun j _ _ _ => ⟨[], by simp⟩⟩
  | @tail u v between succeeds ih =>
    obtain ⟨onward, handed⟩ := ih
    have before := run.trans between
    have reach := Succession.reachable before
    have orderly := reachable_orderly reach
    obtain ⟨published, change⟩ := move_change succeeds.1
    have settled := Succession.settled before
    refine ⟨Int.le_trans onward (settled.groupOffset_le (reachable_covered reach) change), ?_⟩
    intro j l' there serves
    obtain ⟨old, eq, ahead⟩ : ∃ old, u.deliveries j = w.deliveries j ++ old ∧
        ∀ m ∈ old, w.groupOffset topic group ≤ m.offset := by
      by_cases bound : j < u.loops.length
      · have here := List.getElem?_eq_getElem bound
        exact handed j _ here (change.served here there serves)
      · -- The subscription is being made: nothing was handed to it in `u`, nor before in `w`.
        have fresh : u.deliveries j = [] := orderly.deliveries_fresh (by omega)
        have grows := Succession.deliveries_grow between j
        rw [fresh] at grows
        exact ⟨[], by rw [fresh, List.prefix_nil.mp grows]; rfl, by simp⟩
    obtain same | ⟨m, more, place⟩ := settled.deliveries orderly change there serves
    · exact ⟨old, same.trans eq, ahead⟩
    · refine ⟨old ++ [m], by rw [more, eq, List.append_assoc], ?_⟩
      intro m' mem
      rw [List.mem_append, List.mem_singleton] at mem
      obtain earlier | rfl := mem
      · exact ahead m' earlier
      · exact Int.le_trans onward place

/-- **What was committed does not come again.** When a commit has succeeded, no subscription to
the pair is handed that message or an earlier one any more. -/
theorem no_redelivery (run : Succession topic group { broker := {} } w) {k : Nat}
    {l : ReadLoop Ledger α} {m : Message} (here : w.loops[k]? = some l)
    (serves : l.Serves topic group) (committed : .committed m (.ok ()) ∈ w.acts k)
    (later : Succession topic group w v) {j : Nat} {l' : ReadLoop Ledger α}
    (there : v.loops[j]? = some l') (serves' : l'.Serves topic group) :
    ∀ m' ∈ (v.deliveries j).drop (w.deliveries j).length, m.offset < m'.offset := by
  have behind : m.offset < w.groupOffset topic group :=
    (Succession.settled run).behind k l here serves m
      (List.mem_filterMap.mpr ⟨_, committed, rfl⟩)
  obtain ⟨handed, eq, ahead⟩ := (Succession.deliveries run later).2 j l' there serves'
  rw [eq, List.drop_left]
  intro m' mem
  have := ahead m' mem
  omega

/-- Attempts make such a run if each of them yields. -/
theorem Succession.after (attempts : List (Attempt Ledger α))
    (yields : ∀ n < attempts.length,
      Yields (w.after (attempts.take n)) (w.after (attempts.take (n + 1))) topic group) :
    Succession topic group w (w.after attempts) := by
  induction attempts using List.reverseRecOn with
  | nil => exact .refl
  | append_singleton attempts a ih =>
    have last := yields attempts.length (by simp)
    rw [List.take_left, List.take_of_length_le (by simp)] at last
    have before : Succession topic group w (w.after attempts) := by
      apply ih
      intro n bound
      have now := yields n (by rw [List.length_append]; omega)
      rwa [List.take_append_of_le_length (by omega), List.take_append_of_le_length bound] at now
    rw [after_concat] at last ⊢
    obtain same | move := attempt_move (w.after attempts) a
    · rw [same]
      exact before
    · exact before.tail ⟨move, last⟩

end

instance (w v : World Ledger α) (topic : Topic) (group : String) :
    Decidable (Yields w v topic group) :=
  inferInstanceAs (Decidable (∀ l ∈ v.loops.drop w.loops.length, l.topic = topic ∧ l.group = group →
    ∀ l ∈ w.loops, l.topic = topic ∧ l.group = group → ¬ l.phase.isFinished = false))

/-- A subscription that has committed the first of three messages. -/
def taken : List (Attempt Ledger String) :=
  [.command (.subscribe 0 orders "audit" "auditor"
      (.direct ⟨fun calls _ => { accept := calls != 1 }⟩)),
    .command (.publish 0 orders (.text "first")),
    .command (.publish 0 orders (.text "second")),
    .command (.publish 0 orders (.text "third")),
    .step (.loop 0), .step (.loop 0)]

/-- It rejects the second message, then fails to commit it, and is given up; the next one of the
group meets an error before it goes on. -/
def succeeded : List (Attempt Ledger String) :=
  [.step (.loop 0), .step (.loop 0), .step (.wait 100), .step (.loop 0), .step (.loop 0),
    .command (.control (.failCommits 1)), .step (.loop 0),
    .command (.unsubscribe 0 ⟨1⟩), .step (.loop 0),
    .command (.subscribe 0 orders "audit" "successor" (.direct ⟨fun _ _ => { accept := true }⟩)),
    .command (.control (.failFetches 1)),
    .step (.loop 1), .step (.wait 100), .step (.loop 1), .step (.loop 1), .step (.loop 1),
    .step (.loop 1), .step (.loop 1)]

theorem no_redelivery_succeeded :
    let w := opened.after taken
    let v := w.after succeeded
    ∃ m ∈ w.commits 0, m.offset = 0 ∧
      (v.deliveries 1).map (·.offset) = [1, 2] ∧
      ∀ j < 2, ∀ m' ∈ (v.deliveries j).drop (w.deliveries j).length, m.offset < m'.offset := by
  intro w v
  have opening : Succession orders "audit" { broker := {} } opened := Succession.after _ (by decide)
  have run : Succession orders "audit" { broker := {} } w :=
    opening.trans (Succession.after taken (by decide))
  have later : Succession orders "audit" w v := Succession.after succeeded (by decide)
  have pairs : v.loops.map (fun l => (l.topic, l.group)) = List.replicate 2 (orders, "audit") := by
    decide
  obtain ⟨l, here, serves⟩ : ∃ l, w.loops[0]? = some l ∧ l.Serves orders "audit" :=
    ⟨_, rfl, rfl, rfl⟩
  obtain ⟨m, third, first⟩ : ∃ m, (w.acts 0)[2]? = some (.committed m (.ok ())) ∧ m.offset = 0 :=
    ⟨_, rfl, rfl⟩
  have committed := List.mem_of_getElem? third
  refine ⟨m, List.mem_filterMap.mpr ⟨_, committed, rfl⟩, first, by decide, ?_⟩
  intro j bound
  have pair : (v.loops.map fun l => (l.topic, l.group))[j]? = some (orders, "audit") := by
    rw [pairs, List.getElem?_replicate, if_pos bound]
  rw [List.getElem?_map, Option.map_eq_some_iff] at pair
  obtain ⟨l', there, pair⟩ := pair
  obtain ⟨topic, group⟩ := Prod.mk.inj pair
  exact no_redelivery run here serves committed later there ⟨topic, group⟩

end World

end Courier.Queue
