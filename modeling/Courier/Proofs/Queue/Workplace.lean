import Courier.Proofs.Pool.Life
import Courier.Proofs.Queue.Waiting

/-!
# Queues with their pools at work

Loops hand values over to pools, and the halves of what a pool does come in any
order with all that happens to the queues:

* `Workplace`: a world with what has become of the values sent to each pool, and
  with what each loop has said, turn by turn;
* `Move.lives`, `Ran.housed`: every pool in it is a pool at work;
* `ran_of_reachable`: every world that can be reached is one of these.
-/

namespace Courier

namespace Pool.Life

variable {α : Type} {s t : Life α} {effect : Effect α}

theorem Work.lasts (works : Work s effect t) : Lasts s.pool t.pool := by
  cases works with
  | grant | refuse | bounce | release => exact .of_workers rfl
  | enter _ _ enters =>
    obtain rfl := enter_some enters
    exact .of_workers rfl
  | pick _ idle => exact .setWorker (by rfl) idle rfl _
  | complete _ completes =>
    obtain ⟨_, busy, rfl⟩ := complete_busy completes
    exact .setWorker (by rfl) busy rfl _
  | crash busy => exact .setWorker (by rfl) busy rfl _
  | halt idle => exact .setWorker (by rfl) idle rfl _

theorem Work.label (works : Work s effect t) : t.pool.label = s.pool.label := by
  cases works with
  | grant | refuse | bounce | release => rfl
  | enter _ _ enters =>
    obtain rfl := enter_some enters
    rfl
  | pick | crash | halt => exact (Queue.Alike.setWorker ⟨rfl, rfl, rfl⟩ _ _).label
  | complete _ completes =>
    obtain ⟨-, -, rfl⟩ := complete_busy completes
    exact (Queue.Alike.setWorker ⟨rfl, rfl, rfl⟩ _ _).label

end Pool.Life

namespace Queue

open Broker (Ledger)
open Pool (Life)

variable {α : Type}

/-- What loop `k` is heard to say when its pool gives a value back. -/
def World.refusal (w : World Ledger α) (k : Nat) : List (Note α) :=
  match w.loops[k]? with
  | some l =>
    match l.phase with
    | .handling m .offered =>
      [noteOf l.label (l.subscriber.report (some m) Subscriber.handoffRefused)]
    | _ => []
  | none => []

/-- Queues with their pools at work. -/
structure Workplace (α : Type) where
  world : World Ledger α
  /-- What has become of the values sent to each pool. -/
  tally : Nat → Pool.Tally α := fun _ => {}
  /-- What each loop and its subscriber have said, turn by turn. -/
  said : Nat → List (List (Note α)) := fun _ => []

namespace Workplace

def opening : Workplace α where
  world := { broker := {} }

/-- The tallies after loop `k` has made an offer. -/
def posted (u : Workplace α) (k : Nat) : Option (Nat × α) → Nat → Pool.Tally α
  | some (p, value) =>
    if p < u.world.pools.length then
      Function.update u.tally p { u.tally p with sent := (u.tally p).sent ++ [(k, value)] }
    else u.tally
  | none => u.tally

/-- What has been said after what is to be seen of a pool. -/
def told (u : Workplace α) : Pool.Effect α → Nat → List (List (Note α))
  | .refused k => Function.update u.said k (u.said k ++ [u.world.refusal k])
  | _ => u.said

def turned (u : Workplace α) (k : Nat) (t : Turn Ledger α) : Workplace α where
  world := u.world.turned k t
  tally := u.posted k t.offer
  said := Function.update u.said k (u.said k ++ [t.notes])

/-- After pool `p` has come to be as in `life`, which has an effect. -/
def worked [DecidableEq α] (u : Workplace α) (p : Nat) (life : Life α) (effect : Pool.Effect α) :
    Workplace α where
  world := u.world.worked p life.pool effect
  tally := Function.update u.tally p life.toTally
  said := u.told effect

section
variable {u : Workplace α} {p : Nat} {pool : Pool α}

/-- Every pool that is there has lived from its start on, and nothing has been sent to one that is
not. -/
structure Housed (u : Workplace α) : Prop where
  pools : ∀ (p : Nat) (pool : Pool α), u.world.pools[p]? = some pool →
    ∃ label work n, (Life.opening label work n).Leads ⟨u.tally p, pool⟩
  vacant : ∀ p, u.world.pools.length ≤ p → u.tally p = {}

/-- Every pool that is there has a slot for each of its workers, and at least one. -/
theorem Housed.sound (h : Housed u) (here : u.world.pools[p]? = some pool) :
    ∃ size, 0 < size ∧ Life.Sound ⟨u.tally p, pool⟩ size := by
  obtain ⟨label, work, n, before⟩ := h.pools p pool here
  exact ⟨max n 1, by omega, before.sound (Life.opening_sound label work n)⟩

/-- What a turn is to a pool: an offer, or nothing. -/
theorem turned_pool (here : u.world.pools[p]? = some pool) (k : Nat) (t : Turn Ledger α) :
    ∃ pool', (u.turned k t).world.pools[p]? = some pool' ∧
      ((∃ value, t.offer = some (p, value) ∧ pool' = pool.offer k value ∧
          (u.turned k t).tally p =
            { u.tally p with sent := (u.tally p).sent ++ [(k, value)] }) ∨
        ((∀ value, t.offer ≠ some (p, value)) ∧ pool' = pool ∧
          (u.turned k t).tally p = u.tally p)) := by
  simp only [turned, World.turned, posted]
  cases t.offer with
  | none => exact ⟨pool, here, .inr ⟨nofun, rfl, rfl⟩⟩
  | some made =>
    obtain ⟨q, value⟩ := made
    have bound := (List.getElem?_eq_some_iff.mp here).1
    by_cases mine : q = p
    · subst mine
      exact ⟨pool.offer k value, by simp [here], .inl ⟨value, rfl, rfl, by simp [bound]⟩⟩
    · refine ⟨pool, by simp [here, mine], .inr ⟨by simp [mine], rfl, ?_⟩⟩
      simp only
      split
      · exact Function.update_of_ne (Ne.symm mine) ..
      · rfl

theorem turned_absent (absent : u.world.pools.length ≤ p) (k : Nat) (t : Turn Ledger α) :
    (u.turned k t).tally p = u.tally p := by
  simp only [turned, posted]
  cases t.offer with
  | none => rfl
  | some made =>
    simp only
    split
    · exact Function.update_of_ne (by omega) ..
    · rfl

theorem turned_tally (u : Workplace α) (k : Nat) (t : Turn Ledger α) (p : Nat) :
    ∃ sent, (u.turned k t).tally p = { u.tally p with sent } := by
  simp only [turned, posted]
  cases t.offer with
  | none => exact ⟨_, rfl⟩
  | some made =>
    simp only
    split
    · by_cases mine : p = made.1
      · rw [mine, Function.update_self]
        exact ⟨_, rfl⟩
      · rw [Function.update_of_ne mine]
        exact ⟨_, rfl⟩
    · exact ⟨_, rfl⟩

theorem turned_length (u : Workplace α) (k : Nat) (t : Turn Ledger α) :
    (u.turned k t).world.pools.length = u.world.pools.length := by
  simp only [turned, World.turned]
  cases t.offer with
  | none => rfl
  | some made => exact List.length_modify ..

section
variable [DecidableEq α] (u : Workplace α) (p : Nat) (life : Life α) (effect : Pool.Effect α)

theorem worked_pools : (u.worked p life effect).world.pools = u.world.pools.set p life.pool :=
  (World.worked_still ..).2

theorem worked_self : (u.worked p life effect).tally p = life.toTally := Function.update_self ..

theorem worked_other {q : Nat} (other : q ≠ p) :
    (u.worked p life effect).tally q = u.tally q :=
  Function.update_of_ne other ..

end

end

variable [DecidableEq α]

/-- Whatever can be done to a world, with the pools at work in between. -/
inductive Move (u : Workplace α) : Workplace α → Prop where
  | turn {k : Nat} {l : ReadLoop Ledger α} {t : Turn Ledger α} (here : u.world.loops[k]? = some l)
    (takes : l.Takes k u.world.now u.world.broker t) : Move u (u.turned k t)
  | work {p : Nat} {pool : Pool α} {effect : Pool.Effect α} {life : Life α}
    (here : u.world.pools[p]? = some pool) (works : Life.Work ⟨u.tally p, pool⟩ effect life) :
    Move u (u.worked p life effect)
  | call {c : Nat} {w : World Ledger α} (possible : u.world.callStep c = some w) :
    Move u { u with world := w }
  | wait (ms : Nat) : Move u { u with world := { u.world with now := u.world.now + ms } }
  | command (c : World.Command Ledger α) : Move u { u with world := u.world.obey c }

abbrev Leads : Workplace α → Workplace α → Prop := Relation.ReflTransGen Move

/-- What can come about, starting with nothing but a broker. -/
abbrev Ran (u : Workplace α) : Prop := opening.Leads u

variable {u v : Workplace α} {p : Nat} {pool : Pool α} {life : Life α} {effect : Pool.Effect α}

/-- Whatever happens to the queues, to a pool there happens what may happen to a pool. -/
theorem Move.lives (move : Move u v) (here : u.world.pools[p]? = some pool) :
    ∃ pool', v.world.pools[p]? = some pool' ∧
      Life.Leads ⟨u.tally p, pool⟩ ⟨v.tally p, pool'⟩ := by
  cases move with
  | @turn k l t =>
    obtain ⟨pool', there, ⟨value, -, rfl, tally⟩ | ⟨-, rfl, tally⟩⟩ := turned_pool here k t
    · refine ⟨_, there, ?_⟩
      rw [tally]
      exact .single (.send k value)
    · refine ⟨_, there, ?_⟩
      rw [tally]
  | @work q pool₁ effect life there works =>
    rw [worked_pools]
    by_cases mine : q = p
    · subst mine
      obtain rfl : pool = pool₁ := Option.some.inj (here.symm.trans there)
      have bound := (List.getElem?_eq_some_iff.mp here).1
      refine ⟨life.pool, List.getElem?_set_self bound, ?_⟩
      rw [worked_self]
      exact .single (.work works)
    · refine ⟨pool, by rw [List.getElem?_set_ne mine, here], ?_⟩
      rw [worked_other u q life effect (Ne.symm mine)]
  | call possible =>
    obtain ⟨-, -, -, pools⟩ := World.callStep_still possible
    exact ⟨pool, pools ▸ here, .refl⟩
  | wait => exact ⟨pool, here, .refl⟩
  | command c =>
    obtain same | ⟨label, work, n, more⟩ | ⟨q, shut⟩ := World.obey_pools u.world c
    · exact ⟨pool, same ▸ here, .refl⟩
    · have bound := (List.getElem?_eq_some_iff.mp here).1
      exact ⟨pool, by rw [more, List.getElem?_append_left bound, here], .refl⟩
    · by_cases mine : q = p
      · exact ⟨pool.close, by simp [shut, mine, here], .single .close⟩
      · exact ⟨pool, by simp [shut, mine, here], .refl⟩

/-- In any run, a pool stays and is at work. -/
theorem Leads.lives (later : u.Leads v) (here : u.world.pools[p]? = some pool) :
    ∃ pool', v.world.pools[p]? = some pool' ∧
      Life.Leads ⟨u.tally p, pool⟩ ⟨v.tally p, pool'⟩ := by
  induction later with
  | refl => exact ⟨pool, here, .refl⟩
  | tail _ move ih =>
    obtain ⟨pool₁, there, before⟩ := ih
    obtain ⟨pool₂, there, after⟩ := move.lives there
    exact ⟨pool₂, there, before.trans after⟩

theorem Move.vacant (move : Move u v) :
    u.world.pools.length ≤ v.world.pools.length ∧
      ∀ p, u.world.pools.length ≤ p → v.tally p = u.tally p := by
  cases move with
  | @turn k l t =>
    refine ⟨Nat.le_of_eq (turned_length u k t).symm, ?_⟩
    intro p absent
    exact turned_absent absent k t
  | @work q pool effect life there =>
    have bound := (List.getElem?_eq_some_iff.mp there).1
    rw [worked_pools, List.length_set]
    refine ⟨Nat.le_refl _, ?_⟩
    intro p absent
    exact worked_other u q life effect (by omega)
  | call possible =>
    obtain ⟨-, -, -, pools⟩ := World.callStep_still possible
    exact ⟨Nat.le_of_eq (congrArg List.length pools.symm), fun _ _ => rfl⟩
  | wait => exact ⟨Nat.le_refl _, fun _ _ => rfl⟩
  | command c =>
    refine ⟨?_, fun _ _ => rfl⟩
    obtain same | ⟨label, work, n, more⟩ | ⟨q, shut⟩ := World.obey_pools u.world c
    · exact Nat.le_of_eq (congrArg List.length same.symm)
    · simp [more]
    · simp [shut]

/-- Where a pool comes from: it was there, or it has just been started. -/
theorem Move.founded (move : Move u v) (there : v.world.pools[p]? = some pool) :
    (∃ pool₀, u.world.pools[p]? = some pool₀) ∨
      (u.world.pools.length ≤ p ∧ ∃ label work n, pool = Pool.start label work n) := by
  by_cases old : p < u.world.pools.length
  · exact .inl ⟨_, List.getElem?_eq_getElem old⟩
  · have bound := (List.getElem?_eq_some_iff.mp there).1
    refine .inr ⟨by omega, ?_⟩
    cases move with
    | @turn k l t =>
      rw [turned_length] at bound
      omega
    | @work q pool₁ effect life =>
      rw [worked_pools, List.length_set] at bound
      omega
    | call possible =>
      obtain ⟨-, -, -, pools⟩ := World.callStep_still possible
      simp only [pools] at bound
      omega
    | wait => exact absurd bound old
    | command c =>
      obtain same | ⟨label, work, n, more⟩ | ⟨q, shut⟩ := World.obey_pools u.world c
      · simp only [same] at bound
        omega
      · rw [more] at there
        obtain here | ⟨-, rfl⟩ := getElem?_concat_some there
        · exact absurd (List.getElem?_eq_some_iff.mp here).1 old
        · exact ⟨label, work, n, rfl⟩
      · simp only [shut, List.length_modify] at bound
        omega

theorem Housed.move (h : Housed u) (move : Move u v) : Housed v := by
  obtain ⟨more, still⟩ := move.vacant
  constructor
  case pools =>
    intro p pool there
    obtain ⟨pool₀, here⟩ | ⟨new, label, work, n, rfl⟩ := move.founded there
    · obtain ⟨label, work, n, before⟩ := h.pools p pool₀ here
      obtain ⟨pool', there', after⟩ := move.lives here
      obtain rfl : pool' = pool := Option.some.inj (there'.symm.trans there)
      exact ⟨label, work, n, before.trans after⟩
    · refine ⟨label, work, n, ?_⟩
      rw [still p new, h.vacant p new]
      exact .refl
  case vacant =>
    intro p absent
    have absent : u.world.pools.length ≤ p := Nat.le_trans more absent
    rw [still p absent, h.vacant p absent]

theorem Ran.housed (ran : Ran u) : Housed u := by
  have start : Housed (opening : Workplace α) := ⟨nofun, fun _ _ => rfl⟩
  induction ran with
  | refl => exact start
  | tail _ move ih => exact ih.move move

theorem Move.passes (move : Move u v) : World.Passes u.world v.world := by
  cases move with
  | turn here takes =>
    exact World.move_passes (.step (.loop _) (World.takes_loopStep here takes))
  | @work p pool effect life here works =>
    have change := (World.worked_apart u.world p life.pool effect).change
    have pools := World.worked_pools here works.lasts effect
    exact .single ⟨⟨_, World.worked_books u.world p life.pool effect⟩, change.lasting pools⟩
  | call possible => exact World.move_passes (.step (.call _) possible)
  | wait ms => exact World.move_passes (.step (.wait ms) rfl)
  | command c => exact World.move_passes (.command c)

theorem Leads.passes (later : u.Leads v) : World.Passes u.world v.world := by
  induction later with
  | refl => exact .refl
  | tail _ move ih => exact ih.trans move.passes

theorem Ran.listed (ran : Ran u) : World.Listed u.world := by
  have start : World.Listed (opening : Workplace α).world := ⟨nofun, nofun⟩
  exact (Leads.passes ran).listed start

/-- Every step that a pool has begun is done. -/
def Settled (u : Workplace α) : Prop := ∀ p, (u.tally p).granted = [] ∧ (u.tally p).spent = 0

/-- What is to be seen of a pool is seen when it has become what it becomes. -/
theorem worked_worked (w : World Ledger α) (p : Nat) (a b : Pool α) (effect : Pool.Effect α) :
    (w.worked p a .none).worked p b effect = w.worked p b effect ∧
      (a.label = b.label → (w.worked p a effect).worked p b .none = w.worked p b effect) := by
  constructor
  · simp only [World.worked, World.effected, List.set_set]
  · intro label
    have answered (k : Nat) (accept : Bool) :
        { World.answerOffer { w with pools := w.pools.set p a } k accept with
          pools := (w.pools.set p a).set p b } =
        World.answerOffer { w with pools := w.pools.set p b } k accept := by
      rw [List.set_set]
      unfold World.answerOffer
      simp only
      split
      · split
        · cases accept with
          | true => rfl
          | false =>
            simp only [World.report, World.utter_eq_note]
            rfl
        · rfl
      · rfl
    cases effect with
    | accepted k | refused k =>
      simp only [World.worked, World.effected, (World.answerOffer_still _ k _).2]
      exact answered ..
    | started value => simp [World.worked, World.effected, World.note, label]
    | finished value freed =>
      cases freed <;> simp [World.worked, World.effected, World.note, label]
    | none => simp [World.worked, World.effected]

/-- Two halves of what a pool does may follow each other at once. -/
theorem works_twice {effect' : Pool.Effect α} {between : Life α}
    (here : u.world.pools[p]? = some pool)
    (first : Life.Work ⟨u.tally p, pool⟩ effect between) (second : between.Work effect' life) :
    ∃ v, u.Leads v ∧
      v.world = (u.world.worked p between.pool effect).worked p life.pool effect' ∧
      v.tally = Function.update u.tally p life.toTally := by
  have bound := (List.getElem?_eq_some_iff.mp here).1
  have there : (u.worked p between effect).world.pools[p]? = some between.pool := by
    rw [worked_pools, List.getElem?_set_self bound]
  have second : Life.Work ⟨(u.worked p between effect).tally p, between.pool⟩ effect' life := by
    rwa [worked_self]
  have run : u.Leads ((u.worked p between effect).worked p life effect') :=
    .tail (.single (.work here first)) (.work there second)
  exact ⟨_, run, rfl, Function.update_idem ..⟩

/-- A step of the world is one move or two, and no step is left half done. -/
theorem Settled.step (settled : Settled u) (housed : Housed u) {s : Step} {w : World Ledger α}
    (possible : u.world.step s = some w) : ∃ v, u.Leads v ∧ v.world = w ∧ Settled v := by
  cases s with
  | loop k =>
    obtain ⟨l, t, here, takes, rfl⟩ := World.loopStep_takes possible
    refine ⟨_, .single (.turn here takes), rfl, ?_⟩
    intro p
    obtain ⟨sent, same⟩ := turned_tally u k t p
    rw [same]
    exact settled p
  | pool p s =>
    obtain ⟨pool, pool', effect, here, stepped, rfl⟩ := World.poolStep_worked possible
    obtain ⟨size, positive, sound⟩ := housed.sound here
    obtain ⟨granted, spent⟩ := settled p
    obtain ⟨life, passes, rfl, granted', spent'⟩ :=
      sound.step_works positive granted spent stepped
    have done (q : Nat) : (Function.update u.tally p life.toTally q).granted = [] ∧
        (Function.update u.tally p life.toTally q).spent = 0 := by
      by_cases mine : q = p
      · subst mine
        rw [Function.update_self]
        exact ⟨granted', spent'⟩
      · rw [Function.update_of_ne mine]
        exact settled q
    -- Of two halves, one has the effect, and the other is not to be seen.
    cases passes with
    | whole works => exact ⟨_, .single (.work here works), rfl, done⟩
    | @late between first second =>
      obtain ⟨v, later, world, tally⟩ := works_twice here first second
      refine ⟨v, later, ?_, ?_⟩
      · rw [world, (worked_worked u.world p between.pool life.pool effect).1]
      · intro q
        rw [tally]
        exact done q
    | @early between first second =>
      obtain ⟨v, later, world, tally⟩ := works_twice here first second
      refine ⟨v, later, ?_, ?_⟩
      · rw [world, (worked_worked u.world p between.pool life.pool effect).2 second.label.symm]
      · intro q
        rw [tally]
        exact done q
  | call c => exact ⟨_, .single (.call possible), rfl, settled⟩
  | wait ms =>
    obtain rfl := Option.some.inj possible
    exact ⟨_, .single (.wait ms), rfl, settled⟩

/-- What can be done to a world can be done with its pools at work. -/
theorem Settled.leads (settled : Settled u) (ran : Ran u) {w : World Ledger α}
    (later : u.world.Leads w) : ∃ v, u.Leads v ∧ v.world = w ∧ Settled v := by
  induction later with
  | refl => exact ⟨u, .refl, rfl, settled⟩
  | tail _ move ih =>
    obtain ⟨v, later, rfl, settled⟩ := ih
    cases move with
    | step s possible =>
      obtain ⟨x, last, same, settled⟩ := settled.step (Ran.housed (ran.trans later)) possible
      exact ⟨x, later.trans last, same, settled⟩
    | command c => exact ⟨_, later.tail (.command c), rfl, settled⟩

/-- **Every world that can be reached is one with its pools at work**, between their steps. -/
theorem ran_of_reachable {w : World Ledger α} (reach : World.Reachable {} w) :
    ∃ u, Ran u ∧ u.world = w ∧ Settled u := by
  have later : (opening : Workplace α).world.Leads w := by
    induction reach with
    | start => exact .refl
    | next _ move ih => exact ih.tail move
  exact Settled.leads (fun _ => ⟨rfl, rfl⟩) .refl later

end Workplace

end Queue

end Courier
