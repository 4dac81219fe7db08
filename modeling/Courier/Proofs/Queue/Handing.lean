import Courier.Proofs.Queue.Workplace

/-!
# Values on their way to a pool

A loop that hands a value over waits for the answer of its pool, and does
nothing else meanwhile:

* `Calm`: what a command does to a loop;
* `Handing`: what is under way in the name of a loop is the value of the message
  that the loop has in hand;
* `works_serves`: a pool does nothing to the loops but answer what they have
  handed over;
* `Ran.handing`: this holds in every run.
-/

namespace Courier.Queue

open Broker (Ledger)
open Pool (Life)

variable {α : Type}

/-- What may befall a loop while a command is obeyed: it is woken, or it is cancelled. -/
structure Calm (l l' : ReadLoop Ledger α) : Prop where
  rest : l' = { l with phase := l'.phase, cancelled := l'.cancelled }
  phase : l'.phase = l.phase ∨ (l.phase = .parked ∧ l'.phase = .ready)

theorem Calm.refl (l : ReadLoop Ledger α) : Calm l l := ⟨rfl, .inl rfl⟩

theorem Calm.handling {l l' : ReadLoop Ledger α} (h : Calm l l') (m : Message) (stage : Stage α) :
    l'.phase = .handling m stage ↔ l.phase = .handling m stage := by
  obtain same | ⟨parked, ready⟩ := h.phase
  · rw [same]
  · simp [parked, ready]

/-- Every loop is calm, and a new one is about to fetch. -/
structure CalmAll (a b : List (ReadLoop Ledger α)) : Prop where
  old : ∀ (k : Nat) (l : ReadLoop Ledger α), a[k]? = some l → ∃ l', b[k]? = some l' ∧ Calm l l'
  new : ∀ (k : Nat) (l' : ReadLoop Ledger α), b[k]? = some l' → a[k]? = none → l'.phase = .ready

namespace CalmAll

variable {a b : List (ReadLoop Ledger α)}

theorem refl (a : List (ReadLoop Ledger α)) : CalmAll a a := by
  constructor
  case old => exact fun k l here => ⟨l, here, .refl l⟩
  case new =>
    intro k l' there none
    simp [there] at none

theorem of_each {f : ReadLoop Ledger α → ReadLoop Ledger α}
    (each : ∀ k : Nat, b[k]? = a[k]? ∨ b[k]? = a[k]?.map f) (calm : ∀ l, Calm l (f l)) :
    CalmAll a b := by
  constructor
  case old =>
    intro k l here
    obtain same | mapped := each k
    · exact ⟨l, same.trans here, .refl l⟩
    · exact ⟨f l, by rw [mapped, here, Option.map_some], calm l⟩
  case new =>
    intro k l' there none
    obtain same | mapped := each k
    · rw [same, none] at there
      cases there
    · rw [mapped, none] at there
      cases there

theorem map {f : ReadLoop Ledger α → ReadLoop Ledger α} (calm : ∀ l, Calm l (f l))
    (a : List (ReadLoop Ledger α)) : CalmAll a (a.map f) :=
  .of_each (fun _ => .inr List.getElem?_map) calm

theorem modify {f : ReadLoop Ledger α → ReadLoop Ledger α} (calm : ∀ l, Calm l (f l))
    (a : List (ReadLoop Ledger α)) (j : Nat) : CalmAll a (a.modify j f) := by
  apply of_each ?_ calm
  intro k
  by_cases mine : j = k
  · exact .inr (by simp [mine])
  · exact .inl (by simp [mine])

theorem concat (a : List (ReadLoop Ledger α)) {l : ReadLoop Ledger α} (ready : l.phase = .ready) :
    CalmAll a (a ++ [l]) := by
  constructor
  case old =>
    intro k l₀ here
    have bound := (List.getElem?_eq_some_iff.mp here).1
    exact ⟨l₀, by rw [List.getElem?_append_left bound, here], .refl l₀⟩
  case new =>
    intro k l' there none
    obtain here | ⟨-, rfl⟩ := getElem?_concat_some there
    · simp [here] at none
    · exact ready

end CalmAll

namespace World

theorem calm_cancel (l : ReadLoop Ledger α) : Calm l { l with cancelled := true } :=
  ⟨rfl, .inl rfl⟩

theorem wake_calm (w : World Ledger α) : CalmAll w.loops w.wake.loops := by
  apply CalmAll.map
  intro l
  split
  · next parked => exact ⟨rfl, .inr ⟨parked, rfl⟩⟩
  · exact .refl l

theorem cancelAll_calm (w : World Ledger α) (q : Nat) :
    CalmAll w.loops (w.cancelAll q).loops := by
  apply CalmAll.map
  intro l
  split
  · exact calm_cancel l
  · exact .refl l

theorem publish_calm (w : World Ledger α) (q : Nat) (topic : Topic) (payload : Payload) :
    CalmAll w.loops (w.publish q topic payload).2.loops := by
  rw [publish_eq]
  split
  · exact .refl _
  · next r _ =>
    split
    · exact .refl _
    · obtain eq | ⟨e, eq⟩ := put_eq w q r
      · rw [eq]
        exact wake_calm w
      · rw [eq]
        exact .refl _

/-- Commands leave messages in hand alone. -/
theorem obey_calm (w : World Ledger α) (c : Command Ledger α) :
    CalmAll w.loops (w.obey c).loops := by
  cases c with
  | connect files config =>
    have same : (w.connect files config).2.loops = w.loops := by
      unfold connect
      repeat' split
      all_goals rfl
    exact same ▸ .refl _
  | publish q topic payload => exact publish_calm w q topic payload
  | publishJson q topic value =>
    cases value with
    | error reason => exact .refl _
    | ok json => exact publish_calm w q topic _
  | subscribe q topic group label s =>
    rcases h : w.subscribe q topic group label s with ⟨result, v⟩
    simp only [obey, h]
    cases result with
    | ok id =>
      obtain ⟨isDebug, -, loops, -⟩ := subscribe_ok h
      rw [loops]
      exact .concat w.loops rfl
    | error e =>
      rw [subscribe_error h]
      exact .refl _
  | unsubscribe q id =>
    simp only [obey, unsubscribe]
    split
    · exact .refl _
    · split
      · exact .refl _
      · exact .modify calm_cancel w.loops _
  | close q =>
    simp only [obey, close]
    split
    · exact .refl _
    · split
      · exact .refl _
      · simp only
        split <;> exact cancelAll_calm w q
  | drop q => exact cancelAll_calm w q
  | startPool | closePool | shutdownPool | release => exact .refl _
  | control c =>
    simp only [obey, control]
    split
    · exact wake_calm w
    · exact .refl _

theorem answerOffer_offered {w : World Ledger α} {k : Nat} {l : ReadLoop Ledger α} {m : Message}
    (here : w.loops[k]? = some l) (phase : l.phase = .handling m .offered) (accept : Bool) :
    (w.answerOffer k accept).loops =
      w.loops.set k { l with phase := .handling m (.answered accept w.now) } := by
  unfold answerOffer
  simp only [here, phase]
  cases accept with
  | true => rfl
  | false =>
    rw [report, utter_eq_note]
    rfl

end World

namespace Workplace

variable {u v : Workplace α} {p : Nat} {pool : Pool α} {life : Life α} {effect : Pool.Effect α}

/-- Loop `k` has handed value `v` over to pool `p` and waits for the answer. -/
inductive Asks (w : World Ledger α) (p k : Nat) (v : α) : Prop where
  | intro {l : ReadLoop Ledger α} {m : Message} {d : Decoder α} (here : w.loops[k]? = some l)
    (pooled : l.subscriber = .pooled d p) (phase : l.phase = .handling m .offered)
    (decoded : d.decode m.payload = .ok v)

/-- What is under way to a pool in the name of a loop is one value, which the loop has handed
over. -/
def Handing (u : Workplace α) : Prop :=
  ∀ (p : Nat) (pool : Pool α), u.world.pools[p]? = some pool → ∀ k,
    Life.underway ⟨u.tally p, pool⟩ k = [] ∨
      ∃ v, Life.underway ⟨u.tally p, pool⟩ k = [(k, v)] ∧ Asks u.world p k v

theorem takes_offer {k now : Nat} {b : Ledger} {l : ReadLoop Ledger α} {t : Turn Ledger α} {v : α}
    (takes : l.Takes k now b t) (offer : t.offer = some (p, v)) :
    ∃ d m, t.loop.subscriber = .pooled d p ∧ t.loop.phase = .handling m .offered ∧
      d.decode m.payload = .ok v := by
  cases takes with
  | @deliver _ _ m r said calls _ _ _ received =>
    have offer : offerOf l.subscriber r = some (p, v) := offer
    cases pooled : l.subscriber with
    | direct | typed => cases r <;> simp [offerOf, pooled] at offer
    | pooled d q =>
      simp only [pooled, Subscriber.receive] at received
      cases decoded : d.decode m.payload with
      | error e =>
        simp only [decoded, Prod.mk.injEq] at received
        obtain ⟨rfl, -, -⟩ := received
        simp [offerOf] at offer
      | ok value =>
        simp only [decoded, Prod.mk.injEq] at received
        obtain ⟨rfl, -, -⟩ := received
        obtain ⟨rfl, rfl⟩ : q = p ∧ value = v := by simpa [offerOf, pooled] using offer
        exact ⟨d, m, rfl, rfl, decoded⟩
  | stop | park | lose | falter | accept | reject | leave | rise | fail => cases offer

theorem takes_asked {k now : Nat} {b : Ledger} {l : ReadLoop Ledger α} {t : Turn Ledger α}
    (takes : l.Takes k now b t) (m : Message) : l.phase ≠ .handling m .offered := by
  intro asked
  cases takes with
  | stop phase => obtain phase | phase := phase <;> simp [asked] at phase
  | park phase | deliver phase | lose phase | falter phase | accept phase | reject phase
  | leave phase | rise phase | fail phase => simp [asked] at phase

theorem Asks.of_loops {w w' : World Ledger α} {k : Nat} {v : α} (h : Asks w p k v)
    (loops : w'.loops = w.loops) : Asks w' p k v := by
  obtain ⟨here, pooled, phase, decoded⟩ := h
  exact ⟨loops ▸ here, pooled, phase, decoded⟩

theorem Asks.calm {w w' : World Ledger α} {k : Nat} {v : α} (h : Asks w p k v)
    (calm : CalmAll w.loops w'.loops) : Asks w' p k v := by
  obtain @⟨l, m, d, here, pooled, phase, decoded⟩ := h
  obtain ⟨l', there, rest⟩ := calm.old k l here
  have subscriber : l'.subscriber = l.subscriber := by rw [rest.rest]
  exact ⟨there, subscriber.trans pooled, (rest.handling m .offered).mpr phase, decoded⟩

theorem Asks.set {w w' : World Ledger α} {j k : Nat} {v : α} {l : ReadLoop Ledger α}
    (h : Asks w p k v) (loops : w'.loops = w.loops.set j l) (other : j ≠ k) : Asks w' p k v := by
  obtain ⟨here, pooled, phase, decoded⟩ := h
  refine ⟨?_, pooled, phase, decoded⟩
  rw [loops, List.getElem?_set_ne other, here]

theorem Handing.turn (h : Handing u) {j : Nat} {l : ReadLoop Ledger α} {t : Turn Ledger α}
    (there : u.world.loops[j]? = some l) (takes : l.Takes j u.world.now u.world.broker t) :
    Handing (u.turned j t) := by
  intro p pool' present k
  have bound := (List.getElem?_eq_some_iff.mp present).1
  rw [turned_length] at bound
  have here := List.getElem?_eq_getElem bound
  have before := h p _ here k
  -- The loop that takes the turn has no value under way.
  have mine (same : k = j) : Life.underway ⟨u.tally p, u.world.pools[p]⟩ k = [] := by
    obtain none | ⟨v, -, ⟨here, -, phase, -⟩⟩ := before
    · exact none
    · subst same
      obtain rfl := Option.some.inj (here.symm.trans there)
      exact absurd phase (takes_asked takes _)
  have old (other : ¬k = j) : Life.underway ⟨u.tally p, u.world.pools[p]⟩ k = [] ∨
      ∃ v, Life.underway ⟨u.tally p, u.world.pools[p]⟩ k = [(k, v)] ∧
        Asks (u.turned j t).world p k v := by
    obtain none | ⟨v, one, asks⟩ := before
    · exact .inl none
    · exact .inr ⟨v, one, asks.set rfl (Ne.symm other)⟩
  obtain ⟨pool₁, same, ⟨value, offer, rfl, tally⟩ | ⟨-, rfl, tally⟩⟩ := turned_pool here j t
  · obtain rfl := Option.some.inj (same.symm.trans present)
    rw [tally]
    have more : Life.underway ⟨{ u.tally p with sent := (u.tally p).sent ++ [(j, value)] },
        u.world.pools[p].offer j value⟩ k =
        Life.underway ⟨u.tally p, u.world.pools[p]⟩ k ++ [(j, value)].filter (·.1 = k) := by
      simp [Life.underway, Pool.offer]
    rw [more]
    by_cases same : k = j
    · obtain ⟨d, m, pooled, phase, decoded⟩ := takes_offer takes offer
      have loops := (List.getElem?_eq_some_iff.mp there).1
      subst same
      refine .inr ⟨value, by simp [mine], ?_⟩
      exact ⟨List.getElem?_set_self loops, pooled, phase, decoded⟩
    · have none : [(j, value)].filter (·.1 = k) = [] := by simp [Ne.symm same]
      rw [none, List.append_nil]
      exact old same
  · obtain rfl := Option.some.inj (same.symm.trans present)
    rw [tally]
    by_cases same : k = j
    · exact .inl (mine same)
    · exact old same

variable [DecidableEq α]

/-- What a pool does to the loops: nothing, or one of them has its answer. -/
inductive Serves (u : Workplace α) (p : Nat) (pool : Pool α) (effect : Pool.Effect α)
    (life : Life α) : Prop where
  | silent (none : effect.verdict = none)
    (loops : (u.worked p life effect).world.loops = u.world.loops)
    (said : (u.worked p life effect).said = u.said)
    (underway : ∀ k, life.underway k = Life.underway ⟨u.tally p, pool⟩ k)
  | answer {k : Nat} {accept : Bool} {l : ReadLoop Ledger α} {m : Message} {d : Decoder α} {v : α}
    (verdict : effect.verdict = some (k, accept)) (here : u.world.loops[k]? = some l)
    (pooled : l.subscriber = .pooled d p) (phase : l.phase = .handling m .offered)
    (decoded : d.decode m.payload = .ok v)
    (asked : Life.underway ⟨u.tally p, pool⟩ k = [(k, v)]) (done : life.underway k = [])
    (others : ∀ j, j ≠ k → life.underway j = Life.underway ⟨u.tally p, pool⟩ j)
    (loops : (u.worked p life effect).world.loops =
      u.world.loops.set k { l with phase := .handling m (.answered accept u.world.now) })
    (said : (u.worked p life effect).said = if accept then u.said else Function.update u.said k
      (u.said k ++ [[.line (Subscriber.pooledError (some m) Subscriber.handoffRefused)]]))

theorem works_serves (handing : Handing u) (here : u.world.pools[p]? = some pool)
    (works : Life.Work ⟨u.tally p, pool⟩ effect life) : Serves u p pool effect life := by
  obtain ⟨given, kept⟩ := works.underway
  have answer {k : Nat} {accept : Bool} (verdict : effect.verdict = some (k, accept))
      (loops : (u.worked p life effect).world.loops =
        (World.answerOffer { u.world with pools := u.world.pools.set p life.pool } k accept).loops)
      (said : (u.worked p life effect).said =
        if accept then u.said else Function.update u.said k (u.said k ++ [u.world.refusal k])) :
      Serves u p pool effect life := by
    -- A value that was under way is answered: its loop has no other, and waits for this answer.
    obtain ⟨v, before, after, asked, left⟩ := given k accept verdict
    obtain none | ⟨v', asked', ⟨there, pooled, phase, decoded⟩⟩ := handing p pool here k
    · simp [asked] at none
    · have one : before ++ (k, v) :: after = [(k, v')] := asked.symm.trans asked'
      obtain ⟨rfl, -, rfl⟩ : before = [] ∧ (k, v) = (k, v') ∧ after = [] := by
        simpa [List.append_eq_singleton_iff] using one
      refine .answer verdict there pooled phase decoded asked' left ?_ ?_ ?_
      · intro j other
        apply kept
        intro accept' verdict'
        rw [verdict] at verdict'
        obtain ⟨rfl, -⟩ := Prod.mk.inj (Option.some.inj verdict')
        exact other rfl
      · exact loops.trans (World.answerOffer_offered
          (w := { u.world with pools := u.world.pools.set p life.pool }) there phase accept)
      · rw [said, World.refusal]
        simp only [there, phase, pooled, Subscriber.report, noteOf]
  cases effect with
  | accepted k => exact answer rfl rfl rfl
  | refused k => exact answer rfl rfl rfl
  | started value => exact .silent rfl rfl rfl fun k => kept k nofun
  | finished value freed =>
    refine .silent rfl ?_ rfl fun k => kept k nofun
    cases freed <;> rfl
  | none => exact .silent rfl rfl rfl fun k => kept k nofun

theorem Handing.work (h : Handing u) {q : Nat} (here : u.world.pools[q]? = some pool)
    (works : Life.Work ⟨u.tally q, pool⟩ effect life) : Handing (u.worked q life effect) := by
  intro p pool' present k
  rw [worked_pools] at present
  have bound := (List.getElem?_eq_some_iff.mp here).1
  by_cases same : q = p
  · subst same
    obtain rfl := Option.some.inj ((List.getElem?_set_self bound).symm.trans present)
    rw [worked_self]
    have before := h q pool here k
    cases works_serves h here works with
    | silent none loops _ underway =>
      rw [underway k]
      obtain none | ⟨v, one, asks⟩ := before
      · exact .inl none
      · exact .inr ⟨v, one, asks.of_loops loops⟩
    | @answer k' _ _ _ _ _ _ _ _ _ _ _ done others loops =>
      by_cases mine : k = k'
      · subst mine
        exact .inl done
      · rw [others k mine]
        obtain none | ⟨v, one, asks⟩ := before
        · exact .inl none
        · exact .inr ⟨v, one, asks.set loops (Ne.symm mine)⟩
  · rw [List.getElem?_set_ne same] at present
    rw [worked_other u q life effect (Ne.symm same)]
    obtain none | ⟨v, one, asks⟩ := h p pool' present k
    · exact .inl none
    · refine .inr ⟨v, one, ?_⟩
      cases works_serves h here works with
      | silent _ loops => exact asks.of_loops loops
      | @answer k' _ _ _ _ _ _ there pooled _ _ _ _ _ loops =>
        apply asks.set loops
        rintro rfl
        -- Nobody waits for two pools.
        obtain ⟨here, pooled', -, -⟩ := asks
        obtain rfl := Option.some.inj (here.symm.trans there)
        rw [pooled] at pooled'
        cases pooled'
        exact same rfl

theorem Handing.move (h : Handing u) (housed : Housed u) (move : Move u v) : Handing v := by
  cases move with
  | turn there takes => exact h.turn there takes
  | work here works => exact h.work here works
  | call possible =>
    obtain ⟨-, -, loops, pools⟩ := World.callStep_still possible
    intro p pool present k
    obtain none | ⟨v, one, asks⟩ := h p pool (pools ▸ present) k
    · exact .inl none
    · exact .inr ⟨v, one, asks.of_loops loops⟩
  | wait =>
    intro p pool present k
    obtain none | ⟨v, one, asks⟩ := h p pool present k
    · exact .inl none
    · exact .inr ⟨v, one, asks.of_loops rfl⟩
  | command c =>
    have calm := World.obey_calm u.world c
    have old {p : Nat} {pool : Pool α} (here : u.world.pools[p]? = some pool) (k : Nat) :
        Life.underway ⟨u.tally p, pool⟩ k = [] ∨
          ∃ v, Life.underway ⟨u.tally p, pool⟩ k = [(k, v)] ∧ Asks (u.world.obey c) p k v := by
      obtain none | ⟨v, one, asks⟩ := h p pool here k
      · exact .inl none
      · exact .inr ⟨v, one, asks.calm calm⟩
    intro p pool present k
    obtain same | ⟨label, work, n, more⟩ | ⟨q, shut⟩ := World.obey_pools u.world c
    · exact old (same ▸ present) k
    · simp only [more] at present
      obtain here | ⟨rfl, rfl⟩ := getElem?_concat_some present
      · exact old here k
      · refine .inl ?_
        simp only [housed.vacant _ (Nat.le_refl _)]
        rfl
    · simp only [shut, List.getElem?_modify] at present
      obtain ⟨pool₀, here, rfl⟩ := Option.map_eq_some_iff.mp present
      have before := old here k
      split <;> exact before

theorem Ran.handing (ran : Ran u) : Handing u := by
  have start : Handing (opening : Workplace α) := nofun
  induction ran with
  | refl => exact start
  | tail before move ih => exact ih.move (Ran.housed before) move

end Workplace

end Courier.Queue
