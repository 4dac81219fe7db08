import Courier.Proofs.Pool.Stop
import Courier.Proofs.Queue.Handing
import Courier.Proofs.Queue.Rebuff

/-!
# Queues whose pool is stopped

A pool is stopped by closing it, with or without waiting for its workers, and
its subscriptions go on meanwhile:

* `Faces`: what the loop of a pooled subscriber has said since then;
* `Faces.move`: whatever happens, it goes on like that;
* `stop_law`: no value is taken on any more, every message that can be decoded is
  reported and held back, and when a call that waited for the workers has
  returned, no callback runs or starts.
-/

namespace Courier.Queue

open Broker (Ledger)
open Pool (Life)

variable {α : Type}

theorem Calm.standing {l l' : ReadLoop Ledger α} (calm : Calm l l') (holds : Bool) :
    l'.standing holds = l.standing holds := by
  unfold ReadLoop.standing
  obtain same | ⟨parked, ready⟩ := calm.phase
  · rw [same]
  · rw [parked, ready]

namespace Workplace

/-- The message that loop `k` has in hand, and how far pool `p` is with its value. -/
def stand (u : Workplace α) (p k : Nat) : Option (Message × Stand) :=
  u.world.loops[k]?.bind fun l => l.standing ((u.tally p).granted.any (·.1 = k))

/-- What loop `k` has said since `s`, if it is that of a subscriber of pool `p`. -/
inductive Faces (s u : Workplace α) (p k : Nat) : Prop where
  | absent (missing : u.world.loops[k]? = none) (said : u.said k = s.said k)
    (start : s.stand p k = none)
  | present {l : ReadLoop Ledger α} (here : u.world.loops[k]? = some l)
    (rebuffs : ∀ d, l.subscriber = .pooled d p → ∃ more, u.said k = s.said k ++ more ∧
      Rebuff k l.topic.name d (s.stand p k) more (u.stand p k))

section
variable {s u v : Workplace α} {p k : Nat} {pool : Pool α} {life : Life α}
  {effect : Pool.Effect α}

theorem stand_of_loop {l : ReadLoop Ledger α} (here : u.world.loops[k]? = some l) :
    u.stand p k = l.standing ((u.tally p).granted.any (·.1 = k)) := by
  rw [stand, here, Option.bind_some]

theorem stand_congr (loop : v.world.loops[k]? = u.world.loops[k]?)
    (granted : (v.tally p).granted.any (·.1 = k) = (u.tally p).granted.any (·.1 = k)) :
    v.stand p k = u.stand p k := by
  rw [stand, stand, loop, granted]

theorem Faces.refl (s : Workplace α) (p k : Nat) : Faces s s p k := by
  cases here : s.world.loops[k]? with
  | none => exact .absent here rfl (by rw [stand, here]; rfl)
  | some l => exact .present here fun d _ => ⟨[], (List.append_nil _).symm, .start⟩

theorem Faces.same (h : Faces s u p k) (loop : v.world.loops[k]? = u.world.loops[k]?)
    (said : v.said k = u.said k)
    (granted : (v.tally p).granted.any (·.1 = k) = (u.tally p).granted.any (·.1 = k)) :
    Faces s v p k := by
  have stand := stand_congr loop granted
  cases h with
  | absent missing told start => exact .absent (loop.trans missing) (said.trans told) start
  | present here rebuffs =>
    refine .present (loop.trans here) ?_
    intro d pooled
    rw [said, stand]
    exact rebuffs d pooled

/-- What nobody has handed over has no slot. -/
theorem holds_of_underway (none : Life.underway ⟨u.tally p, pool⟩ k = []) :
    (u.tally p).granted.any (·.1 = k) = false := by
  rw [Life.underway, List.filter_append, List.append_eq_nil_iff] at none
  simpa [List.filter_eq_nil_iff] using none.1

theorem holds_of_offered {w v : α} (one : Life.underway ⟨u.tally p, pool⟩ k = [(k, w)])
    (waits : (k, v) ∈ pool.offers) : (u.tally p).granted.any (·.1 = k) = false := by
  have offered : (k, v) ∈ pool.offers.filter (·.1 = k) := List.mem_filter.mpr ⟨waits, by simp⟩
  have some := List.length_pos_iff.mpr (List.ne_nil_of_mem offered)
  have count := congrArg List.length one
  simp only [Life.underway, List.filter_append, List.length_append, List.length_singleton] at count
  have none : (u.tally p).granted.filter (·.1 = k) = [] :=
    List.eq_nil_of_length_eq_zero (by omega)
  simpa [List.filter_eq_nil_iff] using none

theorem Faces.turn (h : Faces s u p k) (handing : Handing u)
    (present : u.world.pools[p]? = some pool) {j : Nat} {l : ReadLoop Ledger α}
    {t : Turn Ledger α} (there : u.world.loops[j]? = some l)
    (takes : l.Takes j u.world.now u.world.broker t) :
    Faces s (u.turned j t) p k := by
  have granted : ((u.turned j t).tally p).granted = (u.tally p).granted := by
    obtain ⟨sent, same⟩ := turned_tally u j t p
    rw [same]
  by_cases mine : j = k
  · subst mine
    have bound := (List.getElem?_eq_some_iff.mp there).1
    -- A loop whose value is under way takes no turn.
    have none : (u.tally p).granted.any (·.1 = j) = false := by
      obtain none | ⟨v, -, ⟨here, -, phase, -⟩⟩ := handing p pool present j
      · exact holds_of_underway none
      · obtain rfl := Option.some.inj (here.symm.trans there)
        exact absurd phase (takes_asked takes _)
    cases h with
    | absent missing => simp [there] at missing
    | present here rebuffs =>
      obtain rfl := Option.some.inj (here.symm.trans there)
      have now : (u.turned j t).world.loops[j]? = some t.loop := List.getElem?_set_self bound
      have stands : (u.turned j t).stand p j = t.loop.standing false := by
        rw [stand_of_loop now, granted, none]
      refine .present now ?_
      intro d pooled
      obtain ⟨more, said, rebuff⟩ := rebuffs d ((takes_subscriber takes).symm.trans pooled)
      refine ⟨more ++ [t.notes], ?_, ?_⟩
      · rw [← List.append_assoc, ← said]
        exact Function.update_self ..
      · rw [stands, (takes_identity takes).1]
        rw [stand_of_loop here] at rebuff
        exact takes_rebuff ((takes_subscriber takes).symm.trans pooled) takes rebuff
  · exact h.same (List.getElem?_set_ne mine) (Function.update_of_ne (Ne.symm mine) ..)
      (by rw [granted])

theorem Faces.answer (h : Faces s u p k) {j : Nat} {l : ReadLoop Ledger α} {m : Message}
    {d : Decoder α} {accept : Bool} (there : u.world.loops[j]? = some l)
    (pooled : l.subscriber = .pooled d p)
    (loops : v.world.loops =
      u.world.loops.set j { l with phase := .handling m (.answered accept u.world.now) })
    (said : v.said =
      if accept then u.said else Function.update u.said j (u.said j ++ [returning m]))
    (granted : j ≠ k →
      (v.tally p).granted.any (·.1 = k) = (u.tally p).granted.any (·.1 = k))
    (next : ∀ more, Rebuff j l.topic.name d (s.stand p j) more (u.stand p j) →
      Rebuff j l.topic.name d (s.stand p j) (if accept then more else more ++ [returning m])
        (some (m, .answered accept))) : Faces s v p k := by
  by_cases mine : j = k
  · subst mine
    have bound := (List.getElem?_eq_some_iff.mp there).1
    have now : v.world.loops[j]? =
        some { l with phase := .handling m (.answered accept u.world.now) } := by
      rw [loops, List.getElem?_set_self bound]
    cases h with
    | absent missing => simp [there] at missing
    | present here rebuffs =>
      obtain rfl := Option.some.inj (here.symm.trans there)
      refine .present now ?_
      intro d' pooled'
      obtain ⟨rfl, -⟩ : d = d' ∧ p = p := by simpa [pooled] using pooled'
      obtain ⟨more, told, rebuff⟩ := rebuffs d pooled
      have on := next more rebuff
      rw [stand_of_loop now, said]
      cases accept with
      | true => exact ⟨more, told, on⟩
      | false =>
        refine ⟨more ++ [returning m], ?_, on⟩
        simp only [Bool.false_eq_true, ↓reduceIte, Function.update_self, told, List.append_assoc]
  · apply h.same
    · rw [loops, List.getElem?_set_ne mine]
    · rw [said]
      split
      · rfl
      · exact Function.update_of_ne (Ne.symm mine) ..
    · exact granted mine

theorem stand_offered {l : ReadLoop Ledger α} {m : Message} (here : u.world.loops[k]? = some l)
    (phase : l.phase = .handling m .offered) :
    u.stand p k =
      some (m, if (u.tally p).granted.any (·.1 = k) then .holding else .waiting) := by
  rw [stand_of_loop here, ReadLoop.standing, phase]

theorem Faces.command (h : Faces s u p k) (c : World.Command Ledger α) :
    Faces s { u with world := u.world.obey c } p k := by
  have calm := World.obey_calm u.world c
  cases h with
  | absent missing said start =>
    cases there : (u.world.obey c).loops[k]? with
    | none => exact .absent there said start
    | some l =>
      have ready := calm.new k l there missing
      refine .present there ?_
      intro d _
      refine ⟨[], said.trans (List.append_nil _).symm, ?_⟩
      have free : stand { u with world := u.world.obey c } p k = none := by
        rw [stand_of_loop there, ReadLoop.standing, ready]
      rw [free, start]
      exact .start
  | @present l here rebuffs =>
    obtain ⟨l', there, rest⟩ := calm.old k l here
    have subscriber : l'.subscriber = l.subscriber := by rw [rest.rest]
    have topic : l'.topic = l.topic := by rw [rest.rest]
    refine .present there ?_
    intro d pooled
    obtain ⟨more, said, rebuff⟩ := rebuffs d (subscriber.symm.trans pooled)
    have stays : stand { u with world := u.world.obey c } p k = u.stand p k := by
      rw [stand_of_loop here, stand_of_loop there, rest.standing]
    refine ⟨more, said, ?_⟩
    rwa [stays, topic]

variable [DecidableEq α]

theorem Faces.work (h : Faces s u p k) (handing : Handing u)
    (present : u.world.pools[p]? = some pool) (closed : pool.closed = true)
    (works : Life.Work ⟨u.tally p, pool⟩ effect life) :
    Faces s (u.worked p life effect) p k := by
  have serves := works_serves handing present works
  -- What gives no answer does nothing to the loops.
  have quiet (silent : effect.verdict = none) (granted : life.granted = (u.tally p).granted) :
      Faces s (u.worked p life effect) p k := by
    cases serves with
    | silent _ loops said =>
      refine h.same (by rw [loops]) (by rw [said]) ?_
      rw [worked_self, granted]
    | answer verdict => simp [silent] at verdict
  cases works with
  | grant _ unclosed => simp [closed] at unclosed
  | @refuse before after offer offers =>
    cases serves with
    | silent none => cases none
    | @answer j accept l m d value verdict there pooled phase _ asked _ _ loops said =>
      obtain ⟨rfl, rfl⟩ : offer.1 = j ∧ false = accept := by
        simpa [Pool.Effect.verdict] using verdict
      have waits : offer ∈ pool.offers := by simp [show pool.offers = _ from offers]
      have none := holds_of_offered asked waits
      refine h.answer there pooled loops said (fun _ => by rw [worked_self]) ?_
      intro more rebuff
      rw [stand_offered there phase, none] at rebuff
      exact rebuff.refuse
  | @enter before after offer _ has =>
    cases serves with
    | silent none => cases none
    | @answer j accept l m d value verdict there pooled phase _ _ _ _ loops said =>
      obtain ⟨rfl, rfl⟩ : offer.1 = j ∧ true = accept := by
        simpa [Pool.Effect.verdict] using verdict
      have has : (u.tally p).granted = before ++ offer :: after := has
      refine h.answer there pooled loops said ?_ ?_
      · intro other
        rw [worked_self, has]
        simp [other]
      · intro more rebuff
        rw [stand_offered there phase, has] at rebuff
        have holds : (before ++ offer :: after).any (·.1 = offer.1) = true := by simp
        rw [holds] at rebuff
        exact rebuff.enter
  | @bounce before after offer has =>
    cases serves with
    | silent none => cases none
    | @answer j accept l m d value verdict there pooled phase _ _ _ _ loops said =>
      obtain ⟨rfl, rfl⟩ : offer.1 = j ∧ false = accept := by
        simpa [Pool.Effect.verdict] using verdict
      have has : (u.tally p).granted = before ++ offer :: after := has
      refine h.answer there pooled loops said ?_ ?_
      · intro other
        rw [worked_self, has]
        simp [other]
      · intro more rebuff
        rw [stand_offered there phase, has] at rebuff
        have holds : (before ++ offer :: after).any (·.1 = offer.1) = true := by simp
        rw [holds] at rebuff
        exact rebuff.bounce
  | pick | complete | release | crash | halt => exact quiet rfl rfl

theorem Faces.elsewhere (h : Faces s u p k) (handing : Handing u) {q : Nat}
    (other : q ≠ p) (present : u.world.pools[q]? = some pool)
    (works : Life.Work ⟨u.tally q, pool⟩ effect life) :
    Faces s (u.worked q life effect) p k := by
  have granted := worked_other u q life effect (Ne.symm other)
  cases works_serves handing present works with
  | silent _ loops said => exact h.same (by rw [loops]) (by rw [said]) (by rw [granted])
  | @answer j accept l m d value verdict there pooled phase _ _ _ _ loops said =>
    by_cases mine : j = k
    · subst mine
      have bound := (List.getElem?_eq_some_iff.mp there).1
      have now : (u.worked q life effect).world.loops[j]? =
          some { l with phase := .handling m (.answered accept u.world.now) } := by
        rw [loops, List.getElem?_set_self bound]
      refine .present now ?_
      intro d' pooled'
      have pooled' : l.subscriber = .pooled d' p := pooled'
      rw [pooled] at pooled'
      cases pooled'
      exact absurd rfl other
    · apply h.same
      · rw [loops, List.getElem?_set_ne mine]
      · rw [said]
        split
        · rfl
        · exact Function.update_of_ne (Ne.symm mine) ..
      · rw [granted]

theorem Faces.move (h : Faces s u p k) (handing : Handing u)
    (present : u.world.pools[p]? = some pool) (closed : pool.closed = true) (move : Move u v) :
    Faces s v p k := by
  cases move with
  | turn there takes => exact h.turn handing present there takes
  | @work q pool' effect life here works =>
    by_cases mine : q = p
    · subst mine
      obtain rfl := Option.some.inj (here.symm.trans present)
      exact h.work handing here closed works
    · exact h.elsewhere handing mine here works
  | call possible =>
    obtain ⟨-, -, loops, -⟩ := World.callStep_still possible
    exact h.same (by rw [loops]) rfl rfl
  | wait => exact h.same rfl rfl rfl
  | command c => exact h.command c

/-- A pool that has been closed stays so, and its subscribers go on as they must. -/
theorem Leads.faces (later : s.Leads u) (ran : Ran s) (here : s.world.pools[p]? = some pool)
    (closed : pool.closed = true) (k : Nat) : Faces s u p k := by
  induction later with
  | refl => exact .refl s p k
  | tail before move ih =>
    obtain ⟨pool', there, life⟩ := Leads.lives before here
    obtain ⟨_, _, _, since⟩ := life.since closed
    exact ih.move (Ran.handing (ran.trans before)) there since.closed move

theorem Ran.acts_said (ran : Ran u) (k : Nat) : u.world.acts k = actsIn k (u.said k) := by
  induction ran with
  | refl => rfl
  | @tail u v _ move ih =>
    cases move with
    | @turn j l t here takes =>
      show (u.world.turned j t).acts k = _
      rw [World.acts_turned, ih]
      by_cases mine : k = j
      · subst mine
        simp only [turned, Function.update_self, actsIn_concat]
      · simp only [turned, Function.update_of_ne mine, takes_other takes (Ne.symm mine),
          List.append_nil]
    | @work p pool effect life =>
      have acts := (World.worked_apart u.world p life.pool effect).acts k
      rw [show (u.worked p life effect).world.acts k = u.world.acts k from acts, ih]
      cases effect with
      | refused j =>
        by_cases mine : k = j
        · subst mine
          have silent : (u.world.refusal k).filterMap (·.actOf k) = [] := by
            unfold World.refusal
            split
            · split <;> simp
            · rfl
          simp only [worked, told, Function.update_self, actsIn_concat, silent, List.append_nil]
        · simp only [worked, told, Function.update_of_ne mine]
      | accepted | started | finished | none => rfl
    | call possible =>
      have acts := (World.callStep_apart possible).acts k
      exact acts.trans ih
    | wait => exact ih
    | command c => exact (World.obey_spared u.world k c).acts.trans ih

/-- No callback of pool `p` is running, and none ever starts. -/
structure AtRest (t : Workplace α) (p : Nat) (pool : Pool α) : Prop where
  running : pool.running = []
  channel : pool.accepted = []
  forever : ∀ x, t.Leads x → (x.tally p).history = (t.tally p).history ∧
    ∃ pool', x.world.pools[p]? = some pool' ∧ pool'.running = []

/-- The law of a pool that was stopped as `pool₀`, which led to `s`. -/
structure StopLaw (s t : Workplace α) (p : Nat) (pool₀ pool : Pool α) : Prop where
  /-- Nothing gets a slot, what waits goes back as it was sent, and what was accepted is taken up
  once or dropped. -/
  values : Life.StopLaw ⟨s.tally p, pool₀⟩ ⟨t.tally p, pool⟩
  /-- Every message that can be decoded and did not have a slot is reported once and held back. -/
  messages : ∀ k l d, t.world.loops[k]? = some l → l.subscriber = .pooled d p →
    ∃ more, t.said k = s.said k ++ more ∧
      Fates k l.topic.name d (s.stand p k) more (t.stand p k)
  /-- Whoever waits can be given its value back at once, and then says so. -/
  refusable : ∀ offer ∈ pool.offers, ∃ m x, t.stand p offer.1 = some (m, .waiting) ∧ t.Move x ∧
    (x.tally p).returned = (t.tally p).returned ++ [offer] ∧
    x.said offer.1 = t.said offer.1 ++ [returning m] ∧
    x.stand p offer.1 = some (m, .answered false)

/-- Whoever waits is told so by its pool. -/
theorem Handing.refusable (handing : Handing u) (here : u.world.pools[p]? = some pool)
    (closed : pool.closed = true) {offer : Nat × α} (waits : offer ∈ pool.offers) :
    ∃ m x, u.stand p offer.1 = some (m, .waiting) ∧ u.Move x ∧
      (x.tally p).returned = (u.tally p).returned ++ [offer] ∧
      x.said offer.1 = u.said offer.1 ++ [returning m] ∧
      x.stand p offer.1 = some (m, .answered false) := by
  obtain ⟨before, after, offers⟩ := List.append_of_mem waits
  have works := Life.Work.refuse (s := ⟨u.tally p, pool⟩) offers closed
  cases works_serves handing here works with
  | silent none => cases none
  | @answer j accept l m d value verdict there pooled phase _ asked _ _ loops said =>
    obtain ⟨rfl, rfl⟩ : offer.1 = j ∧ false = accept := by
      simpa [Pool.Effect.verdict] using verdict
    have bound := (List.getElem?_eq_some_iff.mp there).1
    refine ⟨m, _, ?_, .work here works, ?_, ?_, ?_⟩
    · rw [stand_offered there phase, holds_of_offered asked waits]
      rfl
    · rw [worked_self]
    · rw [said]
      exact Function.update_self ..
    · rw [stand_of_loop (by rw [loops, List.getElem?_set_self bound])]
      rfl

/-- When a call that waited for the workers of a pool has returned, none of them is left. -/
theorem deserted_of_returned (ran : Ran u) (here : u.world.pools[p]? = some pool)
    {t : Workplace α} (later : Leads { u with world := u.world.obey (.shutdownPool p) } t)
    {pool' : Pool α} (there : t.world.pools[p]? = some pool') (same : pool'.size = pool.size)
    {pending : Pending} {result : Except Error Unit}
    (called : t.world.pending[u.world.pending.length]? = some pending)
    (returned : pending.result = some result) : pool'.isAlive = false := by
  have asked : World.Awaits (u.world.obey (.shutdownPool p)) u.world.pending.length .shutdown
      ((List.range pool.size).map (.worker p)) := by
    have new : (u.world.obey (.shutdownPool p)).pending = u.world.pending ++
        [{ purpose := .shutdown, awaiting := (List.range pool.size).map (.worker p) }] := by
      simp [World.obey, World.shutdownPool, World.await, World.closePool, here]
    exact .new new rfl
  have listed : World.Listed (u.world.obey (.shutdownPool p)) :=
    Ran.listed (u := { u with world := u.world.obey (.shutdownPool p) })
      (ran.tail (.command (.shutdownPool p)))
  obtain ⟨-, ceased⟩ := ((Leads.passes later).awaits listed asked).returned called returned
  apply List.any_eq_false.mpr
  intro worker member alive
  obtain ⟨i, found⟩ := List.mem_iff_getElem?.mp member
  have bound : i < pool.size := same ▸ (List.getElem?_eq_some_iff.mp found).1
  obtain ⟨pool₁, worker₁, there₁, found₁, dead⟩ :=
    ceased (.worker p i) (List.mem_map.mpr ⟨i, List.mem_range.mpr bound, rfl⟩)
  obtain rfl := Option.some.inj (there₁.symm.trans there)
  obtain rfl := Option.some.inj (found₁.symm.trans found)
  simp [dead] at alive

/-- **A pool that is stopped takes nothing on any more**, however it is stopped and whatever happens
to the queues meanwhile. What it has not taken goes back and is not committed; what it has taken is
taken up once or dropped; and when a call that stops it has returned, no callback runs or starts. -/
theorem stop_law (ran : Ran u) (here : u.world.pools[p]? = some pool)
    {c : World.Command Ledger α} (stops : c = .closePool p ∨ c = .shutdownPool p)
    {t : Workplace α} (later : Leads { u with world := u.world.obey c } t) :
    ∃ pool', t.world.pools[p]? = some pool' ∧
      StopLaw { u with world := u.world.obey c } t p pool.close pool' ∧
      (c = .shutdownPool p → ∀ pending result,
        t.world.pending[u.world.pending.length]? = some pending →
        pending.result = some result → AtRest t p pool') := by
  have ran₀ : Ran { u with world := u.world.obey c } := ran.tail (.command c)
  have here₀ : (u.world.obey c).pools[p]? = some pool.close := by
    obtain rfl | rfl := stops <;>
      simp [World.obey, World.shutdownPool, World.await, World.closePool, here]
  obtain ⟨size, -, sound⟩ := ran₀.housed.sound here₀
  obtain ⟨pool', there, life⟩ := Leads.lives later here₀
  have values := sound.stopped rfl life
  obtain ⟨_, _, _, since⟩ := values.since
  have handing := Ran.handing (ran₀.trans later)
  refine ⟨pool', there, ?_, ?_⟩
  · constructor
    case values => exact values
    case messages =>
      intro k l d found pooled
      cases Leads.faces later ran₀ here₀ rfl k with
      | absent missing => simp [found] at missing
      | present found' rebuffs =>
        obtain rfl := Option.some.inj (found'.symm.trans found)
        obtain ⟨more, said, rebuff⟩ := rebuffs d pooled
        exact ⟨more, said, rebuff.fates⟩
    case refusable => exact fun offer waits => handing.refusable there since.closed waits
  · rintro rfl pending result called returned
    have same : pool'.size = pool.size :=
      (life.sound sound).workers.trans sound.workers.symm
    have deserted := deserted_of_returned ran here later there same called returned
    obtain ⟨channel, running, forever⟩ := values.ceased deserted
    refine ⟨running, channel, ?_⟩
    intro x after
    obtain ⟨pool₁, found, on⟩ := Leads.lives after there
    obtain ⟨history, none⟩ := forever _ on
    exact ⟨history, pool₁, found, none⟩

end

/-- The only worker of a pool runs a callback, and the value of the next message waits. -/
def occupied : List (World.Attempt Ledger String) :=
  [.command (.startPool "jobs" (fun _ => .held) 1),
    .command (.subscribe 0 World.orders "audit" "auditor" (.pooled World.flags 0)),
    .command (.publish 0 World.orders (.bytes [1])),
    .command (.publish 0 World.orders (.bytes [2])),
    .step (.loop 0), .step (.pool 0 .accept), .step (.pool 0 (.take 0)), .step (.loop 0),
    .step (.loop 0)]

/-- The value goes back, the message is held back, and the pool is left by its worker. -/
def vacated : List (World.Attempt Ledger String) :=
  [.step (.pool 0 .accept), .step (.loop 0), .command (.release "up"),
    .step (.pool 0 (.finish 0)), .step (.pool 0 (.halt 0)), .step (.call 0), .step (.call 0)]

theorem stop_law_occupied : ∃ (u t : Workplace String) (pool pool' : Pool String),
    Ran u ∧ u.world.pools[0]? = some pool ∧
      Leads { u with world := u.world.obey (.shutdownPool 0) } t ∧
      StopLaw { u with world := u.world.obey (.shutdownPool 0) } t 0 pool.close pool' ∧
      AtRest t 0 pool' ∧ pool.offers = [(0, "down")] ∧ pool.running = ["up"] ∧
      (t.world.answers 0).map (fun (m, accept) => (m.offset, accept)) =
        [(0, true), (1, false)] ∧
      t.world.broker.committed "orders" "audit" = some 1 := by
  have reach : World.Reachable {} (World.opened.after occupied) :=
    World.reachable_opened.leads (World.leads_iff_after.mpr ⟨occupied, rfl⟩)
  obtain ⟨u, ran, world, settled⟩ := ran_of_reachable reach
  obtain ⟨pool, here, waits, runs⟩ : ∃ pool : Pool String, u.world.pools[0]? = some pool ∧
      pool.offers = [(0, "down")] ∧ pool.running = ["up"] := by
    rw [world]
    exact ⟨_, rfl, rfl, rfl⟩
  have ran' : Ran { u with world := u.world.obey (.shutdownPool 0) } :=
    ran.tail (.command (.shutdownPool 0))
  have onward : (u.world.obey (.shutdownPool 0)).Leads _ :=
    World.leads_iff_after.mpr ⟨vacated, rfl⟩
  obtain ⟨t, later, after, -⟩ :=
    Settled.leads (u := { u with world := u.world.obey (.shutdownPool 0) }) settled ran' onward
  obtain ⟨pool', -, law, rests⟩ := stop_law ran here (.inr rfl) later
  rw [world] at after
  obtain ⟨pending, returned, result⟩ : ∃ pending,
      t.world.pending[u.world.pending.length]? = some pending ∧
        pending.result = some (.ok ()) := by
    rw [after, world]
    exact ⟨_, rfl, rfl⟩
  have rest : AtRest t 0 pool' := rests rfl pending (.ok ()) returned result
  refine ⟨u, t, pool, pool', ran, here, later, law, rest, waits, runs, ?_, ?_⟩
  · rw [after]
    decide
  · rw [after]
    decide

end Workplace

end Courier.Queue
