import Courier.Proofs.Queue.Stopping
import Courier.Proofs.Queue.Twins

/-!
# Pooled subscribers and synchronous ones

While a pool is open and has a worker, its subscribers cannot be told from
subscribers that call a willing listener themselves:

* `Mirror`: a workplace and another one where pool `p` has no subscribers;
* `Mirror.turn`, `Mirror.serve`, `Mirror.command`: whatever happens in the one
  happens in the other, or is not to be seen there;
* `parity_law`: every run has such a mirror, with the same acts and the same
  offsets, and the workers take up the values the listeners are called with.
-/

namespace Courier

open List (Forall₂)

namespace Pool

variable {α : Type}

/-- What has been taken up, with the number of whoever left it, the first one first. -/
def Tally.taken (tally : Tally α) : List (Nat × α) :=
  tally.entered.take (started tally.history).length

theorem taken_of_order {tally : Tally α} {accepted : List α}
    (order : tally.entered.map (·.2) = started tally.history ++ accepted) :
    tally.taken.map (·.2) = started tally.history := by
  rw [Tally.taken, List.map_take, order, List.take_left]

/-- While a worker is there, what has entered is taken up or still in the channel. -/
theorem Life.Sound.unbroken {s : Life α} {size : Nat} (h : Sound s size)
    (alive : s.pool.isAlive = true) :
    s.entered.map (·.2) = started s.history ++ s.pool.accepted := by
  rw [h.order, h.manned alive, List.nil_append]

/-- What enters the channel is all that its sender has on the way there. -/
theorem Life.Work.entered_of_asked {s t : Life α} {effect : Effect α} (works : Work s effect t)
    {ticket : Nat} {value : α} (verdict : effect.verdict = some (ticket, true))
    (asked : s.underway ticket = [(ticket, value)]) :
    t.entered = s.entered ++ [(ticket, value)] := by
  obtain ⟨i, v, verdict', has, entered⟩ | ⟨other, -⟩ := works.enters
  · obtain rfl : ticket = i := by simpa [verdict] using verdict'
    have underway : (ticket, v) ∈ s.underway ticket :=
      List.mem_filter.mpr ⟨List.mem_append_left _ has, by simp⟩
    rw [asked] at underway
    rw [entered, List.mem_singleton.mp underway]
  · exact absurd verdict (other ticket)

end Pool

namespace Queue.Workplace

open Broker (Ledger)
open Pool (Life)

variable {α : Type}

/-- What the loop of a pooled subscriber has said, and what that of its twin has. -/
structure Abreast (k : Nat) (l : ReadLoop Ledger α) (d : Decoder α) (entered : List (Nat × α))
    (said said' : List (List (Note α))) : Prop where
  echoes : Forall₂ (Echoes k l.topic.name l.label d) said said'
  values : (callsIn said').map (·.1) = (entered.filter (·.1 = k)).map (·.2) ++ l.asked d

/-- Two workplaces that are the same, but that the subscribers of pool `p` in the one are their
twins in the other. -/
structure Mirror (p : Nat) (s t : Workplace α) : Prop where
  level : Level p s.world t.world
  tally : ∀ q, q ≠ p → t.tally q = s.tally q
  /-- Nothing has come of a loop that is not there yet. -/
  silent : ∀ k, s.world.loops.length ≤ k →
    s.said k = [] ∧ t.said k = [] ∧ ∀ offer ∈ (s.tally p).entered, offer.1 ≠ k
  abreast : ∀ k l d, s.world.loops[k]? = some l → l.subscriber = .pooled d p →
    Abreast k l d (s.tally p).entered (s.said k) (t.said k)

section
variable {p k : Nat} {s s' t t' : Workplace α} {l l' : ReadLoop Ledger α} {d : Decoder α}
  {pool : Pool α} {life : Life α} {effect : Pool.Effect α}

theorem Abreast.of_eq {entered : List (Nat × α)} {said said' : List (List (Note α))}
    (h : Abreast k l d entered said said') (topic : l'.topic = l.topic) (label : l'.label = l.label)
    (asked : l'.asked d = l.asked d) : Abreast k l' d entered said said' := by
  obtain ⟨echoes, values⟩ := h
  refine ⟨?_, by rw [asked, values]⟩
  rw [topic, label]
  exact echoes

theorem posted_filter (u : Workplace α) (k : Nat) (offer : Option (Nat × α)) {q : Nat}
    (other : q ≠ p) : u.posted k (offer.filter (·.1 ≠ p)) q = u.posted k offer q := by
  cases offer with
  | none => rfl
  | some made =>
    by_cases mine : made.1 = p
    · have none : (some made).filter (·.1 ≠ p) = none := by simp [Option.filter, mine]
      rw [none, posted, posted]
      split
      · rw [Function.update_of_ne (by rwa [mine])]
      · rfl
    · have kept : (some made).filter (·.1 ≠ p) = some made := by simp [Option.filter, mine]
      rw [kept]

theorem posted_congr {offer : Option (Nat × α)} {q : Nat}
    (count : t.world.pools.length = s.world.pools.length) (same : t.tally q = s.tally q) :
    t.posted k offer q = s.posted k offer q := by
  cases offer with
  | none => exact same
  | some made =>
    simp only [posted, count]
    split
    · by_cases mine : q = made.1
      · subst mine
        rw [Function.update_self, Function.update_self, same]
      · rw [Function.update_of_ne mine, Function.update_of_ne mine, same]
    · exact same

theorem Mirror.command (h : Mirror p s t) (c : World.Command Ledger α) :
    Mirror p { s with world := s.world.obey c }
      { t with world := t.world.obey (c.serial p) } := by
  obtain ⟨level, tally, silent, abreast⟩ := h
  have calm := World.obey_calm s.world c
  have old (k : Nat) (absent : (s.world.obey c).loops.length ≤ k) : s.world.loops.length ≤ k := by
    by_contra present
    obtain ⟨l', there, -⟩ := calm.old k _ (List.getElem?_eq_getElem (Nat.lt_of_not_le present))
    have bound := (List.getElem?_eq_some_iff.mp there).1
    omega
  refine ⟨level.obey c, tally, fun k absent => silent k (old k absent), ?_⟩
  intro k l' d there pooled
  cases here : s.world.loops[k]? with
  | none =>
    have ready := calm.new k l' there here
    obtain ⟨nothing, nothing', none⟩ := silent k (List.getElem?_eq_none_iff.mp here)
    have unasked : l'.asked d = [] := by rw [ReadLoop.asked, ready]
    show Abreast k l' d (s.tally p).entered (s.said k) (t.said k)
    rw [nothing, nothing']
    refine ⟨.nil, ?_⟩
    rw [unasked, List.append_nil, List.filter_eq_nil_iff.mpr (by simpa using none)]
    rfl
  | some l =>
    obtain ⟨l₁, there₁, rest⟩ := calm.old k l here
    obtain rfl := Option.some.inj (there₁.symm.trans there)
    have subscriber : l₁.subscriber = l.subscriber := by rw [rest.rest]
    have before := abreast k l d here (subscriber.symm.trans pooled)
    refine before.of_eq (by rw [rest.rest]) (by rw [rest.rest]) ?_
    unfold ReadLoop.asked
    obtain same | ⟨parked, ready⟩ := rest.phase
    · rw [same]
    · rw [parked, ready]

variable [DecidableEq α]

theorem Mirror.turn (h : Mirror p s t) (here : s.world.loops[k]? = some l) {a : Turn Ledger α}
    (takes : l.Takes k s.world.now s.world.broker a) :
    ∃ t', t.Move t' ∧ Mirror p (s.turned k a) t' := by
  obtain ⟨level, tally, silent, abreast⟩ := h
  obtain ⟨l', there, twin⟩ := forall₂_some level.loops here
  obtain ⟨b, takes', paired⟩ := twin.takes takes
  rw [← level.now, ← level.broker] at takes'
  have bound := (List.getElem?_eq_some_iff.mp here).1
  obtain ⟨sent, entered⟩ := turned_tally s k a p
  refine ⟨t.turned k b, .turn there takes', ?_⟩
  constructor
  case level => exact level.turned paired
  case tally =>
    intro q other
    show t.posted k b.offer q = s.posted k a.offer q
    rw [paired.offer, posted_filter t k a.offer other, posted_congr level.count (tally q other)]
  case silent =>
    intro j absent
    have absent : s.world.loops.length ≤ j := by
      simpa [turned, World.turned] using absent
    have other : j ≠ k := by omega
    obtain ⟨nothing, nothing', none⟩ := silent j absent
    rw [entered]
    refine ⟨?_, ?_, none⟩
    · exact (Function.update_of_ne other ..).trans nothing
    · exact (Function.update_of_ne other ..).trans nothing'
  case abreast =>
    intro j l₁ d there pooled
    rw [entered]
    -- The loop that takes the turn was asked nothing, and is asked what its twin is called with.
    by_cases mine : k = j
    · subst mine
      obtain rfl := Option.some.inj ((List.getElem?_set_self bound).symm.trans there)
      have pooled := (takes_subscriber takes).symm.trans pooled
      obtain ⟨echoes, values⟩ := abreast k l d here pooled
      have free : l.asked d = [] := by
        unfold ReadLoop.asked
        split
        · next m phase => exact absurd phase (takes_asked takes m)
        · rfl
      rw [free, List.append_nil] at values
      simp only [turned, Function.update_self]
      constructor
      case echoes =>
        rw [(takes_identity takes).1, takes_label takes]
        exact List.rel_append echoes (.cons (paired.echoes d pooled) .nil)
      case values =>
        rw [callsIn_concat, List.map_append, values, paired.calls d pooled]
    · have same := (List.getElem?_set_ne mine).symm.trans there
      have other := Ne.symm mine
      have before := abreast j l₁ d same pooled
      simp only [turned, Function.update_of_ne other]
      exact before

/-- What an open pool does is not to be seen on the other side: its subscribers come to the answer
that their twins have already. -/
theorem Mirror.serve (h : Mirror p s t) (handing : Handing s)
    (here : s.world.pools[p]? = some pool) (unclosed : pool.closed = false)
    (alive : pool.isAlive = true) (works : Life.Work ⟨s.tally p, pool⟩ effect life) :
    Mirror p (s.worked p life effect) t := by
  obtain ⟨level, tally, silent, abreast⟩ := h
  have loops := level.loops
  have tally' (q : Nat) (other : q ≠ p) : t.tally q = (s.worked p life effect).tally q := by
    rw [worked_other s p life effect other, tally q other]
  cases works_serves handing here works with
  | silent none same said =>
    have entered : life.entered = (s.tally p).entered := by
      obtain ⟨j, v, verdict, -⟩ | ⟨-, entered⟩ := works.enters
      · simp [none] at verdict
      · exact entered
    refine ⟨level.served (same ▸ loops), tally', ?_, ?_⟩
    · rw [same, said, worked_self, entered]
      exact silent
    · rw [same, said, worked_self, entered]
      exact abreast
  | @answer j accept l m d value verdict there pooled phase decoded asked _ _ same said =>
    -- An open pool with a worker gives nothing back.
    obtain rfl : accept = true := by
      cases accept with
      | true => rfl
      | false => exact absurd verdict (works.takes unclosed alive j)
    have bound := (List.getElem?_eq_some_iff.mp there).1
    have entered : life.entered = (s.tally p).entered ++ [(j, value)] :=
      works.entered_of_asked verdict asked
    have loop_asked : l.asked d = [value] := by
      simp [ReadLoop.asked, phase, Decoder.value, decoded, Except.toOption]
    have twins : Forall₂ (Twin p s.world.now) (s.worked p life effect).world.loops
        t.world.loops := by
      obtain ⟨l', there', twin⟩ := forall₂_some loops there
      rw [same]
      exact forall₂_set_left loops there' (twin.answered pooled phase _)
    refine ⟨level.served twins, tally', ?_, ?_⟩
    · rw [same, said, worked_self, entered, List.length_set]
      intro k absent
      obtain ⟨nothing, nothing', none⟩ := silent k absent
      refine ⟨nothing, nothing', ?_⟩
      intro offer member
      obtain old | new := List.mem_append.mp member
      · exact none offer old
      · obtain rfl := List.mem_singleton.mp new
        show j ≠ k
        omega
    · rw [same, said, worked_self, entered]
      intro k l₁ d' there₁ pooled₁
      by_cases mine : j = k
      · subst mine
        obtain rfl := Option.some.inj ((List.getElem?_set_self bound).symm.trans there₁)
        obtain ⟨rfl, -⟩ : d = d' ∧ p = p := by simpa [pooled] using pooled₁
        obtain ⟨echoes, values⟩ := abreast j l d there pooled
        refine ⟨echoes, ?_⟩
        rw [values, loop_asked]
        simp [ReadLoop.asked]
      · obtain ⟨echoes, values⟩ :=
          abreast k l₁ d' ((List.getElem?_set_ne mine).symm.trans there₁) pooled₁
        refine ⟨echoes, ?_⟩
        rw [values, List.filter_append]
        simp [mine]

/-- What another pool does is seen on both sides. -/
theorem Mirror.elsewhere (h : Mirror p s t) (handing : Handing s) (handing' : Handing t) {q : Nat}
    (other : q ≠ p) (here : s.world.pools[q]? = some pool)
    (works : Life.Work ⟨s.tally q, pool⟩ effect life) :
    ∃ t', t.Move t' ∧ Mirror p (s.worked q life effect) t' := by
  obtain ⟨level, tally, silent, abreast⟩ := h
  have loops := level.loops
  have here' : t.world.pools[q]? = some pool := (level.pools q other).trans here
  have works' : Life.Work ⟨t.tally q, pool⟩ effect life := by rwa [tally q other]
  have tally' (j : Nat) (elsewhere : j ≠ p) :
      (t.worked q life effect).tally j = (s.worked q life effect).tally j := by
    by_cases mine : j = q
    · subst mine
      rw [worked_self, worked_self]
    · rw [worked_other _ _ _ _ mine, worked_other _ _ _ _ mine, tally j elsewhere]
  refine ⟨t.worked q life effect, .work here' works', ?_⟩
  cases works_serves handing here works with
  | silent none same said =>
    cases works_serves handing' here' works' with
    | answer verdict => simp [none] at verdict
    | silent _ same' said' =>
      have twins : Forall₂ (Twin p s.world.now) (s.worked q life effect).world.loops
          (t.worked q life effect).world.loops := by
        rwa [same, same']
      refine ⟨level.worked here twins, tally', ?_, ?_⟩
      · rw [same, said, said', worked_other _ _ _ _ (Ne.symm other)]
        exact silent
      · rw [same, said, said', worked_other _ _ _ _ (Ne.symm other)]
        exact abreast
  | @answer j accept l m d value verdict there pooled phase _ _ _ _ same said =>
    cases works_serves handing' here' works' with
    | silent none => simp [none] at verdict
    | @answer j' accept' l' m' d' value' verdict' there' pooled' phase' _ _ _ _ same' said' =>
      obtain ⟨rfl, rfl⟩ : j = j' ∧ accept = accept' := by simpa [verdict] using verdict'
      have bound := (List.getElem?_eq_some_iff.mp there).1
      -- Who asked another pool has itself for a twin, so that both sides get the same answer.
      have apart (d : Decoder α) : l.subscriber ≠ .pooled d p := by
        rw [pooled]
        simp [other]
      obtain ⟨l₁, there₁, twin⟩ := forall₂_some loops there
      obtain rfl := Option.some.inj (there₁.symm.trans there')
      obtain rfl : l₁ = l := by
        cases twin with
        | other _ same => exact same
        | pooled pooled => exact absurd pooled (apart _)
      obtain rfl : m = m' := by simpa [phase] using phase'
      have twins : Forall₂ (Twin p s.world.now) (s.worked q life effect).world.loops
          (t.worked q life effect).world.loops := by
        rw [same, same', level.now]
        exact forall₂_set loops j (.other apart rfl)
      refine ⟨level.worked here twins, tally', ?_, ?_⟩
      · rw [same, said, said', worked_other _ _ _ _ (Ne.symm other), List.length_set]
        intro k absent
        have elsewhere : k ≠ j := by omega
        cases accept with
        | true => exact silent k absent
        | false =>
          simp only [Bool.false_eq_true, ↓reduceIte, Function.update_of_ne elsewhere]
          exact silent k absent
      · rw [same, said, said', worked_other _ _ _ _ (Ne.symm other)]
        intro k l₂ d₂ there₂ pooled₂
        have elsewhere : j ≠ k := by
          rintro rfl
          obtain rfl := Option.some.inj ((List.getElem?_set_self bound).symm.trans there₂)
          exact apart d₂ pooled₂
        have before := abreast k l₂ d₂ ((List.getElem?_set_ne elsewhere).symm.trans there₂) pooled₂
        cases accept with
        | true => exact before
        | false =>
          simp only [Bool.false_eq_true, ↓reduceIte, Function.update_of_ne (Ne.symm elsewhere)]
          exact before

/-- Pool `p` is open and has a worker, if it is there. -/
def InService (u : Workplace α) (p : Nat) : Prop :=
  ∀ pool, u.world.pools[p]? = some pool → pool.closed = false ∧ pool.isAlive = true

/-- A pool that is closed is not opened again, and no worker comes back. -/
theorem InService.before (h : InService s' p) (move : s.Move s') : InService s p := by
  intro pool here
  obtain ⟨pool', there, life⟩ := move.lives here
  obtain ⟨unclosed, alive⟩ := h pool' there
  constructor
  · by_contra closed
    obtain ⟨_, _, _, since⟩ := life.since (by simpa using closed)
    have closed : pool'.closed = true := since.closed
    simp [unclosed] at closed
  · by_contra deserted
    have gone : pool'.isAlive = false := (life.quiet (by simpa using deserted)).1
    simp [alive] at gone

/-- **Whatever happens in the one workplace happens in the other, or is not to be seen there.** -/
theorem Mirror.move (h : Mirror p s t) (ran : Ran s) (ran' : Ran t) (service : InService s p)
    (move : s.Move s') : ∃ t', t.Leads t' ∧ Mirror p s' t' := by
  cases move with
  | turn here takes =>
    obtain ⟨t', move, mirror⟩ := h.turn here takes
    exact ⟨t', .single move, mirror⟩
  | @work q pool effect life here works =>
    by_cases mine : q = p
    · subst mine
      obtain ⟨unclosed, alive⟩ := service pool here
      exact ⟨t, .refl, h.serve ran.handing here unclosed alive works⟩
    · obtain ⟨t', move, mirror⟩ := h.elsewhere ran.handing ran'.handing mine here works
      exact ⟨t', .single move, mirror⟩
  | @call c w possible =>
    obtain ⟨level, tally, silent, abreast⟩ := h
    obtain ⟨-, -, loops, pools⟩ := World.callStep_still possible
    refine ⟨t, .refl, ?_, tally, ?_, ?_⟩
    · apply level.apart (World.callStep_apart possible) (.refl _) (World.callStep_now possible) rfl
      · rw [loops]
        exact level.loops
      · rw [pools, level.count]
      · rw [pools]
        exact level.pools
    · rwa [loops]
    · rwa [loops]
  | wait ms =>
    obtain ⟨⟨now, broker, queues, loops, acts, count, pools⟩, tally, silent, abreast⟩ := h
    refine ⟨_, .single (.wait ms), ⟨?_, broker, queues, ?_, acts, count, pools⟩, tally, silent,
      abreast⟩
    · exact congrArg (· + ms) now
    · exact loops.imp fun _ _ twin => twin.later (Nat.le_add_right _ _)
  | command c => exact ⟨_, .single (.command (c.serial p)), h.command c⟩

/-- Every run has a mirror, as long as the pool is open and has a worker. -/
theorem Ran.mirror (ran : Ran s) (service : InService s p) : ∃ t, Ran t ∧ Mirror p s t := by
  induction ran with
  | refl =>
    refine ⟨opening, .refl, .opening p {}, fun _ _ => rfl, fun _ _ => ⟨rfl, rfl, nofun⟩, ?_⟩
    intro k l d there
    simp [opening] at there
  | tail before move ih =>
    have service := service.before move
    obtain ⟨t, ran, mirror⟩ := ih service
    obtain ⟨t', later, mirror⟩ := mirror.move before ran service move
    exact ⟨t', ran.trans later, mirror⟩

/-- The subscriber of loop `k`, which leaves its values to pool `p`, cannot be told from its
twin. -/
structure Agrees (p k : Nat) (s t : Workplace α) (l : ReadLoop Ledger α) (d : Decoder α) :
    Prop where
  /-- Both accept whatever they are handed. -/
  accepted : ∀ answer ∈ s.world.answers k, answer.2 = true
  echoes : Forall₂ (Echoes k l.topic.name l.label d) (s.said k) (t.said k)
  /-- What cannot be decoded is reported by both, once, with the same fields. -/
  reported : ∀ (i : Nat) notes m e, (s.said k)[i]? = some notes →
    .act k l.topic.name (.delivered m) ∈ notes → d.decode m.payload = .error e →
    ∃ lines : List Log.Line, (∀ line ∈ lines, line.level = .debug) ∧
      notes = handing k l.topic.name m lines (.line (Subscriber.pooledError (some m) e)) ∧
      (t.said k)[i]? =
        some (handing k l.topic.name m lines (.line (Subscriber.typedError (some m) e)))
  /-- The workers take up the values that the twin's listener is called with. -/
  values : ((s.tally p).taken.filter (·.1 = k)).map (·.2) <+: (callsIn (t.said k)).map (·.1)
  /-- If nobody else leaves values to the pool, its workers take up nothing else. -/
  sole : (∀ offer ∈ (s.tally p).entered, offer.1 = k) →
    Pool.started (s.tally p).history <+: (callsIn (t.said k)).map (·.1)
  /-- They have taken up all of them when none is on its way. -/
  caught : (∀ pool, s.world.pools[p]? = some pool → pool.accepted = []) →
    (∀ m, l.phase ≠ .handling m .offered) →
    ((s.tally p).taken.filter (·.1 = k)).map (·.2) = (callsIn (t.said k)).map (·.1)

/-- Two workplaces agree, where the subscribers of pool `p` in the one are their twins in the
other. -/
structure ParityLaw (p : Nat) (s t : Workplace α) : Prop where
  subscribers : t.world.loops.map (·.subscriber) =
    s.world.loops.map fun l => l.subscriber.serial p
  /-- Deliveries, answers and attempts to commit are the same, in the same order. -/
  acts : ∀ k, t.world.acts k = s.world.acts k
  /-- So are the logs and the committed offsets. -/
  broker : t.world.broker = s.world.broker
  /-- Workers take up what has entered the channel in that order. -/
  order : (s.tally p).taken.map (·.2) = Pool.started (s.tally p).history
  agrees : ∀ k l d, s.world.loops[k]? = some l → l.subscriber = .pooled d p → Agrees p k s t l d

theorem Mirror.agrees (h : Mirror p s t) (ran : Ran s) {size : Nat}
    (sound : Life.Sound ⟨s.tally p, pool⟩ size) (present : s.world.pools[p]? = some pool)
    (alive : pool.isAlive = true) (here : s.world.loops[k]? = some l)
    (pooled : l.subscriber = .pooled d p) : Agrees p k s t l d := by
  obtain ⟨echoes, values⟩ := h.abreast k l d here pooled
  have order := sound.unbroken alive
  have taken : (s.tally p).taken <+: (s.tally p).entered := List.take_prefix ..
  have known : ((s.tally p).taken.filter (·.1 = k)).map (·.2) <+:
      (callsIn (t.said k)).map (·.1) := by
    rw [values]
    exact ((taken.filter _).map _).trans (List.prefix_append ..)
  constructor
  case accepted =>
    intro answer given
    rw [World.answers, ran.acts_said] at given
    exact echoes_accepted echoes answer given
  case echoes => exact echoes
  case reported =>
    intro i notes m e turn given undecoded
    obtain ⟨notes', turn', echo⟩ := forall₂_some echoes turn
    obtain ⟨lines, debug, said, said'⟩ := echo.reported given undecoded
    exact ⟨lines, debug, said, turn'.trans (congrArg some said')⟩
  case values => exact known
  case sole =>
    intro alone
    have all : (s.tally p).taken.filter (·.1 = k) = (s.tally p).taken :=
      List.filter_eq_self.mpr fun offer member => by
        simpa using alone offer (List.mem_of_mem_take member)
    rwa [all, Pool.taken_of_order order] at known
  case caught =>
    intro empty free
    have count := congrArg List.length order
    rw [empty pool present, List.append_nil, List.length_map] at count
    have unasked : l.asked d = [] := by
      unfold ReadLoop.asked
      split
      · next m phase => exact absurd phase (free m)
      · rfl
    rw [values, unasked, List.append_nil, Pool.Tally.taken, ← count, List.take_length]

/-- **As long as a pool is open and has a worker, its subscribers cannot be told from synchronous
ones.** Every run has a mirror where they call a willing listener themselves: it has the same acts
and the same offsets, and the workers take up the values that the listeners are called with. -/
theorem parity_law (ran : Ran s) (here : s.world.pools[p]? = some pool)
    (unclosed : pool.closed = false) (alive : pool.isAlive = true) :
    ∃ t, Ran t ∧ ParityLaw p s t := by
  have service : InService s p := by
    intro pool' there
    obtain rfl := Option.some.inj (here.symm.trans there)
    exact ⟨unclosed, alive⟩
  obtain ⟨t, ran', mirror⟩ := ran.mirror service
  obtain ⟨size, -, sound⟩ := ran.housed.sound here
  refine ⟨t, ran', ?_⟩
  constructor
  case subscribers => exact twins_subscribers mirror.level.loops
  case acts => exact mirror.level.acts
  case broker => exact mirror.level.broker
  case order => exact Pool.taken_of_order (sound.unbroken alive)
  case agrees => exact fun k l d there pooled => mirror.agrees ran sound here alive there pooled

end

/-- A message that cannot be decoded, between two that can; the callback for the first one does not
end. -/
def motley : List (World.Attempt Ledger String) :=
  [.command (.startPool "jobs" (fun _ => .held) 2),
    .command (.subscribe 0 World.orders "audit" "auditor" (.pooled World.flags 0)),
    .command (.publish 0 World.orders (.bytes [1])),
    .command (.publish 0 World.orders (.bytes [0, 255])),
    .command (.publish 0 World.orders (.bytes [2])),
    .step (.loop 0), .step (.pool 0 .accept), .step (.pool 0 (.take 0)), .step (.loop 0),
    .step (.loop 0), .step (.loop 0),
    .step (.loop 0), .step (.pool 0 .accept), .step (.loop 0)]

theorem parity_law_motley : ∃ (s t : Workplace String) (pool : Pool String),
    Ran s ∧ s.world.pools[0]? = some pool ∧ Ran t ∧ ParityLaw 0 s t ∧
      pool.running = ["up"] ∧ pool.accepted = ["down"] ∧
      (t.world.answers 0).map (fun (m, accept) => (m.offset, accept)) =
        [(0, true), (1, true), (2, true)] ∧
      t.world.broker.committed "orders" "audit" = some 3 := by
  have reach : World.Reachable {} (World.opened.after motley) :=
    World.reachable_opened.leads (World.leads_iff_after.mpr ⟨motley, rfl⟩)
  obtain ⟨s, ran, world, -⟩ := ran_of_reachable reach
  obtain ⟨pool, here, unclosed, alive, running, channel⟩ : ∃ pool : Pool String,
      s.world.pools[0]? = some pool ∧ pool.closed = false ∧ pool.isAlive = true ∧
        pool.running = ["up"] ∧ pool.accepted = ["down"] := by
    rw [world]
    exact ⟨_, rfl, rfl, rfl, rfl, rfl⟩
  obtain ⟨t, ran', law⟩ := parity_law ran here unclosed alive
  refine ⟨s, t, pool, ran, here, ran', law, running, channel, ?_, ?_⟩
  · rw [World.answers, law.acts, world]
    decide
  · rw [law.broker, world]
    decide

/-- Two messages for a subscriber next to a pool of one worker. -/
def errand (work : String → Work) (s : Subscriber String) : List (World.Attempt Ledger String) :=
  [.command (.startPool "jobs" work 1),
    .command (.subscribe 0 World.orders "audit" "auditor" s),
    .command (.publish 0 World.orders (.bytes [1])),
    .command (.publish 0 World.orders (.bytes [2])),
    .step (.loop 0), .step (.pool 0 .accept), .step (.pool 0 (.take 0)), .step (.loop 0),
    .step (.loop 0), .step (.pool 0 .accept), .step (.loop 0)]

/-- The only worker of an open pool fails, and the next message is held back, where a synchronous
subscriber has it committed. And a message that waits for a slot has been seen by the listener of a
synchronous subscriber, but by no worker, though the channel is empty. -/
theorem parted :
    (∃ w v : World Ledger String, World.Reachable {} w ∧ World.Reachable {} v ∧
      w.loops.map (·.subscriber) = [.pooled World.flags 0] ∧
      v.loops.map (·.subscriber) = [.typed World.flags willing] ∧
      w.pools.map (·.closed) = [false] ∧
      (w.answers 0).map (fun (m, accept) => (m.offset, accept)) = [(0, true), (1, false)] ∧
      (v.answers 0).map (fun (m, accept) => (m.offset, accept)) = [(0, true), (1, true)] ∧
      w.broker.committed "orders" "audit" = some 1 ∧
      v.broker.committed "orders" "audit" = some 2) ∧
    ∃ w v : World Ledger String, World.Reachable {} w ∧ World.Reachable {} v ∧
      w.pools.map (fun pool => (pool.closed, pool.isAlive, pool.accepted, pool.running)) =
        [(false, true, [], ["up"])] ∧
      w.deliveries 0 = v.deliveries 0 ∧
      (v.journal.filterMap fun (_, n) => n.call).reverse = [("up", true), ("down", true)] := by
  have reach (work : String → Work) (s : Subscriber String) :
      World.Reachable {} (World.opened.after (errand work s)) :=
    World.reachable_opened.leads (World.leads_iff_after.mpr ⟨errand work s, rfl⟩)
  refine ⟨⟨_, _, reach (fun _ => .fails) (.pooled World.flags 0),
    reach (fun _ => .fails) (.typed World.flags willing), rfl, rfl, rfl, ?_, ?_, ?_, ?_⟩,
    ⟨_, _, reach (fun _ => .held) (.pooled World.flags 0),
      reach (fun _ => .held) (.typed World.flags willing), rfl, ?_, ?_⟩⟩
  all_goals decide

end Queue.Workplace

end Courier
